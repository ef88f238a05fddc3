import PdesMas.Lp.EndMessages
import PdesMas.Lp.GvtRing
import PdesMas.Lp.GvtSafety

/-!
The requests with which rounds begin. Those of agents are messages to the root and may
arrive in any order; the root asks for a GVT itself when it has the end messages of all
ALPs. What it takes in the loop of the second cut may be either.
-/

namespace PdesMas.Gvt

structure GvtRequestMessage where
  origin : Nat
  destination : Nat
deriving DecidableEq, Repr

def SystemEvent.isRequest : SystemEvent → Bool
  | .network (.request _) => true
  | .network _ | .post .. => false

/-- A network with the requests that are queued or on their way, and what the root knows of
end messages. -/
structure RequestNetwork where
  network : Network
  requests : List GvtRequestMessage
  root : EndClp

namespace RequestNetwork

inductive Event where
  /-- Anything but a request. -/
  | system (e : SystemEvent)
  /-- `SendGVTMessage` of an agent of the ALP. -/
  | sendGvtMessage (rank : Nat)
  | deliver (k : Nat)
  /-- The root takes an end message. -/
  | endMessage (m : EndMessage)
deriving DecidableEq, Repr

variable (setup : Setup)

/-- A value that the starter has computed is set at the root as well. -/
def setGvt (root : EndClp) : Option Nat → EndClp
  | none => root
  | some _ => root.setGvt

def step (net : RequestNetwork) : Event → Option (RequestNetwork × Option Nat)
  | .system e =>
      if e.isRequest then none
      else
        (net.network.systemStep setup e).map fun r =>
          ({ net with network := r.1, root := setGvt net.root r.2 }, r.2)
  | .sendGvtMessage rank =>
      if rank < setup.size then
        some ({ net with requests := net.requests ++ [⟨rank, 0⟩] }, none)
      else none
  | .deliver k => do
      let m ← net.requests[k]?
      let r ← net.network.step setup (.request m.destination)
      some ({ net with network := r.1, requests := net.requests.eraseIdx k }, none)
  | .endMessage m =>
      if (net.network.lp 0).isReceiving = true then
        let processed := net.root.processEndMessage m
        if processed.requestsGvt then
          (net.network.step setup (.request 0)).map fun r =>
            ({ net with network := r.1, root := processed.clp }, none)
        else some ({ net with root := processed.clp }, none)
      else none

def machine : Machine RequestNetwork Event (Option Nat) := ⟨step setup⟩

structure Initial (numberOfClps numberOfAlps : Nat) (net : RequestNetwork) : Prop where
  network : net.network.Initial setup
  requests : net.requests = []
  root : net.root = .start 0 numberOfClps numberOfAlps

variable {setup} {net net' : RequestNetwork} {e : Event} {o : Option Nat}

/-- A step leaves the network as it is or is a step of the network. -/
theorem network_of_step (h : net.step setup e = some (net', o)) :
    net'.network = net.network ∨
      ∃ e' o', net.network.systemStep setup e' = some (net'.network, o') := by
  cases e with
  | system e =>
      simp only [step] at h
      split at h
      · cases h
      · obtain ⟨⟨network, o'⟩, hr, heq⟩ := Option.map_eq_some_iff.mp h
        cases heq
        exact .inr ⟨e, o', hr⟩
  | sendGvtMessage rank =>
      simp only [step] at h
      split at h
      · cases h
        exact .inl rfl
      · cases h
  | deliver k =>
      obtain ⟨m, _, h⟩ := Option.bind_eq_some_iff.mp h
      obtain ⟨⟨network, o'⟩, hr, h⟩ := Option.bind_eq_some_iff.mp h
      cases h
      exact .inr ⟨.network (.request m.destination), o', hr⟩
  | endMessage m =>
      simp only [step] at h
      split at h
      · split at h
        · obtain ⟨⟨network, o'⟩, hr, heq⟩ := Option.map_eq_some_iff.mp h
          cases heq
          exact .inr ⟨.network (.request 0), o', hr⟩
        · cases h
          exact .inl rfl
      · cases h

theorem orderly_step (h : Network.Orderly setup net.network)
    (hstep : net.step setup e = some (net', o)) : Network.Orderly setup net'.network := by
  rcases network_of_step hstep with heq | ⟨e', o', hstep'⟩
  · rw [heq]
    exact h
  · exact Network.orderly_of_ring h (Network.ring_step h (Network.system_of_step hstep'))

theorem orderly_of_run {numberOfClps numberOfAlps : Nat} {es : List Event}
    {os : List (Option Nat)} (h : net.Initial setup numberOfClps numberOfAlps)
    (hrun : (machine setup).run net es = some (net', os)) :
    Network.Orderly setup net'.network :=
  (machine setup).invariant (fun net => Network.Orderly setup net.network)
    (fun _ _ _ _ => orderly_step) es net net' os (Network.orderly_initial h.network) hrun

/-- A process that waits in the second cut takes no other control message: there is none. -/
theorem controls_of_awaiting {rank : Nat} {m : GvtControlMessage}
    (h : Network.Orderly setup net.network)
    (hawaiting : (net.network.lp rank).awaiting = some m) (source target : Nat) :
    (net.network.link source target).filterMap Packet.control? = [] := by
  obtain ⟨R, p, hround⟩ := h.circulates_of_awaiting hawaiting
  exact hround.token.empty (j := .link source target) nofun

/-- In every reachable state the ring has one control message, wherever it is, if the
starter is not accepting requests, and none if it is. -/
theorem one_control_message {numberOfClps numberOfAlps : Nat} {es : List Event}
    {os : List (Option Nat)} (hinitial : net.Initial setup numberOfClps numberOfAlps)
    (hrun : (machine setup).run net es = some (net', os)) :
    ((net'.network.lp 0).calculator.isAcceptingRequests = true →
        Token.Nowhere net'.network.controls) ∧
      ((net'.network.lp 0).calculator.isAcceptingRequests = false →
        ∃ station m, Token.At net'.network.controls station m) := by
  have horderly := orderly_of_run hinitial hrun
  obtain ⟨R, hidle | ⟨station, m, p, hround⟩⟩ := horderly.phase
  · refine ⟨fun _ => hidle.token, fun hbusy => ?_⟩
    rw [hidle.accepting] at hbusy
    cases hbusy
  · refine ⟨fun haccepting => ?_, fun _ => ⟨station, m, hround.token⟩⟩
    rw [hround.busy] at haccepting
    cases haccepting

/-- One CLP and one ALP with two agents. -/
def duo : RequestNetwork := ⟨.create Network.duo Network.duoProcess, [], .start 0 1 1⟩

/-- Both agents ask for a GVT, and the end message of their ALP comes after the first
request, while the control message is on its way. -/
def requestedTwice : List Event :=
  [.sendGvtMessage 1, .sendGvtMessage 1, .deliver 0, .system (.network (.send 0)),
    .endMessage ⟨1, 0, 1⟩, .deliver 0]

theorem one_control_message_requestedTwice : ∃ net os,
    (machine Network.duo).run duo requestedTwice = some (net, os) ∧
      (net.network.lp 0).calculator.isAcceptingRequests = false ∧
        ∃ station m, Token.At net.network.controls station m := by
  obtain ⟨net, os, hrun, hbusy⟩ : ∃ net os,
      (machine Network.duo).run duo requestedTwice = some (net, os) ∧
        (net.network.lp 0).calculator.isAcceptingRequests = false := ⟨_, _, rfl, rfl⟩
  have hinitial : duo.Initial Network.duo 1 1 := ⟨Network.initial_duo, rfl, rfl⟩
  exact ⟨net, os, hrun, hbusy, (one_control_message hinitial hrun).2 hbusy⟩

end RequestNetwork
end PdesMas.Gvt
