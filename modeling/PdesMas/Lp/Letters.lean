import PdesMas.Library.Ledger
import PdesMas.Lp.ClpAnswers
import PdesMas.Lp.SingleHome
import PdesMas.Routing.Delivery
import PdesMas.Routing.PortsInUse

/-!
The simulation messages on their way through the network as one bag of letters,
each at its spot: received by a CLP, queued by it, or on a link. A step puts a
letter in, takes one out at an ALP, moves one, or lets a CLP handle one and
queue others.
-/

namespace PdesMas

/-- The agent an answer is for. -/
def Content.agent? : Content → Option LpId
  | .agent .. => none
  | .response r => some r.originalAgent
  | .rollback r => some r.originalAgent

namespace Clp

/-- What a CLP makes of a letter: what it queues, and what `Receive` tells of it. -/
inductive Treats (c : Clp) : Content → List SimulationMessage → Received → Prop
  | processed {serial numberOfHops m ssvId} {responses : List ResponseMessage}
      {rolls : List RollbackMessage} (hid : m.ssvId? = some ssvId)
      (hhere : c.routeTable.getDirectionFromSsvId ssvId = some .HERE)
      (hresponds : Responds c.gvt m responses) :
      Treats c (.agent serial numberOfHops m)
        (responses.map (·.sentBy c.rank) ++ rolls.map (·.sentBy c.rank)) (.processed serial m)
  | forwarded {serial numberOfHops m ssvId direction destination} (hid : m.ssvId? = some ssvId)
      (hroute : c.routeTable.getDirectionFromSsvId ssvId = some direction)
      (haway : direction ≠ .HERE)
      (hport : c.routeTable.getRankFromDirection direction = some destination) :
      Treats c (.agent serial numberOfHops m)
        [⟨c.rank, destination, .agent serial (numberOfHops + 1) m⟩] .forwarded
  | passed {content agent direction destination} (hagent : content.agent? = some agent)
      (hroute : c.routeTable.getDirectionFromRank agent.rank = some direction)
      (haway : direction ≠ .HERE)
      (hport : c.routeTable.getRankFromDirection direction = some destination) :
      Treats c content [⟨c.rank, destination, content⟩] .forwarded
  | dropped {content agent} (hagent : content.agent? = some agent)
      (hhere : c.routeTable.getDirectionFromRank agent.rank = some .HERE) :
      Treats c content [] .dropped

/-- How the destination of a letter changes when it is sent. -/
inductive Readdresses (c : Clp) (m : SimulationMessage) : SimulationMessage → Prop
  | message (hagent : m.content.agent? = none) : Readdresses c m m
  | here {agent} (hagent : m.content.agent? = some agent)
      (hhere : c.routeTable.getDirectionFromRank agent.rank = some .HERE) : Readdresses c m m
  | away {agent direction destination} (hagent : m.content.agent? = some agent)
      (hroute : c.routeTable.getDirectionFromRank agent.rank = some direction)
      (haway : direction ≠ .HERE)
      (hport : c.routeTable.getRankFromDirection direction = some destination) :
      Readdresses c m { m with destination := destination }

variable {c c' : Clp} {rollbacks : RollbackList → List (LpId × Nat)} {clock : SsvId → Nat}

/-- The queues have no part in it. -/
theorem Treats.congr {content : Content} {l : List SimulationMessage} {r : Received}
    (h : Treats c content l r) (hrank : c.rank = c'.rank) (hgvt : c.gvt = c'.gvt)
    (htable : c.routeTable = c'.routeTable) : Treats c' content l r := by
  cases h with
  | processed hid hhere hresponds =>
      rw [hrank]
      exact .processed hid (htable ▸ hhere) (hgvt ▸ hresponds)
  | forwarded hid hroute haway hport =>
      rw [hrank]
      exact .forwarded hid (htable ▸ hroute) haway (htable ▸ hport)
  | passed hagent hroute haway hport =>
      rw [hrank]
      exact .passed hagent (htable ▸ hroute) haway (htable ▸ hport)
  | dropped hagent hhere => exact .dropped hagent (htable ▸ hhere)

theorem treats_of_routeToAgent {agent : LpId} {content : Content} {r : Received}
    (hagent : content.agent? = some agent) (h : c.routeToAgent agent content = .ok (c', r)) :
    ∃ l, Treats c content l r ∧ Queues c c' l := by
  obtain ⟨direction, hroute, h⟩ := bind_eq_ok.mp h
  split at h
  · rename_i hhere
    cases h
    exact ⟨[], .dropped hagent (hhere ▸ orExit_eq_ok.mp hroute), .refl _⟩
  · rename_i haway
    obtain ⟨destination, hport, h⟩ := bind_eq_ok.mp h
    cases h
    exact ⟨_, .passed hagent (orExit_eq_ok.mp hroute) haway (orExit_eq_ok.mp hport),
      rfl, rfl, rfl, rfl, rfl⟩

theorem treats_of_receiveSimulation {content : Content} {r : Received}
    (h : c.receiveSimulation rollbacks clock content = .ok (c', r)) :
    ∃ l, Treats c content l r ∧ Queues c c' l := by
  cases content with
  | agent serial numberOfHops m =>
      obtain ⟨ssvId, hid, h⟩ := bind_eq_ok.mp h
      obtain ⟨direction, hroute, h⟩ := bind_eq_ok.mp h
      split at h
      · rename_i hhere
        obtain ⟨c₁, hprocess, h⟩ := bind_eq_ok.mp h
        cases h
        obtain ⟨responses, rolls, hresponds, hqueues⟩ := responds_of_processMessage hprocess
        exact ⟨_, .processed (orExit_eq_ok.mp hid) (hhere ▸ orExit_eq_ok.mp hroute) hresponds,
          hqueues⟩
      · rename_i haway
        obtain ⟨destination, hport, h⟩ := bind_eq_ok.mp h
        cases h
        exact ⟨_, .forwarded (orExit_eq_ok.mp hid) (orExit_eq_ok.mp hroute) haway
          (orExit_eq_ok.mp hport), rfl, rfl, rfl, rfl, rfl⟩
  | response m => exact treats_of_routeToAgent rfl h
  | rollback m => exact treats_of_routeToAgent rfl h

theorem readdresses_of_reroute {m m' : SimulationMessage} {agent : LpId}
    (hagent : m.content.agent? = some agent) (h : c.reroute m agent = .ok m') :
    Readdresses c m m' := by
  obtain ⟨direction, hroute, h⟩ := bind_eq_ok.mp h
  split at h
  · rename_i hhere
    cases h
    exact .here hagent (hhere ▸ orExit_eq_ok.mp hroute)
  · rename_i haway
    obtain ⟨destination, hport, h⟩ := bind_eq_ok.mp h
    cases h
    exact .away hagent (orExit_eq_ok.mp hroute) haway (orExit_eq_ok.mp hport)

/-- What `Send` takes from the queues. -/
inductive Dispatches (c : Clp) : Clp → Sent → Prop
  | nothing : Dispatches c c .nothing
  | simulation {m m' rest} (hqueue : c.sendMessageQueue = m :: rest)
      (haddress : Readdresses c m m') :
      Dispatches c { c with sendMessageQueue := rest } (.simulation m')
  | migration {m rest} (hqueue : c.sendLoadBalancingMessageQueue = m :: rest) :
      Dispatches c { c with sendLoadBalancingMessageQueue := rest } (.migration m)

theorem dispatches_of_send {r : Sent} (h : c.send = .ok (c', r)) : Dispatches c c' r := by
  simp only [send] at h
  split at h
  · rename_i m rest hqueue
    cases h
    exact .migration hqueue
  · split at h
    · rename_i m rest hqueue
      split at h
      · rename_i hcontent
        cases h
        exact .simulation hqueue (.message (by rw [hcontent]; rfl))
      · rename_i hcontent
        obtain ⟨m', hm', h⟩ := bind_eq_ok.mp h
        cases h
        exact .simulation hqueue (readdresses_of_reroute (by rw [hcontent]; rfl) hm')
      · rename_i hcontent
        obtain ⟨m', hm', h⟩ := bind_eq_ok.mp h
        cases h
        exact .simulation hqueue (readdresses_of_reroute (by rw [hcontent]; rfl) hm')
    · cases h
      exact .nothing

theorem Readdresses.content {m m' : SimulationMessage} (h : Readdresses c m m') :
    m'.content = m.content := by
  cases h <;> rfl

end Clp

namespace Network

/-- Where a letter is. -/
inductive Spot where
  | received (clp : Nat)
  | queued (clp : Nat)
  | link (source target : Nat)
deriving DecidableEq, Repr

abbrev Letter := Spot × SimulationMessage

def placed (p : Spot) (l : List SimulationMessage) : Multiset Letter := l.map (Prod.mk p)

def simulationsOf (l : List Transfer) : List SimulationMessage :=
  l.filterMap fun
    | .simulation m => some m
    | .migration _ => none

def messagesAt (net : Network) : Spot → List SimulationMessage
  | .received x => (net.clp x).receiveMessageQueue
  | .queued x => (net.clp x).sendMessageQueue
  | .link a b => simulationsOf (net.link a b)

variable {setup : Setup} {net net' : Network}

/-- The CLPs have the first ranks, the ALPs those behind. -/
def numberOfProcesses (setup : Setup) : Nat :=
  setup.numberOfClps + setup.initialisor.alpToClpMap.size

def spots (setup : Setup) : Finset Spot :=
  ((Finset.range setup.numberOfClps).image .received ∪
    (Finset.range setup.numberOfClps).image .queued) ∪
    (Finset.range (numberOfProcesses setup) ×ˢ Finset.range (numberOfProcesses setup)).image
      fun e => .link e.1 e.2

@[simp] theorem received_mem_spots {x : Nat} :
    .received x ∈ spots setup ↔ x < setup.numberOfClps := by
  simp [spots]

@[simp] theorem queued_mem_spots {x : Nat} :
    .queued x ∈ spots setup ↔ x < setup.numberOfClps := by
  simp [spots]

@[simp] theorem link_mem_spots {a b : Nat} :
    .link a b ∈ spots setup ↔ a < numberOfProcesses setup ∧ b < numberOfProcesses setup := by
  simp [spots]

/-- The simulation messages on their way. -/
def letters (setup : Setup) (net : Network) : Multiset Letter :=
  Ledger.bag (spots setup) net.messagesAt

section Spots

@[simp] theorem simulationsOf_append (l l' : List Transfer) :
    simulationsOf (l ++ l') = simulationsOf l ++ simulationsOf l' := List.filterMap_append

theorem messagesAt_setClp (net : Network) (x : Nat) (c : Clp) :
    (net.setClp x c).messagesAt =
      Function.update (Function.update net.messagesAt (.received x) c.receiveMessageQueue)
        (.queued x) c.sendMessageQueue := by
  funext p
  cases p with
  | received y | queued y =>
      by_cases hy : y = x <;> simp [messagesAt, setClp, hy]
  | link a b => simp [messagesAt, setClp]

theorem messagesAt_setClp_of_same {net : Network} {x : Nat} {c : Clp}
    (hreceived : c.receiveMessageQueue = (net.clp x).receiveMessageQueue)
    (hsent : c.sendMessageQueue = (net.clp x).sendMessageQueue) :
    (net.setClp x c).messagesAt = net.messagesAt := by
  have hfirst : Function.update net.messagesAt (.received x) c.receiveMessageQueue =
      net.messagesAt := Function.update_eq_self_iff.mpr hreceived
  rw [messagesAt_setClp, hfirst]
  exact Function.update_eq_self_iff.mpr hsent

theorem messagesAt_setLink (net : Network) (a b : Nat) (l : List Transfer) :
    (net.setLink a b l).messagesAt =
      Function.update net.messagesAt (.link a b) (simulationsOf l) := by
  funext p
  cases p with
  | received | queued => simp [messagesAt]
  | link i j =>
      by_cases h : i = a ∧ j = b <;> simp [messagesAt, setLink_link, h]

theorem messagesAt_push (net : Network) (a b : Nat) (m : SimulationMessage) :
    (net.push a b (.simulation m)).messagesAt =
      Function.update net.messagesAt (.link a b) (net.messagesAt (.link a b) ++ [m]) := by
  rw [push, messagesAt_setLink, simulationsOf_append]
  rfl

theorem messagesAt_push_migration (net : Network) (a b : Nat) (m : StateMigrationMessage) :
    (net.push a b (.migration m)).messagesAt = net.messagesAt := by
  rw [push, messagesAt_setLink, simulationsOf_append]
  exact Function.update_eq_self_iff.mpr (List.append_nil _)

end Spots

theorem letters_setClp_of_same {x : Nat} {c : Clp}
    (hreceived : c.receiveMessageQueue = (net.clp x).receiveMessageQueue)
    (hsent : c.sendMessageQueue = (net.clp x).sendMessageQueue) :
    (net.setClp x c).letters setup = net.letters setup := by
  rw [letters, messagesAt_setClp_of_same hreceived hsent]
  rfl

/-- A CLP that queues `l` adds letters. -/
theorem letters_queue {x : Nat} (hx : x < setup.numberOfClps) {c' : Clp}
    {l : List SimulationMessage} (h : Clp.Queues (net.clp x) c' l) :
    (net.setClp x c').letters setup =
      net.letters setup + placed (.queued x) l := by
  have hreceived : Function.update net.messagesAt (.received x) c'.receiveMessageQueue =
      net.messagesAt := Function.update_eq_self_iff.mpr h.received
  rw [letters, messagesAt_setClp, hreceived, h.sent]
  exact Ledger.bag_append (queued_mem_spots.mpr hx) l

/-- A CLP that queues `l` for the letter it takes. -/
theorem letters_handle {x : Nat} (hx : x < setup.numberOfClps) {c' : Clp} {m : SimulationMessage}
    {rest l : List SimulationMessage} (hqueue : (net.clp x).receiveMessageQueue = m :: rest)
    (h : Clp.Queues { net.clp x with receiveMessageQueue := rest } c' l) :
    ∃ others : Multiset Letter, net.letters setup = (.received x, m) ::ₘ others ∧
      (net.setClp x c').letters setup =
        others + placed (.queued x) l := by
  refine ⟨_, Ledger.bag_cons (received_mem_spots.mpr hx) hqueue, ?_⟩
  rw [letters, messagesAt_setClp, h.received, h.sent]
  have hother : net.messagesAt (.queued x) =
      Function.update net.messagesAt (.received x) rest (.queued x) :=
    (Function.update_of_ne (by simp) _ _).symm
  change Ledger.bag _ (Function.update _ _ (net.messagesAt (.queued x) ++ l)) = _
  rw [hother]
  exact Ledger.bag_append (queued_mem_spots.mpr hx) l

/-- What the network has of a letter that leaves a queue for a link. -/
theorem letters_send {x : Nat} (hx : x < setup.numberOfClps) {m m' : SimulationMessage}
    {rest : List SimulationMessage} (hqueue : (net.clp x).sendMessageQueue = m :: rest)
    (htarget : .link x m'.destination ∈ spots setup) :
    ∃ others : Multiset Letter, net.letters setup = (.queued x, m) ::ₘ others ∧
      ((net.setClp x { net.clp x with sendMessageQueue := rest }).push x m'.destination
        (.simulation m')).letters setup = (.link x m'.destination, m') ::ₘ others := by
  refine ⟨_, Ledger.bag_cons (queued_mem_spots.mpr hx) hqueue, ?_⟩
  have hreceived : Function.update net.messagesAt (.received x)
      (net.clp x).receiveMessageQueue = net.messagesAt := Function.update_eq_self_iff.mpr rfl
  rw [letters, messagesAt_push, messagesAt_setClp, hreceived]
  exact (Ledger.bag_append htarget [m']).trans (Multiset.add_comm _ _)

theorem letters_take {a b : Nat} {m : SimulationMessage} {rest : List Transfer}
    (hlink : net.link a b = .simulation m :: rest) (hspot : .link a b ∈ spots setup) :
    net.letters setup = (.link a b, m) ::ₘ (net.setLink a b rest).letters setup := by
  rw [letters, letters, messagesAt_setLink]
  refine Ledger.bag_cons hspot ?_
  simp [messagesAt, hlink, simulationsOf]

theorem letters_deliver {a b : Nat} (hb : b < setup.numberOfClps) (m : SimulationMessage) :
    (net.setClp b (receiveToLp (net.clp b) a (.simulation m))).letters setup =
      (.received b, { m with lastHop := a }) ::ₘ net.letters setup := by
  rw [letters, messagesAt_setClp]
  have hqueued : ∀ l, Function.update (Function.update net.messagesAt (.received b) l)
      (.queued b) (net.clp b).sendMessageQueue =
        Function.update net.messagesAt (.received b) l := by
    intro l
    refine Function.update_eq_self_iff.mpr ?_
    rw [Function.update_of_ne (by simp)]
    rfl
  rw [show (receiveToLp (net.clp b) a (.simulation m)).sendMessageQueue =
    (net.clp b).sendMessageQueue from rfl, hqueued]
  exact (Ledger.bag_append (received_mem_spots.mpr hb) [_]).trans (Multiset.add_comm _ _)

end Network
end PdesMas
