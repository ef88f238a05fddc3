import Mathlib.Algebra.BigOperators.Ring.Finset
import PdesMas.Lp.GvtNetwork

/-!
The white messages of a simulation: what the counters of all processes say of a
process is what is on its way to it. The range query anti-message that a CLP
hands on is the one message sent without `PreProcessSendMessage`. It keeps the
colour it came with, and if that is white, no counter knows of it.
-/

namespace PdesMas.Gvt

def Packet.isWhite : Packet → Bool
  | .simulation t => t.message.colour == .WHITE
  | .control _ => false

end Gvt

namespace GvtCalculator

/-- The counter of messages to a process, where a missing one is zero. -/
def counted (g : GvtCalculator) (rank : Nat) : Int :=
  g.whiteTransientMessageCounter[rank]?.getD 0

/-- The calculator of the same process with the same counters. -/
structure SameCounters (g g' : GvtCalculator) : Prop where
  rank : g'.rank = g.rank
  counter : g'.whiteTransientMessageCounter = g.whiteTransientMessageCounter

variable {g g' : GvtCalculator}

theorem SameCounters.refl (g : GvtCalculator) : g.SameCounters g := ⟨rfl, rfl⟩

theorem SameCounters.counted (h : g.SameCounters g') (target : Nat) :
    g'.counted target = g.counted target := by
  simp only [GvtCalculator.counted, h.counter]

theorem sameCounters_processFirstCut (g : GvtCalculator) (lvt : Nat) (m : GvtControlMessage) :
    g.SameCounters (g.processFirstCut lvt m).calculator := by
  simp only [processFirstCut]
  split
  · split
    · exact ⟨rfl, rfl⟩
    · exact ⟨rfl, rfl⟩
  · exact ⟨rfl, rfl⟩

theorem sameCounters_processSecondCut (g : GvtCalculator) (lvt : Nat) (m : GvtControlMessage) :
    g.SameCounters (g.processSecondCut lvt m).calculator := by
  simp only [processSecondCut]
  split
  · exact ⟨rfl, rfl⟩
  · exact ⟨rfl, rfl⟩

theorem sameCounters_processRequest (g : GvtCalculator) :
    g.SameCounters g.processRequest.calculator := by
  simp only [processRequest]
  split
  · exact ⟨rfl, rfl⟩
  · exact ⟨rfl, rfl⟩

theorem sameCounters_processValue (g : GvtCalculator) : g.SameCounters g.processValue := by
  simp only [processValue]
  split
  · exact ⟨rfl, rfl⟩
  · exact ⟨rfl, rfl⟩

/-- A white message is counted for its destination, and a red one is not. -/
theorem counted_preProcessSendMessage {destination timestamp : Nat}
    (h : g.preProcessSendMessage destination timestamp = some g') (target : Nat) :
    g'.rank = g.rank ∧ g'.counted target = g.counted target +
      if target = destination ∧ (g.colour == .WHITE) = true then 1 else 0 := by
  simp only [preProcessSendMessage] at h
  split at h
  · rename_i hcolour
    split at h
    · cases h
      refine ⟨rfl, ?_⟩
      simp only [counted, incrementWhiteTransientMessageCounter, hcolour,
        Std.TreeMap.getElem?_insert, compare_eq_iff_eq]
      by_cases htarget : target = destination
      · simp [htarget]
      · simp [htarget, Ne.symm htarget]
    · cases h
  · rename_i hcolour
    cases h
    refine ⟨rfl, ?_⟩
    simp [counted, hcolour]

/-- A white message that is taken is counted off for its receiver. -/
theorem counted_preProcessReceiveMessage (g : GvtCalculator) (colour : MatternColour)
    (target : Nat) :
    (g.preProcessReceiveMessage colour).rank = g.rank ∧
      (g.preProcessReceiveMessage colour).counted target = g.counted target -
        if target = g.rank ∧ (colour == .WHITE) = true then 1 else 0 := by
  cases colour with
  | RED =>
      refine ⟨rfl, ?_⟩
      simp [preProcessReceiveMessage, counted]
  | WHITE =>
      refine ⟨rfl, ?_⟩
      simp only [preProcessReceiveMessage, counted, decrementWhiteTransientMessageCounter,
        Std.TreeMap.getElem?_insert, compare_eq_iff_eq]
      by_cases htarget : target = g.rank
      · simp [htarget]
      · simp [htarget, Ne.symm htarget]

end GvtCalculator

namespace Gvt

namespace Lp

/-- The next message that the process sends is a white one that is not counted. -/
def SendsUncounted (lp : Lp) : Prop :=
  ∃ gvt m rest, lp.process = .clp gvt (m :: rest) ∧ lp.sendControlMessageQueue = [] ∧
    lp.process.preProcesses m.payload = false ∧ m.colour = .WHITE

variable {lp lp' : Lp} {parentClp destination : Nat} {packet : Packet}

/-- Only messages in the queue of a CLP go without `PreProcessSendMessage`. -/
theorem clp_of_not_preProcesses {process : Process} {m : SimulationMessage}
    (hdequeue : lp.process.dequeue parentClp = some (process, m))
    (hpre : lp.process.preProcesses m.payload = false) :
    ∃ gvt rest, lp.process = .clp gvt (m :: rest) := by
  cases hprocess : lp.process with
  | alp a => simp [hprocess, Process.preProcesses] at hpre
  | clp gvt queue =>
      rw [hprocess] at hdequeue
      cases queue with
      | nil => cases hdequeue
      | cons n rest =>
          cases hdequeue
          exact ⟨gvt, rest, rfl⟩

theorem counted_send (h : lp.send parentClp = some (lp', destination, packet))
    (hcounts : ¬ lp.SendsUncounted) (target : Nat) :
    lp'.calculator.rank = lp.calculator.rank ∧
      lp'.calculator.counted target = lp.calculator.counted target +
        if target = destination ∧ packet.isWhite = true then 1 else 0 := by
  cases sends_of_send h with
  | control hqueue => simp [Packet.isWhite]
  | message hcontrol hdequeue hpre hsend =>
      exact GvtCalculator.counted_preProcessSendMessage hsend target
  | @handOn process m hcontrol hdequeue hpre =>
      refine ⟨rfl, ?_⟩
      have hred : m.colour ≠ .WHITE := by
        intro hwhite
        obtain ⟨gvt, rest, hprocess⟩ := clp_of_not_preProcesses hdequeue hpre
        exact hcounts ⟨gvt, m, rest, hprocess, hcontrol, hpre, hwhite⟩
      simp [Packet.isWhite, hred]

theorem send_uncounted (h : lp.send parentClp = some (lp', destination, packet))
    (huncounted : lp.SendsUncounted) :
    lp'.calculator = lp.calculator ∧ packet.isWhite = true := by
  obtain ⟨gvt, m, rest, hprocess, hcontrol, hpre, hwhite⟩ := huncounted
  rw [hprocess] at hpre
  simp only [send, hcontrol, hprocess, Process.dequeue, Option.bind_eq_bind, Option.bind_some,
    hpre, Bool.false_eq_true, ite_false, Option.some.injEq, Prod.mk.injEq] at h
  obtain ⟨rfl, _, rfl⟩ := h
  refine ⟨rfl, ?_⟩
  simp [Packet.isWhite, hwhite]

theorem counted_receive {answers : List (Nat × Payload)} {o : Option Nat}
    (h : lp.receive packet answers = some (lp', o)) (target : Nat) :
    lp'.calculator.rank = lp.calculator.rank ∧
      lp'.calculator.counted target = lp.calculator.counted target -
        if target = lp.calculator.rank ∧ packet.isWhite = true then 1 else 0 := by
  cases receives_of_receive h with
  | @message t process restored hreceive =>
      exact lp.calculator.counted_preProcessReceiveMessage t.message.colour target
  | value =>
      have hsame := lp.calculator.sameCounters_processValue
      simpa [Packet.isWhite, receiveValue] using And.intro hsame.rank (hsame.counted target)
  | @firstCut m lvt hcut hawaiting hlvt =>
      have hsame := lp.calculator.sameCounters_processFirstCut lvt m
      simpa [Packet.isWhite, apply] using And.intro hsame.rank (hsame.counted target)
  | await hcut hawaiting => simp [Packet.isWhite]

theorem sameCounters_complete {o : Option Nat} (h : lp.complete = some (lp', o)) :
    lp.calculator.SameCounters lp'.calculator := by
  obtain ⟨m, lvt, _, _, _, _, rfl⟩ := exists_of_complete h
  exact lp.calculator.sameCounters_processSecondCut lvt m

end Lp

namespace Network

variable (setup : Setup)

/-- The sum of all counters for a process. -/
def whiteCounted (lp : Nat → Lp) (target : Nat) : Int :=
  ∑ source ∈ Finset.range setup.size, (lp source).calculator.counted target

/-- The white messages that have been sent to a process and that it has not taken. -/
def whiteInFlight (link : Pipes Nat Packet) (target : Nat) : Nat :=
  ∑ source ∈ Finset.range setup.size, (link source target).countP Packet.isWhite

def Conserved (net : Network) : Prop :=
  ∀ target < setup.size, whiteCounted setup net.lp target = whiteInFlight setup net.link target

/-- No CLP sends a range query anti-message that it received as a white one. -/
def CountsWhite (net : Network) : SystemEvent → Prop
  | .network (.send rank) => ¬ (net.lp rank).SendsUncounted
  | _ => True

/-- The calculators know their ranks, and nothing comes from outside. -/
structure Wired (net : Network) : Prop where
  rank : ∀ rank, (net.lp rank).calculator.rank = rank
  closed : ∀ source target, setup.size ≤ source → net.link source target = []

/-- What a step does to the counters and the links. -/
inductive Moves : Network → SystemEvent → Network → Prop
  | quiet {net : Network} {e : SystemEvent} {rank : Nat} {lp : Lp} (hr : rank < setup.size)
      (hsame : (net.lp rank).calculator.SameCounters lp.calculator)
      (hcounts : net.CountsWhite e) : Moves net e (net.setLp rank lp)
  | sent {net : Network} {rank destination : Nat} {lp : Lp} {packet : Packet}
      (hr : rank < setup.size) (hd : destination < setup.size)
      (hsend : (net.lp rank).send (setup.parentClp rank) = some (lp, destination, packet)) :
      Moves net (.network (.send rank))
        { net.setLp rank lp with link := net.link.push rank destination packet }
  | received {net : Network} {rank source : Nat} {answers : List (Nat × Payload)} {lp : Lp}
      {packet : Packet} {rest : List Packet} {o : Option Nat} (hr : rank < setup.size)
      (hlink : net.link source rank = packet :: rest)
      (hreceive : (net.lp rank).receive packet answers = some (lp, o)) :
      Moves net (.network (.receive rank source answers))
        { net.setLp rank lp with link := net.link.put source rank rest }

variable {setup} {net net' : Network} {e : SystemEvent} {o : Option Nat}

theorem moves_of_step (h : net.systemStep setup e = some (net', o)) : Moves setup net e net' := by
  cases e with
  | post rank m =>
      simp only [systemStep] at h
      split at h
      · rename_i hr
        obtain ⟨lp, hpost, heq⟩ := Option.map_eq_some_iff.mp h
        cases heq
        obtain ⟨process, _, rfl⟩ := Option.map_eq_some_iff.mp hpost
        exact .quiet hr (.refl _) trivial
      · cases h
  | network e =>
      change net.step setup e = some (net', o) at h
      cases works_of_step h with
      | agent hr hagent => exact .quiet hr (.refl _) trivial
      | send hr hd hsend => exact .sent hr hd hsend
      | receive hr hreceiving hlink hreceive => exact .received hr hlink hreceive
      | complete hr hcomplete => exact .quiet hr (Lp.sameCounters_complete hcomplete) trivial
      | request hr hreceiving =>
          exact .quiet hr (GvtCalculator.sameCounters_processRequest _) trivial

/-- A sum of which one term changes. -/
theorem sum_of_change {n r : Nat} {f g : Nat → Int} (hr : r < n)
    (h : ∀ i, i ≠ r → g i = f i) :
    ∑ i ∈ Finset.range n, g i = ∑ i ∈ Finset.range n, f i + (g r - f r) := by
  have hmem := Finset.mem_range.mpr hr
  have hrest : ∑ i ∈ (Finset.range n).erase r, g i = ∑ i ∈ (Finset.range n).erase r, f i := by
    apply Finset.sum_congr rfl
    intro i hi
    exact h i (Finset.ne_of_mem_erase hi)
  rw [← Finset.add_sum_erase _ g hmem, ← Finset.add_sum_erase _ f hmem, hrest]
  omega

theorem whiteCounted_setLp {rank : Nat} (hr : rank < setup.size) (lp : Lp) (target : Nat) :
    whiteCounted setup (net.setLp rank lp).lp target = whiteCounted setup net.lp target +
      (lp.calculator.counted target - (net.lp rank).calculator.counted target) := by
  have hsum := sum_of_change (n := setup.size)
    (f := fun source => (net.lp source).calculator.counted target)
    (g := fun source => ((net.setLp rank lp).lp source).calculator.counted target) hr
    (fun i hi => by simp only [setLp, Function.update_of_ne hi])
  simpa [whiteCounted, setLp] using hsum

theorem whiteInFlight_push {source : Nat} (hs : source < setup.size) (link : Pipes Nat Packet)
    (destination target : Nat) (packet : Packet) :
    (whiteInFlight setup (link.push source destination packet) target : Int) =
      whiteInFlight setup link target +
        if target = destination ∧ packet.isWhite = true then 1 else 0 := by
  have hpush : whiteInFlight setup (link.push source destination packet) target =
      whiteInFlight setup link target +
        if target = destination ∧ packet.isWhite = true then 1 else 0 :=
    Pipes.arriving_push (Finset.mem_range.mpr hs) target
  rw [hpush]
  push_cast
  rfl

theorem whiteInFlight_put {source rank : Nat} (hs : source < setup.size)
    {link : Pipes Nat Packet} {packet : Packet} {rest : List Packet}
    (hlink : link source rank = packet :: rest) (target : Nat) :
    (whiteInFlight setup (link.put source rank rest) target : Int) =
      whiteInFlight setup link target -
        if target = rank ∧ packet.isWhite = true then 1 else 0 := by
  have hput : whiteInFlight setup link target = whiteInFlight setup (link.put source rank rest)
      target + if target = rank ∧ packet.isWhite = true then 1 else 0 :=
    Pipes.arriving_put (Finset.mem_range.mpr hs) hlink target
  rw [hput]
  push_cast
  omega

theorem wired_step (h : Moves setup net e net') (hw : Wired setup net) : Wired setup net' := by
  have hrank : ∀ {rank : Nat} {lp : Lp}, lp.calculator.rank = (net.lp rank).calculator.rank →
      ∀ i, ((net.setLp rank lp).lp i).calculator.rank = i := by
    intro rank lp hlp i
    by_cases hi : i = rank
    · subst hi
      simp [setLp, hlp, hw.rank]
    · simp [setLp, Function.update_of_ne hi, hw.rank]
  cases h with
  | quiet hr hsame hcounts => exact ⟨hrank hsame.rank, hw.closed⟩
  | @sent rank destination lp packet hr hd hsend =>
      refine ⟨hrank ?_, ?_⟩
      · by_cases hu : (net.lp rank).SendsUncounted
        · rw [(Lp.send_uncounted hsend hu).1]
        · exact (Lp.counted_send hsend hu 0).1
      · intro source target hs
        change net.link.push rank destination packet source target = []
        rw [Pipes.push_of_ne]
        · exact hw.closed source target hs
        · omega
  | @received rank source answers lp packet rest o hr hlink hreceive =>
      refine ⟨hrank (Lp.counted_receive hreceive 0).1, ?_⟩
      intro i target hs
      change net.link.put source rank rest i target = []
      rw [Pipes.put_of_ne]
      · exact hw.closed i target hs
      · intro h
        rw [h.1] at hs
        rw [hw.closed source rank hs] at hlink
        cases hlink

/-- A step keeps the sums equal unless it sends a white message that is not counted. -/
theorem conserved_step_iff (h : Moves setup net e net') (hw : Wired setup net)
    (hc : Conserved setup net) : Conserved setup net' ↔ net.CountsWhite e := by
  cases h with
  | @quiet _ rank lp hr hsame hcounts =>
      refine iff_of_true ?_ hcounts
      intro target htarget
      have hbefore := hc target htarget
      change whiteCounted setup (net.setLp rank lp).lp target = whiteInFlight setup net.link target
      rw [whiteCounted_setLp hr, hsame.counted]
      omega
  | @sent rank destination lp packet hr hd hsend =>
      constructor
      · intro hafter huncounted
        obtain ⟨hcalculator, hwhite⟩ := Lp.send_uncounted hsend huncounted
        have hsum := hafter destination hd
        have hbefore := hc destination hd
        change whiteCounted setup (net.setLp rank lp).lp destination = _ at hsum
        rw [whiteCounted_setLp hr, hcalculator, whiteInFlight_push hr] at hsum
        simp only [hwhite, and_self, ite_true] at hsum
        omega
      · intro hcounts target htarget
        have hbefore := hc target htarget
        have hself := (Lp.counted_send hsend hcounts target).2
        change whiteCounted setup (net.setLp rank lp).lp target = _
        rw [whiteCounted_setLp hr, whiteInFlight_push hr]
        omega
  | @received rank source answers lp packet rest o hr hlink hreceive =>
      have hs : source < setup.size := by
        by_contra hs
        rw [hw.closed source rank (Nat.le_of_not_lt hs)] at hlink
        cases hlink
      refine iff_of_true ?_ trivial
      intro target htarget
      have hbefore := hc target htarget
      have hself := (Lp.counted_receive hreceive target).2
      rw [hw.rank rank] at hself
      change whiteCounted setup (net.setLp rank lp).lp target = _
      rw [whiteCounted_setLp hr, whiteInFlight_put hs hlink]
      omega

theorem wired_initial (h : net.Initial setup) : Wired setup net := by
  refine ⟨?_, ?_⟩
  · intro rank
    rw [h.calculator rank]
    rfl
  · intro source target _
    exact h.link source target

theorem conserved_initial (h : net.Initial setup) : Conserved setup net := by
  intro target _
  simp [whiteCounted, whiteInFlight, h.calculator, h.link, GvtCalculator.create,
    GvtCalculator.counted]

/-- In every run, the counters agree with what is on its way in every state exactly if no
CLP sends a white message that it does not count. -/
theorem conserved_throughout_iff {es : List SystemEvent} {results : List (Option Nat)}
    (hinitial : net.Initial setup)
    (hrun : (systemMachine setup).run net es = some (net', results)) :
    (systemMachine setup).Throughout (Conserved setup) net es ↔
      (systemMachine setup).Meets CountsWhite net es := by
  have hwired : (systemMachine setup).Meets (fun _ _ => True) net es :=
    (systemMachine setup).meets_true net es
  rw [(systemMachine setup).throughout_iff (fun _ _ => True) CountsWhite (Wired setup)
    (Conserved setup) ?_ ?_ es net net' results (wired_initial hinitial) hwired hrun]
  · simp [conserved_initial hinitial]
  · exact fun s e s' o hw _ hs => wired_step (moves_of_step hs) hw
  · exact fun s e s' o hw hc _ hs => conserved_step_iff (moves_of_step hs) hw hc

/-- Two CLPs, and an ALP with one agent at the first of them. -/
def chain : Setup := ⟨3, fun _ => 0⟩

def chainProcess : Nat → Process
  | 0 | 1 => .clp 0 []
  | rank => .alp (.create rank 0 2 1 [1])

/-- A range query of the agent is undone, and the first CLP hands the anti-message on to
the second. -/
def antiHandedOn : List SystemEvent :=
  let range : Range := ⟨⟨0, 0⟩, ⟨9, 9⟩⟩
  let tag : RollbackTag := ⟨7, 0, 1, 0⟩
  [.network (.agent 2 (.issue 1 (.rangeQuery range) 5)), .network (.send 2),
    .network (.receive 0 2 []), .post 0 ⟨2, .WHITE, .rollback ⟨0, ⟨1, 2⟩, tag⟩⟩,
    .network (.send 0), .network (.receive 2 0 []), .network (.send 2),
    .network (.receive 0 2 [(1, .agent (.anti ⟨5, ⟨1, 2⟩, tag, .rangeQueryAnti range 1⟩))]),
    .network (.send 0)]

theorem initial_chain : (create chain chainProcess).Initial chain := by
  refine initial_create chain ?_
  intro rank
  match rank with
  | 0 | 1 | _ + 2 => rfl

theorem conserved_throughout_iff_antiHandedOn : ∃ net results,
    (systemMachine chain).run (create chain chainProcess) antiHandedOn = some (net, results) ∧
      ((systemMachine chain).Throughout (Conserved chain) (create chain chainProcess)
        antiHandedOn ↔
          (systemMachine chain).Meets CountsWhite (create chain chainProcess) antiHandedOn) :=
  ⟨_, _, rfl, conserved_throughout_iff initial_chain rfl⟩

/-- The anti-message is on its way as a white one, and no counter has it. -/
theorem anti_not_counted : (create chain chainProcess).Initial chain ∧
    ∃ net results,
      (systemMachine chain).run (create chain chainProcess) antiHandedOn = some (net, results) ∧
        ¬ Conserved chain net := by
  refine ⟨initial_chain, _, _, rfl, ?_⟩
  intro h
  exact absurd (h 1 (by decide)) (by decide)

end Network
end Gvt
end PdesMas
