import Mathlib.Algebra.Order.BigOperators.Group.Finset
import PdesMas.Lp.WhiteMessages

/-!
The first cut with all that the processes may have sent and received before it.
The message adds up what `GetWhiteTransientMessageCounter` says of each process,
and that is `-1` where nothing was counted. The starter looks only at the
processes it has a count for itself. The number of white messages on their way is
in the message if an `int` holds it, every process has sent one to every other, and
received one, before the cut, and none was handed on.
-/

namespace PdesMas
namespace GvtCalculator

/-- What is asked of a calculator. A message is handed on without
`PreProcessSendMessage` in the colour it came with. -/
inductive Call where
  | request
  | value
  | firstCut (lvt : Nat) (m : GvtControlMessage)
  | secondCut (lvt : Nat) (m : GvtControlMessage)
  | send (destination timestamp : Nat)
  | handOn (destination : Nat) (colour : MatternColour)
  | receive (colour : MatternColour)

theorem size_processRequest (g : GvtCalculator) : g.processRequest.calculator.size = g.size := by
  simp only [processRequest]
  split
  · rfl
  · rfl

theorem size_processFirstCut (g : GvtCalculator) (lvt : Nat) (m : GvtControlMessage) :
    (g.processFirstCut lvt m).calculator.size = g.size := by
  simp only [processFirstCut]
  split
  · split
    · rfl
    · rfl
  · rfl

theorem size_processSecondCut (g : GvtCalculator) (lvt : Nat) (m : GvtControlMessage) :
    (g.processSecondCut lvt m).calculator.size = g.size := by
  simp only [processSecondCut]
  split
  · rfl
  · rfl

/-- A white message is not for its sender, and its receiver has a counter from then on. -/
theorem mem_preProcessSendMessage {g g' : GvtCalculator} {destination timestamp : Nat}
    (h : g.preProcessSendMessage destination timestamp = some g') (target : Nat) :
    ((g.colour == .WHITE) = true → destination ≠ g.rank) ∧
      (target ∈ g'.whiteTransientMessageCounter ↔ target ∈ g.whiteTransientMessageCounter ∨
        target = destination ∧ (g.colour == .WHITE) = true) := by
  simp only [preProcessSendMessage] at h
  split at h
  · rename_i hcolour
    split at h
    · rename_i hassert
      cases h
      refine ⟨fun _ => hassert.1, ?_⟩
      simp only [incrementWhiteTransientMessageCounter, Std.TreeMap.mem_insert,
        compare_eq_iff_eq, hcolour, beq_self_eq_true, and_true]
      rw [or_comm, @eq_comm _ destination]
    · cases h
  · rename_i hcolour
    cases h
    simp [hcolour]

theorem mem_preProcessReceiveMessage (g : GvtCalculator) (colour : MatternColour) (target : Nat) :
    target ∈ (g.preProcessReceiveMessage colour).whiteTransientMessageCounter ↔
      target ∈ g.whiteTransientMessageCounter ∨
        target = g.rank ∧ (colour == .WHITE) = true := by
  cases colour with
  | WHITE =>
      simp only [preProcessReceiveMessage, decrementWhiteTransientMessageCounter,
        Std.TreeMap.mem_insert, compare_eq_iff_eq, beq_self_eq_true, and_true]
      rw [or_comm, @eq_comm _ g.rank]
  | RED => simp [preProcessReceiveMessage]

/-- A calculator with the white messages its process has sent to each process, those it
has handed on to each, and those it has received. The numbers are the model's own. -/
structure Traffic where
  calculator : GvtCalculator
  sent : Nat → Nat
  handedOn : Nat → Nat
  received : Nat

namespace Traffic

def create (rank size : Nat) : Traffic := ⟨.create rank size, fun _ => 0, fun _ => 0, 0⟩

def step (t : Traffic) : Call → Option (Traffic × Unit)
  | .request => some ({ t with calculator := t.calculator.processRequest.calculator }, ())
  | .value => some ({ t with calculator := t.calculator.processValue }, ())
  | .firstCut lvt m =>
      some ({ t with calculator := (t.calculator.processFirstCut lvt m).calculator }, ())
  | .secondCut lvt m =>
      some ({ t with calculator := (t.calculator.processSecondCut lvt m).calculator }, ())
  | .send destination timestamp =>
      (t.calculator.preProcessSendMessage destination timestamp).map fun calculator =>
        ({ t with
            calculator := calculator
            sent := fun target =>
              t.sent target +
                if target = destination ∧ (t.calculator.colour == .WHITE) = true then 1
                else 0 }, ())
  | .handOn destination colour =>
      some ({ t with
          handedOn := fun target =>
            t.handedOn target +
              if target = destination ∧ (colour == .WHITE) = true then 1 else 0 }, ())
  | .receive colour =>
      some ({ t with
          calculator := t.calculator.preProcessReceiveMessage colour
          received := t.received + if (colour == .WHITE) = true then 1 else 0 }, ())

def machine : Machine Traffic Call Unit := ⟨step⟩

/-- What may be behind a process when a cut comes to it. -/
structure Past (rank size : Nat) where
  calls : List Call
  traffic : Traffic
  answers : List Unit
  reached : machine.run (create rank size) calls = some (traffic, answers)

/-- The counters say what was sent and received, and there is one for a process as soon
as something was. -/
structure Tallied (rank size : Nat) (t : Traffic) : Prop where
  knowsRank : t.calculator.rank = rank
  knowsSize : t.calculator.size = size
  own : t.sent rank = 0
  counted : ∀ target : Nat, t.calculator.counted target =
    t.sent target - if target = rank then (t.received : Int) else 0
  known : ∀ target : Nat, target ∈ t.calculator.whiteTransientMessageCounter ↔
    0 < t.sent target ∨ target = rank ∧ 0 < t.received

variable {rank size : Nat} {t t' : Traffic}

theorem tallied_create (rank size : Nat) : (create rank size).Tallied rank size := by
  refine ⟨rfl, rfl, rfl, ?_, ?_⟩
  · intro target
    simp [create, GvtCalculator.create, GvtCalculator.counted]
  · intro target
    simp [create, GvtCalculator.create]

/-- A step that leaves the counters alone leaves what was sent and received. -/
theorem Tallied.of_sameCounters {g : GvtCalculator} (h : t.Tallied rank size)
    (hsame : t.calculator.SameCounters g) (hsize : g.size = t.calculator.size) :
    ({ t with calculator := g } : Traffic).Tallied rank size := by
  refine ⟨hsame.rank.trans h.knowsRank, hsize.trans h.knowsSize, h.own, ?_, ?_⟩
  · intro target
    rw [← h.counted target]
    exact hsame.counted target
  · intro target
    rw [← h.known target]
    exact hsame.counter ▸ Iff.rfl

theorem Tallied.send {g : GvtCalculator} {destination timestamp : Nat}
    (h : t.Tallied rank size)
    (hsend : t.calculator.preProcessSendMessage destination timestamp = some g) :
    ({ t with
        calculator := g
        sent := fun target =>
          t.sent target +
            if target = destination ∧ (t.calculator.colour == .WHITE) = true then 1 else 0 } :
      Traffic).Tallied rank size := by
  have hkeeps := (keeps_preProcessSendMessage hsend).1
  refine ⟨hkeeps.rank.trans h.knowsRank, hkeeps.size.trans h.knowsSize, ?_, ?_, ?_⟩
  · have hne : ¬ (rank = destination ∧ (t.calculator.colour == .WHITE) = true) := by
      intro hown
      apply (mem_preProcessSendMessage hsend rank).1 hown.2
      rw [h.knowsRank, hown.1]
    simp only [if_neg hne, h.own]
  · intro target
    have hcounted := (counted_preProcessSendMessage hsend target).2
    rw [h.counted target] at hcounted
    simp only [hcounted]
    split
    · push_cast
      omega
    · push_cast
      omega
  · intro target
    rw [(mem_preProcessSendMessage hsend target).2, h.known target]
    simp only
    split
    · rename_i hcounts
      simp [hcounts]
    · rename_i hcounts
      rw [or_iff_left hcounts, Nat.add_zero]

theorem Tallied.receive (h : t.Tallied rank size) (colour : MatternColour) :
    ({ t with
        calculator := t.calculator.preProcessReceiveMessage colour
        received := t.received + if (colour == .WHITE) = true then 1 else 0 } :
      Traffic).Tallied rank size := by
  have hkeeps := keeps_preProcessReceiveMessage t.calculator colour
  refine ⟨hkeeps.rank.trans h.knowsRank, hkeeps.size.trans h.knowsSize, h.own, ?_, ?_⟩
  · intro target
    have hcounted := (counted_preProcessReceiveMessage t.calculator colour target).2
    rw [h.counted target, h.knowsRank] at hcounted
    rw [hcounted]
    by_cases htarget : target = rank
    · simp only [htarget, true_and, if_true]
      split
      · push_cast
        omega
      · push_cast
        omega
    · simp [htarget]
  · intro target
    rw [mem_preProcessReceiveMessage, h.known target, h.knowsRank]
    by_cases hcolour : (colour == .WHITE) = true
    · simp only [hcolour, if_true, and_true, Nat.succ_pos]
      tauto
    · simp [hcolour]

theorem tallied_step {c : Call} {u : Unit} (h : t.Tallied rank size)
    (hstep : t.step c = some (t', u)) : t'.Tallied rank size := by
  cases c with
  | request =>
      cases hstep
      exact h.of_sameCounters (sameCounters_processRequest _) (size_processRequest _)
  | value =>
      cases hstep
      exact h.of_sameCounters (sameCounters_processValue _) (keeps_processValue _).size
  | firstCut lvt m =>
      cases hstep
      exact h.of_sameCounters (sameCounters_processFirstCut _ lvt m) (size_processFirstCut _ lvt m)
  | secondCut lvt m =>
      cases hstep
      exact h.of_sameCounters (sameCounters_processSecondCut _ lvt m)
        (size_processSecondCut _ lvt m)
  | send destination timestamp =>
      obtain ⟨g, hsend, heq⟩ := Option.map_eq_some_iff.mp hstep
      cases heq
      exact h.send hsend
  | handOn destination colour =>
      cases hstep
      exact ⟨h.knowsRank, h.knowsSize, h.own, h.counted, h.known⟩
  | receive colour =>
      cases hstep
      exact h.receive colour

theorem Past.tallied (past : Past rank size) : past.traffic.Tallied rank size :=
  machine.invariant (Tallied rank size) (fun _ _ _ _ h hs => tallied_step h hs) past.calls
    (create rank size) past.traffic past.answers (tallied_create rank size) past.reached

/-- What the process tells the control message of a target, below the messages it has
sent and received, which are one more where it has no counter. -/
theorem Tallied.getWhite (h : t.Tallied rank size) (target : Nat) :
    t.calculator.getWhiteTransientMessageCounter target =
      t.sent target - (if target = rank then (t.received : Int) else 0) -
        if target ∈ t.calculator.whiteTransientMessageCounter then 0 else 1 := by
  rw [← h.counted target, getWhiteTransientMessageCounter, GvtCalculator.counted]
  cases hcount : t.calculator.whiteTransientMessageCounter[target]? with
  | none => simp [Std.TreeMap.mem_iff_isSome_getElem?, hcount]
  | some count => simp [Std.TreeMap.mem_iff_isSome_getElem?, hcount]

end Traffic

theorem getMessageCount_setMessageCount (m : GvtControlMessage) (lp other : Nat) (count : Int) :
    (m.setMessageCount lp count).getMessageCount other =
      if other = lp then toInt32 count else m.getMessageCount other := by
  simp only [GvtControlMessage.getMessageCount, GvtControlMessage.setMessageCount,
    Std.TreeMap.getElem?_insert, compare_eq_iff_eq]
  by_cases h : other = lp
  · simp [h]
  · simp [h, Ne.symm h]

theorem getMessageCount_lowerMinimum (m : GvtControlMessage) (lvt target : Nat) :
    (m.lowerMinimum lvt).getMessageCount target = m.getMessageCount target := by
  rw [GvtControlMessage.lowerMinimum_eq]
  rfl

/-- The counts of the processes there are become sums, and no other changes. -/
theorem getMessageCount_addCounts (g : GvtCalculator) (m : GvtControlMessage) (target : Nat) :
    (g.addMessageCounts m).getMessageCount target =
      if target < g.size then
        toInt32 (m.getMessageCount target + g.getWhiteTransientMessageCounter target)
      else m.getMessageCount target := by
  rw [addMessageCounts]
  generalize g.size = n
  induction n with
  | zero => simp
  | succ n ih =>
      rw [List.range_succ, List.foldl_append, List.foldl_cons, List.foldl_nil,
        getMessageCount_setMessageCount]
      by_cases hlast : target = n
      · subst hlast
        simp [ih]
      · rw [if_neg hlast, ih]
        simp only [show target < n + 1 ↔ target < n by omega]

theorem getMessageCount_addMessageCounts (g : GvtCalculator) (m : GvtControlMessage)
    {target : Nat} (htarget : target < g.size) :
    (g.addMessageCounts m).getMessageCount target =
      toInt32 (m.getMessageCount target + g.getWhiteTransientMessageCounter target) := by
  rw [getMessageCount_addCounts, if_pos htarget]

theorem processFirstCut_of_not_starter {g : GvtCalculator} (h : g.isGVTStarter = false)
    (lvt : Nat) (m : GvtControlMessage) :
    g.processFirstCut lvt m =
      { g with colour := .RED, redTime := LONG_MAX }.passOn
        (g.addMessageCounts (m.lowerMinimum lvt)) :=
  if_neg (ne_true_of_eq_false h)

/-- A first cut of `size` processes: what is behind the starter at the request, what is
behind each process when the control message comes to it, and the message that comes. -/
structure FirstCut (size : Nat) where
  start : Traffic.Past 0 size
  past : ∀ lp : Nat, Traffic.Past lp size
  lvt : Nat → Nat
  message : Nat → GvtControlMessage
  requested : start.traffic.calculator.processRequest.queued = [.control (message 1)]
  passed : ∀ lp : Nat, 0 < lp → lp < size →
    ((past lp).traffic.calculator.processFirstCut (lvt lp) (message lp)).queued =
      [.control (message (lp + 1))]

namespace FirstCut

/-- The messages of a first cut. The one for the starter itself never comes. -/
def carried (start : Traffic) (past : Nat → Traffic) (lvt : Nat → Nat) :
    Nat → GvtControlMessage
  | 0 | 1 =>
      { destination := start.calculator.nextLpInRing
        messageMinimumTime := LONG_MAX
        redMessageTime := LONG_MAX
        matternCut := .FIRST
        messageCount :=
          (List.range start.calculator.size).foldl (fun m lp => m.insert lp 0) ∅ }
  | lp + 2 =>
      { (past (lp + 1)).calculator.addMessageCounts
          ((carried start past lvt (lp + 1)).lowerMinimum (lvt (lp + 1))) with
        destination := (past (lp + 1)).calculator.nextLpInRing }

/-- There is a first cut after whatever the processes have sent and received. -/
def ofPasts {size : Nat} (start : Traffic.Past 0 size) (past : ∀ lp : Nat, Traffic.Past lp size)
    (lvt : Nat → Nat) (h : start.traffic.calculator.isAcceptingRequests = true) :
    FirstCut size where
  start := start
  past := past
  lvt := lvt
  message := carried start.traffic (fun lp => (past lp).traffic) lvt
  requested := by
    have hstarter : start.traffic.calculator.isGVTStarter = true := by
      simp [isGVTStarter, start.tallied.knowsRank]
    rw [processRequest, if_pos ⟨hstarter, h⟩]
    rfl
  passed := by
    intro lp hpos hlp
    cases lp with
    | zero => cases hpos
    | succ lp =>
        have hstarter : (past (lp + 1)).traffic.calculator.isGVTStarter = false := by
          simp [isGVTStarter, (past (lp + 1)).tallied.knowsRank]
        rw [processFirstCut_of_not_starter hstarter]
        rfl

variable {size : Nat} (f : FirstCut size)

/-- The count for `target` when the starter has added its own. -/
def count (target : Nat) : Int :=
  ((f.past 0).traffic.calculator.addMessageCounts
    ((f.message size).lowerMinimum (f.lvt 0))).getMessageCount target

/-- The starter ends the round without a second cut. -/
def Skips : Prop :=
  (f.past 0).traffic.calculator.endsWithFirstCut (f.lvt 0) (f.message size) = true

/-- The white messages sent to `target` before the cuts of their senders, less those it
received before its own. -/
def inTransit (target : Nat) : Int :=
  ∑ source ∈ Finset.range size,
      (((f.past source).traffic.sent target : Int) + (f.past source).traffic.handedOn target) -
    (f.past target).traffic.received

structure CountsTransits : Prop where
  counts : ∀ target < size, f.count target = f.inTransit target
  skips : f.Skips → ∀ target < size, f.inTransit target ≤ 0

/-- The process has a counter for `target`: it has sent it a white message, or is the target
itself and has received one. -/
def Met (source target : Nat) : Prop :=
  if source = target then 0 < (f.past source).traffic.received
  else 0 < (f.past source).traffic.sent target

instance (source target : Nat) : Decidable (f.Met source target) := by
  unfold Met
  infer_instance

/-- What the count for `target` leaves out: the white messages that were handed on to it,
and one for every process that has not met it. -/
def uncounted (target : Nat) : Nat :=
  ∑ source ∈ Finset.range size,
    ((f.past source).traffic.handedOn target + if f.Met source target then 0 else 1)

/-- An `int` holds the messages on their way, nothing is left out of the counts that the
`int` would show, and the starter has met a process that messages are on their way to, if
there is one. -/
structure CountsAll : Prop where
  fits : ∀ target < size, -2 ^ 31 ≤ f.inTransit target ∧ f.inTransit target < 2 ^ 31
  counted : ∀ target < size, 2 ^ 32 ∣ f.uncounted target
  starter : ∀ target < size, 0 < f.inTransit target →
    ∃ other < size, f.Met 0 other ∧ 0 < f.inTransit other

/-- Before the cuts every process has sent a counted white message to every other, and
received one, and no white message was handed on. -/
structure EveryoneMet : Prop where
  met : ∀ source < size, ∀ target < size, f.Met source target
  handedOn : ∀ source < size, ∀ target < size, (f.past source).traffic.handedOn target = 0

theorem getMessageCount_request {g : GvtCalculator} {m : GvtControlMessage}
    (h : g.processRequest.queued = [.control m]) (target : Nat) :
    m.getMessageCount target = if target < g.size then 0 else -1 := by
  simp only [processRequest] at h
  split at h
  · cases h
    have hloop : ∀ (n : Nat) (counts : Std.TreeMap Nat Int),
        ((List.range n).foldl (fun m lp => m.insert lp 0) counts)[target]? =
          if target < n then some 0 else counts[target]? := by
      intro n counts
      induction n with
      | zero => simp
      | succ n ih =>
          rw [List.range_succ, List.foldl_append, List.foldl_cons, List.foldl_nil,
            Std.TreeMap.getElem?_insert, ih]
          by_cases hlast : target = n
          · simp [hlast]
          · simp only [compare_eq_iff_eq, Ne.symm hlast, if_false,
              show target < n + 1 ↔ target < n by omega]
    simp only [GvtControlMessage.getMessageCount]
    rw [hloop]
    split
    · rfl
    · simp
  · cases h

theorem count_request {g : GvtCalculator} {m : GvtControlMessage}
    (h : g.processRequest.queued = [.control m]) {target : Nat} (htarget : target < g.size) :
    m.getMessageCount target = 0 := by
  rw [getMessageCount_request h, if_pos htarget]

theorem count_passed {g : GvtCalculator} {lvt : Nat} {m m' : GvtControlMessage}
    (h : (g.processFirstCut lvt m).queued = [.control m']) (hstarter : g.isGVTStarter = false)
    (target : Nat) :
    m'.getMessageCount target =
      if target < g.size then
        toInt32 (m.getMessageCount target + g.getWhiteTransientMessageCounter target)
      else m.getMessageCount target := by
  rw [processFirstCut_of_not_starter hstarter] at h
  cases h
  have hadds := getMessageCount_addCounts g (m.lowerMinimum lvt) target
  rw [getMessageCount_lowerMinimum] at hadds
  exact hadds

/-- What the message holds when it comes to a process is what those before it say. -/
theorem count_message {target : Nat} (htarget : target < size) (lp : Nat) (hlp : lp < size) :
    (f.message (lp + 1)).getMessageCount target =
      toInt32 (∑ source ∈ Finset.range lp,
        (f.past (source + 1)).traffic.calculator.getWhiteTransientMessageCounter target) := by
  induction lp with
  | zero =>
      rw [Finset.range_zero, Finset.sum_empty]
      apply count_request f.requested
      rw [f.start.tallied.knowsSize]
      exact htarget
  | succ lp ih =>
      have htallied := (f.past (lp + 1)).tallied
      have hstarter : (f.past (lp + 1)).traffic.calculator.isGVTStarter = false := by
        simp [isGVTStarter, htallied.knowsRank]
      rw [count_passed (f.passed (lp + 1) (Nat.succ_pos lp) hlp) hstarter, htallied.knowsSize,
        if_pos htarget, ih (by omega), toInt32_toInt32_add, Finset.sum_range_succ]

theorem count_eq {target : Nat} (htarget : target < size) :
    f.count target =
      toInt32 (∑ source ∈ Finset.range size,
        (f.past source).traffic.calculator.getWhiteTransientMessageCounter target) := by
  cases size with
  | zero => cases htarget
  | succ n =>
      have hknows := (f.past 0).tallied.knowsSize.symm ▸ htarget
      rw [count, getMessageCount_addMessageCounts _ _ hknows, getMessageCount_lowerMinimum,
        f.count_message htarget n (Nat.lt_succ_self n), toInt32_toInt32_add,
        Finset.sum_range_succ' _ n]

theorem mem_counter_iff (source target : Nat) :
    target ∈ (f.past source).traffic.calculator.whiteTransientMessageCounter ↔
      f.Met source target := by
  have htallied := (f.past source).tallied
  rw [htallied.known target, Met]
  by_cases hsame : source = target
  · subst hsame
    simp [htallied.own]
  · simp [hsame, Ne.symm hsame]

theorem sum_getWhite {target : Nat} (htarget : target < size) :
    ∑ source ∈ Finset.range size,
        (f.past source).traffic.calculator.getWhiteTransientMessageCounter target =
      f.inTransit target - f.uncounted target := by
  have hreceived : ((f.past target).traffic.received : Int) =
      ∑ source ∈ Finset.range size,
        if target = source then ((f.past source).traffic.received : Int) else 0 := by
    rw [Finset.sum_ite_eq, if_pos (Finset.mem_range.mpr htarget)]
  rw [inTransit, hreceived, uncounted, Nat.cast_sum, ← Finset.sum_sub_distrib,
    ← Finset.sum_sub_distrib]
  apply Finset.sum_congr rfl
  intro source _
  simp only [(f.past source).tallied.getWhite target, f.mem_counter_iff source target]
  split
  · push_cast
    omega
  · push_cast
    omega

/-- The count is right exactly if it fits and what it leaves out does not show. -/
theorem count_eq_iff {target : Nat} (htarget : target < size) :
    f.count target = f.inTransit target ↔
      (-2 ^ 31 ≤ f.inTransit target ∧ f.inTransit target < 2 ^ 31) ∧
        2 ^ 32 ∣ f.uncounted target := by
  rw [f.count_eq htarget, f.sum_getWhite htarget, toInt32_sub_eq_iff]

theorem EveryoneMet.countsAll {f : FirstCut size} (h : f.EveryoneMet)
    (hfits : ∀ target < size, -2 ^ 31 ≤ f.inTransit target ∧ f.inTransit target < 2 ^ 31) :
    f.CountsAll := by
  refine ⟨hfits, ?_, ?_⟩
  · intro target ht
    have hnone : f.uncounted target = 0 := by
      apply Finset.sum_eq_zero
      intro source hs
      have hlt := Finset.mem_range.mp hs
      simp [h.handedOn source hlt target ht, h.met source hlt target ht]
    rw [hnone]
    exact Nat.dvd_zero _
  · intro target ht htransit
    exact ⟨target, ht, h.met 0 (by omega) target ht, htransit⟩

theorem le_zero_of_skips {f : FirstCut size} (h : f.Skips) {target : Nat}
    (hmet : f.Met 0 target) : f.count target ≤ 0 := by
  simp only [Skips, endsWithFirstCut, Bool.and_eq_true, Bool.not_eq_true',
    hasWhiteTransientsRemaining, List.any_eq_false, decide_eq_true_eq] at h
  have hentry := Std.TreeMap.mem_toList_iff_getElem?_eq_some.mpr
    (Std.TreeMap.getElem?_eq_some_getElem ((f.mem_counter_iff 0 target).mpr hmet))
  have hcount := h.2 _ hentry
  exact Int.not_lt.mp hcount

/-- The control message has no count for what is no process. -/
theorem message_of_le {target : Nat} (htarget : size ≤ target) (lp : Nat) (hlp : lp < size) :
    (f.message (lp + 1)).getMessageCount target = -1 := by
  induction lp with
  | zero =>
      rw [getMessageCount_request f.requested, f.start.tallied.knowsSize,
        if_neg (Nat.not_lt.mpr htarget)]
  | succ lp ih =>
      have htallied := (f.past (lp + 1)).tallied
      have hstarter : (f.past (lp + 1)).traffic.calculator.isGVTStarter = false := by
        simp [isGVTStarter, htallied.knowsRank]
      rw [count_passed (f.passed (lp + 1) (Nat.succ_pos lp) hlp) hstarter, htallied.knowsSize,
        if_neg (Nat.not_lt.mpr htarget), ih (by omega)]

theorem count_of_le {target : Nat} (hsize : 0 < size) (htarget : size ≤ target) :
    f.count target ≤ 0 := by
  obtain ⟨n, rfl⟩ := Nat.exists_eq_succ_of_ne_zero hsize.ne'
  rw [count, getMessageCount_addCounts, (f.past 0).tallied.knowsSize,
    if_neg (Nat.not_lt.mpr htarget), getMessageCount_lowerMinimum,
    f.message_of_le htarget n (Nat.lt_succ_self n)]
  decide

theorem skips_of_le_zero {f : FirstCut size}
    (h : ∀ target, f.Met 0 target → f.count target ≤ 0) : f.Skips := by
  have hstarter : (f.past 0).traffic.calculator.isGVTStarter = true := by
    simp [isGVTStarter, (f.past 0).tallied.knowsRank]
  simp only [Skips, endsWithFirstCut, hstarter, Bool.true_and, Bool.not_eq_true',
    hasWhiteTransientsRemaining, List.any_eq_false, decide_eq_true_eq]
  intro entry hentry
  have hmem : entry.1 ∈ (f.past 0).traffic.calculator.whiteTransientMessageCounter := by
    rw [Std.TreeMap.mem_iff_isSome_getElem?,
      Std.TreeMap.mem_toList_iff_getElem?_eq_some.mp hentry]
    rfl
  exact Int.not_lt.mpr (h entry.1 ((f.mem_counter_iff 0 entry.1).mp hmem))

theorem countsTransits_iff (f : FirstCut size) : f.CountsTransits ↔ f.CountsAll := by
  constructor
  · intro h
    refine ⟨?_, ?_, ?_⟩
    · intro target ht
      exact ((f.count_eq_iff ht).mp (h.counts target ht)).1
    · intro target ht
      exact ((f.count_eq_iff ht).mp (h.counts target ht)).2
    · -- a starter that has met none of them ends the round
      intro target ht htransit
      by_contra hnone
      push Not at hnone
      have hskips : f.Skips := by
        apply skips_of_le_zero
        intro other hmet
        by_cases hother : other < size
        · rw [h.counts other hother]
          exact hnone other hother hmet
        · exact f.count_of_le (by omega) (Nat.not_lt.mp hother)
      have := h.skips hskips target ht
      omega
  · intro h
    have hcounts : ∀ target < size, f.count target = f.inTransit target := by
      intro target ht
      exact (f.count_eq_iff ht).mpr ⟨h.fits target ht, h.counted target ht⟩
    refine ⟨hcounts, ?_⟩
    intro hskips target ht
    by_contra htransit
    obtain ⟨other, hother, hmet, hpos⟩ := h.starter target ht (by omega)
    have hle := le_zero_of_skips hskips hmet
    rw [hcounts other hother] at hle
    omega

/-- Two processes that have each sent the other a white message and received the other's. -/
def exchanged : FirstCut 2 :=
  ofPasts ⟨[], .create 0 2, [], rfl⟩
    (fun
      | 0 => ⟨[.send 1 5, .receive .WHITE], _, _, rfl⟩
      | 1 => ⟨[.send 0 6, .receive .WHITE], _, _, rfl⟩
      | lp + 2 => ⟨[], .create (lp + 2) 2, [], rfl⟩)
    (fun _ => 4) rfl

theorem countsTransits_exchanged : exchanged.CountsTransits := by
  apply (countsTransits_iff exchanged).mpr
  apply EveryoneMet.countsAll
  · constructor
    · decide
    · decide
  · decide

/-- Three processes of which the second has a white message on its way to the third. -/
def onItsWay : FirstCut 3 :=
  ofPasts ⟨[], .create 0 3, [], rfl⟩
    (fun
      | 0 => ⟨[], .create 0 3, [], rfl⟩
      | 1 => ⟨[.send 2 5], _, _, rfl⟩
      | lp + 2 => ⟨[], .create (lp + 2) 3, [], rfl⟩)
    (fun _ => 4) rfl

/-- The count for the third is below zero, and the starter ends the round. -/
theorem skips_with_message_on_its_way :
    onItsWay.Skips ∧ onItsWay.inTransit 2 = 1 ∧ onItsWay.count 2 = -1 ∧
      ¬ onItsWay.CountsTransits := by
  refine ⟨?_, ?_, ?_, ?_⟩
  · rfl
  · decide
  · decide
  · intro h
    exact absurd (h.counts 2 (by decide)) (by decide)

end FirstCut
end GvtCalculator

/-!
Whatever a network does, every calculator in it has a past of such calls.
-/

namespace Gvt
open GvtCalculator

/-- Some calls take the one calculator to the other. -/
def Calls (g g' : GvtCalculator) : Prop :=
  ∃ calls, ∀ t : Traffic, t.calculator = g →
    ∃ t' answers, Traffic.machine.run t calls = some (t', answers) ∧ t'.calculator = g'

theorem Calls.none (g : GvtCalculator) : Calls g g := ⟨[], fun t h => ⟨t, [], rfl, h⟩⟩

theorem Calls.one {g g' : GvtCalculator} (c : Call)
    (h : ∀ t : Traffic, t.calculator = g →
      ∃ t', t.step c = some (t', ()) ∧ t'.calculator = g') :
    Calls g g' := by
  refine ⟨[c], ?_⟩
  intro t ht
  obtain ⟨t', hstep, ht'⟩ := h t ht
  exact ⟨t', [()], Traffic.machine.run_cons_iff.mpr ⟨t', (), [], hstep, rfl, rfl⟩, ht'⟩

variable {lp lp' : Lp} {packet : Packet}

theorem calls_send {parentClp destination : Nat}
    (h : lp.send parentClp = some (lp', destination, packet)) :
    Calls lp.calculator lp'.calculator := by
  cases Lp.sends_of_send h with
  | control hqueue => exact .none _
  | @message process m calculator hcontrol hdequeue hpre hsend =>
      refine .one (.send m.destination m.timestamp) ?_
      intro t ht
      rw [← ht] at hsend
      exact ⟨_, Option.map_eq_some_iff.mpr ⟨calculator, hsend, rfl⟩, rfl⟩
  | @handOn process m hcontrol hdequeue hpre =>
      refine .one (.handOn m.destination m.colour) ?_
      intro t ht
      exact ⟨_, rfl, ht⟩

theorem calls_receive {answers : List (Nat × Payload)} {o : Option Nat}
    (h : lp.receive packet answers = some (lp', o)) : Calls lp.calculator lp'.calculator := by
  cases Lp.receives_of_receive h with
  | @message t process restored hreceive =>
      exact .one (.receive t.message.colour) fun s hs => ⟨_, rfl, hs ▸ rfl⟩
  | value => exact .one .value fun s hs => ⟨_, rfl, hs ▸ rfl⟩
  | @firstCut m lvt hcut hawaiting hlvt =>
      exact .one (.firstCut lvt m) fun s hs => ⟨_, rfl, hs ▸ rfl⟩
  | await hcut hawaiting => exact .none _

theorem calls_complete {o : Option Nat} (h : lp.complete = some (lp', o)) :
    Calls lp.calculator lp'.calculator := by
  obtain ⟨m, lvt, _, _, _, _, rfl⟩ := Lp.exists_of_complete h
  exact .one (.secondCut lvt m) fun s hs => ⟨_, rfl, hs ▸ rfl⟩

namespace Network

variable {setup : Setup} {net net' : Network}

theorem calls_setLp {rank : Nat} {lp : Lp} (h : Calls (net.lp rank).calculator lp.calculator)
    (other : Nat) :
    Calls (net.lp other).calculator ((net.setLp rank lp).lp other).calculator := by
  by_cases hother : other = rank
  · subst hother
    simpa [setLp] using h
  · simp only [setLp, Function.update_of_ne hother]
    exact .none _

theorem calls_step {e : SystemEvent} {o : Option Nat}
    (h : net.systemStep setup e = some (net', o)) (rank : Nat) :
    Calls (net.lp rank).calculator (net'.lp rank).calculator := by
  cases e with
  | post source m =>
      simp only [systemStep] at h
      split at h
      · obtain ⟨lp, hpost, heq⟩ := Option.map_eq_some_iff.mp h
        cases heq
        obtain ⟨process, _, rfl⟩ := Option.map_eq_some_iff.mp hpost
        refine calls_setLp ?_ rank
        exact .none _
      · cases h
  | network e =>
      change net.step setup e = some (net', o) at h
      cases works_of_step h with
      | agent hr hagent =>
          refine calls_setLp ?_ rank
          exact .none _
      | send hr hd hsend => exact calls_setLp (calls_send hsend) rank
      | receive hr hreceiving hlink hreceive => exact calls_setLp (calls_receive hreceive) rank
      | complete hr hcomplete => exact calls_setLp (calls_complete hcomplete) rank
      | request hr hreceiving =>
          exact calls_setLp (.one .request fun s hs => ⟨_, rfl, hs ▸ rfl⟩) rank

/-- The pasts of the calculators are among those a first cut may find. -/
theorem past_of_run {es : List SystemEvent} {results : List (Option Nat)}
    (hinitial : net.Initial setup)
    (hrun : (systemMachine setup).run net es = some (net', results)) (rank : Nat) :
    ∃ past : Traffic.Past rank setup.size,
      past.traffic.calculator = (net'.lp rank).calculator := by
  refine (systemMachine setup).invariant
    (fun net => ∃ past : Traffic.Past rank setup.size,
      past.traffic.calculator = (net.lp rank).calculator) ?_ es net net' results ?_ hrun
  · intro net e net' o hpast hstep
    obtain ⟨past, hcalculator⟩ := hpast
    obtain ⟨calls, hcalls⟩ := calls_step hstep rank
    obtain ⟨t, answers, hrun, ht⟩ := hcalls past.traffic hcalculator
    exact ⟨⟨past.calls ++ calls, t, past.answers ++ answers, Traffic.machine.run_append_iff.mpr
      ⟨past.traffic, past.answers, answers, past.reached, hrun, rfl⟩⟩, ht⟩
  · exact ⟨⟨[], .create rank setup.size, [], rfl⟩, (hinitial.calculator rank).symm⟩

end Network
end Gvt
end PdesMas
