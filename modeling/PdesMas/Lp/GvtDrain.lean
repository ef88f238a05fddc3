import PdesMas.Lp.GvtRing

/-!
The loop in which the second cut waits for white messages. What the control message
has counted for a process contains the count of the process itself at its first cut,
and the loop adds the count it has by then once more. So the messages the process had
received before its first cut are taken off twice, and a process that had received
none is counted as if it had received one: the loop ends at least one message too
early, and it empties nothing that was not empty when the cut came. Only where the counts
reported for a process add up to less than an `int` holds, the control message may have
more for it than is on its way.
-/

namespace PdesMas
namespace GvtCalculator

theorem getWhite_le_counted (g : GvtCalculator) (target : Nat) :
    g.getWhiteTransientMessageCounter target ≤ g.counted target := by
  rw [getWhiteTransientMessageCounter, counted]
  cases g.whiteTransientMessageCounter[target]? with
  | none => decide
  | some count => exact le_refl _

theorem SameCounters.getWhite {g g' : GvtCalculator} (h : g.SameCounters g') (target : Nat) :
    g'.getWhiteTransientMessageCounter target = g.getWhiteTransientMessageCounter target := by
  simp only [getWhiteTransientMessageCounter, h.counter]

/-- The count of a process for itself is not above the bound, and no step raises it. -/
def OwnAtMost (g : GvtCalculator) (bound : Int) : Prop :=
  g.getWhiteTransientMessageCounter g.rank ≤ bound

/-- A process has a count for itself only if it has received something, and then it is
below zero. -/
def OwnBelow (g : GvtCalculator) : Prop := g.OwnAtMost (-1)

theorem OwnAtMost.of_sameCounters {g g' : GvtCalculator} {bound : Int} (h : g.OwnAtMost bound)
    (hsame : g.SameCounters g') : g'.OwnAtMost bound := by
  rw [OwnAtMost, hsame.rank, hsame.getWhite]
  exact h

theorem OwnAtMost.send {g g' : GvtCalculator} {destination timestamp : Nat} {bound : Int}
    (h : g.OwnAtMost bound)
    (hsend : g.preProcessSendMessage destination timestamp = some g') : g'.OwnAtMost bound := by
  simp only [preProcessSendMessage] at hsend
  split at hsend
  · split at hsend
    · rename_i hassert
      cases hsend
      have hother : (g.incrementWhiteTransientMessageCounter
          destination).getWhiteTransientMessageCounter g.rank =
            g.getWhiteTransientMessageCounter g.rank := by
        simp [getWhiteTransientMessageCounter, incrementWhiteTransientMessageCounter,
          Std.TreeMap.getElem?_insert, hassert.1]
      exact hother.trans_le h
    · cases hsend
  · cases hsend
    exact h

theorem OwnAtMost.receive {g : GvtCalculator} {bound : Int} (h : g.OwnAtMost bound)
    (colour : MatternColour) : (g.preProcessReceiveMessage colour).OwnAtMost bound := by
  cases colour with
  | RED => exact h
  | WHITE =>
      simp only [OwnAtMost, getWhiteTransientMessageCounter] at h
      simp only [OwnAtMost, getWhiteTransientMessageCounter, preProcessReceiveMessage,
        decrementWhiteTransientMessageCounter, Std.TreeMap.getElem?_insert_self,
        Option.getD_some]
      cases hcount : g.whiteTransientMessageCounter[g.rank]? with
      | none =>
          rw [hcount] at h
          exact h
      | some count =>
          rw [hcount] at h
          simp only [Option.getD_some] at h ⊢
          omega

theorem isOutstanding_eq_false_iff {g : GvtCalculator} {m : GvtControlMessage} :
    g.isOutstanding m = false ↔ g.OwnAtMost (-m.getMessageCount g.rank) := by
  rw [isOutstanding, OwnAtMost, decide_eq_false_iff_not]
  omega

end GvtCalculator

namespace Gvt

def Transmission.isWhite (t : Transmission) : Bool := t.message.colour == .WHITE

/-- A white message that was sent before the `n`th first cut of its sender. -/
def Transmission.isOld (n : Nat) (t : Transmission) : Bool :=
  t.isWhite && decide (t.epoch < n)

namespace Network

variable (setup : Setup)

/-- How many messages of a kind are on their way to a process. -/
def flying (q : Transmission → Bool) (link : Pipes Nat Packet) (target : Nat) : Nat :=
  ∑ source ∈ Finset.range setup.size,
    ((link source target).filterMap Packet.simulation?).countP q

variable {setup} {q : Transmission → Bool} {link link' : Pipes Nat Packet}

theorem flying_congr {target : Nat}
    (h : ∀ source, (link' source target).filterMap Packet.simulation? =
      (link source target).filterMap Packet.simulation?) :
    flying setup q link' target = flying setup q link target := by
  simp only [flying, h]

theorem flying_eq_arriving (q : Transmission → Bool) (link : Pipes Nat Packet) (target : Nat) :
    flying setup q link target = link.arriving (Finset.range setup.size)
      (fun packet => (packet.simulation?.map q).getD false) target := by
  simp only [flying, Pipes.arriving, List.countP_filterMap]

theorem flying_push {source : Nat} (hs : source < setup.size) (link : Pipes Nat Packet)
    (destination target : Nat) (t : Transmission) :
    (flying setup q (link.push source destination (.simulation t)) target : Int) =
      flying setup q link target + if target = destination ∧ q t = true then 1 else 0 := by
  rw [flying_eq_arriving, flying_eq_arriving, Pipes.arriving_push (Finset.mem_range.mpr hs)]
  push_cast
  rfl

theorem flying_put {source rank : Nat} (hs : source < setup.size) {t : Transmission}
    {rest : List Packet} (hlink : link source rank = .simulation t :: rest) (target : Nat) :
    (flying setup q (link.put source rank rest) target : Int) =
      flying setup q link target - if target = rank ∧ q t = true then 1 else 0 := by
  rw [flying_eq_arriving q link, Pipes.arriving_put (Finset.mem_range.mpr hs) hlink,
    ← flying_eq_arriving]
  push_cast
  exact (add_sub_cancel_right _ _).symm

section Definitions

variable (setup : Setup) (net : Network)

/-- Nothing that its sender sent as a white message before its first cut of the round is on
its way to the process, which has made its own first cut. -/
def Drained (rank : Nat) : Prop :=
  ∀ source t, .simulation t ∈ net.link source rank → t.message.colour = .WHITE →
    (net.lp rank).history.epoch ≤ t.epoch

/-- The messages that the control message has yet to hear of for `target`: the counts of the
processes the first cut of the round after `R` rounds has not come to, and that of
`target` itself, which is less one once it has made its own. -/
def unheard (R target : Nat) : Int :=
  ∑ i ∈ Finset.range setup.size,
      (if i = target ∨ (net.lp i).history.epoch = R then (net.lp i).calculator.counted target
        else 0) +
    if (net.lp target).history.epoch = R then 0 else 1

/-- What the control message has heard of `target` from the processes that the first cut of
the round after `R` rounds has come to. -/
def heard (R target : Nat) : Int :=
  ∑ i ∈ Finset.range setup.size,
    if (net.lp i).history.epoch = R then 0 else (net.lp i).history.reported target

/-- What all processes have reported of `target` at their last first cuts. -/
def reported (target : Nat) : Int :=
  ∑ i ∈ Finset.range setup.size, (net.lp i).history.reported target

/-- The control message holds what it has heard, as far as an `int` does, and that is not
above what is on its way. -/
structure Undercounts : Prop where
  own : ∀ rank, (net.lp rank).calculator.OwnBelow
  all : ∀ target < setup.size,
    whiteCounted setup net.lp target ≤ flying setup Transmission.isWhite net.link target
  round : ∀ R station m p, Circulates setup net R station m p → ∀ target < setup.size,
    (m.matternCut = .SECOND → (net.lp target).history.settled = false) →
      m.getMessageCount target = toInt32 (heard setup net R target) ∧
        heard setup net R target + unheard setup net R target ≤
          flying setup (Transmission.isOld (R + 1)) net.link target

end Definitions

/-- A network is in one round at a time. -/
theorem Circulates.unique {net : Network} {R R' p p' : Nat} {station station' : Station}
    {m m' : GvtControlMessage} (h : Circulates setup net R station m p)
    (h' : Circulates setup net R' station' m' p') : R = R' ∧ m = m' := by
  have hm : m' ∈ net.controls station' := by
    rw [h'.token.self]
    exact List.mem_cons_self
  obtain ⟨_, rfl⟩ := h.token.of_mem hm
  refine ⟨?_, rfl⟩
  have hsize : 0 < setup.size := h.size_pos
  have hold := (h.others 0 hsize (zero_not_swept p)).1
  have hold' := (h'.others 0 hsize (zero_not_swept p')).1
  rw [hold] at hold'
  split at hold'
  · omega
  · exact hold'

theorem Circulates.not_idle {net : Network} {R R' p : Nat} {station : Station}
    {m : GvtControlMessage} (h : Circulates setup net R station m p) : ¬ net.Idle setup R' := by
  intro hidle
  have hempty := hidle.token station
  rw [h.token.self] at hempty
  cases hempty

/-- A round that goes on after a step without a cut was under way before it. -/
theorem Stays.back {net net' : Network} {R p : Nat} {station : Station} {m : GvtControlMessage}
    (hs : Stays setup net net') (ho : Orderly setup net)
    (h : Circulates setup net' R station m p) :
    ∃ station p, Circulates setup net R station m p := by
  obtain ⟨R', hidle | ⟨station', m', p', hround⟩⟩ := ho.phase
  · exact absurd (hs.idle R' hidle) h.not_idle
  · obtain ⟨station'', hround'⟩ := hs.circulates R' station' m' p' hround
    obtain ⟨rfl, rfl⟩ := h.unique hround'
    exact ⟨station', p', hround⟩

/-- What a step without a cut does to the counters and to the messages on the links. -/
inductive Exchange (setup : Setup) (net net' : Network) : Prop
  | quiet (hcounters : ∀ i, (net.lp i).calculator.SameCounters (net'.lp i).calculator)
      (hflight : ∀ i j, (net'.link i j).filterMap Packet.simulation? =
        (net.link i j).filterMap Packet.simulation?)
  | sent {rank destination : Nat} {t : Transmission} (hr : rank < setup.size)
      (hothers : ∀ i, i ≠ rank → (net'.lp i).calculator = (net.lp i).calculator)
      (hcounted : ∀ target, (net'.lp rank).calculator.counted target ≤
        (net.lp rank).calculator.counted target +
          if target = destination ∧ t.isWhite = true then 1 else 0)
      (hself : (net'.lp rank).calculator.counted rank ≤ (net.lp rank).calculator.counted rank)
      (hepoch : t.epoch = (net.lp rank).history.epoch)
      (hlink : net'.link = net.link.push rank destination (.simulation t))
  | received {rank source : Nat} {t : Transmission} {rest : List Packet}
      (hr : rank < setup.size) (hs : source < setup.size)
      (hreceiving : (net.lp rank).isReceiving = true)
      (hothers : ∀ i, i ≠ rank → (net'.lp i).calculator = (net.lp i).calculator)
      (hcounted : ∀ target, (net'.lp rank).calculator.counted target =
        (net.lp rank).calculator.counted target -
          if target = rank ∧ t.isWhite = true then 1 else 0)
      (hlink : net.link source rank = .simulation t :: rest)
      (hlink' : net'.link = net.link.put source rank rest)

variable {net net' : Network} {e : SystemEvent} {o : Option Nat}

/-- The calculators after a step of `rank` that leaves its counters. -/
theorem counters_setLp {rank : Nat} {lp : Lp}
    (h : (net.lp rank).calculator.SameCounters lp.calculator) (i : Nat) :
    (net.lp i).calculator.SameCounters ((net.setLp rank lp).lp i).calculator := by
  by_cases hi : i = rank
  · subst hi
    simpa using h
  · rw [setLp_lp_of_ne net lp hi]
    exact .refl _

theorem Plain.exchange (h : Plain setup net e net') (ho : Orderly setup net) :
    Exchange setup net net' := by
  cases h with
  | agent hr | post hr => exact .quiet (counters_setLp (.refl _)) fun _ _ => rfl
  | @sendControl rank m rest hr hd hqueue =>
      exact .quiet (counters_setLp (.refl _)) (Pipes.filterMap_push net.link rfl)
  | @sendMessage rank process calculator m hr hd hpre hsend =>
      have hcounted := fun target => (GvtCalculator.counted_preProcessSendMessage hsend target).2
      have hdestination := (GvtCalculator.mem_preProcessSendMessage hsend rank).1
      rw [(ho.placed rank).1] at hdestination
      refine .sent hr (fun i hi => by simp [setLp_lp_of_ne net _ hi]) ?_ ?_ rfl rfl
      · intro target
        simpa [Transmission.isWhite] using (hcounted target).le
      · have hself := hcounted rank
        rw [if_neg fun h => hdestination h.2 h.1.symm, add_zero] at hself
        simpa using hself.le
  | @handOn rank gvt rest m hr hd hprocess hcontrol hpre =>
      refine .sent hr (fun i hi => by simp [setLp_lp_of_ne net _ hi]) ?_ ?_ rfl rfl
      · intro target
        simp only [setLp_lp_self]
        split
        · omega
        · omega
      · simp
  | @receiveMessage rank source t rest answers process exposed hr hreceiving hlink hexposed =>
      have hcounted := fun target =>
        ((net.lp rank).calculator.counted_preProcessReceiveMessage t.message.colour target).2
      rw [(ho.placed rank).1] at hcounted
      have hs : source < setup.size := by
        have ht : .simulation t ∈ net.link source rank := by
          rw [hlink]
          exact List.mem_cons_self
        exact (ho.logged source rank t ht).1.1
      refine .received hr hs hreceiving (fun i hi => by simp [setLp_lp_of_ne net _ hi]) ?_
        hlink rfl
      intro target
      simpa [Transmission.isWhite] using hcounted target
  | @receiveValue rank source m rest answers hr hlink =>
      have hsame := (net.lp rank).calculator.sameCounters_processValue
      exact .quiet (counters_setLp hsame) (Pipes.filterMap_put hlink rfl)
  | await hr hlink hcut hawaiting =>
      exact .quiet (counters_setLp (.refl _)) (Pipes.filterMap_put hlink rfl)
  | ignored hignored => exact .quiet (fun _ => .refl _) fun _ _ => rfl

theorem Plain.ownAtMost {rank : Nat} {bound : Int} (h : Plain setup net e net')
    (hown : (net.lp rank).calculator.OwnAtMost bound) :
    (net'.lp rank).calculator.OwnAtMost bound := by
  have hset : ∀ {i : Nat} {lp : Lp},
      ((net.lp i).calculator.OwnAtMost bound → lp.calculator.OwnAtMost bound) →
      ((net.setLp i lp).lp rank).calculator.OwnAtMost bound := by
    intro i lp hlp
    by_cases hi : rank = i
    · subst hi
      simpa using hlp hown
    · rw [setLp_lp_of_ne net lp hi]
      exact hown
  cases h with
  | agent hr | post hr | sendControl hr hd hqueue | handOn hr hd hprocess hcontrol hpre
  | await hr hlink hcut hawaiting => exact hset id
  | sendMessage hr hd hpre hsend => exact hset fun h => h.send hsend
  | @receiveMessage i source t rest answers process exposed hr hreceiving hlink hexposed =>
      exact hset fun h => h.receive t.message.colour
  | @receiveValue i source m rest answers hr hlink =>
      exact hset fun h => h.of_sameCounters (net.lp i).calculator.sameCounters_processValue
  | ignored hignored => exact hown

theorem Plain.reported (h : Plain setup net e net') (rank : Nat) :
    (net'.lp rank).history.reported = (net.lp rank).history.reported := by
  have hset : ∀ {i : Nat} {lp : Lp}, lp.history.reported = (net.lp i).history.reported →
      ((net.setLp i lp).lp rank).history.reported = (net.lp rank).history.reported := by
    intro i lp hlp
    by_cases hi : rank = i
    · subst hi
      simpa using hlp
    · rw [setLp_lp_of_ne net lp hi]
  cases h with
  | ignored hignored => rfl
  | agent hr | post hr | sendControl hr hd hqueue | sendMessage hr hd hpre hsend
  | handOn hr hd hprocess hcontrol hpre | receiveMessage hr hreceiving hlink hexposed
  | receiveValue hr hlink | await hr hlink hcut hawaiting => exact hset rfl

theorem heard_congr {R : Nat} (target : Nat)
    (hepoch : ∀ i, (net'.lp i).history.epoch = (net.lp i).history.epoch)
    (hreported : ∀ i, (net'.lp i).history.reported = (net.lp i).history.reported) :
    heard setup net' R target = heard setup net R target := by
  simp only [heard, hepoch, hreported]

theorem whiteCounted_change {rank : Nat} (hr : rank < setup.size)
    (hothers : ∀ i, i ≠ rank → (net'.lp i).calculator = (net.lp i).calculator) (target : Nat) :
    whiteCounted setup net'.lp target = whiteCounted setup net.lp target +
      ((net'.lp rank).calculator.counted target - (net.lp rank).calculator.counted target) :=
  sum_of_change (f := fun i => (net.lp i).calculator.counted target)
    (g := fun i => (net'.lp i).calculator.counted target) hr
    fun i hi => by simp only [hothers i hi]

theorem unheard_change {rank : Nat} (hr : rank < setup.size)
    (hothers : ∀ i, i ≠ rank → (net'.lp i).calculator = (net.lp i).calculator)
    (hepoch : ∀ i, (net'.lp i).history.epoch = (net.lp i).history.epoch) (R target : Nat) :
    unheard setup net' R target = unheard setup net R target +
      if rank = target ∨ (net.lp rank).history.epoch = R then
        (net'.lp rank).calculator.counted target - (net.lp rank).calculator.counted target
      else 0 := by
  have hsum := sum_of_change (n := setup.size)
    (f := fun i => if i = target ∨ (net.lp i).history.epoch = R then
      (net.lp i).calculator.counted target else 0)
    (g := fun i => if i = target ∨ (net.lp i).history.epoch = R then
      (net'.lp i).calculator.counted target else 0) hr
    (fun i hi => by simp only [hothers i hi])
  simp only [unheard, hepoch]
  rw [hsum]
  split
  · omega
  · omega

theorem Exchange.all (h : Exchange setup net net') {target : Nat}
    (hall : whiteCounted setup net.lp target ≤
      flying setup Transmission.isWhite net.link target) :
    whiteCounted setup net'.lp target ≤ flying setup Transmission.isWhite net'.link target := by
  cases h with
  | quiet hcounters hflight =>
      rw [flying_congr fun source => hflight source target]
      have hsame : whiteCounted setup net'.lp target = whiteCounted setup net.lp target := by
        simp only [whiteCounted, (hcounters _).counted]
      omega
  | @sent rank destination t hr hothers hcounted hself hepoch hlink =>
      rw [whiteCounted_change hr hothers, hlink, flying_push hr]
      have := hcounted target
      omega
  | @received rank source t rest hr hs hreceiving hothers hcounted hlink hlink' =>
      rw [whiteCounted_change hr hothers, hlink', flying_put hs hlink, hcounted target]
      omega

/-- A message from before the first cut of its sender is white, and an unheard one. -/
theorem Exchange.round (h : Exchange setup net net')
    (hepochs : ∀ i, (net'.lp i).history.epoch = (net.lp i).history.epoch) {R target : Nat}
    {count : Int} (hround : count + unheard setup net R target ≤
      flying setup (Transmission.isOld (R + 1)) net.link target) :
    count + unheard setup net' R target ≤
      flying setup (Transmission.isOld (R + 1)) net'.link target := by
  cases h with
  | quiet hcounters hflight =>
      rw [flying_congr fun source => hflight source target]
      have hsame : unheard setup net' R target = unheard setup net R target := by
        simp only [unheard, (hcounters _).counted, hepochs]
      omega
  | @sent rank destination t hr hothers hcounted hself hepoch hlink =>
      rw [unheard_change hr hothers hepochs, hlink, flying_push hr]
      have hmore := hcounted target
      by_cases htarget : rank = target
      · subst htarget
        rw [if_pos (.inl rfl)]
        split
        · omega
        · omega
      · by_cases hbefore : (net.lp rank).history.epoch = R
        · have hold : t.isOld (R + 1) = t.isWhite := by
            simp [Transmission.isOld, hepoch, hbefore]
          rw [if_pos (.inr hbefore), hold]
          omega
        · rw [if_neg fun hor => hor.elim htarget hbefore]
          split
          · omega
          · omega
  | @received rank source t rest hr hs hreceiving hothers hcounted hlink hlink' =>
      rw [unheard_change hr hothers hepochs, hlink', flying_put hs hlink, hcounted target]
      by_cases htarget : target = rank
      · subst htarget
        rw [if_pos (.inl rfl)]
        cases hwhite : t.isWhite with
        | true =>
            simp only [and_self, if_true]
            split
            · omega
            · omega
        | false =>
            simp only [Transmission.isOld, hwhite, Bool.false_and, Bool.false_eq_true, and_false,
              if_false]
            omega
      · simp only [htarget, false_and, if_false]
        split
        · omega
        · omega

theorem Cuts.whiteCounted {rank epoch : Nat} {settled : Bool}
    (hc : Cuts net e net' rank epoch settled) (i target : Nat) :
    (net'.lp i).calculator.counted target = (net.lp i).calculator.counted target := by
  by_cases hi : i = rank
  · subst hi
    exact hc.counters.counted target
  · rw [hc.others i hi]

theorem Cuts.ownBelow {rank epoch : Nat} {settled : Bool}
    (hc : Cuts net e net' rank epoch settled) (hown : ∀ i, (net.lp i).calculator.OwnBelow)
    (i : Nat) : (net'.lp i).calculator.OwnBelow := by
  by_cases hi : i = rank
  · subst hi
    exact GvtCalculator.OwnAtMost.of_sameCounters (hown i) hc.counters
  · rw [hc.others i hi]
    exact hown i

theorem Cuts.all {rank epoch : Nat} {settled : Bool} (hc : Cuts net e net' rank epoch settled)
    {target : Nat} (hall : Network.whiteCounted setup net.lp target ≤
      flying setup Transmission.isWhite net.link target) :
    Network.whiteCounted setup net'.lp target ≤
      flying setup Transmission.isWhite net'.link target := by
  rw [flying_congr fun source => hc.flight source target]
  simp only [Network.whiteCounted, hc.whiteCounted]
  exact hall

/-- What a process hears of at its first cut, it no longer leaves unheard. -/
theorem unheard_firstCut {rank R : Nat} (hr : rank < setup.size)
    (hc : Cuts net e net' rank (R + 1) false) (hepoch : (net.lp rank).history.epoch = R)
    (hown : (net.lp rank).calculator.getWhiteTransientMessageCounter rank ≤ -1) (target : Nat) :
    (net.lp rank).calculator.getWhiteTransientMessageCounter target +
      unheard setup net' R target ≤ unheard setup net R target := by
  have hsum := sum_of_change (n := setup.size)
    (f := fun i => if i = target ∨ (net.lp i).history.epoch = R then
      (net.lp i).calculator.counted target else 0)
    (g := fun i => if i = target ∨ (net'.lp i).history.epoch = R then
      (net'.lp i).calculator.counted target else 0) hr
    (fun i hi => by simp only [hc.others i hi])
  simp only [hc.epochAfter, hepoch, or_true, if_true, Nat.succ_ne_self, or_false,
    hc.whiteCounted] at hsum
  simp only [unheard, hc.whiteCounted]
  rw [hsum]
  have hcounted := (net.lp rank).calculator.getWhite_le_counted target
  by_cases htarget : rank = target
  · subst htarget
    simp only [if_true, hc.epochAfter, hepoch, Nat.succ_ne_self, if_false]
    omega
  · rw [if_neg htarget, hc.others target fun h => htarget h.symm]
    omega

/-- What a process reports at its first cut, the control message has heard. -/
theorem heard_firstCut {rank R : Nat} (hr : rank < setup.size)
    (hc : Cuts net e net' rank (R + 1) false) (hepoch : (net.lp rank).history.epoch = R)
    (hreported : (net'.lp rank).history.reported =
      (net.lp rank).calculator.getWhiteTransientMessageCounter) (target : Nat) :
    heard setup net' R target = heard setup net R target +
      (net.lp rank).calculator.getWhiteTransientMessageCounter target := by
  have hsum := sum_of_change (n := setup.size)
    (f := fun i => if (net.lp i).history.epoch = R then 0
      else (net.lp i).history.reported target)
    (g := fun i => if (net'.lp i).history.epoch = R then 0
      else (net'.lp i).history.reported target) hr
    (fun i hi => by simp only [hc.others i hi])
  simp only [hc.epochAfter, hepoch, if_true, Nat.succ_ne_self, if_false, hreported, sub_zero]
    at hsum
  exact hsum

theorem heard_resting {R : Nat} (h : ∀ i, i < setup.size → (net.lp i).history.epoch = R)
    (target : Nat) : heard setup net R target = 0 := by
  apply Finset.sum_eq_zero
  intro i hi
  rw [if_pos (h i (Finset.mem_range.mp hi))]

/-- Before the first cut of a round nothing has been heard. -/
theorem unheard_resting {R : Nat} (h : ∀ i, i < setup.size → (net.lp i).history.epoch = R)
    (target : Nat) (htarget : target < setup.size) :
    unheard setup net R target = whiteCounted setup net.lp target := by
  rw [unheard, whiteCounted, if_pos (h target htarget), add_zero]
  apply Finset.sum_congr rfl
  intro i hi
  rw [if_pos (.inr (h i (Finset.mem_range.mp hi)))]

/-- Between two rounds every white message is from before the next first cut. -/
theorem flying_old_resting {R : Nat} (ho : Orderly setup net) (hidle : net.Idle setup R)
    (target : Nat) :
    flying setup (Transmission.isOld (R + 1)) net.link target =
      flying setup Transmission.isWhite net.link target := by
  apply Finset.sum_congr rfl
  intro source _
  apply List.countP_congr
  intro t ht
  rw [mem_simulations] at ht
  obtain ⟨⟨hs, _⟩, hle, _⟩ := ho.logged source target t ht
  rw [hidle.epoch source hs] at hle
  simp [Transmission.isOld, Nat.lt_succ_of_le hle]

theorem undercounts_ring (h : Undercounts setup net) (ho : Orderly setup net)
    (hstep : RingStep setup net e net') : Undercounts setup net' := by
  cases hstep with
  | plain hplain hstays =>
      have hexchange := hplain.exchange ho
      have hepochs := hstays.ordinary.epoch
      refine ⟨fun rank => hplain.ownAtMost (h.own rank),
        fun target htarget => hexchange.all (h.all target htarget), ?_⟩
      intro R station m p hround target htarget hsettled
      obtain ⟨station', p', hround'⟩ := hstays.back ho hround
      rw [hstays.ordinary.settled] at hsettled
      obtain ⟨hcount, hbelow⟩ := h.round R station' m p' hround' target htarget hsettled
      rw [heard_congr target hepochs hplain.reported]
      exact ⟨hcount, hexchange.round hepochs hbelow⟩
  | @begins R m hevent hstarts hidle hnew hcut hcount hcalculator hothers hhistory hlink =>
      have hcounted : ∀ i target, (net'.lp i).calculator.counted target =
          (net.lp i).calculator.counted target := by
        intro i target
        by_cases hi : i = 0
        · subst hi
          rw [hcalculator]
          rfl
        · rw [hothers i hi]
      refine ⟨?_, ?_, ?_⟩
      · intro i
        by_cases hi : i = 0
        · subst hi
          rw [hcalculator]
          exact GvtCalculator.OwnAtMost.of_sameCounters (h.own 0) ⟨rfl, rfl⟩
        · rw [hothers i hi]
          exact h.own i
      · intro target htarget
        rw [hlink]
        simp only [whiteCounted, hcounted]
        exact h.all target htarget
      · intro R' station m' p hround target htarget _
        obtain ⟨rfl, rfl⟩ := hnew.unique hround
        have hepochs : ∀ i, i < setup.size → (net'.lp i).history.epoch = R := by
          intro i hi
          rw [hhistory]
          exact hidle.epoch i hi
        have hunheard := unheard_resting hepochs target htarget
        rw [hcount target htarget, heard_resting hepochs, hunheard, hlink,
          flying_old_resting ho hidle, zero_add]
        simp only [whiteCounted, hcounted]
        exact ⟨toInt32_zero.symm, h.all target htarget⟩
  | @first R p p' rank station station' m m' hr hround hcut hnew hcuts hepoch hcount hreported
      hred hcolour =>
      refine ⟨hcuts.ownBelow h.own, fun target htarget => hcuts.all (h.all target htarget), ?_⟩
      intro R' station'' m'' p'' hround' target htarget _
      obtain ⟨rfl, rfl⟩ := hnew.unique hround'
      obtain ⟨hbefore, hbelow⟩ := h.round R station m p hround target htarget
        fun hsecond => by rw [hcut] at hsecond; cases hsecond
      have hown := h.own rank
      rw [GvtCalculator.OwnBelow, GvtCalculator.OwnAtMost, (ho.placed rank).1] at hown
      have hunheard := unheard_firstCut hr hcuts hepoch hown target
      rw [flying_congr fun source => hcuts.flight source target, hcount target htarget, hbefore,
        toInt32_toInt32_add, heard_firstCut hr hcuts hepoch hreported]
      exact ⟨rfl, by omega⟩
  | @second R p station m m' hr hround hcut hnew hcut' hcuts hcount hreported hred =>
      refine ⟨hcuts.ownBelow h.own, fun target htarget => hcuts.all (h.all target htarget), ?_⟩
      intro R' station'' m'' p'' hround' target htarget hsettled
      obtain ⟨rfl, rfl⟩ := hnew.unique hround'
      have htarget' : target ≠ p := by
        intro heq
        subst heq
        have hnot := hsettled hcut'
        rw [hcuts.settledAfter] at hnot
        cases hnot
      rw [hcuts.others target htarget'] at hsettled
      have hbefore := h.round R station m p hround target htarget fun _ => hsettled hcut'
      have hepochs : ∀ i, (net'.lp i).history.epoch = (net.lp i).history.epoch := by
        intro i
        by_cases hi : i = p
        · subst hi
          have hepoch := (hround.others i hr fun hs => Nat.lt_irrefl _ hs.2).1
          rw [if_pos hcut] at hepoch
          rw [hcuts.epochAfter, hepoch]
        · rw [hcuts.others i hi]
      have hsame : unheard setup net' R target = unheard setup net R target := by
        simp only [unheard, hcuts.whiteCounted, hepochs]
      have hreports : ∀ i, (net'.lp i).history.reported = (net.lp i).history.reported := by
        intro i
        by_cases hi : i = p
        · subst hi
          exact hreported
        · rw [hcuts.others i hi]
      rw [flying_congr fun source => hcuts.flight source target, hcount target htarget', hsame,
        heard_congr target hepochs hreports]
      exact hbefore
  | @ends R station m settled hr hround hidle hcuts hsettled =>
      refine ⟨hcuts.ownBelow h.own, fun target htarget => hcuts.all (h.all target htarget), ?_⟩
      intro R' station' m' p' hround'
      exact absurd hidle hround'.not_idle

theorem undercounts_initial (h : net.Initial setup) : Undercounts setup net where
  own rank := by
    rw [h.calculator rank]
    simp [GvtCalculator.OwnBelow, GvtCalculator.OwnAtMost,
      GvtCalculator.getWhiteTransientMessageCounter, GvtCalculator.create]
  all target _ := by
    simp [whiteCounted, flying, h.calculator, h.link, GvtCalculator.create,
      GvtCalculator.counted]
  round R station m p hround := absurd (idle_of_initial h) hround.not_idle

/-- What every reachable state has. -/
structure Counting (setup : Setup) (net : Network) : Prop where
  orderly : Orderly setup net
  undercounts : Undercounts setup net

theorem counting_step (h : Counting setup net)
    (hstep : net.systemStep setup e = some (net', o)) : Counting setup net' := by
  have hring := ring_step h.orderly (system_of_step hstep)
  exact ⟨orderly_of_ring h.orderly hring, undercounts_ring h.undercounts h.orderly hring⟩

theorem counting_of_run {es : List SystemEvent} {os : List (Option Nat)}
    (h : net.Initial setup) (hrun : (systemMachine setup).run net es = some (net', os)) :
    Counting setup net' :=
  (systemMachine setup).invariant (Counting setup) (fun _ _ _ _ hc hs => counting_step hc hs)
    es net net' os ⟨orderly_initial h, undercounts_initial h⟩ hrun

section Wait

variable {rank : Nat} {m : GvtControlMessage}

/-- How many messages from before the first cuts of their senders are on their way to a
process that has made its own. -/
def oldFlying (setup : Setup) (net : Network) (rank : Nat) : Nat :=
  flying setup (Transmission.isOld (net.lp rank).history.epoch) net.link rank

theorem drained_iff (h : Orderly setup net) (rank : Nat) :
    Drained net rank ↔ oldFlying setup net rank = 0 := by
  simp only [oldFlying, flying, Finset.sum_eq_zero_iff, List.countP_eq_zero, mem_simulations,
    Finset.mem_range, Transmission.isOld, Transmission.isWhite, Bool.and_eq_true, beq_iff_eq,
    decide_eq_true_eq, not_and, not_lt]
  constructor
  · intro hdrained source _ t ht
    exact hdrained source t ht
  · intro hnone source t ht
    exact hnone source (h.logged source rank t ht).1.1 t ht

/-- The process that waits has made the first cut of the round, and so have all others. -/
theorem Orderly.waiting (h : Orderly setup net) (hawaiting : (net.lp rank).awaiting = some m) :
    ∃ R p, Circulates setup net R (.awaiting rank) m p ∧ m.matternCut = .SECOND ∧
      rank < setup.size ∧ (∀ i, i < setup.size → (net.lp i).history.epoch = R + 1) ∧
      (net.lp rank).history.settled = false := by
  obtain ⟨R, p, hround⟩ := h.circulates_of_awaiting hawaiting
  have hcut := hround.waits rank rfl
  have hr : rank < setup.size := by
    cases hround.rank_eq hround.leadsTo with
    | inl hstarter => exact hstarter.1 ▸ hround.size_pos
    | inr hnext => exact hnext.1 ▸ hnext.2
  exact ⟨R, p, hround, hcut, hr, fun i hi => hround.epoch_of_second hcut hi,
    (hround.others rank hr (hround.not_swept hround.leadsTo)).2 hcut⟩

/-- The loop goes on only while two messages or more are missing, unless the count is what
an `int` makes of one below it. -/
theorem two_le_of_isOutstanding (h : Counting setup net)
    (hreported : -2 ^ 31 ≤ reported setup net rank)
    (hawaiting : (net.lp rank).awaiting = some m)
    (houtstanding : (net.lp rank).calculator.isOutstanding m = true) :
    2 ≤ oldFlying setup net rank := by
  obtain ⟨R, p, hround, hcut, hr, hepochs, hsettled⟩ := h.orderly.waiting hawaiting
  obtain ⟨hcount, hbelow⟩ := h.undercounts.round R _ m p hround rank hr fun _ => hsettled
  have hheard : heard setup net R rank = reported setup net rank := by
    apply Finset.sum_congr rfl
    intro i hi
    rw [hepochs i (Finset.mem_range.mp hi), if_neg (Nat.succ_ne_self R)]
  rw [hheard] at hcount hbelow
  have hle := toInt32_le hreported
  have hunheard : unheard setup net R rank = (net.lp rank).calculator.counted rank + 1 := by
    rw [unheard, hepochs rank hr, if_neg (Nat.succ_ne_self R)]
    have hterm : ∀ i ∈ Finset.range setup.size,
        (if i = rank ∨ (net.lp i).history.epoch = R then
          (net.lp i).calculator.counted rank else 0) =
        if i = rank then (net.lp i).calculator.counted rank else 0 := by
      intro i hi
      rw [hepochs i (Finset.mem_range.mp hi)]
      simp
    rw [Finset.sum_congr rfl hterm, Finset.sum_ite_eq', if_pos (Finset.mem_range.mpr hr)]
  have hcounted := (net.lp rank).calculator.getWhite_le_counted rank
  simp only [GvtCalculator.isOutstanding, (h.orderly.placed rank).1, decide_eq_true_eq]
    at houtstanding
  rw [hunheard] at hbelow
  rw [oldFlying, hepochs rank hr]
  omega

/-- The loop takes no message as long as one of two is missing. -/
def Spares (setup : Setup) (net : Network) (rank : Nat) (m : GvtControlMessage) : Prop :=
  (net.lp rank).calculator.isOutstanding m = true → 2 ≤ oldFlying setup net rank

/-- The loop does not go on when nothing is missing. -/
theorem Spares.not_isOutstanding (h : Spares setup net rank m) (ho : Orderly setup net)
    (hdrained : Drained net rank) : (net.lp rank).calculator.isOutstanding m = false := by
  rw [drained_iff ho] at hdrained
  apply eq_false_of_ne_true
  intro houtstanding
  have htwo := h houtstanding
  omega

theorem Plain.awaiting (h : Plain setup net e net') (hawaiting : (net.lp rank).awaiting = some m) :
    (net'.lp rank).awaiting = some m := by
  have hset : ∀ {i : Nat} {lp : Lp}, (i = rank → lp.awaiting = some m) →
      ((net.setLp i lp).lp rank).awaiting = some m := by
    intro i lp hlp
    by_cases hi : rank = i
    · subst hi
      simpa using hlp rfl
    · rw [setLp_lp_of_ne net lp hi]
      exact hawaiting
  cases h with
  | @await i source m' rest answers hr hlink hcut hnone =>
      refine hset fun hi => ?_
      subst hi
      rw [hawaiting] at hnone
      cases hnone
  | ignored hignored => exact hawaiting
  | agent hr | post hr | sendControl hr hd hqueue | sendMessage hr hd hpre hsend
  | handOn hr hd hprocess hcontrol hpre | receiveMessage hr hreceiving hlink hexposed
  | receiveValue hr hlink =>
      exact hset fun hi => by subst hi; exact hawaiting

/-- Only the process itself takes the control message from where it waits. -/
theorem not_cuts {p epoch : Nat} {settled : Bool} {R : Nat}
    (hround : Circulates setup net R (.awaiting rank) m p)
    (hne : e ≠ .network (.complete rank)) : ¬ Cuts net e net' rank epoch settled := by
  intro hc
  cases hc.event with
  | inl hcomplete => exact hne hcomplete
  | inr hreceive =>
      obtain ⟨source, answers, m', rest, _, hlink⟩ := hreceive
      cases (hround.token.of_mem (mem_controls_link hlink)).1

/-- While a process waits, what is missing never runs out: it takes a message only when two
are on their way. -/
theorem wait_step (h : Counting setup net) (hawaiting : (net.lp rank).awaiting = some m)
    (hspares : Spares setup net rank m) (hstep : net.systemStep setup e = some (net', o))
    (hne : e ≠ .network (.complete rank)) :
    Plain setup net e net' ∧ (net'.lp rank).awaiting = some m ∧
      (oldFlying setup net' rank = 0 ↔ oldFlying setup net rank = 0) := by
  obtain ⟨R, p, hround, hcut, hr, hepochs, hsettled⟩ := h.orderly.waiting hawaiting
  cases ring_step h.orderly (system_of_step hstep) with
  | plain hplain hstays =>
      refine ⟨hplain, hplain.awaiting hawaiting, ?_⟩
      rw [oldFlying, oldFlying, hstays.ordinary.epoch]
      cases hplain.exchange h.orderly with
      | quiet hcounters hflight => rw [flying_congr fun source => hflight source rank]
      | @sent i destination t hi hothers hcounted hself hepoch hlink =>
          -- whoever sends has made the first cut of the round
          have hnew : t.isOld (net.lp rank).history.epoch = false := by
            simp [Transmission.isOld, hepoch, hepochs i hi, hepochs rank hr]
          have hpush := flying_push (q := Transmission.isOld (net.lp rank).history.epoch) hi
            net.link destination rank t
          rw [hnew] at hpush
          rw [hlink]
          simp only [Bool.false_eq_true, and_false, if_false] at hpush
          omega
      | @received i source t rest hi hs hreceiving hothers hcounted hlink hlink' =>
          have hput := flying_put (q := Transmission.isOld (net.lp rank).history.epoch) hs
            hlink rank
          rw [hlink']
          split at hput
          · rename_i hold
            obtain ⟨rfl, _⟩ := hold
            have houtstanding : (net.lp rank).calculator.isOutstanding m = true := by
              simpa [Lp.isReceiving, hawaiting] using hreceiving
            have htwo := hspares houtstanding
            rw [oldFlying] at htwo
            omega
          · omega
  | begins hevent hstarts hidle hnew hcut' hcount hcalculator hothers hhistory hlink =>
      exact absurd hidle hround.not_idle
  | first hr' hround' hcut' hnew hcuts hepoch hcount hreported hred hcolour =>
      obtain ⟨_, rfl⟩ := hround.unique hround'
      rw [hcut] at hcut'
      cases hcut'
  | @second R' p' station m₁ m₂ hr' hround' hcut' hnew hcut'' hcuts hcount hreported
      hred =>
      obtain ⟨_, rfl⟩ := hround.unique hround'
      have hsame : rank = p' := by
        have hleads : rank = m.destination := hround.leadsTo
        rw [hleads, hround'.position.2.2, Nat.mod_eq_of_lt hr']
      subst hsame
      exact absurd hcuts (not_cuts hround hne)
  | @ends R' station m₁ settled hr' hround' hidle hcuts hsettled' =>
      obtain ⟨_, rfl⟩ := hround.unique hround'
      have hsame : rank = 0 := by
        have hleads : rank = m.destination := hround.leadsTo
        rw [hleads, hround'.position.2.2, Nat.mod_self]
      subst hsame
      exact absurd hcuts (not_cuts hround hne)

end Wait

/-- A process waits in the loop of its second cut: after a run the control message comes to
it, and after some more steps the process leaves the loop. -/
structure SecondCutWait (setup : Setup) (rank : Nat) where
  start : Network
  before : List SystemEvent
  earlier : Network
  reached : List (Option Nat)
  arrival : SystemEvent
  comes : Network
  answer : Option Nat
  during : List SystemEvent
  leaves : Network
  waited : List (Option Nat)
  left : Network
  result : Option Nat
  initial : start.Initial setup
  run_before : (systemMachine setup).run start before = some (earlier, reached)
  free : (earlier.lp rank).awaiting = none
  arrives : earlier.systemStep setup arrival = some (comes, answer)
  awaits : (comes.lp rank).awaiting.isSome = true
  run_during : (systemMachine setup).run comes during = some (leaves, waited)
  waits : ∀ e ∈ during, e ≠ .network (.complete rank)
  leaving : leaves.systemStep setup (.network (.complete rank)) = some (left, result)

/-- The condition of the loop does not hold once everything from before the first cuts is
there. -/
def StopsWhenDrained (rank : Nat) (net : Network) : Prop :=
  Drained net rank → ∀ m, (net.lp rank).awaiting = some m →
    (net.lp rank).calculator.isOutstanding m = false

/-- The loop is left with everything received, and not kept up any longer. -/
structure SecondCutWait.Drains {rank : Nat} (w : SecondCutWait setup rank) : Prop where
  drained : Drained w.leaves rank
  stops : (systemMachine setup).Throughout (StopsWhenDrained rank) w.comes w.during

theorem SecondCutWait.counting {rank : Nat} (w : SecondCutWait setup rank) :
    Counting setup w.comes :=
  counting_step (counting_of_run w.initial w.run_before) w.arrives

/-- What holds while a process waits, with `safe` besides. -/
structure Waiting {rank : Nat} (w : SecondCutWait setup rank) (m : GvtControlMessage)
    (safe : Network → Prop) (net : Network) : Prop where
  counting : Counting setup net
  awaiting : (net.lp rank).awaiting = some m
  missing : oldFlying setup net rank = 0 ↔ oldFlying setup w.comes rank = 0
  safe : safe net

/-- A wait in which the loop spares the last of what is missing. -/
theorem SecondCutWait.drains_iff_of_spares {rank : Nat} (w : SecondCutWait setup rank)
    {m : GvtControlMessage} (safe : Network → Prop)
    (hawaiting : (w.comes.lp rank).awaiting = some m) (hsafe : safe w.comes)
    (hspares : ∀ net, Counting setup net → (net.lp rank).awaiting = some m → safe net →
      Spares setup net rank m)
    (hkept : ∀ net e net', Plain setup net e net' → safe net → safe net') :
    w.Drains ↔ Drained w.comes rank := by
  have hmeets : (systemMachine setup).Meets (fun _ e => e ≠ .network (.complete rank))
      w.comes w.during := (systemMachine setup).meets_of_forall fun e he _ => w.waits e he
  have hstep : ∀ net e net' o, Waiting w m safe net → e ≠ .network (.complete rank) →
      (systemMachine setup).step net e = some (net', o) → Waiting w m safe net' := by
    intro net e net' o hw hne hs
    obtain ⟨hplain, hawaiting', hold⟩ := wait_step hw.counting hw.awaiting
      (hspares net hw.counting hw.awaiting hw.safe) hs hne
    exact ⟨counting_step hw.counting hs, hawaiting', hold.trans hw.missing,
      hkept net e net' hplain hw.safe⟩
  have hstart : Waiting w m safe w.comes := ⟨w.counting, hawaiting, Iff.rfl, hsafe⟩
  have hend := (systemMachine setup).invariant_of_meets _ _ hstep w.during w.comes w.leaves
    w.waited hstart hmeets w.run_during
  have hstops : (systemMachine setup).Throughout (StopsWhenDrained rank) w.comes w.during := by
    refine (systemMachine setup).throughout_of_meets _ _ _ ?_ hstep w.during w.comes hstart hmeets
    intro net hw hdrained m' hawaiting'
    rw [hw.awaiting, Option.some.injEq] at hawaiting'
    subst hawaiting'
    exact (hspares net hw.counting hw.awaiting hw.safe).not_isOutstanding hw.counting.orderly
      hdrained
  have hold := hend.missing
  rw [← drained_iff hend.counting.orderly, ← drained_iff w.counting.orderly] at hold
  rw [← hold]
  exact ⟨fun h => h.drained, fun h => ⟨h, hstops⟩⟩

/-- Everything from before the first cuts is received when the loop is left if it was when
the control message came and the loop was not entered. Unless what was reported is below
every `int`, the loop is then not entered, and everything is received only if it was when the
control message came. -/
theorem drains_iff {rank : Nat} (w : SecondCutWait setup rank) :
    (Drained w.comes rank → (w.comes.lp rank).isReceiving = false → w.Drains) ∧
      (-2 ^ 31 ≤ reported setup w.comes rank → (w.Drains ↔ Drained w.comes rank)) := by
  obtain ⟨m, hawaiting⟩ := Option.isSome_iff_exists.mp w.awaits
  constructor
  · intro hdrained hreceiving
    have hstopped : (w.comes.lp rank).calculator.isOutstanding m = false := by
      simpa [Lp.isReceiving, hawaiting] using hreceiving
    rw [GvtCalculator.isOutstanding_eq_false_iff, (w.counting.orderly.placed rank).1]
      at hstopped
    refine (w.drains_iff_of_spares
      (fun net => (net.lp rank).calculator.OwnAtMost (-m.getMessageCount rank)) hawaiting hstopped
      ?_ ?_).mpr hdrained
    · intro net hcounting _ hown houtstanding
      have hstill : (net.lp rank).calculator.isOutstanding m = false := by
        rw [GvtCalculator.isOutstanding_eq_false_iff, (hcounting.orderly.placed rank).1]
        exact hown
      rw [hstill] at houtstanding
      cases houtstanding
    · intro net e net' hplain hown
      exact hplain.ownAtMost hown
  · intro hreported
    refine w.drains_iff_of_spares (fun net => -2 ^ 31 ≤ reported setup net rank) hawaiting
      hreported ?_ ?_
    · intro net hcounting hawaiting' hsafe
      exact two_le_of_isOutstanding hcounting hsafe hawaiting'
    · intro net e net' hplain hsafe
      simpa only [reported, hplain.reported] using hsafe

/-- Three CLPs. -/
def threeClps : Setup := ⟨3, fun _ => 0⟩

def threeQueues : Network := create threeClps fun _ => .clp 0 []

theorem initial_threeQueues : threeQueues.Initial threeClps :=
  initial_create threeClps fun _ => rfl

/-- The first CLP sends the third `n` messages. -/
def sendToThird (n : Nat) : List SystemEvent :=
  (List.replicate n [.post 0 ⟨2, .WHITE, .rollback ⟨5, ⟨1, 2⟩, ⟨7, 0, 1, 0⟩⟩⟩,
    .network (.send 0)]).flatten

/-- The messages on their way to the third CLP come to it. -/
def receiveAtThird (n : Nat) : List SystemEvent :=
  List.replicate n (.network (.receive 2 0 []))

/-- The first cut of a round, up to the control message that the third CLP sends. -/
def firstCutToThird : List SystemEvent :=
  [.network (.request 0), .network (.send 0), .network (.receive 1 0 []), .network (.send 1),
    .network (.receive 2 1 []), .network (.send 2)]

/-- The first cut comes to the starter, and the second goes as far as the second CLP. -/
def secondCutToSecond : List SystemEvent :=
  [.network (.receive 0 2 []), .network (.send 0), .network (.receive 1 0 []),
    .network (.complete 1), .network (.send 1)]

/-- The messages come after the first cut and before the second. -/
def drainedBetween : SecondCutWait threeClps 2 :=
  ⟨threeQueues, sendToThird 3 ++ firstCutToThird ++ receiveAtThird 3 ++ secondCutToSecond, _, _,
    .network (.receive 2 1 []), _, _, [], _, _, _, _, initial_threeQueues, rfl, rfl, rfl, rfl, rfl,
    fun _ he => absurd he List.not_mem_nil, rfl⟩

theorem drains_drainedBetween : drainedBetween.Drains := by
  apply ((drains_iff drainedBetween).2 (by decide)).mpr
  rw [drained_iff drainedBetween.counting.orderly]
  decide

/-- Four messages are on their way when the second cut comes. -/
def leftBehind : SecondCutWait threeClps 2 :=
  ⟨threeQueues, sendToThird 4 ++ firstCutToThird ++ secondCutToSecond, _, _,
    .network (.receive 2 1 []), _, _, receiveAtThird 2, _, _, _, _, initial_threeQueues, rfl, rfl,
    rfl, rfl, rfl, by decide, rfl⟩

/-- The loop takes two of them and leaves two. -/
theorem leaves_two_behind : oldFlying threeClps leftBehind.comes 2 = 4 ∧
    oldFlying threeClps leftBehind.leaves 2 = 2 ∧ ¬ leftBehind.Drains := by
  refine ⟨by decide, by decide, ?_⟩
  intro h
  obtain ⟨results, hrun⟩ : ∃ results, (systemMachine threeClps).run threeQueues
      (sendToThird 4 ++ firstCutToThird ++ secondCutToSecond ++
        .network (.receive 2 1 []) :: receiveAtThird 2) = some (leftBehind.leaves, results) :=
    ⟨_, rfl⟩
  have hcounting := counting_of_run initial_threeQueues hrun
  have hnone := (drained_iff hcounting.orderly 2).mp h.drained
  exact absurd hnone (by decide)

end Network
end Gvt
end PdesMas
