import Mathlib.Data.List.TakeWhile
import PdesMas.RangeQuery.RangeOverTime

/-!
The loop of `Update` over the later periods. It starts one period behind the next
one, and each period that it comes to before the end time gets a new range of its
own; what it has changed is announced under the time of the update.
-/

namespace PdesMas

namespace RangeRoutingTable

/-- The loop comes to the period: it starts before the end time, and is not the first one
that starts after the update. -/
def Recalculated (l : List RangePeriod) (time endTime : Nat) (p : RangePeriod) : Prop :=
  (∃ r ∈ l, r.time ≤ time) ∧ p.time < endTime ∧ ∃ r ∈ l, time < r.time ∧ r.time < p.time

instance (l : List RangePeriod) (time endTime : Nat) (p : RangePeriod) :
    Decidable (Recalculated l time endTime p) :=
  inferInstanceAs (Decidable ((∃ r ∈ l, _) ∧ _ ∧ ∃ r ∈ l, _ ∧ _))

/-- What the loop makes of a period. -/
def recalculated (l : List RangePeriod) (time endTime : Nat)
    (recalculateRange : Nat → Option Range) (p : RangePeriod) : RangePeriod :=
  if Recalculated l time endTime p then p.setRange (recalculateRange p.time) else p

/-- The updates for the periods that the loop comes to. -/
def announcedLater (l : List RangePeriod) (time endTime : Nat)
    (recalculateRange : Nat → Option Range) : List RangeUpdates :=
  (l.filter fun p => decide (Recalculated l time endTime p)).map fun p =>
    ⟨time, recalculateRange p.time, p.range⟩

variable {l : List RangePeriod} {c : Cut RangePeriod} {time endTime t : Nat}
variable {recalculateRange : Nat → Option Range}

theorem not_recalculated_of_le {p : RangePeriod} (hle : p.time ≤ time) :
    ¬ Recalculated l time endTime p := by
  intro h
  obtain ⟨_, _, r, _, hlater, hbefore⟩ := h
  omega

@[simp] theorem recalculated_time (p : RangePeriod) :
    (recalculated l time endTime recalculateRange p).time = p.time := by
  simp only [recalculated]
  split <;> rfl

theorem recalculated_of_not {A : List RangePeriod}
    (hA : ∀ p ∈ A, ¬ Recalculated l time endTime p) :
    A.map (recalculated l time endTime recalculateRange) = A ∧
      A.filter (fun p => decide (Recalculated l time endTime p)) = [] := by
  constructor
  · have hsame : ∀ p ∈ A, recalculated l time endTime recalculateRange p = id p :=
      fun p hp => if_neg (hA p hp)
    rw [List.map_congr_left hsame, List.map_id]
  · exact List.filter_eq_nil_iff.mpr fun p hp => by simpa using hA p hp

/-- Of the periods behind the walk, the loop comes to all but the first. -/
theorem Covering.recalculated_iff (h : Covering l time c) (hincreasing : Increasing l)
    {next : RangePeriod} {rest : List RangePeriod} (hback : c.back = next :: rest) :
    ¬ Recalculated l time endTime next ∧
      ∀ p ∈ rest, Recalculated l time endTime p ↔ p.time < endTime := by
  have hmem : ∀ p ∈ c.back, p ∈ l := by
    intro p hp
    rw [← h.toList]
    exact List.mem_append_right _ (List.mem_cons_of_mem _ hp)
  have hl := hincreasing
  rw [← h.toList] at hl
  obtain ⟨_, hsorted, _, _, _⟩ := Cut.pairwise_iff.mp hl
  rw [hback] at hsorted
  obtain ⟨hnext, _⟩ := List.pairwise_cons.mp hsorted
  constructor
  · intro hrecalculated
    obtain ⟨_, _, r, hr, hlater, hbefore⟩ := hrecalculated
    rw [← h.toList, Cut.toList, List.mem_append, List.mem_cons, hback, List.mem_cons] at hr
    have hfocus := h.focus
    rcases hr with hr | hr | hr | hr
    · have hfront := h.front_lt_of_increasing hincreasing r hr
      omega
    · exact absurd hlater (hr ▸ Nat.not_lt_of_le hfocus)
    · exact Nat.lt_irrefl _ (hr ▸ hbefore)
    · exact Nat.lt_asymm hbefore (hnext r hr)
  · intro p hp
    constructor
    · exact fun hrecalculated => hrecalculated.2.1
    · intro hend
      refine ⟨⟨c.focus, Cut.focus_mem h.toList, h.focus⟩, hend, next, ?_, ?_, hnext p hp⟩
      · exact hmem next (hback ▸ List.mem_cons_self)
      · exact h.back next (hback ▸ List.mem_cons_self)

/-- The loop, over periods that all start later than the next one. -/
theorem updateLater_eq (oldValue newValue : Option Point) (rest : List RangePeriod)
    (rollbackList : RollbackList) (hincreasing : Increasing rest)
    (hrest : ∀ p ∈ rest, Recalculated l time endTime p ↔ p.time < endTime) :
    (updateLater oldValue newValue time endTime recalculateRange rest rollbackList).1 =
        rest.map (recalculated l time endTime recalculateRange) ∧
      (updateLater oldValue newValue time endTime recalculateRange rest rollbackList).2.1 =
        (rest.filter fun p => decide (Recalculated l time endTime p)).map fun p =>
          ⟨time, recalculateRange p.time, p.range⟩ := by
  induction rest generalizing rollbackList with
  | nil => exact ⟨rfl, rfl⟩
  | cons p rest ih =>
      obtain ⟨hfirst, hincreasing⟩ := List.pairwise_cons.mp hincreasing
      have hp := hrest p List.mem_cons_self
      have hrest := fun q hq => hrest q (List.mem_cons_of_mem _ hq)
      by_cases hend : p.time < endTime
      · obtain ⟨hperiods, hupdates⟩ :=
          ih (p.populateRollbackList oldValue newValue rollbackList) hincreasing hrest
        have hset := hp.mpr hend
        simp only [updateLater, if_pos hend, hperiods, hupdates]
        constructor
        · rw [List.map_cons, recalculated, if_pos hset]
        · rw [List.filter_cons, if_pos (decide_eq_true hset), List.map_cons]
      · have hnone : ∀ q ∈ p :: rest, ¬ Recalculated l time endTime q := by
          intro q hq hset
          have hlt := hset.2.1
          cases List.mem_cons.mp hq with
          | inl hq => exact hend (hq ▸ hlt)
          | inr hq => exact hend (Nat.lt_trans (hfirst q hq) hlt)
        obtain ⟨hperiods, hfilter⟩ :=
          @recalculated_of_not l time endTime recalculateRange _ hnone
        simp only [updateLater, if_neg hend, hperiods, hfilter]
        exact ⟨trivial, rfl⟩

/-- Only periods behind the walk are recalculated. -/
theorem Covering.filter_recalculated (h : Covering l time c) (hincreasing : Increasing l) :
    l.filter (fun p => decide (Recalculated l time endTime p)) =
      c.back.filter fun p => decide (Recalculated l time endTime p) := by
  have hbegun : ∀ p ∈ c.front ++ [c.focus], ¬ Recalculated l time endTime p := by
    intro p hp
    apply not_recalculated_of_le
    cases List.mem_append.mp hp with
    | inl hp =>
        exact Nat.le_trans (Nat.le_of_lt (h.front_lt_of_increasing hincreasing p hp)) h.focus
    | inr hp => exact List.mem_singleton.mp hp ▸ h.focus
  obtain ⟨_, hnone⟩ := @recalculated_of_not _ _ _ (fun _ => none) _ hbegun
  have hl : l = (c.front ++ [c.focus]) ++ c.back := by
    rw [← h.toList, Cut.toList, List.append_cons]
  calc l.filter (fun p => decide (Recalculated l time endTime p))
      = ((c.front ++ [c.focus]) ++ c.back).filter fun p =>
          decide (Recalculated l time endTime p) := by rw [← hl]
    _ = c.back.filter fun p => decide (Recalculated l time endTime p) := by
        rw [List.filter_append, hnone, List.nil_append]

/-- The loop runs wherever there is more than one later period. -/
theorem Covering.loop_runs (h : Covering l time c) (hplaced : Placed l) (newRange : Option Range)
    {next second : RangePeriod} {rest : List RangePeriod} (hback : c.back = next :: second :: rest) :
    (updateAt c time newRange).1.length > 1 ∧
      (updateAt c time newRange).1.getLast?.map RangePeriod.time ≠ some time := by
  by_contra hshort
  have hperiods := h.laterPeriods_updateAt hplaced newRange (second.time + 1)
  simp only [laterPeriods, if_neg hshort, hback, List.drop_succ_cons, List.drop_zero] at hperiods
  have hsecond : decide (second.time < second.time + 1) = true :=
    decide_eq_true (Nat.lt_succ_self _)
  rw [List.takeWhile_cons, if_pos hsecond] at hperiods
  cases hperiods

/-- What `Update` leaves: the change at its time, and new ranges for the periods that the
loop comes to. -/
theorem update_eq_recalculated (table : RangeRoutingTable) (hplaced : Placed table.rangePeriodList)
    (oldValue newValue : Option Point) (newRange : Option Range) (rollbackList : RollbackList) :
    (table.update oldValue newValue time newRange recalculateRange rollbackList endTime).1 =
      ⟨(setRangeAt table.rangePeriodList time newRange).map
          (recalculated table.rangePeriodList time endTime recalculateRange),
        table.rangeUpdateList ++ announced table.rangePeriodList time newRange ++
          announcedLater table.rangePeriodList time endTime recalculateRange⟩ := by
  have hprocessed := processRangeUpdate_eq table time newRange .empty
  cases hc : Cut.last? (fun p => decide (p.time ≤ time)) table.rangePeriodList with
  | none =>
      have hlater := later_of_last?_none hc
      have hnot : ∀ p, ¬ Recalculated table.rangePeriodList time endTime p := by
        intro p h
        obtain ⟨⟨r, hr, hle⟩, _⟩ := h
        exact Nat.not_lt_of_le hle (hlater r hr)
      have hsame : ∀ A : List RangePeriod,
          A.map (recalculated table.rangePeriodList time endTime recalculateRange) = A ∧
            A.filter (fun p => decide (Recalculated table.rangePeriodList time endTime p)) = [] :=
        fun A => recalculated_of_not fun p _ => hnot p
      rw [(hsame _).1, announcedLater, (hsame _).2, List.map_nil, List.append_nil, ← hprocessed]
      simp only [update, processRangeUpdate, walkBack, hc]
  | some c =>
      have hcover := covering_of_last? hc
      have hbehind := hcover.dropWhile_updateAt hplaced newRange
      have hsplit := List.takeWhile_append_dropWhile (p := fun p => decide (p.time ≤ time))
        (l := (updateAt c time newRange).1)
      rw [hbehind] at hsplit
      have hupTo : ∀ p ∈ (updateAt c time newRange).1.takeWhile (fun p => decide (p.time ≤ time)),
          ¬ Recalculated table.rangePeriodList time endTime p := by
        intro p hp
        have hbegun := List.mem_takeWhile_imp hp
        exact not_recalculated_of_le (of_decide_eq_true hbegun)
      have hat : setRangeAt table.rangePeriodList time newRange = (updateAt c time newRange).1 := by
        simp only [setRangeAt, hc]
      have hmap : (updateAt c time newRange).1.map
          (recalculated table.rangePeriodList time endTime recalculateRange) =
            (updateAt c time newRange).1.takeWhile (fun p => decide (p.time ≤ time)) ++
              c.back.map (recalculated table.rangePeriodList time endTime recalculateRange) := by
        conv_lhs => rw [← hsplit]
        rw [List.map_append, (recalculated_of_not hupTo).1]
      rw [announcedLater, hcover.filter_recalculated hplaced.increasing, hat, hmap,
        ← hcover.updateAt_announced newRange]
      simp only [update, hc, hbehind]
      cases hback : c.back with
      | nil =>
          rw [hback, List.append_nil] at hsplit
          simp only [List.map_nil, List.filter_nil, List.append_nil, hsplit, ite_self]
      | cons next rest =>
          obtain ⟨hnext, hrest⟩ := hcover.recalculated_iff hplaced.increasing hback
          have hfirst : recalculated table.rangePeriodList time endTime recalculateRange next =
            next := if_neg hnext
          have hincreasing : Increasing rest := by
            have hl := hplaced.increasing
            rw [← hcover.toList, Cut.toList, hback] at hl
            exact (List.pairwise_cons.mp (List.pairwise_cons.mp (List.pairwise_append.mp hl).2.1).2).2
          obtain ⟨hperiods, hupdates⟩ := @updateLater_eq _ time endTime recalculateRange oldValue
            newValue rest (c.focus.populateRollbackListAfter oldValue newValue rollbackList time)
            hincreasing hrest
          have hskipped : decide (Recalculated table.rangePeriodList time endTime next) = false :=
            decide_eq_false hnext
          rw [List.map_cons, hfirst, List.filter_cons, hskipped, if_neg Bool.false_ne_true]
          split
          · simp only [hperiods, hupdates]
          · rename_i hshort
            have hend : rest = [] := by
              cases rest with
              | nil => rfl
              | cons second rest => exact absurd (hcover.loop_runs hplaced newRange hback) hshort
            rw [hback] at hsplit
            simp only [hend, List.map_nil, List.filter_nil, List.append_nil] at hsplit ⊢
            rw [hsplit]

theorem announced_eq_nil_iff {range : Option Range} :
    announced l time range = [] ↔ ∃ r, rangeAt l time = some r ∧ range = some r := by
  rw [announced]
  split
  · rename_i hsame
    obtain ⟨hsome, heq⟩ := hsame
    obtain ⟨r, hr⟩ := Option.isSome_iff_exists.mp hsome
    exact iff_of_true rfl ⟨r, heq.symm.trans hr, hr⟩
  · rename_i hnot
    refine iff_of_false (List.cons_ne_nil _ _) fun h => hnot ?_
    obtain ⟨r, hrange, hr⟩ := h
    exact ⟨hr ▸ rfl, hr.trans hrange.symm⟩

theorem announcedLater_eq_nil_iff :
    announcedLater l time endTime recalculateRange = [] ↔ ∀ p ∈ l, ¬ Recalculated l time endTime p := by
  simp [announcedLater, List.filter_eq_nil_iff]

/-- Where nothing is announced, nothing has changed. -/
theorem setRangeAt_of_announced {range : Option Range} (h : announced l time range = []) :
    setRangeAt l time range = l := by
  obtain ⟨r, hrange, rfl⟩ := announced_eq_nil_iff.mp h
  cases hc : Cut.last? (fun p => decide (p.time ≤ time)) l with
  | none =>
      rw [rangeAt_of_later (later_of_last?_none hc)] at hrange
      cases hrange
  | some c =>
      have hcover := covering_of_last? hc
      rw [hcover.rangeAt] at hrange
      simp only [setRangeAt, hc, updateAt, hrange, ne_eq, not_true_eq_false, if_false]
      exact hcover.toList

/-- An update leaves the table as it was exactly if the range is there already and the loop
comes to no period. -/
theorem update_eq_self_iff (table : RangeRoutingTable) (hplaced : Placed table.rangePeriodList)
    (oldValue newValue : Option Point) (newRange : Option Range) (rollbackList : RollbackList) :
    (table.update oldValue newValue time newRange recalculateRange rollbackList endTime).1 =
        table ↔
      (∃ range, rangeAt table.rangePeriodList time = some range ∧ newRange = some range) ∧
        ∀ p ∈ table.rangePeriodList, ¬ Recalculated table.rangePeriodList time endTime p := by
  rw [update_eq_recalculated table hplaced, ← announced_eq_nil_iff,
    ← @announcedLater_eq_nil_iff _ _ _ recalculateRange]
  constructor
  · intro h
    have hupdates := congrArg rangeUpdateList h
    simp only [List.append_assoc, List.append_right_eq_self, List.append_eq_nil_iff] at hupdates
    exact hupdates
  · intro h
    have hnot := announcedLater_eq_nil_iff.mp h.2
    rw [h.1, h.2, setRangeAt_of_announced h.1, (recalculated_of_not hnot).1, List.append_nil,
      List.append_nil]

section RangeAt


/-- The periods that start later are not those that a change is about. -/
theorem exists_setRangeAt_append (hplaced : Placed l) (time : Nat) (newRange : Option Range) :
    ∃ A A' B, l = A ++ B ∧ setRangeAt l time newRange = A' ++ B ∧
      (∀ p ∈ A, p.time ≤ time) ∧ (∀ p ∈ A', p.time ≤ time) ∧ ∀ p ∈ B, time < p.time := by
  cases hc : Cut.last? (fun p => decide (p.time ≤ time)) l with
  | none =>
      have hlater := later_of_last?_none hc
      refine ⟨[], [.create time newRange], l, rfl, ?_, nofun, fun p hp => ?_, hlater⟩
      · simp only [setRangeAt, hc]
        exact insertRangePeriod_first hlater _
      · exact Nat.le_of_eq (congrArg RangePeriod.time (List.mem_singleton.mp hp))
  | some c =>
      have hcover := covering_of_last? hc
      have hsplit := List.takeWhile_append_dropWhile (p := fun p => decide (p.time ≤ time))
        (l := (updateAt c time newRange).1)
      rw [hcover.dropWhile_updateAt hplaced newRange] at hsplit
      refine ⟨c.front ++ [c.focus], (updateAt c time newRange).1.takeWhile
        (fun p => decide (p.time ≤ time)), c.back, ?_, ?_, fun p hp => ?_, fun p hp => ?_,
        hcover.back⟩
      · rw [← hcover.toList, Cut.toList, List.append_cons]
      · simp only [setRangeAt, hc]
        exact hsplit.symm
      · cases List.mem_append.mp hp with
        | inl hp => exact Nat.le_trans (Nat.le_of_lt (hcover.front_lt hplaced p hp)) hcover.focus
        | inr hp => exact List.mem_singleton.mp hp ▸ hcover.focus
      · have hbegun := List.mem_takeWhile_imp hp
        exact of_decide_eq_true hbegun

/-- `Update` does no more than `ProcessRangeUpdate`, where the loop comes to no period. -/
theorem update_eq (table : RangeRoutingTable) (hplaced : Placed table.rangePeriodList)
    (oldValue newValue : Option Point) (newRange : Option Range)
    (recalculateRange : Nat → Option Range) (rollbackList : RollbackList)
    (hnot : ∀ p ∈ table.rangePeriodList, ¬ Recalculated table.rangePeriodList time endTime p) :
    (table.update oldValue newValue time newRange recalculateRange rollbackList endTime).1 =
      ⟨setRangeAt table.rangePeriodList time newRange,
        table.rangeUpdateList ++ announced table.rangePeriodList time newRange⟩ := by
  obtain ⟨A, A', B, hl, hset, _, hA', _⟩ :=
    exists_setRangeAt_append hplaced time newRange
  have hnone : ∀ p ∈ setRangeAt table.rangePeriodList time newRange,
      ¬ Recalculated table.rangePeriodList time endTime p := by
    intro p hp
    rw [hset] at hp
    cases List.mem_append.mp hp with
    | inl hp => exact not_recalculated_of_le (hA' p hp)
    | inr hp => exact hnot p (hl ▸ List.mem_append_right _ hp)
  rw [update_eq_recalculated table hplaced, (recalculated_of_not hnone).1,
    announcedLater_eq_nil_iff.mpr hnot, List.append_nil]

/-- The range of a period that the loop comes to is a new one, and no other changes. -/
theorem rangeAt_recalculated (hplaced : Placed l) (time endTime : Nat) (newRange : Option Range)
    (recalculateRange : Nat → Option Range) (t : Nat) :
    (∃ p ∈ l, Recalculated l time endTime p ∧ SamePeriod l p.time t ∧
      rangeAt ((setRangeAt l time newRange).map (recalculated l time endTime recalculateRange)) t =
        recalculateRange p.time) ∨
    (∀ p ∈ l, Recalculated l time endTime p → ¬ SamePeriod l p.time t) ∧
      rangeAt ((setRangeAt l time newRange).map (recalculated l time endTime recalculateRange)) t =
        rangeAt (setRangeAt l time newRange) t := by
  obtain ⟨A, A', B, hl, hset, hA, hA', hB⟩ := exists_setRangeAt_append hplaced time newRange
  have hfixed : A'.map (recalculated l time endTime recalculateRange) = A' :=
    (recalculated_of_not fun p hp => not_recalculated_of_le (hA' p hp)).1
  have hmem : ∀ p ∈ l, time < p.time → p ∈ B := by
    intro p hp hlt
    rw [hl] at hp
    exact (List.mem_append.mp hp).resolve_left fun hp => Nat.not_lt_of_le (hA p hp) hlt
  rw [hset, List.map_append, hfixed]
  cases hc : Cut.last? (fun p => decide (p.time ≤ t)) B with
  | none =>
      have hlater := later_of_last?_none hc
      refine .inr ⟨fun p hp hrecalculated hsame => ?_, ?_⟩
      · have hpB := hmem p hp (Nat.lt_of_not_le fun hle =>
          not_recalculated_of_le hle hrecalculated)
        exact Nat.not_le_of_lt (hlater p hpB) hsame.1
      · rw [rangeAt_append_of_later hlater, rangeAt_append_of_later]
        intro q hq
        obtain ⟨p, hp, rfl⟩ := List.mem_map.mp hq
        rw [recalculated_time]
        exact hlater p hp
  | some c =>
      have hcover := covering_of_last? hc
      have hfocus : c.focus ∈ B := Cut.focus_mem hcover.toList
      have hbefore : rangeAt (A' ++ B) t = c.focus.range := by
        rw [rangeAt_eq, periodAt_append, hcover.periodAt]
        rfl
      have hafter : rangeAt (A' ++ B.map (recalculated l time endTime recalculateRange)) t =
          (recalculated l time endTime recalculateRange c.focus).range := by
        rw [rangeAt_eq, periodAt_append, periodAt_map recalculated_time, hcover.periodAt]
        rfl
      have hcoverl : Covering l t ⟨A ++ c.front, c.focus, c.back⟩ := by
        refine ⟨?_, hcover.focus, hcover.back⟩
        rw [hl, ← hcover.toList, Cut.toList, Cut.toList, List.append_assoc]
      have hfocusl : c.focus ∈ l := hl ▸ List.mem_append_right _ hfocus
      have hsame : SamePeriod l c.focus.time t := hcoverl.samePeriod_focus hplaced.increasing
      rw [hafter, hbefore]
      by_cases hrecalculated : Recalculated l time endTime c.focus
      · left
        refine ⟨c.focus, hfocusl, hrecalculated, hsame, ?_⟩
        rw [recalculated, if_pos hrecalculated]
        rfl
      · right
        refine ⟨fun p hp hp' hsame' => hrecalculated ?_, ?_⟩
        · have htime : p.time = c.focus.time := Nat.le_antisymm (hsame.2 p hp hsame'.1)
            (hsame'.2 c.focus hfocusl hcover.focus)
          simpa only [Recalculated, htime] using hp'
        · rw [recalculated, if_neg hrecalculated]

variable {range : Option Range}

/-- Where no period goes on, there is no range just before. -/
theorem rangeAt_of_atStart (hincreasing : Increasing l) (hstart : AtStart l time) (hlt : t < time)
    (hsame : SamePeriod l t time) : rangeAt l t = none := by
  cases hc : Cut.last? (fun p => decide (p.time ≤ t)) l with
  | none => exact rangeAt_of_later (later_of_last?_none hc)
  | some c =>
      have hcover := covering_of_last? hc
      have hbegun := (hcover.samePeriod_focus hincreasing).trans hsame
      exact absurd hbegun (hstart c.focus (Cut.focus_mem hcover.toList)
        (Nat.lt_of_le_of_lt hcover.focus hlt))

/-- The change shows at `t`: in the rest of its period, or, if it is not confined, in the part
of the period before it. -/
def ChangedAt (l : List RangePeriod) (time : Nat) (range : Option Range) (t : Nat) : Prop :=
  SamePeriod l time t ∨ t < time ∧ SamePeriod l t time ∧ ¬ Confined l time range

instance (l : List RangePeriod) (time : Nat) (range : Option Range) (t : Nat) :
    Decidable (ChangedAt l time range t) := inferInstanceAs (Decidable (_ ∨ _))

theorem rangeAt_setRangeAt_changed (hincreasing : Increasing l) (time : Nat)
    (range : Option Range) (t : Nat) :
    rangeAt (setRangeAt l time range) t =
      if ChangedAt l time range t then range else rangeAt l t := by
  by_cases hconfined : Confined l time range
  · have hiff : ChangedAt l time range t ↔ SamePeriod l time t :=
      or_iff_left fun hbefore => hbefore.2.2 hconfined
    rw [rangeAt_setRangeAt hincreasing hconfined]
    exact if_congr hiff.symm rfl rfl
  · obtain ⟨hsome, hstart⟩ := not_or.mp hconfined
    simp only [AtStart, not_forall, not_not] at hstart
    obtain ⟨p, hp, hbefore, hbegun⟩ := hstart
    have hiff : ChangedAt l time range t ↔ SamePeriod l p.time t := by
      constructor
      · intro h
        rcases h with hsame | ⟨hlt, hsame, _⟩
        · exact hbegun.trans hsame
        · exact hbegun.mono (hsame.2 p hp hbegun.1) (Nat.le_of_lt hlt)
      · intro hsame
        by_cases hlt : t < time
        · refine .inr ⟨hlt, ⟨Nat.le_of_lt hlt, fun q hq hle => ?_⟩, hconfined⟩
          exact Nat.le_trans (hbegun.2 q hq hle) hsame.1
        · refine .inl ⟨Nat.le_of_not_lt hlt, fun q hq hle => ?_⟩
          exact Nat.le_trans (hsame.2 q hq hle) hbegun.1
    rw [setRangeAt_of_mem hp hbefore hbegun hsome,
      rangeAt_setRangeAt hincreasing (.inr (atStart_of_mem hp))]
    exact if_congr hiff.symm rfl rfl

/-- Where a change shows is a matter of when the periods begin and of whether there is a range. -/
theorem changedAt_congr {l' : List RangePeriod}
    (htimes : l.map RangePeriod.time = l'.map RangePeriod.time)
    (hsome : (rangeAt l time).isSome = (rangeAt l' time).isSome) :
    ChangedAt l time range t ↔ ChangedAt l' time range t := by
  have hsame : ∀ start t, SamePeriod l start t ↔ SamePeriod l' start t := by
    intro start t
    refine and_congr_right fun _ => ?_
    rw [← List.forall_mem_map (P := fun s => s ≤ t → s ≤ start), htimes, List.forall_mem_map]
  have hstart : AtStart l time ↔ AtStart l' time := by
    simp only [AtStart, hsame]
    rw [← List.forall_mem_map (P := fun s => s < time → ¬ SamePeriod l' s time), htimes,
      List.forall_mem_map]
  rw [ChangedAt, ChangedAt, hsame, hsame, Confined, Confined, hstart, hsome]

/-- A change says nothing of other periods. -/
theorem rangeAt_setRangeAt_other (hincreasing : Increasing l) (hafter : ¬ SamePeriod l time t)
    (hbefore : t < time → ¬ SamePeriod l t time) :
    rangeAt (setRangeAt l time range) t = rangeAt l t := by
  rw [rangeAt_setRangeAt_changed hincreasing, if_neg]
  intro h
  rcases h with hsame | ⟨hlt, hsame, _⟩
  · exact hafter hsame
  · exact hbefore hlt hsame

theorem rangeAt_setRangeAt_same (hincreasing : Increasing l) (hsame : SamePeriod l time t) :
    rangeAt (setRangeAt l time range) t = range := by
  rw [rangeAt_setRangeAt_changed hincreasing, if_pos (.inl hsame)]

/-- A change that takes the range away, or gives a first one, may show before its time. -/
theorem rangeAt_setRangeAt_before (hincreasing : Increasing l) (hlt : t < time)
    (hsame : SamePeriod l t time) :
    rangeAt (setRangeAt l time range) t = rangeAt l t ∧ (range = none → rangeAt l t = none) ∨
      rangeAt (setRangeAt l time range) t = range ∧ (range ≠ none → rangeAt l t = none) := by
  rw [rangeAt_setRangeAt_changed hincreasing]
  by_cases hconfined : Confined l time range
  · have hnot : ¬ ChangedAt l time range t := by
      intro h
      rcases h with hlater | ⟨_, _, hnot⟩
      · exact Nat.not_le_of_lt hlt hlater.1
      · exact hnot hconfined
    rw [if_neg hnot]
    refine .inl ⟨rfl, fun hnone => ?_⟩
    cases hconfined with
    | inl hsome =>
        rw [hnone, hsame.rangeAt] at hsome
        exact Option.not_isSome_iff_eq_none.mp fun h => Bool.false_ne_true (hsome.trans h)
    | inr hatStart => exact rangeAt_of_atStart hincreasing hatStart hlt hsame
  · rw [if_pos (.inr ⟨hlt, hsame, hconfined⟩)]
    refine .inr ⟨rfl, fun hne => Option.not_isSome_iff_eq_none.mp fun h => ?_⟩
    refine hconfined (.inl ?_)
    rw [hsame.rangeAt, h]
    exact Option.isSome_iff_ne_none.mpr hne

/-- The periods after an update. -/
def updatedPeriods (l : List RangePeriod) (time endTime : Nat)
    (recalculateRange : Nat → Option Range) : List RangePeriod :=
  (setRangeAt l time (recalculateRange time)).map (recalculated l time endTime recalculateRange)

/-- The rest of the period of the update gets its range. -/
theorem rangeAt_updatedPeriods_same (hplaced : Placed l) (hsame : SamePeriod l time t) :
    rangeAt (updatedPeriods l time endTime recalculateRange) t = recalculateRange time := by
  rcases rangeAt_recalculated hplaced time endTime (recalculateRange time) recalculateRange t with
    h | h
  · obtain ⟨p, hp, hrecalculated, hlater, _⟩ := h
    exact absurd hrecalculated (not_recalculated_of_le (hsame.2 p hp hlater.1))
  · rw [updatedPeriods, h.2, rangeAt_setRangeAt_same hplaced.increasing hsame]

/-- A period that the loop comes to gets a range of its own. -/
theorem rangeAt_updatedPeriods_recalculated (hplaced : Placed l) {p : RangePeriod} (hp : p ∈ l)
    (hrecalculated : Recalculated l time endTime p) (hsame : SamePeriod l p.time t) :
    rangeAt (updatedPeriods l time endTime recalculateRange) t = recalculateRange p.time := by
  rcases rangeAt_recalculated hplaced time endTime (recalculateRange time) recalculateRange t with
    h | h
  · obtain ⟨q, hq, _, hlater, hrange⟩ := h
    have htime : q.time = p.time :=
      Nat.le_antisymm (hsame.2 q hq hlater.1) (hlater.2 p hp hsame.1)
    rw [updatedPeriods, hrange, htime]
  · exact absurd hsame (h.1 p hp hrecalculated)

/-- Elsewhere, but for the time just before, nothing changes. -/
theorem rangeAt_updatedPeriods_other (hplaced : Placed l) (hafter : ¬ SamePeriod l time t)
    (hbefore : t < time → ¬ SamePeriod l t time)
    (hnot : ∀ p ∈ l, SamePeriod l p.time t → ¬ Recalculated l time endTime p) :
    rangeAt (updatedPeriods l time endTime recalculateRange) t = rangeAt l t := by
  rcases rangeAt_recalculated hplaced time endTime (recalculateRange time) recalculateRange t with
    h | h
  · obtain ⟨p, hp, hrecalculated, hlater, _⟩ := h
    exact absurd hrecalculated (hnot p hp hlater)
  · rw [updatedPeriods, h.2, rangeAt_setRangeAt_other hplaced.increasing hafter hbefore]

/-- A later period that the loop does not come to keeps its range. -/
theorem rangeAt_updatedPeriods_kept (hplaced : Placed l) {p : RangePeriod} (hp : p ∈ l)
    (hlater : time < p.time) (hnot : ¬ Recalculated l time endTime p)
    (hsame : SamePeriod l p.time t) :
    rangeAt (updatedPeriods l time endTime recalculateRange) t = rangeAt l t := by
  have hlt : time < t := Nat.lt_of_lt_of_le hlater hsame.1
  have hafter : ¬ SamePeriod l time t := fun h => Nat.not_le_of_lt hlater (h.2 p hp hsame.1)
  refine rangeAt_updatedPeriods_other hplaced hafter
    (fun hbefore => absurd hbefore (Nat.lt_asymm hlt)) fun q hq hqt hrecalculated => hnot ?_
  have htime : q.time = p.time := Nat.le_antisymm (hsame.2 q hq hqt.1) (hqt.2 p hp hsame.1)
  simpa only [Recalculated, htime] using hrecalculated


theorem rangeAt_updatedPeriods_of_lt (hplaced : Placed l) (hlt : t < time) :
    rangeAt (updatedPeriods l time endTime recalculateRange) t =
      rangeAt (setRangeAt l time (recalculateRange time)) t := by
  rcases rangeAt_recalculated hplaced time endTime (recalculateRange time) recalculateRange t with
    h | h
  · obtain ⟨p, _, hrecalculated, hlater, _⟩ := h
    exact absurd hrecalculated (not_recalculated_of_le (Nat.le_trans hlater.1 (Nat.le_of_lt hlt)))
  · exact h.2

end RangeAt

end RangeRoutingTable
end PdesMas
