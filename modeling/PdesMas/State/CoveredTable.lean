import PdesMas.RangeQuery.TableRuns
import PdesMas.State.RangeCover

/-!
Exactly when a write, or its rollback, keeps the table of `HERE` covering the
points. Each range that the update puts down stands for a whole period but is
calculated for the first moment of it, and the next period is left as it is.
-/

namespace PdesMas
universe u
variable {V : Type u}

namespace Timeline

/-- A collection takes nothing away that is seen later. -/
theorem valueAt_collected {l l' : List (Entry V)} {o : Outcome V} {g t : Nat}
    (h : Effect l (.removeWritePeriods g) l' o) (hle : g ≤ t) : valueAt t l' = valueAt t l := by
  cases h with
  | collectNothing => rfl
  | @collect A B e _ he hB =>
      by_cases hBt : Later t B
      · rw [valueAt_append A B e (Nat.le_trans he hle) hBt]
        exact valueAt_append _ B (e.restamp g) hle hBt
      · rw [List.append_cons, List.append_cons A, valueAt_append_of_not_later hBt,
          valueAt_append_of_not_later hBt]

end Timeline

namespace SharedState

open RangeRoutingTable Timeline

variable {s s' : SharedState} {ssvId : SsvId} {sv : StateVariable AbstractValue} {agentID : LpId}
  {time t gvt : Nat} {write : ValueWrite} {list : RollbackList} {range : Option Range}

/-- A fold that never comes back to nothing, once it has begun. -/
theorem isSome_foldl {f : Option Range → Point → Option Range}
    (hf : ∀ box point, (f box point).isSome = true) (points : List Point) {box : Option Range}
    (hbox : box.isSome = true) : (points.foldl f box).isSome = true := by
  induction points generalizing box with
  | nil => exact hbox
  | cons point points ih => exact ih (hf box point)

theorem recalculateRange_eq_none_iff {m : StateVariableMap} :
    recalculateRange m time = none ↔ pointsAt m time = [] := by
  rw [recalculateRange, ← pointsAt]
  cases pointsAt m time with
  | nil => exact iff_of_true rfl rfl
  | cons point points =>
      refine iff_of_false (Option.isSome_iff_ne_none.mp ?_) (List.cons_ne_nil _ _)
      exact isSome_foldl (fun box _ => by cases box <;> rfl) points rfl

theorem contains_none {points : List Point} : Contains none points ↔ points = [] := by
  simp [Contains, List.eq_nil_iff_forall_not_mem]

theorem pointAt_written_of_lt (hsv : WellOrdered sv.entries) (hlt : t < time) :
    pointAt (write.written sv agentID time) t = pointAt sv t := by
  by_contra hchange
  exact Nat.not_le_of_lt hlt (changed_between hsv hchange).1

/-- An operation that is about no point changes none. -/
theorem pointAt_written_of_not_movesPoint (hsv : WellOrdered sv.entries)
    (hmoves : ¬ MovesPoint sv agentID time write) (t : Nat) :
    pointAt (write.written sv agentID time) t = pointAt sv t := by
  by_contra hchange
  obtain ⟨hle, hbetween, htold⟩ := changed_between hsv hchange
  have hnone : pointAt sv time = none ∧ write.told sv agentID time = none := by
    simpa [MovesPoint] using hmoves
  rw [htold, hnone.2, ← (hbetween time (Nat.le_refl _) hle).1, hnone.1] at hchange
  exact hchange rfl

/-- The points after the operation: that of the variable, and those of the others. -/
theorem mem_pointsAt_writtenMap {point : Point} :
    point ∈ pointsAt (s.writtenMap ssvId sv agentID time write) t ↔
      pointAt (write.written sv agentID time) t = some point ∨
        ∃ (id : SsvId) (sv₁ : StateVariable AbstractValue), id ≠ ssvId ∧
          s.stateVariableMap[id]? = some sv₁ ∧ pointAt sv₁ t = some point := by
  rw [mem_pointsAt]
  constructor
  · intro h
    obtain ⟨id, sv₁, hsv₁, hpoint⟩ := h
    rw [writtenMap, Std.TreeMap.getElem?_insert] at hsv₁
    split at hsv₁
    · cases hsv₁
      exact .inl hpoint
    · rename_i hid
      refine .inr ⟨id, sv₁, fun heq => hid ?_, hsv₁, hpoint⟩
      rw [heq]
      exact Std.ReflCmp.compare_self
  · intro h
    rcases h with hpoint | ⟨id, sv₁, hid, hsv₁, hpoint⟩
    · exact ⟨ssvId, _, by rw [writtenMap, Std.TreeMap.getElem?_insert_self], hpoint⟩
    · refine ⟨id, sv₁, ?_, hpoint⟩
      rw [writtenMap, Std.TreeMap.getElem?_insert,
        if_neg fun heq => hid (Std.LawfulEqCmp.eq_of_compare heq).symm]
      exact hsv₁

/-- Where the range contained the points, it has to contain the one of the variable. -/
theorem contains_writtenMap_iff (hold : Contains range (pointsAt s.stateVariableMap t)) :
    Contains range (pointsAt (s.writtenMap ssvId sv agentID time write) t) ↔
      Contains range (pointAt (write.written sv agentID time) t).toList := by
  constructor
  · intro h point hpoint
    rw [Option.mem_toList] at hpoint
    exact h point (mem_pointsAt_writtenMap.mpr (.inl hpoint))
  · intro h point hpoint
    rcases mem_pointsAt_writtenMap.mp hpoint with hpoint | ⟨id, sv₁, _, hsv₁, hpoint⟩
    · exact h point (Option.mem_toList.mpr hpoint)
    · exact hold point (mem_pointsAt.mpr ⟨id, sv₁, hsv₁, hpoint⟩)

/-- Where the variable shows the same point, all points are the same. -/
theorem mem_pointsAt_of_same (hsv : s.stateVariableMap[ssvId]? = some sv)
    (hsame : pointAt (write.written sv agentID time) t = pointAt sv t) {point : Point} :
    point ∈ pointsAt (s.writtenMap ssvId sv agentID time write) t ↔
      point ∈ pointsAt s.stateVariableMap t := by
  rw [mem_pointsAt_writtenMap, mem_pointsAt, hsame]
  constructor
  · intro h
    rcases h with hpoint | ⟨id, sv₁, _, hsv₁, hpoint⟩
    · exact ⟨ssvId, sv, hsv, hpoint⟩
    · exact ⟨id, sv₁, hsv₁, hpoint⟩
  · intro h
    obtain ⟨id, sv₁, hsv₁, hpoint⟩ := h
    by_cases hid : id = ssvId
    · rw [hid, hsv] at hsv₁
      cases hsv₁
      exact .inl hpoint
    · exact .inr ⟨id, sv₁, hid, hsv₁, hpoint⟩

/-- What the ranges must contain for the table to go on covering the points: the new range
those of the rest of the period, a recalculated range those of its period, and any later
range that stays the new point. The time before is at stake where no point is left. -/
structure Fits (gvt : Nat) (s : SharedState) (ssvId : SsvId) (sv : StateVariable AbstractValue)
    (agentID : LpId) (time : Nat) (write : ValueWrite) : Prop where
  here : ∀ t, gvt ≤ t → SamePeriod s.rangeRoutingTable.rangePeriodList time t →
    Contains (recalculateRange (s.writtenMap ssvId sv agentID time write) time)
      (pointsAt (s.writtenMap ssvId sv agentID time write) t)
  before : pointsAt (s.writtenMap ssvId sv agentID time write) time = [] →
    ∀ t, gvt ≤ t → t < time → SamePeriod s.rangeRoutingTable.rangePeriodList t time →
      pointsAt s.stateVariableMap t = []
  recalculated : ∀ p ∈ s.rangeRoutingTable.rangePeriodList,
    Recalculated s.rangeRoutingTable.rangePeriodList time (sv.readWithoutRecord time).1 p →
      ∀ t, gvt ≤ t → SamePeriod s.rangeRoutingTable.rangePeriodList p.time t →
        Contains (recalculateRange (s.writtenMap ssvId sv agentID time write) p.time)
          (pointsAt (s.writtenMap ssvId sv agentID time write) t)
  kept : ∀ p ∈ s.rangeRoutingTable.rangePeriodList, time < p.time →
    ¬ Recalculated s.rangeRoutingTable.rangePeriodList time (sv.readWithoutRecord time).1 p →
      ∀ t, gvt ≤ t → SamePeriod s.rangeRoutingTable.rangePeriodList p.time t →
        Contains p.range (pointAt (write.written sv agentID time) t).toList

/-- The table after an operation that is about a point. -/
theorem perform_rangePeriodList (hs : Ordered s) (hsv : s.stateVariableMap[ssvId]? = some sv)
    (h : s.perform ssvId agentID time write = some (s', list)) :
    s'.rangeRoutingTable.rangePeriodList =
      if MovesPoint sv agentID time write then
        updatedPeriods s.rangeRoutingTable.rangePeriodList time (sv.readWithoutRecord time).1
          (recalculateRange (s.writtenMap ssvId sv agentID time write))
      else s.rangeRoutingTable.rangePeriodList := by
  obtain ⟨rollbackList, rfl⟩ := perform_eq hsv h
  simp only [updateRange]
  split
  · rename_i hmoves
    have hmoves' : MovesPoint sv agentID time write := hmoves
    rw [if_pos hmoves']
    exact congrArg rangePeriodList (update_eq_recalculated _ hs.rangePeriods _ _ _ _)
  · rename_i hmoves
    have hmoves' : ¬ MovesPoint sv agentID time write := hmoves
    rw [if_neg hmoves']

section Update

variable {l : List RangePeriod} {m' : StateVariableMap} {endTime : Nat}

/-- What an update leaves covers the points of `m'` at the times before it exactly if the
points are gone where it takes the range away. -/
theorem contains_before_iff (hplaced : Placed l) (hlt : t < time) (hsame : SamePeriod l t time)
    {points points' : List Point} (hpoints : ∀ point, point ∈ points' ↔ point ∈ points)
    (hold : Contains (rangeAt l t) points) :
    Contains (rangeAt (updatedPeriods l time endTime (recalculateRange m')) t) points' ↔
      (pointsAt m' time = [] → points = []) := by
  have hiff : ∀ range, Contains range points' ↔ Contains range points :=
    fun range => forall_congr' fun point => imp_congr_left (hpoints point)
  rw [rangeAt_updatedPeriods_of_lt hplaced hlt, hiff, ← recalculateRange_eq_none_iff]
  rcases rangeAt_setRangeAt_before hplaced.increasing hlt hsame with ⟨hrange, hnone⟩ |
    ⟨hrange, hnone⟩
  · rw [hrange]
    refine iff_of_true hold fun h => ?_
    rw [hnone h] at hold
    exact contains_none.mp hold
  · rw [hrange]
    by_cases h : recalculateRange m' time = none
    · rw [h, contains_none]
      exact ⟨fun hempty _ => hempty, fun hempty => hempty rfl⟩
    · rw [hnone h, contains_none] at hold
      rw [hold]
      exact iff_of_true nofun fun _ => rfl

end Update

/-- An operation keeps the table of `HERE` covering the points exactly if the ranges fit. -/
theorem covered_perform_iff (hs : Ordered s) (hcovered : Covered gvt s)
    (hsv : s.stateVariableMap[ssvId]? = some sv)
    (h : s.perform ssvId agentID time write = some (s', list)) :
    Covered gvt s' ↔
      (MovesPoint sv agentID time write → Fits gvt s ssvId sv agentID time write) := by
  have hordered := hs.writePeriods ssvId sv hsv
  have hplaced := hs.rangePeriods
  have hsame : ∀ {t}, t < time → ∀ point,
      point ∈ pointsAt (s.writtenMap ssvId sv agentID time write) t ↔
        point ∈ pointsAt s.stateVariableMap t := fun hlt _ =>
    mem_pointsAt_of_same hsv (pointAt_written_of_lt hordered hlt)
  rw [Covered, perform_stateVariableMap hsv h, perform_rangePeriodList hs hsv h]
  split
  · rename_i hmoves
    rw [imp_iff_right hmoves]
    constructor
    · intro hnew
      refine ⟨fun t ht hperiod => ?_, fun hempty t ht hlt hperiod => ?_,
        fun p hp hrecalculated t ht hperiod => ?_, fun p hp hlater hnot t ht hperiod => ?_⟩
      · have hcontains := hnew t ht
        rwa [rangeAt_updatedPeriods_same hplaced hperiod] at hcontains
      · exact (contains_before_iff hplaced hlt hperiod (hsame hlt) (hcovered t ht)).mp
          (hnew t ht) hempty
      · have hcontains := hnew t ht
        rwa [rangeAt_updatedPeriods_recalculated hplaced hp hrecalculated hperiod] at hcontains
      · have hcontains := hnew t ht
        have hrange := rangeAt_of_mem hplaced.increasing hp hperiod
        rw [rangeAt_updatedPeriods_kept hplaced hp hlater hnot hperiod,
          contains_writtenMap_iff (hcovered t ht), hrange] at hcontains
        exact hcontains
    · intro hfits t ht
      by_cases hlt : t < time
      · by_cases hperiod : SamePeriod s.rangeRoutingTable.rangePeriodList t time
        · exact (contains_before_iff hplaced hlt hperiod (hsame hlt) (hcovered t ht)).mpr
            fun hempty => hfits.before hempty t ht hlt hperiod
        · rw [rangeAt_updatedPeriods_of_lt hplaced hlt, rangeAt_setRangeAt_other
            hplaced.increasing (fun hlater => Nat.not_le_of_lt hlt hlater.1) fun _ => hperiod]
          exact fun point hpoint => hcovered t ht point ((hsame hlt point).mp hpoint)
      · by_cases hperiod : SamePeriod s.rangeRoutingTable.rangePeriodList time t
        · rw [rangeAt_updatedPeriods_same hplaced hperiod]
          exact hfits.here t ht hperiod
        · obtain ⟨p, hp, hlater, hperiod⟩ :=
            exists_later_of_not_samePeriod hplaced.increasing (Nat.le_of_not_lt hlt) hperiod
          by_cases hrecalculated : Recalculated s.rangeRoutingTable.rangePeriodList time
              (sv.readWithoutRecord time).1 p
          · rw [rangeAt_updatedPeriods_recalculated hplaced hp hrecalculated hperiod]
            exact hfits.recalculated p hp hrecalculated t ht hperiod
          · rw [rangeAt_updatedPeriods_kept hplaced hp hlater hrecalculated hperiod,
              contains_writtenMap_iff (hcovered t ht), rangeAt_of_mem hplaced.increasing hp hperiod]
            exact hfits.kept p hp hlater hrecalculated t ht hperiod
  · rename_i hmoves
    refine iff_of_true (fun t ht point hpoint => ?_) fun h => absurd h hmoves
    have hunchanged := pointAt_written_of_not_movesPoint hordered hmoves t
    exact hcovered t ht point ((mem_pointsAt_of_same hsv hunchanged).mp hpoint)

theorem OnePeriod.not_recalculated (hone : OnePeriod s ssvId sv agentID time write)
    {p : RangePeriod} (hp : p ∈ s.rangeRoutingTable.rangePeriodList) :
    ¬ Recalculated s.rangeRoutingTable.rangePeriodList time (sv.readWithoutRecord time).1 p := by
  intro h
  obtain ⟨_, hend, q, _, hq, hqp⟩ := h
  exact Nat.not_lt_of_le (hone.ended p hp (Nat.lt_trans hq hqp)).1 hend

/-- A write that is over when the next range period begins changes no later period, and the
one range does for its own. -/
theorem OnePeriod.fits (hs : Ordered s) (hcovered : Covered gvt s)
    (hsv : s.stateVariableMap[ssvId]? = some sv)
    (hone : OnePeriod s ssvId sv agentID time write) : Fits gvt s ssvId sv agentID time write := by
  have hordered := hs.writePeriods ssvId sv hsv
  have hincreasing := hs.rangePeriods.increasing
  refine ⟨fun t _ hperiod => contains_of_writeTimes hone.contained hperiod,
    fun hempty t ht hlt hperiod => ?_,
    fun p hp hrecalculated => absurd hrecalculated (hone.not_recalculated hp),
    fun p hp hlater _ t ht hperiod => ?_⟩
  · have hrange := recalculateRange_eq_none_iff.mpr hempty
    have hsame := rangeAt_setRangeAt hincreasing hone.confined t
    rw [if_neg fun hlater => Nat.not_le_of_lt hlt hlater.1] at hsame
    have hnone : rangeAt s.rangeRoutingTable.rangePeriodList t = none := by
      rcases rangeAt_setRangeAt_before hincreasing hlt hperiod with ⟨_, hnone⟩ | ⟨hchanged, _⟩
      · exact hnone hrange
      · exact (hsame.symm.trans hchanged).trans hrange
    have hpoints := hcovered t ht
    rw [hnone] at hpoints
    exact contains_none.mp hpoints
  · -- what has ended by the period is not seen in it
    have hsame : pointAt (write.written sv agentID time) t = pointAt sv t := by
      by_contra hchange
      obtain ⟨_, hbetween, _⟩ := changed_between hordered hchange
      obtain ⟨hbefore, hafter⟩ := hbetween p.time (Nat.le_of_lt hlater) hperiod.1
      exact hchange (hafter.symm.trans (((hone.ended p hp hlater).2).trans hbefore))
    have hpoints := hcovered t ht
    rw [rangeAt_of_mem hincreasing hp hperiod] at hpoints
    rw [hsame]
    intro point hpoint
    exact hpoints point (mem_pointsAt.mpr ⟨ssvId, sv, hsv, Option.mem_toList.mp hpoint⟩)

/-- What a collection leaves is asked of the times from it on. -/
theorem covered_setGvt_iff (gvt' : Nat) (s : SharedState) :
    Covered gvt' { s.removeWritePeriods gvt' with
      rangeRoutingTable := s.rangeRoutingTable.clearRangePeriods gvt' } ↔ Covered gvt' s := by
  refine forall_congr' fun t => forall_congr' fun ht => ?_
  have hrange : rangeAt (s.rangeRoutingTable.clearRangePeriods gvt').rangePeriodList t =
      rangeAt s.rangeRoutingTable.rangePeriodList t := getRangeCopy_clearRangePeriods ht
  have hpoint : ∀ sv : StateVariable AbstractValue,
      pointAt (sv.removeWritePeriods gvt') t = pointAt sv t := by
    intro sv
    have hexec : sv.exec (.removeWritePeriods gvt') = some (sv.removeWritePeriods gvt', .silent) :=
      rfl
    rw [pointAt_entries, pointAt_entries, valueAt_collected (effect_of_exec hexec) ht]
  have hpoints : pointsAt (s.removeWritePeriods gvt').stateVariableMap t =
      pointsAt s.stateVariableMap t := by
    simp only [pointsAt, SharedState.removeWritePeriods, Std.TreeMap.toList_map,
      List.filterMap_map, Function.comp_def, hpoint]
  dsimp only
  rw [hrange, hpoints]

/-- The time of the last collection, after a call. -/
def lastCollection (gvt : Nat) : Call → Nat
  | .setGvt gvt' => gvt'
  | _ => gvt

/-- The changes of a shared state and its table, with the time of the last collection. -/
def collecting : Machine (SharedState × Nat) Call RollbackList :=
  ⟨fun s call => (s.1.exec call).map fun r => ((r.1, lastCollection s.2 call), r.2)⟩

/-- A write, the rollback of one, or a collection. -/
def IsChange (_ : SharedState × Nat) : Call → Prop
  | .write _ _ _ _ | .setGvt _ => True
  | .add .. | .insert .. | .delete .. | .read .. | .rollbackRead .. | .removeWritePeriodList .. |
    .updateAccessCount .. | .rangeQuery .. | .rangeQueryAnti .. | .clearRangeUpdates => False

/-- The condition on a change: a write that is about a point fits, and a collection for an
earlier time than the last one finds the times between covered. -/
def ChangeFits (s : SharedState × Nat) : Call → Prop
  | .write write ssvId agentID time => ∀ sv, s.1.stateVariableMap[ssvId]? = some sv →
      MovesPoint sv agentID time write → Fits s.2 s.1 ssvId sv agentID time write
  | .setGvt gvt => ∀ t, gvt ≤ t → t < s.2 →
      Contains (rangeAt s.1.rangeRoutingTable.rangePeriodList t) (pointsAt s.1.stateVariableMap t)
  | _ => True

theorem covered_step_iff {s s' : SharedState × Nat} {call : Call} (hs : Ordered s.1)
    (hcovered : Covered s.2 s.1) (hchange : IsChange s call)
    (h : collecting.step s call = some (s', list)) :
    Covered s'.2 s'.1 ↔ ChangeFits s call := by
  obtain ⟨r, hr, heq⟩ := Option.map_eq_some_iff.mp h
  cases heq
  cases call with
  | write write ssvId agentID time =>
      obtain ⟨sv, hsv⟩ := perform_exists_variable hr
      refine (covered_perform_iff hs hcovered hsv hr).trans ?_
      constructor
      · intro hfits sv' hsv'
        obtain rfl : sv' = sv := Option.some.inj (hsv'.symm.trans hsv)
        exact hfits
      · exact fun hfits => hfits sv hsv
  | setGvt gvt =>
      cases hr
      refine (covered_setGvt_iff gvt s.1).trans ?_
      constructor
      · exact fun h t ht _ => h t ht
      · intro h t ht
        by_cases hlt : t < s.2
        · exact h t ht hlt
        · exact hcovered t (Nat.le_of_not_lt hlt)
  | add | insert | delete | read | rollbackRead | removeWritePeriodList | updateAccessCount |
    rangeQuery | rangeQueryAnti | clearRangeUpdates => exact absurd hchange id

/-- Through any changes, the table of `HERE` goes on covering the points exactly if every
change fits. -/
theorem covered_throughout_iff (s : SharedState) (gvt : Nat) (s' : SharedState × Nat)
    (calls : List Call) (lists : List RollbackList)
    (hreach : machine.Reachable Initial (fun _ _ => True) s) (hcovered : Covered gvt s)
    (hcalls : collecting.Meets IsChange (s, gvt) calls)
    (hrun : collecting.run (s, gvt) calls = some (s', lists)) :
    collecting.Throughout (fun s => Covered s.2 s.1) (s, gvt) calls ↔
      collecting.Meets ChangeFits (s, gvt) calls := by
  rw [collecting.throughout_iff IsChange ChangeFits (fun s => Ordered s.1) _ ?_ ?_ calls (s, gvt)
    s' lists (ordered_of_reachable hreach) hcalls hrun]
  · exact and_iff_right hcovered
  · intro s call s' list hs _ hstep
    obtain ⟨r, hr, heq⟩ := Option.map_eq_some_iff.mp hstep
    cases heq
    exact ordered_step hr hs
  · exact fun s call s' list hs hcovered hchange hstep => covered_step_iff hs hcovered hchange hstep

/-- Two variables at one point. -/
private def twoPoints : List Call :=
  [.add 7 (.valuePOINT ⟨1, 1⟩) 0 ⟨0, 0⟩, .add 8 (.valuePOINT ⟨1, 1⟩) 0 ⟨0, 0⟩]

/-- The second write comes first in virtual time. -/
private def writesBackwards : List Call :=
  [.write (.writeWithRollback (.valuePOINT ⟨2, 2⟩)) 8 ⟨1, 4⟩ 10,
    .write (.writeWithRollback (.valuePOINT ⟨9, 9⟩)) 7 ⟨1, 5⟩ 5]

private theorem covered_twoPoints : ∃ s results, machine.run boxOfOne twoPoints = some (s, results) ∧
    Covered 0 s ∧ ∃ s' lists, collecting.run (s, 0) writesBackwards = some (s', lists) ∧
      ¬ Contains (rangeAt s'.1.rangeRoutingTable.rangePeriodList 10)
        (pointsAt s'.1.stateVariableMap 10) ∧ s'.2 = 0 := by
  obtain ⟨s, results, hrun, hcheck, hsingle, s', lists, hrun', hnot, hgvt⟩ :
      ∃ s results, machine.run boxOfOne twoPoints = some (s, results) ∧
        (∀ t ∈ 0 :: writeTimes s.stateVariableMap,
          SamePeriod s.rangeRoutingTable.rangePeriodList 0 t →
            Contains (rangeAt s.rangeRoutingTable.rangePeriodList 0)
              (pointsAt s.stateVariableMap t)) ∧
        (∀ p ∈ s.rangeRoutingTable.rangePeriodList, p.time ≤ 0) ∧
        ∃ s' lists, collecting.run (s, 0) writesBackwards = some (s', lists) ∧
          ¬ Contains (rangeAt s'.1.rangeRoutingTable.rangePeriodList 10)
            (pointsAt s'.1.stateVariableMap 10) ∧ s'.2 = 0 := by
    refine ⟨_, _, rfl, ?_, ?_, _, _, rfl, ?_, rfl⟩
    · decide
    · decide
    · decide
  refine ⟨s, results, hrun, fun t _ => ?_, s', lists, hrun', hnot, hgvt⟩
  have hsame : SamePeriod s.rangeRoutingTable.rangePeriodList 0 t :=
    ⟨Nat.zero_le t, fun p hp _ => hsingle p hp⟩
  rw [hsame.rangeAt]
  exact contains_of_writeTimes hcheck hsame

theorem covered_throughout_iff_backwards :
    ∃ s results s' lists, machine.run boxOfOne twoPoints = some (s, results) ∧ Covered 0 s ∧
      collecting.run (s, 0) writesBackwards = some (s', lists) ∧
      (collecting.Throughout (fun s => Covered s.2 s.1) (s, 0) writesBackwards ↔
        collecting.Meets ChangeFits (s, 0) writesBackwards) := by
  obtain ⟨s, results, hrun, hcovered, s', lists, hrun', _⟩ := covered_twoPoints
  have hreach : machine.Reachable Initial (fun _ _ => True) s :=
    .run (.start ⟨0, _, _, rfl⟩) (machine.meets_true _ _) hrun
  have hcalls : collecting.Meets IsChange (s, 0) writesBackwards :=
    collecting.meets_of_forall (by simp [writesBackwards, IsChange])
  exact ⟨s, results, s', lists, hrun, hcovered, hrun',
    covered_throughout_iff s 0 s' writesBackwards lists hreach hcovered hcalls hrun'⟩

/-- The range of the next period stays as it was, and the point written before it is outside. -/
theorem next_period_misses_point :
    ∃ s results s' lists, machine.run boxOfOne twoPoints = some (s, results) ∧ Covered 0 s ∧
      collecting.run (s, 0) writesBackwards = some (s', lists) ∧ ¬ Covered s'.2 s'.1 := by
  obtain ⟨s, results, hrun, hcovered, s', lists, hrun', hnot, hgvt⟩ := covered_twoPoints
  refine ⟨s, results, s', lists, hrun, hcovered, hrun', fun h => hnot (h 10 ?_)⟩
  rw [hgvt]
  exact Nat.zero_le 10

end SharedState
end PdesMas
