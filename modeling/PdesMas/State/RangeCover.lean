import PdesMas.RangeQuery.LaterPeriods
import PdesMas.State.PeriodList
import PdesMas.State.QueryRollbacks

/-!
When the table of the port `HERE` covers the points of the variables. A write, or
its rollback, changes what is seen of one variable up to its next period, and the
table gets one range for the whole of the period that the write falls in.
-/

namespace PdesMas
universe u
variable {V : Type u}

namespace Timeline

variable {l l' A A' B : List (Entry V)} {w q r : Nat}

/-- The lists differ in periods that have begun by `w` alone. -/
def SplicedAt (w : Nat) (l l' : List (Entry V)) : Prop :=
  ∃ A A' B, l = A ++ B ∧ l' = A' ++ B ∧ (∀ x ∈ A, x.start ≤ w) ∧ ∀ x ∈ A', x.start ≤ w

theorem splicedAt_refl (w : Nat) (l : List (Entry V)) : SplicedAt w l l :=
  ⟨[], [], l, rfl, rfl, nofun, nofun⟩

theorem splicedAt_of_write {agent : LpId} {value : V} {o : Outcome V}
    (h : Effect l (.writeWithRollback agent value w) l' o) (hl : WellOrdered l) :
    SplicedAt w l l' := by
  cases h with
  | writeTooEarly | writeRejected => exact splicedAt_refl w _
  | writeFirst =>
      refine ⟨[], [.fresh agent value w], [], rfl, rfl, nofun, fun x hx => ?_⟩
      exact Nat.le_of_eq (congrArg Entry.start (List.mem_singleton.mp hx))
  | @writeAccepted A B e _ _ _ he hB hok =>
      have hA : ∀ x ∈ A, x.start ≤ w := fun x hx => Nat.le_trans (hl.le_focus x hx) he
      refine ⟨A ++ [e], A ++ [e.keepBefore w, .fresh agent value w], B, by simp, by simp, ?_, ?_⟩
      · intro x hx
        cases List.mem_append.mp hx with
        | inl hx => exact hA x hx
        | inr hx => exact List.mem_singleton.mp hx ▸ he
      · intro x hx
        cases List.mem_append.mp hx with
        | inl hx => exact hA x hx
        | inr hx =>
            rcases List.mem_pair.mp hx with rfl | rfl
            · exact he
            · exact Nat.le_refl w

theorem splicedAt_of_writeRollback {agent : LpId} {o : Outcome V}
    (h : Effect l (.performWriteRollback agent w) l' o) (hl : WellOrdered l) :
    SplicedAt w l l' := by
  cases h with
  | writeRollbackMissing | writeRollbackForeign => exact splicedAt_refl w _
  | @writeRollback A B e _ _ he hA hown =>
      have hA : ∀ x ∈ A, x.start ≤ w := fun x hx => he ▸ hl.le_focus x hx
      refine ⟨A ++ [e], A, B, by simp, rfl, fun x hx => ?_, hA⟩
      cases List.mem_append.mp hx with
      | inl hx => exact hA x hx
      | inr hx => exact List.mem_singleton.mp hx ▸ Nat.le_of_eq he

/-- A change that is seen at `q` has been the same since `w`. -/
theorem SplicedAt.between (h : SplicedAt w l l') (hq : valueAt q l' ≠ valueAt q l)
    (hwr : w ≤ r) (hrq : r ≤ q) : valueAt r l = valueAt q l ∧ valueAt r l' = valueAt q l' := by
  obtain ⟨A, A', B, rfl, rfl, hA, hA'⟩ := h
  have hBq : Later q B := by
    by_contra hBq
    exact hq (by rw [valueAt_append_of_not_later hBq, valueAt_append_of_not_later hBq])
  have hBr : Later r B := fun x hx => Nat.lt_of_le_of_lt hrq (hBq x hx)
  have hsame : ∀ C : List (Entry V), (∀ x ∈ C, x.start ≤ w) →
      valueAt r (C ++ B) = valueAt q (C ++ B) := by
    intro C hC
    rw [valueAt_append_of_later hBr, valueAt_append_of_later hBq, valueAt_of_started hC hwr,
      valueAt_of_started hC (Nat.le_trans hwr hrq)]
  exact ⟨hsame A hA, hsame A' hA'⟩

end Timeline

namespace ValueWrite

/-- What the operation makes of the variable. -/
def written (sv : StateVariable AbstractValue) (agentID : LpId) (time : Nat) :
    ValueWrite → StateVariable AbstractValue
  | .writeWithRollback newValue => (sv.writeWithRollback agentID newValue time .empty).1
  | .rollbackWrite => (sv.performWriteRollback agentID time .empty).1

/-- The new point that the range table is told of. -/
def told (sv : StateVariable AbstractValue) (agentID : LpId) (time : Nat) :
    ValueWrite → Option Point
  | .writeWithRollback newValue => newValue.point?
  | .rollbackWrite => SharedState.pointAt (written sv agentID time .rollbackWrite) time

end ValueWrite

namespace SharedState

open RangeRoutingTable Timeline

variable {s s' : SharedState} {ssvId : SsvId} {sv : StateVariable AbstractValue} {agentID : LpId}
  {time t : Nat} {write : ValueWrite} {list : RollbackList}

/-- The points that the variables hold at `time`. -/
def pointsAt (m : StateVariableMap) (time : Nat) : List Point :=
  m.toList.filterMap fun sv => pointAt sv.2 time

theorem mem_pointsAt {m : StateVariableMap} {point : Point} :
    point ∈ pointsAt m time ↔
      ∃ (id : SsvId) (sv : StateVariable AbstractValue),
        m[id]? = some sv ∧ pointAt sv time = some point := by
  simp only [pointsAt, List.mem_filterMap, Prod.exists, Std.TreeMap.mem_toList_iff_getElem?_eq_some]

/-- The range contains the points; `NULL` contains none. -/
def Contains (range : Option Range) (points : List Point) : Prop :=
  ∀ point ∈ points, range.any (·.isValueOverlapping point) = true

instance (range : Option Range) (points : List Point) : Decidable (Contains range points) :=
  inferInstanceAs (Decidable (∀ point ∈ points, _ = true))

/-- The table of the port `HERE` covers the points that can be seen from `gvt` on. -/
def Covered (gvt : Nat) (s : SharedState) : Prop :=
  ∀ t, gvt ≤ t → Contains (rangeAt s.rangeRoutingTable.rangePeriodList t)
    (pointsAt s.stateVariableMap t)

/-- The times at which the value of a variable may change. -/
def writeTimes (m : StateVariableMap) : List Nat :=
  m.toList.flatMap fun sv => sv.2.writePeriodList.map WritePeriod.startTime

/-- The variables after the operation. -/
def writtenMap (s : SharedState) (ssvId : SsvId) (sv : StateVariable AbstractValue)
    (agentID : LpId) (time : Nat) (write : ValueWrite) : StateVariableMap :=
  s.stateVariableMap.insert ssvId (write.written sv agentID time)

/-- The operation takes a point from the variable, or gives it one. -/
def MovesPoint (sv : StateVariable AbstractValue) (agentID : LpId) (time : Nat)
    (write : ValueWrite) : Prop :=
  ((pointAt sv time).isSome || (write.told sv agentID time).isSome) = true

instance (sv : StateVariable AbstractValue) (agentID : LpId) (time : Nat) (write : ValueWrite) :
    Decidable (MovesPoint sv agentID time write) := inferInstanceAs (Decidable (_ = true))

/-- The operation is over when the next range period begins, and one range will do for the
period it falls in. -/
structure OnePeriod (s : SharedState) (ssvId : SsvId) (sv : StateVariable AbstractValue)
    (agentID : LpId) (time : Nat) (write : ValueWrite) : Prop where
  ended : ∀ p ∈ s.rangeRoutingTable.rangePeriodList, time < p.time →
    (sv.readWithoutRecord time).1 ≤ p.time ∧
      pointAt (write.written sv agentID time) p.time = pointAt sv p.time
  confined : Confined s.rangeRoutingTable.rangePeriodList time
    (recalculateRange (s.writtenMap ssvId sv agentID time write) time)
  contained : ∀ t ∈ time :: writeTimes (s.writtenMap ssvId sv agentID time write),
    SamePeriod s.rangeRoutingTable.rangePeriodList time t →
      Contains (recalculateRange (s.writtenMap ssvId sv agentID time write) time)
        (pointsAt (s.writtenMap ssvId sv agentID time write) t)

instance (s : SharedState) (ssvId : SsvId) (sv : StateVariable AbstractValue) (agentID : LpId)
    (time : Nat) (write : ValueWrite) : Decidable (OnePeriod s ssvId sv agentID time write) :=
  decidable_of_iff (_ ∧ _ ∧ _) ⟨fun h => ⟨h.1, h.2.1, h.2.2⟩, fun h => ⟨h.1, h.2, h.3⟩⟩

/-- Both operations change the variable and then the range table. -/
theorem perform_eq (hsv : s.stateVariableMap[ssvId]? = some sv)
    (h : s.perform ssvId agentID time write = some (s', list)) :
    ∃ rollbackList, s' = (({ s with
      stateVariableMap := s.writtenMap ssvId sv agentID time write } : SharedState).updateRange
        (pointAt sv time) (write.told sv agentID time) time (sv.readWithoutRecord time).1
        rollbackList).1 := by
  cases write with
  | writeWithRollback value =>
      obtain ⟨r, hop, heq⟩ := Option.map_eq_some_iff.mp h
      cases heq
      obtain ⟨sv₁, hsv₁, hop⟩ := Option.bind_eq_some_iff.mp hop
      obtain rfl : sv₁ = sv := Option.some.inj (hsv₁.symm.trans hsv)
      cases hop
      exact ⟨_, rfl⟩
  | rollbackWrite =>
      obtain ⟨sv₁, hsv₁, hop⟩ := Option.bind_eq_some_iff.mp h
      obtain rfl : sv₁ = sv := Option.some.inj (hsv₁.symm.trans hsv)
      cases hop
      exact ⟨_, rfl⟩

theorem perform_exists_variable (h : s.perform ssvId agentID time write = some (s', list)) :
    ∃ sv, s.stateVariableMap[ssvId]? = some sv := by
  cases write with
  | writeWithRollback value =>
      obtain ⟨q, hq, _⟩ := Option.map_eq_some_iff.mp h
      obtain ⟨sv, hsv, _⟩ := Option.bind_eq_some_iff.mp hq
      exact ⟨sv, hsv⟩
  | rollbackWrite =>
      obtain ⟨sv, hsv, _⟩ := Option.bind_eq_some_iff.mp h
      exact ⟨sv, hsv⟩

theorem perform_sameVariables (h : s.perform ssvId agentID time write = some (s', list)) :
    SameVariables s s' := by
  cases write with
  | writeWithRollback value =>
      obtain ⟨q, hq, heq⟩ := Option.map_eq_some_iff.mp h
      cases heq
      exact writeWithRollback_sameVariables hq
  | rollbackWrite => exact rollbackWrite_sameVariables h

theorem perform_stateVariableMap (hsv : s.stateVariableMap[ssvId]? = some sv)
    (h : s.perform ssvId agentID time write = some (s', list)) :
    s'.stateVariableMap = s.writtenMap ssvId sv agentID time write := by
  obtain ⟨rollbackList, rfl⟩ := perform_eq hsv h
  rw [updateRange_stateVariableMap]

/-- The table gets one new range, if the operation is about a point and the loop over the
later periods comes to none. -/
theorem perform_rangeRoutingTable (hs : Ordered s) (hsv : s.stateVariableMap[ssvId]? = some sv)
    (hnot : MovesPoint sv agentID time write → ∀ p ∈ s.rangeRoutingTable.rangePeriodList,
      ¬ Recalculated s.rangeRoutingTable.rangePeriodList time (sv.readWithoutRecord time).1 p)
    (h : s.perform ssvId agentID time write = some (s', list)) :
    s'.rangeRoutingTable =
      if MovesPoint sv agentID time write then
        ⟨setRangeAt s.rangeRoutingTable.rangePeriodList time
            (recalculateRange (s.writtenMap ssvId sv agentID time write) time),
          s.rangeRoutingTable.rangeUpdateList ++ announced s.rangeRoutingTable.rangePeriodList time
            (recalculateRange (s.writtenMap ssvId sv agentID time write) time)⟩
      else s.rangeRoutingTable := by
  obtain ⟨rollbackList, rfl⟩ := perform_eq hsv h
  simp only [updateRange]
  split
  · rename_i hmoves
    have hmoves' : MovesPoint sv agentID time write := hmoves
    rw [if_pos hmoves']
    exact update_eq _ hs.rangePeriods _ _ _ _ _ (hnot hmoves')
  · rename_i hmoves
    have hmoves' : ¬ MovesPoint sv agentID time write := hmoves
    rw [if_neg hmoves']

/-- Up to the next write period a variable holds the same. -/
theorem pointAt_eq_or (sv : StateVariable AbstractValue) (hle : time ≤ t) :
    pointAt sv t = pointAt sv time ∨
      ∃ p ∈ sv.writePeriodList, time < p.startTime ∧ p.startTime ≤ t ∧
        pointAt sv t = pointAt sv p.startTime := by
  have hfound : ∀ {r : Nat} {c : Cut (WritePeriod AbstractValue)}, sv.walkBack t = some c →
      c.focus.startTime ≤ r → r ≤ t → pointAt sv t = pointAt sv r := by
    intro r c hc hfocus hrt
    obtain ⟨hl, _, hback⟩ := Cut.last?_eq_some.mp hc
    have hc' : sv.walkBack r = some c := by
      refine Cut.last?_eq_some.mpr ⟨hl, decide_eq_true hfocus, fun p hp => ?_⟩
      have hlater := hback p hp
      simp only [decide_eq_false_iff_not] at hlater ⊢
      omega
    rw [pointAt, pointAt, StateVariable.readWithoutRecord, StateVariable.readWithoutRecord, hc, hc']
  cases hc : sv.walkBack t with
  | some c =>
      obtain ⟨hl, hfocus⟩ := StateVariable.walkBack_some hc
      by_cases htime : c.focus.startTime ≤ time
      · exact .inl (hfound hc htime hle)
      · refine .inr ⟨c.focus, ?_, Nat.lt_of_not_le htime, hfocus, hfound hc (Nat.le_refl _) hfocus⟩
        rw [← hl]
        exact List.mem_append_right _ List.mem_cons_self
  | none =>
      have hlater := Cut.last?_eq_none.mp hc
      have hc' : sv.walkBack time = none := by
        refine Cut.last?_eq_none.mpr fun p hp => ?_
        have hlater := hlater p hp
        simp only [decide_eq_false_iff_not] at hlater ⊢
        omega
      left
      rw [pointAt, pointAt, StateVariable.readWithoutRecord, StateVariable.readWithoutRecord, hc, hc']

/-- A range that contains the points at `time` and at the writes of a period contains them
all through the period. -/
theorem contains_of_writeTimes {m : StateVariableMap} {l : List RangePeriod}
    {range : Option Range}
    (h : ∀ t ∈ time :: writeTimes m, SamePeriod l time t → Contains range (pointsAt m t))
    (hsame : SamePeriod l time t) : Contains range (pointsAt m t) := by
  intro point hpoint
  obtain ⟨id, sv, hsv, hpoint⟩ := mem_pointsAt.mp hpoint
  cases pointAt_eq_or sv hsame.1 with
  | inl heq =>
      rw [heq] at hpoint
      exact h time List.mem_cons_self ⟨Nat.le_refl _, fun _ _ hle => hle⟩ point
        (mem_pointsAt.mpr ⟨id, sv, hsv, hpoint⟩)
  | inr hwrite =>
      obtain ⟨p, hp, hlt, hpt, heq⟩ := hwrite
      rw [heq] at hpoint
      have hmem : p.startTime ∈ writeTimes m := by
        refine List.mem_flatMap.mpr ⟨(id, sv), ?_, List.mem_map_of_mem hp⟩
        exact Std.TreeMap.mem_toList_iff_getElem?_eq_some.mpr hsv
      exact h p.startTime (List.mem_cons_of_mem _ hmem) (hsame.mono (Nat.le_of_lt hlt) hpt) point
        (mem_pointsAt.mpr ⟨id, sv, hsv, hpoint⟩)

/-- What the operation changes is seen from `time` on without a break. -/
theorem changed_between (hsv : WellOrdered sv.entries)
    (hchange : pointAt (write.written sv agentID time) t ≠ pointAt sv t) :
    time ≤ t ∧ (∀ r, time ≤ r → r ≤ t → pointAt sv r = pointAt sv t ∧
      pointAt (write.written sv agentID time) r = pointAt (write.written sv agentID time) t) ∧
      (pointAt (write.written sv agentID time) t = write.told sv agentID time) := by
  have hvalue : valueAt t (write.written sv agentID time).entries ≠ valueAt t sv.entries := by
    intro heq
    rw [pointAt_entries, pointAt_entries, heq] at hchange
    exact hchange rfl
  simp only [pointAt_entries]
  cases write with
  | writeWithRollback value =>
      have hexec : sv.exec (.writeWithRollback agentID value time) = some _ := rfl
      have heffect := effect_of_exec hexec
      have hfrom := changesFrom_of_write heffect hvalue
      refine ⟨hfrom.le, fun r hr hrt => ?_, ?_⟩
      · obtain ⟨hold, hnew⟩ := (splicedAt_of_write heffect hsv).between hvalue hr hrt
        exact ⟨congrArg (·.bind AbstractValue.point?) hold,
          congrArg (·.bind AbstractValue.point?) hnew⟩
      · exact congrArg (·.bind AbstractValue.point?) (hfrom.after.trans hfrom.next)
  | rollbackWrite =>
      have hexec : sv.exec (.performWriteRollback agentID time) = some _ := rfl
      have heffect := effect_of_exec hexec
      have hfrom := changesFrom_of_writeRollback heffect hsv hvalue
      refine ⟨hfrom.le, fun r hr hrt => ?_, ?_⟩
      · obtain ⟨hold, hnew⟩ := (splicedAt_of_writeRollback heffect hsv).between hvalue hr hrt
        exact ⟨congrArg (·.bind AbstractValue.point?) hold,
          congrArg (·.bind AbstractValue.point?) hnew⟩
      · rw [ValueWrite.told, pointAt_entries]
        exact congrArg (·.bind AbstractValue.point?) hfrom.after

end SharedState
end PdesMas
