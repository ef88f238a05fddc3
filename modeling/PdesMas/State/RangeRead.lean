import PdesMas.RangeQuery.RangeTracker
import PdesMas.State.Ordered
import PdesMas.State.SharedState

/-!
Range reads, and what a write or its rollback can change in them. The value of a
variable changes only from the write on and up to the next period, where the old
value is the one held at the write, and so is the new one.
-/

namespace PdesMas
universe u
variable {V : Type u}

namespace Timeline

variable {A B l l' : List (Entry V)} {e : Entry V} {q w : Nat}

theorem valueAt_append_of_later (hB : Later q B) : valueAt q (A ++ B) = valueAt q A := by
  simp only [valueAt]
  cases hc : Cut.last? (Entry.reaches q) A with
  | none =>
      have hA := last?_reaches_eq_none.mp hc
      rw [last?_reaches_eq_none.mpr ((later_append q A B).mpr ⟨hA, hB⟩)]
  | some c =>
      rw [Cut.last?_append_left A B (by simpa [Later] using hB) hc]
      rfl

theorem valueAt_append_of_not_later (hB : ¬ Later q B) :
    valueAt q (A ++ B) = valueAt q B := by
  simp only [valueAt]
  cases hc : Cut.last? (Entry.reaches q) B with
  | none => exact absurd (last?_reaches_eq_none.mp hc) hB
  | some c =>
      rw [Cut.last?_append_right A B hc]
      rfl

/-- A list that has started by `w` says the same at every later time. -/
theorem valueAt_of_started (hA : ∀ x ∈ A, x.start ≤ w) (hwq : w ≤ q) :
    valueAt q A = valueAt w A := by
  cases List.eq_nil_or_concat A with
  | inl hnil => rw [hnil]; rfl
  | inr hlast =>
      obtain ⟨front, x, rfl⟩ := hlast
      have hx : x.start ≤ w := hA x (by simp)
      rw [List.concat_eq_append, valueAt_append front [] x (Nat.le_trans hx hwq) (later_nil q),
        valueAt_append front [] x hx (later_nil w)]

/-- Values do not depend on the recorded reads. -/
theorem valueAt_update {e' : Entry V} (hs : e'.start = e.start) (hv : e'.value = e.value)
    (t : Nat) : valueAt t (A ++ e' :: B) = valueAt t (A ++ e :: B) := by
  by_cases hB : Later t B
  · by_cases ht : e.start ≤ t
    · rw [valueAt_append A B e' (hs ▸ ht) hB, valueAt_append A B e ht hB, hv]
    · have hlater : ∀ x : Entry V, x.start = e.start → Later t (x :: B) := by
        intro x hx
        simpa [hx, hB] using Nat.lt_of_not_le ht
      rw [valueAt_append_of_later (hlater e' hs), valueAt_append_of_later (hlater e rfl)]
  · rw [List.append_cons A e' B, List.append_cons A e B, valueAt_append_of_not_later hB,
      valueAt_append_of_not_later hB]

/-- The reads that an operation at `time` makes invalid. -/
def invalidatedReads (time : Nat) (l : List (Entry V)) : Operation V → List (LpId × Nat)
  | .writeWithRollback _ _ _ =>
      match Cut.last? (Entry.reaches time) l with
      | some c => c.focus.invalidated time
      | none => []
  | .performWriteRollback _ _ =>
      match Cut.first? (Entry.startsAt time) l with
      | some c => c.focus.reads.map fun r => (r.1, time)
      | none => []
  | _ => []

/-- The value at `time` when the operation is accepted. -/
def nextValue (time : Nat) (l : List (Entry V)) : Operation V → Option V
  | .writeWithRollback _ value _ => some value
  | .performWriteRollback _ _ =>
      match Cut.first? (Entry.startsAt time) l with
      | some c => valueAt time (c.front ++ c.back)
      | none => valueAt time l
  | _ => valueAt time l

/-- A change at `q` is the change at `w`, and the operation reports its reads. -/
structure ChangesFrom (w q : Nat) (l l' : List (Entry V)) (op : Operation V)
    (o : Outcome V) : Prop where
  le : w ≤ q
  before : valueAt q l = valueAt w l
  after : valueAt q l' = valueAt w l'
  next : valueAt w l' = nextValue w l op
  calls : o.calls = invalidatedReads w l op

theorem changesFrom_of_write {agent : LpId} {value : V} {o : Outcome V}
    (h : Effect l (.writeWithRollback agent value w) l' o)
    (hq : valueAt q l' ≠ valueAt q l) :
    ChangesFrom w q l l' (.writeWithRollback agent value w) o := by
  cases h with
  | writeTooEarly | writeRejected => exact absurd rfl hq
  | writeFirst =>
      have hfresh : ∀ t, w ≤ t → valueAt t [Entry.fresh agent value w] = some value :=
        fun t ht => valueAt_append [] [] _ ht (later_nil t)
      have hle : w ≤ q := by
        by_contra hlt
        apply hq
        have hlater : Later q [Entry.fresh agent value w] := by
          simpa [Entry.fresh] using Nat.lt_of_not_le hlt
        exact valueAt_append_of_later (A := []) hlater
      exact ⟨hle, rfl, by rw [hfresh q hle, hfresh w (le_refl w)], hfresh w (le_refl w), rfl⟩
  | @writeAccepted A B e _ _ _ he hB hok =>
      have hBq : Later q B := by
        by_contra hBq
        apply hq
        have hl' : A ++ e.keepBefore w :: .fresh agent value w :: B =
            (A ++ [e.keepBefore w, .fresh agent value w]) ++ B := by simp
        rw [hl', valueAt_append_of_not_later hBq, List.append_cons,
          valueAt_append_of_not_later hBq]
      have hnew : ∀ t, Later t B → w ≤ t →
          valueAt t (A ++ e.keepBefore w :: .fresh agent value w :: B) = some value := by
        intro t htB ht
        rw [List.append_cons]
        exact valueAt_append _ B (.fresh agent value w) ht htB
      have hle : w ≤ q := by
        by_contra hlt
        apply hq
        have hlater : Later q (.fresh agent value w :: B) := by
          simpa [Entry.fresh, hBq] using Nat.lt_of_not_le hlt
        rw [List.append_cons A _ _, valueAt_append_of_later hlater, List.append_cons A e B,
          valueAt_append_of_later hBq]
        have hstart : (e.keepBefore w).start = e.start := rfl
        exact valueAt_update hstart rfl q
      have hcut := last?_reaches A B e he hB
      refine ⟨hle, ?_, ?_, hnew w hB (le_refl w), ?_⟩
      · rw [valueAt_append A B e (Nat.le_trans he hle) hBq, valueAt_append A B e he hB]
      · rw [hnew q hBq hle, hnew w hB (le_refl w)]
      · simp [invalidatedReads, hcut]

theorem changesFrom_of_writeRollback {agent : LpId} {o : Outcome V}
    (h : Effect l (.performWriteRollback agent w) l' o) (hl : WellOrdered l)
    (hq : valueAt q l' ≠ valueAt q l) :
    ChangesFrom w q l l' (.performWriteRollback agent w) o := by
  cases h with
  | writeRollbackMissing | writeRollbackForeign => exact absurd rfl hq
  | @writeRollback A B e _ _ he hA hown =>
      have hstarted : ∀ x ∈ A, x.start ≤ w := fun x hx => he ▸ hl.le_focus x hx
      have hBq : Later q B := by
        by_contra hBq
        apply hq
        rw [valueAt_append_of_not_later hBq, List.append_cons, valueAt_append_of_not_later hBq]
      have hle : w ≤ q := by
        by_contra hlt
        apply hq
        have hlater : Later q (e :: B) := by
          simpa [hBq, he] using Nat.lt_of_not_le hlt
        rw [valueAt_append_of_later hBq, valueAt_append_of_later hlater]
      have hBw : Later w B := fun x hx => Nat.lt_of_le_of_lt hle (hBq x hx)
      have hcut : Cut.first? (Entry.startsAt w) (A ++ e :: B) = some ⟨A, e, B⟩ :=
        first?_startsAt_eq_some.mpr ⟨rfl, he, hA⟩
      have hew : e.start ≤ w := Nat.le_of_eq he
      refine ⟨hle, ?_, ?_, ?_, ?_⟩
      · rw [valueAt_append A B e (Nat.le_trans hew hle) hBq, valueAt_append A B e hew hBw]
      · rw [valueAt_append_of_later hBq, valueAt_append_of_later hBw,
          valueAt_of_started hstarted hle]
      · simp [nextValue, hcut]
      · simp [invalidatedReads, hcut]

end Timeline

namespace SharedState

def rangeRead (s : SharedState) (range : Range) (direction : Direction) (hops time : Nat) :
    PointMap × SharedState :=
  let points := s.stateVariableMap.toList.filterMap fun sv =>
    ((pointAt sv.2 time).filter range.isValueOverlapping).map fun point => (sv.1, point)
  (.ofList points, points.foldl (fun s entry => s.updateAccessCount entry.1 direction hops) s)

theorem getElem?_rangeRead (s : SharedState) (range : Range) (direction : Direction)
    (hops time : Nat) (id : SsvId) :
    (s.rangeRead range direction hops time).1[id]? =
      s.stateVariableMap[id]?.bind fun sv =>
        (pointAt sv time).filter range.isValueOverlapping := by
  let found := s.stateVariableMap.filterMap fun _ sv =>
    (pointAt sv time).filter range.isValueOverlapping
  have hpoints : (s.rangeRead range direction hops time).1 = .ofList found.toList := by
    simp only [found, Std.TreeMap.toList_filterMap]
    rfl
  have hfound : found[id]? = s.stateVariableMap[id]?.bind fun sv =>
      (pointAt sv time).filter range.isValueOverlapping :=
    Std.TreeMap.getElem?_filterMap'
  rw [hpoints, ← hfound]
  cases hid : found[id]? with
  | some point =>
      have hmem : (id, point) ∈ found.toList := Std.TreeMap.mem_toList_iff_getElem?_eq_some.mpr hid
      exact Std.TreeMap.getElem?_ofList_of_mem Std.ReflCmp.compare_self
        Std.TreeMap.distinct_keys_toList hmem
  | none =>
      apply Std.TreeMap.getElem?_ofList_of_contains_eq_false
      rw [Std.TreeMap.map_fst_toList_eq_keys]
      simpa [← Std.TreeMap.isSome_getElem?_eq_contains] using hid

/-- A range read leaves everything but the access counts alone. -/
theorem rangeRead_frame (s : SharedState) (range : Range) (direction : Direction)
    (hops time : Nat) :
    (s.rangeRead range direction hops time).2.stateVariableMap = s.stateVariableMap ∧
      (s.rangeRead range direction hops time).2.rangeRoutingTable = s.rangeRoutingTable := by
  simp only [rangeRead]
  generalize List.filterMap _ _ = points
  induction points generalizing s with
  | nil => exact ⟨rfl, rfl⟩
  | cons entry points ih => exact ih (s.updateAccessCount entry.1 direction hops)

theorem pointAt_entries (sv : StateVariable AbstractValue) (time : Nat) :
    pointAt sv time = (Timeline.valueAt time sv.entries).bind AbstractValue.point? := by
  rw [pointAt, StateVariable.readWithoutRecord_entries]

end SharedState
end PdesMas
