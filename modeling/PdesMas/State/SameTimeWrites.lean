import PdesMas.State.Ordered

/-!
Two writes at one virtual time. Whichever is accepted first, the other is then
judged against it by the tie-break, which has nothing to say about two agents of
one ALP: of those, the one that comes last is read.
-/

namespace PdesMas
universe u
variable {V : Type u}

namespace LpId

theorem gt_trans {a b c : LpId} (hab : a.gt b = true) (hbc : b.gt c = true) :
    a.gt c = true := by
  simp only [gt, Bool.and_eq_true, decide_eq_true_eq] at *
  omega

theorem gt_asymm {a b : LpId} (hab : a.gt b = true) : b.gt a = false := by
  simp only [gt, Bool.and_eq_true, decide_eq_true_eq, Bool.and_eq_false_iff,
    decide_eq_false_iff_not] at *
  omega

end LpId

namespace Timeline

/-- A read looks at the back of the list first. -/
theorem valueAt_or (s : Nat) (A B : List (Entry V)) :
    valueAt s (A ++ B) = (valueAt s B).or (valueAt s A) := by
  cases hB : Cut.last? (Entry.reaches s) B with
  | some c => simp [valueAt, Cut.last?_append_right A B hB, hB]
  | none =>
      have hnone := Cut.last?_eq_none.mp hB
      cases hA : Cut.last? (Entry.reaches s) A with
      | some c => simp [valueAt, Cut.last?_append_left A B hnone hA, hA, hB]
      | none =>
          have hall : Cut.last? (Entry.reaches s) (A ++ B) = none := by
            apply Cut.last?_eq_none.mpr
            intro x hx
            cases List.mem_append.mp hx with
            | inl hx => exact Cut.last?_eq_none.mp hA x hx
            | inr hx => exact hnone x hx
          simp [valueAt, hall, hA, hB]

theorem valueAt_singleton (s : Nat) (e : Entry V) :
    valueAt s [e] = if e.start ≤ s then some e.value else none := by
  by_cases he : e.start ≤ s
  · simp [valueAt, Cut.last?, he]
  · simp [valueAt, Cut.last?, he]

theorem valueAt_of_later {s : Nat} {l : List (Entry V)} (h : Later s l) : valueAt s l = none := by
  rw [valueAt, last?_reaches_eq_none.mpr h]
  rfl

/-- The list after a write. -/
def written (l : List (Entry V)) (agent : LpId) (value : V) (time : Nat) : List (Entry V) :=
  if l = [] then [.fresh agent value time]
  else
    match Cut.last? (Entry.reaches time) l with
    | none => l
    | some c =>
        if c.focus.start = time ∧ c.focus.agent.gt agent = true then l
        else c.front ++ c.focus.keepBefore time :: .fresh agent value time :: c.back

/-- No write of `agent` at `time` is accepted: every period is later, or the tie-break is
for the owner of the period at `time`. -/
def Refuses (time : Nat) (agent : LpId) (l : List (Entry V)) : Prop :=
  l ≠ [] ∧
    match Cut.last? (Entry.reaches time) l with
    | none => True
    | some c => c.focus.start = time ∧ c.focus.agent.gt agent = true

/-- What stays before, and what behind, a period that begins at `time`. -/
def before (time : Nat) (l : List (Entry V)) : List (Entry V) :=
  match Cut.last? (Entry.reaches time) l with
  | none => []
  | some c => c.front ++ [c.focus.keepBefore time]

def behind (time : Nat) (l : List (Entry V)) : List (Entry V) :=
  match Cut.last? (Entry.reaches time) l with
  | none => []
  | some c => c.back

theorem later_behind (time : Nat) (l : List (Entry V)) : Later time (behind time l) := by
  simp only [behind]
  split
  · exact later_nil time
  · rename_i c hc
    exact (last?_reaches_eq_some.mp hc).2.2

variable {l : List (Entry V)} {agent other : LpId} {value v : V} {time : Nat}

/-- With an agent, every agent that the tie-break puts below it is refused. -/
theorem Refuses.of_gt (h : Refuses time agent l) (hgt : agent.gt other = true) :
    Refuses time other l := by
  obtain ⟨hne, hrefuses⟩ := h
  refine ⟨hne, ?_⟩
  cases hc : Cut.last? (Entry.reaches time) l with
  | none => trivial
  | some c =>
      rw [hc] at hrefuses
      exact ⟨hrefuses.1, LpId.gt_trans hrefuses.2 hgt⟩

theorem written_of_refuses (h : Refuses time agent l) : written l agent value time = l := by
  obtain ⟨hne, hrefuses⟩ := h
  rw [written, if_neg hne]
  split
  · rfl
  · rename_i c hc
    rw [hc] at hrefuses
    exact if_pos hrefuses

theorem written_of_accepts (h : ¬ Refuses time agent l) :
    written l agent value time = before time l ++ .fresh agent value time :: behind time l := by
  by_cases hnil : l = []
  · simp [written, before, behind, Cut.last?, hnil]
  · rw [written, if_neg hnil, before, behind]
    cases hc : Cut.last? (Entry.reaches time) l with
    | none =>
        rw [Refuses, hc] at h
        exact absurd ⟨hnil, trivial⟩ h
    | some c =>
        have htie : ¬ (c.focus.start = time ∧ c.focus.agent.gt agent = true) := by
          intro htie
          rw [Refuses, hc] at h
          exact h ⟨hnil, htie⟩
        simp only [htie, if_false]
        simp

/-- The period of an accepted write is what the next write at its time is judged against. -/
theorem refuses_append_fresh (F B : List (Entry V)) (hB : Later time B) :
    Refuses time other (F ++ .fresh agent value time :: B) ↔ agent.gt other = true := by
  have hc := last?_reaches F B (.fresh agent value time) (Nat.le_refl time) hB
  rw [Refuses, hc]
  simp [Entry.fresh]

/-- A read of a list in which the period of one write at `time` is the last of its time. -/
theorem valueAt_settled (F B : List (Entry V)) (s : Nat) :
    valueAt s (F ++ .fresh agent value time :: B) =
      (valueAt s B).or (if time ≤ s then some value else valueAt s F) := by
  have hsplit : F ++ Entry.fresh agent value time :: B =
      F ++ ([Entry.fresh agent value time] ++ B) := rfl
  rw [hsplit, valueAt_or, valueAt_or, valueAt_singleton, Option.or_assoc]
  by_cases hs : time ≤ s
  · simp [Entry.fresh, hs]
  · simp [Entry.fresh, hs]

/-- The two writes leave the value of the first if the tie-break is for it, else that of the
second. -/
theorem valueAt_second (F B : List (Entry V)) (hB : Later time B) (s : Nat) :
    valueAt s (written (F ++ .fresh agent value time :: B) other v time) =
      (valueAt s B).or
        (if time ≤ s then some (if agent.gt other = true then value else v) else valueAt s F) := by
  by_cases htie : agent.gt other = true
  · rw [written_of_refuses ((refuses_append_fresh F B hB).mpr htie), valueAt_settled,
      if_pos htie]
  · have haccepts : ¬ Refuses time other (F ++ .fresh agent value time :: B) :=
      mt (refuses_append_fresh F B hB).mp htie
    have hc := last?_reaches F B (.fresh agent value time) (Nat.le_refl time) hB
    rw [written_of_accepts haccepts, valueAt_settled, before, behind, hc, if_neg htie]
    by_cases hs : time ≤ s
    · simp [hs]
    · simp [hs, valueAt_or, valueAt_singleton, Entry.keepBefore, Entry.fresh]

/-- Two lists that differ in the value at `time` only are read alike if that is the same. -/
private theorem agree_iff (F B : List (Entry V)) (hB : Later time B) (x y : V) :
    (∀ s, (valueAt s B).or (if time ≤ s then some x else valueAt s F) =
      (valueAt s B).or (if time ≤ s then some y else valueAt s F)) ↔ x = y := by
  constructor
  · intro h
    have hself := h time
    rw [valueAt_of_later hB] at hself
    simpa using hself
  · intro h s
    rw [h]

/-- Both orders are read alike exactly if the values are the same, or the tie-break is for
one of the agents, or neither write is accepted. -/
theorem written_comm_iff (l : List (Entry V)) (a b : LpId) (va vb : V) (time : Nat) :
    (∀ s, valueAt s (written (written l a va time) b vb time) =
        valueAt s (written (written l b vb time) a va time)) ↔
      va = vb ∨ a.gt b = true ∨ b.gt a = true ∨ (Refuses time a l ∧ Refuses time b l) := by
  have hB := later_behind time l
  by_cases ha : Refuses time a l
  · by_cases hb : Refuses time b l
    · simp [written_of_refuses, ha, hb]
    · have hab : a.gt b = false := Bool.eq_false_iff.mpr fun hgt => hb (ha.of_gt hgt)
      simp only [written_of_refuses ha, written_of_accepts hb, valueAt_settled,
        valueAt_second _ _ hB, agree_iff _ _ hB, hab, hb, and_false, or_false,
        Bool.false_eq_true, false_or]
      by_cases hba : b.gt a = true
      · simp [hba]
      · simp [hba, eq_comm]
  · simp only [written_of_accepts ha, valueAt_second _ _ hB]
    by_cases hb : Refuses time b l
    · have hba : b.gt a = false := Bool.eq_false_iff.mpr fun hgt => ha (hb.of_gt hgt)
      simp only [written_of_refuses hb, written_of_accepts ha, valueAt_settled, agree_iff _ _ hB,
        hba, ha, false_and, or_false, Bool.false_eq_true]
      by_cases hab : a.gt b = true
      · simp [hab]
      · simp [hab, eq_comm]
    · simp only [written_of_accepts hb, valueAt_second _ _ hB, agree_iff _ _ hB, ha, false_and,
        or_false]
      by_cases hab : a.gt b = true
      · simp [hab, LpId.gt_asymm hab]
      · by_cases hba : b.gt a = true
        · simp [hab, hba]
        · simp [hab, hba, eq_comm]

end Timeline

namespace StateVariable

/-- The variable after a write, as the handler of a `WriteMessage` leaves it. -/
def write (sv : StateVariable V) (agent : LpId) (value : V) (time : Nat) : StateVariable V :=
  (sv.writeWithRollback agent value time .empty).1

theorem write_entries (sv : StateVariable V) (agent : LpId) (value : V) (time : Nat) :
    (sv.write agent value time).entries = Timeline.written sv.entries agent value time := by
  have hstep := exec_entries sv (.writeWithRollback agent value time)
  simp only [exec, Option.map_some, Timeline.step, Option.some.injEq] at hstep
  refine (congrArg Prod.fst hstep).trans ?_
  rw [Timeline.written]
  split
  · rfl
  · cases Cut.last? (Entry.reaches time) sv.entries with
    | none => rfl
    | some c =>
        simp only
        split
        · rfl
        · rfl

/-- Two writes at one time are read alike in both orders exactly if their values are the
same, the tie-break is for one of the two agents, or the variable refuses both. -/
theorem writes_commute_iff (sv : StateVariable V) (a b : LpId) (va vb : V) (time : Nat) :
    (∀ s, (((sv.write a va time).write b vb time).readWithoutRecord s).2 =
        (((sv.write b vb time).write a va time).readWithoutRecord s).2) ↔
      va = vb ∨ a.gt b = true ∨ b.gt a = true ∨
        (Timeline.Refuses time a sv.entries ∧ Timeline.Refuses time b sv.entries) := by
  simp only [readWithoutRecord_entries, write_entries]
  exact Timeline.written_comm_iff sv.entries a b va vb time

/-- Two agents of one ALP write at one time, and the last to come is read. -/
theorem last_of_one_alp_read :
    let sv : StateVariable Nat := (create 7).addWritePeriod 0 0 ⟨0, 0⟩
    sv.Reachable ∧ (⟨1, 5⟩ : LpId) ≠ ⟨2, 5⟩ ∧
      ¬ ∀ s, (((sv.write ⟨1, 5⟩ 10 3).write ⟨2, 5⟩ 20 3).readWithoutRecord s).2 =
        (((sv.write ⟨2, 5⟩ 20 3).write ⟨1, 5⟩ 10 3).readWithoutRecord s).2 := by
  refine ⟨.addWritePeriod 0 0 ⟨0, 0⟩ (.create 7) rfl, by decide, ?_⟩
  intro h
  exact absurd (h 3) (by decide)

end StateVariable
end PdesMas
