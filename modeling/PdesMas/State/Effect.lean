import PdesMas.State.Operation

/-!
What one operation can do to the entries of a state variable: one constructor
for each way through the source. Invariants of a variable are proved by cases on
this relation and never look at the walks again.
-/

namespace PdesMas.Timeline
universe u
variable {V : Type u}

/-- No period of the list has started at `time`. -/
def Later (time : Nat) (l : List (Entry V)) : Prop := ∀ x ∈ l, time < x.start

def NoneAt (time : Nat) (l : List (Entry V)) : Prop := ∀ x ∈ l, x.start ≠ time

@[simp] theorem later_nil (time : Nat) : Later time ([] : List (Entry V)) := by
  simp [Later]

@[simp] theorem later_cons (time : Nat) (e : Entry V) (l : List (Entry V)) :
    Later time (e :: l) ↔ time < e.start ∧ Later time l := List.forall_mem_cons

@[simp] theorem later_append (time : Nat) (A B : List (Entry V)) :
    Later time (A ++ B) ↔ Later time A ∧ Later time B := List.forall_mem_append

@[simp] theorem noneAt_nil (time : Nat) : NoneAt time ([] : List (Entry V)) := by
  simp [NoneAt]

@[simp] theorem noneAt_cons (time : Nat) (e : Entry V) (l : List (Entry V)) :
    NoneAt time (e :: l) ↔ e.start ≠ time ∧ NoneAt time l := List.forall_mem_cons

@[simp] theorem noneAt_append (time : Nat) (A B : List (Entry V)) :
    NoneAt time (A ++ B) ↔ NoneAt time A ∧ NoneAt time B := List.forall_mem_append

inductive Effect : List (Entry V) → Operation V → List (Entry V) → Outcome V → Prop
  | read {A B e} (agent time) (he : e.start ≤ time) (hB : Later time B) :
      Effect (A ++ e :: B) (.read agent time) (A ++ e.record agent time :: B)
        (.ofRead e.value)
  | writeFirst (agent value time) :
      Effect [] (.writeWithRollback agent value time) [.fresh agent value time]
        (.ofWrite .writeSUCCESS [])
  | writeTooEarly {l} (agent value time) (hne : l ≠ []) (hl : Later time l) :
      Effect l (.writeWithRollback agent value time) l (.ofWrite .writeFAILURE [])
  | writeRejected {A B e} (agent value time) (he : e.start = time)
      (hgt : e.agent.gt agent = true) (hB : Later time B) :
      Effect (A ++ e :: B) (.writeWithRollback agent value time) (A ++ e :: B)
        (.ofWrite .writeFAILURE [])
  | writeAccepted {A B e} (agent value time) (he : e.start ≤ time) (hB : Later time B)
      (hok : ¬ (e.start = time ∧ e.agent.gt agent = true)) :
      Effect (A ++ e :: B) (.writeWithRollback agent value time)
        (A ++ e.keepBefore time :: .fresh agent value time :: B)
        (.ofWrite .writeSUCCESS (e.invalidated time))
  | readRollback {A B e} (agent time) (he : e.start ≤ time) (hB : Later time B) :
      Effect (A ++ e :: B) (.performReadRollback agent time)
        (A ++ e.withdraw agent time :: B) .silent
  | writeRollbackMissing {l} (agent time) (hl : NoneAt time l) :
      Effect l (.performWriteRollback agent time) l (.ofRollback [])
  | writeRollbackForeign {A B e} (agent time) (he : e.start = time) (hA : NoneAt time A)
      (hne : e.agent.ne agent = true) :
      Effect (A ++ e :: B) (.performWriteRollback agent time) (A ++ e :: B) (.ofRollback [])
  | writeRollback {A B e} (agent time) (he : e.start = time) (hA : NoneAt time A)
      (hown : e.agent.ne agent = false) :
      Effect (A ++ e :: B) (.performWriteRollback agent time) (A ++ B)
        (.ofRollback (e.reads.map fun r => (r.1, time)))
  | collectNothing {l} (time) (hl : Later time l) :
      Effect l (.removeWritePeriods time) l .silent
  | collect {A B e} (time) (he : e.start ≤ time) (hB : Later time B) :
      Effect (A ++ e :: B) (.removeWritePeriods time)
        ((A.dropWhile fun x => x.start != time) ++ e.restamp time :: B) .silent

theorem last?_reaches_eq_none {time : Nat} {l : List (Entry V)} :
    Cut.last? (Entry.reaches time) l = none ↔ Later time l := by
  simp [Cut.last?_eq_none, Later]

theorem last?_reaches_eq_some {time : Nat} {l : List (Entry V)} {c : Cut (Entry V)} :
    Cut.last? (Entry.reaches time) l = some c ↔
      c.front ++ c.focus :: c.back = l ∧ c.focus.start ≤ time ∧ Later time c.back := by
  simp [Cut.last?_eq_some, Cut.toList, Later]

theorem last?_reaches {time : Nat} (A B : List (Entry V)) (e : Entry V)
    (he : e.start ≤ time) (hB : Later time B) :
    Cut.last? (Entry.reaches time) (A ++ e :: B) = some ⟨A, e, B⟩ :=
  last?_reaches_eq_some.mpr ⟨rfl, he, hB⟩

theorem first?_startsAt_eq_none {time : Nat} {l : List (Entry V)} :
    Cut.first? (Entry.startsAt time) l = none ↔ NoneAt time l := by
  simp [Cut.first?_eq_none, NoneAt]

theorem first?_startsAt_eq_some {time : Nat} {l : List (Entry V)} {c : Cut (Entry V)} :
    Cut.first? (Entry.startsAt time) l = some c ↔
      c.front ++ c.focus :: c.back = l ∧ c.focus.start = time ∧ NoneAt time c.front := by
  simp [Cut.first?_eq_some, Cut.toList, NoneAt]

theorem valueAt_append {time : Nat} (A B : List (Entry V)) (e : Entry V)
    (he : e.start ≤ time) (hB : Later time B) :
    valueAt time (A ++ e :: B) = some e.value := by
  simp [valueAt, last?_reaches A B e he hB]

private theorem effect_of_write {l l' : List (Entry V)} {agent : LpId} {value : V}
    {time : Nat} {o : Outcome V}
    (h : step l (.writeWithRollback agent value time) = some (l', o)) :
    Effect l (.writeWithRollback agent value time) l' o := by
  simp only [step, Option.some.injEq] at h
  split at h
  · rename_i hnil
    cases h
    subst hnil
    exact .writeFirst agent value time
  · rename_i hne
    split at h
    · rename_i hnone
      cases h
      exact .writeTooEarly agent value time hne (last?_reaches_eq_none.mp hnone)
    · rename_i c hc
      obtain ⟨rfl, he, hB⟩ := last?_reaches_eq_some.mp hc
      split at h
      · rename_i htie
        cases h
        exact .writeRejected agent value time htie.1 htie.2 hB
      · rename_i hok
        cases h
        exact .writeAccepted agent value time he hB hok

private theorem effect_of_writeRollback {l l' : List (Entry V)} {agent : LpId} {time : Nat}
    {o : Outcome V} (h : step l (.performWriteRollback agent time) = some (l', o)) :
    Effect l (.performWriteRollback agent time) l' o := by
  simp only [step, Option.some.injEq] at h
  split at h
  · rename_i hnone
    cases h
    exact .writeRollbackMissing agent time (first?_startsAt_eq_none.mp hnone)
  · rename_i c hc
    obtain ⟨rfl, he, hA⟩ := first?_startsAt_eq_some.mp hc
    split at h
    · rename_i hne
      cases h
      exact .writeRollbackForeign agent time he hA hne
    · rename_i hown
      cases h
      exact .writeRollback agent time he hA (by simpa using hown)

theorem effect_of_step {l l' : List (Entry V)} {op : Operation V} {o : Outcome V}
    (h : step l op = some (l', o)) : Effect l op l' o := by
  cases op with
  | read agent time =>
      obtain ⟨c, hc, heq⟩ := Option.map_eq_some_iff.mp h
      obtain ⟨rfl, he, hB⟩ := last?_reaches_eq_some.mp hc
      cases heq
      exact .read agent time he hB
  | writeWithRollback agent value time => exact effect_of_write h
  | performReadRollback agent time =>
      obtain ⟨c, hc, heq⟩ := Option.map_eq_some_iff.mp h
      obtain ⟨rfl, he, hB⟩ := last?_reaches_eq_some.mp hc
      cases heq
      exact .readRollback agent time he hB
  | performWriteRollback agent time => exact effect_of_writeRollback h
  | removeWritePeriods time =>
      simp only [step, Option.some.injEq] at h
      split at h
      · rename_i hnone
        cases h
        exact .collectNothing time (last?_reaches_eq_none.mp hnone)
      · rename_i c hc
        obtain ⟨rfl, he, hB⟩ := last?_reaches_eq_some.mp hc
        cases h
        exact .collect time he hB

theorem effect_of_exec {sv sv' : StateVariable V} {op : Operation V} {o : Outcome V}
    (h : sv.exec op = some (sv', o)) : Effect sv.entries op sv'.entries o :=
  effect_of_step (StateVariable.step_of_exec h)

end PdesMas.Timeline
