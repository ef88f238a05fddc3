import PdesMas.State.Ordered

/-!
Whose write a rollback takes back. It takes the first period at its time if
`operator !=` does not tell the owner from the agent, and that tells two agents
apart only if they differ in identifier and in rank.
-/

namespace PdesMas
universe u
variable {V : Type u}

namespace StateVariable

variable {sv : StateVariable V} {agent : LpId} {time : Nat} {list : RollbackList}

/-- The first period that starts at `time`. -/
def firstAt (sv : StateVariable V) (time : Nat) : Option (Cut (Entry V)) :=
  Cut.first? (Entry.startsAt time) sv.entries

theorem firstAt_eq (sv : StateVariable V) (time : Nat) :
    sv.firstAt time =
      (Cut.first? (fun p => decide (p.startTime = time)) sv.writePeriodList).map
        (Cut.map WritePeriod.entry) :=
  Cut.first?_map WritePeriod.entry (Entry.startsAt time) sv.writePeriodList

/-- The rollback list has no part in what becomes of the periods. -/
theorem performWriteRollback_fst (sv : StateVariable V) (agent : LpId) (time : Nat)
    (list : RollbackList) :
    (sv.performWriteRollback agent time list).1 =
      (sv.performWriteRollback agent time .empty).1 := by
  simp only [performWriteRollback]
  cases Cut.first? (fun p => decide (p.startTime = time)) sv.writePeriodList with
  | none => rfl
  | some c =>
      simp only
      split
      · rfl
      · split
        · rfl
        · split
          · rfl
          · split
            · rfl
            · rfl

theorem performWriteRollback_missing (h : sv.firstAt time = none) :
    sv.performWriteRollback agent time list = (sv, list) := by
  rw [firstAt_eq, Option.map_eq_none_iff] at h
  rw [performWriteRollback, h]

theorem performWriteRollback_foreign {c : Cut (Entry V)} (h : sv.firstAt time = some c)
    (hne : c.focus.agent.ne agent = true) :
    sv.performWriteRollback agent time list = (sv, list) := by
  rw [firstAt_eq] at h
  obtain ⟨d, hd, rfl⟩ := Option.map_eq_some_iff.mp h
  rw [performWriteRollback, hd]
  exact if_pos hne

theorem performWriteRollback_removes {c : Cut (Entry V)} (h : sv.firstAt time = some c)
    (hown : c.focus.agent.ne agent = false) :
    (sv.performWriteRollback agent time list).1.entries = c.front ++ c.back := by
  have hstep := exec_entries sv (.performWriteRollback agent time)
  simp only [exec, Option.map_some, Timeline.step, Option.some.injEq] at hstep
  rw [performWriteRollback_fst]
  refine (congrArg Prod.fst hstep).trans ?_
  rw [firstAt] at h
  simp only [h, hown, Bool.false_eq_true, if_false]

/-- A period of `agent` at `time` is taken away, and the others stay. -/
def RemovesOwn (sv sv' : StateVariable V) (agent : LpId) (time : Nat) : Prop :=
  ∃ A e B, sv.entries = A ++ e :: B ∧ sv'.entries = A ++ B ∧ e.start = time ∧ e.agent = agent

/-- The rollback is the agent's own, or nothing happens. -/
def RollsBackOwn (sv : StateVariable V) (agent : LpId) (time : Nat) (list : RollbackList) : Prop :=
  let r := sv.performWriteRollback agent time list
  RemovesOwn sv r.1 agent time ∨ r.1.writePeriodList = sv.writePeriodList ∧ r.2 = list

/-- The first period at `time`, if there is one, is the agent's or of an agent that
`operator !=` tells from it. -/
def ToldApart (sv : StateVariable V) (agent : LpId) (time : Nat) : Prop :=
  ∀ c, sv.firstAt time = some c → c.focus.agent = agent ∨ c.focus.agent.ne agent = true

theorem rollsBackOwn_iff (sv : StateVariable V) (agent : LpId) (time : Nat)
    (list : RollbackList) : sv.RollsBackOwn agent time list ↔ sv.ToldApart agent time := by
  constructor
  · intro h c hc
    cases hne : c.focus.agent.ne agent with
    | true => exact .inr rfl
    | false =>
        left
        have hremoved : (sv.performWriteRollback agent time list).1.entries =
            c.front ++ c.back := performWriteRollback_removes hc hne
        have hl : c.front ++ c.focus :: c.back = sv.entries :=
          (Timeline.first?_startsAt_eq_some.mp hc).1
        cases h with
        | inl hown =>
            obtain ⟨A, e, B, hentries, hrest, _, hagent⟩ := hown
            have heq : c.focus = e :=
              Cut.eq_of_removed (hl.trans hentries) (hremoved.symm.trans hrest)
            rw [heq, hagent]
        | inr hsame =>
            have hentries := congrArg (List.map WritePeriod.entry) hsame.1
            change (sv.performWriteRollback agent time list).1.entries = sv.entries at hentries
            rw [hremoved, ← hl] at hentries
            have hlength := congrArg List.length hentries
            simp at hlength
  · intro h
    cases hc : sv.firstAt time with
    | none =>
        have hmissing : sv.performWriteRollback agent time list = (sv, list) :=
          performWriteRollback_missing hc
        right
        rw [hmissing]
        exact ⟨rfl, rfl⟩
    | some c =>
        cases hne : c.focus.agent.ne agent with
        | true =>
            have hforeign : sv.performWriteRollback agent time list = (sv, list) :=
              performWriteRollback_foreign hc hne
            right
            rw [hforeign]
            exact ⟨rfl, rfl⟩
        | false =>
            have hagent : c.focus.agent = agent := by
              cases h c hc with
              | inl hagent => exact hagent
              | inr htold =>
                  rw [hne] at htold
                  cases htold
            obtain ⟨hl, hstart, _⟩ := Timeline.first?_startsAt_eq_some.mp hc
            exact .inl ⟨_, _, _, hl.symm, performWriteRollback_removes hc hne, hstart, hagent⟩

/-- The variable after a write of the agent 1 of the ALP 5 at time 3. -/
def writtenByFirst : StateVariable Nat :=
  (((create 7).addWritePeriod 0 0 ⟨0, 0⟩).writeWithRollback ⟨1, 5⟩ 10 3 .empty).1

/-- The agent 2 of the same ALP takes that write back. -/
theorem other_agent_rolls_back : writtenByFirst.Reachable ∧
    ¬ writtenByFirst.RollsBackOwn ⟨2, 5⟩ 3 .empty := by
  constructor
  · obtain ⟨o, hexec⟩ : ∃ o, ((create 7).addWritePeriod 0 0 ⟨0, 0⟩).exec
        (.writeWithRollback ⟨1, 5⟩ 10 3) = some (writtenByFirst, o) := ⟨_, rfl⟩
    exact .exec (.addWritePeriod 0 0 ⟨0, 0⟩ (.create 7) rfl) hexec
  · intro h
    cases h with
    | inl hown =>
        obtain ⟨A, e, B, hentries, _, hstart, hagent⟩ := hown
        have hmem : e ∈ writtenByFirst.entries := by simp [hentries]
        have hforeign : ∀ x ∈ writtenByFirst.entries, x.agent ≠ ⟨2, 5⟩ := by decide
        exact hforeign e hmem hagent
    | inr hsame => exact absurd hsame.1 (by decide)

end StateVariable
end PdesMas
