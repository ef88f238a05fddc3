import PdesMas.State.Effect

/-!
A read stays valid or is announced. The period that covers a read keeps its
record until the read is withdrawn, collected or reported to a rollback list;
the invariant names that period by what lies behind it, so that splits, removals
and collections before it leave it alone.
-/

namespace PdesMas
namespace Timeline
universe u
variable {V : Type u}

/-- The period that covers `r` holds `v` and the record of a read by `agent` at `r`. -/
def Recorded (agent : LpId) (r : Nat) (v : V) (l : List (Entry V)) : Prop :=
  ∃ A e B, l = A ++ e :: B ∧ e.start ≤ r ∧ Later r B ∧ e.value = v ∧ (agent, r) ∈ e.reads

/-- The operation neither withdraws the read of `agent` at `r` nor collects past `r`. -/
def KeepsRead (agent : LpId) (r : Nat) : Operation V → Prop
  | .performReadRollback a t => ¬ (a = agent ∧ t = r)
  | .removeWritePeriods g => g ≤ r
  | _ => True

theorem recorded_valueAt {agent : LpId} {r : Nat} {v : V} {l : List (Entry V)}
    (h : Recorded agent r v l) : valueAt r l = some v := by
  obtain ⟨A, e, B, rfl, he, hB, rfl, _⟩ := h
  exact valueAt_append A B e he hB

/-- Whatever replaces the periods before the covering one, the read stays recorded. -/
private theorem recorded_after {agent : LpId} {r : Nat} {v : V} {B : List (Entry V)}
    {e : Entry V} (A' : List (Entry V)) (he : e.start ≤ r) (hB : Later r B)
    (hv : e.value = v) (hr : (agent, r) ∈ e.reads) : Recorded agent r v (A' ++ e :: B) :=
  ⟨A', e, B, rfl, he, hB, hv, hr⟩

/-- Changing the reads of one period, other than the read at `r`, is harmless. -/
private theorem recorded_update {agent : LpId} {r : Nat} {v : V} {A B : List (Entry V)}
    {e e' : Entry V} (h : Recorded agent r v (A ++ e :: B)) (hs : e'.start = e.start)
    (hv : e'.value = e.value) (hr : (agent, r) ∈ e.reads → (agent, r) ∈ e'.reads) :
    Recorded agent r v (A ++ e' :: B) := by
  obtain ⟨A', d, B', hl, hd, hB', hdv, hdr⟩ := h
  rcases Cut.compare hl with ⟨rfl, rfl, rfl⟩ | ⟨m, rfl, rfl⟩ | ⟨m, rfl, rfl⟩
  · exact recorded_after _ (by omega) hB' (by rw [hv, hdv]) (hr hdr)
  · simpa using recorded_after (A ++ e' :: m) hd hB' hdv hdr
  · have hback : Later r (m ++ e' :: B) := by simpa [hs] using hB'
    simpa using recorded_after A' hd hback hdv hdr

theorem recorded_step {agent : LpId} {r : Nat} {v : V} {l l' : List (Entry V)}
    {op : Operation V} {o : Outcome V} (h : Effect l op l' o)
    (hrec : Recorded agent r v l) (hop : KeepsRead agent r op) :
    Recorded agent r v l' ∨ ∃ t, t ≤ r ∧ (agent, t) ∈ o.calls := by
  cases h with
  | read a time he hB =>
      refine .inl (recorded_update hrec rfl rfl ?_)
      intro hr
      simp [Entry.record, hr]
  | writeFirst a value time =>
      obtain ⟨A, e, B, hl, _⟩ := hrec
      simp at hl
  | writeTooEarly | writeRejected | writeRollbackMissing | writeRollbackForeign
    | collectNothing => exact .inl hrec
  | @writeAccepted A B e a value time he hB hok =>
      obtain ⟨A', d, B', hl, hd, hB', hv, hr⟩ := hrec
      rcases Cut.compare hl with ⟨rfl, rfl, rfl⟩ | ⟨m, rfl, rfl⟩ | ⟨m, rfl, rfl⟩
      · by_cases ht : time ≤ r
        · exact .inr ⟨r, le_refl r, by simp [Entry.invalidated, hr, ht]⟩
        · left
          have hback : Later r (.fresh a value time :: B) := by
            simpa [Entry.fresh, hB'] using ht
          refine recorded_after A hd hback hv ?_
          simp only [Entry.keepBefore, List.mem_filter, hr, true_and, decide_eq_true_eq]
          omega
      · left
        simpa using recorded_after (A ++ e.keepBefore time :: .fresh a value time :: m)
          hd hB' hv hr
      · left
        obtain ⟨hm, hre, hB⟩ : Later r m ∧ r < e.start ∧ Later r B := by simpa using hB'
        have hback : Later r (m ++ e.keepBefore time :: .fresh a value time :: B) := by
          simpa [Entry.keepBefore, Entry.fresh, hm, hre, hB] using Nat.lt_of_lt_of_le hre he
        simpa using recorded_after A' hd hback hv hr
  | readRollback a time he hB =>
      refine .inl (recorded_update hrec rfl rfl ?_)
      intro hr
      simp only [Entry.withdraw, List.mem_filter, hr, true_and, decide_eq_true_eq]
      rintro ⟨rfl, rfl⟩
      exact hop ⟨rfl, rfl⟩
  | @writeRollback A B e a time he hA hown =>
      obtain ⟨A', d, B', hl, hd, hB', hv, hr⟩ := hrec
      rcases Cut.compare hl with ⟨rfl, rfl, rfl⟩ | ⟨m, rfl, rfl⟩ | ⟨m, rfl, rfl⟩
      · right
        refine ⟨time, by omega, ?_⟩
        simp only [Outcome.ofRollback_calls, List.mem_map]
        exact ⟨(agent, r), hr, rfl⟩
      · left
        simpa using recorded_after (A ++ m) hd hB' hv hr
      · left
        obtain ⟨hm, _, hB⟩ : Later r m ∧ r < e.start ∧ Later r B := by simpa using hB'
        have hback : Later r (m ++ B) := by simp [hm, hB]
        simpa using recorded_after A' hd hback hv hr
  | @collect A B e time he hB =>
      have hg : time ≤ r := hop
      obtain ⟨A', d, B', hl, hd, hB', hv, hr⟩ := hrec
      left
      rcases Cut.compare hl with ⟨rfl, rfl, rfl⟩ | ⟨m, rfl, rfl⟩ | ⟨m, rfl, rfl⟩
      · refine recorded_after _ hg hB' hv ?_
        simp only [Entry.restamp, List.mem_filter, hr, true_and, decide_eq_true_eq]
        omega
      · simpa using recorded_after
          ((A.dropWhile fun x => x.start != time) ++ e.restamp time :: m) hd hB' hv hr
      · obtain ⟨_, hre, _⟩ : Later r m ∧ r < e.start ∧ Later r B := by simpa using hB'
        omega

theorem recorded_run {agent : LpId} {r : Nat} {v : V} (ops : List (Operation V))
    (sv sv' : StateVariable V) (outs : List (Outcome V))
    (hrun : (StateVariable.machine V).run sv ops = some (sv', outs))
    (hrec : Recorded agent r v sv.entries) (hops : ∀ op ∈ ops, KeepsRead agent r op) :
    Recorded agent r v sv'.entries ∨ ∃ o ∈ outs, ∃ t, t ≤ r ∧ (agent, t) ∈ o.calls := by
  induction ops generalizing sv outs with
  | nil =>
      obtain ⟨rfl, rfl⟩ : sv = sv' ∧ [] = outs := by simpa using hrun
      exact .inl hrec
  | cons op ops ih =>
      obtain ⟨sv₁, o, os, hs, hr, rfl⟩ := Machine.run_cons_iff _ |>.mp hrun
      rcases recorded_step (effect_of_exec hs) hrec (hops op (by simp)) with h | h
      · rcases ih sv₁ os hr h (fun op hop => hops op (by simp [hop])) with h | ⟨o', ho, h⟩
        · exact .inl h
        · exact .inr ⟨o', by simp [ho], h⟩
      · exact .inr ⟨o, by simp, h⟩

theorem recorded_of_read {sv sv' : StateVariable V} {agent : LpId} {r : Nat} {o : Outcome V}
    {v : V} (h : sv.exec (.read agent r) = some (sv', o)) (hv : o.value = some v) :
    Recorded agent r v sv'.entries := by
  have heff := effect_of_exec h
  generalize sv.entries = l at heff
  generalize sv'.entries = l' at heff ⊢
  cases heff with
  | @read A _ e _ _ he hB =>
      have hvalue : e.value = v := by simpa using hv
      exact recorded_after A he hB hvalue (by simp [Entry.record])

end Timeline

namespace StateVariable
open Timeline

variable {V : Type u}

/-- A read returns the value it returned before until the variable reports it to
a rollback list, at or before the time of the read. -/
theorem read_valid_or_reported (sv sv' : StateVariable V)
    (earlier later : List (Operation V)) (agent : LpId) (r : Nat) (v : V)
    (outs : List (Outcome V))
    (hrun : (machine V).run sv (earlier ++ .read agent r :: later) = some (sv', outs))
    (hread : outs[earlier.length]?.bind Outcome.value = some v)
    (hgvt : ∀ g, .removeWritePeriods g ∈ later → g ≤ r)
    (hkept : .performReadRollback agent r ∉ later) :
    (sv'.readWithoutRecord r).2 = some v ∨
      ∃ o ∈ outs.drop (earlier.length + 1), ∃ t, t ≤ r ∧ (agent, t) ∈ o.calls := by
  obtain ⟨sv₁, os₁, os, h₁, h, rfl⟩ := (machine V).run_append_iff.mp hrun
  obtain ⟨sv₂, o, os₂, hs, h₂, rfl⟩ := (machine V).run_cons_iff.mp h
  have hlen := (machine V).run_length h₁
  have hv : o.value = some v := by simpa [← hlen] using hread
  have hops : ∀ op ∈ later, KeepsRead agent r op := by
    intro op hop
    cases op with
    | performReadRollback a t =>
        rintro ⟨rfl, rfl⟩
        exact hkept hop
    | removeWritePeriods g => exact hgvt g hop
    | read | writeWithRollback | performWriteRollback => trivial
  have hrest : (os₁ ++ o :: os₂).drop (earlier.length + 1) = os₂ := by
    rw [← hlen]
    simp
  rw [hrest]
  rcases recorded_run later sv₂ sv' os₂ h₂ (recorded_of_read hs hv) hops with h | h
  · left
    rw [readWithoutRecord_entries]
    exact recorded_valueAt h
  · exact .inr h

theorem read_reported_by_split :
    ∃ (sv' : StateVariable Nat) (outs : List (Outcome Nat)),
      (machine Nat).run ((create 1).addWritePeriod 10 0 ⟨1, 1⟩)
        ([] ++ .read ⟨2, 2⟩ 5 :: [.writeWithRollback ⟨3, 3⟩ 20 4]) = some (sv', outs) ∧
      ((sv'.readWithoutRecord 5).2 = some 10 ∨
        ∃ o ∈ outs.drop (0 + 1), ∃ t, t ≤ 5 ∧ ((⟨2, 2⟩ : LpId), t) ∈ o.calls) :=
  ⟨_, _, rfl, read_valid_or_reported ((create 1).addWritePeriod 10 0 ⟨1, 1⟩) _ []
    [.writeWithRollback ⟨3, 3⟩ 20 4] ⟨2, 2⟩ 5 10 _ rfl rfl (by simp) (by simp)⟩

end StateVariable
end PdesMas
