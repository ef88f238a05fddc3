import PdesMas.Library.ResetCounter
import PdesMas.Lp.Message

/-!
The identifiers that the handlers of the ALPs give out. Every handler keeps to the
residue class of its first identifier, also where it ticks over, and goes through
the whole class before it repeats one.
-/

namespace PdesMas

namespace IdentifierHandler

variable {rank numberOfClps numberOfAlps : Nat}

/-- The identifier that the call after `k` earlier ones returns. -/
def identifier (h : IdentifierHandler) (k : Nat) : Nat := (getNextID^[k + 1] h).lastID

theorem getNextID_lastID {h : IdentifierHandler} (hadditional : h.additional ≤ ULONG_MAX) :
    h.getNextID.lastID =
      ResetCounter.next h.initialID h.additional ULONG_MAX h.lastID := by
  have hiff : h.exhausted ↔ ¬ h.lastID + h.additional ≤ ULONG_MAX := by
    rw [exhausted]
    omega
  rw [getNextID, ResetCounter.next]
  by_cases hfits : h.lastID + h.additional ≤ ULONG_MAX
  · rw [if_neg fun hex => hiff.mp hex hfits, if_pos hfits]
  · rw [if_pos (hiff.mpr hfits), if_neg hfits]

theorem iterate_getNextID (hadditional : numberOfAlps ≤ ULONG_MAX) (k : Nat) :
    getNextID^[k] (create rank numberOfClps numberOfAlps) =
      ⟨rank - numberOfClps, numberOfAlps,
        (ResetCounter.next (rank - numberOfClps) numberOfAlps ULONG_MAX)^[k]
          (rank - numberOfClps)⟩ := by
  induction k with
  | zero => rfl
  | succ k ih =>
      rw [Function.iterate_succ_apply', Function.iterate_succ_apply', ih]
      have hlast := getNextID_lastID (h := ⟨rank - numberOfClps, numberOfAlps,
        (ResetCounter.next (rank - numberOfClps) numberOfAlps ULONG_MAX)^[k]
          (rank - numberOfClps)⟩) hadditional
      simp only at hlast
      rw [← hlast, getNextID]
      split <;> rfl

theorem identifier_create (hadditional : numberOfAlps ≤ ULONG_MAX) (k : Nat) :
    (create rank numberOfClps numberOfAlps).identifier k =
      (ResetCounter.next (rank - numberOfClps) numberOfAlps ULONG_MAX)^[k + 1]
        (rank - numberOfClps) := by
  rw [identifier, iterate_getNextID hadditional]

/-- The rank of an ALP among `numberOfAlps` behind the CLPs. -/
def IsAlp (numberOfClps numberOfAlps rank : Nat) : Prop :=
  numberOfClps ≤ rank ∧ rank < numberOfClps + numberOfAlps

instance (numberOfClps numberOfAlps rank : Nat) :
    Decidable (IsAlp numberOfClps numberOfAlps rank) := inferInstanceAs (Decidable (_ ∧ _))

theorem IsAlp.bounds (h : IsAlp numberOfClps numberOfAlps rank)
    (hadditional : numberOfAlps ≤ ULONG_MAX) :
    0 < numberOfAlps ∧ rank - numberOfClps < numberOfAlps ∧ rank - numberOfClps ≤ ULONG_MAX := by
  obtain ⟨hle, hlt⟩ := h
  omega

theorem identifier_mod (h : IsAlp numberOfClps numberOfAlps rank)
    (hadditional : numberOfAlps ≤ ULONG_MAX) (k : Nat) :
    (create rank numberOfClps numberOfAlps).identifier k % numberOfAlps = rank - numberOfClps := by
  obtain ⟨hpos, hlt, hle⟩ := h.bounds hadditional
  rw [identifier_create hadditional, ResetCounter.iterate_next_mod hpos hle, Nat.mod_eq_of_lt hlt]

/-- No two ALPs return one identifier, no addition passes `ULONG_MAX`, and between two calls
of one ALP that return the same identifier it returns every other one of its residue class. -/
theorem identifiers_unique (hadditional : numberOfAlps ≤ ULONG_MAX) :
    (∀ rank rank', IsAlp numberOfClps numberOfAlps rank → IsAlp numberOfClps numberOfAlps rank' →
      rank ≠ rank' → ∀ i j, (create rank numberOfClps numberOfAlps).identifier i ≠
        (create rank' numberOfClps numberOfAlps).identifier j) ∧
    ∀ rank, IsAlp numberOfClps numberOfAlps rank →
      (∀ k, let h := getNextID^[k] (create rank numberOfClps numberOfAlps)
        ¬ h.exhausted → h.lastID + h.additional ≤ ULONG_MAX) ∧
      ∀ i j, i < j →
        (create rank numberOfClps numberOfAlps).identifier i =
          (create rank numberOfClps numberOfAlps).identifier j →
        ∀ v ≤ ULONG_MAX, v % numberOfAlps = rank - numberOfClps →
          ∃ k, i ≤ k ∧ k < j ∧ (create rank numberOfClps numberOfAlps).identifier k = v := by
  refine ⟨fun rank rank' hrank hrank' hne i j heq => ?_, fun rank hrank => ⟨fun k => ?_, ?_⟩⟩
  · have hsame := congrArg (· % numberOfAlps) heq
    simp only [identifier_mod hrank hadditional, identifier_mod hrank' hadditional] at hsame
    have hle := hrank.1
    have hle' := hrank'.1
    omega
  · intro h hfresh
    have hsame : h.additional = numberOfAlps := by
      rw [show h = _ from iterate_getNextID hadditional k]
    rw [exhausted] at hfresh
    omega
  · intro i j hij hagain v hv hmod
    obtain ⟨hpos, hlt, hle⟩ := hrank.bounds hadditional
    simp only [identifier_create hadditional] at hagain ⊢
    obtain ⟨k, hik, hkj, hk⟩ := ResetCounter.exists_visit_between hpos hle
      (Nat.succ_lt_succ hij) hagain hv hmod
    obtain ⟨k, rfl⟩ : ∃ k', k = k' + 1 := ⟨k - 1, by omega⟩
    exact ⟨k, by omega, by omega, hk⟩

theorem identifiers_unique_three : 3 ≤ ULONG_MAX ∧
    ∀ i j, (create 4 4 3).identifier i ≠ (create 6 4 3).identifier j := by
  have hthree : 3 ≤ ULONG_MAX := by decide
  exact ⟨hthree, (@identifiers_unique 4 3 hthree).1 4 6 (by decide) (by decide) (by decide)⟩

end IdentifierHandler
end PdesMas
