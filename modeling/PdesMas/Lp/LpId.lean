import Mathlib.Data.Nat.Basic

/-!
Agent identities and the rollback bookkeeping built on them. The order and
inequality operators of the source compare identifier and rank with a
conjunction in every case; they are kept apart from Lean's own relations, since
the source uses both.
-/

namespace PdesMas

/-- `unsigned long fIdentifier` and `unsigned int fRank`; no operation computes
with them, so both are plain numbers. -/
structure LpId where
  identifier : Nat
  rank : Nat
deriving DecidableEq, Repr

namespace LpId

/-- `operator !=`. It is not the negation of `operator ==`. -/
def ne (a b : LpId) : Bool :=
  a.identifier != b.identifier && a.rank != b.rank

/-- `operator >`. -/
def gt (a b : LpId) : Bool :=
  decide (a.identifier > b.identifier) && decide (a.rank > b.rank)

/-- `operator <`. -/
def lt (a b : LpId) : Bool :=
  decide (a.identifier < b.identifier) && decide (a.rank < b.rank)

theorem lt_irrefl (a : LpId) : lt a a = false := by simp [lt]

theorem lt_trans (a b c : LpId) (hab : lt a b = true) (hbc : lt b c = true) :
    lt a c = true := by
  simp only [lt, Bool.and_eq_true, decide_eq_true_eq] at *
  omega

theorem ne_self (a : LpId) : ne a a = false := by simp [ne]

theorem ne_of_ne_eq_true {a b : LpId} (h : ne a b = true) : a ≠ b := by
  rintro rfl
  simp [ne_self] at h

end LpId

abbrev SsvId := Nat

def ULONG_MAX : Nat := 18446744073709551615
def LONG_MAX : Nat := 9223372036854775807

/-- The write status a `WriteResponseMessage` carries. -/
inductive WriteStatus where
  | writeFAILURE
  | writeSUCCESS
deriving DecidableEq, Repr

/-- Identifies a rollback by its variable, virtual time, kind and the real time
at which the tag was made. -/
structure RollbackTag where
  originalSsv : SsvId
  time : Nat
  type : Int
  realTimeStamp : Nat
deriving DecidableEq, Repr

/-- The calls of `AddLp` a rollback list has received, in order. The
`std::map` of the source is a function of these calls. -/
structure RollbackList where
  calls : List (LpId × Nat)
deriving DecidableEq, Repr

namespace RollbackList

def empty : RollbackList := ⟨[]⟩

def addLp (list : RollbackList) (lp : LpId) (t : Nat) : RollbackList :=
  ⟨list.calls ++ [(lp, t)]⟩

/-- The calls made by a loop over `reads`. -/
def addLps (list : RollbackList) (reads : List (LpId × Nat)) : RollbackList :=
  reads.foldl (fun l r => l.addLp r.1 r.2) list

@[simp] theorem empty_calls : empty.calls = [] := rfl

@[simp] theorem addLp_calls (list : RollbackList) (lp : LpId) (t : Nat) :
    (list.addLp lp t).calls = list.calls ++ [(lp, t)] := rfl

@[simp] theorem addLps_calls (list : RollbackList) (reads : List (LpId × Nat)) :
    (list.addLps reads).calls = list.calls ++ reads := by
  induction reads generalizing list with
  | nil => simp [addLps]
  | cons r reads ih =>
      have h := ih (list.addLp r.1 r.2)
      simpa [addLps] using h

end RollbackList
end PdesMas
