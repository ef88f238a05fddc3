import Mathlib.Data.List.Basic

/-!
A multimap: entries in the order of their keys, and those of equivalent keys in
the order in which they came. Whatever orders the keys partly keeps the entries
sorted. Where it ranks them, so that keys which it does not order are as good as
equal, an entry finds the same place among all entries and among some of them.
-/

universe u v

namespace MultiMap

variable {κ : Type u} {β : Type v} {lt : κ → κ → Bool} {k : κ} {v : β}
  {e : κ × β} {m : List (κ × β)}

/-- The entry goes before the first one with a key behind its own. -/
def insert (lt : κ → κ → Bool) (k : κ) (v : β) : List (κ × β) → List (κ × β)
  | [] => [(k, v)]
  | e :: m => if lt k e.1 then (k, v) :: e :: m else e :: insert lt k v m

@[simp] theorem insert_nil (lt : κ → κ → Bool) (k : κ) (v : β) : insert lt k v [] = [(k, v)] := rfl

theorem insert_perm (lt : κ → κ → Bool) (k : κ) (v : β) (m : List (κ × β)) :
    (insert lt k v m).Perm ((k, v) :: m) := by
  induction m with
  | nil => exact .refl _
  | cons e m ih =>
      simp only [insert]
      split
      · exact .refl _
      · exact (ih.cons e).trans (.swap _ _ m)

@[simp] theorem mem_insert : e ∈ insert lt k v m ↔ e = (k, v) ∨ e ∈ m := by
  rw [(insert_perm lt k v m).mem_iff, List.mem_cons]

/-- No entry has a key before that of an earlier one. -/
def Sorted (lt : κ → κ → Bool) (m : List (κ × β)) : Prop :=
  m.Pairwise fun a b => lt b.1 a.1 = false

theorem Sorted.filter (h : Sorted lt m) (p : κ × β → Bool) : Sorted lt (m.filter p) :=
  List.Pairwise.filter p h

theorem Sorted.insert (hirrefl : ∀ a, lt a a = false)
    (htrans : ∀ a b c, lt a b = true → lt b c = true → lt a c = true)
    (h : Sorted lt m) (k : κ) (v : β) : Sorted lt (insert lt k v m) := by
  induction m with
  | nil => exact List.pairwise_singleton _ _
  | cons e m ih =>
      obtain ⟨he, hm⟩ := List.pairwise_cons.mp h
      simp only [MultiMap.insert]
      split
      · rename_i hbefore
        refine List.pairwise_cons.mpr ⟨fun x hx => ?_, h⟩
        -- a key before `k` would be before that of `e`
        by_contra hnot
        have hxe := htrans x.1 k e.1 (by simpa using hnot) hbefore
        rcases List.mem_cons.mp hx with rfl | hx
        · rw [hirrefl] at hxe
          cases hxe
        · rw [he x hx] at hxe
          cases hxe
      · rename_i hnot
        refine List.pairwise_cons.mpr ⟨fun x hx => ?_, ih hm⟩
        rcases mem_insert.mp hx with rfl | hx
        · simpa using hnot
        · exact he x hx

/-- Where a key in `A` is before another, any third is behind the one or before the other. -/
def Ranked (lt : κ → κ → Bool) (A : κ → Prop) : Prop :=
  ∀ a b c, A a → A b → A c → lt a c = true → lt a b = true ∨ lt b c = true

theorem insert_of_before (h : ∀ e ∈ m, lt k e.1 = true) : insert lt k v m = (k, v) :: m := by
  cases m with
  | nil => rfl
  | cons e m => simp [insert, h e List.mem_cons_self]

theorem insert_of_not_before (h : ∀ e ∈ m, lt k e.1 = false) : insert lt k v m = m ++ [(k, v)] := by
  induction m with
  | nil => rfl
  | cons e m ih =>
      rw [insert, h e List.mem_cons_self, ih fun x hx => h x (List.mem_cons_of_mem e hx)]
      rfl

/-- What is inserted in its own order stays in it. -/
theorem Sorted.foldl_insert {m' : List (κ × β)} (h : Sorted lt (m ++ m')) :
    m'.foldl (fun m e => MultiMap.insert lt e.1 e.2 m) m = m ++ m' := by
  induction m' generalizing m with
  | nil => simp
  | cons e m' ih =>
      rw [List.append_cons] at h
      have hbehind : ∀ x ∈ m, lt e.1 x.1 = false := by
        intro x hx
        have hfirst := (List.pairwise_append.mp h).1
        exact (List.pairwise_append.mp hfirst).2.2 x hx e List.mem_cons_self
      rw [List.foldl_cons, insert_of_not_before hbehind, ih h, ← List.append_cons]

/-- An entry finds its place among those that a filter leaves. -/
theorem filter_insert {A : κ → Prop} (hranked : Ranked lt A) (hk : A k) (hm : ∀ e ∈ m, A e.1)
    (h : Sorted lt m) {p : κ × β → Bool} (hp : p (k, v) = true) :
    (insert lt k v m).filter p = insert lt k v (m.filter p) := by
  induction m with
  | nil => simp [insert, hp]
  | cons e m ih =>
      obtain ⟨he, hsorted⟩ := List.pairwise_cons.mp h
      have hmem := hm e List.mem_cons_self
      by_cases hbefore : lt k e.1 = true
      · -- then all that is left is behind `k`
        have hall : ∀ x ∈ e :: m, lt k x.1 = true := by
          refine List.forall_mem_cons.mpr ⟨hbefore, fun x hx => ?_⟩
          have hxA := hm x (List.mem_cons_of_mem e hx)
          refine (hranked k x.1 e.1 hk hxA hmem hbefore).resolve_right ?_
          rw [he x hx]
          exact Bool.false_ne_true
        rw [insert_of_before hall, List.filter_cons_of_pos hp, insert_of_before]
        exact fun x hx => hall x (List.mem_filter.mp hx).1
      · have htail := ih (fun x hx => hm x (List.mem_cons_of_mem e hx)) hsorted
        simp only [insert, hbefore, Bool.false_eq_true, ite_false, List.filter_cons]
        split
        · simp [insert, hbefore, htail]
        · exact htail

end MultiMap
