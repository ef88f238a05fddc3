import Mathlib.Data.List.Basic
import Mathlib.Data.Multiset.AddSub

/-!
Lists taken apart at one element. A walk over a linked list that stops at the
first element with a property, or a reverse walk that stops at the last one,
leaves the list in three pieces; both searches are characterised by the pieces
they return, so that callers never look at how the walk was carried out.
-/

universe u v

structure Cut (α : Type u) where
  front : List α
  focus : α
  back : List α
deriving DecidableEq, Repr

namespace Cut

variable {α : Type u} {β : Type v} {p : α → Bool} {l : List α} {c : Cut α}

def toList (c : Cut α) : List α :=
  c.front ++ c.focus :: c.back

def map (f : α → β) (c : Cut α) : Cut β :=
  ⟨c.front.map f, f c.focus, c.back.map f⟩

/-- The walk from the front, stopped at the first element that satisfies `p`. -/
def first? (p : α → Bool) : List α → Option (Cut α)
  | [] => none
  | x :: xs =>
      if p x then some ⟨[], x, xs⟩
      else (first? p xs).map fun c => ⟨x :: c.front, c.focus, c.back⟩

/-- The walk from the back, stopped at the last element that satisfies `p`. -/
def last? (p : α → Bool) : List α → Option (Cut α)
  | [] => none
  | x :: xs =>
      match last? p xs with
      | some c => some ⟨x :: c.front, c.focus, c.back⟩
      | none => if p x then some ⟨[], x, xs⟩ else none

theorem first?_eq_none : first? p l = none ↔ ∀ x ∈ l, p x = false := by
  induction l with
  | nil => simp [first?]
  | cons x xs ih =>
      cases hx : p x <;> simp [first?, hx, ih]

theorem first?_eq_some :
    first? p l = some c ↔
      c.toList = l ∧ p c.focus = true ∧ ∀ x ∈ c.front, p x = false := by
  induction l generalizing c with
  | nil => simp [first?, toList]
  | cons x xs ih =>
      obtain ⟨front, focus, back⟩ := c
      cases hx : p x with
      | true =>
          simp only [first?, hx, ite_true, Option.some.injEq, Cut.mk.injEq, toList]
          constructor
          · rintro ⟨rfl, rfl, rfl⟩
            simp [hx]
          · rintro ⟨hl, _, hf⟩
            cases front with
            | nil => simpa [eq_comm] using hl
            | cons y ys =>
                obtain ⟨rfl, _⟩ : y = x ∧ ys ++ focus :: back = xs := by simpa using hl
                simp [hx] at hf
      | false =>
          simp only [first?, hx, Bool.false_eq_true, ite_false, Option.map_eq_some_iff]
          constructor
          · rintro ⟨d, hd, heq⟩
            obtain ⟨hl, hp, hf⟩ := ih.mp hd
            obtain ⟨rfl, rfl, rfl⟩ : x :: d.front = front ∧ d.focus = focus ∧
              d.back = back := by simpa using heq
            exact ⟨by simp [toList, ← hl], hp, by simpa [hx] using hf⟩
          · rintro ⟨hl, hp, hf⟩
            cases front with
            | nil =>
                obtain ⟨rfl, _⟩ : focus = x ∧ back = xs := by simpa [toList] using hl
                simp [hx] at hp
            | cons y ys =>
                obtain ⟨rfl, hxs⟩ : y = x ∧ ys ++ focus :: back = xs := by
                  simpa [toList] using hl
                refine ⟨⟨ys, focus, back⟩, ih.mpr ⟨hxs, hp, ?_⟩, rfl⟩
                exact fun z hz => hf z (List.mem_cons_of_mem _ hz)

theorem last?_eq_none : last? p l = none ↔ ∀ x ∈ l, p x = false := by
  induction l with
  | nil => simp [last?]
  | cons x xs ih =>
      cases h : last? p xs with
      | some c =>
          have hne : ¬ ∀ y ∈ xs, p y = false := by simp [← ih, h]
          simp only [last?, h, List.forall_mem_cons, reduceCtorEq, false_iff]
          exact fun hall => hne hall.2
      | none =>
          have hxs := ih.mp h
          cases hx : p x with
          | true => simp [last?, h, hx]
          | false => simpa [last?, h, hx] using hxs

theorem last?_eq_some :
    last? p l = some c ↔
      c.toList = l ∧ p c.focus = true ∧ ∀ x ∈ c.back, p x = false := by
  induction l generalizing c with
  | nil => simp [last?, toList]
  | cons x xs ih =>
      obtain ⟨front, focus, back⟩ := c
      cases h : last? p xs with
      | some d =>
          obtain ⟨hd, hp, hb⟩ := ih.mp h
          simp only [last?, h, Option.some.injEq, Cut.mk.injEq]
          constructor
          · rintro ⟨rfl, rfl, rfl⟩
            exact ⟨by simp [toList, ← hd], hp, hb⟩
          · rintro ⟨hl, hp', hb'⟩
            cases front with
            | nil =>
                obtain ⟨rfl, rfl⟩ : focus = x ∧ back = xs := by simpa [toList] using hl
                have hmem : d.focus ∈ back := by simp [← hd, toList]
                simp [hb' _ hmem] at hp
            | cons y ys =>
                obtain ⟨rfl, hxs⟩ : y = x ∧ ys ++ focus :: back = xs := by
                  simpa [toList] using hl
                have heq : last? p xs = some ⟨ys, focus, back⟩ := ih.mpr ⟨hxs, hp', hb'⟩
                rw [h, Option.some.injEq] at heq
                simp [heq]
      | none =>
          have hxs := last?_eq_none.mp h
          cases hx : p x with
          | true =>
              simp only [last?, h, hx, ite_true, Option.some.injEq, Cut.mk.injEq, toList]
              constructor
              · rintro ⟨rfl, rfl, rfl⟩
                exact ⟨rfl, hx, hxs⟩
              · rintro ⟨hl, hp, hb⟩
                cases front with
                | nil => simpa [eq_comm] using hl
                | cons y ys =>
                    obtain ⟨rfl, rfl⟩ : y = x ∧ ys ++ focus :: back = xs := by simpa using hl
                    simp [hxs focus (by simp)] at hp
          | false =>
              simp only [last?, h, hx, Bool.false_eq_true, ite_false, reduceCtorEq, false_iff]
              rintro ⟨hl, hp, _⟩
              have hmem : focus ∈ x :: xs := by simp [← hl, toList]
              rcases List.mem_cons.mp hmem with rfl | hmem
              · simp [hx] at hp
              · simp [hxs _ hmem] at hp

theorem first?_append_right (front back : List α) (hf : ∀ y ∈ front, p y = false) :
    first? p (front ++ back) =
      (first? p back).map fun c => ⟨front ++ c.front, c.focus, c.back⟩ := by
  induction front with
  | nil => simp
  | cons x xs ih =>
      obtain ⟨hx, hxs⟩ := List.forall_mem_cons.mp hf
      simp [first?, hx, ih hxs, Function.comp_def]

theorem last?_append (front back : List α) (x : α) (hx : p x = true)
    (hb : ∀ y ∈ back, p y = false) :
    last? p (front ++ x :: back) = some ⟨front, x, back⟩ :=
  last?_eq_some.mpr ⟨rfl, hx, hb⟩

/-- A reverse walk that stops inside the back of a list never sees its front. -/
theorem last?_append_right (front back : List α) (h : last? p back = some c) :
    last? p (front ++ back) = some ⟨front ++ c.front, c.focus, c.back⟩ := by
  obtain ⟨rfl, hp, hb⟩ := last?_eq_some.mp h
  exact last?_eq_some.mpr ⟨by simp [toList], hp, hb⟩

theorem last?_append_left (front back : List α) (hb : ∀ y ∈ back, p y = false)
    (h : last? p front = some c) :
    last? p (front ++ back) = some ⟨c.front, c.focus, c.back ++ back⟩ := by
  obtain ⟨rfl, hp, hb'⟩ := last?_eq_some.mp h
  refine last?_eq_some.mpr ⟨by simp [toList], hp, ?_⟩
  intro y hy
  rcases List.mem_append.mp hy with hy | hy
  · exact hb' y hy
  · exact hb y hy

theorem first?_map (f : α → β) (q : β → Bool) (l : List α) :
    first? q (l.map f) = (first? (fun x => q (f x)) l).map (Cut.map f) := by
  induction l with
  | nil => rfl
  | cons x xs ih =>
      cases hx : q (f x) <;> simp [first?, hx, ih, Cut.map, Function.comp_def]

theorem last?_map (f : α → β) (q : β → Bool) (l : List α) :
    last? q (l.map f) = (last? (fun x => q (f x)) l).map (Cut.map f) := by
  induction l with
  | nil => rfl
  | cons x xs ih =>
      simp only [List.map_cons, last?, ih]
      cases last? (fun x => q (f x)) xs with
      | some c => rfl
      | none =>
          by_cases hx : q (f x) = true
          · simp [hx, Cut.map]
          · simp [hx]

/-- The element that the reverse walk stops at. -/
theorem last?_map_focus : (last? p l).map focus = l.reverse.find? p := by
  induction l with
  | nil => rfl
  | cons x xs ih =>
      rw [List.reverse_cons, List.find?_append, ← ih, last?, List.find?_singleton]
      cases last? p xs with
      | some c => rfl
      | none => by_cases hx : p x = true <;> simp [hx]

/-- Two cuts of one list are taken at the same place, or one lies in the back of
the other. -/
theorem compare {A B A' B' : List α} {x y : α} (h : A ++ x :: B = A' ++ y :: B') :
    (A = A' ∧ x = y ∧ B = B') ∨ (∃ m, A' = A ++ x :: m ∧ B = m ++ y :: B') ∨
      ∃ m, A = A' ++ y :: m ∧ B' = m ++ x :: B := by
  rcases List.append_eq_append_iff.mp h with ⟨m, hA, hB⟩ | ⟨m, hA, hB⟩
  · cases m with
    | nil =>
        obtain ⟨rfl, rfl⟩ : x = y ∧ B = B' := by simpa using hB
        exact .inl ⟨by simp [hA], rfl, rfl⟩
    | cons z m =>
        obtain ⟨rfl, rfl⟩ : x = z ∧ B = m ++ y :: B' := by simpa using hB
        exact .inr (.inl ⟨m, hA, rfl⟩)
  · cases m with
    | nil =>
        obtain ⟨rfl, rfl⟩ : y = x ∧ B' = B := by simpa using hB
        exact .inl ⟨by simp [hA], rfl, rfl⟩
    | cons z m =>
        obtain ⟨rfl, rfl⟩ : y = z ∧ B' = m ++ x :: B := by simpa using hB
        exact .inr (.inr ⟨m, hA, rfl⟩)

/-- Two elements without which one list is the same are the same. -/
theorem eq_of_removed {A B A' B' : List α} {x y : α}
    (hlist : A ++ x :: B = A' ++ y :: B') (hrest : A ++ B = A' ++ B') : x = y := by
  have hmultiset : x ::ₘ ((A ++ B : List α) : Multiset α) = y ::ₘ ((A' ++ B' : List α)) := by
    rw [Multiset.cons_coe, Multiset.cons_coe, Multiset.coe_eq_coe]
    have hx : (x :: (A ++ B)).Perm (A ++ x :: B) := List.perm_middle.symm
    have hy : (y :: (A' ++ B')).Perm (A' ++ y :: B') := List.perm_middle.symm
    exact hx.trans (hlist ▸ hy.symm)
  rw [hrest] at hmultiset
  exact (Multiset.cons_inj_left _).mp hmultiset

theorem pairwise_iff {R : α → α → Prop} {A B : List α} {x : α} :
    (A ++ x :: B).Pairwise R ↔
      A.Pairwise R ∧ B.Pairwise R ∧ (∀ b ∈ B, R x b) ∧ (∀ a ∈ A, R a x) ∧
        ∀ a ∈ A, ∀ b ∈ B, R a b := by
  simp only [List.pairwise_append, List.pairwise_cons, List.forall_mem_cons]
  grind

/-- In an ordered list a walk from the front finds all that the order lets it find. -/
theorem mem_takeWhile {R : α → α → Prop} (h : l.Pairwise R)
    (hp : ∀ x y, R x y → p y = true → p x = true) {x : α} :
    x ∈ l.takeWhile p ↔ x ∈ l ∧ p x = true := by
  induction l with
  | nil => simp
  | cons a rest ih =>
      obtain ⟨ha, hrest⟩ := List.pairwise_cons.mp h
      by_cases hpa : p a = true
      · rw [List.takeWhile_cons_of_pos hpa, List.mem_cons, List.mem_cons, ih hrest]
        constructor
        · intro hx
          cases hx with
          | inl hx => exact ⟨.inl hx, hx ▸ hpa⟩
          | inr hx => exact ⟨.inr hx.1, hx.2⟩
        · exact fun hx => hx.1.imp_right fun hmem => ⟨hmem, hx.2⟩
      · rw [List.takeWhile_cons_of_neg hpa]
        constructor
        · nofun
        · intro hx
          cases List.mem_cons.mp hx.1 with
          | inl heq => exact absurd (heq ▸ hx.2) hpa
          | inr hmem => exact absurd (hp a x (ha x hmem) hx.2) hpa

/-- A walk stops where the elements with the property end. -/
theorem takeWhile_append {A B : List α} (hA : ∀ x ∈ A, p x = true)
    (hB : ∀ x ∈ B, p x = false) : (A ++ B).takeWhile p = A := by
  rw [List.takeWhile_append_of_pos hA]
  cases B with
  | nil => simp
  | cons x B => simp [hB x (by simp)]

theorem dropWhile_append {A B : List α} (hA : ∀ x ∈ A, p x = true)
    (hB : ∀ x ∈ B, p x = false) : (A ++ B).dropWhile p = B := by
  rw [List.dropWhile_append_of_pos hA]
  cases B with
  | nil => rfl
  | cons x B => simp [hB x (by simp)]

/-- A walk that stops at `x` at the latest keeps `x` and what is behind it. -/
theorem exists_dropWhile {A B : List α} {x : α} (hx : p x = false) :
    ∃ front, (A ++ x :: B).dropWhile p = front ++ x :: B ∧ front.Sublist A := by
  induction A with
  | nil => exact ⟨[], List.dropWhile_cons_of_neg (by simp [hx]), .refl _⟩
  | cons y A ih =>
      by_cases hy : p y = true
      · obtain ⟨front, hfront, hsub⟩ := ih
        refine ⟨front, ?_, hsub.cons y⟩
        rw [List.cons_append, List.dropWhile_cons_of_pos hy, hfront]
      · exact ⟨y :: A, List.dropWhile_cons_of_neg hy, .refl _⟩

theorem focus_mem (h : c.toList = l) : c.focus ∈ l := by
  simp [← h, toList]

end Cut
