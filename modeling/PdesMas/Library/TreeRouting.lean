import Mathlib.Logic.Function.Basic

/-!
Routing on a tree: for each vertex and each target the neighbour on the way.
Two consequences are used. An object that moves along edges is found by pointers
of which a move changes only those of its two ends; and what lies behind a
directed edge can leave only over that edge.
-/

universe u

/-- A tree, given by its edges and by the first step from a vertex to another. -/
structure TreeRouting (α : Type u) where
  adj : α → α → Prop
  nextHop : α → α → α
  adj_ne : ∀ {a b}, adj a b → a ≠ b
  adj_symm : ∀ {a b}, adj a b → adj b a
  adj_nextHop : ∀ {a b}, a ≠ b → adj a (nextHop a b)
  nextHop_of_adj : ∀ {a b}, adj a b → nextHop a b = b
  /-- From elsewhere the two ends of an edge lie the same way. -/
  nextHop_congr : ∀ {a b c}, adj a b → c ≠ a → c ≠ b → nextHop c a = nextHop c b
  /-- An edge separates: a third vertex is behind one end or behind the other. -/
  separates : ∀ {a b x}, adj a b → x ≠ a → x ≠ b → (nextHop a x = b ↔ nextHop b x ≠ a)

namespace TreeRouting

variable {α : Type u} (T : TreeRouting α)

/-- Where the object is: at a vertex, or on its way over an edge. -/
inductive Place (α : Type u) where
  | rest (at_ : α)
  | move (source target : α)
deriving DecidableEq, Repr

/-- The vertex the object is at, or will be at next. -/
def Place.target : Place α → α
  | .rest h => h
  | .move _ v => v

section Pointer

variable [DecidableEq α]

/-- The pointer of a vertex: to itself if the object is there, else towards it. The
target of a move still points back to where the object comes from. -/
def pointer : Place α → α → α
  | .rest h, c => if c = h then h else T.nextHop c h
  | .move u v, c => if c = v then u else T.nextHop c v

theorem pointer_depart {u v : α} (h : T.adj u v) :
    T.pointer (.move u v) = Function.update (T.pointer (.rest u)) u v := by
  funext c
  by_cases hu : c = u
  · subst hu
    by_cases hv : c = v
    · simp [pointer, hv]
    · simp [pointer, hv, T.nextHop_of_adj h]
  · rw [Function.update_of_ne hu]
    by_cases hv : c = v
    · subst hv
      simp [pointer, hu, T.nextHop_of_adj (T.adj_symm h)]
    · simp [pointer, hu, hv, T.nextHop_congr h hu hv]

theorem pointer_arrive {u v : α} :
    T.pointer (.rest v) = Function.update (T.pointer (.move u v)) v v := by
  funext c
  by_cases hv : c = v
  · simp [pointer, hv]
  · simp [pointer, hv]

/-- A pointer leads over an edge, unless the object is here. -/
theorem adj_pointer {p : Place α} {c : α} (hp : ∀ u v, p = .move u v → T.adj u v)
    (h : p ≠ .rest c) : T.adj c (T.pointer p c) := by
  cases p with
  | rest a =>
      have hne : c ≠ a := by
        rintro rfl
        exact h rfl
      simpa [pointer, hne] using T.adj_nextHop hne
  | move u v =>
      by_cases hv : c = v
      · subst hv
        simpa [pointer] using T.adj_symm (hp u c rfl)
      · simpa [pointer, hv] using T.adj_nextHop hv

end Pointer

/-- `x` lies behind the edge from `c` to `d`. -/
def Behind (c d x : α) : Prop := x ≠ d ∧ T.nextHop d x = c

theorem behind_source {c d : α} (h : T.adj c d) : T.Behind c d c :=
  ⟨T.adj_ne h, T.nextHop_of_adj (T.adj_symm h)⟩

/-- From behind an edge the only way out is the edge itself. -/
theorem Behind.step {T : TreeRouting α} {c d x y : α} (h : T.Behind c d x)
    (hxy : T.adj x y) : T.Behind c d y ∨ x = c ∧ y = d := by
  obtain ⟨hx, hc⟩ := h
  by_cases hy : y = d
  · subst hy
    right
    exact ⟨(T.nextHop_of_adj (T.adj_symm hxy)).symm.trans hc, rfl⟩
  · left
    exact ⟨hy, (T.nextHop_congr hxy (Ne.symm hx) (Ne.symm hy)).symm.trans hc⟩

/-- What is behind an edge is behind the next edge on any way that does not turn back. -/
theorem Behind.extend {T : TreeRouting α} {c d g x : α} (h : T.Behind c d x)
    (hdg : T.adj d g) (hg : g ≠ c) : T.Behind d g x := by
  obtain ⟨hx, hc⟩ := h
  have hxg : x ≠ g := by
    rintro rfl
    exact hg ((T.nextHop_of_adj hdg).symm.trans hc)
  refine ⟨hxg, ?_⟩
  by_contra hne
  exact hg (((T.separates hdg hx hxg).mpr hne).symm.trans hc)

/-- A step towards the target leaves the target in front. -/
theorem not_behind_nextHop {d h : α} (hne : d ≠ h) : ¬ T.Behind d (T.nextHop d h) h := by
  rintro ⟨hg, hback⟩
  exact (T.separates (T.adj_nextHop hne) (Ne.symm hne) hg).mp rfl hback

/-- A target that is not behind the edge lies ahead of its end. -/
theorem nextHop_ne_of_not_behind {c d h : α} (hfront : ¬ T.Behind c d h) (hne : d ≠ h) :
    T.nextHop d h ≠ c :=
  fun heq => hfront ⟨Ne.symm hne, heq⟩

end TreeRouting
