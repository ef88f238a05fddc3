import Mathlib.Combinatorics.SimpleGraph.Metric
import PdesMas.Library.HeapTree

/-!
The walks that the routing of a tree takes. Along an edge of the tree the length
of the route to a target changes by one, so that no walk to the target is
shorter than the route, and the route passes no vertex twice. The routing of a
part of the tree that routes do not leave, and that of a tree with leaves hung
on it, are routings of trees again.
-/

universe u v

namespace TreeRouting

variable {α : Type u} {β : Type v} {T : TreeRouting α} {a b c : α} {l l' : List α}

/-- The tree as a graph. -/
def graph (T : TreeRouting α) : SimpleGraph α where
  Adj := T.adj
  symm := ⟨fun _ _ h => T.adj_symm h⟩
  loopless := ⟨fun _ h => T.adj_ne h rfl⟩

/-- The vertices from one to the target `b`, each the next hop of the one before it. -/
inductive Route (T : TreeRouting α) (b : α) : α → List α → Prop
  | here : Route T b b [b]
  | step {a : α} {l : List α} (hne : a ≠ b) (h : Route T b (T.nextHop a b) l) : Route T b a (a :: l)

theorem Route.unique (h : T.Route b a l) (h' : T.Route b a l') : l = l' := by
  induction h generalizing l' with
  | here =>
      cases h' with
      | here => rfl
      | step hne => exact absurd rfl hne
  | step hne _ ih =>
      cases h' with
      | here => exact absurd rfl hne
      | step _ h' => rw [ih h']

/-- From a neighbour the route is one step longer, or one step shorter. -/
theorem Route.of_adj (h : T.Route b a l) (hadj : T.adj a c) :
    ∃ l', T.Route b c l' ∧ (l' = c :: l ∨ l = a :: l') := by
  by_cases hc : c = b
  · subst hc
    refine ⟨[c], .here, .inr ?_⟩
    cases h with
    | here => exact absurd rfl (T.adj_ne hadj)
    | step _ h =>
        rw [T.nextHop_of_adj hadj] at h
        rw [h.unique .here]
  · by_cases ha : a = b
    · subst ha
      have hback : T.nextHop c a = a := T.nextHop_of_adj (T.adj_symm hadj)
      exact ⟨c :: l, .step hc (hback.symm ▸ h), .inl rfl⟩
    · by_cases hnext : T.nextHop a b = c
      · cases h with
        | here => exact absurd rfl ha
        | step _ h => exact ⟨_, hnext ▸ h, .inr rfl⟩
      · have hback : T.nextHop c b = a := by
          by_contra hne
          exact hnext ((T.separates hadj (Ne.symm ha) (Ne.symm hc)).mpr hne)
        exact ⟨c :: l, .step hc (hback.symm ▸ h), .inl rfl⟩

/-- No walk is shorter than the route. -/
theorem Route.length_le (h : T.Route b a l) (w : T.graph.Walk a b) : l.length ≤ w.length + 1 := by
  induction w generalizing l with
  | nil =>
      rw [h.unique .here]
      exact Nat.le_refl 1
  | cons hadj w ih =>
      obtain ⟨l', hl', hlength⟩ := h.of_adj hadj
      have hle := ih hl'
      rw [SimpleGraph.Walk.length_cons]
      cases hlength with
      | inl heq =>
          rw [heq, List.length_cons] at hle
          omega
      | inr heq =>
          rw [heq, List.length_cons]
          omega

theorem Route.exists_walk (h : T.Route b a l) : ∃ w : T.graph.Walk a b, w.support = l := by
  induction h with
  | here => exact ⟨.nil, rfl⟩
  | step hne _ ih =>
      obtain ⟨w, hw⟩ := ih
      have hadj : T.graph.Adj _ _ := T.adj_nextHop hne
      exact ⟨.cons hadj w, by rw [SimpleGraph.Walk.support_cons, hw]⟩

/-- The route is as long as the distance. -/
theorem Route.length_eq (h : T.Route b a l) : l.length = T.graph.dist a b + 1 := by
  obtain ⟨w, hw⟩ := h.exists_walk
  have hlength : l.length = w.length + 1 := by rw [← hw, SimpleGraph.Walk.length_support]
  obtain ⟨w', hw'⟩ := w.reachable.exists_walk_length_eq_dist
  have hshort := h.length_le w'
  have hdist := T.graph.dist_le w
  omega

theorem Route.nodup (h : T.Route b a l) : l.Nodup := by
  obtain ⟨w, hw⟩ := h.exists_walk
  have hlength := h.length_eq
  rw [← hw, SimpleGraph.Walk.length_support] at hlength
  rw [← hw]
  exact (w.isPath_of_length_eq_dist (by omega)).support_nodup

/-- The route is the only path. -/
theorem Route.support_eq (h : T.Route b a l) {w : T.graph.Walk a b} (hw : w.IsPath) :
    w.support = l := by
  induction w generalizing l with
  | nil => rw [h.unique .here, SimpleGraph.Walk.support_nil]
  | @cons a c b hadj w ih =>
      obtain ⟨hpath, hfresh⟩ := (SimpleGraph.Walk.cons_isPath_iff hadj w).mp hw
      obtain ⟨l', hl', hlength⟩ := h.of_adj hadj
      have hsupport := ih hl' hpath
      rw [SimpleGraph.Walk.support_cons, hsupport]
      cases hlength with
      | inr heq => exact heq.symm
      | inl heq =>
          -- the path would come back to where it began
          exfalso
          rw [hsupport, heq] at hfresh
          refine hfresh (List.mem_cons_of_mem c ?_)
          cases h with
          | here => exact List.mem_singleton_self _
          | step => exact List.mem_cons_self

theorem Route.head (h : T.Route b a l) : l.head? = some a := by
  cases h with
  | here => rfl
  | step => rfl

/-- From a vertex `a` other than `b`, an edge that is not the first of the route to `b` leads
one step further away from `b`. -/
theorem Route.dist_away (h : T.Route b a l) (hadj : T.adj a c) (ha : a ≠ b) (hc : c ≠ b)
    (haway : T.nextHop a b ≠ c) :
    T.graph.dist b c = T.graph.dist b a + 1 ∧ T.nextHop b c = T.nextHop b a ∧
      T.nextHop c b = a := by
  have hback : T.nextHop c b = a := by
    by_contra hne
    exact haway ((T.separates hadj (Ne.symm ha) (Ne.symm hc)).mpr hne)
  have hroute : T.Route b c (c :: l) := .step hc (hback.symm ▸ h)
  have hlength := h.length_eq
  have hlength' := hroute.length_eq
  rw [List.length_cons] at hlength'
  refine ⟨?_, (T.nextHop_congr hadj (Ne.symm ha) (Ne.symm hc)).symm, hback⟩
  rw [SimpleGraph.dist_comm, T.graph.dist_comm (u := b)]
  omega

section Summaries

variable {β : Type v} [Preorder β] {own : α → β} {told : α → α → β} {s : Set α} {x : α}

/-- Where each vertex is told by its neighbours of all that they hold and have been told by
others, it is told of all that is behind them. -/
theorem Route.own_le_told (hclosed : ∀ a ∈ s, ∀ b ∈ s, a ≠ b → T.nextHop a b ∈ s)
    (hown : ∀ a ∈ s, ∀ b ∈ s, T.adj a b → own a ≤ told b a)
    (htold : ∀ a ∈ s, ∀ b ∈ s, ∀ c ∈ s, T.adj a b → T.adj a c → c ≠ b → told a c ≤ told b a)
    (h : T.Route x a l) (hx : x ∈ s) (ha : a ∈ s) (hb : b ∈ s) (hadj : T.adj a b)
    (hbehind : T.Behind a b x) : own x ≤ told b a := by
  induction h generalizing b with
  | here => exact hown _ ha b hb hadj
  | @step a _ hne _ ih =>
      have hnext := hclosed a ha x hx hne
      have haway : T.nextHop a x ≠ b := fun heq =>
        (T.separates hadj (Ne.symm hne) hbehind.1).mp heq hbehind.2
      have hadj' := T.adj_nextHop hne
      exact (ih hnext ha (T.adj_symm hadj') ⟨Ne.symm hne, rfl⟩).trans
        (htold a ha b hb _ hnext hadj hadj' haway)

end Summaries

section Restrict

open Classical in
/-- A part of the tree that the routes between its vertices do not leave. -/
noncomputable def restrict (T : TreeRouting α) (s : Set α)
    (hclosed : ∀ a ∈ s, ∀ b ∈ s, a ≠ b → T.nextHop a b ∈ s) : TreeRouting s where
  adj a b := T.adj a b
  nextHop a b := if h : T.nextHop a b ∈ s then ⟨T.nextHop a b, h⟩ else a
  adj_ne h heq := T.adj_ne h (congrArg Subtype.val heq)
  adj_symm := T.adj_symm
  adj_nextHop {a b} hne := by
    have hval : a.val ≠ b.val := fun h => hne (Subtype.ext h)
    rw [dif_pos (hclosed a a.2 b b.2 hval)]
    exact T.adj_nextHop hval
  nextHop_of_adj {a b} h := by
    rw [dif_pos (hclosed a a.2 b b.2 (T.adj_ne h))]
    exact Subtype.ext (T.nextHop_of_adj h)
  nextHop_congr {a b c} h ha hb := by
    have ha' : c.val ≠ a.val := fun heq => ha (Subtype.ext heq)
    have hb' : c.val ≠ b.val := fun heq => hb (Subtype.ext heq)
    rw [dif_pos (hclosed c c.2 a a.2 ha'), dif_pos (hclosed c c.2 b b.2 hb')]
    exact Subtype.ext (T.nextHop_congr h ha' hb')
  separates {a b x} h ha hb := by
    have ha' : x.val ≠ a.val := fun heq => ha (Subtype.ext heq)
    have hb' : x.val ≠ b.val := fun heq => hb (Subtype.ext heq)
    rw [dif_pos (hclosed a a.2 x x.2 (Ne.symm ha')), dif_pos (hclosed b b.2 x x.2 (Ne.symm hb'))]
    simpa [Subtype.ext_iff] using T.separates h ha' hb'

variable {s : Set α} {hclosed : ∀ a ∈ s, ∀ b ∈ s, a ≠ b → T.nextHop a b ∈ s}

theorem restrict_nextHop {a b : s} (hne : a ≠ b) :
    ((T.restrict s hclosed).nextHop a b : α) = T.nextHop a b := by
  have hval : a.val ≠ b.val := fun h => hne (Subtype.ext h)
  simp only [restrict, dif_pos (hclosed a a.2 b b.2 hval)]

theorem Route.restrict {b : s} (h : T.Route b a l) (ha : a ∈ s) :
    ∃ l', (T.restrict s hclosed).Route b ⟨a, ha⟩ l' ∧ l'.map Subtype.val = l := by
  generalize hb : b.val = target at h
  induction h with
  | here =>
      obtain rfl : b = ⟨target, ha⟩ := Subtype.ext hb
      exact ⟨_, .here, rfl⟩
  | @step a l hne _ ih =>
      subst hb
      have hne' : (⟨a, ha⟩ : s) ≠ b := fun h => hne (congrArg Subtype.val h)
      obtain ⟨l', hl', hmap⟩ := ih (hclosed a ha b b.2 hne)
      refine ⟨⟨a, ha⟩ :: l', .step hne' ?_, by rw [List.map_cons, hmap]⟩
      convert hl' using 1
      exact Subtype.ext (restrict_nextHop hne')

end Restrict

section Leaves

variable [DecidableEq α]

/-- The tree with a leaf `y` hung on the vertex `attach y`, for every `y`. -/
def withLeaves (T : TreeRouting α) (attach : β → α) : TreeRouting (α ⊕ β) where
  adj
    | .inl a, .inl b => T.adj a b
    | .inl a, .inr y => attach y = a
    | .inr y, .inl a => attach y = a
    | .inr _, .inr _ => False
  nextHop
    | .inl a, .inl b => .inl (T.nextHop a b)
    | .inl a, .inr y => if attach y = a then .inr y else .inl (T.nextHop a (attach y))
    | .inr y, _ => .inl (attach y)
  adj_ne {a b} h := by
    cases a with
    | inl a =>
        cases b with
        | inl b => exact fun heq => T.adj_ne h (Sum.inl.inj heq)
        | inr y => exact Sum.inl_ne_inr
    | inr y =>
        cases b with
        | inl b => exact Sum.inr_ne_inl
        | inr z => exact h.elim
  adj_symm {a b} h := by
    cases a with
    | inl a =>
        cases b with
        | inl b => exact T.adj_symm h
        | inr y => exact h
    | inr y =>
        cases b with
        | inl b => exact h
        | inr z => exact h
  adj_nextHop {a b} hne := by
    cases a with
    | inr y => exact rfl
    | inl a =>
        cases b with
        | inl b => exact T.adj_nextHop fun heq => hne (congrArg Sum.inl heq)
        | inr y =>
            by_cases hy : attach y = a
            · simp [hy]
            · simp only [hy, if_false]
              exact T.adj_nextHop (Ne.symm hy)
  nextHop_of_adj {a b} h := by
    cases a with
    | inl a =>
        cases b with
        | inl b => exact congrArg Sum.inl (T.nextHop_of_adj h)
        | inr y => exact if_pos h
    | inr y =>
        cases b with
        | inl b => exact congrArg Sum.inl h
        | inr z => exact h.elim
  nextHop_congr {a b c} h ha hb := by
    cases c with
    | inr y => rfl
    | inl c =>
        cases a with
        | inl a =>
            have hca : c ≠ a := fun heq => ha (congrArg Sum.inl heq)
            cases b with
            | inl b =>
                exact congrArg Sum.inl (T.nextHop_congr h hca fun heq => hb (congrArg Sum.inl heq))
            | inr y =>
                have hy : attach y = a := h
                simp [hy, Ne.symm hca]
        | inr y =>
            cases b with
            | inr z => exact h.elim
            | inl b =>
                have hcb : c ≠ b := fun heq => hb (congrArg Sum.inl heq)
                have hy : attach y = b := h
                simp [hy, Ne.symm hcb]
  separates {a b x} h ha hb := by
    cases a with
    | inr y =>
        cases b with
        | inr z => exact h.elim
        | inl b =>
            have hy : attach y = b := h
            subst hy
            cases x with
            | inl x => simp
            | inr z =>
                have hz : z ≠ y := fun heq => ha (congrArg Sum.inr heq)
                by_cases hattach : attach z = attach y
                · simp [hattach, hz]
                · simp [hattach]
    | inl a =>
        cases b with
        | inr y =>
            have hy : attach y = a := h
            subst hy
            cases x with
            | inl x => simp
            | inr z =>
                have hz : z ≠ y := fun heq => hb (congrArg Sum.inr heq)
                by_cases hattach : attach z = attach y
                · simp [hattach, hz]
                · simp [hattach]
        | inl b =>
            have hadj : T.adj a b := h
            cases x with
            | inl x =>
                have hxa : x ≠ a := fun heq => ha (congrArg Sum.inl heq)
                have hxb : x ≠ b := fun heq => hb (congrArg Sum.inl heq)
                simpa using T.separates hadj hxa hxb
            | inr y =>
                by_cases hya : attach y = a
                · have hne : a ≠ b := T.adj_ne hadj
                  simp [hya, hne, T.nextHop_of_adj (T.adj_symm hadj)]
                · by_cases hyb : attach y = b
                  · simp [hyb, Ne.symm (T.adj_ne hadj), T.nextHop_of_adj hadj]
                  · simpa [hya, hyb] using T.separates hadj hya hyb

variable {attach : β → α}

theorem Route.inl (h : T.Route b a l) :
    (T.withLeaves attach).Route (.inl b) (.inl a) (l.map Sum.inl) := by
  induction h with
  | here => exact .here
  | step hne _ ih => exact .step (fun heq => hne (Sum.inl.inj heq)) ih

theorem Route.inr {y : β} (h : T.Route (attach y) a l) :
    (T.withLeaves attach).Route (.inr y) (.inl a) (l.map Sum.inl ++ [.inr y]) := by
  generalize hb : attach y = target at h
  induction h with
  | here =>
      have hnext : (T.withLeaves attach).nextHop (.inl target) (.inr y) = .inr y := if_pos hb
      exact .step Sum.inl_ne_inr (hnext.symm ▸ .here)
  | @step a l hne _ ih =>
      have hnext : (T.withLeaves attach).nextHop (.inl a) (.inr y) = .inl (T.nextHop a target) := by
        subst hb
        exact if_neg (Ne.symm hne)
      exact .step Sum.inl_ne_inr (hnext.symm ▸ ih)

end Leaves
end TreeRouting

namespace HeapTree

private theorem exists_route_below {a b : Nat} (h : Below a b) : ∃ l, routing.Route b a l := by
  induction hn : b - a using Nat.strongRecOn generalizing a with
  | ind n ih =>
      have hdown : ∀ c, a < c → Below c b → routing.nextHop a b = c →
          ∃ l, routing.Route b a l := by
        intro c hac hc hnext
        have hcb := hc.le
        obtain ⟨l, hl⟩ := ih (b - c) (by omega) hc rfl
        exact ⟨a :: l, .step (by omega) (hnext.symm ▸ hl)⟩
      rcases below_iff.mp h with heq | hleft | hright
      · exact ⟨[b], heq ▸ .here⟩
      · exact hdown _ (by omega) hleft (nextHop_left hleft)
      · exact hdown _ (by omega) hright (nextHop_right hright)

/-- First up to a vertex above the target, then down to it. -/
theorem exists_route (a b : Nat) : ∃ l, routing.Route b a l := by
  induction a using Nat.strongRecOn with
  | ind a ih =>
      by_cases h : Below a b
      · exact exists_route_below h
      · have hpos : a ≠ 0 := fun heq => h (heq ▸ below_zero b)
        have hne : a ≠ b := fun heq => h (heq ▸ .root)
        obtain ⟨l, hl⟩ := ih ((a - 1) / 2) (by omega)
        have hnext : routing.nextHop a b = (a - 1) / 2 := nextHop_up h
        exact ⟨a :: l, .step hne (hnext.symm ▸ hl)⟩

/-- The next hop is one edge nearer. -/
theorem dist_nextHop {a b : Nat} (h : a ≠ b) :
    routing.graph.dist (nextHop a b) b + 1 = routing.graph.dist a b := by
  obtain ⟨l, hl⟩ := exists_route a b
  have hlength := hl.length_eq
  cases hl with
  | here => exact absurd rfl h
  | step _ hrest =>
      rw [List.length_cons, hrest.length_eq] at hlength
      exact Nat.succ.inj hlength

end HeapTree
