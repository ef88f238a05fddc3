import Mathlib.Data.Set.Basic

/-!
A flood down a tree: whoever gets a copy for the first time sends one to each
child. On every edge the copies that have arrived and the copy on its way add up
to the copies that the upper end has had, however the copies are delayed.
-/

universe u

namespace Flood

variable {α : Type u}

/-- The source lies above `v`, over vertices that are all in `s`. -/
inductive Descends (parent : α → α) (s : Set α) (source : α) : α → Prop
  | child {v : α} (hv : v ∈ s) (h : parent v = source) : Descends parent s source v
  | step {v : α} (hv : v ∈ s) (h : Descends parent s source (parent v)) :
      Descends parent s source v

theorem Descends.mem {parent : α → α} {s : Set α} {source v : α}
    (h : Descends parent s source v) : v ∈ s := by
  cases h with
  | child hv => exact hv
  | step hv => exact hv

/-- A tree, given by the parents of its vertices. The source has none and is outside. -/
structure Tree (α : Type u) where
  parent : α → α
  vertices : Set α
  source : α
  source_notMem : source ∉ vertices
  descends : ∀ v ∈ vertices, Descends parent vertices source v

namespace Tree

variable (T : Tree α)

theorem parent_ne {v : α} (hv : v ∈ T.vertices) : T.parent v ≠ v := by
  intro heq
  have hbelow := T.descends v hv
  induction hbelow with
  | child hmem hsource => exact T.source_notMem (hsource ▸ heq.symm ▸ hmem)
  | step _ h ih =>
      rw [heq] at ih
      exact ih hv heq

end Tree

/-- One copy for each child of `y`, and none for others. -/
def ToChildren (T : Tree α) (y : α) (copies : α → Nat) : Prop :=
  ∀ v, (v ∈ T.vertices ∧ T.parent v = y → copies v = 1) ∧
    (¬ (v ∈ T.vertices ∧ T.parent v = y) → copies v = 0)

variable {T : Tree α} {flying flying' : α → α → Nat} {done done' copies : α → Nat}

theorem ToChildren.away [DecidableEq α] {y : α} (h : ToChildren T y copies) {u v : α}
    (hsent : (if u = y then copies v else 0) ≠ 0) : v ∈ T.vertices ∧ u = T.parent v := by
  by_cases hu : u = y
  · rw [if_pos hu] at hsent
    have hchild : v ∈ T.vertices ∧ T.parent v = y := by
      by_contra hnot
      exact hsent ((h v).2 hnot)
    exact ⟨hchild.1, hu.trans hchild.2.symm⟩
  · rw [if_neg hu] at hsent
    exact absurd rfl hsent

/-- `flying` counts the copies on their way, `done` those that a vertex has had; the source has
had as many as it has sent to each child. -/
structure Flooded (T : Tree α) (flying : α → α → Nat) (done : α → Nat) : Prop where
  edge : ∀ v ∈ T.vertices, done v + flying (T.parent v) v = done (T.parent v)
  away : ∀ u v, flying u v ≠ 0 → v ∈ T.vertices ∧ u = T.parent v

theorem flooded_zero (T : Tree α) : Flooded T (fun _ _ => 0) fun _ => 0 :=
  ⟨fun _ _ => rfl, fun _ _ h => absurd rfl h⟩

namespace Flooded

variable [DecidableEq α]

/-- A new copy that the source has: one is on the way to each child. -/
theorem emit (h : Flooded T flying done) {y : α} (hcopies : ToChildren T y copies)
    (hflying : ∀ u v, flying' u v = flying u v + if u = y then copies v else 0)
    (hdone : ∀ v, done' v = done v + if v = y then 1 else 0)
    (hy : y ∉ T.vertices) : Flooded T flying' done' := by
  constructor
  · intro v hv
    have hedge := h.edge v hv
    have hne : v ≠ y := fun heq => hy (heq ▸ hv)
    rw [hdone, hdone, hflying, if_neg hne]
    by_cases hup : T.parent v = y
    · rw [if_pos hup, if_pos hup, (hcopies v).1 ⟨hv, hup⟩]
      omega
    · rw [if_neg hup, if_neg hup]
      omega
  · intro u v hne
    rw [hflying] at hne
    by_cases hnone : (if u = y then copies v else 0) = 0
    · rw [hnone, Nat.add_zero] at hne
      exact h.away u v hne
    · exact hcopies.away hnone

/-- The copy on its way to `y` arrives there, and `y` sends one to each child. -/
theorem arrive (h : Flooded T flying done) {y : α} (hy : y ∈ T.vertices)
    (hcopies : ToChildren T y copies)
    (hflying : ∀ u v, flying' u v + (if u = T.parent y ∧ v = y then 1 else 0) =
      flying u v + if u = y then copies v else 0)
    (hdone : ∀ v, done' v = done v + if v = y then 1 else 0) : Flooded T flying' done' := by
  constructor
  · intro v hv
    have hedge := h.edge v hv
    have hmoved := hflying (T.parent v) v
    have hup := T.parent_ne hv
    rw [hdone, hdone]
    by_cases hvy : v = y
    · subst hvy
      rw [if_pos ⟨rfl, rfl⟩, if_neg hup] at hmoved
      rw [if_pos rfl, if_neg hup]
      omega
    · rw [if_neg fun hc => hvy hc.2] at hmoved
      rw [if_neg hvy]
      by_cases hpy : T.parent v = y
      · rw [if_pos hpy, (hcopies v).1 ⟨hv, hpy⟩] at hmoved
        rw [if_pos hpy]
        omega
      · rw [if_neg hpy] at hmoved
        rw [if_neg hpy]
        omega
  · intro u v hne
    by_cases hnone : (if u = y then copies v else 0) = 0
    · have hmoved := hflying u v
      rw [hnone] at hmoved
      apply h.away u v
      omega
    · exact hcopies.away hnone

omit [DecidableEq α] in
/-- Nobody has had more copies than the source has sent out. -/
theorem done_le (h : Flooded T flying done) {v : α} (hv : v ∈ T.vertices) :
    done v ≤ done T.source := by
  have hbelow := T.descends v hv
  induction hbelow with
  | @child v hv hsource =>
      have hedge := h.edge v hv
      rw [hsource] at hedge
      omega
  | @step v hv hup ih =>
      have hedge := h.edge v hv
      have hle := ih hup.mem
      omega

omit [DecidableEq α] in
theorem done_add_flying_le (h : Flooded T flying done) {v : α} (hv : v ∈ T.vertices) :
    done v + flying (T.parent v) v ≤ done T.source := by
  have hedge := h.edge v hv
  have hle : done (T.parent v) ≤ done T.source := by
    cases T.descends v hv with
    | child _ hsource => rw [hsource]
    | step _ hup => exact h.done_le hup.mem
  omega

omit [DecidableEq α] in
/-- When no copy is on its way, all have had what the source has sent out. -/
theorem done_eq (h : Flooded T flying done) (hempty : ∀ u v, flying u v = 0) {v : α}
    (hv : v ∈ T.vertices) : done v = done T.source := by
  have hbelow := T.descends v hv
  induction hbelow with
  | @child v hv hsource =>
      have hedge := h.edge v hv
      rw [hempty, hsource] at hedge
      exact hedge
  | @step v hv hup ih =>
      have hedge := h.edge v hv
      rw [hempty, ih hup.mem] at hedge
      exact hedge

end Flooded
end Flood
