import Mathlib.Algebra.BigOperators.Group.Finset.Basic

/-!
First-in-first-out pipes between every ordered pair of vertices.
-/

universe u v w

/-- What is on its way from one vertex to another, in order. -/
abbrev Pipes (α : Type u) (ι : Type v) := α → α → List ι

namespace Pipes

variable {α : Type u} {ι : Type v} {κ : Type w} [DecidableEq α]

def push (pipe : Pipes α ι) (a b : α) (i : ι) : Pipes α ι :=
  fun x y => if x = a ∧ y = b then pipe x y ++ [i] else pipe x y

def put (pipe : Pipes α ι) (a b : α) (l : List ι) : Pipes α ι :=
  fun x y => if x = a ∧ y = b then l else pipe x y

@[simp] theorem push_self (pipe : Pipes α ι) (a b : α) (i : ι) :
    pipe.push a b i a b = pipe a b ++ [i] := by simp [push]

theorem push_of_ne (pipe : Pipes α ι) {a b x y : α} (i : ι) (h : ¬ (x = a ∧ y = b)) :
    pipe.push a b i x y = pipe x y := if_neg h

@[simp] theorem put_self (pipe : Pipes α ι) (a b : α) (l : List ι) : pipe.put a b l a b = l := by
  simp [put]

theorem put_of_ne (pipe : Pipes α ι) {a b x y : α} (l : List ι) (h : ¬ (x = a ∧ y = b)) :
    pipe.put a b l x y = pipe x y := if_neg h

theorem mem_push_self (pipe : Pipes α ι) (a b : α) (i : ι) : i ∈ pipe.push a b i a b := by
  rw [push_self]
  exact List.mem_append_right _ List.mem_cons_self

theorem mem_push {pipe : Pipes α ι} {a b x y : α} {i j : ι} (h : j ∈ pipe.push a b i x y) :
    j ∈ pipe x y ∨ x = a ∧ y = b ∧ j = i := by
  simp only [push] at h
  split at h
  · rename_i hxy
    rcases List.mem_append.mp h with h | h
    · exact .inl h
    · exact .inr ⟨hxy.1, hxy.2, List.mem_singleton.mp h⟩
  · exact .inl h

theorem mem_put_tail {pipe : Pipes α ι} {a b x y : α} {i j : ι} {rest : List ι}
    (hpipe : pipe a b = i :: rest) (h : j ∈ pipe.put a b rest x y) : j ∈ pipe x y := by
  simp only [put] at h
  split at h
  · rename_i hxy
    rw [hxy.1, hxy.2, hpipe]
    exact List.mem_cons_of_mem _ h
  · exact h

/-- What does not tell the new contents of one pipe from the old tells no pipe from what
it was. -/
theorem apply_put (f : List ι → κ) {pipe : Pipes α ι} {a b : α} {l : List ι}
    (h : f l = f (pipe a b)) (x y : α) : f (pipe.put a b l x y) = f (pipe x y) := by
  by_cases hxy : x = a ∧ y = b
  · obtain ⟨rfl, rfl⟩ := hxy
    rw [put_self, h]
  · rw [put_of_ne pipe l hxy]

theorem filterMap_push {f : ι → Option κ} (pipe : Pipes α ι) {a b : α} {i : ι} (h : f i = none)
    (x y : α) : (pipe.push a b i x y).filterMap f = (pipe x y).filterMap f := by
  by_cases hxy : x = a ∧ y = b
  · obtain ⟨rfl, rfl⟩ := hxy
    simp [h]
  · rw [push_of_ne pipe i hxy]

theorem filterMap_put {f : ι → Option κ} {pipe : Pipes α ι} {a b : α} {i : ι} {rest : List ι}
    (hpipe : pipe a b = i :: rest) (h : f i = none) (x y : α) :
    (pipe.put a b rest x y).filterMap f = (pipe x y).filterMap f := by
  apply apply_put (List.filterMap f)
  rw [hpipe, List.filterMap_cons_none h]

section Count

/-- How many of the things with `p` are on their way to a vertex. -/
def arriving (s : Finset α) (p : ι → Bool) (pipe : Pipes α ι) (target : α) : Nat :=
  ∑ source ∈ s, (pipe source target).countP p

variable {s : Finset α} {p : ι → Bool} {pipe pipe' : Pipes α ι} {a b : α} {i : ι}

/-- A pipe that changes changes what is on its way by what is in it. -/
theorem arriving_of_change (ha : a ∈ s) (target : α)
    (h : ∀ x, x ≠ a → pipe' x target = pipe x target) :
    arriving s p pipe' target + (pipe a target).countP p =
      arriving s p pipe target + (pipe' a target).countP p := by
  have hrest : ∑ x ∈ s.erase a, (pipe' x target).countP p =
      ∑ x ∈ s.erase a, (pipe x target).countP p := by
    apply Finset.sum_congr rfl
    intro x hx
    rw [h x (Finset.ne_of_mem_erase hx)]
  rw [arriving, arriving, ← Finset.add_sum_erase s _ ha, hrest]
  rw [← Finset.add_sum_erase s (fun x => (pipe x target).countP p) ha]
  omega

theorem arriving_push (ha : a ∈ s) (target : α) :
    arriving s p (pipe.push a b i) target =
      arriving s p pipe target + if target = b ∧ p i = true then 1 else 0 := by
  have hchange : arriving s p (pipe.push a b i) target + (pipe a target).countP p =
      arriving s p pipe target + (pipe.push a b i a target).countP p :=
    arriving_of_change ha target fun x hx => push_of_ne pipe i fun h => hx h.1
  by_cases htarget : target = b
  · subst htarget
    rw [push_self, List.countP_append, List.countP_singleton] at hchange
    simp only [true_and]
    omega
  · rw [push_of_ne pipe i fun h => htarget h.2] at hchange
    rw [if_neg fun h => htarget h.1]
    omega

theorem arriving_put {rest : List ι} (ha : a ∈ s) (hpipe : pipe a b = i :: rest) (target : α) :
    arriving s p pipe target =
      arriving s p (pipe.put a b rest) target + if target = b ∧ p i = true then 1 else 0 := by
  have hchange : arriving s p (pipe.put a b rest) target + (pipe a target).countP p =
      arriving s p pipe target + (pipe.put a b rest a target).countP p :=
    arriving_of_change ha target fun x hx => put_of_ne pipe rest fun h => hx h.1
  by_cases htarget : target = b
  · subst htarget
    rw [put_self, hpipe, List.countP_cons] at hchange
    simp only [true_and]
    omega
  · rw [put_of_ne pipe rest fun h => htarget h.2] at hchange
    rw [if_neg fun h => htarget h.1]
    omega

end Count

/-- Everything in `l` is sent by `a`, each to the vertex it comes with. -/
def pushAll (pipe : Pipes α ι) (a : α) (l : List (α × ι)) : Pipes α ι :=
  l.foldl (fun pipe e => pipe.push a e.1 e.2) pipe

theorem pushAll_apply (pipe : Pipes α ι) (a : α) (l : List (α × ι)) (x y : α) :
    pipe.pushAll a l x y =
      if x = a then pipe x y ++ (l.filter fun e => e.1 = y).map Prod.snd else pipe x y := by
  induction l generalizing pipe with
  | nil => simp [pushAll]
  | cons e l ih =>
      have hrest := ih (pipe.push a e.1 e.2)
      rw [pushAll, List.foldl_cons]
      rw [pushAll] at hrest
      rw [hrest]
      by_cases hx : x = a
      · subst hx
        by_cases hy : e.1 = y
        · subst hy
          simp
        · rw [push_of_ne pipe e.2 fun h => hy h.2.symm]
          simp [hy]
      · rw [push_of_ne pipe e.2 fun h => hx h.1]
        simp [hx]

/-- The `k`-th thing on the way from `a` to `b` is taken out. -/
def take (pipe : Pipes α ι) (a b : α) (k : Nat) : Pipes α ι :=
  pipe.put a b ((pipe a b).eraseIdx k)

/-- What was before it and behind it stays. -/
theorem exists_take {pipe : Pipes α ι} {a b : α} {k : Nat} {i : ι}
    (h : (pipe a b)[k]? = some i) :
    ∃ front back, pipe a b = front ++ i :: back ∧ pipe.take a b k a b = front ++ back ∧
      front.length = k := by
  obtain ⟨hk, hi⟩ := List.getElem?_eq_some_iff.mp h
  refine ⟨(pipe a b).take k, (pipe a b).drop (k + 1), ?_, ?_, ?_⟩
  · rw [← hi, List.getElem_cons_drop, List.take_append_drop]
  · rw [take, put_self, List.eraseIdx_eq_take_drop_succ]
  · rw [List.length_take]
    omega

end Pipes
