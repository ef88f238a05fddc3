import Mathlib.Data.List.Forall2
import Mathlib.Data.List.Induction
import Mathlib.Order.MinMax

/-!
A map that is searched with a relation which orders its keys only partly. The
keys of such a map form a chain, whatever is put in. A key that some present key
cannot be compared with is taken for that key, and so has no entry of its own.
-/

universe u v

namespace ChainMap

variable {κ : Type u} {β : Type v} [LinearOrder β]

/-- The entry of `k` comes down to `v`, or is made; `lower_bound` finds where. -/
def lower (lt : κ → κ → Bool) (k : κ) (v : β) : List (κ × β) → List (κ × β)
  | [] => [(k, v)]
  | (k', v') :: m =>
      if lt k' k then (k', v') :: lower lt k v m
      else if lt k k' then (k, v) :: (k', v') :: m
      else (k', min v' v) :: m

/-- The value that a search for `k` finds: `lower_bound` leads to the first key that is
not before `k`, and `k` is missing if it is before that one. -/
def find? (lt : κ → κ → Bool) (k : κ) : List (κ × β) → Option β
  | [] => none
  | (k', v) :: m =>
      if lt k' k then find? lt k m
      else if lt k k' then none
      else some v

/-- The entry that a search for `k` finds gets the value `v`, or one is made. -/
def assign (lt : κ → κ → Bool) (k : κ) (v : β) : List (κ × β) → List (κ × β)
  | [] => [(k, v)]
  | (k', v') :: m =>
      if lt k' k then (k', v') :: assign lt k v m
      else if lt k k' then (k, v) :: (k', v') :: m
      else (k', v) :: m

theorem lower_eq (lt : κ → κ → Bool) (k : κ) (v : β) (m : List (κ × β)) :
    lower lt k v m =
      match find? lt k m with
      | some w => if v < w then assign lt k v m else m
      | none => assign lt k v m := by
  induction m with
  | nil => rfl
  | cons e m ih =>
      by_cases hbefore : lt e.1 k = true
      · simp only [lower, find?, assign, hbefore, if_true, ih]
        cases find? lt k m with
        | none => rfl
        | some w =>
            by_cases hlt : v < w
            · simp [hlt]
            · simp [hlt]
      · by_cases hafter : lt k e.1 = true
        · simp [lower, find?, assign, hbefore, hafter]
        · simp only [lower, find?, assign, hbefore, hafter]
          by_cases hlt : v < e.2
          · simp [hlt, min_eq_right (le_of_lt hlt)]
          · simp [hlt, min_eq_left (not_lt.mp hlt)]

/-- The map that the calls leave. -/
def collect (lt : κ → κ → Bool) (calls : List (κ × β)) : List (κ × β) :=
  calls.foldl (fun m c => lower lt c.1 c.2 m) []

/-- The keys are the same, or ordered one way or the other. -/
def Comparable (lt : κ → κ → Bool) (a b : κ) : Prop :=
  a = b ∨ lt a b = true ∨ lt b a = true

theorem Comparable.symm {lt : κ → κ → Bool} {a b : κ} (h : Comparable lt a b) :
    Comparable lt b a := by
  cases h with
  | inl h => exact .inl h.symm
  | inr h => exact .inr h.symm

theorem collect_append_singleton (lt : κ → κ → Bool) (calls : List (κ × β)) (c : κ × β) :
    collect lt (calls ++ [c]) = lower lt c.1 c.2 (collect lt calls) := by
  simp [collect]

theorem key_of_mem_lower {lt : κ → κ → Bool} {k a : κ} {v w : β} {m : List (κ × β)}
    (h : (a, w) ∈ lower lt k v m) : a = k ∨ ∃ w', (a, w') ∈ m := by
  induction m with
  | nil => exact .inl (congrArg Prod.fst (List.mem_singleton.mp h))
  | cons x m ih =>
      simp only [lower] at h
      split at h
      · cases List.mem_cons.mp h with
        | inl h => exact .inr ⟨w, h ▸ List.mem_cons_self⟩
        | inr h =>
            cases ih h with
            | inl h => exact .inl h
            | inr h =>
                obtain ⟨w', hw'⟩ := h
                exact .inr ⟨w', List.mem_cons_of_mem _ hw'⟩
      · split at h
        · cases List.mem_cons.mp h with
          | inl h => exact .inl (congrArg Prod.fst h)
          | inr h => exact .inr ⟨w, h⟩
        · cases List.mem_cons.mp h with
          | inl h =>
              obtain ⟨rfl, _⟩ := Prod.mk.inj h
              exact .inr ⟨x.2, List.mem_cons_self⟩
          | inr h => exact .inr ⟨w, List.mem_cons_of_mem _ h⟩

theorem key_of_mem_collect {lt : κ → κ → Bool} {a : κ} {w : β} {calls : List (κ × β)}
    (h : (a, w) ∈ collect lt calls) : ∃ t, (a, t) ∈ calls := by
  induction calls using List.reverseRecOn generalizing w with
  | nil => cases h
  | append_singleton calls c ih =>
      rw [collect_append_singleton] at h
      cases key_of_mem_lower h with
      | inl h => exact ⟨c.2, by simp [h]⟩
      | inr h =>
          obtain ⟨w', hw'⟩ := h
          obtain ⟨t, ht⟩ := ih hw'
          exact ⟨t, List.mem_append_left _ ht⟩

section Chain

variable {lt : κ → κ → Bool}
variable (htrans : ∀ a b c, lt a b = true → lt b c = true → lt a c = true)
include htrans

theorem pairwise_lower {k : κ} {v : β} {m : List (κ × β)}
    (h : m.Pairwise fun a b => lt a.1 b.1 = true) :
    (lower lt k v m).Pairwise fun a b => lt a.1 b.1 = true := by
  induction m with
  | nil => exact List.pairwise_singleton _ _
  | cons x m ih =>
      obtain ⟨hfirst, hrest⟩ := List.pairwise_cons.mp h
      simp only [lower]
      split
      · rename_i hlt
        refine List.pairwise_cons.mpr ⟨?_, ih hrest⟩
        intro e he
        cases key_of_mem_lower (a := e.1) (w := e.2) he with
        | inl hk =>
            rw [hk]
            exact hlt
        | inr he =>
            obtain ⟨w, hw⟩ := he
            exact hfirst (e.1, w) hw
      · split
        · rename_i hlt
          refine List.pairwise_cons.mpr ⟨?_, h⟩
          intro e he
          cases List.mem_cons.mp he with
          | inl he =>
              rw [he]
              exact hlt
          | inr he => exact htrans _ _ _ hlt (hfirst e he)
        · exact List.pairwise_cons.mpr ⟨hfirst, hrest⟩

theorem pairwise_collect (calls : List (κ × β)) :
    (collect lt calls).Pairwise fun a b => lt a.1 b.1 = true := by
  induction calls using List.reverseRecOn with
  | nil => exact List.Pairwise.nil
  | append_singleton calls c ih =>
      rw [collect_append_singleton]
      exact pairwise_lower htrans ih

/-- The keys form a chain. -/
theorem comparable_of_mem_collect {calls : List (κ × β)} {a b : κ} {v w : β}
    (ha : (a, v) ∈ collect lt calls) (hb : (b, w) ∈ collect lt calls) :
    Comparable lt a b := by
  have hchain := pairwise_collect htrans calls
  generalize collect lt calls = m at ha hb hchain
  induction m with
  | nil => cases ha
  | cons x m ih =>
      obtain ⟨hfirst, hrest⟩ := List.pairwise_cons.mp hchain
      cases List.mem_cons.mp ha with
      | inl ha =>
          cases List.mem_cons.mp hb with
          | inl hb => exact .inl (congrArg Prod.fst (ha.trans hb.symm))
          | inr hb => exact .inr (.inl (by simpa [← ha] using hfirst _ hb))
      | inr ha =>
          cases List.mem_cons.mp hb with
          | inl hb => exact .inr (.inr (by simpa [← hb] using hfirst _ ha))
          | inr hb => exact ih ha hb hrest

end Chain

section Value

variable {lt : κ → κ → Bool} {a k : κ} {v w : β} {m calls : List (κ × β)}

/-- A value is one put in for its key, if no other key was taken for that. -/
theorem mem_of_mem_lower (hk : Comparable lt k a) (h : (a, w) ∈ lower lt k v m) :
    (a, w) = (k, v) ∨ (a, w) ∈ m := by
  induction m with
  | nil => exact .inl (List.mem_singleton.mp h)
  | cons x m ih =>
      simp only [lower] at h
      split at h
      · cases List.mem_cons.mp h with
        | inl h => exact .inr (h ▸ List.mem_cons_self)
        | inr h =>
            cases ih h with
            | inl h => exact .inl h
            | inr h => exact .inr (List.mem_cons_of_mem _ h)
      · rename_i hbefore
        split at h
        · cases List.mem_cons.mp h with
          | inl h => exact .inl h
          | inr h => exact .inr h
        · rename_i hafter
          cases List.mem_cons.mp h with
          | inr h => exact .inr (List.mem_cons_of_mem _ h)
          | inl h =>
              obtain ⟨hax, hw⟩ := Prod.mk.inj h
              have hka : k = a := by
                cases hk with
                | inl hk => exact hk
                | inr hk =>
                    rw [hax] at hk
                    cases hk with
                    | inl hk => exact absurd hk hafter
                    | inr hk => exact absurd hk hbefore
              cases min_choice x.2 v with
              | inl hmin => exact .inr (by rw [hw, hmin, hax]; exact List.mem_cons_self)
              | inr hmin => exact .inl (by rw [hw, hmin, hka])

theorem mem_of_mem_collect (hcomparable : ∀ c ∈ calls, Comparable lt c.1 a)
    (h : (a, w) ∈ collect lt calls) : (a, w) ∈ calls := by
  induction calls using List.reverseRecOn with
  | nil => cases h
  | append_singleton calls c ih =>
      rw [collect_append_singleton] at h
      cases mem_of_mem_lower (hcomparable c (by simp)) h with
      | inl h => simp [h]
      | inr h =>
          have hmem := ih (fun d hd => hcomparable d (List.mem_append_left _ hd)) h
          exact List.mem_append_left _ hmem

/-- Values only come down. -/
theorem exists_le_of_mem (lt : κ → κ → Bool) (k : κ) (v : β) (h : (a, w) ∈ m) :
    ∃ w', w' ≤ w ∧ (a, w') ∈ lower lt k v m := by
  induction m with
  | nil => cases h
  | cons x m ih =>
      simp only [lower]
      cases List.mem_cons.mp h with
      | inl h =>
          subst h
          split
          · exact ⟨w, le_refl _, List.mem_cons_self⟩
          · split
            · exact ⟨w, le_refl _, by simp⟩
            · exact ⟨min w v, min_le_left _ _, List.mem_cons_self⟩
      | inr h =>
          split
          · obtain ⟨w', hle, hw'⟩ := ih h
            exact ⟨w', hle, List.mem_cons_of_mem _ hw'⟩
          · split
            · exact ⟨w, le_refl _, by simp [h]⟩
            · exact ⟨w, le_refl _, List.mem_cons_of_mem _ h⟩

/-- A key that can be compared with all that are present gets its value. -/
theorem exists_le_lower (hcomparable : ∀ e ∈ m, Comparable lt e.1 k) :
    ∃ w, w ≤ v ∧ (k, w) ∈ lower lt k v m := by
  induction m with
  | nil => exact ⟨v, le_refl _, List.mem_singleton_self _⟩
  | cons x m ih =>
      simp only [lower]
      split
      · obtain ⟨w, hle, hw⟩ := ih fun e he => hcomparable e (List.mem_cons_of_mem _ he)
        exact ⟨w, hle, List.mem_cons_of_mem _ hw⟩
      · rename_i hbefore
        split
        · exact ⟨v, le_refl _, List.mem_cons_self⟩
        · rename_i hafter
          have hxk : x.1 = k := by
            cases hcomparable x List.mem_cons_self with
            | inl h => exact h
            | inr h =>
                cases h with
                | inl h => exact absurd h hbefore
                | inr h => exact absurd h hafter
          refine ⟨min x.2 v, min_le_right _ _, ?_⟩
          rw [hxk]
          exact List.mem_cons_self

theorem exists_le_collect (hcomparable : ∀ c ∈ calls, Comparable lt c.1 a)
    (h : (a, w) ∈ calls) : ∃ w', w' ≤ w ∧ (a, w') ∈ collect lt calls := by
  induction calls using List.reverseRecOn with
  | nil => cases h
  | append_singleton calls c ih =>
      have hrest : ∀ d ∈ calls, Comparable lt d.1 a :=
        fun d hd => hcomparable d (List.mem_append_left _ hd)
      rw [collect_append_singleton]
      cases List.mem_append.mp h with
      | inl h =>
          obtain ⟨w₁, hle₁, hw₁⟩ := ih hrest h
          obtain ⟨w₂, hle₂, hw₂⟩ := exists_le_of_mem lt c.1 c.2 hw₁
          exact ⟨w₂, hle₂.trans hle₁, hw₂⟩
      | inr h =>
          rw [← List.mem_singleton.mp h]
          apply exists_le_lower
          intro e he
          obtain ⟨t, ht⟩ := key_of_mem_collect (a := e.1) (w := e.2) he
          exact hrest (e.1, t) ht

/-- The values put in for one key. -/
def valuesOf {β : Type v} [DecidableEq κ] (a : κ) (calls : List (κ × β)) : List β :=
  (calls.filter fun c => c.1 = a).map Prod.snd

omit [LinearOrder β] in
theorem mem_valuesOf [DecidableEq κ] : w ∈ valuesOf a calls ↔ (a, w) ∈ calls := by
  simp only [valuesOf, List.mem_map, List.mem_filter, decide_eq_true_eq]
  constructor
  · intro h
    obtain ⟨c, ⟨hc, hkey⟩, hvalue⟩ := h
    rw [← hkey, ← hvalue]
    exact hc
  · intro h
    exact ⟨(a, w), ⟨h, rfl⟩, rfl⟩

/-- A key has at most one entry. -/
theorem filter_collect_length [DecidableEq κ] (hirrefl : lt a a = false)
    (htrans : ∀ a b c, lt a b = true → lt b c = true → lt a c = true) :
    ((collect lt calls).filter fun e => e.1 = a).length ≤ 1 := by
  have hchain := (pairwise_collect htrans calls).sublist
    (List.filter_sublist (p := fun e => decide (e.1 = a)))
  have hkey : ∀ e ∈ (collect lt calls).filter fun e => e.1 = a, e.1 = a := by
    intro e he
    exact of_decide_eq_true (List.mem_filter.mp he).2
  cases hl : (collect lt calls).filter fun e => e.1 = a with
  | nil => exact Nat.zero_le 1
  | cons x rest =>
      cases rest with
      | nil => exact Nat.le_refl 1
      | cons y rest =>
          rw [hl] at hchain hkey
          have hlt := (List.pairwise_cons.mp hchain).1 y (by simp)
          rw [hkey x (by simp), hkey y (by simp), hirrefl] at hlt
          cases hlt

/-- A key that no other key is taken for has the least of its values, if it has any. -/
theorem filter_collect [DecidableEq κ] (hirrefl : lt a a = false)
    (htrans : ∀ a b c, lt a b = true → lt b c = true → lt a c = true)
    (hcomparable : ∀ c ∈ calls, Comparable lt c.1 a) :
    (collect lt calls).filter (fun e => e.1 = a) =
      (valuesOf a calls).min?.toList.map fun w => (a, w) := by
  have hlength : ((collect lt calls).filter fun e => e.1 = a).length ≤ 1 :=
    filter_collect_length hirrefl htrans
  cases hl : (collect lt calls).filter fun e => e.1 = a with
  | nil =>
      have hnil : valuesOf a calls = [] := by
        apply List.eq_nil_iff_forall_not_mem.mpr
        intro w hw
        obtain ⟨w', _, hmem⟩ := exists_le_collect hcomparable (mem_valuesOf.mp hw)
        have hfound := List.filter_eq_nil_iff.mp hl (a, w') hmem
        simp at hfound
      simp [hnil]
  | cons e rest =>
      rw [hl] at hlength
      obtain rfl : rest = [] := List.length_eq_zero_iff.mp (by simpa using hlength)
      have hmem : e ∈ (collect lt calls).filter fun e => e.1 = a := by simp [hl]
      have hkey : e.1 = a := of_decide_eq_true (List.mem_filter.mp hmem).2
      have hentry : (a, e.2) ∈ collect lt calls := by
        rw [← hkey]
        exact (List.mem_filter.mp hmem).1
      have hmin : (valuesOf a calls).min? = some e.2 := by
        apply List.min?_eq_some_iff.mpr
        refine ⟨mem_valuesOf.mpr (mem_of_mem_collect hcomparable hentry), ?_⟩
        intro w hw
        obtain ⟨w', hle, hmem'⟩ := exists_le_collect hcomparable (mem_valuesOf.mp hw)
        have hfound : (a, w') ∈ (collect lt calls).filter fun e => e.1 = a :=
          List.mem_filter.mpr ⟨hmem', by simp⟩
        rw [hl] at hfound
        rwa [← List.mem_singleton.mp hfound]
      rw [hmin]
      simp [← hkey]

end Value

section Unchanged

variable {lt : κ → κ → Bool} {k : κ} {v : β} {m m' m'' calls : List (κ × β)}

/-- A call changes nothing exactly if it finds a value that is low enough. -/
theorem lower_eq_self_iff : lower lt k v m = m ↔ ∃ w, w ≤ v ∧ find? lt k m = some w := by
  induction m with
  | nil => simp [lower, find?]
  | cons e m ih =>
      by_cases hbefore : lt e.1 k = true
      · simp [lower, find?, hbefore, ih]
      · by_cases hafter : lt k e.1 = true
        · simp [lower, find?, hbefore, hafter]
        · simp [lower, find?, hbefore, hafter, Prod.ext_iff]

/-- The same keys, with values that are not higher. -/
def Under (m' m : List (κ × β)) : Prop :=
  List.Forall₂ (fun e' e => e'.1 = e.1 ∧ e'.2 ≤ e.2) m' m

theorem under_refl (m : List (κ × β)) : Under m m :=
  List.forall₂_same.mpr fun _ _ => ⟨rfl, le_refl _⟩

theorem Under.trans (h : Under m'' m') (h' : Under m' m) : Under m'' m := by
  induction h generalizing m with
  | nil => exact h'
  | cons he _ ih =>
      cases h' with
      | cons he' hrest => exact .cons ⟨he.1.trans he'.1, he.2.trans he'.2⟩ (ih hrest)

theorem Under.antisymm (h : Under m' m) (h' : Under m m') : m' = m := by
  induction h with
  | nil => rfl
  | cons he _ ih =>
      cases h' with
      | cons he' hrest => rw [ih hrest, Prod.ext he.1 (le_antisymm he.2 he'.2)]

theorem under_lower (lt : κ → κ → Bool) (k : κ) (v : β) (m : List (κ × β)) :
    m.length < (lower lt k v m).length ∨ Under (lower lt k v m) m := by
  induction m with
  | nil => exact .inl (Nat.lt_succ_self 0)
  | cons e m ih =>
      simp only [lower]
      split
      · cases ih with
        | inl ih => exact .inl (Nat.succ_lt_succ ih)
        | inr ih => exact .inr (.cons ⟨rfl, le_refl _⟩ ih)
      · split
        · exact .inl (Nat.lt_succ_self _)
        · exact .inr (.cons ⟨rfl, min_le_left _ _⟩ (under_refl m))

theorem under_foldl (lt : κ → κ → Bool) (calls m : List (κ × β)) :
    m.length < (calls.foldl (fun m c => lower lt c.1 c.2 m) m).length ∨
      Under (calls.foldl (fun m c => lower lt c.1 c.2 m) m) m := by
  induction calls generalizing m with
  | nil => exact .inr (under_refl m)
  | cons c calls ih =>
      rw [List.foldl_cons]
      cases under_lower lt c.1 c.2 m with
      | inl hfirst =>
          cases ih (lower lt c.1 c.2 m) with
          | inl hrest => exact .inl (hfirst.trans hrest)
          | inr hrest => exact .inl (hrest.length_eq ▸ hfirst)
      | inr hfirst =>
          cases ih (lower lt c.1 c.2 m) with
          | inl hrest => exact .inl (hfirst.length_eq ▸ hrest)
          | inr hrest => exact .inr (hrest.trans hfirst)

/-- Calls leave the map as it is only if each of them does: none can undo another. -/
theorem foldl_lower_eq_self_iff :
    calls.foldl (fun m c => lower lt c.1 c.2 m) m = m ↔
      ∀ c ∈ calls, ∃ w, w ≤ c.2 ∧ find? lt c.1 m = some w := by
  simp only [← lower_eq_self_iff]
  induction calls with
  | nil => exact ⟨fun _ => nofun, fun _ => rfl⟩
  | cons c calls ih =>
      rw [List.forall_mem_cons, List.foldl_cons]
      constructor
      · intro h
        have hfirst : lower lt c.1 c.2 m = m := by
          have hrest := under_foldl lt calls (lower lt c.1 c.2 m)
          rw [h] at hrest
          cases under_lower lt c.1 c.2 m with
          | inl hlonger =>
              cases hrest with
              | inl hrest => exact absurd (hlonger.trans hrest) (lt_irrefl _)
              | inr hrest => exact absurd hrest.length_eq (ne_of_lt hlonger)
          | inr hunder =>
              cases hrest with
              | inl hrest => exact absurd hunder.length_eq (ne_of_lt hrest)
              | inr hrest => exact hunder.antisymm hrest
        rw [hfirst] at h
        exact ⟨hfirst, ih.mp h⟩
      · intro h
        rw [h.1]
        exact ih.mpr h.2

theorem collect_append_eq_iff {more : List (κ × β)} :
    collect lt (calls ++ more) = collect lt calls ↔
      ∀ c ∈ more, ∃ w, w ≤ c.2 ∧ find? lt c.1 (collect lt calls) = some w := by
  rw [collect, List.foldl_append]
  exact foldl_lower_eq_self_iff

end Unchanged
end ChainMap
