import Mathlib.Order.UpperLower.Closure

/-!
Sites that hold times and exchange messages with a time. A sweep visits the
sites one after the other and keeps an upper set in which every time at a
visited site lies, and the time of every message on the way that counts for the
sweep. Nothing that a site makes of the times it holds or receives leaves an
upper set; so what there is to check is that the messages that do not count
never reach a site that was visited.
-/

universe u v w

structure Sites (ι : Type u) (τ : Type v) (μ : Type w) where
  times : ι → Set τ
  flight : ι → ι → Set μ

namespace Sites

variable {ι : Type u} {τ : Type v} {μ : Type w} {time : μ → τ}
variable {s s' : Sites ι τ μ} {swept : Set ι} {counts : Set μ} {U U' : Set τ}

structure Within (time : μ → τ) (swept : Set ι) (counts : Set μ) (U : Set τ)
    (s : Sites ι τ μ) : Prop where
  site : ∀ i ∈ swept, s.times i ⊆ U
  message : ∀ i j, ∀ m ∈ s.flight i j, m ∈ counts → time m ∈ U

theorem Within.widen (h : Within time swept counts U s) (hU : U ⊆ U') :
    Within time swept counts U' s where
  site i hi := (h.site i hi).trans hU
  message i j m hm hc := hU (h.message i j m hm hc)

/-- The sweep goes on to the site `j`. -/
theorem Within.visit (h : Within time swept counts U s) {swept' : Set ι} {j : ι}
    (hswept : swept' ⊆ insert j swept) (hj : s.times j ⊆ U) :
    Within time swept' counts U s where
  site i hi :=
    match hswept hi with
    | .inl hij => hij ▸ hj
    | .inr hi => h.site i hi
  message := h.message

variable [Preorder τ]

/-- Sites go on from the times they hold, and messages are sent. -/
theorem Within.advance (h : Within time swept counts U s) (hU : IsUpperSet U)
    (htimes : ∀ i ∈ swept, s'.times i ⊆ upperClosure (s.times i))
    (hflight : ∀ i j, ∀ m ∈ s'.flight i j, m ∈ s.flight i j ∨ (m ∈ counts → time m ∈ U)) :
    Within time swept counts U s' where
  site i hi := (htimes i hi).trans (upperClosure_min (h.site i hi) hU)
  message i j m hm hc :=
    match hflight i j m hm with
    | .inl hm => h.message i j m hm hc
    | .inr hm => hm hc

/-- A site takes a message; a visited site takes only messages that count. -/
theorem Within.receive (h : Within time swept counts U s) (hU : IsUpperSet U) {i j : ι} {m : μ}
    (hm : m ∈ s.flight i j)
    (hj : j ∈ swept → m ∈ counts ∧ s'.times j ⊆ upperClosure (insert (time m) (s.times j)))
    (hframe : ∀ k, k ≠ j → s'.times k = s.times k)
    (hflight : ∀ i j, s'.flight i j ⊆ s.flight i j) : Within time swept counts U s' where
  site k hk := by
    by_cases hkj : k = j
    · subst hkj
      obtain ⟨hc, htimes⟩ := hj hk
      refine htimes.trans (upperClosure_min ?_ hU)
      exact Set.insert_subset (h.message i k m hm hc) (h.site k hk)
    · rw [hframe k hkj]
      exact h.site k hk
  message i j m hm := h.message i j m (hflight i j hm)

end Sites
