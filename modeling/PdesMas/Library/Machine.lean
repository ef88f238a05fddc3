import Mathlib.Data.Option.Basic

/-!
Machines that answer one event at a time with a new state and an output, or
refuse it. Properties of whole runs come from three rules: an invariant kept by
every step, an invariant kept by the steps that meet a condition, and two
machines that answer in lockstep while a relation holds between them.
-/

universe u v w x

structure Machine (σ : Type u) (ε : Type v) (ω : Type w) where
  step : σ → ε → Option (σ × ω)

namespace Machine

variable {σ : Type u} {τ : Type x} {ε : Type v} {ω : Type w}

def run (M : Machine σ ε ω) : σ → List ε → Option (σ × List ω)
  | s, [] => some (s, [])
  | s, e :: es =>
      match M.step s e with
      | none => none
      | some (s', o) =>
          match run M s' es with
          | none => none
          | some (s'', os) => some (s'', o :: os)

@[simp] theorem run_nil (M : Machine σ ε ω) (s : σ) : M.run s [] = some (s, []) := rfl

theorem run_cons_iff (M : Machine σ ε ω) {s s' : σ} {e : ε} {es : List ε} {os : List ω} :
    M.run s (e :: es) = some (s', os) ↔
      ∃ s₁ o os', M.step s e = some (s₁, o) ∧ M.run s₁ es = some (s', os') ∧
        os = o :: os' := by
  constructor
  · intro h
    simp only [run] at h
    split at h
    · cases h
    · rename_i s₁ o hs
      split at h
      · cases h
      · rename_i s₂ os' hr
        cases h
        exact ⟨s₁, o, os', hs, hr, rfl⟩
  · rintro ⟨s₁, o, os', hs, hr, rfl⟩
    simp [run, hs, hr]

theorem run_append_iff (M : Machine σ ε ω) {s s' : σ} {es fs : List ε} {os : List ω} :
    M.run s (es ++ fs) = some (s', os) ↔
      ∃ s₁ os₁ os₂, M.run s es = some (s₁, os₁) ∧ M.run s₁ fs = some (s', os₂) ∧
        os = os₁ ++ os₂ := by
  induction es generalizing s os with
  | nil =>
      constructor
      · exact fun h => ⟨s, [], os, rfl, h, rfl⟩
      · rintro ⟨s₁, os₁, os₂, h₁, h₂, rfl⟩
        obtain ⟨rfl, rfl⟩ : s = s₁ ∧ [] = os₁ := by simpa using h₁
        exact h₂
  | cons e es ih =>
      simp only [List.cons_append, run_cons_iff, ih]
      constructor
      · rintro ⟨s₁, o, _, hs, ⟨s₂, os₁, os₂, h₁, h₂, rfl⟩, rfl⟩
        exact ⟨s₂, o :: os₁, os₂, ⟨s₁, o, os₁, hs, h₁, rfl⟩, h₂, rfl⟩
      · rintro ⟨s₂, _, os₂, ⟨s₁, o, os₁, hs, h₁, rfl⟩, h₂, rfl⟩
        exact ⟨s₁, o, os₁ ++ os₂, hs, ⟨s₂, os₁, os₂, h₁, h₂, rfl⟩, rfl⟩

theorem run_length (M : Machine σ ε ω) {s s' : σ} {es : List ε} {os : List ω}
    (h : M.run s es = some (s', os)) : os.length = es.length := by
  induction es generalizing s os with
  | nil =>
      obtain ⟨_, rfl⟩ : s = s' ∧ [] = os := by simpa using h
      rfl
  | cons e es ih =>
      obtain ⟨s₁, o, os', _, hr, rfl⟩ := M.run_cons_iff.mp h
      simp [ih hr]

/-- Every event of the run meets the condition in the state it arrives in. -/
def Meets (M : Machine σ ε ω) (allowed : σ → ε → Prop) : σ → List ε → Prop
  | _, [] => True
  | s, e :: es =>
      allowed s e ∧
        match M.step s e with
        | none => True
        | some (s', _) => Meets M allowed s' es

instance decidableMeets (M : Machine σ ε ω) (allowed : σ → ε → Prop)
    [∀ s e, Decidable (allowed s e)] : ∀ s es, Decidable (M.Meets allowed s es)
  | _, [] => inferInstanceAs (Decidable True)
  | s, e :: es =>
      match h : M.step s e with
      | none => decidable_of_iff (allowed s e) (by simp [Meets, h])
      | some (s', _) =>
          have := decidableMeets M allowed s' es
          decidable_of_iff (allowed s e ∧ M.Meets allowed s' es) (by simp [Meets, h])

theorem meets_cons (M : Machine σ ε ω) (allowed : σ → ε → Prop) {s s' : σ} {e : ε}
    {es : List ε} {o : ω} (hs : M.step s e = some (s', o)) :
    M.Meets allowed s (e :: es) ↔ allowed s e ∧ M.Meets allowed s' es := by
  simp [Meets, hs]

theorem Meets.and {M : Machine σ ε ω} {p q : σ → ε → Prop} {s : σ} {es : List ε}
    (hp : M.Meets p s es) (hq : M.Meets q s es) : M.Meets (fun s e => p s e ∧ q s e) s es := by
  induction es generalizing s with
  | nil => trivial
  | cons e es ih =>
      refine ⟨⟨hp.1, hq.1⟩, ?_⟩
      cases hs : M.step s e with
      | none => trivial
      | some r =>
          exact ih ((M.meets_cons p hs).mp hp).2 ((M.meets_cons q hs).mp hq).2

theorem meets_true (M : Machine σ ε ω) (s : σ) (es : List ε) :
    M.Meets (fun _ _ => True) s es := by
  induction es generalizing s with
  | nil => trivial
  | cons e es ih =>
      refine ⟨trivial, ?_⟩
      cases M.step s e with
      | none => trivial
      | some r => exact ih r.1

theorem meets_of_forall (M : Machine σ ε ω) {allowed : σ → ε → Prop} {s : σ} {es : List ε}
    (h : ∀ e ∈ es, ∀ s, allowed s e) : M.Meets allowed s es := by
  induction es generalizing s with
  | nil => trivial
  | cons e es ih =>
      refine ⟨h e List.mem_cons_self s, ?_⟩
      cases M.step s e with
      | none => trivial
      | some r => exact ih fun e' he' => h e' (List.mem_cons_of_mem _ he')

theorem invariant_of_meets (M : Machine σ ε ω) (allowed : σ → ε → Prop) (I : σ → Prop)
    (hstep : ∀ s e s' o, I s → allowed s e → M.step s e = some (s', o) → I s') :
    ∀ es s s' os, I s → M.Meets allowed s es → M.run s es = some (s', os) → I s' := by
  intro es
  induction es with
  | nil =>
      intro s s' os hI _ hrun
      obtain ⟨rfl, rfl⟩ : s = s' ∧ [] = os := by simpa using hrun
      exact hI
  | cons e es ih =>
      intro s s' os hI hm hrun
      obtain ⟨s₁, o, os', hs, hr, rfl⟩ := M.run_cons_iff.mp hrun
      obtain ⟨ha, hm'⟩ := (M.meets_cons allowed hs).mp hm
      exact ih s₁ s' os' (hstep s e s₁ o hI ha hs) hm' hr

theorem invariant (M : Machine σ ε ω) (I : σ → Prop)
    (hstep : ∀ s e s' o, I s → M.step s e = some (s', o) → I s') :
    ∀ es s s' os, I s → M.run s es = some (s', os) → I s' := by
  intro es
  induction es with
  | nil =>
      intro s s' os hI hrun
      obtain ⟨rfl, rfl⟩ : s = s' ∧ [] = os := by simpa using hrun
      exact hI
  | cons e es ih =>
      intro s s' os hI hrun
      obtain ⟨s₁, o, os', hs, hr, rfl⟩ := M.run_cons_iff.mp hrun
      exact ih s₁ s' os' (hstep s e s₁ o hI hs) hr

theorem exists_run (M : Machine σ ε ω) (hstep : ∀ s e, ∃ r, M.step s e = some r) (s : σ)
    (es : List ε) : ∃ s' os, M.run s es = some (s', os) := by
  induction es generalizing s with
  | nil => exact ⟨s, [], rfl⟩
  | cons e es ih =>
      obtain ⟨⟨s₁, o⟩, hs⟩ := hstep s e
      obtain ⟨s', os, hr⟩ := ih s₁
      exact ⟨s', o :: os, M.run_cons_iff.mpr ⟨s₁, o, os, hs, hr, rfl⟩⟩

/-- The run up to an output, the step that gives it, and the rest. -/
theorem run_split (M : Machine σ ε ω) {s s' : σ} {es : List ε} {os os' : List ω} {o : ω}
    (h : M.run s es = some (s', os ++ o :: os')) :
    ∃ es₁ e es₂ s₁ s₂, es = es₁ ++ e :: es₂ ∧ M.run s es₁ = some (s₁, os) ∧
      M.step s₁ e = some (s₂, o) ∧ M.run s₂ es₂ = some (s', os') := by
  induction os generalizing s es with
  | nil =>
      cases es with
      | nil => simp at h
      | cons e es =>
          obtain ⟨s₁, o', os₁, hs, hr, heq⟩ := M.run_cons_iff.mp h
          obtain ⟨rfl, rfl⟩ := List.cons.inj heq
          exact ⟨[], e, es, s, s₁, rfl, rfl, hs, hr⟩
  | cons o' os ih =>
      cases es with
      | nil => simp at h
      | cons e es =>
          obtain ⟨s₁, o'', os₁, hs, hr, heq⟩ := M.run_cons_iff.mp h
          obtain ⟨rfl, rfl⟩ := List.cons.inj heq
          obtain ⟨es₁, e', es₂, s₂, s₃, rfl, hrun, hstep, hrest⟩ := ih hr
          exact ⟨e :: es₁, e', es₂, s₂, s₃, rfl,
            M.run_cons_iff.mpr ⟨s₁, o', os, hs, hrun, rfl⟩, hstep, hrest⟩

/-- An invariant kept by the steps that meet a condition, in a run whose outputs all
have a property. -/
theorem invariant_of_outputs (M : Machine σ ε ω) (allowed : σ → ε → Prop) (P : ω → Prop)
    (I : σ → Prop)
    (hstep : ∀ s e s' o, I s → allowed s e → P o → M.step s e = some (s', o) → I s')
    {es : List ε} {s s' : σ} {os : List ω} (hI : I s) (hm : M.Meets allowed s es)
    (hrun : M.run s es = some (s', os)) (hP : ∀ o ∈ os, P o) : I s' := by
  induction es generalizing s os with
  | nil =>
      obtain ⟨rfl, rfl⟩ : s = s' ∧ [] = os := by simpa using hrun
      exact hI
  | cons e es ih =>
      obtain ⟨s₁, o, os', hs, hr, rfl⟩ := M.run_cons_iff.mp hrun
      obtain ⟨ha, hm'⟩ := (M.meets_cons allowed hs).mp hm
      have ho := hP o List.mem_cons_self
      exact ih (hstep s e s₁ o hI ha ho hs) hm' hr fun o' ho' =>
        hP o' (List.mem_cons_of_mem _ ho')

theorem meets_append (M : Machine σ ε ω) (allowed : σ → ε → Prop) {s s' : σ}
    {es fs : List ε} {os : List ω} (hrun : M.run s es = some (s', os)) :
    M.Meets allowed s (es ++ fs) ↔ M.Meets allowed s es ∧ M.Meets allowed s' fs := by
  induction es generalizing s os with
  | nil =>
      obtain ⟨rfl, rfl⟩ : s = s' ∧ [] = os := by simpa using hrun
      simp [Meets]
  | cons e es ih =>
      obtain ⟨s₁, o, os', hs, hr, rfl⟩ := M.run_cons_iff.mp hrun
      rw [List.cons_append, M.meets_cons allowed hs, M.meets_cons allowed hs, ih hr, and_assoc]

/-- A property of every state the run passes through, the first one included. -/
def Throughout (M : Machine σ ε ω) (P : σ → Prop) : σ → List ε → Prop
  | s, [] => P s
  | s, e :: es =>
      P s ∧
        match M.step s e with
        | none => True
        | some (s', _) => Throughout M P s' es

theorem throughout_cons (M : Machine σ ε ω) (P : σ → Prop) {s s' : σ} {e : ε} {es : List ε}
    {o : ω} (hs : M.step s e = some (s', o)) :
    M.Throughout P s (e :: es) ↔ P s ∧ M.Throughout P s' es := by
  simp [Throughout, hs]

/-- An invariant that gives the property gives it all along the run. -/
theorem throughout_of_meets (M : Machine σ ε ω) (allowed : σ → ε → Prop) (I P : σ → Prop)
    (hP : ∀ s, I s → P s)
    (hstep : ∀ s e s' o, I s → allowed s e → M.step s e = some (s', o) → I s') :
    ∀ es s, I s → M.Meets allowed s es → M.Throughout P s es := by
  intro es
  induction es with
  | nil => exact fun s hI _ => hP s hI
  | cons e es ih =>
      intro s hI hm
      refine ⟨hP s hI, ?_⟩
      cases hs : M.step s e with
      | none => trivial
      | some r =>
          obtain ⟨ha, hm'⟩ := (M.meets_cons allowed hs).mp hm
          exact ih r.1 (hstep s e r.1 r.2 hI ha hs) hm'

/-- If a step keeps the property exactly when it meets a condition, then so does a run. -/
theorem throughout_iff (M : Machine σ ε ω) (allowed condition : σ → ε → Prop)
    (I P : σ → Prop)
    (hinv : ∀ s e s' o, I s → allowed s e → M.step s e = some (s', o) → I s')
    (hstep : ∀ s e s' o, I s → P s → allowed s e → M.step s e = some (s', o) →
      (P s' ↔ condition s e)) :
    ∀ es s s' os, I s → M.Meets allowed s es → M.run s es = some (s', os) →
      (M.Throughout P s es ↔ P s ∧ M.Meets condition s es) := by
  intro es
  induction es with
  | nil =>
      intro s s' os _ _ _
      simp [Throughout, Meets]
  | cons e es ih =>
      intro s s' os hI hm hrun
      obtain ⟨s₁, o, os', hs, hr, _⟩ := M.run_cons_iff.mp hrun
      obtain ⟨ha, hm'⟩ := (M.meets_cons allowed hs).mp hm
      have hrest := ih s₁ s' os' (hinv s e s₁ o hI ha hs) hm' hr
      rw [M.throughout_cons P hs, M.meets_cons condition hs, hrest]
      constructor
      · intro h
        exact ⟨h.1, (hstep s e s₁ o hI h.1 ha hs).mp h.2.1, h.2.2⟩
      · intro h
        exact ⟨h.1, (hstep s e s₁ o hI h.1 ha hs).mpr h.2.1, h.2.2⟩

/-- The states of every run of allowed steps from an initial state. -/
inductive Reachable (M : Machine σ ε ω) (initial : σ → Prop) (allowed : σ → ε → Prop) :
    σ → Prop
  | start {s} : initial s → Reachable M initial allowed s
  | step {s e s' o} : Reachable M initial allowed s → allowed s e →
      M.step s e = some (s', o) → Reachable M initial allowed s'

theorem Reachable.invariant {M : Machine σ ε ω} {initial : σ → Prop}
    {allowed : σ → ε → Prop} {s : σ} (h : M.Reachable initial allowed s) (I : σ → Prop)
    (hstart : ∀ s, initial s → I s)
    (hstep : ∀ s e s' o, I s → allowed s e → M.step s e = some (s', o) → I s') : I s := by
  induction h with
  | start h => exact hstart _ h
  | step _ ha hs ih => exact hstep _ _ _ _ ih ha hs

theorem Reachable.run {M : Machine σ ε ω} {initial : σ → Prop} {allowed : σ → ε → Prop}
    {s s' : σ} {es : List ε} {os : List ω} (h : M.Reachable initial allowed s)
    (hm : M.Meets allowed s es) (hrun : M.run s es = some (s', os)) :
    M.Reachable initial allowed s' := by
  induction es generalizing s os with
  | nil =>
      obtain ⟨rfl, _⟩ : s = s' ∧ [] = os := by simpa using hrun
      exact h
  | cons e es ih =>
      obtain ⟨s₁, o, os', hs, hr, rfl⟩ := M.run_cons_iff.mp hrun
      obtain ⟨ha, hm'⟩ := (M.meets_cons allowed hs).mp hm
      exact ih (h.step ha hs) hm' hr

/-- Both machines refuse, or both answer with the same output and related states. -/
def Agree (R : σ → τ → Prop) : Option (σ × ω) → Option (τ × ω) → Prop :=
  Option.Rel fun a b => R a.1 b.1 ∧ a.2 = b.2

/-- The two runs, taken side by side, meet a condition on both states at every event. -/
def MeetBoth (M : Machine σ ε ω) (N : Machine τ ε ω) (allowed : σ → τ → ε → Prop) :
    σ → τ → List ε → Prop
  | _, _, [] => True
  | s, t, e :: es =>
      allowed s t e ∧
        match M.step s e, N.step t e with
        | some (s', _), some (t', _) => MeetBoth M N allowed s' t' es
        | _, _ => True

instance decidableMeetBoth (M : Machine σ ε ω) (N : Machine τ ε ω)
    (allowed : σ → τ → ε → Prop) [∀ s t e, Decidable (allowed s t e)] :
    ∀ s t es, Decidable (M.MeetBoth N allowed s t es)
  | _, _, [] => inferInstanceAs (Decidable True)
  | s, t, e :: es =>
      match hs : M.step s e, ht : N.step t e with
      | some (s', _), some (t', _) =>
          have := decidableMeetBoth M N allowed s' t' es
          decidable_of_iff (allowed s t e ∧ M.MeetBoth N allowed s' t' es)
            (by simp [MeetBoth, hs, ht])
      | none, _ => decidable_of_iff (allowed s t e) (by simp [MeetBoth, hs])
      | some _, none => decidable_of_iff (allowed s t e) (by simp [MeetBoth, hs, ht])

theorem MeetBoth.and_events {M : Machine σ ε ω} {N : Machine τ ε ω}
    {allowed : σ → τ → ε → Prop} {P : ε → Prop} {s : σ} {t : τ} {es : List ε}
    (h : M.MeetBoth N allowed s t es) (hP : ∀ e ∈ es, P e) :
    M.MeetBoth N (fun s t e => P e ∧ allowed s t e) s t es := by
  induction es generalizing s t with
  | nil => trivial
  | cons e es ih =>
      refine ⟨⟨hP e (by simp), h.1⟩, ?_⟩
      have htail := h.2
      cases hs : M.step s e with
      | none => trivial
      | some r =>
          cases ht : N.step t e with
          | none => trivial
          | some q =>
              rw [hs, ht] at htail
              exact ih htail fun e he => hP e (by simp [he])

theorem Agree.outputs {R : σ → τ → Prop} {a : Option (σ × ω)} {b : Option (τ × ω)}
    (h : Agree R a b) : a.map Prod.snd = b.map Prod.snd := by
  cases h with
  | some h => simp [h.2]
  | none => rfl

theorem lockstep (M : Machine σ ε ω) (N : Machine τ ε ω) (R : σ → τ → Prop)
    (allowed : σ → τ → ε → Prop)
    (hstep : ∀ s t e, R s t → allowed s t e → Agree R (M.step s e) (N.step t e)) :
    ∀ es s t, R s t → M.MeetBoth N allowed s t es →
      Agree R (M.run s es) (N.run t es) := by
  intro es
  induction es with
  | nil => intro s t hR _; exact .some ⟨hR, rfl⟩
  | cons e es ih =>
      intro s t hR hm
      have hagree := hstep s t e hR hm.1
      generalize hs : M.step s e = a at hagree
      generalize ht : N.step t e = b at hagree
      cases hagree with
      | none => simp [run, hs, ht, Agree]
      | @some r q h =>
          obtain ⟨hR', ho⟩ := h
          have hm' : M.MeetBoth N allowed r.1 q.1 es := by
            simpa [MeetBoth, hs, ht] using hm.2
          have hrest := ih r.1 q.1 hR' hm'
          generalize hrs : M.run r.1 es = a at hrest
          generalize hrt : N.run q.1 es = b at hrest
          cases hrest with
          | none => simp [run, hs, ht, hrs, hrt, Agree]
          | some h =>
              simp only [run, hs, ht, hrs, hrt]
              exact .some ⟨h.1, by rw [ho, h.2]⟩

end Machine
