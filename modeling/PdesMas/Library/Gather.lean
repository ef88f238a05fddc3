import Mathlib.Data.List.Nodup
import Mathlib.Logic.Function.Basic

/-!
Gathering on a tree. A question goes from a root to all whom a plan has it handed
on to. A vertex that is asked notes itself, hands the question on, and answers
when all whom it asked have answered, with what they have noted behind its own
note. In whatever order questions and answers come, the answer of the root notes
every vertex below it once.
-/

universe u

/-- Who hands the question on to whom. -/
structure Plan (α : Type u) where
  root : α
  forward : α → List α
  parent : α → α
  weight : α → Nat
  nodup : ∀ c, (forward c).Nodup
  parent_of_mem : ∀ {c d}, d ∈ forward c → parent d = c
  weight_lt : ∀ {c d}, d ∈ forward c → weight d < weight c
  root_not_mem : ∀ c, root ∉ forward c

namespace Plan

variable {α : Type u} (P : Plan α)

/-- The question comes to `x` by way of `c`. -/
inductive Below (c : α) : α → Prop
  | self : Below c c
  | step {x d} : Below c x → d ∈ P.forward x → Below c d

variable {P}

theorem Below.weight_le {c x : α} (h : P.Below c x) : P.weight x ≤ P.weight c := by
  induction h with
  | self => exact Nat.le_refl _
  | step _ hd ih => exact Nat.le_trans (Nat.le_of_lt (P.weight_lt hd)) ih

theorem ne_of_mem_forward {c d : α} (hd : d ∈ P.forward c) : d ≠ c :=
  fun heq => Nat.lt_irrefl _ (heq ▸ P.weight_lt hd)

theorem Below.head {c d x : α} (hd : d ∈ P.forward c) (h : P.Below d x) : P.Below c x := by
  induction h with
  | self => exact .step .self hd
  | step _ hy ih => exact .step ih hy

theorem below_iff {c x : α} : P.Below c x ↔ x = c ∨ ∃ d ∈ P.forward c, P.Below d x := by
  constructor
  · intro h
    induction h with
    | self => exact .inl rfl
    | @step y d _ hd ih =>
        right
        cases ih with
        | inl heq => exact ⟨d, heq ▸ hd, .self⟩
        | inr hex =>
            obtain ⟨e, he, hey⟩ := hex
            exact ⟨e, he, .step hey hd⟩
  · intro h
    cases h with
    | inl heq => exact heq ▸ .self
    | inr hex =>
        obtain ⟨d, hd, hdx⟩ := hex
        exact .head hd hdx

/-- Of two vertices above one, one is above the other. -/
theorem Below.linear {c d x : α} (hc : P.Below c x) (hd : P.Below d x) :
    P.Below c d ∨ P.Below d c := by
  induction hc with
  | self => exact .inr hd
  | @step y e hcy he ih =>
      cases hd with
      | self => exact .inl (.step hcy he)
      | step hdz he' =>
          have heq := (P.parent_of_mem he').symm.trans (P.parent_of_mem he)
          exact ih (heq ▸ hdz)

theorem not_below_child {c d : α} (hd : d ∈ P.forward c) : ¬ P.Below d c :=
  fun h => Nat.not_lt_of_le h.weight_le (P.weight_lt hd)

/-- What lies below two vertices that one vertex asks does not meet. -/
theorem eq_of_below_both {c d e x : α} (hd : d ∈ P.forward c) (he : e ∈ P.forward c)
    (hdx : P.Below d x) (hex : P.Below e x) : d = e := by
  have hapart : ∀ {a b}, a ∈ P.forward c → b ∈ P.forward c → P.Below a b → a = b := by
    intro a b ha hb hab
    cases hab with
    | self => rfl
    | step hay hby =>
        have heq := (P.parent_of_mem hby).symm.trans (P.parent_of_mem hb)
        exact absurd (heq ▸ hay) (not_below_child ha)
  cases hdx.linear hex with
  | inl h => exact hapart hd he h
  | inr h => exact (hapart he hd h).symm

/-- How far a vertex has got, with whom it waits for and what it has noted. -/
inductive Phase (α : Type u) where
  | idle
  | asked
  | waiting (pending noted : List α)
  | answered (noted : List α)
  | done (noted : List α)
deriving DecidableEq

namespace Phase

/-- Between the question to a vertex and the receipt of its answer. -/
def Active : Phase α → Prop
  | .asked | .waiting _ _ | .answered _ => True
  | .idle | .done _ => False

def level : Phase α → Nat
  | .idle => 0
  | .asked => 1
  | .waiting _ _ => 2
  | .answered _ => 3
  | .done _ => 4

/-- The vertex answers, unless it waits for somebody. -/
def settle (pending noted : List α) : Phase α :=
  match pending with
  | [] => .answered noted
  | _ :: _ => .waiting pending noted

theorem active_settle (pending noted : List α) : (settle pending noted).Active := by
  cases pending <;> trivial

theorem level_settle (pending noted : List α) : 2 ≤ (settle pending noted).level := by
  cases pending <;> simp [settle, level]

/-- What the phase of a vertex says of that of `d`, whom it hands the question on to. -/
def Fits (p : Phase α) (d : α) (q : Phase α) : Prop :=
  match p with
  | .idle | .asked => q = .idle
  | .waiting pending _ => (d ∈ pending → q.Active) ∧ (d ∉ pending → ∃ noted, q = .done noted)
  | .answered _ | .done _ => ∃ noted, q = .done noted

/-- Whoever is active is waited for. -/
theorem Fits.waiting {p q : Phase α} {d : α} (h : p.Fits d q) (hq : q.Active) :
    ∃ pending noted, p = .waiting pending noted ∧ d ∈ pending := by
  cases p with
  | idle | asked =>
      rw [h] at hq
      cases hq
  | waiting pending noted =>
      refine ⟨pending, noted, rfl, ?_⟩
      by_contra hd
      obtain ⟨_, rfl⟩ := h.2 hd
      cases hq
  | answered | done =>
      obtain ⟨_, rfl⟩ := h
      cases hq

theorem Fits.active {p q q' : Phase α} {d : α} (h : p.Fits d q) (hq : q.Active)
    (hq' : q'.Active) : p.Fits d q' := by
  obtain ⟨pending, noted, rfl, hd⟩ := h.waiting hq
  exact ⟨fun _ => hq', fun hn => absurd hd hn⟩

end Phase

variable (P)

/-- The notes of a vertex that still waits for `pending`. -/
def Noted (c : α) (pending noted : List α) : Prop :=
  noted.Nodup ∧ ∀ x, x ∈ noted ↔ x = c ∨ ∃ d ∈ P.forward c, d ∉ pending ∧ P.Below d x

def PhaseSound (c : α) : Phase α → Prop
  | .idle | .asked => True
  | .waiting pending noted =>
      pending ≠ [] ∧ pending.Nodup ∧ (∀ d ∈ pending, d ∈ P.forward c) ∧ P.Noted c pending noted
  | .answered noted | .done noted => P.Noted c [] noted

abbrev Progress (α : Type u) := α → Phase α

structure Sound (s : Progress α) : Prop where
  below : ∀ c, s c ≠ .idle → P.Below P.root c
  child : ∀ c, ∀ d ∈ P.forward c, (s c).Fits d (s d)
  phase : ∀ c, P.PhaseSound c (s c)

variable {P}

theorem phaseSound_settle {c : α} {pending noted : List α} (hnodup : pending.Nodup)
    (hsub : ∀ d ∈ pending, d ∈ P.forward c) (hnoted : P.Noted c pending noted) :
    P.PhaseSound c (.settle pending noted) := by
  cases pending with
  | nil => exact hnoted
  | cons d rest => exact ⟨List.cons_ne_nil _ _, hnodup, hsub, hnoted⟩

/-- The answer of `d` is noted behind what is there. -/
theorem Noted.append [DecidableEq α] {c d : α} {pending noted answer : List α}
    (h : P.Noted c pending noted) (hd : d ∈ P.forward c) (hpending : d ∈ pending)
    (honce : pending.Nodup) (hanswer : P.Noted d [] answer) :
    P.Noted c (pending.erase d) (noted ++ answer) := by
  obtain ⟨hnodup, hmem⟩ := h
  obtain ⟨hnodup', hmem'⟩ := hanswer
  have hbelow : ∀ x, x ∈ answer ↔ P.Below d x := by
    intro x
    rw [hmem', below_iff]
    simp
  refine ⟨List.Nodup.append hnodup hnodup' ?_, fun x => ?_⟩
  · intro x hx hx'
    rw [hbelow] at hx'
    cases (hmem x).mp hx with
    | inl heq => exact not_below_child hd (heq ▸ hx')
    | inr hex =>
        obtain ⟨e, he, hout, hex⟩ := hex
        exact hout (eq_of_below_both hd he hx' hex ▸ hpending)
  · rw [List.mem_append, hmem, hbelow]
    constructor
    · intro hx
      rcases hx with (heq | ⟨e, he, hout, hex⟩) | hx
      · exact .inl heq
      · exact .inr ⟨e, he, fun hin => hout (List.mem_of_mem_erase hin), hex⟩
      · exact .inr ⟨d, hd, honce.not_mem_erase, hx⟩
    · intro hx
      rcases hx with heq | ⟨e, he, hout, hex⟩
      · exact .inl (.inl heq)
      · by_cases hed : e = d
        · exact .inr (hed ▸ hex)
        · exact .inl (.inr ⟨e, he, fun hin => hout ((List.mem_erase_of_ne hed).mpr hin), hex⟩)

/-- The question is on its way to the root, and nobody else knows of it. -/
def start [DecidableEq α] (P : Plan α) : Progress α := Function.update (fun _ => .idle) P.root .asked

theorem sound_start [DecidableEq α] (P : Plan α) : P.Sound P.start := by
  have hroot : P.start P.root = .asked := Function.update_self ..
  have hother : ∀ c, c ≠ P.root → P.start c = .idle := fun c hc => Function.update_of_ne hc ..
  refine ⟨fun c hc => ?_, fun c d hd => ?_, fun c => ?_⟩
  · by_cases hcr : c = P.root
    · exact hcr ▸ .self
    · exact absurd (hother c hcr) hc
  · have hd' : P.start d = .idle := hother d fun heq => P.root_not_mem c (heq ▸ hd)
    rw [hd']
    by_cases hcr : c = P.root
    · rw [hcr, hroot]
      rfl
    · rw [hother c hcr]
      rfl
  · by_cases hcr : c = P.root
    · rw [hcr, hroot]
      trivial
    · rw [hother c hcr]
      trivial

theorem Sound.idle {s : Progress α} (h : P.Sound s) {c d : α} (hc : s c = .asked)
    (hd : d ∈ P.forward c) : s d = .idle := by
  have hfits := h.child c d hd
  rw [hc] at hfits
  exact hfits

section Steps

variable [DecidableEq α] (P : Plan α)

/-- The question comes to `c`. -/
def receiveQuestion (s : Progress α) (c : α) : Progress α := fun x =>
  if x = c then .settle (P.forward c) [c] else if x ∈ P.forward c then .asked else s x

/-- The answer of `d` comes to whom it was asked by. -/
def receiveAnswer (s : Progress α) (d : α) (pending noted answer : List α) : Progress α := fun x =>
  if x = d then .done answer
  else if x = P.parent d then .settle (pending.erase d) (noted ++ answer)
  else s x

inductive Step : Progress α → Progress α → Prop
  | question {s} (c) (hc : s c = .asked) : Step s (P.receiveQuestion s c)
  | answer {s} (d pending noted answer) (hd : d ∈ P.forward (P.parent d))
      (hphase : s d = .answered answer) (hparent : s (P.parent d) = .waiting pending noted) :
      Step s (P.receiveAnswer s d pending noted answer)
  | result {s} (answer) (hroot : s P.root = .answered answer) :
      Step s (Function.update s P.root (.done answer))

variable {P}

@[simp] theorem receiveQuestion_self (s : Progress α) (c : α) :
    P.receiveQuestion s c c = .settle (P.forward c) [c] :=
  if_pos rfl

theorem receiveQuestion_child {s : Progress α} {c d : α} (hd : d ∈ P.forward c) :
    P.receiveQuestion s c d = .asked := by
  rw [receiveQuestion, if_neg (ne_of_mem_forward hd)]
  exact if_pos hd

theorem receiveQuestion_other {s : Progress α} {c x : α} (hx : x ≠ c) (hx' : x ∉ P.forward c) :
    P.receiveQuestion s c x = s x := by
  rw [receiveQuestion, if_neg hx]
  exact if_neg hx'

@[simp] theorem receiveAnswer_self (s : Progress α) (d : α) (pending noted answer : List α) :
    P.receiveAnswer s d pending noted answer d = .done answer :=
  if_pos rfl

theorem receiveAnswer_asker {s : Progress α} {c d : α} {pending noted answer : List α}
    (hd : d ∈ P.forward c) :
    P.receiveAnswer s d pending noted answer c =
      .settle (pending.erase d) (noted ++ answer) := by
  rw [receiveAnswer, if_neg (Ne.symm (ne_of_mem_forward hd))]
  exact if_pos (P.parent_of_mem hd).symm

theorem receiveAnswer_other {s : Progress α} {c d x : α} {pending noted answer : List α}
    (hd : d ∈ P.forward c) (hxd : x ≠ d) (hxc : x ≠ c) :
    P.receiveAnswer s d pending noted answer x = s x := by
  rw [receiveAnswer, if_neg hxd]
  exact if_neg fun heq => hxc (heq.trans (P.parent_of_mem hd))

/-- Nobody is asked by an answer. -/
theorem receiveAnswer_asked {s : Progress α} {c d : α} {pending noted answer : List α}
    (hd : d ∈ P.forward c) (hphase : s d = .answered answer)
    (hwaits : s c = .waiting pending noted) (x : α) :
    P.receiveAnswer s d pending noted answer x = .asked ↔ s x = .asked := by
  by_cases hxd : x = d
  · simp [hxd, hphase]
  · by_cases hxc : x = c
    · rw [hxc, receiveAnswer_asker hd, hwaits]
      cases pending.erase d <;> simp [Phase.settle]
    · rw [receiveAnswer_other hd hxd hxc]

theorem sound_question {s : Progress α} (h : P.Sound s) {c : α} (hc : s c = .asked) :
    P.Sound (P.receiveQuestion s c) := by
  have hself := P.receiveQuestion_self s c
  have hchild : ∀ d ∈ P.forward c, P.receiveQuestion s c d = .asked :=
    fun d hd => receiveQuestion_child hd
  have hother : ∀ x, x ≠ c → x ∉ P.forward c → P.receiveQuestion s c x = s x :=
    fun x hx hx' => receiveQuestion_other hx hx'
  have hreached : P.Below P.root c := h.below c (by simp [hc])
  have hidle : ∀ d ∈ P.forward c, s d = .idle := fun d hd => h.idle hc hd
  refine ⟨fun x hx => ?_, fun x y hy => ?_, fun x => ?_⟩
  · by_cases hxc : x = c
    · exact hxc ▸ hreached
    · by_cases hx' : x ∈ P.forward c
      · exact .step hreached hx'
      · exact h.below x (hother x hxc hx' ▸ hx)
  · by_cases hxc : x = c
    · subst hxc
      rw [hself, hchild y hy]
      cases hl : P.forward x with
      | nil => simp [hl] at hy
      | cons e rest => exact ⟨fun _ => trivial, fun hn => absurd (hl ▸ hy) hn⟩
    · have hy' : y ∉ P.forward c := fun hy' =>
        hxc ((P.parent_of_mem hy).symm.trans (P.parent_of_mem hy'))
      have hfits := h.child x y hy
      by_cases hx' : x ∈ P.forward c
      · rw [hchild x hx']
        have hyc : y ≠ c := by
          intro heq
          have h₁ := P.weight_lt hy
          have h₂ := P.weight_lt hx'
          rw [heq] at h₁
          omega
        rw [hother y hyc hy']
        rw [hidle x hx'] at hfits
        exact hfits
      · rw [hother x hxc hx']
        by_cases hyc : y = c
        · subst hyc
          rw [hself]
          rw [hc] at hfits
          exact hfits.active trivial (Phase.active_settle _ _)
        · rwa [hother y hyc hy']
  · by_cases hxc : x = c
    · subst hxc
      rw [hself]
      refine phaseSound_settle (P.nodup x) (fun _ hd => hd) ⟨List.nodup_singleton x, fun y => ?_⟩
      constructor
      · exact fun hy => .inl (List.mem_singleton.mp hy)
      · intro hy
        rcases hy with heq | ⟨d, hd, hout, _⟩
        · exact List.mem_singleton.mpr heq
        · exact absurd hd hout
    · by_cases hx' : x ∈ P.forward c
      · rw [hchild x hx']
        trivial
      · rw [hother x hxc hx']
        exact h.phase x

theorem sound_answer {s : Progress α} (h : P.Sound s) {d : α} {pending noted answer : List α}
    (hd : d ∈ P.forward (P.parent d)) (hphase : s d = .answered answer)
    (hparent : s (P.parent d) = .waiting pending noted) :
    P.Sound (P.receiveAnswer s d pending noted answer) := by
  have hne : P.parent d ≠ d := Ne.symm (ne_of_mem_forward hd)
  have hself := P.receiveAnswer_self s d pending noted answer
  have hasker : P.receiveAnswer s d pending noted answer (P.parent d) =
      .settle (pending.erase d) (noted ++ answer) :=
    receiveAnswer_asker hd
  have hother : ∀ x, x ≠ d → x ≠ P.parent d →
      P.receiveAnswer s d pending noted answer x = s x :=
    fun x hx hx' => receiveAnswer_other hd hx hx'
  have hfitsd := h.child _ d hd
  rw [hphase, hparent] at hfitsd
  have hpending : d ∈ pending := by
    by_contra hout
    obtain ⟨_, heq⟩ := hfitsd.2 hout
    cases heq
  have hwaits := h.phase (P.parent d)
  rw [hparent] at hwaits
  obtain ⟨_, honce, hsub, hnoted⟩ := hwaits
  have hanswer := h.phase d
  rw [hphase] at hanswer
  refine ⟨fun x hx => ?_, fun x y hy => ?_, fun x => ?_⟩
  · by_cases hxd : x = d
    · exact hxd ▸ h.below d (by simp [hphase])
    · by_cases hxp : x = P.parent d
      · exact hxp ▸ h.below _ (by simp [hparent])
      · exact h.below x (hother x hxd hxp ▸ hx)
  · have hfits := h.child x y hy
    by_cases hxd : x = d
    · subst hxd
      have hyx : y ≠ x := fun heq => Nat.lt_irrefl _ (heq ▸ P.weight_lt hy)
      have hyp : y ≠ P.parent x := by
        intro heq
        have h₁ := P.weight_lt hy
        have h₂ := P.weight_lt hd
        rw [heq] at h₁
        omega
      rw [hself, hother y hyx hyp]
      rw [hphase] at hfits
      exact hfits
    · by_cases hxp : x = P.parent d
      · subst hxp
        rw [hasker]
        rw [hparent] at hfits
        by_cases hyd : y = d
        · subst hyd
          rw [hself]
          cases hl : pending.erase y with
          | nil => exact ⟨_, rfl⟩
          | cons e rest =>
              exact ⟨fun hin => absurd (hl ▸ hin) honce.not_mem_erase, fun _ => ⟨_, rfl⟩⟩
        · have hyp : y ≠ P.parent d := fun heq => by
            have hlt := P.weight_lt hy
            rw [heq] at hlt
            exact Nat.lt_irrefl _ hlt
          rw [hother y hyd hyp]
          have hmem : y ∈ pending.erase d ↔ y ∈ pending := List.mem_erase_of_ne hyd
          cases hl : pending.erase d with
          | nil => exact hfits.2 fun hin => by simp [hl] at hmem; exact hmem hin
          | cons e rest =>
              rw [hl] at hmem
              exact ⟨fun hin => hfits.1 (hmem.mp hin), fun hout => hfits.2 (mt hmem.mpr hout)⟩
      · have hyd : y ≠ d := fun heq => hxp ((P.parent_of_mem hy).symm.trans (heq ▸ rfl))
        rw [hother x hxd hxp]
        by_cases hyp : y = P.parent d
        · subst hyp
          rw [hasker]
          rw [hparent] at hfits
          exact hfits.active trivial (Phase.active_settle _ _)
        · rwa [hother y hyd hyp]
  · by_cases hxd : x = d
    · subst hxd
      rw [hself]
      exact hanswer
    · by_cases hxp : x = P.parent d
      · subst hxp
        rw [hasker]
        exact phaseSound_settle (honce.erase d) (fun e he => hsub e (List.mem_of_mem_erase he))
          (hnoted.append hd hpending honce hanswer)
      · rw [hother x hxd hxp]
        exact h.phase x

theorem sound_result {s : Progress α} (h : P.Sound s) {answer : List α}
    (hroot : s P.root = .answered answer) :
    P.Sound (Function.update s P.root (.done answer)) := by
  have hself : Function.update s P.root (.done answer) P.root = .done answer :=
    Function.update_self ..
  have hother : ∀ x, x ≠ P.root → Function.update s P.root (.done answer) x = s x :=
    fun x hx => Function.update_of_ne hx ..
  refine ⟨fun x hx => ?_, fun x y hy => ?_, fun x => ?_⟩
  · by_cases hxr : x = P.root
    · exact hxr ▸ .self
    · exact h.below x (hother x hxr ▸ hx)
  · have hfits := h.child x y hy
    rw [hother y fun heq => P.root_not_mem x (heq ▸ hy)]
    by_cases hxr : x = P.root
    · subst hxr
      rw [hself]
      rw [hroot] at hfits
      exact hfits
    · rwa [hother x hxr]
  · have hphase := h.phase x
    by_cases hxr : x = P.root
    · subst hxr
      rw [hself]
      rw [hroot] at hphase
      exact hphase
    · rwa [hother x hxr]

theorem sound_step {s s' : Progress α} (hstep : P.Step s s') (h : P.Sound s) : P.Sound s' := by
  cases hstep with
  | question c hc => exact sound_question h hc
  | answer d pending noted answer hd hphase hparent => exact sound_answer h hd hphase hparent
  | result answer hroot => exact sound_result h hroot

/-- No vertex goes back, and one goes on. -/
theorem level_step {s s' : Progress α} (hstep : P.Step s s') (h : P.Sound s) :
    (∀ x, (s x).level ≤ (s' x).level) ∧ ∃ x, P.Below P.root x ∧ (s x).level < (s' x).level := by
  cases hstep with
  | question c hc =>
      have hself := Phase.level_settle (P.forward c) [c]
      refine ⟨fun x => ?_, c, h.below c (by simp [hc]), ?_⟩
      · simp only [receiveQuestion]
        split
        · rename_i hx
          rw [hx, hc]
          exact Nat.le_trans (by simp [Phase.level]) hself
        · split
          · rename_i hx
            rw [h.idle hc hx]
            simp [Phase.level]
          · exact Nat.le_refl _
      · simp only [receiveQuestion, if_pos, hc]
        exact Nat.lt_of_lt_of_le (by simp [Phase.level]) hself
  | answer d pending noted answer hd hphase hparent =>
      refine ⟨fun x => ?_, d, h.below d (by simp [hphase]), ?_⟩
      · simp only [receiveAnswer]
        split
        · rename_i hx
          rw [hx, hphase]
          simp [Phase.level]
        · split
          · rename_i hx
            rw [hx, hparent]
            exact Phase.level_settle _ _
          · exact Nat.le_refl _
      · simp [receiveAnswer, hphase, Phase.level]
  | result answer hroot =>
      refine ⟨fun x => ?_, P.root, .self, ?_⟩
      · by_cases hx : x = P.root
        · subst hx
          simp [hroot, Phase.level]
        · simp only [Function.update_of_ne hx, Nat.le_refl]
      · simp [hroot, Phase.level]

end Steps

/-- An answer finds its asker waiting for it. -/
theorem Sound.waiting_of_active {s : Progress α} (h : P.Sound s) {c d : α}
    (hd : d ∈ P.forward c) (hactive : (s d).Active) :
    ∃ pending noted, s c = .waiting pending noted ∧ d ∈ pending :=
  (h.child c d hd).waiting hactive

/-- When the root has answered, nobody is active. -/
theorem Sound.idle_or_done {s : Progress α} (h : P.Sound s) {answer : List α}
    (hroot : s P.root = .done answer) (c : α) : s c = .idle ∨ ∃ noted, s c = .done noted := by
  by_cases hc : s c = .idle
  · exact .inl hc
  · have hbelow := h.below c hc
    clear hc
    right
    induction hbelow with
    | self => exact ⟨answer, hroot⟩
    | @step y d _ hd ih =>
        obtain ⟨noted, hy⟩ := ih
        have hfits := h.child y d hd
        rw [hy] at hfits
        exact hfits

/-- When nothing is on its way everybody below the root has answered, and the answer of
the root notes each of them once. -/
theorem Sound.complete {s : Progress α} (h : P.Sound s) (hroot : s P.root ≠ .idle)
    (hasked : ∀ c, s c ≠ .asked) (hanswered : ∀ c noted, s c ≠ .answered noted) :
    (∃ noted, s P.root = .done noted ∧ noted.Nodup ∧ ∀ x, x ∈ noted ↔ P.Below P.root x) ∧
      ∀ x, P.Below P.root x → ∃ noted, s x = .done noted := by
  have hwaiting : ∀ w c, P.weight c = w → ∀ pending noted, s c ≠ .waiting pending noted := by
    intro w
    induction w using Nat.strongRecOn with
    | ind w ih =>
        intro c hw pending noted hc
        have hphase := h.phase c
        rw [hc] at hphase
        obtain ⟨hne, _, hsub, _⟩ := hphase
        obtain ⟨d, rest, rfl⟩ := List.exists_cons_of_ne_nil hne
        have hd := hsub d (by simp)
        have hfits := h.child c d hd
        rw [hc] at hfits
        have hactive := hfits.1 (by simp)
        cases hdp : s d with
        | idle | done => simp [hdp, Phase.Active] at hactive
        | asked => exact hasked d hdp
        | answered => exact hanswered d _ hdp
        | waiting => exact ih _ (hw ▸ P.weight_lt hd) d rfl _ _ hdp
  have hdone : ∀ x, P.Below P.root x → ∃ noted, s x = .done noted := by
    intro x hx
    induction hx with
    | self =>
        cases hr : s P.root with
        | idle => exact absurd hr hroot
        | asked => exact absurd hr (hasked _)
        | waiting => exact absurd hr (hwaiting _ _ rfl _ _)
        | answered => exact absurd hr (hanswered _ _)
        | done noted => exact ⟨noted, rfl⟩
    | @step y d _ hd ih =>
        obtain ⟨noted, hy⟩ := ih
        have hfits := h.child y d hd
        rw [hy] at hfits
        exact hfits
  refine ⟨?_, hdone⟩
  obtain ⟨noted, hr⟩ := hdone P.root .self
  have hphase := h.phase P.root
  rw [hr] at hphase
  refine ⟨noted, hr, hphase.1, fun x => ?_⟩
  rw [hphase.2, below_iff]
  simp

end Plan
