import Mathlib.Algebra.BigOperators.Group.Finset.Basic
import PdesMas.Library.Machine

/-!
Bookkeeping over a run. What lies at finitely many places is one bag, in which
taking from a place or adding to it takes out or adds. A value that each step
changes by what it takes in less what it gives away differs at the end of a run
from what it was by all that was taken in less all that was given away.
-/

universe u v w x

namespace Ledger

variable {ι : Type u} {α : Type v} {β : Type w} [DecidableEq ι]

/-- What is at the places, each item with its place. -/
def bag (places : Finset ι) (f : ι → List α) : Multiset (ι × α) :=
  ∑ i ∈ places, ((f i).map (Prod.mk i) : Multiset (ι × α))

variable {places : Finset ι} {f : ι → List α} {i : ι} {a : α} {l : List α}

theorem bag_eq_add (hi : i ∈ places) (f : ι → List α) :
    bag places f = ((f i).map (Prod.mk i) : Multiset (ι × α)) + bag (places.erase i) f :=
  (Finset.add_sum_erase places _ hi).symm

theorem bag_erase_update (l : List α) :
    bag (places.erase i) (Function.update f i l) = bag (places.erase i) f := by
  refine Finset.sum_congr rfl fun j hj => ?_
  rw [Function.update_of_ne (Finset.ne_of_mem_erase hj)]

/-- Items are added at a place. -/
theorem bag_append (hi : i ∈ places) (l : List α) :
    bag places (Function.update f i (f i ++ l)) =
      bag places f + (l.map (Prod.mk i) : Multiset (ι × α)) := by
  rw [bag_eq_add hi, bag_erase_update, Function.update_self, List.map_append, ← Multiset.coe_add,
    add_right_comm, ← bag_eq_add hi]

/-- The first item of a place is taken. -/
theorem bag_cons (hi : i ∈ places) (h : f i = a :: l) :
    bag places f = (i, a) ::ₘ bag places (Function.update f i l) := by
  rw [bag_eq_add hi, bag_eq_add hi (Function.update f i l), bag_erase_update,
    Function.update_self, h, List.map_cons, ← Multiset.cons_coe, Multiset.cons_add]

omit [DecidableEq ι] in
theorem mem_bag {p : ι × α} : p ∈ bag places f ↔ p.1 ∈ places ∧ p.2 ∈ f p.1 := by
  obtain ⟨j, b⟩ := p
  simp only [bag, Multiset.mem_sum, Multiset.mem_coe, List.mem_map, Prod.mk.injEq]
  constructor
  · rintro ⟨_, hj, _, hb, rfl, rfl⟩
    exact ⟨hj, hb⟩
  · rintro ⟨hj, hb⟩
    exact ⟨j, hj, b, hb, rfl, rfl⟩

end Ledger

namespace Machine

variable {σ : Type u} {ε : Type v} {ω : Type w} {M : Type x} [AddCommMonoid M]

/-- The amounts of all the steps of a run together. -/
def collect (m : Machine σ ε ω) (amount : σ → ε → σ × ω → M) : σ → List ε → M
  | _, [] => 0
  | s, e :: es =>
      match m.step s e with
      | none => 0
      | some r => amount s e r + collect m amount r.1 es

theorem collect_cons (m : Machine σ ε ω) (amount : σ → ε → σ × ω → M) {s : σ} {e : ε}
    {es : List ε} {r : σ × ω} (h : m.step s e = some r) :
    m.collect amount s (e :: es) = amount s e r + m.collect amount r.1 es := by
  simp [collect, h]

theorem collect_outputs (m : Machine σ ε ω) (amount : ω → M) {s s' : σ} {es : List ε}
    {os : List ω} (h : m.run s es = some (s', os)) :
    m.collect (fun _ _ r => amount r.2) s es = (os.map amount).sum := by
  induction es generalizing s os with
  | nil =>
      obtain ⟨_, rfl⟩ : s = s' ∧ [] = os := by simpa using h
      rfl
  | cons e es ih =>
      obtain ⟨s₁, o, os', hs, hr, rfl⟩ := m.run_cons_iff.mp h
      rw [m.collect_cons _ hs, ih hr, List.map_cons, List.sum_cons]

/-- What every step keeps in balance stays in balance over a run. -/
theorem balance (m : Machine σ ε ω) (allowed : σ → ε → Prop) (I : σ → Prop) (value : σ → M)
    (intake output : σ → ε → σ × ω → M)
    (hinv : ∀ s e s' o, I s → allowed s e → m.step s e = some (s', o) → I s')
    (hstep : ∀ s e s' o, I s → allowed s e → m.step s e = some (s', o) →
      value s' + output s e (s', o) = value s + intake s e (s', o))
    {es : List ε} {s s' : σ} {os : List ω} (hI : I s) (hm : m.Meets allowed s es)
    (hrun : m.run s es = some (s', os)) :
    value s' + m.collect output s es = value s + m.collect intake s es := by
  induction es generalizing s os with
  | nil =>
      obtain ⟨rfl, _⟩ : s = s' ∧ [] = os := by simpa using hrun
      rfl
  | cons e es ih =>
      obtain ⟨s₁, o, os', hs, hr, rfl⟩ := m.run_cons_iff.mp hrun
      obtain ⟨ha, hm'⟩ := (m.meets_cons allowed hs).mp hm
      have hrest := ih (hinv s e s₁ o hI ha hs) hm' hr
      rw [m.collect_cons _ hs, m.collect_cons _ hs, add_left_comm, hrest, ← add_assoc,
        add_comm (output s e (s₁, o)), hstep s e s₁ o hI ha hs, add_assoc]

section Order

variable {α : Type x}

/-- The parts of all the steps of a run in turn. -/
def trail (m : Machine σ ε ω) (part : σ → ε → σ × ω → List α) : σ → List ε → List α
  | _, [] => []
  | s, e :: es =>
      match m.step s e with
      | none => []
      | some r => part s e r ++ trail m part r.1 es

theorem trail_cons (m : Machine σ ε ω) (part : σ → ε → σ × ω → List α) {s : σ} {e : ε}
    {es : List ε} {r : σ × ω} (h : m.step s e = some r) :
    m.trail part s (e :: es) = part s e r ++ m.trail part r.1 es := by
  simp [trail, h]

theorem trail_outputs (m : Machine σ ε ω) (part : ω → List α) {s s' : σ} {es : List ε}
    {os : List ω} (h : m.run s es = some (s', os)) :
    m.trail (fun _ _ r => part r.2) s es = os.flatMap part := by
  induction es generalizing s os with
  | nil =>
      obtain ⟨_, rfl⟩ : s = s' ∧ [] = os := by simpa using h
      rfl
  | cons e es ih =>
      obtain ⟨s₁, o, os', hs, hr, rfl⟩ := m.run_cons_iff.mp h
      rw [m.trail_cons _ hs, ih hr, List.flatMap_cons]

/-- What every step takes from the front and adds at the end comes out in the order in which
it went in. -/
theorem conveyed (m : Machine σ ε ω) (I : σ → Prop) (content : σ → List α)
    (intake output : σ → ε → σ × ω → List α)
    (hinv : ∀ s e s' o, I s → m.step s e = some (s', o) → I s')
    (hstep : ∀ s e s' o, I s → m.step s e = some (s', o) →
      output s e (s', o) ++ content s' = content s ++ intake s e (s', o))
    {es : List ε} {s s' : σ} {os : List ω} (hI : I s) (hrun : m.run s es = some (s', os)) :
    m.trail output s es ++ content s' = content s ++ m.trail intake s es := by
  induction es generalizing s os with
  | nil =>
      obtain ⟨rfl, _⟩ : s = s' ∧ [] = os := by simpa using hrun
      exact (List.append_nil _).symm
  | cons e es ih =>
      obtain ⟨s₁, o, os', hs, hr, rfl⟩ := m.run_cons_iff.mp hrun
      rw [m.trail_cons _ hs, m.trail_cons _ hs, List.append_assoc, ih (hinv s e s₁ o hI hs) hr,
        ← List.append_assoc, hstep s e s₁ o hI hs, List.append_assoc]

/-- A register that each step sets to the last of its values holds the last of all. -/
theorem holds_last (m : Machine σ ε ω) (I : σ → Prop) (register : σ → α)
    (values : σ → ε → σ × ω → List α)
    (hinv : ∀ s e s' o, I s → m.step s e = some (s', o) → I s')
    (hstep : ∀ s e s' o, I s → m.step s e = some (s', o) →
      register s' = (values s e (s', o)).getLast?.getD (register s))
    {es : List ε} {s s' : σ} {os : List ω} (hI : I s) (hrun : m.run s es = some (s', os)) :
    register s' = (m.trail values s es).getLast?.getD (register s) := by
  induction es generalizing s os with
  | nil =>
      obtain ⟨rfl, _⟩ : s = s' ∧ [] = os := by simpa using hrun
      rfl
  | cons e es ih =>
      obtain ⟨s₁, o, os', hs, hr, rfl⟩ := m.run_cons_iff.mp hrun
      rw [m.trail_cons _ hs, ih (hinv s e s₁ o hI hs) hr, hstep s e s₁ o hI hs,
        List.getLast?_append]
      cases (m.trail values s₁ es).getLast? <;> rfl

end Order

section Record

variable {β : Type x}

/-- A record kept along a run, which no step reads. -/
def noted (m : Machine σ ε ω) (note : σ → ε → σ × ω → β → β) : σ → List ε → β → β
  | _, [], b => b
  | s, e :: es, b =>
      match m.step s e with
      | none => b
      | some r => noted m note r.1 es (note s e r b)

theorem noted_cons (m : Machine σ ε ω) (note : σ → ε → σ × ω → β → β) {s : σ} {e : ε}
    {es : List ε} {r : σ × ω} (b : β) (h : m.step s e = some r) :
    m.noted note s (e :: es) b = m.noted note r.1 es (note s e r b) := by
  simp [noted, h]

/-- An invariant of the state and the record, which may depend on the number of events that
are left. -/
theorem invariant_noted (m : Machine σ ε ω) (note : σ → ε → σ × ω → β → β)
    (I : σ → β → Nat → Prop)
    (hstep : ∀ s b n e s' o, I s b (n + 1) → m.step s e = some (s', o) →
      I s' (note s e (s', o) b) n)
    {es : List ε} {s s' : σ} {os : List ω} {b : β} {n : Nat} (hI : I s b (es.length + n))
    (hrun : m.run s es = some (s', os)) : I s' (m.noted note s es b) n := by
  induction es generalizing s b os with
  | nil =>
      obtain ⟨rfl, _⟩ : s = s' ∧ [] = os := by simpa using hrun
      simpa [noted] using hI
  | cons e es ih =>
      obtain ⟨s₁, o, os', hs, hr, _⟩ := m.run_cons_iff.mp hrun
      rw [m.noted_cons note b hs]
      refine ih (hstep s b (es.length + n) e s₁ o ?_ hs) hr
      rwa [List.length_cons, Nat.add_right_comm] at hI

end Record

end Machine
