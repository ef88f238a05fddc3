import Mathlib.Data.List.TakeWhile
import PdesMas.State.Readers

/-!
Fossil collection seen from later operations. A collected list lacks periods the
later operations cannot see, but the period kept for the collection time may have
been moved to it. A write at exactly that time then meets a tie-break that the
uncollected list does not have, and a rollback at that time finds the moved
period. The kept period also lacks the reads before the collection time, and a new
read may then go to another place among the others, unless `operator <` ranks the
agents that read. Where none of this happens the two lists answer alike.
-/

namespace PdesMas
universe u
variable {V : Type u}

namespace Timeline

/-- What a CLP whose GVT is `g` lets through to a variable. -/
def Admits (g : Nat) : Operation V → Prop
  | .read _ time | .writeWithRollback _ _ time | .performReadRollback _ time
  | .performWriteRollback _ time => g ≤ time
  | .removeWritePeriods _ => False

/-- The write at `g`, if its covering period started earlier, would also win the
tie-break against the owner of that period. -/
def WinsTie (g : Nat) (agent : LpId) (U : List (Entry V)) : Prop :=
  match Cut.last? (Entry.reaches g) U with
  | none => True
  | some c => c.focus.start < g → c.focus.agent.gt agent = false

/-- The rollback at `g` is ignored by both lists, or meets the same period in both
and leaves another one that starts at `g`. -/
def UndoesAlike (g : Nat) (agent : LpId) (U C : List (Entry V)) : Prop :=
  match Cut.first? (Entry.startsAt g) U, Cut.first? (Entry.startsAt g) C with
  | none, none => True
  | none, some c => c.focus.agent.ne agent = true
  | some _, none => False
  | some u, some c =>
      u.focus.agent.ne agent = true ∨
        u.focus = c.focus ∧ (U = C ∨ ∃ x ∈ c.back, x.start = g)

/-- The operation does not meet the moved period; only those at `g` can. -/
def Undisturbed (g : Nat) (U C : List (Entry V)) : Operation V → Prop
  | .writeWithRollback agent _ time => time = g → WinsTie g agent U
  | .performWriteRollback agent time => time = g → UndoesAlike g agent U C
  | .read .. | .performReadRollback .. | .removeWritePeriods .. => True

instance (g : Nat) (agent : LpId) (U : List (Entry V)) : Decidable (WinsTie g agent U) :=
  match h : Cut.last? (Entry.reaches g) U with
  | none => isTrue (by simp [WinsTie, h])
  | some c =>
      decidable_of_iff (c.focus.start < g → c.focus.agent.gt agent = false)
        (by simp [WinsTie, h])

instance [DecidableEq V] (g : Nat) (agent : LpId) (U C : List (Entry V)) :
    Decidable (UndoesAlike g agent U C) :=
  match hu : Cut.first? (Entry.startsAt g) U, hc : Cut.first? (Entry.startsAt g) C with
  | none, none => isTrue (by simp [UndoesAlike, hu, hc])
  | none, some c =>
      decidable_of_iff (c.focus.agent.ne agent = true) (by simp [UndoesAlike, hu, hc])
  | some _, none => isFalse (by simp [UndoesAlike, hu, hc])
  | some u, some c =>
      decidable_of_iff (u.focus.agent.ne agent = true ∨
          u.focus = c.focus ∧ (U = C ∨ ∃ x ∈ c.back, x.start = g))
        (by simp [UndoesAlike, hu, hc])

instance [DecidableEq V] (g : Nat) (U C : List (Entry V)) :
    ∀ op, Decidable (Undisturbed g U C op)
  | .writeWithRollback agent _ time => inferInstanceAs (Decidable (time = g → WinsTie g agent U))
  | .performWriteRollback agent time =>
      inferInstanceAs (Decidable (time = g → UndoesAlike g agent U C))
  | .read .. | .performReadRollback .. | .removeWritePeriods .. =>
      inferInstanceAs (Decidable True)

/-- `C` is what a collection at `g`, and some operations since, left of `U`. -/
inductive Collected (g : Nat) (U C : List (Entry V)) : Prop
  | erased (pre) (hU : U = pre ++ C) (hpre : ∀ x ∈ pre, x.start < g)
      (hcover : pre = [] ∨ ∃ e ∈ C, e.start = g)
  | restamped (pre suf p) (hU : U = pre ++ p :: suf) (hC : C = p.restamp g :: suf)
      (hpre : ∀ x ∈ pre, x.start < g) (hp : p.start < g) (hsuf : ∀ x ∈ suf, g ≤ x.start)

theorem Collected.refl (g : Nat) (l : List (Entry V)) : Collected g l l :=
  .erased [] rfl (by simp) (.inl rfl)

@[simp] theorem restamp_start (e : Entry V) (g : Nat) : (e.restamp g).start = g := rfl
@[simp] theorem restamp_agent (e : Entry V) (g : Nat) : (e.restamp g).agent = e.agent := rfl
@[simp] theorem restamp_value (e : Entry V) (g : Nat) : (e.restamp g).value = e.value := rfl

theorem restamp_record {readers : LpId → Prop} (hranked : MultiMap.Ranked LpId.lt readers)
    {e : Entry V} (hreads : ∀ r ∈ e.reads, readers r.1) (hsorted : MultiMap.Sorted LpId.lt e.reads)
    {agent : LpId} (hagent : readers agent) {g time : Nat} (h : g ≤ time) :
    (e.restamp g).record agent time = (e.record agent time).restamp g := by
  simp only [Entry.restamp, Entry.record]
  rw [MultiMap.filter_insert hranked hagent hreads hsorted (by simpa using h)]

theorem restamp_withdraw (e : Entry V) (agent : LpId) (g time : Nat) :
    (e.restamp g).withdraw agent time = (e.withdraw agent time).restamp g := by
  simp [Entry.restamp, Entry.withdraw, List.filter_filter, Bool.and_comm]

theorem restamp_keepBefore (e : Entry V) (g time : Nat) :
    (e.restamp g).keepBefore time = (e.keepBefore time).restamp g := by
  simp [Entry.restamp, Entry.keepBefore, List.filter_filter, Bool.and_comm]

theorem restamp_invalidated (e : Entry V) {g time : Nat} (h : g ≤ time) :
    (e.restamp g).invalidated time = e.invalidated time := by
  simp only [Entry.restamp, Entry.invalidated, List.filter_filter]
  refine List.filter_congr fun r _ => ?_
  by_cases hr : time ≤ r.2
  · have hg : ¬ r.2 < g := by omega
    simp [hr, hg]
  · simp [hr]

theorem restamp_eq_self {e : Entry V} {g : Nat} (hs : e.start = g)
    (hr : ∀ r ∈ e.reads, e.start ≤ r.2) : e.restamp g = e := by
  subst hs
  have hreads : e.reads.filter (fun r => ¬ r.2 < e.start) = e.reads := by
    refine List.filter_eq_self.mpr fun r hmem => ?_
    simpa using hr r hmem
  simp only [Entry.restamp, hreads]

/-- A collection leaves a collected list. -/
theorem collected_removeWritePeriods {U C : List (Entry V)} {g : Nat} {o : Outcome V}
    (h : Effect U (.removeWritePeriods g) C o) (hord : WellOrdered U) (hin : ReadsInside U) :
    Collected g U C := by
  cases h with
  | collectNothing => exact .refl g _
  | @collect A B e time he hB =>
      rw [hord.dropWhile_eq_filter he]
      rcases Nat.lt_or_eq_of_le he with hlt | heq
      · rw [hord.filter_startsAt_eq_nil hlt]
        refine .restamped A B e rfl rfl ?_ hlt fun x hx => Nat.le_of_lt (hB x hx)
        exact fun x hx => Nat.lt_of_le_of_lt (hord.le_focus x hx) hlt
      · rw [restamp_eq_self heq (hin.lower e (by simp)), ← hord.dropWhile_eq_filter he]
        refine .erased (A.takeWhile fun x => x.start != g) ?_ ?_ (.inr ⟨e, by simp, heq⟩)
        · rw [← List.append_assoc, List.takeWhile_append_dropWhile]
        · intro x hx
          have hne : x.start ≠ g := by simpa using List.mem_takeWhile_imp hx
          have hle := hord.le_focus x ((List.takeWhile_sublist _).subset hx)
          omega

theorem exists_covering {C : List (Entry V)} {time : Nat} (h : ∃ e ∈ C, e.start ≤ time) :
    ∃ c, Cut.last? (Entry.reaches time) C = some c := by
  cases hc : Cut.last? (Entry.reaches time) C with
  | some c => exact ⟨c, rfl⟩
  | none =>
      obtain ⟨e, he, hle⟩ := h
      exact absurd hle (Nat.not_le.mpr (last?_reaches_eq_none.mp hc e he))

/-- Erased periods are out of the reach of what is admitted. -/
private theorem step_erased {g : Nat} {pre C : List (Entry V)} {op : Operation V}
    (hpre : ∀ x ∈ pre, x.start < g) (hcover : ∃ e ∈ C, e.start = g) (hop : Admits g op) :
    step (pre ++ C) op = (step C op).map fun r => (pre ++ r.1, r.2) := by
  have hcovering : ∀ time, g ≤ time → ∃ c, Cut.last? (Entry.reaches time) C = some c := by
    intro time ht
    obtain ⟨e, he, hs⟩ := hcover
    exact exists_covering ⟨e, he, hs ▸ ht⟩
  cases op with
  | read agent time | performReadRollback agent time =>
      obtain ⟨c, hc⟩ := hcovering time hop
      simp [step, Cut.last?_append_right pre C hc, hc]
  | writeWithRollback agent value time =>
      obtain ⟨c, hc⟩ := hcovering time hop
      obtain ⟨e, he, _⟩ := hcover
      have hC : C ≠ [] := List.ne_nil_of_mem he
      simp only [step, Cut.last?_append_right pre C hc, hc, hC, List.append_eq_nil_iff,
        and_false, ite_false]
      split <;> simp
  | performWriteRollback agent time =>
      have hle : g ≤ time := hop
      have hnone : ∀ x ∈ pre, Entry.startsAt time x = false := by
        intro x hx
        have := hpre x hx
        simp only [Entry.startsAt_eq_false]
        omega
      simp only [step, Cut.first?_append_right pre C hnone]
      cases Cut.first? (Entry.startsAt time) C with
      | none => simp
      | some c => simp only [Option.map_some]; split <;> simp
  | removeWritePeriods time => exact hop.elim

/-- A period at `g` stays, unless the rollback of the last one removes it. -/
private theorem cover_step {g : Nat} {C C' : List (Entry V)} {op : Operation V}
    {o : Outcome V} (h : Effect C op C' o) (hcover : ∃ e ∈ C, e.start = g)
    (hop : Admits g op)
    (hundo : ∀ agent A e B, op = .performWriteRollback agent g → C = A ++ e :: B →
      e.start = g → NoneAt g A → e.agent.ne agent = false → ∃ x ∈ B, x.start = g) :
    ∃ e ∈ C', e.start = g := by
  obtain ⟨x, hx, hxg⟩ := hcover
  have hupdate : ∀ {A B : List (Entry V)} {e : Entry V} (e' : Entry V), x ∈ A ++ e :: B →
      e'.start = e.start → ∃ y ∈ A ++ e' :: B, y.start = g := by
    intro A B e e' hx hs
    rcases List.mem_append.mp hx with hx | hx
    · exact ⟨x, by simp [hx], hxg⟩
    · rcases List.mem_cons.mp hx with rfl | hx
      · exact ⟨e', by simp, hs.trans hxg⟩
      · exact ⟨x, by simp [hx], hxg⟩
  cases h with
  | read | readRollback => exact hupdate _ hx rfl
  | writeFirst => cases hx
  | writeTooEarly | writeRejected | writeRollbackMissing | writeRollbackForeign =>
      exact ⟨x, hx, hxg⟩
  | @writeAccepted A B e agent value time he hB hok =>
      obtain ⟨y, hy, hyg⟩ := hupdate (e.keepBefore time) hx rfl
      refine ⟨y, ?_, hyg⟩
      simp only [List.mem_append, List.mem_cons] at hy ⊢
      grind
  | @writeRollback A B e agent time he hA hown =>
      by_cases ht : time = g
      · subst ht
        obtain ⟨y, hy, hyg⟩ := hundo agent A e B rfl rfl he hA hown
        exact ⟨y, by simp [hy], hyg⟩
      · refine ⟨x, ?_, hxg⟩
        have hxe : x ≠ e := by
          rintro rfl
          exact ht (he.symm.trans hxg)
        simpa [hxe] using hx
  | collectNothing | collect => exact hop.elim

private theorem erased_agree {g : Nat} {pre C : List (Entry V)} {op : Operation V}
    (hpre : ∀ x ∈ pre, x.start < g) (hcover : pre = [] ∨ ∃ e ∈ C, e.start = g)
    (hop : Admits g op) (hun : Undisturbed g (pre ++ C) C op) :
    Machine.Agree (Collected g) (step (pre ++ C) op) (step C op) := by
  by_cases hnil : pre = []
  · subst hnil
    rw [List.nil_append]
    cases step C op with
    | none => exact .none
    | some r => exact .some ⟨.refl g r.1, rfl⟩
  · have hcover' := hcover.resolve_left hnil
    rw [step_erased hpre hcover' hop]
    cases hs : step C op with
    | none => exact .none
    | some r =>
        refine .some ⟨.erased pre rfl hpre (.inr ?_), rfl⟩
        refine cover_step (effect_of_step hs) hcover' hop ?_
        rintro agent A e B rfl rfl he hA hown
        have hprenone : NoneAt g (pre ++ A) :=
          (noneAt_append g pre A).mpr ⟨fun x hx => Nat.ne_of_lt (hpre x hx), hA⟩
        have hU : Cut.first? (Entry.startsAt g) (pre ++ (A ++ e :: B)) =
            some ⟨pre ++ A, e, B⟩ :=
          first?_startsAt_eq_some.mpr ⟨by simp, he, hprenone⟩
        have hC : Cut.first? (Entry.startsAt g) (A ++ e :: B) = some ⟨A, e, B⟩ :=
          first?_startsAt_eq_some.mpr ⟨rfl, he, hA⟩
        have halike : UndoesAlike g agent (pre ++ (A ++ e :: B)) (A ++ e :: B) := hun rfl
        simp only [UndoesAlike, hU, hC] at halike
        rcases halike with hne | ⟨_, heq | hx⟩
        · rw [hown] at hne
          cases hne
        · exact absurd (List.append_left_eq_self.mp heq) hnil
        · exact hx

section Restamped

variable {g : Nat} {pre suf : List (Entry V)} {p : Entry V}

/-- Both lists are covered in the part they share, or by the moved period. -/
private theorem restamped_cover (pre suf : List (Entry V)) {time : Nat} (hp : p.start < g)
    (ht : g ≤ time) :
    (∃ F e B, suf = F ++ e :: B ∧
      Cut.last? (Entry.reaches time) (pre ++ p :: suf) = some ⟨pre ++ p :: F, e, B⟩ ∧
      Cut.last? (Entry.reaches time) (p.restamp g :: suf) =
        some ⟨p.restamp g :: F, e, B⟩) ∨
    (Later time suf ∧
      Cut.last? (Entry.reaches time) (pre ++ p :: suf) = some ⟨pre, p, suf⟩ ∧
      Cut.last? (Entry.reaches time) (p.restamp g :: suf) = some ⟨[], p.restamp g, suf⟩) := by
  cases hc : Cut.last? (Entry.reaches time) suf with
  | none =>
      have hlater := last?_reaches_eq_none.mp hc
      exact .inr ⟨hlater, last?_reaches pre suf p (by omega) hlater,
        last?_reaches [] suf (p.restamp g) ht hlater⟩
  | some c =>
      obtain ⟨hl, he, hB⟩ := last?_reaches_eq_some.mp hc
      refine .inl ⟨c.front, c.focus, c.back, hl.symm, ?_, ?_⟩
      · exact last?_reaches_eq_some.mpr ⟨by simp [← hl], he, hB⟩
      · exact last?_reaches_eq_some.mpr ⟨by simp [← hl], he, hB⟩

private theorem restamped_collected (suf' : List (Entry V)) (p' : Entry V)
    (hpre : ∀ x ∈ pre, x.start < g) (hp : p'.start < g) (hsuf : ∀ x ∈ suf', g ≤ x.start)
    {U C : List (Entry V)} (hU : U = pre ++ p' :: suf') (hC : C = p'.restamp g :: suf') :
    Collected g U C :=
  .restamped pre suf' p' hU hC hpre hp hsuf

/-- A read, or its rollback, changes the reads of the covering period. -/
private theorem restamped_touch {F B : List (Entry V)} {e e' : Entry V}
    (hpre : ∀ x ∈ pre, x.start < g) (hp : p.start < g)
    (hsuf : ∀ x ∈ F ++ e :: B, g ≤ x.start) (hs : e'.start = e.start) :
    Collected g (pre ++ p :: F ++ e' :: B) (p.restamp g :: F ++ e' :: B) := by
  refine restamped_collected (F ++ e' :: B) p hpre hp ?_ (by simp) (by simp)
  intro x hx
  rcases List.mem_append.mp hx with hx | hx
  · exact hsuf x (by simp [hx])
  · rcases List.mem_cons.mp hx with rfl | hx
    · rw [hs]
      exact hsuf e (by simp)
    · exact hsuf x (by simp [hx])

private theorem restamped_read {readers : LpId → Prop}
    (hranked : MultiMap.Ranked LpId.lt readers) (hreads : ∀ r ∈ p.reads, readers r.1)
    (hsorted : MultiMap.Sorted LpId.lt p.reads) {agent : LpId} (hagent : readers agent)
    {time : Nat} (hpre : ∀ x ∈ pre, x.start < g)
    (hp : p.start < g) (hsuf : ∀ x ∈ suf, g ≤ x.start) (ht : g ≤ time) :
    Machine.Agree (Collected g) (step (pre ++ p :: suf) (.read agent time))
      (step (p.restamp g :: suf) (.read agent time)) := by
  rcases restamped_cover pre suf hp ht with
    ⟨F, e, B, rfl, hU, hC⟩ | ⟨_, hU, hC⟩
  · simp only [step, hU, hC]
    exact .some ⟨restamped_touch hpre hp hsuf rfl, rfl⟩
  · simp only [step, hU, hC, Option.map_some, List.nil_append,
      restamp_record hranked hreads hsorted hagent ht]
    exact .some ⟨restamped_collected suf (p.record agent time) hpre hp hsuf rfl rfl, rfl⟩

private theorem restamped_readRollback {agent : LpId} {time : Nat}
    (hpre : ∀ x ∈ pre, x.start < g) (hp : p.start < g) (hsuf : ∀ x ∈ suf, g ≤ x.start)
    (ht : g ≤ time) :
    Machine.Agree (Collected g) (step (pre ++ p :: suf) (.performReadRollback agent time))
      (step (p.restamp g :: suf) (.performReadRollback agent time)) := by
  rcases restamped_cover pre suf hp ht with
    ⟨F, e, B, rfl, hU, hC⟩ | ⟨_, hU, hC⟩
  · simp only [step, hU, hC]
    exact .some ⟨restamped_touch hpre hp hsuf rfl, rfl⟩
  · simp only [step, hU, hC, Option.map_some, List.nil_append, restamp_withdraw p agent g time]
    exact .some ⟨restamped_collected suf (p.withdraw agent time) hpre hp hsuf rfl rfl, rfl⟩

private theorem restamped_write {agent : LpId} {value : V} {time : Nat}
    (hpre : ∀ x ∈ pre, x.start < g) (hp : p.start < g) (hsuf : ∀ x ∈ suf, g ≤ x.start)
    (ht : g ≤ time) (hwins : time = g → WinsTie g agent (pre ++ p :: suf)) :
    Machine.Agree (Collected g)
      (step (pre ++ p :: suf) (.writeWithRollback agent value time))
      (step (p.restamp g :: suf) (.writeWithRollback agent value time)) := by
  have hUne : pre ++ p :: suf ≠ [] := by simp
  have hCne : p.restamp g :: suf ≠ [] := by simp
  rcases restamped_cover pre suf hp ht with
    ⟨F, e, B, rfl, hU, hC⟩ | ⟨hlater, hU, hC⟩
  · simp only [step, hU, hC, hUne, hCne, ite_false]
    split
    · exact .some ⟨restamped_collected _ p hpre hp hsuf rfl rfl, rfl⟩
    · refine .some ⟨restamped_collected (F ++ e.keepBefore time ::
        .fresh agent value time :: B) p hpre hp ?_ (by simp) (by simp), rfl⟩
      intro x hx
      simp only [List.mem_append, List.mem_cons] at hx hsuf
      rcases hx with hx | rfl | rfl | hx
      · exact hsuf x (.inl hx)
      · exact hsuf e (.inr (.inl rfl))
      · exact ht
      · exact hsuf x (.inr (.inr hx))
  · have hUok : ¬ (p.start = time ∧ p.agent.gt agent = true) := by omega
    have hCok : ¬ ((p.restamp g).start = time ∧ (p.restamp g).agent.gt agent = true) := by
      rintro ⟨hs, hgt⟩
      have htg : time = g := hs.symm
      have hwin := hwins htg
      rw [WinsTie, ← htg, hU] at hwin
      have hfalse : p.agent.gt agent = false := hwin (Nat.lt_of_lt_of_le hp ht)
      rw [restamp_agent, hfalse] at hgt
      cases hgt
    simp only [step, hU, hC, hUne, hCne, ite_false, hUok, hCok, restamp_keepBefore,
      restamp_invalidated p ht]
    refine .some ⟨restamped_collected (.fresh agent value time :: suf) (p.keepBefore time)
      hpre hp ?_ rfl rfl, rfl⟩
    exact List.forall_mem_cons.mpr ⟨ht, hsuf⟩

private theorem first?_suf (suf : List (Entry V)) {time : Nat} (hpre : ∀ x ∈ pre, x.start < g)
    (hp : p.start < g)
    (ht : g ≤ time) :
    Cut.first? (Entry.startsAt time) (pre ++ p :: suf) =
      (Cut.first? (Entry.startsAt time) suf).map fun c =>
        ⟨pre ++ p :: c.front, c.focus, c.back⟩ := by
  have hnone : ∀ x ∈ pre ++ [p], Entry.startsAt time x = false := by
    intro x hx
    simp only [List.mem_append, List.mem_singleton] at hx
    simp only [Entry.startsAt_eq_false]
    rcases hx with hx | rfl
    · have := hpre x hx
      omega
    · omega
  simpa using Cut.first?_append_right (pre ++ [p]) suf hnone

private theorem restamped_writeRollback_later {agent : LpId} {time : Nat}
    (hpre : ∀ x ∈ pre, x.start < g) (hp : p.start < g) (hsuf : ∀ x ∈ suf, g ≤ x.start)
    (ht : g < time) :
    Machine.Agree (Collected g) (step (pre ++ p :: suf) (.performWriteRollback agent time))
      (step (p.restamp g :: suf) (.performWriteRollback agent time)) := by
  have hC : Cut.first? (Entry.startsAt time) (p.restamp g :: suf) =
      (Cut.first? (Entry.startsAt time) suf).map fun c =>
        ⟨p.restamp g :: c.front, c.focus, c.back⟩ := by
    have hnone : ∀ x ∈ [p.restamp g], Entry.startsAt time x = false := by
      simpa using Nat.ne_of_lt ht
    simpa using Cut.first?_append_right [p.restamp g] suf hnone
  simp only [step, first?_suf suf hpre hp (Nat.le_of_lt ht), hC]
  cases hc : Cut.first? (Entry.startsAt time) suf with
  | none => exact .some ⟨restamped_collected suf p hpre hp hsuf rfl rfl, rfl⟩
  | some c =>
      obtain ⟨rfl, _, _⟩ := first?_startsAt_eq_some.mp hc
      simp only [Option.map_some]
      split
      · exact .some ⟨restamped_collected _ p hpre hp hsuf rfl rfl, rfl⟩
      · refine .some ⟨restamped_collected (c.front ++ c.back) p hpre hp ?_ (by simp)
          (by simp), rfl⟩
        intro x hx
        simp only [List.mem_append, List.mem_cons] at hx hsuf
        exact hsuf x (hx.imp_right .inr)

/-- A rollback at the collection time itself: the moved period is found first. -/
private theorem restamped_writeRollback_at {agent : LpId} (hpre : ∀ x ∈ pre, x.start < g)
    (hp : p.start < g) (hsuf : ∀ x ∈ suf, g ≤ x.start)
    (hord : WellOrdered (pre ++ p :: suf)) (hin : ReadsInside (pre ++ p :: suf))
    (halike : UndoesAlike g agent (pre ++ p :: suf) (p.restamp g :: suf)) :
    Machine.Agree (Collected g) (step (pre ++ p :: suf) (.performWriteRollback agent g))
      (step (p.restamp g :: suf) (.performWriteRollback agent g)) := by
  have hC : Cut.first? (Entry.startsAt g) (p.restamp g :: suf) =
      some ⟨[], p.restamp g, suf⟩ :=
    first?_startsAt_eq_some.mpr ⟨rfl, rfl, noneAt_nil g⟩
  have hUfirst := first?_suf suf hpre hp (le_refl g)
  cases hc : Cut.first? (Entry.startsAt g) suf with
  | none =>
      rw [hc] at hUfirst
      simp only [UndoesAlike, hUfirst, hC, Option.map_none] at halike
      simp only [step, hUfirst, hC, Option.map_none, halike, ite_true]
      exact .some ⟨restamped_collected suf p hpre hp hsuf rfl rfl, rfl⟩
  | some c =>
      rw [hc] at hUfirst
      obtain ⟨hl, he, hA⟩ := first?_startsAt_eq_some.mp hc
      simp only [UndoesAlike, hUfirst, hC, Option.map_some] at halike
      simp only [step, hUfirst, hC, Option.map_some]
      have hup : ∀ b ∈ suf, ∀ r ∈ p.reads, r.2 < b.start := by
        have hback := (List.pairwise_append.mp hin.upper).2.1
        exact (List.pairwise_cons.mp hback).1
      have hfocus : c.focus ∈ suf := by simp [← hl]
      rcases halike with hne | ⟨heq, _⟩
      · rw [if_pos hne]
        split
        · exact .some ⟨restamped_collected suf p hpre hp hsuf rfl rfl, rfl⟩
        · have hreads : (p.restamp g).reads = [] := by
            refine List.filter_eq_nil_iff.mpr fun r hr => ?_
            have := hup c.focus hfocus r hr
            simpa [he] using this
          rw [hreads]
          refine .some ⟨.erased (pre ++ [p]) (by simp) ?_ (.inr ⟨c.focus, hfocus, he⟩), rfl⟩
          intro x hx
          rcases List.mem_append.mp hx with hx | hx
          · exact hpre x hx
          · obtain rfl : x = p := by simpa using hx
            exact hp
      · -- nothing of the group lies before the period found, so both lists lose it
        have hfront : c.front = [] := by
          refine List.eq_nil_iff_forall_not_mem.mpr fun x hx => ?_
          have hsorted : WellOrdered ((pre ++ p :: c.front) ++ c.focus :: c.back) := by
            simpa [hl] using hord
          have hxe := hsorted.le_focus x (by simp [hx])
          have hxg := hsuf x (by simp [← hl, hx])
          exact hA x hx (by omega)
        rw [heq]
        split
        · exact .some ⟨restamped_collected suf p hpre hp hsuf rfl rfl, rfl⟩
        · refine .some ⟨restamped_collected c.back p hpre hp ?_ (by simp [hfront]) ?_, rfl⟩
          · exact fun x hx => hsuf x (by simp [← hl, hx])
          · simp only [List.nil_append]
            rw [← hl, hfront, heq, List.nil_append]

end Restamped

private theorem agree_of_collected {readers : LpId → Prop}
    (hranked : MultiMap.Ranked LpId.lt readers) {g : Nat} {U C : List (Entry V)}
    {op : Operation V} (h : Collected g U C) (hord : WellOrdered U) (hin : ReadsInside U)
    (hreads : ReadBy readers U) (hsorted : ReadsSorted U) (hop : Admits g op)
    (hby : op.By readers) (hun : Undisturbed g U C op) :
    Machine.Agree (Collected g) (step U op) (step C op) := by
  cases h with
  | erased pre hU hpre hcover =>
      subst hU
      exact erased_agree hpre hcover hop hun
  | restamped pre suf p hU hC hpre hp hsuf =>
      subst hU hC
      cases op with
      | read agent time =>
          exact restamped_read hranked (hreads p (by simp)) (hsorted p (by simp)) hby hpre hp hsuf
            hop
      | writeWithRollback agent value time => exact restamped_write hpre hp hsuf hop hun
      | performReadRollback agent time => exact restamped_readRollback hpre hp hsuf hop
      | performWriteRollback agent time =>
          rcases Nat.lt_or_eq_of_le (show g ≤ time from hop) with hlt | rfl
          · exact restamped_writeRollback_later hpre hp hsuf hlt
          · exact restamped_writeRollback_at hpre hp hsuf hord hin (hun rfl)
      | removeWritePeriods time => exact hop.elim

end Timeline

namespace StateVariable
open Timeline

private theorem exec_agree_of_step {R : List (Entry V) → List (Entry V) → Prop}
    {s t : StateVariable V} {op : Operation V}
    (h : Machine.Agree R (step s.entries op) (step t.entries op)) :
    Machine.Agree (fun s t => R s.entries t.entries) (s.exec op) (t.exec op) := by
  rw [← exec_entries, ← exec_entries] at h
  cases hs : s.exec op with
  | none =>
      rw [hs] at h
      cases ht : t.exec op with
      | none => exact .none
      | some q => rw [ht] at h; cases h
  | some r =>
      rw [hs] at h
      cases ht : t.exec op with
      | none => rw [ht] at h; cases h
      | some q =>
          rw [ht] at h
          cases h with
          | some h => exact .some h

/-- Collected and uncollected variable, with what the reads need about the latter. -/
private structure Alike (readers : LpId → Prop) (g : Nat) (s t : StateVariable V) : Prop where
  collected : Collected g s.entries t.entries
  ordered : WellOrdered s.entries
  inside : ReadsInside s.entries
  readBy : ReadBy readers s.entries
  sorted : ReadsSorted s.entries

private theorem exec_alike {readers : LpId → Prop} (hranked : MultiMap.Ranked LpId.lt readers)
    {g : Nat} {s t : StateVariable V} {op : Operation V} (h : Alike readers g s t)
    (hop : Admits g op) (hby : op.By readers) (hun : Undisturbed g s.entries t.entries op) :
    Machine.Agree (Alike readers g) (s.exec op) (t.exec op) := by
  have hagree := exec_agree_of_step
    (agree_of_collected hranked h.collected h.ordered h.inside h.readBy h.sorted hop hby hun)
  generalize hs : s.exec op = a at hagree
  generalize t.exec op = b at hagree
  cases hagree with
  | none => exact .none
  | some hnext =>
      have heff := effect_of_exec hs
      refine .some ⟨⟨hnext.1, wellOrdered_step heff h.ordered, readsInside_step heff h.inside, ?_,
        readsSorted_step heff h.sorted⟩, hnext.2⟩
      exact readBy_step heff hby h.readBy

/-- Where `operator <` ranks the agents that read, a collection at `g` changes no answer of a
later run whose operations at exactly `g` do not meet the period moved there. -/
theorem collection_unobservable {readers : LpId → Prop}
    (hranked : MultiMap.Ranked LpId.lt readers) (sv : StateVariable V) (g : Nat)
    (ops : List (Operation V)) (hreach : ReachableBy (Operation.By readers) sv)
    (hops : ∀ op ∈ ops, Admits g op ∧ op.By readers)
    (hun : (machine V).MeetBoth (machine V)
      (fun s t op => Undisturbed g s.entries t.entries op) sv (sv.removeWritePeriods g) ops) :
    ((machine V).run (sv.removeWritePeriods g) ops).map Prod.snd =
      ((machine V).run sv ops).map Prod.snd := by
  obtain ⟨hord, hin⟩ := hreach.reachable.invariant
  obtain ⟨hreads, hsorted⟩ := hreach.readBy
  have hcollect : sv.exec (.removeWritePeriods g) = some (sv.removeWritePeriods g, .silent) :=
    rfl
  have hstart : Alike readers g sv (sv.removeWritePeriods g) :=
    ⟨collected_removeWritePeriods (effect_of_exec hcollect) hord hin, hord, hin, hreads, hsorted⟩
  have hagree := (machine V).lockstep (machine V) (Alike readers g) _
    (fun s t op h hallowed => exec_alike hranked h hallowed.1.1 hallowed.1.2 hallowed.2) ops sv
    (sv.removeWritePeriods g) hstart (hun.and_events hops)
  exact hagree.outputs.symm

private theorem reachable_write_at_two (readers : LpId → Prop) (id : SsvId) (u v : V) :
    ReachableBy (Operation.By readers) (((create id).addWritePeriod u 0 ⟨0, 0⟩).writeWithRollback
      ⟨12, 5⟩ v 2 .empty).1 := by
  have hstart : ReachableBy (Operation.By readers) ((create id).addWritePeriod u 0 ⟨0, 0⟩) :=
    (ReachableBy.create id).addWritePeriod u 0 ⟨0, 0⟩ rfl
  have hexec : exec ((create id).addWritePeriod u 0 ⟨0, 0⟩) (.writeWithRollback ⟨12, 5⟩ v 2) =
      some (_, _) := rfl
  refine hstart.exec ?_ hexec
  trivial

theorem collection_unobservable_at_five :
    let sv := ((((create 1).addWritePeriod 10 0 ⟨0, 0⟩ : StateVariable Nat).writeWithRollback
      ⟨12, 5⟩ 20 2 .empty).1.exec (.read ⟨12, 5⟩ 3)).map Prod.fst
    let ops := [.read ⟨12, 5⟩ 6, .read ⟨11, 4⟩ 5, .writeWithRollback ⟨13, 6⟩ 30 5,
      .performWriteRollback ⟨11, 4⟩ 8]
    ∃ sv' ∈ sv, ((machine Nat).run (sv'.removeWritePeriods 5) ops).map Prod.snd =
      ((machine Nat).run sv' ops).map Prod.snd := by
  have hranked : MultiMap.Ranked LpId.lt fun a => a = ⟨11, 4⟩ ∨ a = ⟨12, 5⟩ := by
    rintro a b c (rfl | rfl) (rfl | rfl) (rfl | rfl) <;> simp [LpId.lt]
  refine ⟨_, rfl, collection_unobservable hranked _ 5 _ ?_ (by simp [Admits, Operation.By])
    (by decide)⟩
  have hexec : exec (((create 1).addWritePeriod 10 0 ⟨0, 0⟩ : StateVariable Nat).writeWithRollback
      ⟨12, 5⟩ 20 2 .empty).1 (.read ⟨12, 5⟩ 3) = some (_, _) := rfl
  refine (reachable_write_at_two _ 1 10 20).exec ?_ hexec
  exact .inr rfl

/-- No order ranks (4, 4), (1, 5) and (3, 3): without the read of the first, that of the third
has another place. -/
example :
    let reads := [.read ⟨1, 5⟩ 7, .read ⟨3, 3⟩ 8, .writeWithRollback ⟨2, 2⟩ 30 7]
    let calls := fun sv : StateVariable Nat =>
      (machine Nat).run sv reads |>.map fun r => r.2.map Outcome.calls
    ∃ sv ∈ (((create 1).addWritePeriod 10 0 ⟨0, 0⟩).exec (.read ⟨4, 4⟩ 3)).map Prod.fst,
      calls sv = some [[], [], [(⟨3, 3⟩, 8), (⟨1, 5⟩, 7)]] ∧
      calls (sv.removeWritePeriods 5) = some [[], [], [(⟨1, 5⟩, 7), (⟨3, 3⟩, 8)]] :=
  ⟨_, rfl, by decide, by decide⟩

/-- The owner of the period moved to the collection time wins a tie that the
uncollected list does not have. -/
theorem collection_rejects_write :
    ∃ (sv : StateVariable Nat) (g : Nat) (ops : List (Operation Nat)),
      Reachable sv ∧ (∀ op ∈ ops, Admits g op) ∧
      ((machine Nat).run sv ops).map Prod.snd = some [.ofWrite .writeSUCCESS []] ∧
      ((machine Nat).run (sv.removeWritePeriods g) ops).map Prod.snd =
        some [.ofWrite .writeFAILURE []] :=
  ⟨(((create 1).addWritePeriod 10 0 ⟨0, 0⟩).writeWithRollback ⟨12, 5⟩ 20 2 .empty).1, 5,
    [.writeWithRollback ⟨11, 4⟩ 30 5],
    (reachable_write_at_two (fun _ => True) 1 10 20).reachable,
    by simp [Admits], by decide, by decide⟩

end StateVariable
end PdesMas
