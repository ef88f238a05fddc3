import Mathlib.Data.List.Chain
import PdesMas.State.Effect

/-!
The order of the write periods. Starts never decrease, and of two neighbours
with one start the earlier would not have won the tie-break against the later.
The tie-break is no order on agents, so the second part is about neighbours
only; it survives rollbacks because they remove the first period of a group.
-/

namespace PdesMas.Timeline
universe u
variable {V : Type u}

def Follows (a b : Entry V) : Prop :=
  a.start ≤ b.start ∧ (a.start = b.start → a.agent.gt b.agent = false)

def WellOrdered (l : List (Entry V)) : Prop := l.IsChain Follows

theorem Follows.of_lt {a b : Entry V} (h : a.start < b.start) : Follows a b :=
  ⟨Nat.le_of_lt h, fun he => absurd he (Nat.ne_of_lt h)⟩

theorem WellOrdered.sorted {l : List (Entry V)} (h : WellOrdered l) :
    l.Pairwise fun a b => a.start ≤ b.start := by
  have hchain : l.IsChain fun a b => a.start ≤ b.start :=
    List.IsChain.imp (fun _ _ hab => hab.1) h
  have htrans : Trans (fun a b : Entry V => a.start ≤ b.start)
      (fun a b : Entry V => a.start ≤ b.start) (fun a b : Entry V => a.start ≤ b.start) :=
    ⟨fun hab hbc => Nat.le_trans hab hbc⟩
  exact hchain.pairwise

theorem WellOrdered.le_focus {A B : List (Entry V)} {e : Entry V}
    (h : WellOrdered (A ++ e :: B)) : ∀ x ∈ A, x.start ≤ e.start := by
  intro x hx
  exact (List.pairwise_append.mp h.sorted).2.2 x hx e (by simp)

theorem WellOrdered.focus_le {A B : List (Entry V)} {e : Entry V}
    (h : WellOrdered (A ++ e :: B)) : ∀ x ∈ B, e.start ≤ x.start := by
  intro x hx
  have hback := (List.pairwise_append.mp h.sorted).2.1
  exact (List.pairwise_cons.mp hback).1 x hx

private theorem follows_update {a b a' b' : Entry V} (h : Follows a b)
    (ha : a'.start = a.start ∧ a'.agent = a.agent)
    (hb : b'.start = b.start ∧ b'.agent = b.agent) : Follows a' b' := by
  simpa [Follows, ha.1, ha.2, hb.1, hb.2] using h

/-- The order looks at starts and agents only. -/
theorem WellOrdered.update {A B : List (Entry V)} {e e' : Entry V}
    (h : WellOrdered (A ++ e :: B)) (hs : e'.start = e.start) (ha : e'.agent = e.agent) :
    WellOrdered (A ++ e' :: B) := by
  have h' := List.isChain_append.mp h
  refine List.isChain_append.mpr ⟨h'.1, ?_, ?_⟩
  · refine List.isChain_cons.mpr ⟨?_, (List.isChain_cons.mp h'.2.1).2⟩
    intro y hy
    exact follows_update ((List.isChain_cons.mp h'.2.1).1 y hy) ⟨hs, ha⟩ ⟨rfl, rfl⟩
  · intro x hx y hy
    obtain rfl : e' = y := by simpa using hy
    exact follows_update (h'.2.2 x hx e (by simp)) ⟨rfl, rfl⟩ ⟨hs, ha⟩

theorem WellOrdered.insert {A B : List (Entry V)} {e n : Entry V}
    (h : WellOrdered (A ++ e :: B)) (hn : Follows e n) (hB : Later n.start B) :
    WellOrdered (A ++ e :: n :: B) := by
  have h' := List.isChain_split.mp h
  refine List.isChain_split.mpr ⟨h'.1, ?_⟩
  refine List.isChain_cons_cons.mpr ⟨hn, List.isChain_cons.mpr ⟨?_, ?_⟩⟩
  · intro y hy
    exact .of_lt (hB y (List.mem_of_mem_head? hy))
  · exact (List.isChain_cons.mp h'.2).2

theorem WellOrdered.erase {A B : List (Entry V)} {e : Entry V}
    (h : WellOrdered (A ++ e :: B)) (hA : NoneAt e.start A) : WellOrdered (A ++ B) := by
  have h' := List.isChain_append.mp h
  refine List.isChain_append.mpr ⟨h'.1, (List.isChain_cons.mp h'.2.1).2, ?_⟩
  intro x hx y hy
  have hxA : x ∈ A := List.mem_of_getLast? hx
  have hxe := h.le_focus x hxA
  have hey := h.focus_le y (List.mem_of_mem_head? hy)
  exact .of_lt (Nat.lt_of_lt_of_le (Nat.lt_of_le_of_ne hxe (hA x hxA)) hey)

/-- The periods a collection erases are those that started before `time`. -/
theorem WellOrdered.dropWhile_eq_filter {A B : List (Entry V)} {e : Entry V} {time : Nat}
    (h : WellOrdered (A ++ e :: B)) (he : e.start ≤ time) :
    A.dropWhile (fun x => x.start != time) = A.filter (Entry.startsAt time) := by
  have hsorted := (List.pairwise_append.mp h.sorted).1
  have hle : ∀ x ∈ A, x.start ≤ time := fun x hx => Nat.le_trans (h.le_focus x hx) he
  clear h
  induction A with
  | nil => rfl
  | cons a A ih =>
      obtain ⟨ha, hA⟩ := List.pairwise_cons.mp hsorted
      by_cases hat : a.start = time
      · have hall : ∀ x ∈ A, Entry.startsAt time x = true := by
          intro x hx
          have hax := ha x hx
          have hxt := hle x (by simp [hx])
          simp only [Entry.startsAt_iff]
          omega
        simp [hat, Entry.startsAt, List.filter_eq_self.mpr hall]
      · simp [hat, Entry.startsAt, ih hA fun x hx => hle x (by simp [hx])]

theorem WellOrdered.filter_startsAt_eq_nil {A B : List (Entry V)} {e : Entry V} {time : Nat}
    (h : WellOrdered (A ++ e :: B)) (he : e.start < time) :
    A.filter (Entry.startsAt time) = [] := by
  simp only [List.filter_eq_nil_iff, Entry.startsAt_iff]
  intro x hx
  have := h.le_focus x hx
  omega

theorem WellOrdered.collect {A B : List (Entry V)} {e : Entry V} {time : Nat}
    (h : WellOrdered (A ++ e :: B)) (he : e.start ≤ time) (hB : Later time B) :
    WellOrdered ((A.dropWhile fun x => x.start != time) ++ e.restamp time :: B) := by
  have hback : WellOrdered (e.restamp time :: B) := by
    refine List.isChain_cons.mpr ⟨?_, (List.isChain_cons.mp (List.isChain_append.mp h).2.1).2⟩
    intro y hy
    exact .of_lt (hB y (List.mem_of_mem_head? hy))
  rcases Nat.lt_or_eq_of_le he with hlt | heq
  · rw [h.dropWhile_eq_filter he, h.filter_startsAt_eq_nil hlt]
    exact hback
  · have hdrop : WellOrdered ((A.dropWhile fun x => x.start != time) ++ e :: B) := by
      refine List.IsChain.suffix h ?_
      obtain ⟨front, hfront⟩ := List.dropWhile_suffix (fun x : Entry V => x.start != time) (l := A)
      exact ⟨front, by rw [← List.append_assoc, hfront]⟩
    exact hdrop.update heq.symm rfl

theorem wellOrdered_step {l l' : List (Entry V)} {op : Operation V} {o : Outcome V}
    (h : Effect l op l' o) (hl : WellOrdered l) : WellOrdered l' := by
  cases h with
  | read | readRollback => exact hl.update rfl rfl
  | writeFirst => exact .singleton _
  | writeTooEarly | writeRejected | writeRollbackMissing | writeRollbackForeign
    | collectNothing => exact hl
  | @writeAccepted A B e agent value time he hB hok =>
      have hkeep : WellOrdered (A ++ e.keepBefore time :: B) := hl.update rfl rfl
      refine hkeep.insert ⟨he, fun heq => ?_⟩ hB
      exact Bool.eq_false_iff.mpr fun hgt => hok ⟨heq, hgt⟩
  | writeRollback agent time he hA hown =>
      subst he
      exact hl.erase hA
  | collect time he hB => exact hl.collect he hB

/-- Every read is recorded in a period that covers it. -/
structure ReadsInside (l : List (Entry V)) : Prop where
  lower : ∀ e ∈ l, ∀ r ∈ e.reads, e.start ≤ r.2
  upper : l.Pairwise fun a b => ∀ r ∈ a.reads, r.2 < b.start

/-- One period changes its reads, or moves forward in time, within its bounds. -/
private theorem ReadsInside.update {A A' B : List (Entry V)} {e e' : Entry V}
    (h : ReadsInside (A ++ e :: B)) (hA : A'.Sublist A) (hs : e.start ≤ e'.start)
    (hlow : ∀ r ∈ e'.reads, e'.start ≤ r.2)
    (hup : ∀ b ∈ B, ∀ r ∈ e'.reads, r.2 < b.start) : ReadsInside (A' ++ e' :: B) := by
  obtain ⟨hlower, hupper⟩ := h
  obtain ⟨hpA, hpB, _, hAe, hAB⟩ := Cut.pairwise_iff.mp hupper
  refine ⟨?_, Cut.pairwise_iff.mpr ⟨hpA.sublist hA, hpB, hup, ?_, ?_⟩⟩
  · intro x hx
    rcases List.mem_append.mp hx with hx | hx
    · exact hlower x (by simp [hA.subset hx])
    · rcases List.mem_cons.mp hx with rfl | hx
      · exact hlow
      · exact hlower x (by simp [hx])
  · exact fun a ha r hr => Nat.lt_of_lt_of_le (hAe a (hA.subset ha) r hr) hs
  · exact fun a ha => hAB a (hA.subset ha)

private theorem ReadsInside.bounds {A B : List (Entry V)} {e : Entry V}
    (h : ReadsInside (A ++ e :: B)) :
    (∀ r ∈ e.reads, e.start ≤ r.2) ∧ ∀ b ∈ B, ∀ r ∈ e.reads, r.2 < b.start :=
  ⟨h.lower e (by simp), (Cut.pairwise_iff.mp h.upper).2.2.1⟩

private theorem ReadsInside.insert {A B : List (Entry V)} {e n : Entry V}
    (h : ReadsInside (A ++ e :: B)) (hn : n.reads = []) (hen : e.start ≤ n.start)
    (hreads : ∀ r ∈ e.reads, r.2 < n.start) : ReadsInside (A ++ e :: n :: B) := by
  obtain ⟨hlower, hupper⟩ := h
  obtain ⟨hpA, hpB, heB, hAe, hAB⟩ := Cut.pairwise_iff.mp hupper
  refine ⟨?_, Cut.pairwise_iff.mpr ⟨hpA, ?_, ?_, hAe, ?_⟩⟩
  · intro x hx
    rcases List.mem_append.mp hx with hx | hx
    · exact hlower x (by simp [hx])
    · rcases List.mem_cons.mp hx with rfl | hx
      · exact hlower x (by simp)
      · rcases List.mem_cons.mp hx with rfl | hx
        · simp [hn]
        · exact hlower x (by simp [hx])
  · exact List.pairwise_cons.mpr ⟨by simp [hn], hpB⟩
  · exact List.forall_mem_cons.mpr ⟨hreads, heB⟩
  · exact fun a ha => List.forall_mem_cons.mpr
      ⟨fun r hr => Nat.lt_of_lt_of_le (hAe a ha r hr) hen, hAB a ha⟩

theorem readsInside_step {l l' : List (Entry V)} {op : Operation V} {o : Outcome V}
    (h : Effect l op l' o) (hl : ReadsInside l) : ReadsInside l' := by
  cases h with
  | @read A B e agent time he hB =>
      obtain ⟨hlow, hup⟩ := hl.bounds
      refine hl.update (List.Sublist.refl _) (le_refl _) ?_ ?_
      · intro r hr
        rcases Entry.mem_record.mp hr with rfl | hr
        · exact he
        · exact hlow r hr
      · intro b hb r hr
        rcases Entry.mem_record.mp hr with rfl | hr
        · exact hB b hb
        · exact hup b hb r hr
  | writeFirst => exact ⟨by simp [Entry.fresh], by simp⟩
  | writeTooEarly | writeRejected | writeRollbackMissing | writeRollbackForeign
    | collectNothing => exact hl
  | @writeAccepted A B e agent value time he hB hok =>
      obtain ⟨hlow, hup⟩ := hl.bounds
      have hkeep : ReadsInside (A ++ e.keepBefore time :: B) := by
        refine hl.update (List.Sublist.refl _) (le_refl _) ?_ ?_
        · exact fun r hr => hlow r (List.mem_of_mem_filter hr)
        · exact fun b hb r hr => hup b hb r (List.mem_of_mem_filter hr)
      refine hkeep.insert rfl he fun r hr => ?_
      have hlt : r.2 < time := by simpa using (List.mem_filter.mp hr).2
      exact hlt
  | readRollback =>
      obtain ⟨hlow, hup⟩ := hl.bounds
      refine hl.update (List.Sublist.refl _) (le_refl _) ?_ ?_
      · exact fun r hr => hlow r (List.mem_of_mem_filter hr)
      · exact fun b hb r hr => hup b hb r (List.mem_of_mem_filter hr)
  | @writeRollback A B e agent time he hA hown =>
      have hsub : (A ++ B).Sublist (A ++ e :: B) :=
        (List.Sublist.refl A).append (List.sublist_cons_self e B)
      exact ⟨fun x hx => hl.lower x (hsub.subset hx), hl.upper.sublist hsub⟩
  | @collect A B e time he hB =>
      obtain ⟨_, hup⟩ := hl.bounds
      refine hl.update (List.dropWhile_sublist _) he ?_ ?_
      · intro r hr
        have hle : time ≤ r.2 := by simpa using (List.mem_filter.mp hr).2
        exact hle
      · exact fun b hb r hr => hup b hb r (List.mem_of_mem_filter hr)

end PdesMas.Timeline

namespace PdesMas.StateVariable
universe u
variable {V : Type u}

/-- The variables of a shared state: a new one gets at most its initial period
from `addWritePeriod`, and then only goes through operations that are allowed. -/
inductive ReachableBy (allowed : Operation V → Prop) : StateVariable V → Prop
  | create (id : SsvId) : ReachableBy allowed (create id)
  | addWritePeriod {sv} (value : V) (time : Nat) (agentID : LpId) : ReachableBy allowed sv →
      sv.writePeriodList = [] → ReachableBy allowed (sv.addWritePeriod value time agentID)
  | exec {sv sv' op o} : ReachableBy allowed sv → allowed op → sv.exec op = some (sv', o) →
      ReachableBy allowed sv'

def Reachable (sv : StateVariable V) : Prop := ReachableBy (fun _ => True) sv

theorem ReachableBy.reachable {allowed : Operation V → Prop} {sv : StateVariable V}
    (h : ReachableBy allowed sv) : Reachable sv := by
  induction h with
  | create id => exact .create id
  | addWritePeriod value time agentID _ hempty ih =>
      exact .addWritePeriod value time agentID ih hempty
  | exec _ _ hexec ih => exact .exec ih trivial hexec

theorem Reachable.create (id : SsvId) : Reachable (StateVariable.create id : StateVariable V) :=
  ReachableBy.create id

theorem Reachable.addWritePeriod {sv : StateVariable V} (value : V) (time : Nat)
    (agentID : LpId) (h : Reachable sv) (hempty : sv.writePeriodList = []) :
    Reachable (sv.addWritePeriod value time agentID) :=
  ReachableBy.addWritePeriod value time agentID h hempty

theorem Reachable.exec {sv sv' : StateVariable V} {op : Operation V} {o : Outcome V}
    (h : Reachable sv) (hexec : sv.exec op = some (sv', o)) : Reachable sv' :=
  ReachableBy.exec h trivial hexec

theorem entries_addWritePeriod {sv : StateVariable V} (value : V) (time : Nat) (agentID : LpId)
    (hempty : sv.writePeriodList = []) :
    (sv.addWritePeriod value time agentID).entries = [Entry.fresh agentID value time] := by
  simp [entries, StateVariable.addWritePeriod, hempty, WritePeriod.entry, WritePeriod.create,
    Entry.fresh]

theorem Reachable.invariant {sv : StateVariable V} (h : Reachable sv) :
    Timeline.WellOrdered sv.entries ∧ Timeline.ReadsInside sv.entries := by
  induction h with
  | create id => exact ⟨.nil, ⟨by simp [StateVariable.create, entries], .nil⟩⟩
  | addWritePeriod value time agentID _ hempty _ =>
      rw [entries_addWritePeriod value time agentID hempty]
      exact ⟨.singleton _, ⟨by simp [Entry.fresh], by simp⟩⟩
  | exec _ _ hexec ih =>
      have heff := Timeline.effect_of_exec hexec
      exact ⟨Timeline.wellOrdered_step heff ih.1, Timeline.readsInside_step heff ih.2⟩

end PdesMas.StateVariable
