import PdesMas.State.Ordered

/-!
The shape of a write period list. The periods follow one another without gaps up
to an open end, and a read is recorded in the one period that a read at its time
would find. Every operation moves the end of the period before the place where
it inserts or erases, so that the ends fit again.
-/

namespace PdesMas
universe u
variable {V : Type u}

/-- The virtual time of a call. -/
def Operation.time : Operation V → Nat
  | .read _ time => time
  | .writeWithRollback _ _ time => time
  | .performReadRollback _ time => time
  | .performWriteRollback _ time => time
  | .removeWritePeriods time => time

namespace Timeline

variable {bound : Nat}

/-- Every period starts before `bound`. -/
def Within (bound : Nat) (l : List (Entry V)) : Prop := ∀ e ∈ l, e.start < bound

@[simp] theorem within_append (A B : List (Entry V)) :
    Within bound (A ++ B) ↔ Within bound A ∧ Within bound B := List.forall_mem_append

@[simp] theorem within_cons (e : Entry V) (l : List (Entry V)) :
    Within bound (e :: l) ↔ e.start < bound ∧ Within bound l := List.forall_mem_cons

theorem Within.sublist {l l' : List (Entry V)} (h : Within bound l) (hsub : l'.Sublist l) :
    Within bound l' := fun e he => h e (hsub.subset he)

/-- A period starts at the time of a call, or where one started before. -/
theorem within_step {l l' : List (Entry V)} {op : Operation V} {o : Outcome V}
    (h : Effect l op l' o) (ht : op.time < bound) (hl : Within bound l) : Within bound l' := by
  cases h with
  | read | readRollback =>
      rw [within_append, within_cons] at *
      exact hl
  | writeFirst => exact fun e he => List.mem_singleton.mp he ▸ ht
  | writeTooEarly | writeRejected | writeRollbackMissing | writeRollbackForeign
    | collectNothing => exact hl
  | writeAccepted =>
      rw [within_append, within_cons] at *
      rw [within_cons]
      exact ⟨hl.1, hl.2.1, ht, hl.2.2⟩
  | writeRollback => exact hl.sublist ((List.Sublist.refl _).append (List.sublist_cons_self _ _))
  | collect =>
      rw [within_append, within_cons] at *
      exact ⟨hl.1.sublist (List.dropWhile_sublist _), ht, hl.2.2⟩

end Timeline

namespace WritePeriod

/-- A period that ends at `time` is followed by one that starts then, or ends the list and
is open. -/
def Meets (time : Nat) : List (WritePeriod V) → Prop
  | [] => LONG_MAX ≤ time
  | q :: _ => time = q.startTime

/-- Each period ends where the next one starts, and the last one is open. -/
def Tiles : List (WritePeriod V) → Prop
  | [] => True
  | p :: rest => Meets p.endTime rest ∧ Tiles rest

/-- Each period ends where the next one starts, and the last one at `time`. -/
def TilesTo (time : Nat) : List (WritePeriod V) → Prop
  | [] => True
  | [p] => p.endTime = time
  | p :: q :: rest => p.endTime = q.startTime ∧ TilesTo time (q :: rest)

theorem tiles_append_cons {A B : List (WritePeriod V)} {p : WritePeriod V} :
    Tiles (A ++ p :: B) ↔ TilesTo p.startTime A ∧ Meets p.endTime B ∧ Tiles B := by
  induction A with
  | nil => simp [Tiles, TilesTo]
  | cons x A ih =>
      cases A with
      | nil => simp [Tiles, TilesTo, Meets]
      | cons y A =>
          rw [List.cons_append, Tiles, ih, TilesTo, and_assoc]
          exact Iff.rfl

theorem Tiles.of_append {A B : List (WritePeriod V)} (h : Tiles (A ++ B)) : Tiles B := by
  induction A with
  | nil => exact h
  | cons x A ih => exact ih h.2

/-- Where a period is erased, the end of the one before it moves on. -/
theorem TilesTo.setLastEndTime {time newTime : Nat} {A B : List (WritePeriod V)}
    (hA : TilesTo time A) (hmeets : Meets newTime B) (hB : Tiles B) :
    Tiles (StateVariable.setLastEndTime newTime A ++ B) := by
  induction A with
  | nil => exact hB
  | cons p A ih =>
      cases A with
      | nil => exact ⟨hmeets, hB⟩
      | cons q A =>
          refine ⟨?_, ih hA.2⟩
          cases A with
          | nil => exact hA.1
          | cons r A => exact hA.1

end WritePeriod

namespace StateVariable

open WritePeriod

variable {sv sv' : StateVariable V} {o : Outcome V}

theorem walkBack_some {time : Nat} {c : Cut (WritePeriod V)} (h : sv.walkBack time = some c) :
    c.front ++ c.focus :: c.back = sv.writePeriodList ∧ c.focus.startTime ≤ time := by
  obtain ⟨hl, hstart, _⟩ := Cut.last?_eq_some.mp h
  exact ⟨hl, of_decide_eq_true hstart⟩

theorem tiles_read {agent : LpId} {time : Nat} (ht : Tiles sv.writePeriodList)
    (h : sv.exec (.read agent time) = some (sv', o)) : Tiles sv'.writePeriodList := by
  simp only [exec, read, Option.map_map, Option.map_eq_some_iff] at h
  obtain ⟨c, hc, heq⟩ := h
  cases heq
  rw [← (walkBack_some hc).1, tiles_append_cons] at ht
  exact tiles_append_cons.mpr ht

theorem tiles_performReadRollback {agent : LpId} {time : Nat} (ht : Tiles sv.writePeriodList)
    (h : sv.exec (.performReadRollback agent time) = some (sv', o)) :
    Tiles sv'.writePeriodList := by
  simp only [exec, performReadRollback, Option.map_map, Option.map_eq_some_iff] at h
  obtain ⟨c, hc, heq⟩ := h
  cases heq
  rw [← (walkBack_some hc).1, tiles_append_cons] at ht
  exact tiles_append_cons.mpr ht

theorem LONG_MAX_le_ULONG_MAX : LONG_MAX ≤ ULONG_MAX := by decide

theorem tiles_writeWithRollback {agent : LpId} {value : V} {time : Nat}
    (ht : Tiles sv.writePeriodList)
    (h : sv.exec (.writeWithRollback agent value time) = some (sv', o)) :
    Tiles sv'.writePeriodList := by
  cases h
  simp only [writeWithRollback]
  split
  · exact ⟨LONG_MAX_le_ULONG_MAX, trivial⟩
  · cases hc : sv.walkBack time with
    | none => exact ht
    | some c =>
        rw [← (walkBack_some hc).1, tiles_append_cons] at ht
        obtain ⟨hfront, hmeets, hback⟩ := ht
        simp only
        split
        · rw [← (walkBack_some hc).1]
          exact tiles_append_cons.mpr ⟨hfront, hmeets, hback⟩
        · cases hb : c.back with
          | nil => exact tiles_append_cons.mpr ⟨hfront, rfl, LONG_MAX_le_ULONG_MAX, trivial⟩
          | cons next rest =>
              rw [hb] at hback
              exact tiles_append_cons.mpr ⟨hfront, rfl, rfl, hback⟩

theorem tiles_performWriteRollback {agent : LpId} {time : Nat} (ht : Tiles sv.writePeriodList)
    (h : sv.exec (.performWriteRollback agent time) = some (sv', o)) :
    Tiles sv'.writePeriodList := by
  cases h
  simp only [performWriteRollback]
  cases hc : Cut.first? (fun p => decide (p.startTime = time)) sv.writePeriodList with
  | none => exact ht
  | some c =>
      simp only
      split
      · exact ht
      · have hl : c.front ++ c.focus :: c.back = sv.writePeriodList :=
          (Cut.first?_eq_some.mp hc).1
        rw [← hl, tiles_append_cons] at ht
        obtain ⟨hfront, hmeets, hback⟩ := ht
        split
        · trivial
        · split
          · have hopen : Tiles (setLastEndTime LONG_MAX c.front ++ []) :=
              hfront.setLastEndTime (le_refl _) trivial
            simpa using hopen
          · split
            · exact hback
            · exact hfront.setLastEndTime hmeets hback

theorem tiles_removeWritePeriods {time : Nat}
    (hsorted : sv.writePeriodList.Pairwise fun p q => p.startTime ≤ q.startTime)
    (ht : Tiles sv.writePeriodList)
    (h : sv.exec (.removeWritePeriods time) = some (sv', o)) : Tiles sv'.writePeriodList := by
  cases h
  simp only [removeWritePeriods]
  cases hc : sv.walkBack time with
  | none => exact ht
  | some c =>
      obtain ⟨hl, hstart⟩ := walkBack_some hc
      rw [← hl] at hsorted ht
      obtain ⟨hfront, hmeets, hback⟩ := tiles_append_cons.mp ht
      by_cases htime : c.focus.startTime = time
      · -- Nothing moves, and what is erased is a part at the front.
        have hkept : Tiles (c.front ++ (c.focus.setStartTime time).removeReadsBefore time ::
            c.back) :=
          tiles_append_cons.mpr ⟨by simpa [removeReadsBefore, setStartTime, ← htime] using hfront,
            hmeets, hback⟩
        rw [← List.takeWhile_append_dropWhile
          (p := fun p => p.startTime != ((c.focus.setStartTime time).removeReadsBefore
            time).startTime)
          (l := c.front ++ (c.focus.setStartTime time).removeReadsBefore time :: c.back)] at hkept
        exact hkept.of_append
      · have herased : ∀ p ∈ c.front, (p.startTime != time) = true := by
          intro p hp
          have hle := (List.pairwise_append.mp hsorted).2.2 p hp c.focus (by simp)
          simp only [bne_iff_ne]
          omega
        have hdrop : (c.front ++ (c.focus.setStartTime time).removeReadsBefore time ::
            c.back).dropWhile (fun p => p.startTime != time) =
              (c.focus.setStartTime time).removeReadsBefore time :: c.back := by
          rw [List.dropWhile_append_of_pos herased]
          simp [setStartTime, removeReadsBefore]
        change Tiles ((c.front ++ (c.focus.setStartTime time).removeReadsBefore time ::
          c.back).dropWhile (fun p => p.startTime != time))
        rw [hdrop]
        exact ⟨hmeets, hback⟩

/-- What every operation keeps. -/
structure Shaped (sv : StateVariable V) : Prop where
  ordered : Timeline.WellOrdered sv.entries
  reads : Timeline.ReadsInside sv.entries
  within : Timeline.Within LONG_MAX sv.entries
  tiles : Tiles sv.writePeriodList

theorem Shaped.sorted (h : sv.Shaped) :
    sv.writePeriodList.Pairwise fun p q => p.startTime ≤ q.startTime := by
  have hsorted := h.ordered.sorted
  rw [entries, List.pairwise_map] at hsorted
  exact hsorted

theorem Shaped.exec {op : Operation V} (h : sv.Shaped) (htime : op.time < LONG_MAX)
    (hexec : sv.exec op = some (sv', o)) : sv'.Shaped := by
  have heffect := Timeline.effect_of_exec hexec
  refine ⟨Timeline.wellOrdered_step heffect h.ordered, Timeline.readsInside_step heffect h.reads,
    Timeline.within_step heffect htime h.within, ?_⟩
  cases op with
  | read agent time => exact tiles_read h.tiles hexec
  | writeWithRollback agent value time => exact tiles_writeWithRollback h.tiles hexec
  | performReadRollback agent time => exact tiles_performReadRollback h.tiles hexec
  | performWriteRollback agent time => exact tiles_performWriteRollback h.tiles hexec
  | removeWritePeriods time => exact tiles_removeWritePeriods h.sorted h.tiles hexec

theorem shaped_addWritePeriod (id : SsvId) (value : V) {time : Nat} (agentID : LpId)
    (htime : time < LONG_MAX) : ((create id).addWritePeriod value time agentID).Shaped where
  ordered := .singleton _
  reads := ⟨by simp [entries, addWritePeriod, StateVariable.create, WritePeriod.create,
    WritePeriod.entry], by simp [entries, addWritePeriod, StateVariable.create]⟩
  within := fun e he => List.mem_singleton.mp he ▸ htime
  tiles := ⟨LONG_MAX_le_ULONG_MAX, trivial⟩

/-- The periods are sorted and meet, the last one is open, of the periods with one start
just the last is not empty, and a read at the time of a recorded read would find the
period that has the record. -/
structure WellFormed (sv : StateVariable V) : Prop where
  sorted : sv.writePeriodList.Pairwise fun p q => p.startTime ≤ q.startTime
  meets : sv.writePeriodList.IsChain fun p q => p.endTime = q.startTime
  openEnded : ∀ p, sv.writePeriodList.getLast? = some p → LONG_MAX ≤ p.endTime
  nonEmpty : ∀ A p B, sv.writePeriodList = A ++ p :: B →
    (p.startTime < p.endTime ↔ ∀ q ∈ B, q.startTime ≠ p.startTime)
  placed : ∀ A p B, sv.writePeriodList = A ++ p :: B →
    ∀ r ∈ p.agentReadMap, sv.walkBack r.2 = some ⟨A, p, B⟩

theorem isChain_of_tiles {l : List (WritePeriod V)} (h : Tiles l) :
    l.IsChain fun p q => p.endTime = q.startTime := by
  induction l with
  | nil => exact .nil
  | cons p l ih =>
      cases l with
      | nil => exact .singleton p
      | cons q l => exact List.isChain_cons_cons.mpr ⟨h.1, ih h.2⟩

/-- The reads of a period are not before its start, and before that of any later one. -/
theorem Shaped.bounds (h : sv.Shaped) {A B : List (WritePeriod V)} {p : WritePeriod V}
    (hl : sv.writePeriodList = A ++ p :: B) {r : LpId × Nat} (hr : r ∈ p.agentReadMap) :
    p.startTime ≤ r.2 ∧ ∀ q ∈ B, r.2 < q.startTime := by
  have hentries : sv.entries = A.map WritePeriod.entry ++ p.entry :: B.map WritePeriod.entry := by
    simp [entries, hl]
  refine ⟨h.reads.lower p.entry (by simp [hentries]) r hr, ?_⟩
  intro q hq
  have hupper := h.reads.upper
  rw [hentries] at hupper
  exact (Cut.pairwise_iff.mp hupper).2.2.1 q.entry (List.mem_map_of_mem hq) r hr

theorem Shaped.wellFormed (h : sv.Shaped) : sv.WellFormed := by
  refine ⟨h.sorted, isChain_of_tiles h.tiles, ?_, ?_, ?_⟩
  · intro p hp
    obtain ⟨A, hA⟩ := List.getLast?_eq_some_iff.mp hp
    have htiles := h.tiles
    rw [hA, tiles_append_cons] at htiles
    exact htiles.2.1
  · intro A p B hl
    have htiles := h.tiles
    have hsorted := h.sorted
    rw [hl] at htiles hsorted
    have hmeets := (tiles_append_cons.mp htiles).2.1
    obtain ⟨hnext, hrest⟩ := List.pairwise_cons.mp (List.pairwise_append.mp hsorted).2.1
    cases B with
    | nil =>
        have hstart : p.startTime < LONG_MAX := h.within p.entry (by simp [entries, hl])
        have hopen : LONG_MAX ≤ p.endTime := hmeets
        simp only [List.not_mem_nil, false_implies, implies_true, iff_true]
        exact Nat.lt_of_lt_of_le hstart hopen
    | cons q B =>
        have hend : p.endTime = q.startTime := hmeets
        have hle := hnext q (by simp)
        rw [hend]
        constructor
        · intro hlt x hx
          cases List.mem_cons.mp hx with
          | inl hx =>
              rw [hx]
              exact Nat.ne_of_gt hlt
          | inr hx =>
              have hqx := (List.pairwise_cons.mp hrest).1 x hx
              exact Nat.ne_of_gt (Nat.lt_of_lt_of_le hlt hqx)
        · intro hne
          exact Nat.lt_of_le_of_ne hle (Ne.symm (hne q (by simp)))
  · intro A p B hl r hr
    obtain ⟨hstart, hlater⟩ := h.bounds hl hr
    rw [walkBack, hl]
    refine Cut.last?_append A B p (decide_eq_true hstart) ?_
    intro q hq
    exact decide_eq_false (Nat.not_le.mpr (hlater q hq))

/-- No period has a record of a read of `agent` at `time`. -/
def NoRead (sv : StateVariable V) (agent : LpId) (time : Nat) : Prop :=
  ∀ p ∈ sv.writePeriodList, (agent, time) ∉ p.agentReadMap

/-- No read of `agent` at `time` is recorded once it is rolled back, nor was one before if
the walk falls off the list. -/
def Withdraws (sv : StateVariable V) (agent : LpId) (time : Nat) : Prop :=
  match sv.performReadRollback agent time with
  | some sv' => sv'.NoRead agent time
  | none => sv.NoRead agent time

/-- The record of a read is in the period that the reverse walk to its time finds. -/
theorem Shaped.focus_of_read (h : sv.Shaped) {agent : LpId} {time : Nat} {p : WritePeriod V}
    (hp : p ∈ sv.writePeriodList) (hr : (agent, time) ∈ p.agentReadMap) :
    ∃ A B, sv.writePeriodList = A ++ p :: B ∧ sv.walkBack time = some ⟨A, p, B⟩ := by
  obtain ⟨A, B, hl⟩ := List.append_of_mem hp
  exact ⟨A, B, hl, h.wellFormed.placed A p B hl _ hr⟩

theorem Shaped.noRead_of_missing (h : sv.Shaped) {agent : LpId} {time : Nat}
    (hmissing : sv.performReadRollback agent time = none) : sv.NoRead agent time := by
  intro p hp hr
  obtain ⟨A, B, _, hwalk⟩ := h.focus_of_read hp hr
  rw [performReadRollback, hwalk] at hmissing
  cases hmissing

theorem Shaped.noRead (h : sv.Shaped) {agent : LpId} {time : Nat}
    (hrollback : sv.performReadRollback agent time = some sv') : sv'.NoRead agent time := by
  obtain ⟨c, hc, rfl⟩ := Option.map_eq_some_iff.mp hrollback
  intro p hp hr
  cases List.mem_append.mp hp with
  | inl hfront =>
      -- A record before the period that is searched would have to be in that period.
      obtain ⟨A, B, hA⟩ := List.append_of_mem hfront
      have hl : sv.writePeriodList = A ++ p :: (B ++ c.focus :: c.back) := by
        rw [← (walkBack_some hc).1, hA]
        simp
      have hlater := (h.bounds hl hr).2 c.focus (by simp)
      exact absurd (walkBack_some hc).2 (Nat.not_le.mpr hlater)
  | inr hrest =>
      cases List.mem_cons.mp hrest with
      | inl hfocus =>
          rw [hfocus] at hr
          simp [removeReadsByAgent] at hr
      | inr hback =>
          obtain ⟨A, B, hA⟩ := List.append_of_mem hback
          have hl : sv.writePeriodList = (c.front ++ c.focus :: A) ++ p :: B := by
            rw [← (walkBack_some hc).1, hA]
            simp
          have hstart := (h.bounds hl hr).1
          have hlater := of_decide_eq_false ((Cut.last?_eq_some.mp hc).2.2 p hback)
          exact hlater hstart

theorem shaped_run {ops : List (Operation V)} {os : List (Outcome V)} (h : sv.Shaped)
    (htimes : ∀ op ∈ ops, op.time < LONG_MAX)
    (hrun : (machine V).run sv ops = some (sv', os)) : sv'.Shaped := by
  induction ops generalizing sv os with
  | nil =>
      obtain ⟨rfl, _⟩ : sv = sv' ∧ [] = os := by simpa using hrun
      exact h
  | cons op ops ih =>
      obtain ⟨sv₁, o, os', hexec, hrest, _⟩ := (machine V).run_cons_iff.mp hrun
      exact ih (h.exec (htimes op (by simp)) hexec)
        (fun op' hop' => htimes op' (List.mem_cons_of_mem _ hop')) hrest

/-- Whatever calls a variable has had since its initial period, its list is well formed, and
a read that is rolled back then is recorded nowhere. -/
theorem periods_wellFormed (id : SsvId) (value : V) (time : Nat) (agentID : LpId)
    (htime : time < LONG_MAX) (ops : List (Operation V))
    (htimes : ∀ op ∈ ops, op.time < LONG_MAX) (sv : StateVariable V) (os : List (Outcome V))
    (hrun : (machine V).run ((create id).addWritePeriod value time agentID) ops =
      some (sv, os)) :
    sv.WellFormed ∧ ∀ agent t, sv.Withdraws agent t := by
  have hshaped := shaped_run (shaped_addWritePeriod id value agentID htime) htimes hrun
  refine ⟨hshaped.wellFormed, ?_⟩
  intro agent t
  rw [Withdraws]
  split
  · rename_i sv' hrollback
    exact hshaped.noRead hrollback
  · rename_i hrollback
    exact hshaped.noRead_of_missing hrollback

/-- Two writes, reads on both sides of them, rollbacks of one read and one write, and a
collection. -/
def mixedCalls : List (Operation Nat) :=
  [.writeWithRollback ⟨1, 5⟩ 10 3, .read ⟨2, 6⟩ 2, .read ⟨3, 7⟩ 4, .writeWithRollback ⟨2, 6⟩ 20 3,
    .read ⟨3, 7⟩ 5, .performReadRollback ⟨3, 7⟩ 5, .performWriteRollback ⟨1, 5⟩ 3,
    .removeWritePeriods 2]

theorem periods_wellFormed_mixedCalls : ∃ sv os,
    (machine Nat).run ((create 7).addWritePeriod 0 0 ⟨0, 0⟩) mixedCalls = some (sv, os) ∧
      sv.WellFormed ∧ ∀ agent t, sv.Withdraws agent t := by
  have hreturns : ((machine Nat).run ((create 7).addWritePeriod 0 0 ⟨0, 0⟩)
      mixedCalls).isSome = true := by decide
  obtain ⟨⟨sv, os⟩, hrun⟩ := Option.isSome_iff_exists.mp hreturns
  exact ⟨sv, os, hrun, periods_wellFormed 7 0 0 ⟨0, 0⟩ (by decide) mixedCalls (by decide) sv os
    hrun⟩

end StateVariable
end PdesMas
