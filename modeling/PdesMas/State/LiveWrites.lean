import PdesMas.State.Ordered

/-!
A state variable as a timeline of live writes: every accepted write is live until
its own rollback, and a read sees the latest live write, the most recently
accepted one of those with equal times. The write period list agrees with the
timeline as long as every rollback undoes the earliest live write at its time,
since that is the one the source finds.
-/

namespace PdesMas
universe u
variable {V : Type u}

structure Write (V : Type u) where
  time : Nat
  agent : LpId
  value : V
deriving DecidableEq, Repr

def Entry.write (e : Entry V) : Write V := ⟨e.start, e.agent, e.value⟩

namespace LiveWrites

/-- The live write a read at `time` sees; the list is in order of acceptance. -/
def visible (time : Nat) : List (Write V) → Option (Write V)
  | [] => none
  | w :: later =>
      match visible time later with
      | some x => if x.time < w.time ∧ w.time ≤ time then some w else some x
      | none => if w.time ≤ time then some w else none

/-- The most recently accepted write of `agent` at `time` is no longer live. -/
def undo (agent : LpId) (time : Nat) (live : List (Write V)) : List (Write V) :=
  match Cut.last? (fun w => decide (w.agent = agent ∧ w.time = time)) live with
  | none => live
  | some c => c.front ++ c.back

def after (live : List (Write V)) (op : Operation V) (o : Outcome V) : List (Write V) :=
  match op with
  | .writeWithRollback agent value time =>
      if o.status = some .writeSUCCESS then live ++ [⟨time, agent, value⟩] else live
  | .performWriteRollback agent time => undo agent time live
  | .read .. | .performReadRollback .. | .removeWritePeriods .. => live

/-- A variable together with the writes accepted since its initial period. -/
def machine (V : Type u) :
    Machine (StateVariable V × List (Write V)) (Operation V) (Outcome V) :=
  ⟨fun s op => (s.1.exec op).map fun r => ((r.1, after s.2 op r.2), r.2)⟩

/-- Writes, and rollbacks of writes that were accepted and are still live. -/
def Proper (s : StateVariable V × List (Write V)) : Operation V → Prop
  | .writeWithRollback .. => True
  | .performWriteRollback agent time => ∃ w ∈ s.2, w.agent = agent ∧ w.time = time
  | .read .. | .performReadRollback .. | .removeWritePeriods .. => False

/-- The writes of a list, in its order, that are made at `time`. -/
def writesAt (time : Nat) (live : List (Write V)) : List (Write V) :=
  live.filter fun w => decide (w.time = time)

def FirstAndOnlyOf (agent : LpId) : List (Write V) → Prop
  | [] => False
  | w :: rest => w.agent = agent ∧ ∀ x ∈ rest, x.agent ≠ agent

/-- The write to roll back is the earliest of the live writes at its time, and the
only one of its agent. -/
def UndoesEarliest (initial : Write V) (s : StateVariable V × List (Write V)) :
    Operation V → Prop
  | .performWriteRollback agent time =>
      FirstAndOnlyOf agent (writesAt time (initial :: s.2))
  | .read .. | .writeWithRollback .. | .performReadRollback .. | .removeWritePeriods .. => True

instance (agent : LpId) : ∀ ws : List (Write V), Decidable (FirstAndOnlyOf agent ws)
  | [] => inferInstanceAs (Decidable False)
  | w :: rest =>
      inferInstanceAs (Decidable (w.agent = agent ∧ ∀ x ∈ rest, x.agent ≠ agent))

instance (s : StateVariable V × List (Write V)) : ∀ op, Decidable (Proper s op)
  | .writeWithRollback .. => inferInstanceAs (Decidable True)
  | .performWriteRollback agent time =>
      inferInstanceAs (Decidable (∃ w ∈ s.2, w.agent = agent ∧ w.time = time))
  | .read .. | .performReadRollback .. | .removeWritePeriods .. =>
      inferInstanceAs (Decidable False)

instance (initial : Write V) (s : StateVariable V × List (Write V)) :
    ∀ op, Decidable (UndoesEarliest initial s op)
  | .performWriteRollback agent time =>
      inferInstanceAs (Decidable (FirstAndOnlyOf agent (writesAt time (initial :: s.2))))
  | .read .. | .writeWithRollback .. | .performReadRollback .. | .removeWritePeriods .. =>
      inferInstanceAs (Decidable True)

theorem visible_eq_none {time : Nat} {live : List (Write V)} :
    visible time live = none ↔ ∀ w ∈ live, time < w.time := by
  induction live with
  | nil => simp [visible]
  | cons w later ih =>
      cases h : visible time later with
      | none =>
          have hlater := ih.mp h
          simpa [visible, h] using fun _ => hlater
      | some x =>
          have hlater : ¬ ∀ w ∈ later, time < w.time := by simp [← ih, h]
          have hsome : visible time (w :: later) ≠ none := by
            simp only [visible, h]
            split <;> simp
          simp only [hsome, List.forall_mem_cons, false_iff]
          exact fun hall => hlater hall.2

private theorem le_of_visible {time : Nat} {A B : List (Write V)} {w : Write V}
    (hA : ∀ x ∈ A, x.time ≤ time → x.time ≤ w.time)
    (hB : ∀ x ∈ B, x.time ≤ time → x.time < w.time) :
    ∀ x ∈ A ++ w :: B, x.time ≤ time → x.time ≤ w.time := by
  intro x hx hxt
  rcases List.mem_append.mp hx with hx | hx
  · exact hA x hx hxt
  · rcases List.mem_cons.mp hx with rfl | hx
    · exact le_refl _
    · exact Nat.le_of_lt (hB x hx hxt)

/-- The visible write has the greatest time, and is the last of those that have it. -/
theorem visible_eq_some {time : Nat} {live : List (Write V)} {w : Write V} :
    visible time live = some w ↔
      ∃ A B, live = A ++ w :: B ∧ w.time ≤ time ∧
        (∀ x ∈ A, x.time ≤ time → x.time ≤ w.time) ∧
        ∀ x ∈ B, x.time ≤ time → x.time < w.time := by
  induction live generalizing w with
  | nil => simp [visible]
  | cons v later ih =>
      constructor
      · intro h
        simp only [visible] at h
        split at h
        · rename_i x hx
          obtain ⟨A, B, rfl, hxt, hA, hB⟩ := ih.mp hx
          have hle := le_of_visible hA hB
          split at h
          · rename_i hlt
            cases h
            exact ⟨[], _, rfl, hlt.2, by simp,
              fun y hy hyt => Nat.lt_of_le_of_lt (hle y hy hyt) hlt.1⟩
          · rename_i hnlt
            cases h
            refine ⟨v :: A, B, rfl, hxt, ?_, hB⟩
            intro y hy hyt
            rcases List.mem_cons.mp hy with rfl | hy
            · exact Nat.le_of_not_lt fun hlt => hnlt ⟨hlt, hyt⟩
            · exact hA y hy hyt
        · rename_i hnone
          split at h
          · rename_i hvt
            cases h
            refine ⟨[], later, rfl, hvt, by simp, ?_⟩
            intro y hy hyt
            have := visible_eq_none.mp hnone y hy
            omega
          · cases h
      · rintro ⟨A, B, hl, hwt, hA, hB⟩
        cases A with
        | nil =>
            obtain ⟨rfl, rfl⟩ : v = w ∧ later = B := by simpa using hl
            simp only [visible]
            split
            · rename_i x hx
              obtain ⟨A', B', rfl, hxt, _⟩ := ih.mp hx
              rw [if_pos ⟨hB x (by simp) hxt, hwt⟩]
            · rw [if_pos hwt]
        | cons y A =>
            obtain ⟨rfl, rfl⟩ : v = y ∧ later = A ++ w :: B := by simpa using hl
            have hw := ih.mpr ⟨A, B, rfl, hwt, fun x hx => hA x (by simp [hx]), hB⟩
            have hvw := hA v (by simp)
            simp only [visible, hw]
            rw [if_neg fun h => Nat.not_lt.mpr (hvw h.2) h.1]

/-- The periods in order of time, and at each time in order of acceptance. -/
structure Agrees (l : List (Entry V)) (live : List (Write V)) : Prop where
  ordered : Timeline.WellOrdered l
  group : ∀ time, writesAt time (l.map Entry.write) = writesAt time live

@[simp] theorem writesAt_nil (time : Nat) : writesAt time ([] : List (Write V)) = [] := rfl

@[simp] theorem writesAt_append (time : Nat) (A B : List (Write V)) :
    writesAt time (A ++ B) = writesAt time A ++ writesAt time B := List.filter_append ..

@[simp] theorem writesAt_cons_self (w : Write V) (live : List (Write V)) :
    writesAt w.time (w :: live) = w :: writesAt w.time live := by simp [writesAt]

theorem writesAt_cons_of_ne {time : Nat} {w : Write V} (h : w.time ≠ time)
    (live : List (Write V)) : writesAt time (w :: live) = writesAt time live := by
  simp [writesAt, h]

theorem writesAt_eq_nil {time : Nat} {live : List (Write V)} :
    writesAt time live = [] ↔ ∀ w ∈ live, w.time ≠ time := by
  simp [writesAt]

theorem mem_writesAt {time : Nat} {w : Write V} {live : List (Write V)} :
    w ∈ writesAt time live ↔ w ∈ live ∧ w.time = time := by
  simp [writesAt]

@[simp] theorem write_record (e : Entry V) (agent : LpId) (time : Nat) :
    (e.record agent time).write = e.write := rfl

@[simp] theorem write_keepBefore (e : Entry V) (time : Nat) :
    (e.keepBefore time).write = e.write := rfl

@[simp] theorem write_withdraw (e : Entry V) (agent : LpId) (time : Nat) :
    (e.withdraw agent time).write = e.write := rfl

@[simp] theorem write_fresh (agent : LpId) (value : V) (time : Nat) :
    (Entry.fresh agent value time).write = ⟨time, agent, value⟩ := rfl

@[simp] theorem writesAt_eq_nil_of_later {time : Nat} {l : List (Entry V)}
    (h : Timeline.Later time l) : writesAt time (l.map Entry.write) = [] := by
  refine writesAt_eq_nil.mpr fun w hw => ?_
  obtain ⟨e, he, rfl⟩ := List.mem_map.mp hw
  exact Nat.ne_of_gt (h e he)

theorem writesAt_eq_nil_of_noneAt {time : Nat} {l : List (Entry V)}
    (h : Timeline.NoneAt time l) : writesAt time (l.map Entry.write) = [] := by
  refine writesAt_eq_nil.mpr fun w hw => ?_
  obtain ⟨e, he, rfl⟩ := List.mem_map.mp hw
  exact h e he

namespace Agrees

variable {l : List (Entry V)} {live : List (Write V)}

theorem exists_entry (h : Agrees l live) {w : Write V} (hw : w ∈ live) :
    ∃ e ∈ l, e.write = w := by
  have hmem : w ∈ writesAt w.time live := mem_writesAt.mpr ⟨hw, rfl⟩
  rw [← h.group] at hmem
  exact List.mem_map.mp (mem_writesAt.mp hmem).1

/-- The last write of a group is the last of its writes in order of acceptance. -/
theorem split_last (h : Agrees l live) {A B : List (Entry V)} {e : Entry V}
    (hl : l = A ++ e :: B) (hB : Timeline.Later e.start B) :
    ∃ A' B', live = A' ++ e.write :: B' ∧ ∀ x ∈ B', x.time ≠ e.start := by
  have hgroup : writesAt e.start live = writesAt e.start (A.map Entry.write) ++ [e.write] := by
    rw [← h.group, hl]
    have hself : writesAt e.start (e.write :: B.map Entry.write) =
        e.write :: writesAt e.start (B.map Entry.write) := writesAt_cons_self e.write _
    simp [hself, hB]
  obtain ⟨L, M, rfl, _, hM⟩ := List.filter_eq_append_iff.mp hgroup
  obtain ⟨M₁, M₂, rfl, _, _, hM₂⟩ := List.filter_eq_cons_iff.mp hM
  exact ⟨L ++ M₁, M₂, by simp, writesAt_eq_nil.mp hM₂⟩

/-- A read of the list sees the live write a read of the timeline sees. -/
theorem valueAt (h : Agrees l live) (time : Nat) :
    Timeline.valueAt time l = (visible time live).map Write.value := by
  cases hc : Cut.last? (Entry.reaches time) l with
  | none =>
      have hlater := Timeline.last?_reaches_eq_none.mp hc
      have hvisible : visible time live = none := by
        refine visible_eq_none.mpr fun w hw => ?_
        obtain ⟨e, he, rfl⟩ := h.exists_entry hw
        exact hlater e he
      simp [Timeline.valueAt, hc, hvisible]
  | some c =>
      obtain ⟨hl, hstart, hB⟩ := Timeline.last?_reaches_eq_some.mp hc
      obtain ⟨A', B', hlive, hB'⟩ := h.split_last hl.symm
        fun x hx => Nat.lt_of_le_of_lt hstart (hB x hx)
      have hmax : ∀ w ∈ live, w.time ≤ time → w.time ≤ c.focus.start := by
        intro w hw hwt
        obtain ⟨e, he, rfl⟩ := h.exists_entry hw
        have hord := h.ordered
        rw [← hl] at hord he
        rcases List.mem_append.mp he with he | he
        · exact hord.le_focus e he
        · rcases List.mem_cons.mp he with rfl | he
          · exact le_refl _
          · exact absurd hwt (Nat.not_le.mpr (hB e he))
      have hvisible : visible time live = some c.focus.write := by
        refine visible_eq_some.mpr ⟨A', B', hlive, hstart, ?_, ?_⟩
        · exact fun x hx => hmax x (by simp [hlive, hx])
        · intro x hx hxt
          exact Nat.lt_of_le_of_ne (hmax x (by simp [hlive, hx]) hxt) (hB' x hx)
      simp [Timeline.valueAt, hc, hvisible, Entry.write]

end Agrees

/-- Undoing the earliest write at `time` takes the first of its group away. -/
private theorem writesAt_undo {initial : Write V} {live : List (Write V)} {agent : LpId}
    {time : Nat} {w : Write V} {rest : List (Write V)}
    (hlive : ∃ x ∈ live, x.agent = agent ∧ x.time = time)
    (hgroup : writesAt time (initial :: live) = w :: rest)
    (hrest : ∀ x ∈ rest, x.agent ≠ agent) (s : Nat) :
    writesAt s (initial :: undo agent time live) =
      if s = time then rest else writesAt s (initial :: live) := by
  obtain ⟨x, hx, hxa, hxt⟩ := hlive
  have hne : initial.time ≠ time := by
    intro h
    have htail : writesAt time live = rest := by
      have := hgroup
      simp only [writesAt, List.filter_cons, h, decide_true, ite_true, List.cons.injEq] at this
      exact this.2
    exact hrest x (htail ▸ mem_writesAt.mpr ⟨hx, hxt⟩) hxa
  rw [writesAt_cons_of_ne hne] at hgroup
  cases hc : Cut.last? (fun w : Write V => decide (w.agent = agent ∧ w.time = time)) live with
  | none =>
      have := Cut.last?_eq_none.mp hc x hx
      simp [hxa, hxt] at this
  | some c =>
      obtain ⟨A, y, B⟩ := c
      obtain ⟨rfl, hy, _⟩ := Cut.last?_eq_some.mp hc
      obtain ⟨hya, hyt⟩ : y.agent = agent ∧ y.time = time := by simpa using hy
      simp only [undo, hc]
      simp only [Cut.toList] at hgroup ⊢
      by_cases hs : s = time
      · subst hs
        subst hyt
        rw [writesAt_cons_of_ne hne, if_pos rfl, writesAt_append]
        rw [writesAt_append, writesAt_cons_self] at hgroup
        cases hA : writesAt y.time A with
        | nil =>
            rw [hA, List.nil_append, List.cons.injEq] at hgroup
            exact hgroup.2
        | cons z zs =>
            rw [hA] at hgroup
            obtain ⟨_, rfl⟩ : z = w ∧ zs ++ y :: writesAt y.time B = rest := by
              simpa using hgroup
            exact absurd hya (hrest y (by simp))
      · rw [if_neg hs]
        have hys : y.time ≠ s := fun h => hs (h.symm.trans hyt)
        by_cases his : initial.time = s
        · subst his
          simp [writesAt_cons_of_ne hys]
        · simp [writesAt_cons_of_ne his, writesAt_cons_of_ne hys]

/-- A write behind which nothing lies at its time might as well come last. -/
private theorem writesAt_push {B : List (Entry V)} {w : Write V}
    (hB : Timeline.Later w.time B) (s : Nat) :
    writesAt s (w :: B.map Entry.write) = writesAt s (B.map Entry.write ++ [w]) := by
  by_cases hs : w.time = s
  · subst hs
    simp [writesAt_eq_nil_of_later hB, writesAt_cons_self]
  · simp [writesAt_cons_of_ne hs]

/-- The period a rollback finds holds the first write of its group. -/
private theorem group_of_first {initial : Write V} {live : List (Write V)}
    {A B : List (Entry V)} {e : Entry V} (hagree : Agrees (A ++ e :: B) (initial :: live))
    (hA : Timeline.NoneAt e.start A) :
    writesAt e.start (initial :: live) =
      e.write :: writesAt e.start (B.map Entry.write) := by
  have hself : writesAt e.start (e.write :: B.map Entry.write) =
      e.write :: writesAt e.start (B.map Entry.write) := writesAt_cons_self e.write _
  rw [← hagree.group, List.map_append, List.map_cons, writesAt_append,
    writesAt_eq_nil_of_noneAt hA, hself, List.nil_append]

theorem agrees_step {initial : Write V} {sv : StateVariable V} {live : List (Write V)}
    {l l' : List (Entry V)} {op : Operation V} {o : Outcome V}
    (h : Timeline.Effect l op l' o) (hagree : Agrees l (initial :: live))
    (hproper : Proper (sv, live) op) (hearliest : UndoesEarliest initial (sv, live) op) :
    Agrees l' (initial :: after live op o) := by
  refine ⟨Timeline.wellOrdered_step h hagree.ordered, fun s => ?_⟩
  cases h with
  | read | readRollback | collectNothing | collect => exact hproper.elim
  | writeFirst =>
      obtain ⟨e, he, _⟩ := hagree.exists_entry (w := initial) (by simp)
      cases he
  | writeTooEarly | writeRejected => simpa [after] using hagree.group s
  | @writeAccepted A B e agent value time he hB hok =>
      have hpush := writesAt_push (w := ⟨time, agent, value⟩) hB s
      simp only [after, Outcome.ofWrite_status, ite_true]
      have hl' : (A ++ e.keepBefore time :: Entry.fresh agent value time :: B).map Entry.write =
          (A.map Entry.write ++ [e.write]) ++ ⟨time, agent, value⟩ :: B.map Entry.write := by
        simp
      have hl : (A ++ e :: B).map Entry.write ++ [⟨time, agent, value⟩] =
          (A.map Entry.write ++ [e.write]) ++
            (B.map Entry.write ++ [⟨time, agent, value⟩]) := by
        simp
      rw [hl', writesAt_append, hpush, ← writesAt_append, ← hl, writesAt_append,
        hagree.group, ← writesAt_append, List.cons_append]
  | writeRollbackMissing agent time hl =>
      have hnil := hagree.group time
      rw [writesAt_eq_nil_of_noneAt hl] at hnil
      simp only [UndoesEarliest] at hearliest
      rw [← hnil] at hearliest
      exact hearliest.elim
  | @writeRollbackForeign A B e agent time he hA hne =>
      subst he
      simp only [UndoesEarliest] at hearliest
      rw [group_of_first hagree hA] at hearliest
      obtain ⟨hagent, _⟩ := hearliest
      exact absurd hagent (LpId.ne_of_ne_eq_true hne)
  | @writeRollback A B e agent time he hA hown =>
      subst he
      have hfirst := group_of_first hagree hA
      simp only [UndoesEarliest] at hearliest
      rw [hfirst] at hearliest
      obtain ⟨_, hrest⟩ := hearliest
      rw [after, writesAt_undo hproper hfirst hrest]
      by_cases hs : s = e.start
      · subst hs
        simp [writesAt_eq_nil_of_noneAt hA]
      · have hes : e.write.time ≠ s := fun h => hs h.symm
        rw [if_neg hs, ← hagree.group]
        simp [writesAt_cons_of_ne hes]

end LiveWrites

namespace StateVariable
open LiveWrites

/-- Reads see the timeline of live writes in every run whose rollbacks undo the
earliest live write at their time. -/
theorem reads_follow_liveWrites (sv sv' : StateVariable V) (p : WritePeriod V)
    (ops : List (Operation V)) (live : List (Write V)) (outs : List (Outcome V))
    (hinit : sv.writePeriodList = [p])
    (hrun : (LiveWrites.machine V).run (sv, []) ops = some ((sv', live), outs))
    (hproper : (LiveWrites.machine V).Meets Proper (sv, []) ops)
    (hearliest : (LiveWrites.machine V).Meets (UndoesEarliest p.entry.write) (sv, []) ops) :
    ∀ time, (sv'.readWithoutRecord time).2 =
      (visible time (p.entry.write :: live)).map Write.value := by
  intro time
  have hstart : Agrees sv.entries [p.entry.write] := by
    have hl : sv.entries = [p.entry] := by simp [entries, hinit]
    rw [hl]
    exact ⟨.singleton _, fun _ => rfl⟩
  have hagree : Agrees sv'.entries (p.entry.write :: live) := by
    refine (LiveWrites.machine V).invariant_of_meets _
      (fun s => Agrees s.1.entries (p.entry.write :: s.2)) ?_ ops (sv, []) (sv', live) outs
      hstart (hproper.and hearliest) hrun
    rintro ⟨sv, live⟩ op s' o hagree ⟨hp, he⟩ hs
    obtain ⟨r, hr, heq⟩ := Option.map_eq_some_iff.mp hs
    cases heq
    exact agrees_step (Timeline.effect_of_exec hr) hagree hp he
  rw [readWithoutRecord_entries, hagree.valueAt]

theorem reads_follow_liveWrites_of_split :
    ∃ (sv' : StateVariable Nat) (live : List (Write Nat)) (outs : List (Outcome Nat)),
      (LiveWrites.machine Nat).run ((create 1).addWritePeriod 0 0 ⟨0, 0⟩, [])
        [.writeWithRollback ⟨1, 3⟩ 1 5, .writeWithRollback ⟨2, 3⟩ 2 4,
          .performWriteRollback ⟨1, 3⟩ 5] = some ((sv', live), outs) ∧
      ∀ time, (sv'.readWithoutRecord time).2 =
        (visible time (⟨0, ⟨0, 0⟩, 0⟩ :: live)).map Write.value :=
  ⟨_, _, _, rfl, reads_follow_liveWrites ((create 1).addWritePeriod 0 0 ⟨0, 0⟩) _
    (.create 0 0 ⟨0, 0⟩) [.writeWithRollback ⟨1, 3⟩ 1 5, .writeWithRollback ⟨2, 3⟩ 2 4,
      .performWriteRollback ⟨1, 3⟩ 5] _ _ rfl rfl (by decide) (by decide)⟩

/-- Two agents write at one time and the second rolls its write back: the list
loses the first write instead. -/
theorem rollback_undoes_earlier_write :
    ∃ (sv' : StateVariable Nat) (live : List (Write Nat)) (outs : List (Outcome Nat)),
      (LiveWrites.machine Nat).run ((create 1).addWritePeriod 0 0 ⟨0, 0⟩, [])
        [.writeWithRollback ⟨1, 3⟩ 1 5, .writeWithRollback ⟨2, 3⟩ 2 5,
          .performWriteRollback ⟨2, 3⟩ 5] = some ((sv', live), outs) ∧
      (LiveWrites.machine Nat).Meets Proper ((create 1).addWritePeriod 0 0 ⟨0, 0⟩, [])
        [.writeWithRollback ⟨1, 3⟩ 1 5, .writeWithRollback ⟨2, 3⟩ 2 5,
          .performWriteRollback ⟨2, 3⟩ 5] ∧
      (sv'.readWithoutRecord 5).2 = some 2 ∧
      (visible 5 (⟨0, ⟨0, 0⟩, 0⟩ :: live)).map Write.value = some 1 :=
  ⟨_, _, _, rfl, by decide, by decide, by decide⟩

end StateVariable
end PdesMas
