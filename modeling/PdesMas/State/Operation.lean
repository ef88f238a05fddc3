import PdesMas.Library.Machine
import PdesMas.State.StateVariable

/-!
The operations of a state variable as one machine, and the same machine on its
entries. End times never decide which period an operation touches, so the two
run in lockstep, and every later argument is about the list of entries alone.
-/

namespace PdesMas
universe u
variable {V : Type u}

inductive Operation (V : Type u) where
  | read (readingAgent : LpId) (time : Nat)
  | writeWithRollback (writingAgent : LpId) (value : V) (time : Nat)
  | performReadRollback (agent : LpId) (time : Nat)
  | performWriteRollback (writingAgent : LpId) (time : Nat)
  | removeWritePeriods (time : Nat)
deriving DecidableEq, Repr

/-- What the caller of an operation sees: the value read, the write status and
the calls of `AddLp` on a fresh rollback list. -/
structure Outcome (V : Type u) where
  value : Option V
  status : Option WriteStatus
  calls : List (LpId × Nat)
deriving DecidableEq, Repr

namespace Outcome

def silent : Outcome V := ⟨none, none, []⟩
def ofRead (v : V) : Outcome V := ⟨some v, none, []⟩
def ofWrite (status : WriteStatus) (calls : List (LpId × Nat)) : Outcome V :=
  ⟨none, some status, calls⟩
def ofRollback (calls : List (LpId × Nat)) : Outcome V := ⟨none, none, calls⟩

@[simp] theorem silent_calls : (silent : Outcome V).calls = [] := rfl
@[simp] theorem ofRead_calls (v : V) : (ofRead v).calls = [] := rfl
@[simp] theorem ofRead_value (v : V) : (ofRead v).value = some v := rfl
@[simp] theorem ofWrite_calls (status : WriteStatus) (calls : List (LpId × Nat)) :
    (ofWrite status calls : Outcome V).calls = calls := rfl
@[simp] theorem ofWrite_status (status : WriteStatus) (calls : List (LpId × Nat)) :
    (ofWrite status calls : Outcome V).status = some status := rfl
@[simp] theorem ofRollback_calls (calls : List (LpId × Nat)) :
    (ofRollback calls : Outcome V).calls = calls := rfl

end Outcome

namespace StateVariable

/-- One call; `none` where the source leaves the process. -/
def exec (sv : StateVariable V) : Operation V → Option (StateVariable V × Outcome V)
  | .read agent time => (sv.read agent time).map fun r => (r.2, .ofRead r.1)
  | .writeWithRollback agent value time =>
      let r := sv.writeWithRollback agent value time .empty
      some (r.1, .ofWrite r.2.1 r.2.2.calls)
  | .performReadRollback agent time =>
      (sv.performReadRollback agent time).map fun sv' => (sv', .silent)
  | .performWriteRollback agent time =>
      let r := sv.performWriteRollback agent time .empty
      some (r.1, .ofRollback r.2.calls)
  | .removeWritePeriods time => some (sv.removeWritePeriods time, .silent)

def machine (V : Type u) : Machine (StateVariable V) (Operation V) (Outcome V) := ⟨exec⟩

def entries (sv : StateVariable V) : List (Entry V) :=
  sv.writePeriodList.map WritePeriod.entry

end StateVariable

namespace Timeline

/-- The operations on a list of entries. -/
def step (l : List (Entry V)) : Operation V → Option (List (Entry V) × Outcome V)
  | .read agent time =>
      (Cut.last? (Entry.reaches time) l).map fun c =>
        (c.front ++ c.focus.record agent time :: c.back, .ofRead c.focus.value)
  | .writeWithRollback agent value time =>
      some <|
        if l = [] then ([.fresh agent value time], .ofWrite .writeSUCCESS [])
        else
          match Cut.last? (Entry.reaches time) l with
          | none => (l, .ofWrite .writeFAILURE [])
          | some c =>
              if c.focus.start = time ∧ c.focus.agent.gt agent = true then
                (l, .ofWrite .writeFAILURE [])
              else
                (c.front ++ c.focus.keepBefore time :: .fresh agent value time :: c.back,
                  .ofWrite .writeSUCCESS (c.focus.invalidated time))
  | .performReadRollback agent time =>
      (Cut.last? (Entry.reaches time) l).map fun c =>
        (c.front ++ c.focus.withdraw agent time :: c.back, .silent)
  | .performWriteRollback agent time =>
      some <|
        match Cut.first? (Entry.startsAt time) l with
        | none => (l, .ofRollback [])
        | some c =>
            if c.focus.agent.ne agent = true then (l, .ofRollback [])
            else (c.front ++ c.back, .ofRollback (c.focus.reads.map fun r => (r.1, time)))
  | .removeWritePeriods time =>
      some <|
        match Cut.last? (Entry.reaches time) l with
        | none => (l, .silent)
        | some c =>
            ((c.front.dropWhile fun e => e.start != time) ++ c.focus.restamp time :: c.back,
              .silent)

def machine (V : Type u) : Machine (List (Entry V)) (Operation V) (Outcome V) := ⟨step⟩

/-- The value a read at `time` returns. -/
def valueAt (time : Nat) (l : List (Entry V)) : Option V :=
  (Cut.last? (Entry.reaches time) l).map fun c => c.focus.value

end Timeline

namespace StateVariable

theorem walkBack_entries (sv : StateVariable V) (time : Nat) :
    Cut.last? (Entry.reaches time) sv.entries =
      (sv.walkBack time).map (Cut.map WritePeriod.entry) :=
  Cut.last?_map WritePeriod.entry (Entry.reaches time) sv.writePeriodList

theorem readWithoutRecord_entries (sv : StateVariable V) (time : Nat) :
    (sv.readWithoutRecord time).2 = Timeline.valueAt time sv.entries := by
  rw [Timeline.valueAt, walkBack_entries, readWithoutRecord]
  cases sv.walkBack time <;> rfl

@[simp] theorem entry_setEndTime (p : WritePeriod V) (time : Nat) :
    (p.setEndTime time).entry = p.entry := rfl

theorem map_entry_setLastEndTime (time : Nat) (l : List (WritePeriod V)) :
    (setLastEndTime time l).map WritePeriod.entry = l.map WritePeriod.entry := by
  induction l with
  | nil => rfl
  | cons p rest ih =>
      cases rest with
      | nil => rfl
      | cons q rest => simpa [setLastEndTime] using ih

theorem entries_eq_nil (sv : StateVariable V) : sv.entries = [] ↔ sv.writePeriodList = [] := by
  simp [entries]

private theorem read_entries (sv : StateVariable V) (agent : LpId) (time : Nat) :
    (sv.exec (.read agent time)).map (fun r => (r.1.entries, r.2)) =
      Timeline.step sv.entries (.read agent time) := by
  simp only [exec, read, Timeline.step, walkBack_entries, Option.map_map]
  cases sv.walkBack time with
  | none => rfl
  | some c => simp [entries, Cut.map, WritePeriod.entry, WritePeriod.read, Entry.record]

private theorem performReadRollback_entries (sv : StateVariable V) (agent : LpId)
    (time : Nat) :
    (sv.exec (.performReadRollback agent time)).map (fun r => (r.1.entries, r.2)) =
      Timeline.step sv.entries (.performReadRollback agent time) := by
  simp only [exec, performReadRollback, Timeline.step, walkBack_entries, Option.map_map]
  cases sv.walkBack time with
  | none => rfl
  | some c =>
      simp [entries, Cut.map, WritePeriod.entry, WritePeriod.removeReadsByAgent,
        Entry.withdraw]

private theorem writeWithRollback_entries (sv : StateVariable V) (agent : LpId) (value : V)
    (time : Nat) :
    (sv.exec (.writeWithRollback agent value time)).map (fun r => (r.1.entries, r.2)) =
      Timeline.step sv.entries (.writeWithRollback agent value time) := by
  simp only [exec, Timeline.step, walkBack_entries, entries_eq_nil, writeWithRollback,
    Option.map_some]
  by_cases hnil : sv.writePeriodList = []
  · simp [hnil, entries, WritePeriod.entry, WritePeriod.create, Entry.fresh]
  · simp only [hnil, ite_false]
    cases sv.walkBack time with
    | none => simp
    | some c =>
        have hstart : (WritePeriod.entry c.focus).start = c.focus.startTime := rfl
        have hagent : (WritePeriod.entry c.focus).agent = c.focus.agent := rfl
        simp only [Option.map_some, Cut.map, hstart, hagent]
        split
        · simp
        · cases hback : c.back <;>
            simp [entries, WritePeriod.entry, WritePeriod.create, WritePeriod.setEndTime,
              WritePeriod.removeReadsAfterInclusive, Entry.fresh, Entry.keepBefore,
              Entry.invalidated]

private theorem performWriteRollback_entries (sv : StateVariable V) (agent : LpId)
    (time : Nat) :
    (sv.exec (.performWriteRollback agent time)).map (fun r => (r.1.entries, r.2)) =
      Timeline.step sv.entries (.performWriteRollback agent time) := by
  have hfirst : Cut.first? (Entry.startsAt time) sv.entries =
      (Cut.first? (fun p => decide (p.startTime = time)) sv.writePeriodList).map
        (Cut.map WritePeriod.entry) :=
    Cut.first?_map WritePeriod.entry (Entry.startsAt time) sv.writePeriodList
  simp only [exec, Timeline.step, hfirst, performWriteRollback, Option.map_some]
  cases hc : Cut.first? (fun p => decide (p.startTime = time)) sv.writePeriodList with
  | none => simp
  | some c =>
      have hl : c.front ++ c.focus :: c.back = sv.writePeriodList :=
        (Cut.first?_eq_some.mp hc).1
      have hagent : (WritePeriod.entry c.focus).agent = c.focus.agent := rfl
      simp only [Option.map_some, Cut.map, hagent]
      split
      · simp
      · by_cases hone : sv.writePeriodList.length = 1
        · obtain ⟨hf, hb⟩ : c.front = [] ∧ c.back = [] := by
            have hlen : c.front.length + (c.back.length + 1) = 1 := by
              rw [← hl] at hone
              simpa using hone
            exact ⟨List.length_eq_zero_iff.mp (by omega), List.length_eq_zero_iff.mp (by omega)⟩
          simp [hone, hf, hb, entries, WritePeriod.removeAllReads, WritePeriod.entry]
        · by_cases hb : c.back = []
          · simp [hone, hb, entries, WritePeriod.removeAllReads, WritePeriod.entry,
              map_entry_setLastEndTime]
          · by_cases hf : c.front = []
            · simp [hone, hb, hf, entries, WritePeriod.removeAllReads, WritePeriod.entry]
            · simp [hone, hb, hf, entries, WritePeriod.removeAllReads, WritePeriod.entry,
                map_entry_setLastEndTime]

private theorem removeWritePeriods_entries (sv : StateVariable V) (time : Nat) :
    (sv.exec (.removeWritePeriods time)).map (fun r => (r.1.entries, r.2)) =
      Timeline.step sv.entries (.removeWritePeriods time) := by
  simp only [exec, Timeline.step, walkBack_entries, removeWritePeriods, Option.map_some]
  cases sv.walkBack time with
  | none => simp
  | some c =>
      have hdrop : ∀ x : WritePeriod V, x.startTime = time →
          (c.front ++ x :: c.back).dropWhile (fun p => p.startTime != x.startTime) =
            c.front.dropWhile (fun p => p.startTime != time) ++ x :: c.back := by
        intro x hx
        rw [hx, List.dropWhile_append]
        split
        · rename_i h
          simp [List.isEmpty_iff.mp h, hx]
        · rfl
      simp only [Option.map_some, Cut.map]
      rw [hdrop _ rfl]
      simp [entries, List.dropWhile_map, Function.comp_def, WritePeriod.entry,
        WritePeriod.removeReadsBefore, WritePeriod.setStartTime, Entry.restamp]

/-- The entries of a variable carry everything its operations answer with. -/
theorem exec_entries (sv : StateVariable V) (op : Operation V) :
    (sv.exec op).map (fun r => (r.1.entries, r.2)) = Timeline.step sv.entries op := by
  cases op with
  | read agent time => exact read_entries sv agent time
  | writeWithRollback agent value time => exact writeWithRollback_entries sv agent value time
  | performReadRollback agent time => exact performReadRollback_entries sv agent time
  | performWriteRollback agent time => exact performWriteRollback_entries sv agent time
  | removeWritePeriods time => exact removeWritePeriods_entries sv time

theorem step_of_exec {sv sv' : StateVariable V} {op : Operation V} {o : Outcome V}
    (h : sv.exec op = some (sv', o)) :
    Timeline.step sv.entries op = some (sv'.entries, o) := by
  rw [← exec_entries, h]
  rfl

end StateVariable
end PdesMas
