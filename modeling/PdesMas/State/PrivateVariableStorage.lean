import Mathlib.Data.List.Induction
import PdesMas.State.StateVariable
import PdesMas.Types.Value

/-!
The private variables of an agent. `auto wp_list` is a copy of the list in the map, and what
`WriteVariable`, `PerformRollback` and `CleanUp` do to it is gone when they return;
`AddVariable` goes on only for a variable that is there already. The copies are
returned beside the storage.
-/

namespace PdesMas
universe u
variable {V : Type u}

structure PrivateVariableStorage (V : Type u) where
  variableIdWpMap : Std.TreeMap SsvId (List (WritePeriod V))

namespace PrivateVariableStorage

def empty : PrivateVariableStorage V := ⟨∅⟩

/-- The agent of the period is never looked at. -/
def writePeriod (value : V) (timestamp : Nat) : WritePeriod V := .create value timestamp ⟨0, 0⟩

def addVariable (s : PrivateVariableStorage V) (variableId : SsvId) (v : V) (timestamp : Nat) :
    PrivateVariableStorage V :=
  if s.variableIdWpMap.contains variableId then
    ⟨s.variableIdWpMap.insert variableId [writePeriod v timestamp]⟩
  else s

def readVariable (s : PrivateVariableStorage V) (variableId : SsvId) (timestamp : Nat) :
    Option V := do
  let wpList ← s.variableIdWpMap[variableId]?
  let i ← wpList.find? fun i => decide (i.startTime ≥ timestamp) && decide (i.endTime < timestamp)
  pure i.value

/-- The period that ends when the next one is written is the last one of the copy. -/
def writeVariable (s : PrivateVariableStorage V) (variableId : SsvId) (value : V)
    (timestamp : Nat) : PrivateVariableStorage V × Option (List (WritePeriod V)) :=
  (s, do
    let wpList ← s.variableIdWpMap[variableId]?
    let last ← wpList.getLast?
    if timestamp ≤ last.startTime then none
    else some (StateVariable.setLastEndTime timestamp wpList ++ [writePeriod value timestamp]))

def performRollback (s : PrivateVariableStorage V) (timestamp : Nat) :
    PrivateVariableStorage V × List (List (WritePeriod V)) :=
  (s, s.variableIdWpMap.toList.map fun i => i.2.filter fun p => ¬ p.startTime < timestamp)

def cleanUp (s : PrivateVariableStorage V) (timestamp : Nat) :
    PrivateVariableStorage V × List (List (WritePeriod V)) :=
  (s, s.variableIdWpMap.toList.map fun i => i.2.filter fun p => ¬ p.endTime ≤ timestamp)

inductive Call (V : Type u) where
  | addVariable (variableId : SsvId) (v : V) (timestamp : Nat)
  | writeVariable (variableId : SsvId) (value : V) (timestamp : Nat)
  | performRollback (timestamp : Nat)
  | cleanUp (timestamp : Nat)
deriving DecidableEq

def exec (s : PrivateVariableStorage V) : Call V → PrivateVariableStorage V
  | .addVariable variableId v timestamp => s.addVariable variableId v timestamp
  | .writeVariable variableId value timestamp => (s.writeVariable variableId value timestamp).1
  | .performRollback timestamp => (s.performRollback timestamp).1
  | .cleanUp timestamp => (s.cleanUp timestamp).1

/-- The storage after the calls. -/
def after (calls : List (Call V)) : PrivateVariableStorage V := calls.foldl exec empty

/-- The writes of one variable that stand, with their times, in the order of the calls; and
whether the variable has been added. -/
structure Standing (V : Type u) where
  added : Bool
  writes : List (Nat × V)

namespace Standing

def note (variableId : SsvId) (w : Standing V) : Call V → Standing V
  | .addVariable id v timestamp =>
      if id = variableId then ⟨true, w.writes ++ [(timestamp, v)]⟩ else w
  | .writeVariable id value timestamp =>
      if id = variableId ∧ w.added then { w with writes := w.writes ++ [(timestamp, value)] } else w
  | .performRollback timestamp => { w with writes := w.writes.filter fun e => e.1 < timestamp }
  | .cleanUp _ => w

def ofCalls (variableId : SsvId) (calls : List (Call V)) : Standing V :=
  calls.foldl (note variableId) ⟨false, []⟩

def later (best : Option (Nat × V)) (e : Nat × V) : Option (Nat × V) :=
  if best.any (fun b => e.1 < b.1) then best else some e

/-- The latest write at or before `time`; of several at one time the last one. -/
def latest (time : Nat) (writes : List (Nat × V)) : Option (Nat × V) :=
  (writes.filter fun e => e.1 ≤ time).foldl later none

end Standing

variable {s : PrivateVariableStorage V} {variableId : SsvId} {time : Nat} {writes : List (Nat × V)}

/-- No call adds a variable that is not there. -/
theorem exec_contains (s : PrivateVariableStorage V) (call : Call V) (variableId : SsvId) :
    (s.exec call).variableIdWpMap.contains variableId =
      s.variableIdWpMap.contains variableId := by
  cases call with
  | addVariable id v timestamp =>
      simp only [exec, addVariable]
      split
      · next hthere =>
        rw [Std.TreeMap.contains_insert, Bool.or_eq_right_iff_imp]
        intro heq
        rw [← Std.LawfulEqCmp.compare_eq_iff_eq.mp (beq_iff_eq.mp heq)]
        exact hthere
      · rfl
  | writeVariable | performRollback | cleanUp => rfl

theorem after_contains (calls : List (Call V)) (variableId : SsvId) :
    (after calls).variableIdWpMap.contains variableId = false := by
  have hrun : ∀ s : PrivateVariableStorage V,
      (calls.foldl exec s).variableIdWpMap.contains variableId =
        s.variableIdWpMap.contains variableId := by
    induction calls with
    | nil => exact fun s => rfl
    | cons call calls ih => exact fun s => (ih _).trans (exec_contains s call variableId)
  exact (hrun empty).trans Std.TreeMap.contains_emptyc

theorem readVariable_after (calls : List (Call V)) (variableId : SsvId) (time : Nat) :
    (after calls).readVariable variableId time = none := by
  have habsent : (after calls).variableIdWpMap[variableId]? = none :=
    Std.TreeMap.getElem?_eq_none_of_contains_eq_false (after_contains calls variableId)
  rw [readVariable, habsent]
  rfl

namespace Standing

theorem foldl_later (hne : writes ≠ []) :
    ∃ w, writes.foldl later none = some w ∧ w ∈ writes ∧ ∀ e ∈ writes, e.1 ≤ w.1 := by
  induction writes using List.reverseRecOn with
  | nil => exact absurd rfl hne
  | append_singleton writes e ih =>
      rw [List.foldl_append]
      by_cases hnil : writes = []
      · subst hnil
        exact ⟨e, rfl, by simp, by simp⟩
      · obtain ⟨b, hb, hmem, hlatest⟩ := ih hnil
        rw [hb, List.foldl_cons, List.foldl_nil, later]
        by_cases hearlier : e.1 < b.1
        · refine ⟨b, if_pos (by simpa using hearlier), List.mem_append_left [e] hmem, ?_⟩
          intro e' he'
          rcases List.mem_append.mp he' with he' | he'
          · exact hlatest e' he'
          · exact (List.mem_singleton.mp he' ▸ hearlier).le
        · refine ⟨e, if_neg (by simpa using hearlier), by simp, ?_⟩
          intro e' he'
          rcases List.mem_append.mp he' with he' | he'
          · exact (hlatest e' he').trans (Nat.le_of_not_lt hearlier)
          · exact (List.mem_singleton.mp he' ▸ Nat.le_refl e.1)

/-- There is one if some write is at or before the time, and no other one is later. -/
theorem latest_of_mem {e : Nat × V} (he : e ∈ writes) (htime : e.1 ≤ time) :
    ∃ w ∈ writes, latest time writes = some w ∧ w.1 ≤ time ∧
      ∀ e ∈ writes, e.1 ≤ time → e.1 ≤ w.1 := by
  have hkept : ∀ e, e ∈ writes.filter (fun e => e.1 ≤ time) ↔ e ∈ writes ∧ e.1 ≤ time :=
    fun e => by rw [List.mem_filter, decide_eq_true_iff]
  obtain ⟨w, hw, hmem, hlatest⟩ := foldl_later (List.ne_nil_of_mem ((hkept e).mpr ⟨he, htime⟩))
  obtain ⟨hwrite, hle⟩ := (hkept w).mp hmem
  exact ⟨w, hwrite, hw, hle, fun e he htime => hlatest e ((hkept e).mpr ⟨he, htime⟩)⟩

theorem latest_eq_none_iff : latest time writes = none ↔ ∀ e ∈ writes, time < e.1 := by
  constructor
  · intro hnone e he
    by_contra hle
    obtain ⟨w, _, hw, _⟩ := latest_of_mem he (Nat.le_of_not_lt hle)
    exact Option.some_ne_none w (hw.symm.trans hnone)
  · intro hlater
    have hkept : writes.filter (fun e => e.1 ≤ time) = [] :=
      List.filter_eq_nil_iff.mpr fun e he => by simpa using hlater e he
    rw [latest, hkept, List.foldl_nil]

end Standing

/-- A read gives the latest write that stands exactly where none stands at or before its time. -/
theorem reads_latest_iff (calls : List (Call V)) (variableId : SsvId) (time : Nat) :
    (after calls).readVariable variableId time =
        (Standing.latest time (Standing.ofCalls variableId calls).writes).map Prod.snd ↔
      ∀ e ∈ (Standing.ofCalls variableId calls).writes, time < e.1 := by
  rw [readVariable_after, eq_comm, Option.map_eq_none_iff]
  exact Standing.latest_eq_none_iff

/-- What was added is not found. -/
theorem added_variable_not_read :
    let calls : List (Call AbstractValue) := [.addVariable 7 (.valueINT 5) 0]
    Standing.latest 0 (Standing.ofCalls 7 calls).writes = some (0, .valueINT 5) ∧
      (after calls).readVariable 7 0 = none := by
  decide

end PrivateVariableStorage
end PdesMas
