import PdesMas.State.Ordered
import PdesMas.State.SharedState

/-!
A migrated variable. The new host replays the periods of the copy in order; each
replay finds the last period replayed so far, and the order of the periods says
that the tie-break does not reject it.
-/

namespace PdesMas
universe u
variable {V : Type u}

/-- A period as a replay leaves it: the recorded reads stay behind. -/
def Entry.bare (e : Entry V) : Entry V := { e with reads := [] }

namespace Timeline

theorem valueAt_map_bare (time : Nat) (l : List (Entry V)) :
    valueAt time (l.map Entry.bare) = valueAt time l := by
  have hreaches : (fun e : Entry V => Entry.reaches time e.bare) = Entry.reaches time := rfl
  rw [valueAt, Cut.last?_map, hreaches, valueAt]
  cases Cut.last? (Entry.reaches time) l <;> rfl

/-- A write behind the last period is appended, unless it loses a tie. -/
theorem step_write_last (A : List (Entry V)) (e : Entry V) (agent : LpId) (value : V)
    (time : Nat) (he : e.start ≤ time) (hok : e.start = time → e.agent.gt agent = false) :
    step (A ++ [e]) (.writeWithRollback agent value time) =
      some (A ++ [e.keepBefore time, .fresh agent value time],
        .ofWrite .writeSUCCESS (e.invalidated time)) := by
  have hcut := last?_reaches A [] e he (later_nil time)
  have hwins : ¬ (e.start = time ∧ e.agent.gt agent = true) := by
    rintro ⟨hs, hgt⟩
    rw [hok hs] at hgt
    cases hgt
  simp [step, hcut, hwins]

theorem step_write_bare (done : List (Entry V)) (n : Entry V)
    (hord : WellOrdered (done ++ [n])) :
    step (done.map Entry.bare) (.writeWithRollback n.agent n.value n.start) =
      some ((done ++ [n]).map Entry.bare, .ofWrite .writeSUCCESS []) := by
  rcases List.eq_nil_or_concat done with rfl | ⟨A, e, rfl⟩
  · rfl
  · have hfollows : Follows e n := by
      have hord' : WellOrdered (A ++ e :: [n]) := by simpa using hord
      exact (List.isChain_append_cons_cons.mp hord').2.1
    have h := step_write_last (A.map Entry.bare) e.bare n.agent n.value n.start
      hfollows.1 hfollows.2
    simpa [Entry.bare, Entry.keepBefore, Entry.invalidated, Entry.fresh] using h

end Timeline

namespace StateVariable

/-- The rollback list only collects; it decides nothing. -/
theorem writeWithRollback_list (sv : StateVariable V) (agent : LpId) (value : V) (time : Nat)
    (rollbackList : RollbackList) :
    (sv.writeWithRollback agent value time rollbackList).1 =
        (sv.writeWithRollback agent value time .empty).1 ∧
      (sv.writeWithRollback agent value time rollbackList).2.1 =
        (sv.writeWithRollback agent value time .empty).2.1 := by
  simp only [writeWithRollback]
  split
  · exact ⟨rfl, rfl⟩
  · split
    · exact ⟨rfl, rfl⟩
    · split
      · exact ⟨rfl, rfl⟩
      · split <;> exact ⟨rfl, rfl⟩

theorem writeWithRollback_bare (sv : StateVariable V) (rollbackList : RollbackList)
    (done : List (Entry V)) (p : WritePeriod V) (hsv : sv.entries = done.map Entry.bare)
    (hord : Timeline.WellOrdered (done ++ [p.entry])) :
    (sv.writeWithRollback p.agent p.value p.startTime rollbackList).1.entries =
        (done ++ [p.entry]).map Entry.bare ∧
      (sv.writeWithRollback p.agent p.value p.startTime rollbackList).2.1 = .writeSUCCESS := by
  have hexec := exec_entries sv (.writeWithRollback p.agent p.value p.startTime)
  have hstep := Timeline.step_write_bare done p.entry hord
  rw [hsv] at hexec
  have heq := hexec.trans hstep
  simp only [exec, Option.map_some, Option.some.injEq, Prod.mk.injEq] at heq
  obtain ⟨hlist, hstatus⟩ := sv.writeWithRollback_list p.agent p.value p.startTime rollbackList
  rw [hlist, hstatus]
  exact ⟨heq.1, by simpa [Outcome.ofWrite] using congrArg Outcome.status heq.2⟩

end StateVariable

namespace SharedState

theorem replay_spec (rest : List (WritePeriod AbstractValue)) (s : SharedState)
    (ssvId : SsvId) (sv : StateVariable AbstractValue) (rollbackList : RollbackList)
    (done : List (Entry AbstractValue)) (hmap : s.stateVariableMap[ssvId]? = some sv)
    (hsv : sv.entries = done.map Entry.bare)
    (hord : Timeline.WellOrdered (done ++ rest.map WritePeriod.entry)) :
    (s.replay ssvId sv rest rollbackList).2.1 = rest.map (fun _ => .writeSUCCESS) ∧
      ∃ sv', (s.replay ssvId sv rest rollbackList).1.stateVariableMap[ssvId]? = some sv' ∧
        sv'.entries = (done ++ rest.map WritePeriod.entry).map Entry.bare := by
  induction rest generalizing s sv rollbackList done with
  | nil => exact ⟨rfl, sv, hmap, by simpa using hsv⟩
  | cons p rest ih =>
      have hfirst : Timeline.WellOrdered (done ++ [p.entry]) := by
        have hsplit : (done ++ [p.entry] ++ rest.map WritePeriod.entry).IsChain
            Timeline.Follows := by
          simpa [Timeline.WellOrdered] using hord
        exact hsplit.left_of_append
      obtain ⟨hentries, hstatus⟩ :=
        sv.writeWithRollback_bare rollbackList done p hsv hfirst
      have hrest := ih (replayPeriod s ssvId sv p rollbackList).2.1
        (replayPeriod s ssvId sv p rollbackList).1
        (replayPeriod s ssvId sv p rollbackList).2.2.2 (done ++ [p.entry])
        (by simp [replayPeriod]) hentries (by simpa using hord)
      obtain ⟨hstatuses, sv', hsv', hl⟩ := hrest
      refine ⟨?_, sv', hsv', by simpa using hl⟩
      simp only [replay, List.map_cons, List.cons.injEq]
      exact ⟨hstatus, hstatuses⟩

/-- The variable a new host rebuilds from a copy has the periods of the original. -/
theorem insert_copy (source target : SharedState) (ssvId : SsvId)
    (sv : StateVariable AbstractValue) (rollbackList : RollbackList)
    (hsource : source.stateVariableMap[ssvId]? = some sv) (hreach : sv.Reachable)
    (habsent : target.containsVariable ssvId = false) :
    ∃ copy target' statuses rollbackList' sv',
      source.getCopy ssvId = some copy ∧
      target.insert ssvId copy rollbackList = some (target', statuses, rollbackList') ∧
      (∀ status ∈ statuses, status = .writeSUCCESS) ∧
      target'.getCopy ssvId = some sv' ∧
      sv'.writePeriodList.map (fun p => (p.startTime, p.agent, p.value)) =
        sv.writePeriodList.map (fun p => (p.startTime, p.agent, p.value)) ∧
      ∀ time, (sv'.readWithoutRecord time).2 = (sv.readWithoutRecord time).2 := by
  let fresh : StateVariable AbstractValue := .create ssvId
  let target₀ := { target with
    stateVariableMap := target.stateVariableMap.insert ssvId fresh }
  obtain ⟨hstatuses, sv', hsv', hentries⟩ := replay_spec sv.writePeriodList target₀ ssvId fresh
    rollbackList [] (by simp [target₀]) rfl hreach.invariant.1
  have hl : sv'.entries = sv.entries.map Entry.bare := hentries
  let r := target₀.replay ssvId fresh sv.writePeriodList rollbackList
  have hinsert : target.insert ssvId sv rollbackList = some ({ r.1 with
      accessCostCalculator := r.1.accessCostCalculator.initialiseCounters ssvId }, r.2) := by
    rw [insert, if_neg (by simp [habsent])]
  refine ⟨sv, _, r.2.1, r.2.2, sv', hsource, hinsert, ?_, hsv', ?_, ?_⟩
  · intro status hstatus
    obtain ⟨_, _, rfl⟩ := List.mem_map.mp (hstatuses ▸ hstatus)
    rfl
  · have hkeys := congrArg
      (List.map fun e : Entry AbstractValue => (e.start, e.agent, e.value)) hl
    simpa [StateVariable.entries, Function.comp_def, WritePeriod.entry, Entry.bare] using hkeys
  · intro time
    rw [StateVariable.readWithoutRecord_entries, StateVariable.readWithoutRecord_entries, hl,
      Timeline.valueAt_map_bare]

theorem insert_copy_restamped :
    let empty := create .empty (.create false 2)
    let sv := (((StateVariable.create 7).addWritePeriod (.valueINT 10) 0 ⟨0, 0⟩).writeWithRollback
      ⟨12, 5⟩ (.valueINT 20) 2 .empty).1.removeWritePeriods 4
    let source := { empty with stateVariableMap := empty.stateVariableMap.insert 7 sv }
    ∃ copy target' statuses rollbackList' sv',
      source.getCopy 7 = some copy ∧
      empty.insert 7 copy .empty = some (target', statuses, rollbackList') ∧
      (∀ status ∈ statuses, status = .writeSUCCESS) ∧
      target'.getCopy 7 = some sv' ∧
      sv'.writePeriodList.map (fun p => (p.startTime, p.agent, p.value)) =
        sv.writePeriodList.map (fun p => (p.startTime, p.agent, p.value)) ∧
      ∀ time, (sv'.readWithoutRecord time).2 = (sv.readWithoutRecord time).2 := by
  intro empty sv source
  have hstart := (StateVariable.Reachable.create 7).addWritePeriod (AbstractValue.valueINT 10)
    0 ⟨0, 0⟩ rfl
  have hwrite := hstart.exec
    (show StateVariable.exec _ (.writeWithRollback ⟨12, 5⟩ (.valueINT 20) 2) = some (_, _) from rfl)
  have hcollect := hwrite.exec
    (show StateVariable.exec _ (.removeWritePeriods 4) = some (_, _) from rfl)
  exact insert_copy source empty 7 sv .empty (by simp [source]) hcollect
    (by simp [containsVariable, empty, create])

end SharedState
end PdesMas
