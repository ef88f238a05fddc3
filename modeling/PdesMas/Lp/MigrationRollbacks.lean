import PdesMas.Lp.ClpEffect
import PdesMas.Lp.RollbackMap
import PdesMas.State.Migration
import PdesMas.State.TakenOut

/-!
The reads of a variable that migrates. The new host starts with periods nobody
has read from, so each read must be undone by a rollback of the old host. That
goes to one past the start of the period, and only to agents the map of the
rollback list has an entry for.
-/

namespace PdesMas

open RangeRoutingTable

namespace Clp

/-- The rollbacks on account of a variable: their agents and timestamps. -/
def rollbacksOf (ssvId : SsvId) (l : List SimulationMessage) : List (LpId × Nat) :=
  l.filterMap fun m =>
    match m.content with
    | .rollback r =>
        if r.rollbackTag.originalSsv = ssvId then some (r.originalAgent, r.timestamp) else none
    | _ => none

@[simp] theorem rollbacksOf_append (ssvId : SsvId) (l l' : List SimulationMessage) :
    rollbacksOf ssvId (l ++ l') = rollbacksOf ssvId l ++ rollbacksOf ssvId l' :=
  List.filterMap_append

/-- The messages that `c'` has queued and `c` had not. -/
def queuedSince (c c' : Clp) : List SimulationMessage :=
  c'.sendMessageQueue.drop c.sendMessageQueue.length

/-- The calls for a variable that is taken out of the CLP. -/
def CallsFor (c : Clp) (sv : StateVariable AbstractValue) (list : RollbackList) : Prop :=
  ∃ queries, (∀ call, call ∈ list.calls ↔
      call ∈ readStarts sv.writePeriodList ∨ call ∈ callsFor queries) ∧
    (∀ e ∈ queries, e ∈ recorded c.sharedState.rangeRoutingTable.rangePeriodList) ∧
    (¬ HoldsPoint sv → queries = [])

/-- The variables `ids` have been taken out, and the rollbacks for each are queued. -/
structure Empties (ids : List SsvId) (c c' : Clp) : Prop where
  held : ∀ id ∈ ids, ∃ sv, c.sharedState.getCopy id = some sv
  nodup : ids.Nodup
  left : ∀ id, c'.sharedState.getCopy id = if id ∈ ids then none else c.sharedState.getCopy id
  kept : (recorded c'.sharedState.rangeRoutingTable.rangePeriodList).Perm
    (recorded c.sharedState.rangeRoutingTable.rangePeriodList)
  sends : ∃ l, c'.sendMessageQueue = c.sendMessageQueue ++ l ∧
    (∀ id, id ∉ ids → rollbacksOf id l = []) ∧
    ∀ id ∈ ids, ∀ sv, c.sharedState.getCopy id = some sv → ∃ list, c.CallsFor sv list ∧
      rollbacksOf id l = list.content.map fun e => (e.1, e.2 + 1)

theorem Empties.refl (c : Clp) : Empties [] c c :=
  ⟨nofun, List.nodup_nil, fun _ => rfl, .refl _, [], by simp, fun _ _ => rfl, nofun⟩

theorem CallsFor.of_kept {c c' : Clp} {sv : StateVariable AbstractValue} {list : RollbackList}
    (h : c'.CallsFor sv list)
    (hkept : (recorded c'.sharedState.rangeRoutingTable.rangePeriodList).Perm
      (recorded c.sharedState.rangeRoutingTable.rangePeriodList)) : c.CallsFor sv list := by
  obtain ⟨queries, hcalls, hpresent, hnone⟩ := h
  exact ⟨queries, hcalls, fun e he => hkept.subset (hpresent e he), hnone⟩

theorem Empties.trans {ids ids' : List SsvId} {c c' c'' : Clp} (h : Empties ids c c')
    (h' : Empties ids' c' c'') : Empties (ids ++ ids') c c'' := by
  have hapart : ∀ id ∈ ids', id ∉ ids := by
    intro id hid' hid
    obtain ⟨sv, hsv⟩ := h'.held id hid'
    rw [h.left id, if_pos hid] at hsv
    cases hsv
  obtain ⟨l, hl, hother, hsends⟩ := h.sends
  obtain ⟨l', hl', hother', hsends'⟩ := h'.sends
  refine ⟨?_, ?_, ?_, h'.kept.trans h.kept, l ++ l', ?_, ?_, ?_⟩
  · intro id hid
    cases List.mem_append.mp hid with
    | inl hid => exact h.held id hid
    | inr hid =>
        obtain ⟨sv, hsv⟩ := h'.held id hid
        rw [h.left id, if_neg (hapart id hid)] at hsv
        exact ⟨sv, hsv⟩
  · exact h.nodup.append h'.nodup fun id hid hid' => hapart id hid' hid
  · intro id
    rw [h'.left id, h.left id]
    by_cases hid : id ∈ ids <;> by_cases hid' : id ∈ ids' <;> simp [hid, hid']
  · rw [hl', hl, List.append_assoc]
  · intro id hid
    rw [rollbacksOf_append, hother id fun hin => hid (List.mem_append_left _ hin),
      hother' id fun hin => hid (List.mem_append_right _ hin), List.append_nil]
  · intro id hid sv hsv
    rw [rollbacksOf_append]
    cases List.mem_append.mp hid with
    | inl hid =>
        obtain ⟨list, hcalls, hrollbacks⟩ := hsends id hid sv hsv
        refine ⟨list, hcalls, ?_⟩
        rw [hother' id fun hid' => hapart id hid' hid, List.append_nil, hrollbacks]
    | inr hid =>
        have hsv' : c'.sharedState.getCopy id = some sv := by
          rw [h.left id, if_neg (hapart id hid), hsv]
        obtain ⟨list, hcalls, hrollbacks⟩ := hsends' id hid sv hsv'
        refine ⟨list, hcalls.of_kept h.kept, ?_⟩
        rw [hother id (hapart id hid), List.nil_append, hrollbacks]

/-- A change of the routes, the load balancing queue or the range updates alone. -/
theorem Empties.of_same {c c' : Clp}
    (hmap : c'.sharedState.stateVariableMap = c.sharedState.stateVariableMap)
    (htable : c'.sharedState.rangeRoutingTable.rangePeriodList =
      c.sharedState.rangeRoutingTable.rangePeriodList)
    (hqueue : c'.sendMessageQueue = c.sendMessageQueue) : Empties [] c c' := by
  refine ⟨nofun, List.nodup_nil, ?_, ?_, [], by rw [hqueue, List.append_nil], fun _ _ => rfl,
    nofun⟩
  · intro id
    simp [SharedState.getCopy, hmap]
  · rw [htable]

/-- The rollbacks of a list, under the tag of their variable. -/
theorem rollbacksOf_sent (rank : Nat) (list : List (LpId × Nat)) (tag : RollbackTag) (delay : Nat)
    (ssvId : SsvId) :
    rollbacksOf ssvId (list.map fun r =>
      (⟨rank, r.1.rank, .rollback ⟨r.2 + delay, r.1, tag⟩⟩ : SimulationMessage)) =
        if tag.originalSsv = ssvId then list.map (fun r => (r.1, r.2 + delay)) else [] := by
  induction list with
  | nil => simp [rollbacksOf]
  | cons r list ih =>
      simp only [rollbacksOf, List.map_cons, List.filterMap_cons] at ih ⊢
      split <;> simp_all

/-- One variable is rolled back and deleted, and the rollbacks are queued. -/
theorem Empties.of_takesOut {c c' : Clp} {ssvId : SsvId} {sv : StateVariable AbstractValue}
    {s : SharedState} {list : RollbackList} {tag : RollbackTag}
    (hsv : c.sharedState.getCopy ssvId = some sv)
    (htakes : SharedState.TakesOut c.sharedState s ssvId sv .empty list)
    (hmap : c'.sharedState.stateVariableMap = s.stateVariableMap.erase ssvId)
    (htable : c'.sharedState.rangeRoutingTable.rangePeriodList =
      s.rangeRoutingTable.rangePeriodList)
    (htag : tag.originalSsv = ssvId)
    (hqueue : c'.sendMessageQueue = c.sendMessageQueue ++ list.content.map fun r =>
      ⟨c.rank, r.1.rank, .rollback ⟨r.2 + 1, r.1, tag⟩⟩) : Empties [ssvId] c c' := by
  refine ⟨?_, List.nodup_singleton _, ?_, ?_, _, hqueue, ?_, ?_⟩
  · intro id hid
    rw [List.mem_singleton.mp hid]
    exact ⟨sv, hsv⟩
  · intro id
    simp only [SharedState.getCopy, hmap, Std.TreeMap.getElem?_erase, List.mem_singleton]
    by_cases hid : id = ssvId
    · simp [hid]
    · simp [hid, Ne.symm hid, htakes.others id hid]
  · rw [htable]
    exact htakes.kept
  · intro id hid
    rw [rollbacksOf_sent, htag, if_neg fun h => hid (by simp [h])]
  · intro id hid sv' hsv'
    obtain rfl : ssvId = id := (List.mem_singleton.mp hid).symm
    obtain rfl : sv = sv' := Option.some.inj (hsv.symm.trans hsv')
    refine ⟨list, ?_, ?_⟩
    · obtain ⟨queries, hcalls, hpresent, hnone⟩ := htakes.calls
      refine ⟨queries, ?_, hpresent, hnone⟩
      intro call
      simpa using hcalls call
    · rw [rollbacksOf_sent, htag, if_pos rfl]

section Migrate

variable (clock : SsvId → Nat)

theorem empties_takeOut (direction : Direction) (ssvIds : List SsvId) (c c' : Clp)
    (m m' : StateVariableMap)
    (h : takeOut RollbackList.content clock direction ssvIds c m = .ok (c', m')) :
    Empties ssvIds c c' := by
  induction ssvIds generalizing c m with
  | nil =>
      cases h
      exact .refl _
  | cons ssvId ssvIds ih =>
      simp only [takeOut] at h
      obtain ⟨sv, hsv, h⟩ := bind_eq_ok.mp h
      rw [orExit_eq_ok] at hsv
      obtain ⟨r, hr, h⟩ := bind_eq_ok.mp h
      rw [orExit_eq_ok] at hr
      obtain ⟨s, hs, h⟩ := bind_eq_ok.mp h
      rw [orExit_eq_ok] at hs
      have htakes : SharedState.TakesOut c.sharedState r.1 ssvId sv .empty r.2 := by
        obtain ⟨sv', hsv', hr⟩ := Option.bind_eq_some_iff.mp hr
        obtain rfl : sv = sv' := Option.some.inj (hsv.symm.trans hsv')
        cases hr
        exact SharedState.takesOut_rollbackPeriods ssvId _ _ sv rfl .empty
      simp only [SharedState.delete] at hs
      split at hs
      · cases hs
        exact (Empties.of_takesOut hsv htakes rfl rfl rfl rfl).trans (ih _ _ h)
      · cases hs

theorem empties_migrate (migrationMap : List (Direction × List SsvId)) (c c' : Clp)
    (h : migrateStateVariables RollbackList.content clock migrationMap c = .ok c') :
    Empties (migrationMap.flatMap Prod.snd) c c' := by
  induction migrationMap generalizing c with
  | nil =>
      cases h
      exact .refl _
  | cons e migrationMap ih =>
      simp only [migrateStateVariables] at h
      obtain ⟨destination, _, h⟩ := bind_eq_ok.mp h
      obtain ⟨r, hr, h⟩ := bind_eq_ok.mp h
      have hclear : Empties [] c c.clearRangeUpdates := .of_same rfl rfl rfl
      have htake := hclear.trans (empties_takeOut clock e.1 e.2 _ r.1 ∅ r.2 hr)
      have hqueue : Empties [] r.1 { r.1 with
          sendLoadBalancingMessageQueue :=
            r.1.sendLoadBalancingMessageQueue ++ [⟨c.rank, destination, r.2⟩] } :=
        .of_same rfl rfl rfl
      simpa using (htake.trans hqueue).trans (ih _ h)

end Migrate

/-- The record is there in the variable that a new host makes of its copy. -/
def Arrives (target : SharedState) (ssvId : SsvId) (sv : StateVariable AbstractValue)
    (record : LpId × Nat) : Prop :=
  ∃ target' statuses list sv', target.insert ssvId sv .empty = some (target', statuses, list) ∧
    target'.getCopy ssvId = some sv' ∧
    ∃ p ∈ sv'.writePeriodList, record ∈ p.agentReadMap

/-- A rollback of the agent on account of the variable undoes the read. -/
def Undone (c c' : Clp) (ssvId : SsvId) (record : LpId × Nat) : Prop :=
  ∃ time, (record.1, time) ∈ rollbacksOf ssvId (c.queuedSince c') ∧ time ≤ record.2

/-- Every recorded read arrives at the new host or is undone. -/
def LosesNoRead (c c' : Clp) (target : SharedState) (ssvId : SsvId)
    (sv : StateVariable AbstractValue) : Prop :=
  ∀ p ∈ sv.writePeriodList, ∀ record ∈ p.agentReadMap,
    Arrives target ssvId sv record ∨ c.Undone c' ssvId record

/-- Each read lies behind the start of a period in which its agent has read. -/
def ReadBehindStart (sv : StateVariable AbstractValue) : Prop :=
  ∀ p ∈ sv.writePeriodList, ∀ record ∈ p.agentReadMap,
    ∃ time, (record.1, time) ∈ readStarts sv.writePeriodList ∧ time < record.2

/-- The agents that have read the variable are in order with each other and, if the
variable has held a point, with those whose range queries are recorded. -/
def InOrder (c : Clp) (sv : StateVariable AbstractValue) : Prop :=
  ∀ p ∈ sv.writePeriodList, ∀ record ∈ p.agentReadMap,
    (∀ call ∈ readStarts sv.writePeriodList, LpId.Ordered call.1 record.1) ∧
    (HoldsPoint sv → ∀ e ∈ recorded c.sharedState.rangeRoutingTable.rangePeriodList,
      LpId.Ordered e.originalAlp record.1)

instance (c c' : Clp) (ssvId : SsvId) (record : LpId × Nat) :
    Decidable (c.Undone c' ssvId record) :=
  decidable_of_iff (∃ r ∈ rollbacksOf ssvId (c.queuedSince c'), r.1 = record.1 ∧ r.2 ≤ record.2)
    (by simp [Undone])

instance (sv : StateVariable AbstractValue) : Decidable (ReadBehindStart sv) :=
  decidable_of_iff (∀ p ∈ sv.writePeriodList, ∀ record ∈ p.agentReadMap,
    ∃ call ∈ readStarts sv.writePeriodList, call.1 = record.1 ∧ call.2 < record.2)
    (by simp [ReadBehindStart])

instance (c : Clp) (sv : StateVariable AbstractValue) : Decidable (c.InOrder sv) :=
  inferInstanceAs (Decidable (∀ p ∈ sv.writePeriodList, ∀ record ∈ p.agentReadMap,
    (∀ call ∈ readStarts sv.writePeriodList, LpId.Ordered call.1 record.1) ∧
    (HoldsPoint sv → ∀ e ∈ recorded c.sharedState.rangeRoutingTable.rangePeriodList,
      LpId.Ordered e.originalAlp record.1)))

/-- No record survives: a replayed period has not been read from. -/
theorem not_arrives {target : SharedState} {ssvId : SsvId} {sv : StateVariable AbstractValue}
    (hreach : sv.Reachable) (record : LpId × Nat) : ¬ Arrives target ssvId sv record := by
  intro h
  obtain ⟨target', statuses, list, sv', hinsert, hcopy, p, hp, hrecord⟩ := h
  simp only [SharedState.insert] at hinsert
  split at hinsert
  · cases hinsert
  · obtain rfl := congrArg Prod.fst (Option.some.inj hinsert)
    obtain ⟨_, sv'', hsv'', hentries⟩ := SharedState.replay_spec sv.writePeriodList
      { target with stateVariableMap := target.stateVariableMap.insert ssvId (.create ssvId) }
      ssvId (.create ssvId) .empty [] (by simp) rfl hreach.invariant.1
    obtain rfl : sv' = sv'' := Option.some.inj (hcopy.symm.trans hsv'')
    have hmem : p.entry ∈ sv'.entries := List.mem_map_of_mem hp
    rw [hentries] at hmem
    obtain ⟨e, _, he⟩ := List.mem_map.mp hmem
    have hreads : p.agentReadMap = [] := (congrArg Entry.reads he).symm
    rw [hreads] at hrecord
    cases hrecord

section Lose

variable {c c' : Clp} {clock : SsvId → Nat} {migrationMap : List (Direction × List SsvId)}
variable {ssvId : SsvId} {sv : StateVariable AbstractValue}

theorem undone_iff (h : migrateStateVariables RollbackList.content clock migrationMap c = .ok c')
    (hmoved : ssvId ∈ migrationMap.flatMap Prod.snd)
    (hsv : c.sharedState.getCopy ssvId = some sv) :
    ∃ list, c.CallsFor sv list ∧ ∀ record,
      c.Undone c' ssvId record ↔ ∃ time, (record.1, time) ∈ list.content ∧ time < record.2 := by
  obtain ⟨l, hl, _, hsends⟩ := (empties_migrate clock migrationMap c c' h).sends
  obtain ⟨list, hcalls, hrollbacks⟩ := hsends ssvId hmoved sv hsv
  refine ⟨list, hcalls, ?_⟩
  intro record
  have hsince : c.queuedSince c' = l := by simp [queuedSince, hl]
  simp only [Undone, hsince, hrollbacks, List.mem_map, Prod.mk.injEq]
  constructor
  · intro h
    obtain ⟨time, ⟨e, he, hagent, htime⟩, hle⟩ := h
    exact ⟨e.2, by rwa [← hagent], by omega⟩
  · intro h
    obtain ⟨time, hmem, hlt⟩ := h
    exact ⟨time + 1, ⟨(record.1, time), hmem, rfl, rfl⟩, hlt⟩

/-- A migration loses no read of a variable if every read lies behind the start of a period
its agent has read from and the agents are in order; and only if, where the range table
has no part in it. -/
theorem losesNoRead_iff
    (h : migrateStateVariables RollbackList.content clock migrationMap c = .ok c')
    (hmoved : ssvId ∈ migrationMap.flatMap Prod.snd)
    (hsv : c.sharedState.getCopy ssvId = some sv) (hreach : sv.Reachable)
    (target : SharedState) :
    (ReadBehindStart sv ∧ c.InOrder sv → c.LosesNoRead c' target ssvId sv) ∧
      (¬ HoldsPoint sv → c.LosesNoRead c' target ssvId sv →
        ReadBehindStart sv ∧ c.InOrder sv) := by
  obtain ⟨list, ⟨queries, hcalls, hpresent, hnone⟩, hundone⟩ := undone_iff h hmoved hsv
  constructor
  · intro hcondition p hp record hrecord
    obtain ⟨hbehind, horder⟩ := hcondition
    obtain ⟨hreads, hqueries⟩ := horder p hp record hrecord
    have hordered : ∀ call ∈ list.calls, LpId.Ordered call.1 record.1 := by
      intro call hcall
      cases (hcalls call).mp hcall with
      | inl hcall => exact hreads call hcall
      | inr hcall =>
          obtain ⟨e, he, heq⟩ := mem_callsFor.mp hcall
          have hpoint : HoldsPoint sv := by
            by_contra hpoint
            rw [hnone hpoint] at he
            cases he
          rw [← heq]
          exact hqueries hpoint e (hpresent e he)
    obtain ⟨start, hstart, hlt⟩ := hbehind p hp record hrecord
    obtain ⟨time, hle, hmem⟩ := RollbackList.exists_content hordered
      ((hcalls (record.1, start)).mpr (.inl hstart))
    exact .inr ((hundone record).mpr ⟨time, hmem, by omega⟩)
  · intro hpoint hloses
    have hcalls' : ∀ call, call ∈ list.calls ↔ call ∈ readStarts sv.writePeriodList := by
      intro call
      rw [hcalls call, hnone hpoint]
      simp [callsFor]
    have hentry : ∀ p ∈ sv.writePeriodList, ∀ record ∈ p.agentReadMap,
        ∃ time, (record.1, time) ∈ list.content ∧ time < record.2 := by
      intro p hp record hrecord
      exact (hundone record).mp ((hloses p hp record hrecord).resolve_left
        (not_arrives hreach record))
    have hordered : ∀ p ∈ sv.writePeriodList, ∀ record ∈ p.agentReadMap,
        ∀ call ∈ readStarts sv.writePeriodList, LpId.Ordered call.1 record.1 := by
      intro p hp record hrecord call hcall
      obtain ⟨q, hq, _, other, hother, hagent⟩ := mem_readStarts.mp hcall
      obtain ⟨time, hmem, _⟩ := hentry p hp record hrecord
      obtain ⟨time', hmem', _⟩ := hentry q hq other hother
      rw [← hagent]
      exact RollbackList.ordered_of_mem_content hmem' hmem
    refine ⟨?_, ?_⟩
    · intro p hp record hrecord
      obtain ⟨time, hmem, hlt⟩ := hentry p hp record hrecord
      refine ⟨time, (hcalls' _).mp (RollbackList.mem_calls_of_mem_content ?_ hmem), hlt⟩
      intro call hcall
      exact hordered p hp record hrecord call ((hcalls' call).mp hcall)
    · intro p hp record hrecord
      exact ⟨hordered p hp record hrecord, fun h => absurd h hpoint⟩

end Lose

/-- Two CLPs; the first holds variable 7 and the agent is behind the second. -/
def twoClps : Setup where
  numberOfClps := 2
  startTime := 0
  initialisor :=
    { clpToSsvMap := (∅ : Std.TreeMap Nat (List SsvId)).insert 0 [7]
      alpToClpMap := (∅ : Std.TreeMap Nat Nat).insert 2 1
      clpSsvIdValueMap := (∅ : Std.TreeMap SsvId AbstractValue).insert 7 (.valueINT 0) }
  isParentClp rank := rank == 0
  portThreshold := 0
  rangeRoutingTable := fun _ => .empty
  rollbacks := RollbackList.content

/-- The variable once the agent has read it. -/
def readOnce (time : Nat) : StateVariable AbstractValue :=
  ⟨7, [⟨0, ULONG_MAX, .valueINT 0, ⟨0, 0⟩, [(⟨1, 2⟩, time)]⟩]⟩

theorem reachable_readOnce (time : Nat) : (readOnce time).Reachable := by
  have hstart := (StateVariable.Reachable.create 7).addWritePeriod (AbstractValue.valueINT 0)
    0 ⟨0, 0⟩ rfl
  exact hstart.exec (show StateVariable.exec _ (.read ⟨1, 2⟩ time) = some (readOnce time, _) by
    simp [StateVariable.exec, StateVariable.read, StateVariable.walkBack,
      StateVariable.addWritePeriod, StateVariable.create, Cut.last?, WritePeriod.create,
      WritePeriod.read, readOnce]
    rfl)

/-- The first CLP answers the read and then moves the variable to the second. -/
def MovesAfterRead (time : Nat) (c c' : Clp) : Prop :=
  (create twoClps 0 >>= fun c => c.processMessage RollbackList.content (fun _ => 0) 1
    (.request ⟨1, time, ⟨1, 2⟩, .singleRead 7⟩)) = .ok c ∧
  c.sharedState.getCopy 7 = some (readOnce time) ∧
  migrateStateVariables RollbackList.content (fun _ => 0) [(.LEFT, [7])] c = .ok c'

theorem losesNoRead_iff_behind : ∃ c c', MovesAfterRead 4 c c' ∧
    ∀ target, c.LosesNoRead c' target 7 (readOnce 4) := by
  obtain ⟨c, c', hmoves, hcondition⟩ : ∃ c c', MovesAfterRead 4 c c' ∧
      (ReadBehindStart (readOnce 4) ∧ c.InOrder (readOnce 4)) := by
    exact ⟨_, _, ⟨rfl, rfl, rfl⟩, by decide, by decide⟩
  refine ⟨c, c', hmoves, fun target => ?_⟩
  exact (losesNoRead_iff hmoves.2.2 (by decide) hmoves.2.1 (reachable_readOnce 4) target).1
    hcondition

/-- A read at the very start of its period gets a rollback to one past it. -/
theorem read_at_start_lost : ∃ c c', MovesAfterRead 0 c c' ∧
    ∀ target, ¬ c.LosesNoRead c' target 7 (readOnce 0) := by
  obtain ⟨c, c', hmoves, hundone⟩ : ∃ c c', MovesAfterRead 0 c c' ∧
      ¬ c.Undone c' 7 (⟨1, 2⟩, 0) := ⟨_, _, ⟨rfl, rfl, rfl⟩, by decide⟩
  refine ⟨c, c', hmoves, ?_⟩
  intro target hloses
  cases hloses _ List.mem_cons_self (⟨1, 2⟩, 0) List.mem_cons_self with
  | inl harrives => exact not_arrives (reachable_readOnce 0) _ harrives
  | inr h => exact hundone h

end Clp
end PdesMas
