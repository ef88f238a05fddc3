import PdesMas.Lp.RangeQueryEffect

/-!
What anti-messages, range updates and writes do to a CLP: they change its range
tables, but not the tracker of range queries. An anti-message goes through the
ports one by one and is handed on where the status it finds is not blocked; the
updates of a table are announced at the other ports.
-/

namespace PdesMas

namespace RangeClp

/-- The range table of a port that an anti-message does its work at. -/
def undone (c : RangeClp) (m : RangeQueryAntiMessage) (towards p : Direction) :
    RangeRoutingTable :=
  if p ≠ towards ∧ (c.rangeTable p).hasRangePeriod m.timestamp then
    (c.rangeTable p).deleteRangeQueryInfo m.timestamp m.identifier
  else c.rangeTable p

/-- A port that an anti-message is handed on through. -/
def handsOn (c : RangeClp) (m : RangeQueryAntiMessage) (towards p : Direction) : Bool :=
  decide (p ≠ towards) && (c.rangeTable p).hasRangePeriod m.timestamp &&
    !(c.rangeTable p).getBlockStatus m.timestamp m.identifier && p != .HERE

/-- The loop of the handling of an anti-message has come through the ports of `l`. -/
structure AntiTo (c : RangeClp) (m : RangeQueryAntiMessage) (towards : Direction)
    (l : List Direction) (r : RangeClp × List RangeQueryAntiMessage) : Prop where
  kept : Kept c r.1
  rangeTracker : r.1.rangeTracker = c.rangeTracker
  table : ∀ p, r.1.rangeTable p = if p ∈ l then c.undone m towards p else c.rangeTable p
  sent : List.Forall₂ (fun p q => ∃ rank, c.routeTable.getRankFromDirection p = some rank ∧
    q = { m with origin := c.rank, destination := rank }) (l.filter (c.handsOn m towards)) r.2

section Anti

variable {c : RangeClp} {m : RangeQueryAntiMessage} {towards : Direction} {l : List Direction}
  {r r' : RangeClp × List RangeQueryAntiMessage}

theorem AntiTo.next {port : Direction} (h : AntiTo c m towards l r) (hport : port ∉ l)
    (hr : antiPort m towards r port = some r') : AntiTo c m towards (l ++ [port]) r' := by
  obtain ⟨hkept, htracker, htable, hsent⟩ := h
  have htableport : r.1.rangeTable port = c.rangeTable port := by
    rw [htable]
    simp [hport]
  simp only [antiPort, htableport] at hr
  split at hr
  · rename_i hopen
    obtain ⟨sent, hs, hr⟩ := Option.bind_eq_some_iff.mp hr
    cases hr
    have hundone : c.undone m towards port =
        (c.rangeTable port).deleteRangeQueryInfo m.timestamp m.identifier := if_pos hopen
    refine ⟨hkept.trans (kept_setRangeTable _ _ _), by simp [htracker], fun p => ?_, ?_⟩
    · rw [rangeTable_setRangeTable]
      by_cases hp : p = port
      · simp [hp, hundone]
      · simp [hp, htable]
    · simp only [forwardAnti, htableport] at hs
      split at hs
      · rename_i hstatus
        obtain ⟨rank, hrank, rfl⟩ := Option.map_eq_some_iff.mp hs
        have hhands : c.handsOn m towards port = true := by
          simp [handsOn, hopen, hstatus]
        rw [List.filter_append, List.filter_cons_of_pos hhands]
        refine List.rel_append hsent (.cons ⟨rank, ?_, ?_⟩ .nil)
        · exact hkept.routeTable ▸ hrank
        · rw [hkept.rank]
      · rename_i hstatus
        cases hs
        have hhands : ¬ c.handsOn m towards port = true := by
          intro hhands
          simp only [handsOn, Bool.and_eq_true, Bool.not_eq_true', bne_iff_ne, ne_eq,
            decide_eq_true_eq] at hhands
          exact hstatus ⟨hhands.1.2, hhands.2⟩
        rw [List.filter_append, List.filter_cons_of_neg hhands, List.filter_nil, List.append_nil,
          List.append_nil]
        exact hsent
  · rename_i hclosed
    cases hr
    have hundone : c.undone m towards port = c.rangeTable port := if_neg hclosed
    have hhands : ¬ c.handsOn m towards port = true := by
      intro hhands
      simp only [handsOn, Bool.and_eq_true, decide_eq_true_eq] at hhands
      exact hclosed hhands.1.1
    refine ⟨hkept, htracker, fun p => ?_, ?_⟩
    · rw [htable]
      by_cases hp : p = port
      · simp [hp, hundone]
      · simp [hp]
    · rw [List.filter_append, List.filter_cons_of_neg hhands, List.filter_nil, List.append_nil]
      exact hsent

theorem AntiTo.foldl {l' : List Direction} (h : AntiTo c m towards l r)
    (hnodup : (l ++ l').Nodup) (hr : l'.foldlM (antiPort m towards) r = some r') :
    AntiTo c m towards (l ++ l') r' := by
  induction l' generalizing l r with
  | nil =>
      cases hr
      simpa using h
  | cons port rest ih =>
      obtain ⟨r₁, hr₁, hrest⟩ := Option.bind_eq_some_iff.mp hr
      have hport : port ∉ l := fun hin =>
        (List.nodup_append.mp hnodup).2.2 port hin port (by simp) rfl
      rw [List.append_cons] at hnodup ⊢
      exact ih (h.next hport hr₁) hnodup hrest

theorem processRangeQueryAnti_spec (hr : c.processRangeQueryAnti m = some r) :
    m.timestamp < c.gvt ∧ r = (c, []) ∨
      ¬ m.timestamp < c.gvt ∧ ∃ towards,
        c.routeTable.getDirectionFromRank m.originalAgent.rank = some towards ∧
          AntiTo c m towards Direction.ports r := by
  simp only [processRangeQueryAnti] at hr
  split at hr
  · rename_i hgvt
    cases hr
    exact .inl ⟨hgvt, rfl⟩
  · rename_i hgvt
    obtain ⟨towards, htowards, hr⟩ := Option.bind_eq_some_iff.mp hr
    have hstart : AntiTo c m towards [] (c, []) := ⟨.refl c, rfl, fun p => by simp, .nil⟩
    exact .inr ⟨hgvt, towards, htowards, hstart.foldl (by decide) hr⟩

theorem AntiTo.steady {changed : Direction → Prop} (h : AntiTo c m towards l r) :
    Steady changed c r.1 := by
  refine ⟨h.kept, fun p => ?_, fun p _ hnone => ?_⟩
  · rw [h.table, undone]
    split
    · split
      · exact RangeRoutingTable.keepsTimes_modify fun _ => rfl
      · exact .refl _
    · exact .refl _
  · rw [h.table, undone]
    split
    · split
      · exact hnone.modify fun _ => rfl
      · exact hnone
    · exact hnone

end Anti

section Update

variable {c : RangeClp}

theorem sendRangeUpdates_mem {l : List RangeUpdates} {sourcePort : Direction}
    {sent : List RangeUpdateMessage} (h : c.sendRangeUpdates l sourcePort = some sent)
    {q : RangeUpdateMessage} (hq : q ∈ sent) :
    q.origin = c.rank ∧ ∃ port, port ≠ .HERE ∧
      c.routeTable.getRankFromDirection port = some q.destination := by
  have hall : ∀ (l : List (RangeUpdates × Direction)) (sent : List RangeUpdateMessage),
      (∀ r ∈ l, r.2 ≠ .HERE) →
      l.mapM (fun r => c.sendRangeUpdate sourcePort r.1 r.2) = some sent → q ∈ sent →
        q.origin = c.rank ∧ ∃ port, port ≠ .HERE ∧
          c.routeTable.getRankFromDirection port = some q.destination := by
    intro l
    induction l with
    | nil =>
        intro sent _ hsent hq
        cases hsent
        cases hq
    | cons r rest ih =>
        intro sent hhere hsent hq
        rw [List.mapM_cons] at hsent
        obtain ⟨first, hfirst, hsent⟩ := Option.bind_eq_some_iff.mp hsent
        obtain ⟨others, hothers, hsent⟩ := Option.bind_eq_some_iff.mp hsent
        cases hsent
        cases List.mem_cons.mp hq with
        | inl heq =>
            obtain ⟨rank, hrank, rfl⟩ := Option.map_eq_some_iff.mp hfirst
            rw [heq]
            exact ⟨rfl, r.2, hhere r List.mem_cons_self, hrank⟩
        | inr hq =>
            exact ih others (fun r' hr' => hhere r' (List.mem_cons_of_mem _ hr')) hothers hq
  refine hall _ sent ?_ h hq
  intro r hr
  obtain ⟨u, _, hr⟩ := List.mem_flatMap.mp hr
  obtain ⟨port, hport, rfl⟩ := List.mem_map.mp hr
  have hmem := (List.mem_filter.mp hport).1
  have hnot : ∀ p ∈ [Direction.UP, .LEFT, .RIGHT], p ≠ .HERE := by decide
  exact hnot port hmem

theorem announce_eq {port : Direction} {r : RangeClp × List RangeUpdateMessage}
    (h : c.announce port = some r) :
    r.1 = c.clearRangeUpdates port ∧
      ∀ q ∈ r.2, q.origin = c.rank ∧ ∃ port, port ≠ .HERE ∧
        c.routeTable.getRankFromDirection port = some q.destination := by
  obtain ⟨sent, hsent, rfl⟩ := Option.map_eq_some_iff.mp h
  exact ⟨rfl, fun q hq => sendRangeUpdates_mem hsent hq⟩

/-- A step that concerns ranges: the tracker stays, and what is sent goes out of ports. -/
structure Ranged (changed : Direction → Prop) (c : RangeClp)
    (r : RangeClp × List RangeUpdateMessage) : Prop where
  steady : Steady changed c r.1
  rangeTracker : r.1.rangeTracker = c.rangeTracker
  sent : ∀ q ∈ r.2, q.origin = c.rank ∧ ∃ port, port ≠ .HERE ∧
    c.routeTable.getRankFromDirection port = some q.destination
  recorded : ∀ p, (RangeRoutingTable.recorded (r.1.rangeTable p).rangePeriodList).Perm
    (RangeRoutingTable.recorded (c.rangeTable p).rangePeriodList)

theorem ranged_nothing (c : RangeClp) (changed : Direction → Prop) : Ranged changed c (c, []) :=
  ⟨.refl c changed, rfl, nofun, fun _ => .refl _⟩

/-- The updates of a port are cleared, its table is changed and the change is announced. -/
theorem ranged_announce {port : Direction} {table : RangeRoutingTable}
    {c' : RangeClp} {r : RangeClp × List RangeUpdateMessage} (hkept : Kept c c')
    (htracker : c'.rangeTracker = c.rangeTracker)
    (htables : ∀ p, c'.rangeTable p = if p = port then table else c.rangeTable p)
    (hperiods : RangeRoutingTable.KeepsTimes (c.rangeTable port).rangePeriodList
      table.rangePeriodList)
    (hrecorded : (RangeRoutingTable.recorded table.rangePeriodList).Perm
      (RangeRoutingTable.recorded (c.rangeTable port).rangePeriodList))
    (hr : c'.announce port = some r) : Ranged (· = port) c r := by
  obtain ⟨heq, hsent⟩ := announce_eq hr
  have hlist : ∀ p, (r.1.rangeTable p).rangePeriodList = (c'.rangeTable p).rangePeriodList := by
    intro p
    rw [heq, clearRangeUpdates, rangeTable_setRangeTable]
    split
    · rename_i hp
      rw [hp]
      rfl
    · rfl
  refine ⟨⟨?_, fun p => ?_, fun p hp hnone => ?_⟩, ?_, fun q hq => ?_, fun p => ?_⟩
  · rw [heq]
    exact hkept.trans (kept_setRangeTable _ _ _)
  · rw [hlist, htables]
    split
    · rename_i hp
      rw [hp]
      exact hperiods
    · exact .refl _
  · simp only [RangeRoutingTable.NoRange, hlist, htables]
    rw [if_neg hp]
    exact hnone
  · rw [heq, clearRangeUpdates, setRangeTable_rangeTracker, htracker]
  · obtain ⟨horigin, p, hp, hdestination⟩ := hsent q hq
    exact ⟨horigin.trans hkept.rank, p, hp, hkept.routeTable ▸ hdestination⟩
  · rw [hlist, htables]
    split
    · rename_i hp
      rw [hp]
      exact hrecorded
    · exact .refl _

theorem processRangeUpdate_ranged {m : RangeUpdateMessage}
    {r : RangeClp × List RangeUpdateMessage} (hr : c.processRangeUpdate m = some r) :
    ∃ port, c.routeTable.getDirectionFromRank m.origin = some port ∧
      Ranged (· = port) c r := by
  obtain ⟨port, hport, hr⟩ := Option.bind_eq_some_iff.mp hr
  let range := if m.range ≠ .sentinel then some m.range else none
  let table := (c.rangeTable port).clearRangeUpdates
  have hcleared : (c.clearRangeUpdates port).rangeTable port = table := by
    simp [clearRangeUpdates, table]
  have htables : ∀ p, ((c.clearRangeUpdates port).setRangeTable port
      (((c.clearRangeUpdates port).rangeTable port).processRangeUpdate m.timestamp range
        .empty).1).rangeTable p =
      if p = port then (table.processRangeUpdate m.timestamp range .empty).1
      else c.rangeTable p := by
    intro p
    rw [rangeTable_setRangeTable, hcleared]
    split
    · rfl
    · rename_i hp
      simp [clearRangeUpdates, hp]
  refine ⟨port, hport, ranged_announce ((kept_setRangeTable _ _ _).trans
    (kept_setRangeTable _ _ _)) (by simp [clearRangeUpdates]) htables ?_ ?_ hr⟩
  · exact table.keepsTimes_processRangeUpdate m.timestamp _ _
  · exact table.recorded_processRangeUpdate m.timestamp _ _

section Write

variable {s s' : SharedState}

/-- What a write or its rollback does to the table of its own port. -/
def Updated (table table' : RangeRoutingTable) : Prop :=
  RangeRoutingTable.KeepsTimes table.rangePeriodList table'.rangePeriodList ∧
    (RangeRoutingTable.recorded table'.rangePeriodList).Perm
      (RangeRoutingTable.recorded table.rangePeriodList)

theorem updated_updateRange (s : SharedState) {table : RangeRoutingTable}
    (htable : s.rangeRoutingTable = table) (oldValue newValue : Option Point)
    (time endTime : Nat) (rollbackList : RollbackList) :
    Updated table
      (s.updateRange oldValue newValue time endTime rollbackList).1.rangeRoutingTable := by
  subst htable
  simp only [SharedState.updateRange]
  split
  · constructor
    · exact RangeRoutingTable.keepsTimes_update _ _ _ _ _ _ _ _
    · exact RangeRoutingTable.recorded_update _ _ _ _ _ _ _ _
  · exact ⟨.refl _, .refl _⟩

theorem updated_writeWithRollback {ssvId : SsvId} {agentID : LpId} {value : AbstractValue}
    {time : Nat} {rollbackList : RollbackList} {r : SharedState × WriteStatus × RollbackList}
    (h : s.writeWithRollback ssvId agentID value time rollbackList = some r) :
    Updated s.rangeRoutingTable r.1.rangeRoutingTable := by
  obtain ⟨sv, _, h⟩ := Option.bind_eq_some_iff.mp h
  cases h
  refine updated_updateRange _ ?_ _ _ _ _ _
  rfl

theorem updated_rollbackWrite {ssvId : SsvId} {agentID : LpId} {time : Nat}
    {rollbackList : RollbackList} {r : SharedState × RollbackList}
    (h : s.rollbackWrite ssvId agentID time rollbackList = some r) :
    Updated s.rangeRoutingTable r.1.rangeRoutingTable := by
  obtain ⟨sv, _, h⟩ := Option.bind_eq_some_iff.mp h
  cases h
  refine updated_updateRange _ ?_ _ _ _ _ _
  rfl

/-- The shared state is changed and the change is announced. -/
theorem ranged_setSharedState {r : RangeClp × List RangeUpdateMessage}
    (hvariables : SharedState.SameVariables (c.clearRangeUpdates .HERE).sharedState s')
    (hupdated : Updated (c.clearRangeUpdates .HERE).sharedState.rangeRoutingTable
      s'.rangeRoutingTable)
    (hr : { c.clearRangeUpdates .HERE with sharedState := s' }.announce .HERE = some r) :
    Ranged (· = .HERE) c r := by
  have hkept : Kept c { c.clearRangeUpdates .HERE with sharedState := s' } := by
    obtain ⟨hrank, hclps, hgvt, hroutes, hcontains⟩ :=
      kept_setRangeTable c .HERE (c.rangeTable .HERE).clearRangeUpdates
    exact ⟨hrank, hclps, hgvt, hroutes,
      fun id => (hvariables.contains id).trans (hcontains id)⟩
  refine ranged_announce hkept (by simp [clearRangeUpdates]) (fun p => ?_) hupdated.1
    hupdated.2 hr
  by_cases hp : p = .HERE
  · simp [rangeTable, hp]
  · simp [rangeTable, clearRangeUpdates, setRangeTable, hp]

theorem processWrite_ranged {ssvId : SsvId} {originalAgent : LpId} {value : AbstractValue}
    {timestamp : Nat} {r : RangeClp × List RangeUpdateMessage}
    (hr : c.processWrite ssvId originalAgent value timestamp = some r) :
    Ranged (· = .HERE) c r := by
  obtain ⟨q, hq, hr⟩ := Option.bind_eq_some_iff.mp hr
  exact ranged_setSharedState (SharedState.writeWithRollback_sameVariables hq)
    (updated_writeWithRollback hq) hr

theorem processWriteAnti_ranged {ssvId : SsvId} {originalAgent : LpId} {timestamp : Nat}
    {r : RangeClp × List RangeUpdateMessage}
    (hr : c.processWriteAnti ssvId originalAgent timestamp = some r) :
    Ranged (· = .HERE) c r := by
  simp only [processWriteAnti] at hr
  split at hr
  · cases hr
    exact ranged_nothing c _
  · obtain ⟨q, hq, hr⟩ := Option.bind_eq_some_iff.mp hr
    exact ranged_setSharedState (SharedState.rollbackWrite_sameVariables hq)
      (updated_rollbackWrite hq) hr

end Write

end Update

end RangeClp
end PdesMas
