import PdesMas.State.Lasting

/-!
The shared states whose variables stay readable. Each operation that comes in time
goes through, and calls back known agents only; a variable that is taken out can be
entered elsewhere.
-/

namespace PdesMas.SharedState

open RangeRoutingTable

variable {known : LpId → Prop} {floor : Nat} {s s' : SharedState} {ssvId : SsvId}

/-- The range queries in the table are those of known agents. -/
def QueriesBy (known : LpId → Prop) (s : SharedState) : Prop :=
  ∀ e ∈ recorded s.rangeRoutingTable.rangePeriodList, known e.originalAlp

structure Lasting (known : LpId → Prop) (floor : Nat) (s : SharedState) : Prop where
  stored : ∀ (id : SsvId) (sv : StateVariable AbstractValue),
    s.stateVariableMap[id]? = some sv → sv.Lasting known floor
  queries : s.QueriesBy known

theorem queriesBy_updateRange (hqueries : s.QueriesBy known) (oldValue newValue : Option Point)
    (time endTime : Nat) {rollbackList : RollbackList}
    (hlist : ∀ c ∈ rollbackList.calls, known c.1) :
    (s.updateRange oldValue newValue time endTime rollbackList).1.QueriesBy known ∧
      ∀ c ∈ (s.updateRange oldValue newValue time endTime rollbackList).2.calls, known c.1 := by
  obtain ⟨queries, hadds, _⟩ := s.exists_updateRange oldValue newValue time endTime rollbackList
  refine ⟨fun e he => hqueries e (hadds.kept.subset he), fun c hc => ?_⟩
  rw [hadds.calls] at hc
  rcases List.mem_append.mp hc with hc | hc
  · exact hlist c hc
  · obtain ⟨e, he, rfl⟩ := mem_callsFor.mp hc
    exact hqueries e (hadds.present e he)

theorem Lasting.raise {floor' : Nat} (h : s.Lasting known floor) (hle : floor ≤ floor') :
    s.Lasting known floor' :=
  ⟨fun id sv hsv => (h.stored id sv hsv).raise hle, h.queries⟩

/-- One variable changes. -/
theorem Lasting.put (h : s.Lasting known floor) {sv : StateVariable AbstractValue}
    (hsv : sv.Lasting known floor)
    (hmap : s'.stateVariableMap = s.stateVariableMap.insert ssvId sv)
    (hqueries : s'.QueriesBy known) : s'.Lasting known floor := by
  refine ⟨fun id sv' hsv' => ?_, hqueries⟩
  rw [hmap, Std.TreeMap.getElem?_insert] at hsv'
  split at hsv'
  · exact Option.some.inj hsv' ▸ hsv
  · exact h.stored id sv' hsv'

theorem Lasting.add (h : s.Lasting known floor) (habsent : s.containsVariable ssvId = false)
    (value : AbstractValue) (agentID : LpId) (hfloor : floor < LONG_MAX) :
    ∃ s', s.add ssvId value floor agentID = some s' ∧ s'.Lasting known floor :=
  ⟨_, if_neg (by simp [habsent]),
    h.put (StateVariable.lasting_addWritePeriod ssvId value agentID hfloor) rfl h.queries⟩

section Calls

variable {agent : LpId} {time : Nat}

theorem Lasting.read (h : s.Lasting known floor) (hmem : s.containsVariable ssvId = true)
    (hagent : known agent) (hfloor : floor ≤ time) (htime : time < LONG_MAX) :
    ∃ r, s.read ssvId agent time = some r ∧ r.2.Lasting known floor := by
  obtain ⟨sv, hsv⟩ := exists_of_containsVariable hmem
  obtain ⟨sv', o, hexec, hlasting, _⟩ := (h.stored ssvId sv hsv).exec
    (show (Operation.read agent time).Timely floor from hfloor) hagent htime
  obtain ⟨q, hq, heq⟩ := Option.map_eq_some_iff.mp hexec
  cases heq
  refine ⟨(q.1, { s with stateVariableMap := s.stateVariableMap.insert ssvId q.2 }), ?_,
    h.put hlasting rfl h.queries⟩
  simp [SharedState.read, hsv, hq]

theorem Lasting.writeWithRollback (h : s.Lasting known floor)
    (hmem : s.containsVariable ssvId = true) (value : AbstractValue) (hfloor : floor ≤ time)
    (htime : time < LONG_MAX) :
    ∃ r, s.writeWithRollback ssvId agent value time .empty = some r ∧ r.1.Lasting known floor ∧
      ∀ c ∈ r.2.2.calls, known c.1 := by
  obtain ⟨sv, hsv⟩ := exists_of_containsVariable hmem
  obtain ⟨sv', o, hexec, hlasting, hcalls⟩ := (h.stored ssvId sv hsv).exec
    (show (Operation.writeWithRollback agent value time).Timely floor from hfloor) trivial htime
  cases hexec
  let old := sv.readWithoutRecord time
  let r := sv.writeWithRollback agent value time .empty
  let s₁ : SharedState := { s with stateVariableMap := s.stateVariableMap.insert ssvId r.1 }
  obtain ⟨hqueries, hlist⟩ := queriesBy_updateRange (s := s₁) h.queries
    (old.2.bind AbstractValue.point?) value.point? time old.1
    (show ∀ c ∈ r.2.2.calls, known c.1 from hcalls)
  let u := s₁.updateRange (old.2.bind AbstractValue.point?) value.point? time old.1 r.2.2
  refine ⟨(u.1, r.2.1, u.2), ?_,
    h.put hlasting (updateRange_stateVariableMap _ _ _ _ _ _) hqueries, hlist⟩
  simp only [SharedState.writeWithRollback, hsv, Option.bind_eq_bind, Option.bind_some]
  rfl

theorem Lasting.rollbackRead (h : s.Lasting known floor) (hmem : s.containsVariable ssvId = true)
    (hfloor : floor ≤ time) (htime : time < LONG_MAX) :
    ∃ s', s.rollbackRead ssvId agent time = some s' ∧ s'.Lasting known floor := by
  obtain ⟨sv, hsv⟩ := exists_of_containsVariable hmem
  obtain ⟨sv', o, hexec, hlasting, _⟩ := (h.stored ssvId sv hsv).exec
    (show (Operation.performReadRollback agent time).Timely floor from hfloor) trivial htime
  obtain ⟨q, hq, heq⟩ := Option.map_eq_some_iff.mp hexec
  cases heq
  refine ⟨{ s with stateVariableMap := s.stateVariableMap.insert ssvId sv' }, ?_,
    h.put hlasting rfl h.queries⟩
  simp [SharedState.rollbackRead, hsv, hq]

theorem Lasting.rollbackWrite (h : s.Lasting known floor) (hmem : s.containsVariable ssvId = true)
    (hfloor : floor < time) (htime : time < LONG_MAX) :
    ∃ r, s.rollbackWrite ssvId agent time .empty = some r ∧ r.1.Lasting known floor ∧
      ∀ c ∈ r.2.calls, known c.1 := by
  obtain ⟨sv, hsv⟩ := exists_of_containsVariable hmem
  obtain ⟨sv', o, hexec, hlasting, hcalls⟩ := (h.stored ssvId sv hsv).exec
    (show (Operation.performWriteRollback agent time).Timely floor from hfloor) trivial htime
  cases hexec
  let r := s.rollbackPeriod ssvId sv agent time (sv.readWithoutRecord time).1 .empty
  obtain ⟨hqueries, hlist⟩ := queriesBy_updateRange
    (s := { s with
      stateVariableMap := s.stateVariableMap.insert ssvId r.1 }) h.queries (pointAt sv time)
    (pointAt r.1 time) time (sv.readWithoutRecord time).1
    (show ∀ c ∈ (sv.performWriteRollback agent time .empty).2.calls, known c.1 from hcalls)
  refine ⟨r.2, ?_, h.put hlasting (updateRange_stateVariableMap _ _ _ _ _ _) hqueries, hlist⟩
  simp only [SharedState.rollbackWrite, hsv, Option.bind_eq_bind, Option.bind_some]
  rfl

/-- Collecting up to a new GVT. -/
theorem Lasting.removeWritePeriods (h : s.Lasting known floor) (hfloor : time ≤ floor)
    (htime : time < LONG_MAX) : (s.removeWritePeriods time).Lasting known floor := by
  refine ⟨fun id sv hsv => ?_, h.queries⟩
  simp only [SharedState.removeWritePeriods, Std.TreeMap.getElem?_map,
    Option.map_eq_some_iff] at hsv
  obtain ⟨sv₀, hsv₀, rfl⟩ := hsv
  obtain ⟨sv', o, hexec, hlasting, _⟩ := (h.stored id sv₀ hsv₀).exec
    (show (Operation.removeWritePeriods time).Timely floor from hfloor) trivial htime
  cases hexec
  exact hlasting

end Calls

/-- What a replay leaves: a variable with periods that meet, and nothing else changed. -/
structure Replayed (known : LpId → Prop) (ssvId : SsvId) (s s' : SharedState)
    (rollbackList : RollbackList) : Prop where
  shaped : ∃ sv, s'.stateVariableMap[ssvId]? = some sv ∧ sv.Shaped
  others : ∀ id, id ≠ ssvId → s'.stateVariableMap[id]? = s.stateVariableMap[id]?
  queries : s'.QueriesBy known
  calls : ∀ c ∈ rollbackList.calls, known c.1

theorem replayed (l : List (WritePeriod AbstractValue)) (s : SharedState)
    (sv : StateVariable AbstractValue) (rollbackList : RollbackList)
    (hmap : s.stateVariableMap[ssvId]? = some sv) (hshaped : sv.Shaped)
    (hreaders : Timeline.ReadBy known sv.entries) (hl : ∀ p ∈ l, p.startTime < LONG_MAX)
    (hqueries : s.QueriesBy known) (hlist : ∀ c ∈ rollbackList.calls, known c.1) :
    Replayed known ssvId s (s.replay ssvId sv l rollbackList).1
      (s.replay ssvId sv l rollbackList).2.2 := by
  induction l generalizing s sv rollbackList with
  | nil => exact ⟨⟨sv, hmap, hshaped⟩, fun _ _ => rfl, hqueries, hlist⟩
  | cons p l ih =>
      let op : Operation AbstractValue := .writeWithRollback p.agent p.value p.startTime
      have hexec : sv.exec op = some (_, _) := rfl
      have heffect := Timeline.effect_of_exec hexec
      have hreaders' := Timeline.readBy_step heffect trivial hreaders
      have hcalls := Timeline.calls_of_readBy heffect hreaders
      have hshaped' := hshaped.exec (show op.time < LONG_MAX from hl p List.mem_cons_self) hexec
      have hsv := (sv.writeWithRollback_list p.agent p.value p.startTime rollbackList).1
      have hlist' : ∀ c ∈ (sv.writeWithRollback p.agent p.value p.startTime
          rollbackList).2.2.calls, known c.1 := by
        intro c hc
        rw [sv.writeWithRollback_calls] at hc
        exact (List.mem_append.mp hc).elim (hlist c) (hcalls c)
      let s₁ : SharedState :=
        { s with
          stateVariableMap := s.stateVariableMap.insert ssvId
            (sv.writeWithRollback p.agent p.value p.startTime rollbackList).1 }
      obtain ⟨hqueries', hlist''⟩ := queriesBy_updateRange (s := s₁) hqueries
        (pointAt sv p.startTime) p.value.point? p.startTime p.endTime hlist'
      have hrest := ih (s.replayPeriod ssvId sv p rollbackList).2.1
        (s.replayPeriod ssvId sv p rollbackList).1
        (s.replayPeriod ssvId sv p rollbackList).2.2.2 (by simp [replayPeriod])
        (hsv ▸ hshaped') (hsv ▸ hreaders') (fun q hq => hl q (List.mem_cons_of_mem _ hq))
        hqueries' hlist''
      refine ⟨hrest.shaped, fun id hid => (hrest.others id hid).trans ?_, hrest.queries,
        hrest.calls⟩
      simp [replayPeriod, Std.TreeMap.getElem?_insert, Ne.symm hid]

/-- A variable that comes with a state migration. -/
theorem Lasting.insert (h : s.Lasting known floor) (habsent : s.containsVariable ssvId = false)
    {sv : StateVariable AbstractValue} (hsv : sv.Lasting known floor) :
    ∃ r, s.insert ssvId sv .empty = some r ∧ r.1.Lasting known floor ∧
      ∀ c ∈ r.2.2.calls, known c.1 := by
  let fresh : StateVariable AbstractValue := .create ssvId
  let s₀ : SharedState := { s with stateVariableMap := s.stateVariableMap.insert ssvId fresh }
  have hmap : s₀.stateVariableMap[ssvId]? = some fresh := by simp [s₀]
  have hshaped : fresh.Shaped :=
    ⟨.nil, ⟨by simp [fresh, StateVariable.entries, StateVariable.create], .nil⟩,
      by simp [fresh, Timeline.Within, StateVariable.entries, StateVariable.create], trivial⟩
  have hreaders : Timeline.ReadBy known fresh.entries := by
    simp [fresh, Timeline.ReadBy, Timeline.AllReads, StateVariable.entries, StateVariable.create]
  have hstarts : ∀ p ∈ sv.writePeriodList, p.startTime < LONG_MAX :=
    fun p hp => hsv.shaped.within p.entry (List.mem_map_of_mem hp)
  have hreplayed := replayed sv.writePeriodList s₀ fresh .empty hmap hshaped hreaders hstarts
    h.queries (by simp)
  obtain ⟨_, sv₁, hsv₁, hentries⟩ := replay_spec sv.writePeriodList s₀ ssvId fresh .empty []
    hmap rfl hsv.shaped.ordered
  obtain ⟨sv₂, hsv₂, hshaped₂⟩ := hreplayed.shaped
  obtain rfl := Option.some.inj (hsv₁.symm.trans hsv₂)
  refine ⟨_, if_neg (by simp [habsent]), ⟨fun id sv' hsv' => ?_, hreplayed.queries⟩,
    hreplayed.calls⟩
  by_cases hid : id = ssvId
  · subst hid
    obtain rfl := Option.some.inj (hsv₁.symm.trans hsv')
    have hbare : sv₁.entries = sv.entries.map Entry.bare := hentries
    refine ⟨hshaped₂, ?_, ?_⟩
    · obtain ⟨e, rest, hl, hstart⟩ := hsv.opens
      exact ⟨e.bare, rest.map Entry.bare, by rw [hbare, hl]; rfl, hstart⟩
    · intro e he
      rw [hbare] at he
      obtain ⟨e₀, _, rfl⟩ := List.mem_map.mp he
      simp [Entry.bare]
  · refine h.stored id sv' ?_
    have hother := (hreplayed.others id hid).symm.trans hsv'
    simpa [s₀, Std.TreeMap.getElem?_insert, Ne.symm hid] using hother

/-- A variable that leaves with a state migration. -/
theorem Lasting.takeOut (h : s.Lasting known floor) {sv : StateVariable AbstractValue}
    (hsv : s.stateVariableMap[ssvId]? = some sv) :
    ∃ r s', s.removeWritePeriodList ssvId .empty = some r ∧ r.1.delete ssvId = some s' ∧
      s'.Lasting known floor ∧ ∀ c ∈ r.2.calls, known c.1 := by
  have hmem := containsVariable_of_getElem? hsv
  obtain ⟨r, hr, hsame⟩ := removeWritePeriodList_of_contains hmem .empty
  have htakes : TakesOut s r.1 ssvId sv .empty r.2 := by
    have heq : r = s.rollbackPeriods ssvId sv sv.writePeriodList .empty := by
      simpa [removeWritePeriodList, hsv] using hr.symm
    exact heq ▸ takesOut_rollbackPeriods ssvId sv.writePeriodList s sv rfl .empty
  obtain ⟨s', hs', _⟩ := delete_of_contains ((hsame.contains ssvId).trans hmem)
  refine ⟨r, s', hr, hs', ⟨fun id sv' hsv' => ?_, fun e he => ?_⟩, fun c hc => ?_⟩
  · rw [delete, if_pos ((hsame.contains ssvId).trans hmem)] at hs'
    obtain rfl := Option.some.inj hs'
    simp only [Std.TreeMap.getElem?_erase] at hsv'
    split at hsv'
    · cases hsv'
    · rename_i hne
      exact h.stored id sv' ((htakes.others id (by
        rintro rfl
        simp at hne)).symm.trans hsv')
  · rw [delete, if_pos ((hsame.contains ssvId).trans hmem)] at hs'
    obtain rfl := Option.some.inj hs'
    exact h.queries e (htakes.kept.subset he)
  · obtain ⟨queries, hcalls, hpresent, _⟩ := htakes.calls
    rcases (hcalls c).mp hc with hc | hc | hc
    · cases hc
    · obtain ⟨agent, time⟩ := c
      obtain ⟨p, hp, _, q, hq, rfl⟩ := mem_readStarts.mp hc
      exact (h.stored ssvId sv hsv).readers p.entry (List.mem_map_of_mem hp) q hq
    · obtain ⟨e, he, rfl⟩ := mem_callsFor.mp hc
      exact h.queries e (hpresent e he)

end PdesMas.SharedState
