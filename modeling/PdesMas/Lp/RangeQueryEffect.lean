import PdesMas.Lp.RangeClp
import PdesMas.RangeQuery.RangePeriods

/-!
What a CLP does with a message of a range query. Of a query that is new to it the
loop over the ports settles some, asks the CLPs behind others, and leaves in the
tracker which ports it waits for; a reply settles the port it came in by.
-/

namespace PdesMas

namespace RangeClp

/-- What range messages leave alone: all but range tables, tracker and the contents of
the variables. -/
structure Kept (c c' : RangeClp) : Prop where
  rank : c'.rank = c.rank
  numberOfClps : c'.numberOfClps = c.numberOfClps
  gvt : c'.gvt = c.gvt
  routeTable : c'.routeTable = c.routeTable
  contains : ∀ id, c'.sharedState.containsVariable id = c.sharedState.containsVariable id

theorem Kept.refl (c : RangeClp) : Kept c c := ⟨rfl, rfl, rfl, rfl, fun _ => rfl⟩

theorem Kept.trans {c c' c'' : RangeClp} (h : Kept c c') (h' : Kept c' c'') : Kept c c'' :=
  ⟨h'.rank.trans h.rank, h'.numberOfClps.trans h.numberOfClps, h'.gvt.trans h.gvt,
    h'.routeTable.trans h.routeTable, fun id => (h'.contains id).trans (h.contains id)⟩

theorem kept_setRangeTable (c : RangeClp) (port : Direction) (table : RangeRoutingTable) :
    Kept c (c.setRangeTable port table) :=
  ⟨by simp, by simp, by simp, by simp, fun id => by simp [SharedState.containsVariable]⟩

def hasRangePeriod (c : RangeClp) (m : RangeQueryMessage) (port : Direction) : Bool :=
  (c.rangeTable port).hasRangePeriod m.timestamp

def overlaps (c : RangeClp) (m : RangeQueryMessage) (port : Direction) : Bool :=
  ((c.rangeTable port).getRangeCopy m.timestamp).any (·.isRangeOverlapping m.range)

/-- A port that the query is recorded at. -/
def records (c : RangeClp) (incomingPort : Direction) (m : RangeQueryMessage)
    (port : Direction) : Bool :=
  c.isTarget incomingPort port && c.hasRangePeriod m port

/-- A port that the query goes on through. -/
def asks (c : RangeClp) (incomingPort : Direction) (m : RangeQueryMessage)
    (port : Direction) : Bool :=
  c.records incomingPort m port && (c.overlaps m port && port != .HERE)

/-- A port that is scanned in the loop itself. -/
def settles (c : RangeClp) (incomingPort : Direction) (m : RangeQueryMessage)
    (port : Direction) : Bool :=
  !c.isTarget incomingPort port ||
    c.hasRangePeriod m port && (!c.overlaps m port || port == .HERE)

theorem settles_of_hasRangePeriod {c : RangeClp} {incomingPort port : Direction}
    {m : RangeQueryMessage} (h : c.hasRangePeriod m port = true) :
    c.settles incomingPort m port = !c.asks incomingPort m port := by
  simp only [settles, asks, records, h]
  cases c.isTarget incomingPort port <;> cases c.overlaps m port <;> simp [bne]

/-- A query handed on through `port`. -/
structure Asked (c : RangeClp) (m : RangeQueryMessage) (port : Direction)
    (q : RangeQueryMessage) : Prop where
  origin : q.origin = c.rank
  destination : c.routeTable.getRankFromDirection port = some q.destination
  timestamp : q.timestamp = m.timestamp
  identifier : q.identifier = m.identifier
  originalAgent : q.originalAgent = m.originalAgent
  range : q.range = m.range
  ssvValueList : q.ssvValueList = ∅

/-- The point of a variable that a range read would give. -/
def reading (c : RangeClp) (m : RangeQueryMessage) (id : SsvId) : Option Point :=
  c.sharedState.stateVariableMap[id]?.bind fun sv =>
    (SharedState.pointAt sv m.timestamp).filter m.range.isValueOverlapping

/-- What the tracker and the sent messages say when the loop has scanned some ports
and asked through others. -/
structure Tracked (c : RangeClp) (m : RangeQueryMessage) (incomingPort : Direction)
    (scanned asked : List Direction) (s : Scan) : Prop where
  timestamp : s.newRangeQueryMessage.timestamp = m.timestamp
  identifier : s.newRangeQueryMessage.identifier = m.identifier
  originalAgent : s.newRangeQueryMessage.originalAgent = m.originalAgent
  range : s.newRangeQueryMessage.range = m.range
  others : ∀ j, m.identifier ≠ j → s.clp.rangeTracker[j]? = c.rangeTracker[j]?
  entry : ∃ e, s.clp.rangeTracker[m.identifier]? = some e ∧ e.originPort = incomingPort ∧
    (∀ p, e.getScanStatus p = .NOT_SCANNED ↔
      p ∈ Direction.ports ∧ p ≠ incomingPort ∧ p ∉ scanned) ∧
    ∀ x : SsvId, (e.ssvValueMap[x]?).or s.newRangeQueryMessage.ssvValueList[x]? =
      (m.ssvValueList[x]?).or (s.reads.findSome? (·[x]?))
  sent : List.Forall₂ (Asked c m) asked s.sent

section Loop

variable {c : RangeClp} {m : RangeQueryMessage} {incomingPort : Direction}
  {scanned asked : List Direction} {s s' : Scan}

theorem Tracked.recordQuery (h : Tracked c m incomingPort scanned asked s) (port : Direction)
    (blockStatus : Bool) :
    Tracked c m incomingPort scanned asked (s.recordQuery port blockStatus) := by
  obtain ⟨hts, hid, hagent, hrange, hothers, hentry, hsent⟩ := h
  have htracker : (s.recordQuery port blockStatus).clp.rangeTracker = s.clp.rangeTracker := by
    simp [Scan.recordQuery, addRangeQueryInfo]
  refine ⟨hts, hid, hagent, hrange, ?_, ?_, hsent⟩
  · rwa [htracker]
  · rwa [htracker]

/-- What the message holds goes into the entry. -/
theorem Tracked.portScanned (h : Tracked c m incomingPort scanned asked s) (port : Direction) :
    Tracked c m incomingPort (scanned ++ [port]) asked (s.portScanned port) := by
  obtain ⟨hts, hid, hagent, hrange, hothers, ⟨e, he, horigin, hstatus, hmap⟩, hsent⟩ := h
  refine ⟨hts, hid, hagent, hrange, fun j hj => ?_,
    ⟨(e.setScanStatus port .SCANNED).addToSsvValueMap s.newRangeQueryMessage.ssvValueList,
      ?_, horigin, fun p => ?_, fun x => ?_⟩, hsent⟩
  · rw [← hothers j hj]
    rw [← hid] at hj
    exact (RangeTracker.getElem?_modify_of_ne hj _).trans (RangeTracker.getElem?_modify_of_ne hj _)
  · simp [Scan.portScanned, RangeTracker.addToSsvValueMap, RangeTracker.setPortToScanned,
      hid, he]
  · change (e.setScanStatus port .SCANNED).getScanStatus p = _ ↔ _
    rw [RQPortScanStatus.getScanStatus_setScanStatus]
    by_cases hp : p = port
    · simp [hp]
    · simp [hp, hstatus]
  · change ((e.ssvValueMap.addAll s.newRangeQueryMessage.ssvValueList)[x]?).or
      (∅ : PointMap)[x]? = _
    rw [PointMap.getElem?_addAll, hmap, Std.TreeMap.getElem?_emptyc, Option.or_none]
    rfl

theorem Tracked.readHere (h : Tracked c m incomingPort scanned asked s)
    (hcleared : s.newRangeQueryMessage.ssvValueList = ∅) (hreads : s.reads = [])
    (direction : Direction) :
    Tracked c m incomingPort scanned asked (s.readHere direction) := by
  obtain ⟨hts, hid, hagent, hrange, hothers, ⟨e, he, horigin, hstatus, hmap⟩, hsent⟩ := h
  refine ⟨hts, hid, hagent, hrange, hothers, ⟨e, he, horigin, hstatus, fun x => ?_⟩, hsent⟩
  have hx := hmap x
  rw [hcleared, hreads] at hx
  simp only [Std.TreeMap.getElem?_emptyc, Option.or_none, List.findSome?_nil] at hx
  rw [hx]
  simp [Scan.readHere, hreads]

theorem Tracked.forward (h : Tracked c m incomingPort scanned asked s)
    (hrank : s.clp.rank = c.rank) (htable : s.clp.routeTable = c.routeTable)
    (hcleared : s.newRangeQueryMessage.ssvValueList = ∅) {port : Direction}
    (hs : s.forward port = some s') :
    Tracked c m incomingPort scanned (asked ++ [port]) s' := by
  obtain ⟨rank, hdestination, hs⟩ := Option.bind_eq_some_iff.mp hs
  cases hs
  obtain ⟨hts, hid, hagent, hrange, hothers, hentry, hsent⟩ := h
  refine ⟨hts, hid, hagent, hrange, hothers, hentry, ?_⟩
  refine List.rel_append hsent (.cons ?_ .nil)
  exact ⟨hrank, htable ▸ hdestination, hts, hid, hagent, hrange, hcleared⟩

/-- The range tables when the loop has come through the ports of `l`. -/
structure TablesTo (c : RangeClp) (m : RangeQueryMessage) (incomingPort : Direction)
    (l : List Direction) (c' : RangeClp) : Prop where
  kept : Kept c c'
  stateVariableMap : c'.sharedState.stateVariableMap = c.sharedState.stateVariableMap
  table : ∀ p, c'.rangeTable p =
    if p ∈ l ∧ c.records incomingPort m p then
      (c.rangeTable p).addRangeQueryInfo m.timestamp m.identifier m.range (!c.overlaps m p)
        m.originalAgent
    else c.rangeTable p

section Tables

variable {l : List Direction} {c' : RangeClp} {port : Direction}

theorem TablesTo.skip (h : TablesTo c m incomingPort l c')
    (hrecords : c.records incomingPort m port = false) :
    TablesTo c m incomingPort (l ++ [port]) c' := by
  refine ⟨h.kept, h.stateVariableMap, fun p => ?_⟩
  rw [h.table]
  by_cases hp : p = port
  · simp [hp, hrecords]
  · simp [hp]

theorem TablesTo.record (h : TablesTo c m incomingPort l s.clp)
    (htracked : Tracked c m incomingPort scanned asked s) (hport : port ∉ l)
    (hrecords : c.records incomingPort m port = true) :
    TablesTo c m incomingPort (l ++ [port]) (s.recordQuery port (!c.overlaps m port)).clp := by
  refine ⟨h.kept.trans (kept_setRangeTable _ _ _), ?_, fun p => ?_⟩
  · simp [Scan.recordQuery, addRangeQueryInfo, h.stateVariableMap]
  · simp only [Scan.recordQuery, addRangeQueryInfo, rangeTable_setRangeTable, h.table]
    by_cases hp : p = port
    · subst hp
      simp [hrecords, hport, htracked.timestamp, htracked.identifier, htracked.range,
        htracked.originalAgent]
    · simp [hp]

theorem TablesTo.setTracker (h : TablesTo c m incomingPort l c') (t : RangeTracker) :
    TablesTo c m incomingPort l { c' with rangeTracker := t } :=
  ⟨⟨h.kept.rank, h.kept.numberOfClps, h.kept.gvt, h.kept.routeTable, h.kept.contains⟩,
    h.stateVariableMap, h.table⟩

theorem TablesTo.rangeRead (h : TablesTo c m incomingPort l c') (range : Range)
    (direction : Direction) (hops time : Nat) :
    TablesTo c m incomingPort l
      { c' with sharedState := (c'.sharedState.rangeRead range direction hops time).2 } := by
  obtain ⟨hvariables, htable⟩ := c'.sharedState.rangeRead_frame range direction hops time
  obtain ⟨⟨hrank, hclps, hgvt, hroutes, hcontains⟩, hmap, htables⟩ := h
  refine ⟨⟨hrank, hclps, hgvt, hroutes, fun id => ?_⟩, hvariables.trans hmap, fun p => ?_⟩
  · simpa only [SharedState.containsVariable, hvariables] using hcontains id
  · rw [← htables]
    simp only [rangeTable, htable]

end Tables

/-- The loop has come through the ports of `l`. -/
structure ScanTo (c : RangeClp) (m : RangeQueryMessage) (incomingPort : Direction)
    (l : List Direction) (s : Scan) : Prop where
  tables : TablesTo c m incomingPort l s.clp
  tracked : Tracked c m incomingPort (l.filter (c.settles incomingPort m))
    (l.filter (c.asks incomingPort m)) s
  cleared : s.newRangeQueryMessage.ssvValueList = ∅
  reads_length : s.reads.length ≤ 1
  reads_here : .HERE ∉ l → s.reads = []
  reads : ∀ r ∈ s.reads, ∀ id : SsvId, r[id]? = c.reading m id

theorem ScanTo.next {l : List Direction} {port : Direction} (h : ScanTo c m incomingPort l s)
    (hport : port ∉ l) (hs : s.scanPort incomingPort port = some s') :
    ScanTo c m incomingPort (l ++ [port]) s' := by
  obtain ⟨htables, htracked, hcleared, hlength, hhere, hreads⟩ := h
  have htableport : s.clp.rangeTable port = c.rangeTable port := by
    rw [htables.table]
    simp [hport]
  have htarget : s.clp.isTarget incomingPort port = c.isTarget incomingPort port := by
    simp only [isTarget, htables.kept.rank, htables.kept.numberOfClps]
  have hperiod : (s.clp.rangeTable port).hasRangePeriod s.newRangeQueryMessage.timestamp =
      c.hasRangePeriod m port := by
    rw [htableport, htracked.timestamp, hasRangePeriod]
  have hoverlaps : (((s.clp.rangeTable port).getRangeCopy
      s.newRangeQueryMessage.timestamp).any
        (·.isRangeOverlapping s.newRangeQueryMessage.range)) = c.overlaps m port := by
    rw [htableport, htracked.timestamp, htracked.range, overlaps]
  have hhere' : .HERE ∉ l ++ [port] → s.reads = [] := by
    intro hnot
    exact hhere fun hin => hnot (List.mem_append_left _ hin)
  simp only [Scan.scanPort, htarget, hperiod, hoverlaps] at hs
  split at hs
  · rename_i ht
    split at hs
    · rename_i hp
      have hrecords : c.records incomingPort m port = true := by simp [records, ht, hp]
      have hrecorded := htables.record htracked hport hrecords
      split at hs
      · rename_i ho
        have hsettles : c.settles incomingPort m port = (port == .HERE) := by
          simp [settles, ht, hp, ho]
        have hasks : c.asks incomingPort m port = (port != .HERE) := by
          simp [asks, hrecords, ho]
        rw [ho] at hrecorded
        split at hs
        · rename_i heq
          subst heq
          cases hs
          have hnone := hhere hport
          have hread := ((htracked.recordQuery .HERE false).readHere hcleared hnone
            incomingPort).portScanned .HERE
          refine ⟨(hrecorded.rangeRead _ _ _ _).setTracker _, ?_, rfl, ?_, ?_, ?_⟩
          · simpa [List.filter_append, hsettles, hasks] using hread
          · simp [Scan.portScanned, Scan.readHere, Scan.recordQuery, hnone]
          · simp
          · intro r hr id
            simp only [Scan.portScanned, Scan.readHere, Scan.recordQuery, hnone, List.nil_append,
              List.mem_singleton] at hr
            rw [hr, SharedState.getElem?_rangeRead, htracked.timestamp, htracked.range]
            have hvariables := hrecorded.stateVariableMap
            simp only [Scan.recordQuery, Bool.not_true] at hvariables
            rw [hvariables]
            rfl
        · rename_i hne
          have hforward := (htracked.recordQuery port false).forward hrecorded.kept.rank
            hrecorded.kept.routeTable hcleared hs
          obtain ⟨rank, _, hs⟩ := Option.bind_eq_some_iff.mp hs
          cases hs
          refine ⟨hrecorded, ?_, hcleared, hlength, hhere', hreads⟩
          simpa [List.filter_append, hsettles, hasks, hne] using hforward
      · rename_i ho
        cases hs
        have ho' : c.overlaps m port = false := by simpa using ho
        rw [ho'] at hrecorded
        have hscanned := (htracked.recordQuery port true).portScanned port
        refine ⟨hrecorded.setTracker _, ?_, rfl, hlength, hhere', hreads⟩
        simpa [List.filter_append, settles, asks, ht, hp, ho'] using hscanned
    · rename_i hp
      cases hs
      have hrecords : c.records incomingPort m port = false := by simp [records, hp]
      refine ⟨htables.skip hrecords, ?_, hcleared, hlength, hhere', hreads⟩
      simpa [List.filter_append, settles, asks, hrecords, ht, hp] using htracked
  · rename_i ht
    cases hs
    have hrecords : c.records incomingPort m port = false := by simp [records, ht]
    refine ⟨(htables.skip hrecords).setTracker _, ?_, rfl, hlength, hhere', hreads⟩
    simpa [List.filter_append, settles, asks, hrecords, ht] using htracked.portScanned port

theorem ScanTo.exists_next {l : List Direction} {port : Direction}
    (h : ScanTo c m incomingPort l s) (hport : port ∉ l)
    (hleads : c.asks incomingPort m port = true →
      ∃ rank, c.routeTable.getRankFromDirection port = some rank) :
    ∃ s', s.scanPort incomingPort port = some s' := by
  obtain ⟨htables, htracked, _, _, _, _⟩ := h
  have htableport : s.clp.rangeTable port = c.rangeTable port := by
    rw [htables.table]
    simp [hport]
  simp only [Scan.scanPort]
  split
  · rename_i ht
    split
    · rename_i hp
      split
      · rename_i ho
        split
        · exact ⟨_, rfl⟩
        · rename_i hne
          have hasks : c.asks incomingPort m port = true := by
            rw [htableport, htracked.timestamp] at hp ho
            rw [htracked.range] at ho
            simp only [isTarget, htables.kept.rank, htables.kept.numberOfClps] at ht
            simp only [asks, records, isTarget, hasRangePeriod, overlaps, ht, hp, ho,
              Bool.true_and, bne_iff_ne, ne_eq]
            exact hne
          obtain ⟨rank, hrank⟩ := hleads hasks
          have hroutes : (s.recordQuery port false).clp.routeTable = c.routeTable := by
            simp [Scan.recordQuery, addRangeQueryInfo, htables.kept.routeTable]
          rw [Scan.forward, hroutes, hrank]
          exact ⟨_, rfl⟩
      · exact ⟨_, rfl⟩
    · exact ⟨_, rfl⟩
  · exact ⟨_, rfl⟩

theorem ScanTo.foldl {l l' : List Direction} (h : ScanTo c m incomingPort l s)
    (hnodup : (l ++ l').Nodup) (hs : l'.foldlM (Scan.scanPort incomingPort) s = some s') :
    ScanTo c m incomingPort (l ++ l') s' := by
  induction l' generalizing l s with
  | nil =>
      cases hs
      simpa using h
  | cons port rest ih =>
      obtain ⟨s₁, hs₁, hrest⟩ := Option.bind_eq_some_iff.mp hs
      have hport : port ∉ l := fun hin =>
        (List.nodup_append.mp hnodup).2.2 port hin port (by simp) rfl
      rw [List.append_cons] at hnodup ⊢
      exact ih (h.next hport hs₁) hnodup hrest

theorem ScanTo.exists_foldl {l l' : List Direction} (h : ScanTo c m incomingPort l s)
    (hnodup : (l ++ l').Nodup)
    (hleads : ∀ port, c.asks incomingPort m port = true →
      ∃ rank, c.routeTable.getRankFromDirection port = some rank) :
    ∃ s', l'.foldlM (Scan.scanPort incomingPort) s = some s' := by
  induction l' generalizing l s with
  | nil => exact ⟨s, rfl⟩
  | cons port rest ih =>
      have hport : port ∉ l := fun hin =>
        (List.nodup_append.mp hnodup).2.2 port hin port (by simp) rfl
      obtain ⟨s₁, hs₁⟩ := h.exists_next hport (hleads port)
      rw [List.append_cons] at hnodup
      obtain ⟨s', hs'⟩ := ih (h.next hport hs₁) hnodup
      exact ⟨s', Option.bind_eq_some_iff.mpr ⟨s₁, hs₁, hs'⟩⟩

end Loop

/-- The ports that the loop goes through. -/
def otherPorts (incomingPort : Direction) : List Direction :=
  Direction.ports.filter (· ≠ incomingPort)

theorem otherPorts_nodup (incomingPort : Direction) : (otherPorts incomingPort).Nodup :=
  List.Nodup.filter _ (by decide)

section Query

variable {c : RangeClp} {m : RangeQueryMessage} {incomingPort : Direction}

theorem scan_eq (habsent : c.rangeTracker[m.identifier]? = none)
    (hdirection : c.routeTable.getDirectionFromRank m.originalAgent.rank = some incomingPort) :
    c.scan m = (otherPorts incomingPort).foldlM (Scan.scanPort incomingPort)
        (c.startScan m incomingPort) ∧
      ScanTo c m incomingPort [] (c.startScan m incomingPort) := by
  let e := RQPortScanStatus.create incomingPort m.numberOfHops m.ssvValueList
  have hentry : (c.startScan m incomingPort).clp.rangeTracker[m.identifier]? = some e := by
    simp [startScan, RangeTracker.getElem?_createEntry habsent, e]
  have hstatus : ∀ p, e.getScanStatus p = .NOT_SCANNED ↔
      p ∈ Direction.ports ∧ p ≠ incomingPort := fun p => RQPortScanStatus.getScanStatus_create ..
  have houtstanding : e.outstandingPorts = otherPorts incomingPort := by
    simp only [RQPortScanStatus.outstandingPorts, otherPorts]
    refine List.filter_congr fun p hp => ?_
    simp [hstatus, hp]
  constructor
  · simp only [scan, hdirection, Option.bind_eq_bind, Option.bind_some]
    rw [RangeTracker.getOutstandingPorts_of_some hentry, houtstanding]
  · refine ⟨?_, ⟨rfl, rfl, rfl, rfl, ?_, ⟨e, hentry, rfl, ?_, ?_⟩, .nil⟩, rfl, ?_, ?_, ?_⟩
    · exact TablesTo.setTracker ⟨.refl c, rfl, fun p => by simp⟩ _
    · exact fun j hj => RangeTracker.getElem?_createEntry_of_ne hj _ _ _
    · simpa using hstatus
    · intro x
      simp [e, RQPortScanStatus.create, startScan, RangeQueryMessage.clearSsvList]
    · simp [startScan]
    · exact fun _ => rfl
    · simp [startScan]

theorem scanTo_scan (habsent : c.rangeTracker[m.identifier]? = none)
    (hdirection : c.routeTable.getDirectionFromRank m.originalAgent.rank = some incomingPort)
    {s : Scan} (hs : c.scan m = some s) :
    ScanTo c m incomingPort (otherPorts incomingPort) s := by
  obtain ⟨heq, hstart⟩ := scan_eq habsent hdirection
  rw [heq] at hs
  exact hstart.foldl (otherPorts_nodup incomingPort) hs

theorem exists_scan (habsent : c.rangeTracker[m.identifier]? = none)
    (hdirection : c.routeTable.getDirectionFromRank m.originalAgent.rank = some incomingPort)
    (hleads : ∀ port, c.asks incomingPort m port = true →
      ∃ rank, c.routeTable.getRankFromDirection port = some rank) :
    ∃ s, c.scan m = some s := by
  obtain ⟨heq, hstart⟩ := scan_eq habsent hdirection
  rw [heq]
  exact hstart.exists_foldl (otherPorts_nodup incomingPort) hleads

end Query

/-- The answer through `port`, with the points collected. -/
structure Answer (c : RangeClp) (m : RangeQueryMessage) (port : Direction)
    (points : SsvId → Option Point) (q : RangeQueryMessage) : Prop where
  origin : q.origin = c.rank
  destination : c.routeTable.getRankFromDirection port = some q.destination
  timestamp : q.timestamp = m.timestamp
  identifier : q.identifier = m.identifier
  originalAgent : q.originalAgent = m.originalAgent
  range : q.range = m.range
  ssvValueList : ∀ x : SsvId, q.ssvValueList[x]? = points x

/-- The end of the handling: an entry that waits for some ports, or an answer. -/
inductive Outcome (c : RangeClp) (m : RangeQueryMessage) (port : Direction)
    (waits : Direction → Prop) (points : SsvId → Option Point) (t : RangeTracker) :
    List RangeQueryMessage → Prop
  | waiting {e} (hwaits : ∃ p, waits p) (hentry : t[m.identifier]? = some e)
      (horigin : e.originPort = port)
      (hstatus : ∀ p, e.getScanStatus p = .NOT_SCANNED ↔ waits p)
      (hmap : ∀ x : SsvId, e.ssvValueMap[x]? = points x) : Outcome c m port waits points t []
  | answered {q} (hwaits : ∀ p, ¬ waits p) (hentry : t[m.identifier]? = none)
      (hanswer : Answer c m port points q) : Outcome c m port waits points t [q]

section Response

variable {c : RangeClp} {m : RangeQueryMessage} {port : Direction}
  {waits : Direction → Prop} {points : SsvId → Option Point}

theorem sendResponse_frame {r : RangeClp × List RangeQueryMessage}
    (hr : c.sendResponse m = some r) :
    (∃ t : RangeTracker, r.1 = { c with rangeTracker := t } ∧
      ∀ j, m.identifier ≠ j → t[j]? = c.rangeTracker[j]?) ∧
      ∀ q ∈ r.2, q.identifier = m.identifier := by
  simp only [sendResponse] at hr
  split at hr
  · obtain ⟨rank, _, hr⟩ := Option.bind_eq_some_iff.mp hr
    cases hr
    refine ⟨⟨_, rfl, fun j hj => ?_⟩, ?_⟩
    · simp [RangeTracker.getElem?_deleteEntry, hj]
    · simp
  · cases hr
    exact ⟨⟨_, rfl, fun j _ => rfl⟩, nofun⟩

theorem sendResponse_outcome {e : RQPortScanStatus} {r : RangeClp × List RangeQueryMessage}
    (hentry : c.rangeTracker[m.identifier]? = some e) (horigin : e.originPort = port)
    (hstatus : ∀ p, e.getScanStatus p = .NOT_SCANNED ↔ waits p)
    (hports : ∀ p, waits p → p ∈ Direction.ports)
    (hmap : ∀ x : SsvId, e.ssvValueMap[x]? = points x) (hr : c.sendResponse m = some r) :
    Outcome c m port waits points r.1.rangeTracker r.2 := by
  simp only [sendResponse, RangeTracker.getOutstandingPorts_of_some hentry] at hr
  split at hr
  · rename_i hempty
    obtain ⟨rank, hrank, hr⟩ := Option.bind_eq_some_iff.mp hr
    cases hr
    rw [RangeTracker.deleteEntry_of_some hentry, horigin] at hrank
    refine .answered ?_ ?_ ⟨rfl, hrank, rfl, rfl, rfl, rfl, ?_⟩
    · intro p hp
      have hmem := RQPortScanStatus.mem_outstandingPorts.mpr ⟨hports p hp, (hstatus p).mpr hp⟩
      rw [List.isEmpty_iff.mp hempty] at hmem
      cases hmem
    · simp [RangeTracker.getElem?_deleteEntry]
    · intro x
      rw [RangeTracker.getCollectedSsvValueMap_of_some hentry]
      exact hmap x
  · rename_i hempty
    cases hr
    refine .waiting ?_ hentry horigin hstatus hmap
    obtain ⟨p, hp⟩ := List.exists_mem_of_ne_nil _ (mt List.isEmpty_iff.mpr hempty)
    exact ⟨p, (hstatus p).mp (RQPortScanStatus.mem_outstandingPorts.mp hp).2⟩

theorem exists_sendResponse {e : RQPortScanStatus} {rank : Nat}
    (hentry : c.rangeTracker[m.identifier]? = some e)
    (hrank : c.routeTable.getRankFromDirection e.originPort = some rank) :
    ∃ r, c.sendResponse m = some r := by
  simp only [sendResponse]
  split
  · rw [RangeTracker.deleteEntry_of_some hentry, hrank]
    exact ⟨_, rfl⟩
  · exact ⟨_, rfl⟩

theorem Outcome.congr {c' : RangeClp} {m' : RangeQueryMessage} {t : RangeTracker}
    {sent : List RangeQueryMessage} (h : Outcome c' m' port waits points t sent)
    (hkept : Kept c c') (htimestamp : m'.timestamp = m.timestamp)
    (hidentifier : m'.identifier = m.identifier)
    (hagent : m'.originalAgent = m.originalAgent) (hrange : m'.range = m.range) :
    Outcome c m port waits points t sent := by
  cases h with
  | waiting hwaits hentry horigin hstatus hmap =>
      exact .waiting hwaits (hidentifier ▸ hentry) horigin hstatus hmap
  | answered hwaits hentry hanswer =>
      obtain ⟨ho, hd, ht, hi, ha, hr, hs⟩ := hanswer
      refine .answered hwaits (hidentifier ▸ hentry) ⟨ho.trans hkept.rank, ?_,
        ht.trans htimestamp, hi.trans hidentifier, ha.trans hagent, hr.trans hrange, hs⟩
      exact hkept.routeTable ▸ hd

end Response

/-- The handling of a query that is new to the CLP. -/
structure Fresh (c : RangeClp) (m : RangeQueryMessage) (incomingPort : Direction)
    (r : Served) : Prop where
  tables : TablesTo c m incomingPort (otherPorts incomingPort) r.clp
  others : ∀ j, m.identifier ≠ j → r.clp.rangeTracker[j]? = c.rangeTracker[j]?
  reads_length : r.reads.length ≤ 1
  reads : ∀ read ∈ r.reads, ∀ id : SsvId, read[id]? = c.reading m id
  forwarded : List.Forall₂ (Asked c m) ((otherPorts incomingPort).filter (c.asks incomingPort m))
    r.forwarded
  outcome : Outcome c m incomingPort
    (fun p => p ∈ otherPorts incomingPort ∧ c.settles incomingPort m p = false)
    (fun x => (m.ssvValueList[x]?).or (r.reads.findSome? (·[x]?))) r.clp.rangeTracker r.responses

/-- The handling of a reply that came in by `port`. -/
structure Replied (c : RangeClp) (m : RangeQueryMessage) (port : Direction)
    (e : RQPortScanStatus) (r : Served) : Prop where
  clp : ∃ t, r.clp = { c with rangeTracker := t }
  others : ∀ j, m.identifier ≠ j → r.clp.rangeTracker[j]? = c.rangeTracker[j]?
  forwarded : r.forwarded = []
  reads : r.reads = []
  outcome : Outcome c m e.originPort (fun p => e.getScanStatus p = .NOT_SCANNED ∧ p ≠ port)
    (fun x => (e.ssvValueMap[x]?).or m.ssvValueList[x]?) r.clp.rangeTracker r.responses

section Process

variable {c : RangeClp} {m : RangeQueryMessage} {incomingPort : Direction} {r : Served}

theorem mem_otherPorts {p : Direction} :
    p ∈ otherPorts incomingPort ↔ p ∈ Direction.ports ∧ p ≠ incomingPort := by
  simp [otherPorts]

theorem serve_fresh (habsent : c.rangeTracker[m.identifier]? = none)
    (hr : c.serve m = some r) :
    ∃ incomingPort,
      c.routeTable.getDirectionFromRank m.originalAgent.rank = some incomingPort ∧
        Fresh c m incomingPort r := by
  simp only [serve, RangeTracker.hasEntry_eq_false.mpr habsent, Bool.false_eq_true,
    if_false] at hr
  obtain ⟨s, hs, hr⟩ := Option.bind_eq_some_iff.mp hr
  obtain ⟨q, hq, hr⟩ := Option.bind_eq_some_iff.mp hr
  cases hr
  obtain ⟨incomingPort, hdirection, _⟩ := Option.bind_eq_some_iff.mp hs
  refine ⟨incomingPort, hdirection, ?_⟩
  obtain ⟨htables, htracked, hcleared, hlength, _, hreads⟩ := scanTo_scan habsent hdirection hs
  obtain ⟨hts, hid, hagent, hrange, hothers, ⟨e, he, horigin, hstatus, hmap⟩, hsent⟩ := htracked
  obtain ⟨⟨t, ht, hkeep⟩, _⟩ := sendResponse_frame hq
  have hentry : s.clp.rangeTracker[s.newRangeQueryMessage.identifier]? = some e := hid ▸ he
  have hstatus' : ∀ p, e.getScanStatus p = .NOT_SCANNED ↔
      p ∈ otherPorts incomingPort ∧ c.settles incomingPort m p = false := by
    intro p
    rw [hstatus, List.mem_filter, mem_otherPorts, ← Bool.not_eq_true]
    tauto
  have hmap' : ∀ x : SsvId, e.ssvValueMap[x]? =
      (m.ssvValueList[x]?).or (s.reads.findSome? (·[x]?)) := by
    intro x
    rw [← hmap, hcleared, Std.TreeMap.getElem?_emptyc, Option.or_none]
  have houtcome := sendResponse_outcome hentry horigin hstatus'
    (fun p hp => (mem_otherPorts.mp hp.1).1) hmap' hq
  rw [ht] at houtcome
  refine ⟨ht ▸ htables.setTracker t, fun j hj => ?_, hlength, hreads, hsent, ?_⟩
  · rw [← hothers j hj, ht]
    exact hkeep j (hid ▸ hj)
  · rw [ht]
    exact houtcome.congr htables.kept hts hid hagent hrange

theorem exists_serve_fresh (habsent : c.rangeTracker[m.identifier]? = none)
    (hdirection : c.routeTable.getDirectionFromRank m.originalAgent.rank = some incomingPort)
    (hleads : ∀ port, c.asks incomingPort m port = true →
      ∃ rank, c.routeTable.getRankFromDirection port = some rank)
    (hback : ∃ rank, c.routeTable.getRankFromDirection incomingPort = some rank) :
    ∃ r, c.serve m = some r := by
  obtain ⟨s, hs⟩ := exists_scan habsent hdirection hleads
  obtain ⟨htables, htracked, _, _, _, _⟩ := scanTo_scan habsent hdirection hs
  obtain ⟨e, he, horigin, _⟩ := htracked.entry
  obtain ⟨rank, hrank⟩ := hback
  obtain ⟨q, hq⟩ := exists_sendResponse (m := s.newRangeQueryMessage)
    (htracked.identifier ▸ he) (horigin ▸ htables.kept.routeTable ▸ hrank)
  simp only [serve, RangeTracker.hasEntry_eq_false.mpr habsent, Bool.false_eq_true, if_false]
  refine ⟨⟨q.1, s.sent, q.2, s.reads⟩, Option.bind_eq_some_iff.mpr ⟨s, hs, ?_⟩⟩
  exact Option.bind_eq_some_iff.mpr ⟨q, hq, rfl⟩

/-- The entry when the reply is noted. -/
theorem noteReply_entry {port : Direction} {e : RQPortScanStatus} {c' : RangeClp}
    (hentry : c.rangeTracker[m.identifier]? = some e)
    (hdirection : c.routeTable.getDirectionFromRank m.origin = some port)
    (hc' : c.noteReply m = some c') :
    c'.rangeTracker[m.identifier]? =
      some (((e.setScanStatus port .SCANNED).increaseNumberOfHops
        m.numberOfHops).addToSsvValueMap m.ssvValueList) := by
  simp only [noteReply, hdirection, Option.bind_eq_bind, Option.bind_some] at hc'
  cases hc'
  simp [RangeTracker.addToSsvValueMap, RangeTracker.increaseNumberOfHops,
    RangeTracker.setPortToScanned, hentry]

theorem noteReply_frame {c' : RangeClp} (hc' : c.noteReply m = some c') :
    ∃ t : RangeTracker, c' = { c with rangeTracker := t } ∧
      ∀ j, m.identifier ≠ j → t[j]? = c.rangeTracker[j]? := by
  obtain ⟨port, _, hc'⟩ := Option.bind_eq_some_iff.mp hc'
  cases hc'
  refine ⟨_, rfl, fun j hj => ?_⟩
  exact (RangeTracker.getElem?_modify_of_ne hj _).trans
    ((RangeTracker.getElem?_modify_of_ne hj _).trans (RangeTracker.getElem?_modify_of_ne hj _))

theorem serve_reply {port : Direction} {e : RQPortScanStatus}
    (hentry : c.rangeTracker[m.identifier]? = some e)
    (hports : ∀ p, e.getScanStatus p = .NOT_SCANNED → p ∈ Direction.ports)
    (hdirection : c.routeTable.getDirectionFromRank m.origin = some port)
    (hr : c.serve m = some r) : Replied c m port e r := by
  simp only [serve, RangeTracker.hasEntry_eq_true.mpr ⟨e, hentry⟩, if_true] at hr
  obtain ⟨c', hc', hr⟩ := Option.bind_eq_some_iff.mp hr
  obtain ⟨q, hq, hr⟩ := Option.bind_eq_some_iff.mp hr
  cases hr
  have hentry' := noteReply_entry hentry hdirection hc'
  obtain ⟨t, rfl, hkeep⟩ := noteReply_frame hc'
  obtain ⟨⟨t', ht', hkeep'⟩, _⟩ := sendResponse_frame hq
  have hstatus : ∀ p, (((e.setScanStatus port .SCANNED).increaseNumberOfHops
      m.numberOfHops).addToSsvValueMap m.ssvValueList).getScanStatus p = .NOT_SCANNED ↔
        e.getScanStatus p = .NOT_SCANNED ∧ p ≠ port := by
    intro p
    change (e.setScanStatus port .SCANNED).getScanStatus p = _ ↔ _
    rw [RQPortScanStatus.getScanStatus_setScanStatus]
    by_cases hp : p = port
    · simp [hp]
    · simp [hp]
  have houtcome := sendResponse_outcome hentry' rfl hstatus (fun p hp => hports p hp.1)
    (fun x => PointMap.getElem?_addAll e.ssvValueMap m.ssvValueList x) hq
  refine ⟨⟨t', ht'⟩, fun j hj => ?_, rfl, rfl, ?_⟩
  · rw [ht']
    exact (hkeep' j hj).trans (hkeep j hj)
  · exact houtcome.congr ⟨rfl, rfl, rfl, rfl, fun _ => rfl⟩ rfl rfl rfl rfl

theorem exists_serve_reply {port : Direction} {e : RQPortScanStatus} {rank : Nat}
    (hentry : c.rangeTracker[m.identifier]? = some e)
    (hdirection : c.routeTable.getDirectionFromRank m.origin = some port)
    (hrank : c.routeTable.getRankFromDirection e.originPort = some rank) :
    ∃ r, c.serve m = some r := by
  have hnote : ∃ c', c.noteReply m = some c' := by
    rw [noteReply, hdirection]
    exact ⟨_, rfl⟩
  obtain ⟨c', hc'⟩ := hnote
  have hentry' := noteReply_entry hentry hdirection hc'
  have hroutes : c'.routeTable = c.routeTable := by
    obtain ⟨t, rfl, _⟩ := noteReply_frame hc'
    rfl
  obtain ⟨q, hq⟩ := exists_sendResponse hentry' (hroutes ▸ hrank)
  simp only [serve, RangeTracker.hasEntry_eq_true.mpr ⟨e, hentry⟩, if_true]
  refine ⟨⟨q.1, [], q.2, []⟩, Option.bind_eq_some_iff.mpr ⟨c', hc', ?_⟩⟩
  exact Option.bind_eq_some_iff.mpr ⟨q, hq, rfl⟩

end Process

/-- The CLP stays as it is but for what is recorded and, at the ports in `changed`, for
the ranges; no table loses a period. -/
structure Steady (changed : Direction → Prop) (c c' : RangeClp) : Prop where
  kept : Kept c c'
  periods : ∀ p, RangeRoutingTable.KeepsTimes (c.rangeTable p).rangePeriodList
    (c'.rangeTable p).rangePeriodList
  noRange : ∀ p, ¬ changed p → (c.rangeTable p).NoRange → (c'.rangeTable p).NoRange

theorem exists_left_of_mem {α β : Type} {R : α → β → Prop} {l : List α} {l' : List β}
    (h : List.Forall₂ R l l') {b : β} (hb : b ∈ l') : ∃ a ∈ l, R a b := by
  induction h with
  | nil => cases hb
  | @cons x y _ _ hxy _ ih =>
      cases List.mem_cons.mp hb with
      | inl heq => exact ⟨x, List.mem_cons_self, heq ▸ hxy⟩
      | inr hb =>
          obtain ⟨a, ha, hab⟩ := ih hb
          exact ⟨a, List.mem_cons_of_mem _ ha, hab⟩

theorem exists_right_of_mem {α β : Type} {R : α → β → Prop} {l : List α} {l' : List β}
    (h : List.Forall₂ R l l') {a : α} (ha : a ∈ l) : ∃ b ∈ l', R a b := by
  obtain ⟨b, hb, hab⟩ := exists_left_of_mem h.flip ha
  exact ⟨b, hb, hab⟩

section Frame

variable {c c' c'' : RangeClp} {changed : Direction → Prop}

theorem Steady.refl (c : RangeClp) (changed : Direction → Prop) : Steady changed c c :=
  ⟨.refl c, fun _ => .refl _, fun _ _ => id⟩

theorem Steady.trans (h : Steady changed c c') (h' : Steady changed c' c'') :
    Steady changed c c'' :=
  ⟨h.kept.trans h'.kept, fun p => (h.periods p).trans (h'.periods p),
    fun p hp hnone => h'.noRange p hp (h.noRange p hp hnone)⟩

theorem Steady.mono {changed' : Direction → Prop} (h : Steady changed c c')
    (hle : ∀ p, changed p → changed' p) : Steady changed' c c' :=
  ⟨h.kept, h.periods, fun p hp => h.noRange p fun hp' => hp (hle p hp')⟩

theorem steady_of_rangeTable (hkept : Kept c c')
    (htable : ∀ p, c'.rangeTable p = c.rangeTable p) : Steady changed c c' := by
  refine ⟨hkept, fun p => ?_, fun p _ hnone => ?_⟩
  · rw [htable]
    exact .refl _
  · rwa [htable]

theorem TablesTo.steady {m : RangeQueryMessage} {incomingPort : Direction} {l : List Direction}
    (h : TablesTo c m incomingPort l c') : Steady changed c c' := by
  refine ⟨h.kept, fun p => ?_, fun p _ hnone => ?_⟩
  · rw [h.table]
    split
    · exact RangeRoutingTable.keepsTimes_modify fun _ => rfl
    · exact .refl _
  · rw [h.table]
    split
    · exact hnone.modify fun _ => rfl
    · exact hnone

theorem Outcome.identifier_of_mem {m : RangeQueryMessage} {port : Direction}
    {waits : Direction → Prop} {points : SsvId → Option Point} {t : RangeTracker}
    {sent : List RangeQueryMessage} (h : Outcome c m port waits points t sent)
    {q : RangeQueryMessage} (hq : q ∈ sent) : q.identifier = m.identifier := by
  cases h with
  | waiting => cases hq
  | answered _ _ hanswer =>
      rw [List.mem_singleton.mp hq]
      exact hanswer.identifier

/-- A query message concerns its own query alone. -/
theorem serve_frame {m : RangeQueryMessage} {r : Served} (hr : c.serve m = some r) :
    Steady changed c r.clp ∧
      (∀ j, m.identifier ≠ j → r.clp.rangeTracker[j]? = c.rangeTracker[j]?) ∧
        ∀ q ∈ r.forwarded ++ r.responses, q.identifier = m.identifier := by
  cases hentry : c.rangeTracker[m.identifier]? with
  | none =>
      obtain ⟨incomingPort, _, hfresh⟩ := serve_fresh hentry hr
      refine ⟨hfresh.tables.steady, hfresh.others, fun q hq => ?_⟩
      cases List.mem_append.mp hq with
      | inl hq =>
          obtain ⟨p, _, hp⟩ := exists_left_of_mem hfresh.forwarded hq
          exact hp.identifier
      | inr hq => exact hfresh.outcome.identifier_of_mem hq
  | some e =>
      simp only [serve, RangeTracker.hasEntry_eq_true.mpr ⟨e, hentry⟩, if_true] at hr
      obtain ⟨c', hc', hr⟩ := Option.bind_eq_some_iff.mp hr
      obtain ⟨q, hq, hr⟩ := Option.bind_eq_some_iff.mp hr
      cases hr
      obtain ⟨t, rfl, hkeep⟩ := noteReply_frame hc'
      obtain ⟨⟨t', ht', hkeep'⟩, hidentifier⟩ := sendResponse_frame hq
      refine ⟨?_, fun j hj => ?_, hidentifier⟩
      · rw [ht']
        exact steady_of_rangeTable ⟨rfl, rfl, rfl, rfl, fun _ => rfl⟩ fun _ => rfl
      · rw [ht']
        exact (hkeep' j hj).trans (hkeep j hj)

end Frame

end RangeClp
end PdesMas
