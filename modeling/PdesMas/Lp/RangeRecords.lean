import PdesMas.Lp.RangeWiring

/-!
What a step does to the entries that a query has in the range tables, and to the
messages about the query on the links. A step that is not about the query leaves
both as they are; range updates move entries between periods, and a new GVT drops
none that lies in the period covering its time.
-/

namespace PdesMas

namespace RangeRoutingTable

variable {table : RangeRoutingTable} {time identifier : Nat}

/-- No entry of the query lies outside the period that covers `time`. -/
def HeldAt (table : RangeRoutingTable) (time identifier : Nat) : Prop :=
  ∀ c, table.walkBack time = some c →
    ∀ p ∈ c.front ++ c.back, ∀ e ∈ p.rangeQueryInfoList, e.identifier ≠ identifier

instance (table : RangeRoutingTable) (time identifier : Nat) :
    Decidable (table.HeldAt time identifier) :=
  match h : table.walkBack time with
  | none => isTrue (by simp [HeldAt, h])
  | some c =>
      decidable_of_iff (∀ p ∈ c.front ++ c.back, ∀ e ∈ p.rangeQueryInfoList,
        e.identifier ≠ identifier) (by simp [HeldAt, h])

theorem HeldAt.recordedAt (h : table.HeldAt time identifier)
    (hperiod : table.hasRangePeriod time = true) {e : RangePeriodListEntry}
    (he : e ∈ recorded table.rangePeriodList) (hid : e.identifier = identifier) :
    table.RecordedAt time e := by
  obtain ⟨c, hc⟩ := table.walkBack_of_hasRangePeriod time hperiod
  obtain ⟨hl, _, _⟩ := covering_of_last? hc
  obtain ⟨p, hp, he⟩ := mem_recorded.mp he
  rw [← hl, Cut.toList, List.mem_append, List.mem_cons] at hp
  refine ⟨c, hc, ?_⟩
  rcases hp with hp | hp | hp
  · exact absurd hid (h c hc p (List.mem_append_left _ hp) e he)
  · exact hp ▸ he
  · exact absurd hid (h c hc p (List.mem_append_right _ hp) e he)

/-- The deletion gets all that is held in the period it finds. -/
theorem HeldAt.delete (h : table.HeldAt time identifier)
    (hperiod : table.hasRangePeriod time = true) {e : RangePeriodListEntry}
    (he : e ∈ recorded (table.deleteRangeQueryInfo time identifier).rangePeriodList) :
    e.identifier ≠ identifier := by
  obtain ⟨c, hc⟩ := table.walkBack_of_hasRangePeriod time hperiod
  simp only [deleteRangeQueryInfo, modify, hc, mem_recorded] at he
  obtain ⟨p, hp, he⟩ := he
  rw [List.mem_append, List.mem_cons] at hp
  rcases hp with hp | hp | hp
  · exact h c hc p (List.mem_append_left _ hp) e he
  · rw [hp] at he
    simpa using (List.mem_filter.mp he).2
  · exact h c hc p (List.mem_append_right _ hp) e he

end RangeRoutingTable

namespace RangeClp

open RangeRoutingTable

variable {c c' : RangeClp} {identifier : Nat}

/-- The entries that queries have at a port. -/
def recordedAt (c : RangeClp) (port : Direction) : List RangePeriodListEntry :=
  recorded (c.rangeTable port).rangePeriodList

/-- The entry of a query that has come in by `incomingPort`. -/
def entry (c : RangeClp) (m : RangeQueryMessage) (port : Direction) : RangePeriodListEntry :=
  ⟨m.identifier, m.timestamp, m.range, !c.overlaps m port, m.originalAgent⟩

theorem TablesTo.mem_recordedAt {m : RangeQueryMessage} {incomingPort : Direction}
    {l : List Direction} (h : TablesTo c m incomingPort l c') (port : Direction)
    (e : RangePeriodListEntry) :
    e ∈ c'.recordedAt port ↔ e ∈ c.recordedAt port ∨
      port ∈ l ∧ c.records incomingPort m port = true ∧ e = c.entry m port := by
  rw [recordedAt, recordedAt, h.table]
  by_cases hport : port ∈ l ∧ c.records incomingPort m port = true
  · have hperiod : (c.rangeTable port).hasRangePeriod m.timestamp = true := by
      have hrecords := hport.2
      simp only [records, Bool.and_eq_true] at hrecords
      exact hrecords.2
    rw [if_pos hport, mem_recorded_addRangeQueryInfo _ hperiod]
    simp [hport, entry]
  · rw [if_neg hport]
    constructor
    · exact .inl
    · exact fun he => he.elim id fun hnew => absurd ⟨hnew.1, hnew.2.1⟩ hport

/-- What a query message does to the entries: a query that is new to the CLP is recorded. -/
theorem serve_recordedAt {m : RangeQueryMessage} {r : Served} (hr : c.serve m = some r) :
    (∀ port, r.clp.recordedAt port = c.recordedAt port) ∨
      c.rangeTracker[m.identifier]? = none ∧ ∃ incomingPort,
        c.routeTable.getDirectionFromRank m.originalAgent.rank = some incomingPort ∧
          TablesTo c m incomingPort (otherPorts incomingPort) r.clp := by
  cases hentry : c.rangeTracker[m.identifier]? with
  | none =>
      obtain ⟨incomingPort, hdirection, hfresh⟩ := serve_fresh hentry hr
      exact .inr ⟨rfl, incomingPort, hdirection, hfresh.tables⟩
  | some e =>
      left
      simp only [serve, RangeTracker.hasEntry_eq_true.mpr ⟨e, hentry⟩, if_true] at hr
      obtain ⟨c', hc', hr⟩ := Option.bind_eq_some_iff.mp hr
      obtain ⟨q, hq, hr⟩ := Option.bind_eq_some_iff.mp hr
      cases hr
      obtain ⟨t, rfl, _⟩ := noteReply_frame hc'
      obtain ⟨⟨t', ht', _⟩, _⟩ := sendResponse_frame hq
      intro port
      rw [ht']
      rfl

theorem AntiTo.mem_recordedAt {m : RangeQueryAntiMessage} {towards : Direction}
    {l : List Direction} {r : RangeClp × List RangeQueryAntiMessage}
    (h : AntiTo c m towards l r) {port : Direction} {e : RangePeriodListEntry}
    (he : e ∈ r.1.recordedAt port) : e ∈ c.recordedAt port := by
  rw [recordedAt, h.table, undone] at he
  split at he
  · split at he
    · exact mem_recorded_deleteRangeQueryInfo _ _ e he
    · exact he
  · exact he

/-- An anti-message takes no entry of another query. -/
theorem AntiTo.others {m : RangeQueryAntiMessage} {towards : Direction}
    {l : List Direction} {r : RangeClp × List RangeQueryAntiMessage}
    (h : AntiTo c m towards l r) (port : Direction) :
    (r.1.recordedAt port).filter (fun e => e.identifier != m.identifier) =
      (c.recordedAt port).filter fun e => e.identifier != m.identifier := by
  rw [recordedAt, recordedAt, h.table, undone]
  split
  · split
    · exact recorded_deleteRangeQueryInfo _ _
    · rfl
  · rfl

/-- The entries of the query at every port lie in the period that covers its time. -/
def Held (c : RangeClp) (time identifier : Nat) : Prop :=
  ∀ port ∈ Direction.ports, (c.rangeTable port).HeldAt time identifier

instance (c : RangeClp) (time identifier : Nat) : Decidable (c.Held time identifier) :=
  inferInstanceAs (Decidable (∀ port ∈ Direction.ports, _))

/-- An anti-message finds the entries of the query where it looks for them, and where the
query went on the status it reads is not blocked. -/
def Traces (c : RangeClp) (time identifier : Nat) : Prop :=
  c.Held time identifier ∧ ∀ port ∈ Direction.ports, port ≠ .HERE →
    (∃ e ∈ c.recordedAt port, e.identifier = identifier ∧ e.blockStatus = false) →
      (c.rangeTable port).getBlockStatus time identifier = false

instance (c : RangeClp) (time identifier : Nat) : Decidable (c.Traces time identifier) :=
  inferInstanceAs (Decidable (_ ∧ ∀ port ∈ Direction.ports, _))

theorem mem_recordedAt_setGvt {time gvt : Nat} {port : Direction}
    (hperiod : (c.rangeTable port).hasRangePeriod time = true)
    (hentries : ∀ e ∈ c.recordedAt port, e.identifier = identifier →
      e.time = time ∧ (c.rangeTable port).HeldAt time identifier)
    (hle : gvt ≤ time) {e : RangePeriodListEntry} (hid : e.identifier = identifier) :
    e ∈ (c.setGvt gvt).recordedAt port ↔ e ∈ c.recordedAt port := by
  rw [recordedAt, recordedAt, rangeTable_setGvt]
  constructor
  · exact fun he => mem_recorded_of_clearRangePeriods he
  · intro he
    obtain ⟨htime, hheld⟩ := hentries e he hid
    subst htime
    exact (hheld.recordedAt hperiod he hid).clearRangePeriods hle

end RangeClp

/-- The query that a message is about. -/
def RangeMessage.identifier? : RangeMessage → Option Nat
  | .query m => some m.identifier
  | .anti m => some m.identifier
  | .update _ => none

namespace RangeNetwork

open RangeClp

/-- The messages about one query on a link. -/
def traffic (identifier : Nat) (l : List RangeMessage) : List RangeMessage :=
  l.filter fun m => m.identifier? == some identifier

section Traffic

variable {identifier : Nat}

@[simp] theorem traffic_append (l l' : List RangeMessage) :
    traffic identifier (l ++ l') = traffic identifier l ++ traffic identifier l' :=
  List.filter_append ..

theorem mem_traffic {l : List RangeMessage} {m : RangeMessage} :
    m ∈ traffic identifier l ↔ m ∈ l ∧ m.identifier? = some identifier := by
  simp [traffic]

theorem traffic_cons_of_eq {m : RangeMessage} (l : List RangeMessage)
    (hm : m.identifier? = some identifier) :
    traffic identifier (m :: l) = m :: traffic identifier l := by
  simp [traffic, hm]

theorem traffic_cons_of_ne {m : RangeMessage} (l : List RangeMessage)
    (hm : m.identifier? ≠ some identifier) :
    traffic identifier (m :: l) = traffic identifier l := by
  simp [traffic, hm]

theorem traffic_eq_nil {l : List RangeMessage}
    (h : ∀ m ∈ l, m.identifier? ≠ some identifier) : traffic identifier l = [] := by
  rw [List.eq_nil_iff_forall_not_mem]
  intro m hm
  obtain ⟨hm, hid⟩ := mem_traffic.mp hm
  exact h m hm hid

theorem mem_queriesOf {l : List RangeMessage} {q : RangeQueryMessage} :
    q ∈ queriesOf identifier l ↔ .query q ∈ traffic identifier l := by
  rw [mem_traffic]
  induction l with
  | nil => simp
  | cons m l ih =>
      cases m with
      | query m =>
          by_cases hm : m.identifier = identifier
          · simp only [queriesOf_cons_query, hm, if_true, List.mem_cons, RangeMessage.query.injEq,
              ih]
            constructor
            · intro h
              cases h with
              | inl h => exact ⟨.inl h, by rw [h]; exact congrArg some hm⟩
              | inr h => exact ⟨.inr h.1, h.2⟩
            · exact fun h => h.1.imp_right fun hin => ⟨hin, h.2⟩
          · simp only [queriesOf_cons_query, hm, if_false, List.mem_cons,
              RangeMessage.query.injEq, ih]
            constructor
            · exact fun h => ⟨.inr h.1, h.2⟩
            · intro h
              refine ⟨h.1.resolve_left fun heq => hm ?_, h.2⟩
              rw [← heq]
              exact Option.some.inj h.2
      | anti m => simp [ih]
      | update m => simp [ih]

variable {net : RangeNetwork}

theorem traffic_send_of_ne (net : RangeNetwork) (rank : Nat) {l : List RangeMessage}
    (h : ∀ m ∈ l, m.identifier? ≠ some identifier) (a b : Nat) :
    traffic identifier ((net.send rank l).pipe a b) = traffic identifier (net.pipe a b) := by
  rw [pipe_send]
  split
  · have hnil : traffic identifier (l.filter fun m => m.destination = b) = [] :=
      traffic_eq_nil fun m hm => h m (List.mem_filter.mp hm).1
    rw [traffic_append, hnil, List.append_nil]
  · rfl

theorem traffic_put {source target : Nat} {front back : List RangeMessage} {m : RangeMessage}
    (hpipe : net.pipe source target = front ++ m :: back)
    (hm : m.identifier? ≠ some identifier) (a b : Nat) :
    traffic identifier (net.pipe.put source target (front ++ back) a b) =
      traffic identifier (net.pipe a b) := by
  apply Pipes.apply_put (traffic identifier)
  rw [hpipe, traffic_append, traffic_append, traffic_cons_of_ne _ hm]

end Traffic

variable {numberOfClps : Nat} {alpToClpMap : Std.TreeMap Nat Nat} {net net' : RangeNetwork}
  {e : Event} {o : Output}

/-- What is recorded of the query and is on its way stays as it is. -/
structure Alike (numberOfClps identifier : Nat) (net net' : RangeNetwork) : Prop where
  entries : ∀ c port entry, c < numberOfClps → entry.identifier = identifier →
    (entry ∈ (net'.clp c).recordedAt port ↔ entry ∈ (net.clp c).recordedAt port)
  traffic : ∀ a b, traffic identifier (net'.pipe a b) = traffic identifier (net.pipe a b)

/-- An event that is about the query. -/
def IsAbout (identifier : Nat) (net : RangeNetwork) : Event → Prop
  | .query i _ _ _ | .anti i _ _ _ _ => i = identifier
  | .deliver source target k =>
      ∃ m, (net.pipe source target)[k]? = some m ∧ m.identifier? = some identifier
  | .write .. | .writeAnti .. | .setGvt .. => False

/-- A new GVT drops no entry of the query. -/
def DropsNone (time identifier : Nat) (net : RangeNetwork) : Event → Prop
  | .setGvt clp gvt => gvt ≤ time ∧
      ∀ port, ((net.clp clp).rangeTable port).hasRangePeriod time = true ∧
        ∀ entry ∈ (net.clp clp).recordedAt port, entry.identifier = identifier →
          entry.time = time ∧ ((net.clp clp).rangeTable port).HeldAt time identifier
  | _ => True

theorem alike_of_clp {identifier source target : Nat} {front back : List RangeMessage}
    {m : RangeMessage} {c' : RangeClp} {l : List RangeMessage}
    (hpipe : net.pipe source target = front ++ m :: back)
    (hm : m.identifier? ≠ some identifier)
    (hentries : ∀ port entry, entry.identifier = identifier →
      (entry ∈ c'.recordedAt port ↔ entry ∈ (net.clp target).recordedAt port))
    (hl : ∀ m ∈ l, m.identifier? ≠ some identifier) :
    Alike numberOfClps identifier net
      ((({ net with pipe := net.pipe.put source target (front ++ back) } : RangeNetwork).setClp
        target c').send target l) := by
  refine ⟨fun c port entry _ hid => ?_, fun a b => ?_⟩
  · rw [clp_send, clp_setClp]
    split
    · rename_i heq
      rw [heq]
      exact hentries port entry hid
    · exact Iff.rfl
  · rw [traffic_send_of_ne _ _ hl]
    exact traffic_put hpipe hm a b

theorem not_about {identifier source target : Nat} {front back : List RangeMessage}
    {m : RangeMessage} {k : Nat}
    (hnot : ¬ IsAbout identifier net (.deliver source target k))
    (hpipe : net.pipe source target = front ++ m :: back) (hk : front.length = k) :
    m.identifier? ≠ some identifier := by
  intro hm
  refine hnot ⟨m, ?_, hm⟩
  rw [hpipe, ← hk]
  simp

theorem alike_of_effect {time identifier : Nat}
    (h : Effect numberOfClps alpToClpMap net e net' o) (hnot : ¬ IsAbout identifier net e)
    (hdrops : DropsNone time identifier net e) : Alike numberOfClps identifier net net' := by
  cases h with
  | query hclp | anti hclp =>
      refine ⟨fun _ _ _ _ _ => Iff.rfl, fun a b => traffic_send_of_ne _ _ (fun m hm => ?_) a b⟩
      rw [List.mem_singleton.mp hm]
      exact fun heq => hnot (Option.some.inj heq)
  | @serve source target k front back m r htarget hpipe hk hr =>
      have hm := not_about hnot hpipe hk
      have hframe : Steady (fun _ => False) (net.clp target) r.clp ∧ _ := serve_frame hr
      refine alike_of_clp hpipe hm (fun port entry hid => ?_) fun q hq => ?_
      · cases serve_recordedAt hr with
        | inl hsame => rw [hsame]
        | inr hfresh =>
            obtain ⟨_, incomingPort, _, htables⟩ := hfresh
            rw [htables.mem_recordedAt]
            constructor
            · refine fun he => he.resolve_right fun hnew => hm ?_
              rw [hnew.2.2] at hid
              exact congrArg some hid
            · exact .inl
      · obtain ⟨q', hq', rfl⟩ := List.mem_map.mp hq
        intro heq
        exact hm ((congrArg some (hframe.2.2 q' hq').symm).trans heq)
  | @undo source target k front back m r htarget hpipe hk hr =>
      have hm := not_about hnot hpipe hk
      cases processRangeQueryAnti_spec hr with
      | inl hearly =>
          rw [hearly.2]
          exact alike_of_clp hpipe hm (fun _ _ _ => Iff.rfl) fun q hq => by cases hq
      | inr hundone =>
          obtain ⟨_, towards, _, hanti⟩ := hundone
          refine alike_of_clp hpipe hm (fun port entry hid => ?_) fun q hq => ?_
          · have hothers := hanti.others port
            have hne : (entry.identifier != m.identifier) = true := by
              simp only [bne_iff_ne, ne_eq, hid]
              exact fun heq => hm (congrArg some heq.symm)
            constructor
            · exact hanti.mem_recordedAt
            · intro he
              have hin : entry ∈ ((net.clp target).recordedAt port).filter
                  fun e => e.identifier != m.identifier := List.mem_filter.mpr ⟨he, hne⟩
              rw [← hothers] at hin
              exact (List.mem_filter.mp hin).1
          · obtain ⟨q', hq', rfl⟩ := List.mem_map.mp hq
            obtain ⟨_, _, rank, _, rfl⟩ := exists_left_of_mem hanti.sent hq'
            exact hm
  | @update source target k front back m r htarget hpipe hk hr =>
      obtain ⟨port, _, hranged⟩ := processRangeUpdate_ranged hr
      refine alike_of_clp hpipe (not_about hnot hpipe hk)
        (fun port entry _ => (hranged.recorded port).mem_iff) fun q hq => ?_
      obtain ⟨q', _, rfl⟩ := List.mem_map.mp hq
      exact nofun
  | respond htarget hpipe hk | ignore htarget hpipe hk =>
      exact ⟨fun _ _ _ _ _ => Iff.rfl, traffic_put hpipe (not_about hnot hpipe hk)⟩
  | @write _ clp r hclp hranged =>
      refine ⟨fun c port entry _ _ => ?_, fun a b => ?_⟩
      · rw [clp_send, clp_setClp]
        split
        · rename_i heq
          rw [heq]
          exact (hranged.recorded port).mem_iff
        · exact Iff.rfl
      · refine traffic_send_of_ne _ _ (fun q hq => ?_) a b
        obtain ⟨q', _, rfl⟩ := List.mem_map.mp hq
        exact nofun
  | @setGvt clp gvt hclp =>
      refine ⟨fun c port entry _ hid => ?_, fun _ _ => rfl⟩
      obtain ⟨hle, hports⟩ := hdrops
      rw [clp_setGvt]
      split
      · rename_i heq
        rw [heq]
        exact mem_recordedAt_setGvt (hports port).1 (hports port).2 hle hid
      · exact Iff.rfl

end RangeNetwork
end PdesMas
