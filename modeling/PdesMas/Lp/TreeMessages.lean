import PdesMas.Lp.EndFlood
import PdesMas.Lp.RangeGathered

/-!
The messages between CLPs only, end messages and range updates. Whether a port
leads to a CLP is judged by comparing the rank with half the number of CLPs, which
is right for an odd number. With an even number the last CLP that has a child has
no second one, and what it sends there goes to an ALP or stops it.
-/

namespace PdesMas

namespace RouteTable

/-- Every ALP is known, and a CLP that has no port left has none of its own. -/
theorem addAlp_loop {lpRank : Nat} {alpToClpMap : Std.TreeMap Nat Nat} {l : List Nat}
    {p p' : Ports} (h : l.foldlM (Ports.addAlp lpRank alpToClpMap) p = some p') {a : Nat}
    (ha : a ∈ l) :
    ∃ c, alpToClpMap[a]? = some c ∧ (p.direction = .DIRECTION_SIZE → c ≠ lpRank) := by
  induction l generalizing p with
  | nil => cases ha
  | cons b l ih =>
      obtain ⟨p₁, hstep, hrest⟩ := Option.bind_eq_some_iff.mp h
      obtain ⟨c, hc, hadd⟩ := Option.bind_eq_some_iff.mp hstep
      have hfull : p.direction = .DIRECTION_SIZE → c ≠ lpRank ∧ p₁.direction = .DIRECTION_SIZE := by
        intro hdirection
        split at hadd
        · rw [Ports.addNeighbour, hdirection] at hadd
          cases hadd
        · rename_i hown
          cases hadd
          exact ⟨hown, hdirection⟩
      cases List.mem_cons.mp ha with
      | inl heq => exact ⟨c, heq ▸ hc, fun hdirection => (hfull hdirection).1⟩
      | inr hmem =>
          obtain ⟨d, hd, hother⟩ := ih hrest hmem
          exact ⟨d, hd, fun hdirection => hother (hfull hdirection).2⟩

/-- A CLP with two children has no port for an ALP. -/
theorem alps_of_create {lpRank numberOfClps : Nat} {initialisor : Initialisor} {t : RouteTable}
    (hrank : lpRank < numberOfClps) (h : create lpRank numberOfClps initialisor = some t) {a : Nat}
    (hge : numberOfClps ≤ a) (hlt : a < numberOfClps + initialisor.alpToClpMap.size) :
    ∃ c, initialisor.alpToClpMap[a]? = some c ∧
      (2 * lpRank + 2 < numberOfClps → c ≠ lpRank) := by
  obtain ⟨table, p₁, p₂, p₃, hdescribes, _, h₁, h₂, h₃, _⟩ := create_phases hrank h
  have hdirection : p₂.direction = portFrom lpRank numberOfClps := by
    refine Eq.trans ?_ (addClp_loop hdescribes (Nat.le_refl _) h₁).1
    exact foldlM_invariant (fun q => q.direction = p₁.direction)
      (fun _ _ _ _ hq hstep => (addRemoteClp_direction hstep).trans hq) rfl h₂
  obtain ⟨c, hc, hother⟩ := addAlp_loop h₃ (List.mem_range'_1.mpr ⟨hge, hlt⟩)
  refine ⟨c, hc, fun hfull => hother ?_⟩
  rw [hdirection, portFrom, if_neg (by omega), if_neg (by omega), if_neg (by omega)]

end RouteTable

namespace RangeClp

variable {numberOfClps : Nat} {c c' : RangeClp}

/-- Whatever there is to tell, range updates go to CLPs next to this one, and no port without a
neighbour is asked for. -/
def UpdatesNeighbours (numberOfClps : Nat) (c : RangeClp) : Prop :=
  ∀ rangeUpdateList sourcePort, ∃ sent,
    c.sendRangeUpdates rangeUpdateList sourcePort = some sent ∧
      ∀ q ∈ sent, q.destination < numberOfClps ∧ HeapTree.Adj c.rank q.destination

theorem exists_mapM {α β : Type} {f : α → Option β} {P : β → Prop} {l : List α}
    (h : ∀ a ∈ l, ∃ b, f a = some b ∧ P b) : ∃ bs, l.mapM f = some bs ∧ ∀ b ∈ bs, P b := by
  induction l with
  | nil => exact ⟨[], rfl, nofun⟩
  | cons a l ih =>
      obtain ⟨b, hb, hPb⟩ := h a List.mem_cons_self
      obtain ⟨bs, hbs, hP⟩ := ih fun a' ha' => h a' (List.mem_cons_of_mem _ ha')
      refine ⟨b :: bs, by simp [hb, hbs], fun b' hb' => ?_⟩
      cases List.mem_cons.mp hb' with
      | inl heq => exact heq ▸ hPb
      | inr hmem => exact hP b' hmem

theorem mem_of_mapM {α β : Type} {f : α → Option β} {l : List α} {bs : List β}
    (h : l.mapM f = some bs) {a : α} (ha : a ∈ l) : ∃ b ∈ bs, f a = some b := by
  induction l generalizing bs with
  | nil => cases ha
  | cons x l ih =>
      rw [List.mapM_cons] at h
      obtain ⟨y, hy, h⟩ := Option.bind_eq_some_iff.mp h
      obtain ⟨ys, hys, h⟩ := Option.bind_eq_some_iff.mp h
      cases h
      cases List.mem_cons.mp ha with
      | inl heq => exact ⟨y, List.mem_cons_self, heq ▸ hy⟩
      | inr hmem =>
          obtain ⟨b, hb, hab⟩ := ih hys hmem
          exact ⟨b, List.mem_cons_of_mem _ hb, hab⟩

/-- With an odd number of CLPs the ports that are updated are those to CLPs. -/
theorem updatesNeighbours_of_odd (hodd : numberOfClps % 2 = 1) (hrank : c.rank < numberOfClps)
    (hclps : c.numberOfClps = numberOfClps)
    (hports : RouteTable.PortsLead c.rank numberOfClps c.routeTable.directionToRankMap) :
    c.UpdatesNeighbours numberOfClps := by
  intro rangeUpdateList sourcePort
  apply exists_mapM
  intro r hr
  obtain ⟨u, _, hr⟩ := List.mem_flatMap.mp hr
  obtain ⟨port, hport, rfl⟩ := List.mem_map.mp hr
  obtain ⟨hmem, hupdated⟩ := List.mem_filter.mp hport
  have hneighbour : ∃ x, x < numberOfClps ∧ HeapTree.Adj c.rank x ∧
      port = RouteTable.portOf c.rank x := by
    simp only [isUpdated, hclps, Bool.not_eq_true', Bool.or_eq_false_iff, Bool.and_eq_false_iff,
      decide_eq_false_iff_not, beq_eq_false_iff_ne, ne_eq] at hupdated
    simp only [List.mem_cons, List.not_mem_nil, or_false] at hmem
    rcases hmem with rfl | rfl | rfl
    · have hpos : c.rank ≠ 0 := by
        intro hzero
        simp [hzero] at hupdated
      refine ⟨(c.rank - 1) / 2, by omega, ?_, ?_⟩
      · simp only [HeapTree.Adj]
        omega
      · rw [RouteTable.portOf, if_neg (by omega), if_neg (by omega)]
    · have hinner : c.rank < numberOfClps / 2 := by
        by_contra hge
        simp [Nat.le_of_not_lt hge] at hupdated
      exact ⟨2 * c.rank + 1, by omega, .inl rfl, by rw [RouteTable.portOf, if_pos rfl]⟩
    · have hinner : c.rank < numberOfClps / 2 := by
        by_contra hge
        simp [Nat.le_of_not_lt hge] at hupdated
      refine ⟨2 * c.rank + 2, by omega, .inr (.inl rfl), ?_⟩
      rw [RouteTable.portOf, if_neg (by omega), if_pos rfl]
  obtain ⟨x, hx, hadj, hlead⟩ := hneighbour
  have hto : c.routeTable.getRankFromDirection port = some x := (hports port x hx).mpr ⟨hadj, hlead⟩
  exact ⟨_, by rw [sendRangeUpdate, hto]; rfl, hx, hadj⟩

/-- With an even number the last CLP with a child has no CLP at its right port. -/
theorem not_updatesNeighbours_of_even (heven : numberOfClps % 2 = 0) (hpos : 0 < numberOfClps)
    (hrank : c.rank = numberOfClps / 2 - 1) (hclps : c.numberOfClps = numberOfClps)
    (hports : RouteTable.PortsLead c.rank numberOfClps c.routeTable.directionToRankMap) :
    ¬ c.UpdatesNeighbours numberOfClps := by
  intro h
  let u : RangeUpdates := ⟨0, none, none⟩
  obtain ⟨sent, hsent, hneighbours⟩ := h [u] .HERE
  have hinner : c.rank < numberOfClps / 2 := by omega
  have hupdated : c.isUpdated .HERE .RIGHT = true := by
    simp [isUpdated, hclps, hinner]
  have hmem : (u, Direction.RIGHT) ∈ [u].flatMap fun u =>
      ([.UP, .LEFT, .RIGHT].filter (c.isUpdated .HERE)).map fun port => (u, port) := by
    simp [hupdated]
  obtain ⟨q, hq, hsend⟩ := mem_of_mapM hsent hmem
  obtain ⟨rank, hto, rfl⟩ := Option.map_eq_some_iff.mp hsend
  obtain ⟨hlt, _⟩ : rank < numberOfClps ∧ HeapTree.Adj c.rank rank := hneighbours _ hq
  have hlead := ((hports .RIGHT rank hlt).mp hto).2
  simp only [RouteTable.portOf] at hlead
  split at hlead
  · cases hlead
  · split at hlead
    · omega
    · cases hlead

/-- The CLPs that have the rank, the number of CLPs and the routes of `c`. -/
structure SameRoutes (c c' : RangeClp) : Prop where
  rank : c'.rank = c.rank
  numberOfClps : c'.numberOfClps = c.numberOfClps
  routeTable : c'.routeTable = c.routeTable

theorem sameRoutes_clear (c : RangeClp) (port : Direction) :
    SameRoutes c (c.clearRangeUpdates port) :=
  ⟨setRangeTable_rank _ _ _, setRangeTable_numberOfClps _ _ _, setRangeTable_routeTable _ _ _⟩

/-- What a write, its rollback or an update tells goes where the CLP's updates go. -/
theorem announce_neighbours {port : Direction} {r : RangeClp × List RangeUpdateMessage}
    (h : c'.UpdatesNeighbours numberOfClps) (hr : c'.announce port = some r) :
    ∀ q ∈ r.2, q.destination < numberOfClps := by
  obtain ⟨sent, hsent, rfl⟩ := Option.map_eq_some_iff.mp hr
  obtain ⟨sent', hsent', hneighbours⟩ := h (c'.rangeTable port).rangeUpdateList port
  obtain rfl := Option.some.inj (hsent.symm.trans hsent')
  exact fun q hq => (hneighbours q hq).1

theorem processRangeUpdate_neighbours {m : RangeUpdateMessage}
    {r : RangeClp × List RangeUpdateMessage}
    (h : ∀ c', SameRoutes c c' → c'.UpdatesNeighbours numberOfClps)
    (hr : c.processRangeUpdate m = some r) : ∀ q ∈ r.2, q.destination < numberOfClps := by
  obtain ⟨port, _, hr⟩ := Option.bind_eq_some_iff.mp hr
  refine announce_neighbours (h _ ?_) hr
  obtain ⟨hrank, hclps, hroutes⟩ := sameRoutes_clear c port
  exact ⟨(setRangeTable_rank _ _ _).trans hrank, (setRangeTable_numberOfClps _ _ _).trans hclps,
    (setRangeTable_routeTable _ _ _).trans hroutes⟩

theorem processWrite_neighbours {ssvId : SsvId} {originalAgent : LpId} {value : AbstractValue}
    {timestamp : Nat} {r : RangeClp × List RangeUpdateMessage}
    (h : ∀ c', SameRoutes c c' → c'.UpdatesNeighbours numberOfClps)
    (hr : c.processWrite ssvId originalAgent value timestamp = some r) :
    ∀ q ∈ r.2, q.destination < numberOfClps := by
  obtain ⟨w, _, hr⟩ := Option.bind_eq_some_iff.mp hr
  obtain ⟨hrank, hclps, hroutes⟩ := sameRoutes_clear c .HERE
  refine announce_neighbours (h _ ?_) hr
  exact ⟨hrank, hclps, hroutes⟩

theorem processWriteAnti_neighbours {ssvId : SsvId} {originalAgent : LpId} {timestamp : Nat}
    {r : RangeClp × List RangeUpdateMessage}
    (h : ∀ c', SameRoutes c c' → c'.UpdatesNeighbours numberOfClps)
    (hr : c.processWriteAnti ssvId originalAgent timestamp = some r) :
    ∀ q ∈ r.2, q.destination < numberOfClps := by
  simp only [processWriteAnti] at hr
  split at hr
  · cases hr
    simp
  · obtain ⟨w, _, hr⟩ := Option.bind_eq_some_iff.mp hr
    obtain ⟨hrank, hclps, hroutes⟩ := sameRoutes_clear c .HERE
    refine announce_neighbours (h _ ?_) hr
    exact ⟨hrank, hclps, hroutes⟩

end RangeClp

namespace RangeNetwork

variable {numberOfClps : Nat} {initialisor : Initialisor} {net net' : RangeNetwork}

/-- With an odd number of CLPs, what holds of the CLPs and of the updates on the links. -/
structure UpdatesInTree (numberOfClps : Nat) (alpToClpMap : Std.TreeMap Nat Nat)
    (net : RangeNetwork) : Prop where
  wired : Wired numberOfClps alpToClpMap net
  clps : ∀ a b m, .update m ∈ net.pipe a b → b < numberOfClps

variable {alpToClpMap : Std.TreeMap Nat Nat}

theorem Wired.updatesNeighbours (hw : Wired numberOfClps alpToClpMap net)
    (hodd : numberOfClps % 2 = 1) {c : Nat} (hc : c < numberOfClps) {c' : RangeClp}
    (hsame : RangeClp.SameRoutes (net.clp c) c') : c'.UpdatesNeighbours numberOfClps := by
  have hrank : c'.rank = c := hsame.rank.trans (hw.rank c hc)
  refine RangeClp.updatesNeighbours_of_odd hodd (hrank ▸ hc)
    (hsame.numberOfClps.trans (hw.clps c hc)) ?_
  rw [hrank, hsame.routeTable]
  exact (hw.directs c hc).port

theorem UpdatesInTree.step (h : UpdatesInTree numberOfClps alpToClpMap net)
    (hodd : numberOfClps % 2 = 1) {e : Event} {o : Output}
    (hstep : (machine numberOfClps alpToClpMap).step net e = some (net', o)) :
    UpdatesInTree numberOfClps alpToClpMap net' := by
  have heffect := effect_of_step _ _ hstep
  refine ⟨wired_step h.wired heffect, fun a b m hm => ?_⟩
  have hkept : ∀ {rank : Nat} {net₁ : RangeNetwork} {l : List RangeMessage},
      (∀ x y, .update m ∈ net₁.pipe x y → .update m ∈ net.pipe x y) →
      (.update m ∈ l → m.destination < numberOfClps) →
      .update m ∈ (net₁.send rank l).pipe a b → b < numberOfClps := by
    intro rank net₁ l hold hnew hm
    cases mem_pipe_send hm with
    | inl hm => exact h.clps a b m (hold a b hm)
    | inr hm =>
        have hb : m.destination = b := hm.2.2
        exact hb ▸ hnew hm.2.1
  have hupdates : ∀ {rank : Nat} {net₁ : RangeNetwork} {l : List RangeUpdateMessage},
      (∀ x y, .update m ∈ net₁.pipe x y → .update m ∈ net.pipe x y) →
      (∀ q ∈ l, q.destination < numberOfClps) →
      .update m ∈ (net₁.send rank (l.map .update)).pipe a b → b < numberOfClps := by
    intro rank net₁ l hold hnew
    refine hkept hold fun hl => ?_
    obtain ⟨q, hq, heq⟩ := List.mem_map.mp hl
    cases heq
    exact hnew m hq
  cases e with
  | query identifier timestamp originalAgent range =>
      obtain ⟨clp, _, hstep⟩ := Option.bind_eq_some_iff.mp hstep
      cases hstep
      exact hkept (fun _ _ h => h) (fun hl => by simp at hl) hm
  | anti identifier timestamp originalAgent range rollbackTag =>
      obtain ⟨clp, _, hstep⟩ := Option.bind_eq_some_iff.mp hstep
      cases hstep
      exact hkept (fun _ _ h => h) (fun hl => by simp at hl) hm
  | deliver source target k =>
      cases heffect with
      | serve _ hpipe _ _ | undo _ hpipe _ _ =>
          exact hkept (fun _ _ h => mem_pipe_taken hpipe h) (fun hl => by simp at hl) hm
      | update htarget hpipe _ hr =>
          have hneighbours := RangeClp.processRangeUpdate_neighbours
            (fun c' hsame => h.wired.updatesNeighbours hodd htarget hsame) hr
          exact hupdates (fun _ _ h => mem_pipe_taken hpipe h) hneighbours hm
      | respond _ hpipe _ | ignore _ hpipe _ _ =>
          exact h.clps a b m (mem_pipe_taken hpipe hm)
      | write _ _ hlocal => exact absurd rfl (hlocal source target k)
  | write clp ssvId originalAgent value timestamp =>
      simp only [machine, RangeNetwork.step] at hstep
      split at hstep
      · rename_i hclp
        obtain ⟨r, hr, hstep⟩ := Option.bind_eq_some_iff.mp hstep
        cases hstep
        have hneighbours := RangeClp.processWrite_neighbours
          (fun c' hsame => h.wired.updatesNeighbours hodd hclp hsame) hr
        exact hupdates (fun _ _ h => h) hneighbours hm
      · cases hstep
  | writeAnti clp ssvId originalAgent timestamp =>
      simp only [machine, RangeNetwork.step] at hstep
      split at hstep
      · rename_i hclp
        obtain ⟨r, hr, hstep⟩ := Option.bind_eq_some_iff.mp hstep
        cases hstep
        have hneighbours := RangeClp.processWriteAnti_neighbours
          (fun c' hsame => h.wired.updatesNeighbours hodd hclp hsame) hr
        exact hupdates (fun _ _ h => h) hneighbours hm
      · cases hstep
  | setGvt clp gvt =>
      simp only [machine, RangeNetwork.step] at hstep
      split at hstep
      · cases hstep
        exact h.clps a b m hm
      · cases hstep

end RangeNetwork

namespace EndNetwork

variable {numberOfClps : Nat} {initialisor : Initialisor}

/-- With an odd number of CLPs the route tables allow ALPs at the leaves only. -/
theorem leafAlps_of_create (hodd : numberOfClps % 2 = 1)
    (halps : ∀ a c, initialisor.alpToClpMap[a]? = some c →
      numberOfClps ≤ a ∧ a < numberOfClps + initialisor.alpToClpMap.size ∧ c < numberOfClps)
    (hroutes : ∀ c, c < numberOfClps → ∃ t, RouteTable.create c numberOfClps initialisor = some t) :
    LeafAlps numberOfClps initialisor.alpToClpMap := by
  refine ⟨by omega, fun a => ⟨fun ha => ?_, fun ⟨hge, hlt⟩ => ?_⟩, fun a c hac => ?_⟩
  · obtain ⟨c, hc⟩ := Option.isSome_iff_exists.mp (Std.TreeMap.mem_iff_isSome_getElem?.mp ha)
    obtain ⟨hge, hlt, _⟩ := halps a c hc
    exact ⟨hge, hlt⟩
  · obtain ⟨t, ht⟩ := hroutes 0 (by omega)
    obtain ⟨c, hc, _⟩ := RouteTable.alps_of_create (by omega) ht hge hlt
    rw [Std.TreeMap.mem_iff_isSome_getElem?, hc]
    rfl
  · obtain ⟨hge, hlt, hclp⟩ := halps a c hac
    refine ⟨hclp, ?_⟩
    by_contra hchild
    obtain ⟨t, ht⟩ := hroutes c hclp
    obtain ⟨d, hd, hother⟩ := RouteTable.alps_of_create hclp ht hge hlt
    exact hother (by omega) (Option.some.inj (hd.symm.trans hac))

/-- End messages go to CLPs, from one to the next. -/
theorem Floods.inTree {alpToClpMap : Std.TreeMap Nat Nat} {net : EndNetwork} {os : List Output}
    {hleaf : LeafAlps numberOfClps alpToClpMap} (h : Floods hleaf net os) {m : EndMessage}
    (hm : m ∈ net.inFlight) :
    m.destination < numberOfClps ∧
      (m.origin < numberOfClps → HeapTree.Adj m.origin m.destination) := by
  obtain ⟨home, hhome⟩ : ∃ home, alpToClpMap[m.senderAlp]? = some home :=
    Option.isSome_iff_exists.mp (Std.TreeMap.mem_iff_isSome_getElem?.mp (h.senders m hm))
  have hge := hleaf.alp_le hhome
  have hflies : flying net m.senderAlp m.origin m.destination ≠ 0 :=
    Nat.pos_iff_ne_zero.mp (List.count_pos_iff.mpr hm)
  obtain ⟨hdest, horigin⟩ := (h.flooded _ _ hhome).away _ _ hflies
  have horigin : m.origin = above home m.senderAlp m.destination := horigin
  refine ⟨hdest, fun hlt => ?_⟩
  by_cases heq : m.destination = home
  · have hself : m.origin = m.senderAlp := horigin.trans (if_pos heq)
    omega
  · have hnext : m.origin = HeapTree.nextHop m.destination home := horigin.trans (if_neg heq)
    rw [hnext]
    exact (HeapTree.adj_nextHop heq).symm

end EndNetwork

/-- In no run does a CLP send a range update or an end message that is not for a CLP next to it,
and at no moment could it be stopped by a port without a neighbour, whatever updates it has. -/
def StaysInTree (numberOfClps : Nat) (alpToClpMap : Std.TreeMap Nat Nat) (net : RangeNetwork) :
    Prop :=
  (∀ es net' os, (RangeNetwork.machine numberOfClps alpToClpMap).run net es = some (net', os) →
    (∀ c, c < numberOfClps → (net'.clp c).UpdatesNeighbours numberOfClps) ∧
    ∀ a b m, .update m ∈ net'.pipe a b → b < numberOfClps ∧ HeapTree.Adj a b) ∧
  ∀ es net' os, (EndNetwork.machine numberOfClps alpToClpMap).run
      (EndNetwork.initial numberOfClps alpToClpMap) es = some (net', os) →
    ∀ m ∈ net'.inFlight, m.destination < numberOfClps ∧
      (m.origin < numberOfClps → HeapTree.Adj m.origin m.destination)

theorem staysInTree_of_odd {numberOfClps : Nat} {initialisor : Initialisor} {net : RangeNetwork}
    (hinitial : RangeNetwork.Initial numberOfClps initialisor net)
    (hodd : numberOfClps % 2 = 1) : StaysInTree numberOfClps initialisor.alpToClpMap net := by
  constructor
  · intro es net' os hrun
    have hstart : RangeNetwork.UpdatesInTree numberOfClps initialisor.alpToClpMap net := by
      refine ⟨RangeNetwork.wired_of_initial hinitial, fun a b m hm => ?_⟩
      rw [hinitial.pipe] at hm
      cases hm
    have h := Machine.invariant _ (RangeNetwork.UpdatesInTree numberOfClps initialisor.alpToClpMap)
      (fun _ _ _ _ h hstep => h.step hodd hstep) es net net' os hstart hrun
    refine ⟨fun c hc => h.wired.updatesNeighbours hodd hc ⟨rfl, rfl, rfl⟩, fun a b m hm => ?_⟩
    have hb := h.clps a b m hm
    exact ⟨hb, (h.wired.updates a b m hm).2.2 hb⟩
  · intro es net' os hrun m hm
    have hleaf := EndNetwork.leafAlps_of_create hodd hinitial.alps
      fun c hc => ⟨_, hinitial.routes c hc⟩
    exact ((EndNetwork.floods_initial hleaf).run hrun).inTree hm

/-- The messages between CLPs stay in the tree exactly when the number of CLPs is odd. -/
theorem staysInTree_iff {numberOfClps : Nat} {initialisor : Initialisor} {net : RangeNetwork}
    (hpos : 0 < numberOfClps) (hinitial : RangeNetwork.Initial numberOfClps initialisor net) :
    StaysInTree numberOfClps initialisor.alpToClpMap net ↔ numberOfClps % 2 = 1 := by
  refine ⟨fun h => ?_, staysInTree_of_odd hinitial⟩
  by_contra hodd
  have hinner : numberOfClps / 2 - 1 < numberOfClps := by omega
  have hstart := (h.1 [] net [] rfl).1 (numberOfClps / 2 - 1) hinner
  have hrank := hinitial.rank _ hinner
  refine RangeClp.not_updatesNeighbours_of_even (by omega) hpos hrank (hinitial.clps _ hinner)
    ?_ hstart
  rw [hrank]
  exact RouteTable.portsLead_create hinner (hinitial.routes _ hinner)

theorem staysInTree_branch :
    StaysInTree 3 RangeNetwork.branchInitialisor.alpToClpMap RangeNetwork.branchNetwork :=
  (staysInTree_iff (by decide) RangeNetwork.initial_branch).mpr rfl

/-- Two CLPs and three ALPs, as for five processes. -/
def fiveProcesses : Initialisor := ⟨∅, .ofList [(2, 0), (3, 1), (4, 1)], ∅⟩

/-- The route tables are there. The root has an end message from its only child, and sends it on
to its ALP, which cannot take it. -/
theorem end_message_to_alp :
    (RouteTable.create 0 2 fiveProcesses).isSome ∧ (RouteTable.create 1 2 fiveProcesses).isSome ∧
    (∃ net os, (EndNetwork.machine 2 fiveProcesses.alpToClpMap).run
        (EndNetwork.initial 2 fiveProcesses.alpToClpMap)
        [.finalise 3, .deliver 0, .deliver 0] = some (net, os) ∧
      net.inFlight = [⟨0, 2, 3⟩] ∧
      (EndNetwork.machine 2 fiveProcesses.alpToClpMap).step net (.deliver 0) = none) ∧
    ∀ net, ¬ StaysInTree 2 fiveProcesses.alpToClpMap net := by
  have hseen : ((EndNetwork.machine 2 fiveProcesses.alpToClpMap).run
      (EndNetwork.initial 2 fiveProcesses.alpToClpMap) [.finalise 3, .deliver 0, .deliver 0]).map
        (fun r => (r.1.inFlight, ((EndNetwork.machine 2 fiveProcesses.alpToClpMap).step r.1
          (.deliver 0)).isNone)) = some ([⟨0, 2, 3⟩], true) := by decide
  obtain ⟨⟨net, os⟩, hrun, hend⟩ := Option.map_eq_some_iff.mp hseen
  obtain ⟨hflight, hexit⟩ := Prod.mk.inj hend
  refine ⟨by decide, by decide, ⟨net, os, hrun, hflight, Option.isNone_iff_eq_none.mp hexit⟩,
    fun range hstays => ?_⟩
  have hmem : (⟨0, 2, 3⟩ : EndMessage) ∈ net.inFlight := by
    have hlist : net.inFlight = [⟨0, 2, 3⟩] := hflight
    rw [hlist]
    exact List.mem_singleton_self _
  have hlt : 2 < 2 := (hstays.2 _ net os hrun _ hmem).1
  exact Nat.lt_irrefl 2 hlt

end PdesMas
