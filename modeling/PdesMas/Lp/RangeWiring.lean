import PdesMas.Lp.RangeNetwork

/-!
What holds of the CLPs and the links of a network in every run: the routes stay as
they were built, a range update comes from a neighbour, the ports behind which
there is no CLP have no range, and no table loses a period.
-/

namespace PdesMas

namespace RangeNetwork

open RangeClp

/-- The ports behind which ranges may change. -/
def Ranges (numberOfClps c : Nat) (port : Direction) : Prop :=
  port = .HERE ∨ ∃ d, d < numberOfClps ∧ HeapTree.Adj c d ∧ RouteTable.portOf c d = port

structure Wired (numberOfClps : Nat) (alpToClpMap : Std.TreeMap Nat Nat)
    (net : RangeNetwork) : Prop where
  rank : ∀ c, c < numberOfClps → (net.clp c).rank = c
  clps : ∀ c, c < numberOfClps → (net.clp c).numberOfClps = numberOfClps
  directs : ∀ c, c < numberOfClps →
    RouteTable.Directs c numberOfClps alpToClpMap (net.clp c).routeTable
  hosted : ∀ c d id, c < numberOfClps → d < numberOfClps →
    (net.clp c).sharedState.containsVariable id = true →
    (net.clp d).sharedState.containsVariable id = true → c = d
  noRange : ∀ c port, c < numberOfClps → ¬ Ranges numberOfClps c port →
    ((net.clp c).rangeTable port).NoRange
  updates : ∀ a b m, .update m ∈ net.pipe a b →
    m.origin = a ∧ a < numberOfClps ∧ (b < numberOfClps → HeapTree.Adj a b)

variable {numberOfClps : Nat} {alpToClpMap : Std.TreeMap Nat Nat} {net net' : RangeNetwork}
  {e : Event} {o : Output}

theorem wired_of_initial {initialisor : Initialisor}
    (h : Initial numberOfClps initialisor net) :
    Wired numberOfClps initialisor.alpToClpMap net := by
  refine ⟨h.rank, h.clps, fun c hc => RouteTable.directs_create hc (h.routes c hc), h.hosted,
    fun c port hc hport => ?_, fun a b m hm => ?_⟩
  · refine h.noRange c port hc (fun heq => hport (.inl heq)) fun d hd hadj heq => ?_
    exact hport (.inr ⟨d, hd, hadj, heq⟩)
  · rw [h.pipe] at hm
    cases hm

/-- The direction of a neighbour is the port to it. -/
theorem Wired.direction_of_adj (h : Wired numberOfClps alpToClpMap net) {c d : Nat}
    (hc : c < numberOfClps) (hd : d < numberOfClps) (hadj : HeapTree.Adj c d) :
    (net.clp c).routeTable.getDirectionFromRank d = some (RouteTable.portOf c d) := by
  rw [(h.directs c hc).clp d hd, RouteTable.directionTo_of_adj hadj]

theorem Wired.rankFromDirection (h : Wired numberOfClps alpToClpMap net) {c d : Nat}
    (hc : c < numberOfClps) (hd : d < numberOfClps) (port : Direction) :
    (net.clp c).routeTable.getRankFromDirection port = some d ↔
      HeapTree.Adj c d ∧ port = RouteTable.portOf c d := (h.directs c hc).port port d hd

@[simp] theorem clp_send (net : RangeNetwork) (rank : Nat) (l : List RangeMessage) :
    (net.send rank l).clp = net.clp := rfl

@[simp] theorem clp_setClp (net : RangeNetwork) (rank : Nat) (c : RangeClp) (x : Nat) :
    (net.setClp rank c).clp x = if x = rank then c else net.clp x := by
  simp [setClp, Function.update_apply]

@[simp] theorem pipe_setClp (net : RangeNetwork) (rank : Nat) (c : RangeClp) :
    (net.setClp rank c).pipe = net.pipe := rfl

/-- Of the CLPs, only the one at work changes, and but for a new GVT only as `Steady` says. -/
theorem steady_step (hw : Wired numberOfClps alpToClpMap net)
    (h : Effect numberOfClps alpToClpMap net e net' o) (hgvt : ∀ clp gvt, e ≠ .setGvt clp gvt)
    (c : Nat) :
    Steady (Ranges numberOfClps c) (net.clp c) (net'.clp c) := by
  have hone : ∀ target c', Steady (Ranges numberOfClps target) (net.clp target) c' →
      Steady (Ranges numberOfClps c) (net.clp c) (if c = target then c' else net.clp c) := by
    intro target c' hsteady
    split
    · rename_i heq
      rwa [heq]
    · exact .refl _ _
  cases h with
  | query | anti | respond | ignore => exact .refl _ _
  | serve _ _ _ hr =>
      rw [clp_send, clp_setClp]
      exact hone _ _ (serve_frame hr).1
  | undo _ _ _ hr =>
      rw [clp_send, clp_setClp]
      refine hone _ _ ?_
      cases processRangeQueryAnti_spec hr with
      | inl hearly =>
          rw [hearly.2]
          exact .refl _ _
      | inr hundone =>
          obtain ⟨_, _, _, hanti⟩ := hundone
          exact hanti.steady
  | @update source target _ front back m _ htarget hpipe _ hr =>
      rw [clp_send, clp_setClp]
      refine hone _ _ ?_
      obtain ⟨port, hport, hranged⟩ := processRangeUpdate_ranged hr
      have hmem : .update m ∈ net.pipe source target := by
        rw [hpipe]
        exact List.mem_append_right _ List.mem_cons_self
      obtain ⟨horigin, hsource, hadj⟩ := hw.updates source target m hmem
      rw [horigin, hw.direction_of_adj htarget hsource (hadj htarget).symm] at hport
      refine hranged.steady.mono fun p hp => .inr ⟨source, hsource, (hadj htarget).symm, ?_⟩
      rw [hp]
      exact Option.some.inj hport
  | write _ hranged =>
      rw [clp_send, clp_setClp]
      exact hone _ _ (hranged.steady.mono fun p hp => .inl hp)
  | setGvt => exact absurd rfl (hgvt _ _)

/-- A range update that a CLP sends goes to a neighbour. -/
theorem Wired.updates_send (hw : Wired numberOfClps alpToClpMap net) {rank : Nat}
    (hrank : rank < numberOfClps) {changed : Direction → Prop}
    {r : RangeClp × List RangeUpdateMessage} (hr : Ranged changed (net.clp rank) r)
    {m : RangeUpdateMessage} (hm : m ∈ r.2) :
    m.origin = rank ∧ (m.destination < numberOfClps → HeapTree.Adj rank m.destination) := by
  obtain ⟨horigin, port, _, hdestination⟩ := hr.sent m hm
  refine ⟨horigin.trans (hw.rank rank hrank), fun hlt => ?_⟩
  exact ((hw.rankFromDirection hrank hlt port).mp hdestination).1

theorem mem_pipe_send {rank a b : Nat} {l : List RangeMessage} {m : RangeMessage}
    (h : m ∈ (net.send rank l).pipe a b) :
    m ∈ net.pipe a b ∨ a = rank ∧ m ∈ l ∧ m.destination = b := by
  rw [pipe_send] at h
  split at h
  · rename_i heq
    refine (List.mem_append.mp h).imp_right fun hm => ?_
    exact ⟨heq, (List.mem_filter.mp hm).1, by simpa using (List.mem_filter.mp hm).2⟩
  · exact .inl h

/-- What stays on a link when one message is taken. -/
theorem mem_pipe_taken {source target a b : Nat} {front back : List RangeMessage}
    {m m' : RangeMessage} (hpipe : net.pipe source target = front ++ m :: back)
    (h : m' ∈ net.pipe.put source target (front ++ back) a b) : m' ∈ net.pipe a b := by
  simp only [Pipes.put] at h
  split at h
  · rename_i heq
    rw [heq.1, heq.2, hpipe]
    exact (List.mem_append.mp h).elim (List.mem_append_left _)
      fun hm => List.mem_append_right _ (List.mem_cons_of_mem _ hm)
  · exact h

/-- The updates on the links of the next network. -/
theorem updates_step (hw : Wired numberOfClps alpToClpMap net)
    (h : Effect numberOfClps alpToClpMap net e net' o) {a b : Nat} {m : RangeUpdateMessage}
    (hm : .update m ∈ net'.pipe a b) :
    m.origin = a ∧ a < numberOfClps ∧ (b < numberOfClps → HeapTree.Adj a b) := by
  have hsent : ∀ (rank : Nat) (r : RangeClp × List RangeUpdateMessage)
      (changed : Direction → Prop), rank < numberOfClps → Ranged changed (net.clp rank) r →
      a = rank ∧ RangeMessage.update m ∈ r.2.map RangeMessage.update ∧
        (RangeMessage.update m).destination = b →
      m.origin = a ∧ a < numberOfClps ∧ (b < numberOfClps → HeapTree.Adj a b) := by
    intro rank r changed hrank hranged hin
    obtain ⟨hrank', hmem, hdestination⟩ := hin
    obtain ⟨m', hm', heq⟩ := List.mem_map.mp hmem
    cases heq
    obtain ⟨horigin, hadj⟩ := hw.updates_send hrank hranged hm'
    have hb : m.destination = b := hdestination
    subst hrank' hb
    exact ⟨horigin, hrank, hadj⟩
  cases h with
  | query | anti =>
      cases mem_pipe_send hm with
      | inl hm => exact hw.updates a b m hm
      | inr hm => simp at hm
  | setGvt => exact hw.updates a b m hm
  | serve _ hpipe _ _ | undo _ hpipe _ _ =>
      cases mem_pipe_send hm with
      | inl hm => exact hw.updates a b m (mem_pipe_taken hpipe hm)
      | inr hm => simp at hm
  | respond _ hpipe _ | ignore _ hpipe _ _ => exact hw.updates a b m (mem_pipe_taken hpipe hm)
  | update htarget hpipe _ hr =>
      obtain ⟨port, _, hranged⟩ := processRangeUpdate_ranged hr
      cases mem_pipe_send hm with
      | inl hm => exact hw.updates a b m (mem_pipe_taken hpipe hm)
      | inr hm => exact hsent _ _ _ htarget hranged hm
  | write hclp hranged =>
      cases mem_pipe_send hm with
      | inl hm => exact hw.updates a b m hm
      | inr hm => exact hsent _ _ _ hclp hranged hm

/-- What no step changes in a CLP. -/
structure Fixed (c c' : RangeClp) : Prop where
  rank : c'.rank = c.rank
  numberOfClps : c'.numberOfClps = c.numberOfClps
  routeTable : c'.routeTable = c.routeTable
  contains : ∀ id, c'.sharedState.containsVariable id = c.sharedState.containsVariable id

theorem clp_setGvt (net : RangeNetwork) (clp gvt c : Nat) :
    (net.setClp clp ((net.clp clp).setGvt gvt)).clp c =
      if c = clp then (net.clp c).setGvt gvt else net.clp c := by
  rw [clp_setClp]
  split
  · rename_i heq
    rw [heq]
  · rfl

theorem fixed_step (hw : Wired numberOfClps alpToClpMap net)
    (h : Effect numberOfClps alpToClpMap net e net' o) (c : Nat) :
    Fixed (net.clp c) (net'.clp c) := by
  by_cases hgvt : ∀ clp gvt, e ≠ .setGvt clp gvt
  · have hkept := (steady_step hw h hgvt c).kept
    exact ⟨hkept.rank, hkept.numberOfClps, hkept.routeTable, hkept.contains⟩
  · cases h with
    | setGvt =>
        rw [clp_setGvt]
        split
        · exact ⟨rfl, rfl, rfl, fun id => containsVariable_setGvt _ _ id⟩
        · exact ⟨rfl, rfl, rfl, fun _ => rfl⟩
    | write _ _ _ _ _ hnot => exact absurd hnot hgvt
    | query | anti | serve | undo | update | respond | ignore => exact absurd nofun hgvt

theorem noRange_step (hw : Wired numberOfClps alpToClpMap net)
    (h : Effect numberOfClps alpToClpMap net e net' o) {c : Nat} {port : Direction}
    (hport : ¬ Ranges numberOfClps c port) (hnone : ((net.clp c).rangeTable port).NoRange) :
    ((net'.clp c).rangeTable port).NoRange := by
  by_cases hgvt : ∀ clp gvt, e ≠ .setGvt clp gvt
  · exact (steady_step hw h hgvt c).noRange port hport hnone
  · cases h with
    | setGvt =>
        rw [clp_setGvt]
        split
        · rw [rangeTable_setGvt]
          exact hnone.clearRangePeriods _
        · exact hnone
    | write _ _ _ _ _ hnot => exact absurd hnot hgvt
    | query | anti | serve | undo | update | respond | ignore => exact absurd nofun hgvt

theorem wired_step (hw : Wired numberOfClps alpToClpMap net)
    (h : Effect numberOfClps alpToClpMap net e net' o) :
    Wired numberOfClps alpToClpMap net' := by
  have hfixed := fixed_step hw h
  refine ⟨fun c hc => ?_, fun c hc => ?_, fun c hc => ?_, fun c d id hc hd hcid hdid => ?_,
    fun c port hc hport => ?_, fun a b m hm => updates_step hw h hm⟩
  · exact (hfixed c).rank.trans (hw.rank c hc)
  · exact (hfixed c).numberOfClps.trans (hw.clps c hc)
  · rw [(hfixed c).routeTable]
    exact hw.directs c hc
  · rw [(hfixed c).contains] at hcid
    rw [(hfixed d).contains] at hdid
    exact hw.hosted c d id hc hd hcid hdid
  · exact noRange_step hw h hport (hw.noRange c port hc hport)

/-- Every port table has a period for `time`. -/
def Covers (numberOfClps : Nat) (net : RangeNetwork) (time : Nat) : Prop :=
  ∀ c port, c < numberOfClps → ((net.clp c).rangeTable port).hasRangePeriod time = true

/-- Unless the GVT passes the time. -/
theorem covers_step (hw : Wired numberOfClps alpToClpMap net)
    (h : Effect numberOfClps alpToClpMap net e net' o) {time : Nat}
    (htime : ∀ clp gvt, e = .setGvt clp gvt → gvt ≤ time)
    (hcovers : Covers numberOfClps net time) : Covers numberOfClps net' time := by
  intro c port hc
  by_cases hgvt : ∀ clp gvt, e ≠ .setGvt clp gvt
  · exact ((steady_step hw h hgvt c).periods port).hasRangePeriod (hcovers c port hc)
  · cases h with
    | setGvt =>
        rw [clp_setGvt]
        split
        · rw [rangeTable_setGvt]
          exact RangeRoutingTable.hasRangePeriod_clearRangePeriods _ (htime _ _ rfl)
            (hcovers c port hc)
        · exact hcovers c port hc
    | write _ _ _ _ _ hnot => exact absurd hnot hgvt
    | query | anti | serve | undo | update | respond | ignore => exact absurd nofun hgvt

end RangeNetwork
end PdesMas
