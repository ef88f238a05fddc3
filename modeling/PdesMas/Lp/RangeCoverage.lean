import PdesMas.Library.RouteWalks
import PdesMas.Lp.PortRanges
import PdesMas.Lp.RangeChange
import PdesMas.Lp.RangeGathered

/-!
What the tables of the ports know of the points behind them. A CLP tells a
neighbour of a change with the range that has changed alone, and with the time it
changes from: the neighbour goes on covering what it has been told of before only
where the new range covers the other ports too and its own period begins and ends
where that of the sender does.
-/

namespace PdesMas

namespace RangeNetwork

open RangeClp RangeRoutingTable Range

section Awaited

/-- The range updates on a link. -/
def updatesOf (l : List RangeMessage) : List RangeUpdateMessage :=
  l.filterMap fun
    | .update m => some m
    | .query _ | .anti _ => none

/-- The periods of the port to `source`, when all that is on the link from there has come. -/
def awaited (net : RangeNetwork) (source target : Nat) : List RangePeriod :=
  (updatesOf (net.pipe source target)).foldl (fun l m => setRangeAt l m.timestamp m.received)
    ((net.clp target).rangeTable (RouteTable.portOf target source)).rangePeriodList

/-- The new range of the port `source`, from `time` on, leaves the neighbour `d`, whose periods
are `l`, with all that it should know. -/
structure Apt (gvt : Nat) (c : RangeClp) (source : Direction) (time : Nat) (range : Option Range)
    (d : Nat) (l : List RangePeriod) : Prop where
  coded : range ≠ some .sentinel
  /-- Where the neighbour takes it, it covers the other ports. -/
  merged : ∀ t, gvt ≤ t → ChangedAt l time range t → ∀ port ∈ Direction.ports, port ≠ source →
    port ≠ RouteTable.portOf c.rank d → Inside ((c.rangeTable port).getRangeCopy t) range
  /-- The neighbour's period goes beyond the own one. -/
  longer : ∀ t, gvt ≤ t → ChangedAt l time range t →
    ¬ ChangedAt (c.rangeTable source).rangePeriodList time range t →
      Inside ((c.rangeTable source).getRangeCopy t) range
  /-- The neighbour's period falls short of the own one. -/
  shorter : ∀ t, gvt ≤ t → ¬ ChangedAt l time range t →
    ChangedAt (c.rangeTable source).rangePeriodList time range t → Inside range (rangeAt l t)

/-- A change of the port is apt for every neighbour that is told of it. -/
def AptForAll (gvt numberOfClps : Nat) (net : RangeNetwork) (rank : Nat) (source : Direction)
    (time : Nat) (range : Option Range) : Prop :=
  ¬ (range.isSome ∧ range = ((net.clp rank).rangeTable source).getRangeCopy time) →
    ∀ d, d < numberOfClps → HeapTree.Adj rank d → RouteTable.portOf rank d ≠ source →
      Apt gvt (net.clp rank) source time range d (net.awaited rank d)

variable {numberOfClps gvt : Nat} {alpToClpMap : Std.TreeMap Nat Nat} {net net' : RangeNetwork}

@[simp] theorem updatesOf_append (l l' : List RangeMessage) :
    updatesOf (l ++ l') = updatesOf l ++ updatesOf l' := List.filterMap_append

@[simp] theorem updatesOf_map_update (l : List RangeUpdateMessage) :
    updatesOf (l.map .update) = l := by
  induction l with
  | nil => rfl
  | cons m l ih => exact congrArg (m :: ·) ih

theorem filter_map_update (l : List RangeUpdateMessage) (d : Nat) :
    (l.map RangeMessage.update).filter (fun m => m.destination = d) =
      (l.filter fun m => m.destination = d).map .update := by
  rw [List.filter_map]
  rfl

/-- The periods of all ports, and the variables, are in order. -/
structure InOrder (numberOfClps : Nat) (net : RangeNetwork) : Prop where
  shared : ∀ c, c < numberOfClps → SharedState.Ordered (net.clp c).sharedState
  placed : ∀ c, c < numberOfClps → ∀ port ∈ Direction.ports,
    Placed ((net.clp c).rangeTable port).rangePeriodList

/-- The own table of each CLP covers its points, and a neighbour will have been told of all
ports but the one to itself. -/
structure Nested (gvt numberOfClps : Nat) (net : RangeNetwork) : Prop where
  covered : ∀ c, c < numberOfClps → SharedState.Covered gvt (net.clp c).sharedState
  inside : ∀ a b, a < numberOfClps → b < numberOfClps → HeapTree.Adj a b →
    ∀ port ∈ Direction.ports, port ≠ RouteTable.portOf a b → ∀ t, gvt ≤ t →
      Inside (((net.clp a).rangeTable port).getRangeCopy t) (rangeAt (net.awaited a b) t)

theorem portOf_mem_ports (a b : Nat) : RouteTable.portOf a b ∈ Direction.ports := by
  simp only [RouteTable.portOf]
  split
  · decide
  · split <;> decide

theorem InOrder.awaited (h : InOrder numberOfClps net) {a b : Nat} (hb : b < numberOfClps) :
    Placed (net.awaited a b) := by
  refine List.foldlRecOn _ _ (h.placed b hb _ (portOf_mem_ports b a)) fun l hl m _ => ?_
  exact placed_setRangeAt hl m.timestamp m.received

theorem inside_rangeAt {l : List RangePeriod} {range : Option Range}
    (h : ∀ p ∈ l, Inside p.range range) (t : Nat) : Inside (rangeAt l t) range := by
  cases hc : Cut.last? (fun p => decide (p.time ≤ t)) l with
  | none =>
      rw [rangeAt_of_later (later_of_last?_none hc)]
      exact inside_none range
  | some c =>
      have hcover := covering_of_last? hc
      rw [hcover.rangeAt]
      exact h c.focus (Cut.focus_mem hcover.toList)

/-- The periods of the neighbour begin when the own ones do, and the new range covers all that
the other ports ever store. -/
structure Aligned (c : RangeClp) (source : Direction) (time : Nat) (range : Option Range) (d : Nat)
    (l : List RangePeriod) : Prop where
  coded : range ≠ some .sentinel
  times : l.map RangePeriod.time = (c.rangeTable source).rangePeriodList.map RangePeriod.time
  isSome : (rangeAt l time).isSome = (rangeAt (c.rangeTable source).rangePeriodList time).isSome
  others : ∀ port ∈ Direction.ports, port ≠ source → port ≠ RouteTable.portOf c.rank d →
    ∀ p ∈ (c.rangeTable port).rangePeriodList, Inside p.range range

instance (c : RangeClp) (source : Direction) (time : Nat) (range : Option Range) (d : Nat)
    (l : List RangePeriod) : Decidable (Aligned c source time range d l) :=
  decidable_of_iff (_ ∧ _ ∧ _ ∧ _) ⟨fun h => ⟨h.1, h.2.1, h.2.2.1, h.2.2.2⟩,
    fun h => ⟨h.1, h.2, h.3, h.4⟩⟩

theorem Aligned.apt {c : RangeClp} {source : Direction} {time : Nat} {range : Option Range} {d : Nat}
    {l : List RangePeriod} (h : Aligned c source time range d l) (gvt : Nat) :
    Apt gvt c source time range d l := by
  have hchanged : ∀ t, ChangedAt l time range t ↔
      ChangedAt (c.rangeTable source).rangePeriodList time range t :=
    fun _ => changedAt_congr h.times h.isSome
  refine ⟨h.coded, fun t _ _ port hport hsource hd => inside_rangeAt (h.others port hport hsource hd) t,
    fun t _ htaken hnot => absurd ((hchanged t).mp htaken) hnot,
    fun t _ hnot hchanges => absurd ((hchanged t).mpr hchanges) hnot⟩

end Awaited

section Told

variable {numberOfClps gvt : Nat} {alpToClpMap : Std.TreeMap Nat Nat} {net : RangeNetwork}
  {c : Nat} {source : Direction} {r : RangeClp × List RangeUpdateMessage} {pipe : Pipes Nat RangeMessage}

/-- The network when the CLP has changed the table of one port and told its neighbours; of the
links only those to it may be others. -/
def told (net : RangeNetwork) (pipe : Pipes Nat RangeMessage) (c : Nat)
    (r : RangeClp × List RangeUpdateMessage) : RangeNetwork :=
  (({ net with pipe := pipe } : RangeNetwork).setClp c r.1).send c (r.2.map .update)

theorem clp_told (net : RangeNetwork) (pipe : Pipes Nat RangeMessage) (c x : Nat)
    (r : RangeClp × List RangeUpdateMessage) :
    (net.told pipe c r).clp x = if x = c then r.1 else net.clp x := by
  rw [told, clp_send, clp_setClp]

theorem updatesOf_told (a b : Nat) : updatesOf ((net.told pipe c r).pipe a b) =
    updatesOf (pipe a b) ++ if a = c then r.2.filter (fun m => m.destination = b) else [] := by
  rw [told, pipe_send, pipe_setClp]
  split
  · rw [filter_map_update, updatesOf_append, updatesOf_map_update]
  · exact (List.append_nil _).symm

/-- What a neighbour that is told will have. -/
theorem awaited_told (hw : Wired numberOfClps alpToClpMap net) (hc : c < numberOfClps) {d : Nat}
    (hd : d < numberOfClps) (hadj : HeapTree.Adj c d) (hpipe : pipe c d = net.pipe c d)
    {l : List RangePeriod} {updates : List RangeUpdates}
    (htold : Told numberOfClps (net.clp c) source l updates r)
    (hcoded : RouteTable.portOf c d ≠ source → ∀ u ∈ updates, u.newRange ≠ some .sentinel) :
    (net.told pipe c r).awaited c d =
      if RouteTable.portOf c d = source then net.awaited c d
      else updates.foldl (fun l u => setRangeAt l u.time u.newRange) (net.awaited c d) := by
  have hclp : (net.told pipe c r).clp d = net.clp d := by
    rw [clp_told, if_neg (Ne.symm hadj.ne)]
  have hsent := htold.sent d hd (by rwa [hw.rank c hc])
  rw [hw.rank c hc] at hsent
  rw [awaited, awaited, hclp, updatesOf_told, if_pos rfl, hpipe, hsent, List.foldl_append]
  split
  · rfl
  · rename_i hport
    rw [List.foldl_map]
    refine List.foldl_ext _ _ _ fun l u hu => ?_
    rw [messageTo, RangeUpdateMessage.received_getD (hcoded hport u hu)]

/-- What becomes of the periods of a port and is told of them: nothing, or one change, which is
apt for every neighbour that is told of it. -/
inductive AptChange (gvt numberOfClps : Nat) (net : RangeNetwork) (c : Nat) (source : Direction) :
    List RangePeriod → List RangeUpdates → Prop
  | nothing : AptChange gvt numberOfClps net c source ((net.clp c).rangeTable source).rangePeriodList []
  | change {time : Nat} {range old : Option Range}
      (hapt : ∀ d, d < numberOfClps → HeapTree.Adj c d → RouteTable.portOf c d ≠ source →
        Apt gvt (net.clp c) source time range d (net.awaited c d)) :
      AptChange gvt numberOfClps net c source
        (setRangeAt ((net.clp c).rangeTable source).rangePeriodList time range)
        [⟨time, range, old⟩]

theorem aptChange_announced {time : Nat} {range : Option Range}
    (hapt : AptForAll gvt numberOfClps net c source time range) :
    AptChange gvt numberOfClps net c source
      (setRangeAt ((net.clp c).rangeTable source).rangePeriodList time range)
      (announced ((net.clp c).rangeTable source).rangePeriodList time range) := by
  by_cases hkeeps : range.isSome ∧
      range = rangeAt ((net.clp c).rangeTable source).rangePeriodList time
  · have hnone : announced ((net.clp c).rangeTable source).rangePeriodList time range = [] :=
      if_pos hkeeps
    rw [setRangeAt_of_announced hnone, hnone]
    exact .nothing
  · rw [announced, if_neg hkeeps]
    exact .change (hapt hkeeps)

variable {l : List RangePeriod} {updates : List RangeUpdates}

theorem AptChange.placed (h : AptChange gvt numberOfClps net c source l updates)
    (horder : InOrder numberOfClps net) (hc : c < numberOfClps) (hsource : source ∈ Direction.ports) :
    Placed l := by
  cases h with
  | nothing => exact horder.placed c hc source hsource
  | change => exact placed_setRangeAt (horder.placed c hc source hsource) _ _

/-- A neighbour that is told of the change covers all that it should. -/
theorem AptChange.inside (h : AptChange gvt numberOfClps net c source l updates)
    (hw : Wired numberOfClps alpToClpMap net) (horder : InOrder numberOfClps net)
    (hc : c < numberOfClps) (hsource : source ∈ Direction.ports) {d : Nat} (hd : d < numberOfClps)
    (hadj : HeapTree.Adj c d) (hport : RouteTable.portOf c d ≠ source) {port : Direction}
    (hmem : port ∈ Direction.ports) (hne : port ≠ RouteTable.portOf c d) {t : Nat} (ht : gvt ≤ t)
    (hbefore : Inside (((net.clp c).rangeTable port).getRangeCopy t) (rangeAt (net.awaited c d) t)) :
    (∀ u ∈ updates, u.newRange ≠ some .sentinel) ∧
      Inside (rangeAt (if port = source then l else ((net.clp c).rangeTable port).rangePeriodList) t)
        (rangeAt (updates.foldl (fun l u => setRangeAt l u.time u.newRange) (net.awaited c d)) t) := by
  cases h with
  | nothing =>
      refine ⟨nofun, ?_⟩
      split
      · rename_i heq
        exact heq ▸ hbefore
      · exact hbefore
  | @change time range old hapt =>
      have hapt := hapt d hd hadj hport
      refine ⟨fun u hu => List.mem_singleton.mp hu ▸ hapt.coded, ?_⟩
      have htold := rangeAt_setRangeAt_changed (horder.awaited hd).increasing time range t
        (l := net.awaited c d)
      have hown := rangeAt_setRangeAt_changed (horder.placed c hc source hsource).increasing time range t
      rw [List.foldl_cons, List.foldl_nil, htold]
      by_cases hsame : port = source
      · subst hsame
        rw [if_pos rfl, hown]
        by_cases htaken : ChangedAt (net.awaited c d) time range t
        · rw [if_pos htaken]
          split
          · exact inside_refl range
          · rename_i hnot
            exact hapt.longer t ht htaken hnot
        · rw [if_neg htaken]
          split
          · rename_i hchanged
            exact hapt.shorter t ht htaken hchanged
          · exact hbefore
      · rw [if_neg hsame]
        split
        · rename_i htaken
          exact hapt.merged t ht htaken port hmem hsame (by rwa [hw.rank c hc])
        · exact hbefore

/-- An apt change leaves every neighbour with all that it should know. -/
theorem nested_told (hw : Wired numberOfClps alpToClpMap net) (horder : InOrder numberOfClps net)
    (hnested : Nested gvt numberOfClps net) (hc : c < numberOfClps)
    (hsource : source ∈ Direction.ports) (hpipe : ∀ a b, b ≠ c → pipe a b = net.pipe a b)
    (htold : Told numberOfClps (net.clp c) source l updates r)
    (hchange : AptChange gvt numberOfClps net c source l updates)
    (hincoming : ∀ a, a < numberOfClps → HeapTree.Adj a c →
      (net.told pipe c r).awaited a c = net.awaited a c)
    (hcovered : SharedState.Covered gvt r.1.sharedState) :
    Nested gvt numberOfClps (net.told pipe c r) := by
  refine ⟨fun x hx => ?_, fun a b ha hb hadj port hmem hport t ht => ?_⟩
  · rw [clp_told]
    split
    · exact hcovered
    · exact hnested.covered x hx
  · have hbefore := hnested.inside a b ha hb hadj port hmem hport t ht
    by_cases hac : a = c
    · subst hac
      have hlink : pipe a b = net.pipe a b := hpipe a b (Ne.symm hadj.ne)
      rw [clp_told, if_pos rfl, getRangeCopy_eq, htold.tables port]
      by_cases hback : RouteTable.portOf a b = source
      · rw [awaited_told hw hc hb hadj hlink htold (absurd hback), if_pos hback,
          if_neg fun heq => hport (heq.trans hback.symm)]
        exact hbefore
      · obtain ⟨hcoded, hinside⟩ := hchange.inside hw horder hc hsource hb hadj hback hmem hport ht hbefore
        rw [awaited_told hw hc hb hadj hlink htold fun _ => hcoded, if_neg hback]
        exact hinside
    · rw [clp_told, if_neg hac]
      by_cases hbc : b = c
      · subst hbc
        rw [hincoming a ha hadj]
        exact hbefore
      · have hsame : (net.told pipe c r).awaited a b = net.awaited a b := by
          rw [awaited, awaited, clp_told, if_neg hbc, updatesOf_told, if_neg hac, hpipe a b hbc,
            List.append_nil]
        rw [hsame]
        exact hbefore

theorem inOrder_told (horder : InOrder numberOfClps net)
    (htold : Told numberOfClps (net.clp c) source l updates r) (hplaced : Placed l)
    (hshared : SharedState.Ordered r.1.sharedState) : InOrder numberOfClps (net.told pipe c r) := by
  refine ⟨fun x hx => ?_, fun x hx port hport => ?_⟩
  · rw [clp_told]
    split
    · exact hshared
    · exact horder.shared x hx
  · rw [clp_told]
    split
    · rename_i heq
      subst heq
      rw [htold.tables]
      split
      · exact hplaced
      · exact horder.placed x hx port hport
    · exact horder.placed x hx port hport

end Told

section Moves

def isUpdate : RangeMessage → Bool
  | .update _ => true
  | .query _ | .anti _ => false

/-- A write, the rollback of one, or the arrival of the next range update on a link. -/
def IsMove (net : RangeNetwork) : Event → Prop
  | .write .. | .writeAnti .. => True
  | .deliver source target k => k = 0 ∧ (net.pipe source target)[k]?.any isUpdate = true
  | .query .. | .anti .. | .setGvt .. => False

instance (net : RangeNetwork) : ∀ e, Decidable (IsMove net e)
  | .write .. | .writeAnti .. => inferInstanceAs (Decidable True)
  | .deliver _ _ _ => inferInstanceAs (Decidable (_ ∧ _))
  | .query .. | .anti .. | .setGvt .. => inferInstanceAs (Decidable False)

/-- The new range fits the own table, it is the only one that is told, and it is told aptly. -/
structure WriteFits (gvt numberOfClps : Nat) (net : RangeNetwork) (clp : Nat) (ssvId : SsvId)
    (sv : StateVariable AbstractValue) (originalAgent : LpId) (timestamp : Nat)
    (write : ValueWrite) : Prop where
  fits : SharedState.Fits gvt (net.clp clp).sharedState ssvId sv originalAgent timestamp write
  alone : ∀ p ∈ ((net.clp clp).rangeTable .HERE).rangePeriodList,
    ¬ Recalculated ((net.clp clp).rangeTable .HERE).rangePeriodList timestamp
      (sv.readWithoutRecord timestamp).1 p
  told : AptForAll gvt numberOfClps net clp .HERE timestamp
    (SharedState.recalculateRange
      ((net.clp clp).sharedState.writtenMap ssvId sv originalAgent timestamp write) timestamp)

/-- The operation is about no point, or fits. -/
def PerformFits (gvt numberOfClps : Nat) (net : RangeNetwork) (clp : Nat) (ssvId : SsvId)
    (originalAgent : LpId) (timestamp : Nat) (write : ValueWrite) : Prop :=
  ∀ sv, (net.clp clp).sharedState.stateVariableMap[ssvId]? = some sv →
    SharedState.MovesPoint sv originalAgent timestamp write →
      WriteFits gvt numberOfClps net clp ssvId sv originalAgent timestamp write

/-- The condition on a move. -/
def MoveFits (gvt numberOfClps : Nat) (net : RangeNetwork) : Event → Prop
  | .write clp ssvId originalAgent value timestamp =>
      PerformFits gvt numberOfClps net clp ssvId originalAgent timestamp (.writeWithRollback value)
  | .writeAnti clp ssvId originalAgent timestamp => (net.clp clp).gvt ≤ timestamp →
      PerformFits gvt numberOfClps net clp ssvId originalAgent timestamp .rollbackWrite
  | .deliver source target k => target < numberOfClps →
      ∀ m, (net.pipe source target)[k]? = some (.update m) →
        AptForAll gvt numberOfClps net target (RouteTable.portOf target source) m.timestamp m.received
  | .query .. | .anti .. | .setGvt .. => True

variable {numberOfClps gvt : Nat} {alpToClpMap : Std.TreeMap Nat Nat} {net net' : RangeNetwork}
  {c : Nat} {r : RangeClp × List RangeUpdateMessage}

/-- What has to hold of the network for a move. -/
structure Standing (gvt numberOfClps : Nat) (alpToClpMap : Std.TreeMap Nat Nat)
    (net : RangeNetwork) : Prop where
  wired : Wired numberOfClps alpToClpMap net
  order : InOrder numberOfClps net
  nested : Nested gvt numberOfClps net

/-- A write tells the neighbours of the own points. -/
theorem told_write {ssvId : SsvId} {originalAgent : LpId} {timestamp : Nat} {write : ValueWrite}
    (h : Standing gvt numberOfClps alpToClpMap net) (hc : c < numberOfClps)
    (hfits : PerformFits gvt numberOfClps net c ssvId originalAgent timestamp write)
    (hperforms : Performs (net.clp c) ssvId originalAgent timestamp write r) :
    InOrder numberOfClps (net.told net.pipe c r) ∧ Nested gvt numberOfClps (net.told net.pipe c r) := by
  obtain ⟨hw, horder, hnested⟩ := h
  have hrank := hw.rank c hc
  obtain ⟨sv, hsv⟩ := hperforms.exists_variable
  obtain ⟨htold, hshared, hcovered⟩ := told_performs (hw.clps c hc) (by rw [hrank]; exact hw.directs c hc)
    (by rwa [hrank]) (horder.shared c hc) (hnested.covered c hc) hsv
    (fun hmoves => (hfits sv hsv hmoves).fits) (fun hmoves => (hfits sv hsv hmoves).alone) hperforms
  have hchange : ∃ l updates, Told numberOfClps (net.clp c) .HERE l updates r ∧
      AptChange gvt numberOfClps net c .HERE l updates := by
    split at htold
    · rename_i hmoves
      exact ⟨_, _, htold, aptChange_announced (hfits sv hsv hmoves).told⟩
    · exact ⟨_, _, htold, .nothing⟩
  obtain ⟨l, updates, htold, hchange⟩ := hchange
  have hhere : Direction.HERE ∈ Direction.ports := by decide
  refine ⟨inOrder_told horder htold (hchange.placed horder hc hhere) hshared,
    nested_told hw horder hnested hc hhere (fun _ _ _ => rfl) htold hchange (fun a ha hadj => ?_)
      hcovered⟩
  have hport := RouteTable.portOf_ne_here c a
  rw [awaited, awaited, clp_told, if_pos rfl, htold.tables, if_neg hport, updatesOf_told,
    if_neg hadj.ne, List.append_nil]

/-- An update that arrives is what was awaited. -/
theorem told_update {source target : Nat} {m : RangeUpdateMessage} {back : List RangeMessage}
    (h : Standing gvt numberOfClps alpToClpMap net) (htarget : target < numberOfClps)
    (hpipe : net.pipe source target = .update m :: back)
    (hapt : AptForAll gvt numberOfClps net target (RouteTable.portOf target source) m.timestamp
      m.received)
    (hr : (net.clp target).processRangeUpdate m = some r) :
    InOrder numberOfClps (net.told (net.pipe.put source target back) target r) ∧
      Nested gvt numberOfClps (net.told (net.pipe.put source target back) target r) := by
  obtain ⟨hw, horder, hnested⟩ := h
  have hrank := hw.rank target htarget
  obtain ⟨horigin, hsource, hadj⟩ := hw.updates source target m (hpipe ▸ List.mem_cons_self)
  have hadj := (hadj htarget).symm
  obtain ⟨port, hport, htold, hvariables⟩ := told_processRangeUpdate (hw.clps target htarget)
    (by rw [hrank]; exact hw.directs target htarget) (by rwa [hrank]) hr
  rw [horigin, hw.direction_of_adj htarget hsource hadj] at hport
  obtain rfl := Option.some.inj hport
  have hmem := portOf_mem_ports target source
  have hchange := aptChange_announced hapt
  have hhere : r.1.sharedState.rangeRoutingTable.rangePeriodList =
      (net.clp target).sharedState.rangeRoutingTable.rangePeriodList := by
    have htable := htold.tables .HERE
    rwa [if_neg (Ne.symm (RouteTable.portOf_ne_here target source))] at htable
  have hshared : SharedState.Ordered r.1.sharedState := by
    obtain ⟨hwrites, hranges⟩ := horder.shared target htarget
    exact ⟨by rwa [hvariables], by rwa [hhere]⟩
  have hcovered : SharedState.Covered gvt r.1.sharedState := by
    have hcovered := hnested.covered target htarget
    rwa [SharedState.Covered, hhere, hvariables]
  refine ⟨inOrder_told horder htold (hchange.placed horder htarget hmem) hshared,
    nested_told hw horder hnested htarget hmem (fun a b hb => ?_) htold hchange
      (fun a ha hadj' => ?_) hcovered⟩
  · exact Pipes.put_of_ne _ _ fun heq => hb heq.2
  · rw [awaited, awaited, clp_told, if_pos rfl, htold.tables, updatesOf_told, if_neg hadj'.ne,
      List.append_nil]
    by_cases heq : a = source
    · subst heq
      rw [if_pos rfl, Pipes.put_self, hpipe]
      rfl
    · rw [if_neg fun hsame => heq (RouteTable.portOf_injective hadj'.symm hadj hsame),
        Pipes.put_of_ne _ _ fun hlink => heq hlink.1]

theorem told_nothing (h : Standing gvt numberOfClps alpToClpMap net) :
    InOrder numberOfClps (net.told net.pipe c (net.clp c, [])) ∧
      Nested gvt numberOfClps (net.told net.pipe c (net.clp c, [])) := by
  have hsame : net.told net.pipe c (net.clp c, []) = net := by
    simp [told, setClp, send, Pipes.pushAll]
  rw [hsame]
  exact ⟨h.order, h.nested⟩

theorem standing_step (h : Standing gvt numberOfClps alpToClpMap net) {e : Event} {o : Output}
    (hmove : IsMove net e) (hfits : MoveFits gvt numberOfClps net e)
    (hstep : (machine numberOfClps alpToClpMap).step net e = some (net', o)) :
    Standing gvt numberOfClps alpToClpMap net' := by
  have heffect := effect_of_step _ _ hstep
  have hw' := wired_step h.wired heffect
  change net.step numberOfClps alpToClpMap e = some (net', o) at hstep
  cases e with
  | query | anti | setGvt => exact absurd hmove id
  | write clp ssvId originalAgent value timestamp =>
      simp only [step] at hstep
      split at hstep
      · rename_i hclp
        obtain ⟨r, hr, hstep⟩ := Option.bind_eq_some_iff.mp hstep
        cases hstep
        obtain ⟨horder, hnested⟩ := told_write h hclp hfits (processWrite_performs hr)
        exact ⟨hw', horder, hnested⟩
      · cases hstep
  | writeAnti clp ssvId originalAgent timestamp =>
      simp only [step] at hstep
      split at hstep
      · rename_i hclp
        obtain ⟨r, hr, hstep⟩ := Option.bind_eq_some_iff.mp hstep
        cases hstep
        rcases processWriteAnti_performs hr with ⟨_, rfl⟩ | ⟨hgvt, hperforms⟩
        · obtain ⟨horder, hnested⟩ := told_nothing (c := clp) h
          exact ⟨hw', horder, hnested⟩
        · obtain ⟨horder, hnested⟩ := told_write h hclp (hfits (Nat.le_of_not_lt hgvt)) hperforms
          exact ⟨hw', horder, hnested⟩
      · cases hstep
  | deliver source target k =>
      obtain ⟨rfl, hupdate⟩ := hmove
      obtain ⟨m, hm⟩ : ∃ m, (net.pipe source target)[0]? = some (.update m) := by
        obtain ⟨m, hm, hupdate⟩ := Option.any_eq_true .. |>.mp hupdate
        cases m with
        | update m => exact ⟨m, hm⟩
        | query | anti => cases hupdate
      have hhead : ∀ {front back : List RangeMessage} {m' : RangeMessage},
          net.pipe source target = front ++ m' :: back → front.length = 0 →
            m' = .update m ∧ front = [] := by
        intro front back m' hpipe hfront
        obtain rfl := List.length_eq_zero_iff.mp hfront
        rw [hpipe] at hm
        exact ⟨Option.some.inj hm, rfl⟩
      cases heffect with
      | serve _ hpipe hk => cases (hhead hpipe hk).1
      | undo _ hpipe hk => cases (hhead hpipe hk).1
      | respond _ hpipe hk => cases (hhead hpipe hk).1
      | write _ _ hlocal => exact absurd rfl (hlocal _ _ _)
      | update htarget hpipe hk hr =>
          obtain ⟨heq, rfl⟩ := hhead hpipe hk
          cases heq
          obtain ⟨horder, hnested⟩ := told_update h htarget hpipe (hfits htarget m hm) hr
          exact ⟨hw', horder, hnested⟩
      | ignore htarget hpipe hk =>
          refine ⟨hw', ⟨h.order.shared, h.order.placed⟩, h.nested.covered,
            fun a b ha hb hadj port hmem hport t ht => ?_⟩
          have hbefore := h.nested.inside a b ha hb hadj port hmem hport t ht
          have hlink : ¬ (a = source ∧ b = target) := fun heq =>
            Nat.not_lt_of_le htarget (heq.2 ▸ hb)
          simp only [awaited, Pipes.put_of_ne _ _ hlink]
          exact hbefore

/-- No range update is on its way between CLPs. -/
def AtRest (numberOfClps : Nat) (net : RangeNetwork) : Prop :=
  ∀ a, a < numberOfClps → ∀ b, b < numberOfClps → updatesOf (net.pipe a b) = []

instance (numberOfClps : Nat) (net : RangeNetwork) : Decidable (AtRest numberOfClps net) :=
  inferInstanceAs (Decidable (∀ a, a < numberOfClps → ∀ b, b < numberOfClps → _))

/-- The table of each port contains the points of the CLPs behind it, and that of `HERE` the own
ones. -/
def PortsCover (gvt numberOfClps : Nat) (net : RangeNetwork) : Prop :=
  ∀ c d port, c < numberOfClps → d < numberOfClps →
    (net.clp c).routeTable.getDirectionFromRank d = some port → ∀ t, gvt ≤ t →
      SharedState.Contains (((net.clp c).rangeTable port).getRangeCopy t)
        (SharedState.pointsAt (net.clp d).sharedState.stateVariableMap t)

theorem contains_of_inside {range whole : Option Range} (h : Inside range whole) {points : List Point}
    (hpoints : SharedState.Contains range points) : SharedState.Contains whole points := by
  intro point hpoint
  have hin := hpoints point hpoint
  cases range with
  | none => cases hin
  | some r =>
      obtain ⟨w, hw, hwithin⟩ := h r rfl
      obtain rfl := Option.mem_def.mp hw
      have hpoint := Range.isValueOverlapping_iff.mp hin
      exact isValueOverlapping_of_within (p := point)
        (Within.trans ⟨⟨hpoint.1.1, hpoint.2.1⟩, hpoint.1.2, hpoint.2.2⟩ hwithin)

/-- With nothing on its way, what has been told reaches through the tree. -/
theorem Standing.portsCover (h : Standing gvt numberOfClps alpToClpMap net) (hrest : AtRest numberOfClps net) :
    PortsCover gvt numberOfClps net := by
  obtain ⟨hw, _, hnested⟩ := h
  intro c d port hc hd hport t ht
  rw [(hw.directs c hc).clp d hd] at hport
  obtain rfl := Option.some.inj hport
  by_cases heq : d = c
  · subst heq
    rw [RouteTable.directionTo_self]
    exact hnested.covered d hd t ht
  · rw [RouteTable.directionTo_of_ne heq]
    obtain ⟨l, hroute⟩ := HeapTree.exists_route (HeapTree.nextHop c d) d
    have hadj := HeapTree.adj_nextHop (Ne.symm heq)
    have hnext : ∀ a ∈ {x | x < numberOfClps}, ∀ b ∈ {x | x < numberOfClps}, a ≠ b →
        HeapTree.routing.nextHop a b ∈ {x | x < numberOfClps} := fun a ha b hb _ =>
      Nat.lt_of_le_of_lt (HeapTree.nextHop_le_max a b) (Nat.max_lt.mpr ⟨ha, hb⟩)
    let own : Nat → Set Point := fun a =>
      {point | point ∈ SharedState.pointsAt (net.clp a).sharedState.stateVariableMap t}
    let behind : Nat → Nat → Set Point := fun b a =>
      {point | (((net.clp b).rangeTable (RouteTable.portOf b a)).getRangeCopy t).any
        (·.isValueOverlapping point) = true}
    have htold : ∀ a b port, a < numberOfClps → b < numberOfClps → HeapTree.Adj a b →
        port ∈ Direction.ports → port ≠ RouteTable.portOf a b →
          Inside (((net.clp a).rangeTable port).getRangeCopy t)
            (((net.clp b).rangeTable (RouteTable.portOf b a)).getRangeCopy t) := by
      intro a b port ha hb hab hmem hport
      have hinside := hnested.inside a b ha hb hab port hmem hport t ht
      rwa [awaited, hrest a ha b hb, List.foldl_nil] at hinside
    have hle : own d ≤ behind c (HeapTree.nextHop c d) := by
      refine hroute.own_le_told hnext (fun a ha b hb hab point hpoint => ?_)
        (fun a ha b hb x hx hab hax hne point hpoint => ?_) hd (hnext c hc d hd (Ne.symm heq)) hc
        hadj.symm ⟨heq, rfl⟩
      · have hhere : Inside (((net.clp a).rangeTable .HERE).getRangeCopy t) _ :=
          htold a b .HERE ha hb hab (by decide) (Ne.symm (RouteTable.portOf_ne_here a b))
        exact contains_of_inside hhere (hnested.covered a ha t ht) point hpoint
      · have haway : RouteTable.portOf a x ≠ RouteTable.portOf a b := fun hsame =>
          hne (RouteTable.portOf_injective hax hab hsame)
        have hin : SharedState.Contains _ [point] :=
          contains_of_inside (htold a b _ ha hb hab (portOf_mem_ports a x) haway)
            fun p hp => List.mem_singleton.mp hp ▸ hpoint
        exact hin point List.mem_cons_self
    exact fun point hpoint => hle hpoint

end Moves

section Start

/-- The tables are those that `InitialisePortRanges` makes of the ranges recorded for the CLPs. -/
structure Starts (numberOfClps : Nat) (initialisor : Initialisor) (startTime : Nat)
    (clpToRangeMap : Std.TreeMap Nat Range) (net : RangeNetwork) : Prop where
  initial : Initial numberOfClps initialisor net
  shared : ∀ c, c < numberOfClps →
    SharedState.machine.Reachable SharedState.Initial (fun _ _ => True) (net.clp c).sharedState
  tables : ∀ c, c < numberOfClps → Initialised startTime clpToRangeMap (net.clp c)
  ranges : ∀ (k : Nat) range, clpToRangeMap[k]? = some range →
    k < numberOfClps ∧ (range ≠ .sentinel → Occupied range)

variable {numberOfClps startTime gvt : Nat} {initialisor : Initialisor}
  {clpToRangeMap : Std.TreeMap Nat Range} {net : RangeNetwork}

/-- What is behind a port of `a`, but for the one to `b`, is behind the port of `b` to `a`. -/
theorem directionTo_of_behind {a b k : Nat} (hadj : HeapTree.Adj a b)
    (hport : RouteTable.directionTo a k ≠ RouteTable.portOf a b) :
    RouteTable.directionTo b k = RouteTable.portOf b a := by
  have hb : k ≠ b := by
    rintro rfl
    exact hport (RouteTable.directionTo_of_adj hadj)
  by_cases ha : k = a
  · subst ha
    exact RouteTable.directionTo_of_adj hadj.symm
  · rw [RouteTable.directionTo_of_ne ha] at hport
    have haway : HeapTree.nextHop a k ≠ b := fun heq => hport (by rw [heq])
    have hback : HeapTree.nextHop b k = a := by
      by_contra hne
      exact haway ((HeapTree.separates hadj ha hb).mpr hne)
    rw [RouteTable.directionTo_of_ne hb, hback]

theorem standing_of_starts (h : Starts numberOfClps initialisor startTime clpToRangeMap net)
    (hgvt : startTime ≤ gvt) (hcovers : PortsCover gvt numberOfClps net) :
    Standing gvt numberOfClps initialisor.alpToClpMap net := by
  have hw := wired_of_initial h.initial
  refine ⟨hw, ⟨fun c hc => SharedState.ordered_of_reachable (h.shared c hc),
    fun c hc port hport => ?_⟩, fun c hc t ht => ?_,
    fun a b ha hb hadj port hmem hport t ht => ?_⟩
  · obtain ⟨_, _, htables⟩ := h.tables c hc
    rw [htables port hport]
    exact placed_single _ _
  · have hport := (hw.directs c hc).clp c hc
    rw [RouteTable.directionTo_self] at hport
    exact hcovers c c .HERE hc hc hport t ht
  · obtain ⟨portRange, hbuilt, htables⟩ := h.tables a ha
    obtain ⟨portRange', hbuilt', htables'⟩ := h.tables b hb
    have hstart := Nat.le_trans hgvt ht
    have hport' := portOf_mem_ports b a
    rw [awaited, h.initial.pipe]
    change Inside _ (((net.clp b).rangeTable (RouteTable.portOf b a)).getRangeCopy t)
    rw [getRangeCopy_of_single (htables port hmem) hstart,
      getRangeCopy_of_single (htables' _ hport') hstart]
    refine inside_portRanges (fun k range hk => (h.ranges k range hk).2) hbuilt hbuilt'
      fun k range hk hdirection => ?_
    have hklt := (h.ranges k range hk).1
    rw [(hw.directs a ha).clp k hklt] at hdirection
    obtain rfl := Option.some.inj hdirection
    rw [(hw.directs b hb).clp k hklt, directionTo_of_behind hadj hport]

/-- With every move apt, the tables cover the points whenever no update is on its way. -/
theorem ports_cover_at_rest (hstarts : Starts numberOfClps initialisor startTime clpToRangeMap net)
    (hgvt : startTime ≤ gvt) (hcovers : PortsCover gvt numberOfClps net) (events : List Event)
    (hmoves : (machine numberOfClps initialisor.alpToClpMap).Meets IsMove net events)
    (hfits : (machine numberOfClps initialisor.alpToClpMap).Meets (MoveFits gvt numberOfClps) net
      events) :
    (machine numberOfClps initialisor.alpToClpMap).Throughout
      (fun net => AtRest numberOfClps net → PortsCover gvt numberOfClps net) net events :=
  Machine.throughout_of_meets _ _ (Standing gvt numberOfClps initialisor.alpToClpMap) _
    (fun _ h => h.portsCover) (fun _ _ _ _ h hboth hstep => standing_step h hboth.1 hboth.2 hstep)
    events net (standing_of_starts hstarts hgvt hcovers) (hmoves.and hfits)

/-- One point at the root and one at its left child. -/
private def pairShared (c : Nat) (range : Option Range) : SharedState :=
  let s : SharedState := .create (branchTable range) (.create true 0)
  let added :=
    if c = 0 then s.add 6 (.valuePOINT ⟨1, 1⟩) 0 ⟨0, 4⟩
    else if c = 1 then s.add 7 (.valuePOINT ⟨2, 2⟩) 0 ⟨0, 3⟩
    else some s
  added.getD s

private def pairRange : Nat → Direction → Option Range
  | 0, .HERE | 1, .UP => some ⟨⟨1, 1⟩, ⟨1, 1⟩⟩
  | 1, .HERE | 0, .LEFT => some ⟨⟨2, 2⟩, ⟨2, 2⟩⟩
  | 2, .UP => some ⟨⟨1, 1⟩, ⟨2, 2⟩⟩
  | _, _ => none

private def pairClp (c : Nat) : RangeClp :=
  { branchClp c with
    sharedState := pairShared c (pairRange c .HERE)
    portTable := fun port => branchTable (pairRange c port) }

private def pairNetwork : RangeNetwork := ⟨pairClp, fun _ _ => []⟩

private def pairRanges : Std.TreeMap Nat Range :=
  .ofList [(0, (⟨⟨1, 1⟩, ⟨1, 1⟩⟩ : Range)), (1, ⟨⟨2, 2⟩, ⟨2, 2⟩⟩)]

/-- The point at the left child moves, and both other CLPs hear of it. -/
private def moveTo (point : Point) : List Event :=
  [.write 1 7 ⟨1, 3⟩ (.valuePOINT point) 4, .deliver 1 0 0, .deliver 0 2 0]

private theorem rangeTable_pair (c : Nat) (port : Direction) :
    (pairNetwork.clp c).rangeTable port = branchTable (pairRange c port) := by
  cases port with
  | HERE =>
      change (pairShared c (pairRange c .HERE)).rangeRoutingTable = _
      simp only [pairShared]
      split
      · rfl
      · split <;> rfl
  | UP | LEFT | RIGHT | DIRECTION_SIZE => rfl

private theorem home_pair {c : Nat} {id : SsvId}
    (h : (pairNetwork.clp c).sharedState.containsVariable id = true) :
    c = 0 ∧ id = 6 ∨ c = 1 ∧ id = 7 := by
  change (pairShared c (pairRange c .HERE)).stateVariableMap.contains id = true at h
  simp only [pairShared] at h
  split at h
  · rename_i hc
    change (Std.TreeMap.insert ∅ 6 _).contains id = true at h
    have hid : (6 : SsvId) = id := by simpa [Std.TreeMap.contains_insert] using h
    exact .inl ⟨hc, hid.symm⟩
  · split at h
    · rename_i hc
      change (Std.TreeMap.insert ∅ 7 _).contains id = true at h
      have hid : (7 : SsvId) = id := by simpa [Std.TreeMap.contains_insert] using h
      exact .inr ⟨hc, hid.symm⟩
    · change (∅ : StateVariableMap).contains id = true at h
      simp at h

private theorem initial_pair : Initial 3 branchInitialisor pairNetwork := by
  refine ⟨initial_branch.alps, fun _ _ => rfl, fun _ _ => rfl, initial_branch.routes,
    fun _ _ => rfl, fun _ _ => rfl, fun c d id _ _ hc hd => ?_, fun c port hc hport hnone => ?_,
    fun c port _ => by rw [rangeTable_pair]; rfl⟩
  · rcases home_pair hc with ⟨rfl, rfl⟩ | ⟨rfl, rfl⟩
    · rcases home_pair hd with ⟨rfl, _⟩ | ⟨_, hid⟩
      · rfl
      · cases hid
    · rcases home_pair hd with ⟨_, hid⟩ | ⟨rfl, _⟩
      · cases hid
      · rfl
  · rw [rangeTable_pair]
    intro p hp
    obtain rfl := List.mem_singleton.mp hp
    have hranges : ∀ c < 3, ∀ port ∈ Direction.DIRECTION_SIZE :: Direction.ports, port ≠ .HERE →
        (∀ d < 3, HeapTree.Adj c d → RouteTable.portOf c d ≠ port) → pairRange c port = none := by
      decide
    exact hranges c hc port (by cases port <;> decide) hport hnone

private theorem starts_pair : Starts 3 branchInitialisor 0 pairRanges pairNetwork := by
  refine ⟨initial_pair, fun c hc => ?_, fun c hc => ?_, fun k range hk => ?_⟩
  · have hstart : SharedState.machine.Reachable SharedState.Initial (fun _ _ => True)
        (.create (branchTable (pairRange c .HERE)) (.create true 0)) := .start ⟨0, _, _, rfl⟩
    change SharedState.machine.Reachable _ _ (pairShared c (pairRange c .HERE))
    simp only [pairShared]
    split
    · exact hstart.step (e := .add 6 (.valuePOINT ⟨1, 1⟩) 0 ⟨0, 4⟩) trivial rfl
    · split
      · exact hstart.step (e := .add 7 (.valuePOINT ⟨2, 2⟩) 0 ⟨0, 3⟩) trivial rfl
      · exact hstart
  · have hbuilt : ∀ c < 3, (portRanges (pairNetwork.clp c).routeTable pairRanges).map
        (fun portRange => decide (∀ port ∈ Direction.ports, portRange port = pairRange c port)) =
          some true := by
      decide
    obtain ⟨portRange, hportRange, hsame⟩ := Option.map_eq_some_iff.mp (hbuilt c hc)
    refine ⟨portRange, hportRange, fun port hport => ?_⟩
    rw [rangeTable_pair, of_decide_eq_true hsame port hport]
    rfl
  · have hmem := Std.TreeMap.mem_toList_iff_getElem?_eq_some.mpr hk
    have hlist : ∀ e ∈ pairRanges.toList, e.1 < 3 ∧
        (e.2.minRangeValue.x ≠ INT_MAX ∧ e.2.maxRangeValue.x ≠ INT_MAX) := by decide
    exact ⟨(hlist _ hmem).1, fun _ => (hlist _ hmem).2⟩

private theorem portsCover_pair : PortsCover 0 3 pairNetwork := by
  intro c d port hc hd hport t _
  have hcovers : ∀ c < 3, ∀ d < 3, ∀ port ∈ Direction.DIRECTION_SIZE :: Direction.ports,
      (pairNetwork.clp c).routeTable.getDirectionFromRank d = some port →
        ∀ t ∈ 0 :: SharedState.writeTimes (pairNetwork.clp d).sharedState.stateVariableMap,
          SharedState.Contains (pairRange c port)
            (SharedState.pointsAt (pairNetwork.clp d).sharedState.stateVariableMap t) := by
    decide
  have hsingle : ((pairNetwork.clp c).rangeTable port).rangePeriodList =
      [.create 0 (pairRange c port)] := by
    rw [rangeTable_pair]
    rfl
  have hrange := getRangeCopy_of_single hsingle (Nat.zero_le t)
  rw [hrange]
  refine SharedState.contains_of_writeTimes (fun t ht _ => ?_) (l := [])
    ⟨Nat.zero_le t, nofun⟩
  exact hcovers c hc d hd port (by cases port <;> decide) hport t ht

/-- The point moves to where the root has its own, so that the new range covers both. -/
private theorem fits_pair :
    (machine 3 branchInitialisor.alpToClpMap).Meets (MoveFits 0 3) pairNetwork (moveTo ⟨1, 1⟩) := by
  let range : Option Range := some ⟨⟨1, 1⟩, ⟨1, 1⟩⟩
  obtain ⟨net₁, net₂, net₃, hstep₁, hstep₂, hstep₃, hm, haligned⟩ : ∃ net₁ net₂ net₃,
      (machine 3 branchInitialisor.alpToClpMap).step pairNetwork
        (.write 1 7 ⟨1, 3⟩ (.valuePOINT ⟨1, 1⟩) 4) = some (net₁, .nothing) ∧
      (machine 3 branchInitialisor.alpToClpMap).step net₁ (.deliver 1 0 0) = some (net₂, .nothing) ∧
      (machine 3 branchInitialisor.alpToClpMap).step net₂ (.deliver 0 2 0) = some (net₃, .nothing) ∧
      net₁.pipe 1 0 = [.update ⟨1, 0, 4, ⟨⟨1, 1⟩, ⟨1, 1⟩⟩⟩] ∧
      ∀ d < 3, HeapTree.Adj 0 d → RouteTable.portOf 0 d ≠ .LEFT →
        Aligned (net₁.clp 0) .LEFT 4 range d (net₁.awaited 0 d) :=
    ⟨_, _, _, rfl, rfl, rfl, rfl, by decide⟩
  have hwrite : ∀ sv, (pairNetwork.clp 1).sharedState.stateVariableMap[7]? = some sv →
      SharedState.OnePeriod (pairNetwork.clp 1).sharedState 7 sv ⟨1, 3⟩ 4
          (.writeWithRollback (.valuePOINT ⟨1, 1⟩)) ∧
        SharedState.recalculateRange ((pairNetwork.clp 1).sharedState.writtenMap 7 sv ⟨1, 3⟩ 4
          (.writeWithRollback (.valuePOINT ⟨1, 1⟩))) 4 = range := by
    decide
  have hstanding := standing_of_starts starts_pair (Nat.le_refl 0) portsCover_pair
  refine (Machine.meets_cons _ _ hstep₁).mpr ⟨?_, (Machine.meets_cons _ _ hstep₂).mpr
    ⟨?_, (Machine.meets_cons _ _ hstep₃).mpr ⟨?_, trivial⟩⟩⟩
  · intro sv hsv _
    obtain ⟨hone, hrange⟩ := hwrite sv hsv
    refine ⟨hone.fits (hstanding.order.shared 1 (by decide)) (hstanding.nested.covered 1 (by decide))
      hsv, fun p hp => hone.not_recalculated hp, ?_⟩
    rw [hrange]
    intro _ d hd hadj hport
    have haligned : ∀ d < 3, HeapTree.Adj 1 d → RouteTable.portOf 1 d ≠ .HERE →
        Aligned (pairNetwork.clp 1) .HERE 4 range d (pairNetwork.awaited 1 d) := by
      decide
    exact (haligned d hd hadj hport).apt 0
  · intro _ m hm' _ d hd hadj hport
    rw [hm] at hm'
    cases hm'
    exact (haligned d hd hadj hport).apt 0
  · intro _ m _ _ d hd hadj hport
    have hroot : ∀ d < 3, HeapTree.Adj 2 d → d = 0 := by decide
    exact absurd (congrArg (RouteTable.portOf 2) (hroot d hd hadj)) hport

theorem ports_cover_at_rest_moved : ∃ net' os,
    (machine 3 branchInitialisor.alpToClpMap).run pairNetwork (moveTo ⟨1, 1⟩) = some (net', os) ∧
      (machine 3 branchInitialisor.alpToClpMap).Throughout
        (fun net => AtRest 3 net → PortsCover 0 3 net) pairNetwork (moveTo ⟨1, 1⟩) :=
  ⟨_, _, rfl, ports_cover_at_rest starts_pair (Nat.le_refl 0) portsCover_pair _ (by decide) fits_pair⟩

/-- The right child is told of the moved point alone, and no longer covers that of the root. -/
theorem point_of_root_forgotten : Starts 3 branchInitialisor 0 pairRanges pairNetwork ∧
    PortsCover 0 3 pairNetwork ∧
    (machine 3 branchInitialisor.alpToClpMap).Meets IsMove pairNetwork (moveTo ⟨5, 5⟩) ∧
    ∃ net' os, (machine 3 branchInitialisor.alpToClpMap).run pairNetwork (moveTo ⟨5, 5⟩) =
        some (net', os) ∧ AtRest 3 net' ∧ ¬ PortsCover 0 3 net' := by
  refine ⟨starts_pair, portsCover_pair, by decide, ?_⟩
  obtain ⟨net', os, hrun, hrest, hport, hmissed⟩ : ∃ net' os,
      (machine 3 branchInitialisor.alpToClpMap).run pairNetwork (moveTo ⟨5, 5⟩) = some (net', os) ∧
        AtRest 3 net' ∧ (net'.clp 2).routeTable.getDirectionFromRank 0 = some .UP ∧
        ¬ SharedState.Contains (((net'.clp 2).rangeTable .UP).getRangeCopy 4)
          (SharedState.pointsAt (net'.clp 0).sharedState.stateVariableMap 4) :=
    ⟨_, _, rfl, by decide, by decide, by decide⟩
  exact ⟨net', os, hrun, hrest, fun hcover =>
    hmissed (hcover 2 0 .UP (by decide) (by decide) hport 4 (Nat.zero_le 4))⟩

end Start

end RangeNetwork
end PdesMas
