import PdesMas.Lp.RangeClp
import PdesMas.Types.BoundingBox

/-!
What a message of `SendRangeUpdates` should say: the box of the new range and of
the ranges behind the other ports. The condition for a merge asks of one rank to
be in the lower half of the tree and its root, so that a port to which updates go
never has one.
-/

namespace PdesMas

namespace RangeClp

variable {c : RangeClp} {sourcePort port : Direction} {u : RangeUpdates}

/-- `SendRangeUpdates` does not skip the port. Where the number of CLPs is even, that is so of
one port with an ALP behind it, the right one of the last parent. -/
def FacesClp (c : RangeClp) : Direction → Prop
  | .UP => c.rank ≠ 0
  | .LEFT | .RIGHT => c.rank < c.numberOfClps / 2
  | .HERE | .DIRECTION_SIZE => False

instance (c : RangeClp) : ∀ port, Decidable (c.FacesClp port)
  | .UP => inferInstanceAs (Decidable (c.rank ≠ 0))
  | .LEFT | .RIGHT => inferInstanceAs (Decidable (c.rank < c.numberOfClps / 2))
  | .HERE | .DIRECTION_SIZE => inferInstanceAs (Decidable False)

/-- The updates, each with the ports that it has to go to. -/
def toTell (c : RangeClp) (rangeUpdateList : List RangeUpdates) (sourcePort : Direction) :
    List (RangeUpdates × Direction) :=
  rangeUpdateList.flatMap fun u =>
    (Direction.ports.filter fun port => c.FacesClp port ∧ port ≠ sourcePort).map fun port =>
      (u, port)

/-- The ranges stored at `time` for the other ports. -/
def storedRanges (c : RangeClp) (port sourcePort : Direction) (time : Nat) : List Range :=
  (Direction.ports.filter fun remotePort => remotePort ≠ port ∧ remotePort ≠ sourcePort).filterMap
    fun remotePort => (c.rangeTable remotePort).getRangeCopy time

/-- The range in a message is the box of the ranges, or the sentinel if there are none. -/
def SummaryOf (ranges : List Range) (range : Range) : Prop :=
  match ranges with
  | [] => range = .sentinel
  | first :: rest => Range.IsBox (first :: rest) range

/-- The message tells the CLP behind the port of the update and of the other ports. -/
structure Summarises (c : RangeClp) (sourcePort : Direction) (r : RangeUpdates × Direction)
    (m : RangeUpdateMessage) : Prop where
  origin : m.origin = c.rank
  destination : c.routeTable.getRankFromDirection r.2 = some m.destination
  timestamp : m.timestamp = r.1.time
  range : SummaryOf (r.1.newRange.toList ++ c.storedRanges r.2 sourcePort r.1.time) m.range

/-- The other ports add nothing to the new range. -/
def AddsNothing (stored : List Range) : Option Range → Prop
  | some range => ∀ other ∈ stored, other.Within range
  | none => stored = [] ∨ Range.IsBox stored .sentinel

theorem isUpdated_iff (hport : port ∈ [Direction.UP, .LEFT, .RIGHT]) :
    c.isUpdated sourcePort port = true ↔ c.FacesClp port ∧ port ≠ sourcePort := by
  simp only [List.mem_cons, List.not_mem_nil, or_false] at hport
  rcases hport with rfl | rfl | rfl
  · simp [isUpdated, FacesClp, and_comm]
  · simp [isUpdated, FacesClp, and_comm]
  · simp [isUpdated, FacesClp, and_comm]

/-- To a port that updates go to, the new range goes as it is. -/
theorem sentRange_of_isUpdated (hport : port ∈ [Direction.UP, .LEFT, .RIGHT])
    (h : c.isUpdated sourcePort port = true) : c.sentRange port sourcePort u = u.newRange := by
  have hmerged : Direction.ports.filter (c.isMerged port sourcePort) = [] := by
    refine List.filter_eq_nil_iff.mpr fun remotePort _ hmerged => ?_
    -- the root would have to be a leaf, and would then send nothing
    have hfaces := ((isUpdated_iff hport).mp h).1
    simp only [isMerged, Bool.and_eq_true, decide_eq_true_eq, beq_iff_eq] at hmerged
    simp only [List.mem_cons, List.not_mem_nil, or_false] at hport
    rcases hport with rfl | rfl | rfl
    · exact hfaces hmerged.2.1
    · exact Nat.not_lt_of_le hmerged.1.2.1 hfaces
    · exact Nat.not_lt_of_le hmerged.1.2.1 hfaces
  rw [sentRange, hmerged, List.foldl_nil]

theorem toTell_eq (rangeUpdateList : List RangeUpdates) :
    (rangeUpdateList.flatMap fun u =>
      ([.UP, .LEFT, .RIGHT].filter (c.isUpdated sourcePort)).map fun port => (u, port)) =
        c.toTell rangeUpdateList sourcePort := by
  have hports : [Direction.UP, .LEFT, .RIGHT].filter (c.isUpdated sourcePort) =
      Direction.ports.filter fun port => c.FacesClp port ∧ port ≠ sourcePort := by
    have hhere : ¬ decide (c.FacesClp .HERE ∧ Direction.HERE ≠ sourcePort) = true := by
      simp [FacesClp]
    rw [Direction.ports, List.filter_cons (x := Direction.HERE), if_neg hhere]
    refine List.filter_congr fun port hport => ?_
    rw [Bool.eq_iff_iff, isUpdated_iff hport, decide_eq_true_eq]
  rw [hports, toTell]

theorem SummaryOf.isBox {ranges : List Range} {range other : Range} (h : SummaryOf ranges range)
    (hother : other ∈ ranges) : Range.IsBox ranges range := by
  cases ranges with
  | nil => cases hother
  | cons first rest => exact h

theorem summaryOf_getD_iff (stored : List Range) (range : Option Range) :
    SummaryOf (range.toList ++ stored) (range.getD .sentinel) ↔ AddsNothing stored range := by
  cases range with
  | none =>
      cases stored with
      | nil => exact iff_of_true rfl (.inl rfl)
      | cons first rest => exact (or_iff_right (List.cons_ne_nil first rest)).symm
  | some range =>
      refine (@Range.isBox_of_mem_iff (range :: stored) range List.mem_cons_self).trans ?_
      rw [List.forall_mem_cons]
      exact and_iff_right (Range.within_refl range)

theorem forall₂_mapM_iff {α β : Type} {f : α → Option β} {R : α → β → Prop} {P : α → Prop}
    {l : List α} {bs : List β} (h : l.mapM f = some bs)
    (hiff : ∀ a ∈ l, ∀ b, f a = some b → (R a b ↔ P a)) :
    List.Forall₂ R l bs ↔ ∀ a ∈ l, P a := by
  induction l generalizing bs with
  | nil =>
      cases h
      exact iff_of_true .nil nofun
  | cons a l ih =>
      rw [List.mapM_cons] at h
      obtain ⟨b, hb, h⟩ := Option.bind_eq_some_iff.mp h
      obtain ⟨bs, hbs, h⟩ := Option.bind_eq_some_iff.mp h
      cases h
      rw [List.forall₂_cons, List.forall_mem_cons, hiff a List.mem_cons_self b hb,
        ih hbs fun a' ha' => hiff a' (List.mem_cons_of_mem _ ha')]

/-- The messages sum up the other ports exactly if these add nothing to any new range. -/
theorem sends_summaries_iff (c : RangeClp) (rangeUpdateList : List RangeUpdates)
    (sourcePort : Direction) (sent : List RangeUpdateMessage)
    (hsent : c.sendRangeUpdates rangeUpdateList sourcePort = some sent) :
    List.Forall₂ (c.Summarises sourcePort) (c.toTell rangeUpdateList sourcePort) sent ↔
      ∀ r ∈ c.toTell rangeUpdateList sourcePort,
        AddsNothing (c.storedRanges r.2 sourcePort r.1.time) r.1.newRange := by
  rw [sendRangeUpdates, toTell_eq] at hsent
  refine forall₂_mapM_iff hsent fun r hr m hm => ?_
  obtain ⟨u, _, hr⟩ := List.mem_flatMap.mp hr
  obtain ⟨port, hport, rfl⟩ := List.mem_map.mp hr
  obtain ⟨hmem, hfaces⟩ := List.mem_filter.mp hport
  obtain ⟨rank, hrank, rfl⟩ := Option.map_eq_some_iff.mp hm
  have hfaces := of_decide_eq_true hfaces
  have hport : port ∈ [Direction.UP, .LEFT, .RIGHT] := by
    cases port <;> simp_all [FacesClp, Direction.ports]
  have hrange := @sentRange_of_isUpdated c sourcePort port u hport
    ((isUpdated_iff hport).mpr hfaces)
  rw [← summaryOf_getD_iff]
  constructor
  · intro h
    have hsummary := h.range
    rwa [hrange] at hsummary
  · intro h
    refine ⟨rfl, hrank, rfl, ?_⟩
    rwa [hrange]

/-- The root of three CLPs, with a point of its own. -/
private def rootOfThree : RangeClp where
  rank := 0
  numberOfClps := 3
  gvt := 0
  routeTable := ⟨∅, fun port => if port = .LEFT then some 1 else if port = .RIGHT then some 2
    else none, ∅⟩
  sharedState := .create ⟨[.create 0 (some ⟨⟨1, 1⟩, ⟨1, 1⟩⟩)], []⟩ (.create false 1)
  portTable := fun _ => ⟨[.create 0 none], []⟩
  rangeTracker := ⟨∅⟩

/-- The left child has a point at `(5, 5)` now. -/
private def leftMoved : List RangeUpdates := [⟨4, some ⟨⟨5, 5⟩, ⟨5, 5⟩⟩, none⟩]

theorem sends_summaries_iff_root : ∃ sent,
    rootOfThree.sendRangeUpdates leftMoved .LEFT = some sent ∧
      (List.Forall₂ (rootOfThree.Summarises .LEFT) (rootOfThree.toTell leftMoved .LEFT) sent ↔
        ∀ r ∈ rootOfThree.toTell leftMoved .LEFT,
          AddsNothing (rootOfThree.storedRanges r.2 .LEFT r.1.time) r.1.newRange) :=
  ⟨_, rfl, sends_summaries_iff rootOfThree leftMoved .LEFT _ rfl⟩

/-- The right child is told of `(5, 5)` alone, not of the point of the root. -/
theorem point_of_root_left_out : ∃ sent,
    rootOfThree.sendRangeUpdates leftMoved .LEFT = some sent ∧
      ¬ List.Forall₂ (rootOfThree.Summarises .LEFT) (rootOfThree.toTell leftMoved .LEFT) sent := by
  refine ⟨_, rfl, fun h => ?_⟩
  have htold : rootOfThree.toTell leftMoved .LEFT =
      [(⟨4, some ⟨⟨5, 5⟩, ⟨5, 5⟩⟩, none⟩, .RIGHT)] := rfl
  rw [htold] at h
  obtain ⟨hsummary, _⟩ := List.forall₂_cons.mp h
  have hbox : Range.IsBox [⟨⟨5, 5⟩, ⟨5, 5⟩⟩, ⟨⟨1, 1⟩, ⟨1, 1⟩⟩] ⟨⟨5, 5⟩, ⟨5, 5⟩⟩ := hsummary.range
  have hwithin := hbox.within (List.mem_cons_of_mem _ (List.mem_singleton_self _))
  exact absurd hwithin (by decide)

end RangeClp
end PdesMas
