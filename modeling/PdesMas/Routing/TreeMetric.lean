import PdesMas.Library.RouteWalks
import PdesMas.Routing.ForwardingTable

/-!
The forwarding table is the metric of the tree. A walk comes to a rank only after
it has been where the route back to the own rank goes next, so that what it does
not find in the table lies one hop further away, behind the same neighbour.
-/

namespace HeapTree

/-- The tree on the first `n` ranks. -/
def upTo (n : Nat) : SimpleGraph {x // x < n} where
  Adj a b := Adj a b
  symm := ⟨fun _ _ h => h.symm⟩
  loopless := ⟨fun _ h => h.ne rfl⟩

/-- Routes do not leave the first ranks. -/
theorem nextHop_mem_upTo (n : Nat) : ∀ a ∈ {x | x < n}, ∀ b ∈ {x | x < n}, a ≠ b →
    routing.nextHop a b ∈ {x | x < n} :=
  fun a ha b hb _ => Nat.lt_of_le_of_lt (nextHop_le_max a b) (Nat.max_lt.mpr ⟨ha, hb⟩)

noncomputable def routingUpTo (n : Nat) : TreeRouting {x // x < n} :=
  routing.restrict {x | x < n} (nextHop_mem_upTo n)

theorem routingUpTo_graph (n : Nat) : (routingUpTo n).graph = upTo n := rfl

variable {n a b : Nat}

theorem exists_route_upTo (ha : a < n) (hb : b < n) :
    ∃ l, (routingUpTo n).Route ⟨b, hb⟩ ⟨a, ha⟩ l ∧ routing.Route b a (l.map Subtype.val) := by
  obtain ⟨l, hl⟩ := exists_route a b
  obtain ⟨l', hl', hmap⟩ :=
    @TreeRouting.Route.restrict _ routing a l {x | x < n} (nextHop_mem_upTo n) ⟨b, hb⟩ hl ha
  exact ⟨l', hl', hmap ▸ hl⟩

theorem dist_upTo (ha : a < n) (hb : b < n) :
    (upTo n).dist ⟨a, ha⟩ ⟨b, hb⟩ = routing.graph.dist a b := by
  obtain ⟨l, hl, hl'⟩ := exists_route_upTo ha hb
  have hlength := hl.length_eq
  have hlength' := hl'.length_eq
  rw [List.length_map] at hlength'
  rw [routingUpTo_graph] at hlength
  omega

theorem reachable_upTo (ha : a < n) (hb : b < n) :
    (upTo n).Reachable ⟨a, ha⟩ ⟨b, hb⟩ := by
  obtain ⟨l, hl, _⟩ := exists_route_upTo ha hb
  obtain ⟨w, _⟩ := hl.exists_walk
  exact w.reachable

/-- Paths of the tree begin with the next hop. -/
theorem snd_eq_nextHop (ha : a < n) (hb : b < n) (hne : a ≠ b)
    (w : (upTo n).Walk ⟨a, ha⟩ ⟨b, hb⟩) (hw : w.IsPath) : (w.snd : Nat) = nextHop a b := by
  obtain ⟨l, hl, hl'⟩ := exists_route_upTo ha hb
  have hsupport : w.support = l := hl.support_eq hw
  cases w with
  | nil => exact absurd rfl hne
  | @cons _ c _ hadj w =>
      rw [← hsupport, SimpleGraph.Walk.support_cons, List.map_cons] at hl'
      generalize hmap : w.support.map Subtype.val = rest at hl'
      cases hl' with
      | here => exact absurd rfl hne
      | step _ hrest =>
          have hhead := hrest.head
          rw [← hmap, List.head?_map, List.head?_eq_some_head w.support_ne_nil,
            SimpleGraph.Walk.head_support] at hhead
          rw [SimpleGraph.Walk.snd_cons]
          exact Option.some.inj hhead

end HeapTree

namespace PdesMas.ForwardingTable

open HeapTree (routing nextHop)

variable {clpRank numberOfClps : Nat} {table table' : ForwardingTable}

/-- The entries of a table of the CLP are right. -/
structure Metric (clpRank numberOfClps : Nat) (table : ForwardingTable) : Prop where
  source : table[clpRank]? = some ⟨clpRank, clpRank, 0, clpRank⟩
  entries : ∀ x info, table[x]? = some info → x ≠ clpRank → x < numberOfClps ∧
    info = ⟨clpRank, x, routing.graph.dist clpRank x, nextHop clpRank x⟩

/-- A walk may go on to the rank: it brings the right entry, and the table has the rank that
is next on the way back. -/
structure Ready (clpRank : Nat) (table : ForwardingTable) (rank hops nextRank : Nat) : Prop where
  hops : hops = routing.graph.dist clpRank rank
  next : nextRank = nextHop clpRank rank
  back : table[nextHop rank clpRank]? ≠ none

theorem Metric.found (h : Metric clpRank numberOfClps table) : table[clpRank]? ≠ none := by
  rw [h.source]
  exact Option.some_ne_none _

theorem Metric.insert {rank hops nextRank : Nat} (h : Metric clpRank numberOfClps table)
    (hrank : rank < numberOfClps) (hnew : table[rank]? = none)
    (hready : Ready clpRank table rank hops nextRank) :
    Metric clpRank numberOfClps (table.insert rank ⟨clpRank, rank, hops, nextRank⟩) := by
  have hne : rank ≠ clpRank := fun heq => h.found (heq ▸ hnew)
  constructor
  · rw [getElem?_insert, if_neg hne]
    exact h.source
  · intro x info hx hxc
    rw [getElem?_insert] at hx
    split at hx
    · rename_i heq
      cases hx
      rw [← heq, ← hready.hops, ← hready.next]
      exact ⟨hrank, rfl⟩
    · exact h.entries x info hx hxc

/-- What a walk finds missing beside an entry lies behind it. -/
theorem Ready.beside {table₁ : ForwardingTable} {rank hops nextRank y : Nat}
    (hready : Ready clpRank table rank hops nextRank) (hne : rank ≠ clpRank)
    (hkeep : ∀ x : Nat, table[x]? ≠ none → table₁[x]? ≠ none) (hrank : table₁[rank]? ≠ none)
    (hsource : table₁[clpRank]? ≠ none) (hadj : HeapTree.Adj rank y) (hnew : table₁[y]? = none) :
    Ready clpRank table₁ y (hops + 1) nextRank := by
  have hyc : y ≠ clpRank := fun heq => hsource (heq ▸ hnew)
  have haway : nextHop rank clpRank ≠ y := fun heq => hkeep _ hready.back (heq ▸ hnew)
  obtain ⟨l, hl⟩ := HeapTree.exists_route rank clpRank
  obtain ⟨hdist, hnext, hback⟩ := hl.dist_away hadj hne hyc haway
  refine ⟨?_, ?_, ?_⟩
  · rw [hready.hops, hdist]
  · rw [hready.next]
    exact hnext.symm
  · rw [show nextHop y clpRank = rank from hback]
    exact hrank

theorem metric_walkTree {fuel rank hops nextRank : Nat} (hpos : 0 < numberOfClps)
    (h : Metric clpRank numberOfClps table)
    (hready : table[rank]? = none → Ready clpRank table rank hops nextRank)
    (hwalk : walkTree clpRank numberOfClps fuel table rank hops nextRank = some table') :
    Metric clpRank numberOfClps table' ∧ ∀ x : Nat, table[x]? ≠ none → table'[x]? ≠ none := by
  induction fuel generalizing table table' rank hops with
  | zero => cases hwalk
  | succ fuel ih =>
      simp only [walkTree] at hwalk
      split at hwalk
      · cases hwalk
        exact ⟨h, fun _ hx => hx⟩
      · rename_i hrange
        split at hwalk
        · cases hwalk
          exact ⟨h, fun _ hx => hx⟩
        · rename_i hcontains
          have hnew : table[rank]? = none := by
            by_contra hfound
            exact hcontains (contains_iff.mpr hfound)
          have hne : rank ≠ clpRank := fun heq => h.found (heq ▸ hnew)
          have hready := hready hnew
          have h₁ := h.insert (by omega) hnew hready
          have hkeep₁ : ∀ x : Nat, table[x]? ≠ none →
              (table.insert rank ⟨clpRank, rank, hops, nextRank⟩)[x]? ≠ none := by
            intro x hx
            rw [getElem?_insert]
            split
            · exact Option.some_ne_none _
            · exact hx
          have hrank₁ : (table.insert rank ⟨clpRank, rank, hops, nextRank⟩)[rank]? ≠ none := by
            simp
          obtain ⟨table₂, hleft, hwalk⟩ := Option.bind_eq_some_iff.mp hwalk
          obtain ⟨table₃, hright, hwalk⟩ := Option.bind_eq_some_iff.mp hwalk
          obtain ⟨h₂, hkeep₂⟩ := ih h₁
            (hready.beside hne hkeep₁ hrank₁ h₁.found (.inl rfl)) hleft
          have hkeep₂' := fun x hx => hkeep₂ x (hkeep₁ x hx)
          obtain ⟨h₃, hkeep₃⟩ := ih h₂
            (hready.beside hne hkeep₂' (hkeep₂ rank hrank₁) h₂.found (.inr (.inl rfl))) hright
          have hkeep₃' := fun x hx => hkeep₃ x (hkeep₂' x hx)
          split at hwalk
          · rename_i hup
            have hadj : HeapTree.Adj rank ((rank - 1) / 2) := by
              simp only [HeapTree.Adj]
              omega
            obtain ⟨h₄, hkeep₄⟩ := ih h₃ (hready.beside hne hkeep₃'
              (hkeep₃ rank (hkeep₂ rank hrank₁)) h₃.found hadj) hwalk
            exact ⟨h₄, fun x hx => hkeep₄ x (hkeep₃' x hx)⟩
          · cases hwalk
            exact ⟨h₃, hkeep₃'⟩

theorem ready_of_adj {y : Nat} (h : Metric clpRank numberOfClps table)
    (hadj : HeapTree.Adj clpRank y) : Ready clpRank table y 1 y := by
  refine ⟨?_, (HeapTree.nextHop_of_adj hadj).symm, ?_⟩
  · exact (SimpleGraph.dist_eq_one_iff_adj.mpr (show routing.graph.Adj clpRank y from hadj)).symm
  · rw [HeapTree.nextHop_of_adj hadj.symm]
    exact h.found

theorem metric_create (hrank : clpRank < numberOfClps)
    (h : create clpRank numberOfClps = some table) : Metric clpRank numberOfClps table := by
  have hpos : 0 < numberOfClps := Nat.zero_lt_of_lt hrank
  have h₀ : Metric clpRank numberOfClps
      ((∅ : ForwardingTable).insert clpRank ⟨clpRank, clpRank, 0, clpRank⟩) := by
    constructor
    · simp
    · intro x info hx hne
      simp [Ne.symm hne] at hx
  obtain ⟨table₁, hleft, h⟩ := Option.bind_eq_some_iff.mp h
  obtain ⟨table₂, hright, h⟩ := Option.bind_eq_some_iff.mp h
  have h₁ := (metric_walkTree hpos h₀ (fun _ => ready_of_adj h₀ (.inl rfl)) hleft).1
  have h₂ := (metric_walkTree hpos h₁ (fun _ => ready_of_adj h₁ (.inr (.inl rfl))) hright).1
  split at h
  · have hadj : HeapTree.Adj clpRank ((clpRank - 1) / 2) := by
      simp only [HeapTree.Adj]
      omega
    exact (metric_walkTree hpos h₂ (fun _ => ready_of_adj h₂ hadj) h).1
  · cases h
    exact h₂

/-- The recursion ends, and leaves one entry for each CLP: with the distance in the tree, and
with the first vertex of the path. -/
theorem create_metric (hrank : clpRank < numberOfClps) :
    ∃ table, create clpRank numberOfClps = some table ∧
      (∀ d, numberOfClps ≤ d → table[d]? = none) ∧
      ∀ d (hd : d < numberOfClps), ∃ info, table[d]? = some info ∧
        info.nodeRank = clpRank ∧ info.destination = d ∧
        (HeapTree.upTo numberOfClps).Reachable ⟨clpRank, hrank⟩ ⟨d, hd⟩ ∧
        info.hops = (HeapTree.upTo numberOfClps).dist ⟨clpRank, hrank⟩ ⟨d, hd⟩ ∧
        ∀ w : (HeapTree.upTo numberOfClps).Walk ⟨clpRank, hrank⟩ ⟨d, hd⟩, w.IsPath →
          info.nextNodeRank = w.snd := by
  obtain ⟨table, htable, hdescribes⟩ := create_describes hrank
  have hmetric := metric_create hrank htable
  refine ⟨table, htable, fun d hd => ?_, fun d hd => ?_⟩
  · cases hinfo : table[d]? with
    | none => rfl
    | some info =>
        have := (hmetric.entries d info hinfo (by omega)).1
        omega
  · obtain ⟨info, hinfo, _⟩ := hdescribes d hd
    refine ⟨info, hinfo, ?_⟩
    rw [HeapTree.dist_upTo hrank hd]
    by_cases hself : d = clpRank
    · subst hself
      obtain rfl : _ = info := Option.some.inj (hmetric.source.symm.trans hinfo)
      refine ⟨rfl, rfl, .refl _, SimpleGraph.dist_self.symm, fun w hw => ?_⟩
      rw [(SimpleGraph.Walk.isPath_iff_nil.mp hw).eq_nil]
      rfl
    · obtain ⟨_, rfl⟩ := hmetric.entries d info hinfo hself
      refine ⟨rfl, rfl, HeapTree.reachable_upTo hrank hd, rfl, fun w hw => ?_⟩
      exact (HeapTree.snd_eq_nextHop hrank hd (Ne.symm hself) w hw).symm

theorem create_metric_six : ∃ table info, create 1 6 = some table ∧ table[5]? = some info ∧
    info.hops = (HeapTree.upTo 6).dist ⟨1, by decide⟩ ⟨5, by decide⟩ := by
  obtain ⟨table, htable, _, hentries⟩ := @create_metric 1 6 (by decide)
  obtain ⟨info, hinfo, _, _, _, hhops, _⟩ := hentries 5 (by decide)
  exact ⟨table, info, htable, hinfo, hhops⟩

end PdesMas.ForwardingTable
