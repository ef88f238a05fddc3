import PdesMas.Routing.Delivery
import PdesMas.Routing.PortsInUse

/-!
What a route table says of the ranks of the simulation. It has entries for these
ranks only, `HERE` is the entry of its own rank alone, and the rank it points to
is nearer to the destination.
-/

namespace PdesMas.RouteTable

section

variable {lpRank numberOfClps rank bound : Nat} {forwardingTable : ForwardingTable}
  {alpToClpMap : Std.TreeMap Nat Nat} {p p' : Ports} {initialisor : Initialisor} {t : RouteTable}

/-- The entries are of ranks below the bound. -/
def EntriesBelow (bound : Nat) (m : Std.TreeMap Nat Direction) : Prop :=
  ∀ (x : Nat) d, m[x]? = some d → x < bound

theorem EntriesBelow.insert {m : Std.TreeMap Nat Direction} {d : Direction}
    (h : EntriesBelow bound m) (hrank : rank < bound) : EntriesBelow bound (m.insert rank d) := by
  intro x d' hx
  rw [Std.TreeMap.getElem?_insert] at hx
  split at hx
  · rename_i heq
    exact Std.LawfulEqCmp.compare_eq_iff_eq.mp heq ▸ hrank
  · exact h x d' hx

theorem EntriesBelow.follow {nextRank : Nat} (h : EntriesBelow bound p.rankToDirectionMap)
    (hrank : rank < bound) (hnext : nextRank < bound) :
    EntriesBelow bound (p.follow rank nextRank).rankToDirectionMap := by
  refine EntriesBelow.insert (fun x d hx => ?_) hrank
  simp only [lookUp, Std.TreeMap.getElem?_insertIfNew] at hx
  split at hx
  · rename_i heq
    exact Std.LawfulEqCmp.compare_eq_iff_eq.mp heq.1 ▸ hnext
  · exact h x d hx

theorem EntriesBelow.addNeighbour (h : EntriesBelow bound p.rankToDirectionMap)
    (hrank : rank < bound) (hadd : p.addNeighbour rank = some p') :
    EntriesBelow bound p'.rankToDirectionMap := by
  obtain ⟨next, _, rfl⟩ := Option.map_eq_some_iff.mp hadd
  exact h.insert hrank

/-- Only the ranks of CLPs and ALPs have entries. -/
theorem entriesBelow_create (hrank : lpRank < numberOfClps)
    (hclps : ∀ a c : Nat, initialisor.alpToClpMap[a]? = some c → c < numberOfClps)
    (h : create lpRank numberOfClps initialisor = some t) :
    EntriesBelow (numberOfClps + initialisor.alpToClpMap.size) t.rankToDirectionMap := by
  obtain ⟨table, p₁, p₂, p₃, hdescribes, _, h₁, h₂, h₃, hranks, _⟩ := create_phases hrank h
  have hclp : ∀ x, x < numberOfClps → x < numberOfClps + initialisor.alpToClpMap.size :=
    fun x hx => Nat.lt_of_lt_of_le hx (Nat.le_add_right _ _)
  let I : Ports → Prop := fun p =>
    EntriesBelow (numberOfClps + initialisor.alpToClpMap.size) p.rankToDirectionMap
  have hstart : I (.start lpRank) :=
    EntriesBelow.insert (fun x d hx => by simp at hx) (hclp lpRank hrank)
  have hneighbours : I p₁ := by
    refine foldlM_invariant I (fun p x p' hx hp hstep => ?_) hstart h₁
    simp only [Ports.addClp] at hstep
    split at hstep
    · exact Option.some.inj hstep ▸ hp
    · obtain ⟨info, _, hstep⟩ := Option.bind_eq_some_iff.mp hstep
      split at hstep
      · exact EntriesBelow.addNeighbour hp (hclp x (List.mem_range.mp hx)) hstep
      · exact Option.some.inj hstep ▸ hp
  have hremote : I p₂ := by
    refine foldlM_invariant I (fun p x p' hx hp hstep => ?_) hneighbours h₂
    have hx := List.mem_range.mp hx
    obtain ⟨info, hinfo, hnext, hhops⟩ := hdescribes x hx
    simp only [Ports.addRemoteClp, hinfo, Option.bind_eq_bind, Option.bind_some] at hstep
    split at hstep
    · exact Option.some.inj hstep ▸ hp
    · split at hstep
      · rename_i hhop
        have hne : x ≠ lpRank := fun heq => Nat.not_le.mpr hhop (hhops.mpr (.inl heq))
        have hle := HeapTree.nextHop_le_max lpRank x
        refine Option.some.inj hstep ▸ EntriesBelow.follow hp (hclp x hx) (hclp _ ?_)
        rw [hnext hne]
        omega
      · exact Option.some.inj hstep ▸ hp
  rw [hranks]
  refine foldlM_invariant I (fun p x p' hx hp hstep => ?_) hremote h₃
  obtain ⟨clp, hat, hstep⟩ := Option.bind_eq_some_iff.mp hstep
  have hx := (List.mem_range'_1.mp hx).2
  split at hstep
  · exact EntriesBelow.addNeighbour hp hx hstep
  · exact Option.some.inj hstep ▸ EntriesBelow.follow hp hx (hclp clp (hclps x clp hat))

/-- `HERE` is the direction of the rank itself alone. -/
theorem eq_of_direction_here (hattached : Attached numberOfClps initialisor.alpToClpMap)
    (hrank : lpRank < numberOfClps) (h : create lpRank numberOfClps initialisor = some t)
    (hhere : t.getDirectionFromRank rank = some .HERE) : rank = lpRank := by
  have hdirects := directs_create hrank h
  have haway : ∀ x, directionTo lpRank x = .HERE → x = lpRank := by
    intro x hx
    by_contra hne
    rw [directionTo_of_ne hne] at hx
    exact portOf_ne_here _ _ hx
  have hbound := entriesBelow_create hrank hattached.clps h rank _ hhere
  by_cases hclp : rank < numberOfClps
  · exact haway rank (Option.some.inj ((hdirects.clp rank hclp).symm.trans hhere))
  · have hge := Nat.le_of_not_lt hclp
    have hat := Attached.getElem?_alp ((hattached.ranks rank).mpr ⟨hge, hbound⟩)
    by_cases hown : initialisor.alpToClpMap.getD rank 0 = lpRank
    · obtain ⟨d, hd, hport⟩ := hdirects.ownAlp rank hge hbound (hown ▸ hat)
      obtain rfl := Option.some.inj (hd.symm.trans hhere)
      exact absurd rfl ((usesPorts_create h).port _ _ hport).1
    · have hdirection := hdirects.alp rank _ hge hbound hat (hattached.clps _ _ hat) hown
      exact absurd (haway _ (Option.some.inj (hdirection.symm.trans hhere))) hown

/-- The ports lead to ranks of the simulation. -/
theorem port_lt (h : create lpRank numberOfClps initialisor = some t) {d : Direction} {x : Nat}
    (hport : t.getRankFromDirection d = some x) :
    x < numberOfClps + initialisor.alpToClpMap.size := by
  rcases ((usesPorts_create h).port d x hport).2.2.2 with hx | hx
  · exact Nat.lt_of_lt_of_le hx (Nat.le_add_right _ _)
  · exact hx.2.1

end

section

variable {numberOfClps x y dest : Nat} {initialisor : Initialisor} {path path' : List Nat}

theorem Delivery.unique (h : Delivery numberOfClps initialisor dest x path)
    (h' : Delivery numberOfClps initialisor dest x path') : path = path' := by
  induction h generalizing path' with
  | arrived =>
      cases h' with
      | arrived => rfl
      | forward hne => exact absurd rfl hne
  | forward hne hhop _ ih =>
      cases h' with
      | arrived => exact absurd rfl hne
      | forward _ hhop' h' =>
          obtain rfl := Option.some.inj (hhop.symm.trans hhop')
          rw [ih h']

/-- The number of links between two ranks. -/
noncomputable def distance (numberOfClps : Nat) (initialisor : Initialisor) (x dest : Nat) : Nat :=
  (links numberOfClps initialisor.alpToClpMap).dist x dest

/-- A rank the tables point to is another CLP or the destination, and one link nearer. -/
theorem hop_nearer (hattached : Attached numberOfClps initialisor.alpToClpMap)
    (hhosts : ∀ e ∈ initialisor.placements, e.1 < numberOfClps) (hx : x < numberOfClps)
    (hdest : dest < numberOfClps ∨ dest ∈ initialisor.alpToClpMap) (hne : x ≠ dest)
    (hhop : hop numberOfClps initialisor dest x = some y) :
    (y < numberOfClps ∨ y = dest) ∧
      distance numberOfClps initialisor y dest + 1 = distance numberOfClps initialisor x dest := by
  obtain ⟨path, hpath, _, hlength⟩ := exists_delivery hattached hhosts hx hdest
  have hy : y < numberOfClps ∨ y = dest := by
    obtain ⟨node, rfl⟩ : ∃ node : {x // x < numberOfClps} ⊕ {a // a ∈ initialisor.alpToClpMap},
        rankOf node = dest := by
      cases hdest with
      | inl hlt => exact ⟨.inl ⟨dest, hlt⟩, rfl⟩
      | inr hmem => exact ⟨.inr ⟨dest, hmem⟩, rfl⟩
    have hnode : (.inl ⟨x, hx⟩ : {x // x < numberOfClps} ⊕ {a // a ∈ initialisor.alpToClpMap}) ≠
        node := fun heq => hne (heq ▸ rfl)
    have hnext := Option.some.inj (hhop.symm.trans (hop_eq hattached hhosts hnode))
    cases hnode' : hattached.tree.nextHop (.inl ⟨x, hx⟩) node with
    | inl z =>
        rw [hnode'] at hnext
        exact .inl (hnext ▸ z.2)
    | inr a =>
        rw [hnode'] at hnext
        obtain rfl := dest_of_nextHop hattached hnode'
        exact .inr hnext
  refine ⟨hy, ?_⟩
  cases hpath with
  | arrived => exact absurd rfl hne
  | @forward _ next path' _ hhop' hrest =>
      obtain rfl : next = y := Option.some.inj (hhop'.symm.trans hhop)
      rw [List.length_cons] at hlength
      rcases hy with hy | rfl
      · obtain ⟨path'', hpath'', _, hlength'⟩ := exists_delivery hattached hhosts hy hdest
        rw [hrest.unique hpath'', hlength'] at hlength
        exact Nat.succ.inj hlength
      · rw [hrest.unique .arrived] at hlength
        rw [distance, SimpleGraph.dist_self]
        exact Nat.succ.inj hlength

end

end PdesMas.RouteTable
