import PdesMas.Routing.RouteTable

/-!
The directions of ranks. A CLP finds every other CLP behind the port of the
neighbour on the way, and an ALP where it finds the CLP of the ALP; an ALP of its
own has a port to itself.
-/

namespace PdesMas

namespace RouteTable

/-- The direction of a CLP is that of the neighbour on the way. -/
structure Directs (lpRank numberOfClps : Nat) (alpToClpMap : Std.TreeMap Nat Nat)
    (t : RouteTable) : Prop where
  clp : ∀ x, x < numberOfClps → t.getDirectionFromRank x = some (directionTo lpRank x)
  port : PortsLead lpRank numberOfClps t.directionToRankMap
  alp : ∀ a c, numberOfClps ≤ a → a < numberOfClps + alpToClpMap.size →
    alpToClpMap[a]? = some c → c < numberOfClps → c ≠ lpRank →
      t.getDirectionFromRank a = some (directionTo lpRank c)
  ownAlp : ∀ a, numberOfClps ≤ a → a < numberOfClps + alpToClpMap.size →
    alpToClpMap[a]? = some lpRank →
      ∃ d, t.getDirectionFromRank a = some d ∧ t.getRankFromDirection d = some a

section

variable {lpRank numberOfClps : Nat} {forwardingTable : ForwardingTable}

theorem foldlM_range_invariant {σ : Type} {f : σ → Nat → Option σ} (I : Nat → σ → Prop)
    {start n : Nat} {s s' : σ}
    (hstep : ∀ k s s', k < n → I k s → f s (start + k) = some s' → I (k + 1) s') (hs : I 0 s)
    (h : (List.range' start n).foldlM f s = some s') : I n s' := by
  induction n generalizing s' with
  | zero => exact Option.some.inj h ▸ hs
  | succ n ih =>
      rw [List.range'_concat, List.foldlM_append] at h
      obtain ⟨q, hq, hlast⟩ := Option.bind_eq_some_iff.mp h
      obtain ⟨r, hr, hrs⟩ := Option.bind_eq_some_iff.mp hlast
      obtain rfl : r = s' := Option.some.inj hrs
      rw [Nat.one_mul] at hr
      exact hstep n q r (by omega)
        (ih (fun k s s' hk => hstep k s s' (by omega)) hq) hr

/-- The entries of the loop over the neighbours, when it has come to `k`. -/
def NeighboursTo (lpRank k : Nat) (p : Ports) : Prop :=
  ∀ x d, p.rankToDirectionMap[x]? = some d ↔
    x = lpRank ∧ d = .HERE ∨ x < k ∧ HeapTree.Adj lpRank x ∧ d = portOf lpRank x

theorem addClp_ranks {k : Nat} {p : Ports}
    (htable : ∀ x, x < numberOfClps →
      ∃ info, forwardingTable[x]? = some info ∧ ForwardingTable.Describes lpRank x info)
    (hk : k ≤ numberOfClps)
    (h : (List.range k).foldlM (Ports.addClp lpRank forwardingTable) (.start lpRank) = some p) :
    NeighboursTo lpRank k p := by
  induction k generalizing p with
  | zero =>
      obtain rfl : Ports.start lpRank = p := Option.some.inj h
      intro x d
      simp only [Ports.start, Std.TreeMap.getElem?_insert, Std.LawfulEqCmp.compare_eq_iff_eq]
      split
      · simp_all [eq_comm]
      · simp_all [eq_comm]
  | succ k ih =>
      rw [List.range_succ, List.foldlM_append] at h
      obtain ⟨q, hq, hlast⟩ := Option.bind_eq_some_iff.mp h
      have hranks := ih (by omega) hq
      obtain ⟨hdirection, _⟩ := addClp_loop htable (by omega) hq
      obtain ⟨r, hr, hrp⟩ := Option.bind_eq_some_iff.mp hlast
      obtain rfl : r = p := Option.some.inj hrp
      obtain ⟨info, hinfo, _, hhops⟩ := htable k (by omega)
      have hsame : ¬ HeapTree.Adj lpRank k → NeighboursTo lpRank (k + 1) q := by
        intro hnot x d
        rw [hranks]
        refine or_congr_right (and_congr_left fun hx => ?_)
        have hne : x ≠ k := fun heq => hnot (heq ▸ hx.1)
        omega
      simp only [Ports.addClp] at hr
      split at hr
      · rename_i hrank
        cases hr
        exact hsame fun hadj => hadj.ne hrank.symm
      · rename_i hrank
        simp only [hinfo, Option.bind_eq_bind, Option.bind_some] at hr
        split at hr
        · rename_i hhop
          have hadj : HeapTree.Adj lpRank k := (hhops.mp hhop).resolve_left hrank
          obtain ⟨hport, hnext⟩ := portFrom_adj hadj
          rw [Ports.addNeighbour, hdirection, hnext] at hr
          cases hr
          intro x d
          simp only [Std.TreeMap.getElem?_insert, Std.LawfulEqCmp.compare_eq_iff_eq]
          split
          · rename_i hkx
            subst hkx
            simp [hport, hadj, hrank, eq_comm]
          · rename_i hkx
            rw [hranks]
            refine or_congr_right (and_congr_left fun _ => ?_)
            omega
        · rename_i hhop
          cases hr
          exact hsame fun hadj => hhop (hhops.mpr (.inr hadj))

theorem directionTo_self (lpRank : Nat) : directionTo lpRank lpRank = .HERE := if_pos rfl

theorem directionTo_of_ne {x : Nat} (h : x ≠ lpRank) :
    directionTo lpRank x = portOf lpRank (HeapTree.nextHop lpRank x) := if_neg h

theorem directionTo_of_adj {x : Nat} (h : HeapTree.Adj lpRank x) :
    directionTo lpRank x = portOf lpRank x := by
  rw [directionTo_of_ne (Ne.symm h.ne), HeapTree.nextHop_of_adj h]

/-- The entries are right, and those of the neighbours and of the CLPs before `k` are there. -/
structure ClpsTo (lpRank numberOfClps k : Nat) (p : Ports) : Prop where
  right : ∀ x d, x < numberOfClps → p.rankToDirectionMap[x]? = some d →
    d = directionTo lpRank x
  present : ∀ x, x < numberOfClps → x < k ∨ x = lpRank ∨ HeapTree.Adj lpRank x →
    ∃ d, p.rankToDirectionMap[x]? = some d

theorem NeighboursTo.clpsTo {p : Ports} (h : NeighboursTo lpRank numberOfClps p) :
    ClpsTo lpRank numberOfClps 0 p := by
  constructor
  · intro x d _ hx
    cases (h x d).mp hx with
    | inl hself => rw [hself.1, hself.2, directionTo_self]
    | inr hadj => rw [hadj.2.2, directionTo_of_adj hadj.2.1]
  · intro x hx hcase
    rcases hcase with hlt | hself | hadj
    · exact absurd hlt (Nat.not_lt_zero x)
    · exact ⟨_, (h x .HERE).mpr (.inl ⟨hself, rfl⟩)⟩
    · exact ⟨_, (h x _).mpr (.inr ⟨hx, hadj, rfl⟩)⟩

/-- `rank` gets the entry of a rank that is there. -/
theorem getElem?_follow {p : Ports} {rank nextRank : Nat} {d : Direction}
    (hnext : p.rankToDirectionMap[nextRank]? = some d) (x : Nat) :
    (p.follow rank nextRank).rankToDirectionMap[x]? =
      if rank = x then some d else p.rankToDirectionMap[x]? := by
  have hmem : nextRank ∈ p.rankToDirectionMap := by
    rw [Std.TreeMap.mem_iff_isSome_getElem?, hnext]
    rfl
  simp only [Ports.follow, lookUp, Std.TreeMap.getElem?_insert, Std.TreeMap.getElem?_insertIfNew,
    Std.LawfulEqCmp.compare_eq_iff_eq, hmem, not_true, and_false, if_false,
    Std.TreeMap.getD_eq_getD_getElem?, hnext, Option.getD_some]

theorem addRemoteClp_ranks {p p' : Ports} {k : Nat}
    (htable : ∀ x, x < numberOfClps →
      ∃ info, forwardingTable[x]? = some info ∧ ForwardingTable.Describes lpRank x info)
    (hrank : lpRank < numberOfClps) (hk : k < numberOfClps)
    (h : ClpsTo lpRank numberOfClps k p)
    (hstep : Ports.addRemoteClp forwardingTable p k = some p') :
    ClpsTo lpRank numberOfClps (k + 1) p' := by
  have hsame : (∃ d, p.rankToDirectionMap[k]? = some d) → ClpsTo lpRank numberOfClps (k + 1) p := by
    intro hd
    refine ⟨h.right, fun x hx hcase => ?_⟩
    by_cases hxk : x = k
    · exact hxk ▸ hd
    · exact h.present x hx (hcase.imp_left fun hlt => by omega)
  simp only [Ports.addRemoteClp] at hstep
  split at hstep
  · rename_i hcontains
    cases hstep
    rw [← Std.TreeMap.isSome_getElem?_eq_contains] at hcontains
    exact hsame (Option.isSome_iff_exists.mp hcontains)
  · rename_i hcontains
    have habsent : ¬ ∃ d, p.rankToDirectionMap[k]? = some d := by
      rw [← Std.TreeMap.isSome_getElem?_eq_contains] at hcontains
      exact fun hd => hcontains (Option.isSome_iff_exists.mpr hd)
    have hself : k ≠ lpRank := fun heq => habsent (h.present k hk (.inr (.inl heq)))
    have hadj : ¬ HeapTree.Adj lpRank k := fun hadj => habsent (h.present k hk (.inr (.inr hadj)))
    obtain ⟨info, hinfo, hnext, hhops⟩ := htable k hk
    simp only [hinfo, Option.bind_eq_bind, Option.bind_some, hnext hself] at hstep
    split at hstep
    · cases hstep
      have hadjNext := HeapTree.adj_nextHop (Ne.symm hself)
      have hlt : HeapTree.nextHop lpRank k < numberOfClps := by
        have := HeapTree.nextHop_le_max lpRank k
        omega
      obtain ⟨d, hd⟩ := h.present _ hlt (.inr (.inr hadjNext))
      have hdirection : d = directionTo lpRank k := by
        rw [h.right _ d hlt hd, directionTo_of_adj hadjNext, directionTo_of_ne hself]
      constructor
      · intro x d' hx hd'
        rw [getElem?_follow hd] at hd'
        split at hd'
        · rename_i hkx
          rw [← hkx, ← hdirection]
          exact (Option.some.inj hd').symm
        · exact h.right x d' hx hd'
      · intro x hx hcase
        rw [getElem?_follow hd]
        split
        · exact ⟨d, rfl⟩
        · rename_i hkx
          exact h.present x hx (hcase.imp_left fun hlt => by omega)
    · rename_i hhop
      exact absurd (hhops.mp (by omega)) (by simp [hself, hadj])

/-- The entries of the ALPs before the `k`-th. -/
structure AlpsTo (lpRank numberOfClps : Nat) (alpToClpMap : Std.TreeMap Nat Nat) (k : Nat)
    (p : Ports) : Prop where
  assigned : Assigned lpRank numberOfClps p
  clp : ∀ x, x < numberOfClps → p.rankToDirectionMap[x]? = some (directionTo lpRank x)
  alp : ∀ a c, numberOfClps ≤ a → a < numberOfClps + k → alpToClpMap[a]? = some c →
    c < numberOfClps → c ≠ lpRank → p.rankToDirectionMap[a]? = some (directionTo lpRank c)
  ownAlp : ∀ a, numberOfClps ≤ a → a < numberOfClps + k → alpToClpMap[a]? = some lpRank →
    ∃ d, p.rankToDirectionMap[a]? = some d ∧ p.directionToRankMap d = some a

theorem addAlp_ranks {p p' : Ports} {alpToClpMap : Std.TreeMap Nat Nat} {k : Nat}
    (h : AlpsTo lpRank numberOfClps alpToClpMap k p)
    (hstep : Ports.addAlp lpRank alpToClpMap p (numberOfClps + k) = some p') :
    AlpsTo lpRank numberOfClps alpToClpMap (k + 1) p' := by
  obtain ⟨c, hc, hstep⟩ := Option.bind_eq_some_iff.mp hstep
  split at hstep
  · rename_i hown
    have hassigned := h.assigned.addNeighbour (Nat.le_add_right _ _) hstep
    obtain ⟨next, hnext, rfl⟩ := Option.map_eq_some_iff.mp hstep
    have hranks : ∀ x, (p.rankToDirectionMap.insert (numberOfClps + k) p.direction)[x]? =
        if numberOfClps + k = x then some p.direction else p.rankToDirectionMap[x]? := by
      intro x
      simp [Std.TreeMap.getElem?_insert]
    refine ⟨hassigned, fun x hx => ?_, fun a c' ha hak hca hcn hne => ?_, fun a ha hak hca => ?_⟩
    · rw [hranks, if_neg (by omega)]
      exact h.clp x hx
    · rw [hranks]
      split
      · rename_i heq
        rw [← heq, hc] at hca
        exact absurd (Option.some.inj hca ▸ hown) hne
      · exact h.alp a c' ha (by omega) hca hcn hne
    · rw [hranks]
      split
      · rename_i heq
        exact ⟨p.direction, rfl, by simp [heq]⟩
      · obtain ⟨d, hd, hda⟩ := h.ownAlp a ha (by omega) hca
        refine ⟨d, hd, ?_⟩
        have hne : d ≠ p.direction := by
          intro heq
          have hused := h.assigned.used d (by simp [hda])
          rw [heq] at hused
          exact Nat.lt_irrefl _ hused
        simpa [Function.update_apply, hne] using hda
  · rename_i hown
    obtain rfl : p.follow (numberOfClps + k) c = p' := Option.some.inj hstep
    have hkeep : ∀ x d, x ≠ numberOfClps + k → p.rankToDirectionMap[x]? = some d →
        (p.follow (numberOfClps + k) c).rankToDirectionMap[x]? = some d := by
      intro x d hx hd
      have hmem : x ∈ p.rankToDirectionMap := by
        rw [Std.TreeMap.mem_iff_isSome_getElem?, hd]
        rfl
      simp only [Ports.follow, lookUp, Std.TreeMap.getElem?_insert,
        Std.TreeMap.getElem?_insertIfNew, Std.LawfulEqCmp.compare_eq_iff_eq]
      rw [if_neg (Ne.symm hx), if_neg, hd]
      intro hcx
      exact hcx.2 (hcx.1 ▸ hmem)
    refine ⟨h.assigned.follow _ _, fun x hx => hkeep x _ (by omega) (h.clp x hx),
      fun a c' ha hak hca hcn hne => ?_, fun a ha hak hca => ?_⟩
    · by_cases haeq : a = numberOfClps + k
      · subst haeq
        obtain rfl : c = c' := Option.some.inj (hc.symm.trans hca)
        rw [getElem?_follow (h.clp c hcn), if_pos rfl]
      · exact hkeep a _ haeq (h.alp a c' ha (by omega) hca hcn hne)
    · have haeq : a ≠ numberOfClps + k := by
        intro heq
        rw [heq, hc] at hca
        exact hown (Option.some.inj hca)
      obtain ⟨d, hd, hda⟩ := h.ownAlp a ha (by omega) hca
      exact ⟨d, hkeep a d haeq hd, hda⟩

/-- The constructor gives every CLP and every ALP of the tree its direction. -/
theorem directs_create {initialisor : Initialisor} {t : RouteTable}
    (hrank : lpRank < numberOfClps) (h : create lpRank numberOfClps initialisor = some t) :
    Directs lpRank numberOfClps initialisor.alpToClpMap t := by
  obtain ⟨table, p₁, p₂, p₃, hdescribes, _, h₁, h₂, h₃, hranks, hports⟩ := create_phases hrank h
  have hassigned₁ := assigned_addClp hdescribes h₁
  have hassigned₂ : Assigned lpRank numberOfClps p₂ :=
    foldlM_invariant _ (fun _ _ _ _ => assigned_addRemoteClp) hassigned₁ h₂
  have hclps₁ := (addClp_ranks hdescribes (Nat.le_refl _) h₁).clpsTo
  rw [List.range_eq_range'] at h₂
  have hclps₂ : ClpsTo lpRank numberOfClps numberOfClps p₂ := by
    refine foldlM_range_invariant (ClpsTo lpRank numberOfClps) ?_ hclps₁ h₂
    intro k p p' hk hp hstep
    rw [Nat.zero_add] at hstep
    exact addRemoteClp_ranks hdescribes hrank hk hp hstep
  have hstart : AlpsTo lpRank numberOfClps initialisor.alpToClpMap 0 p₂ := by
    refine ⟨hassigned₂, fun x hx => ?_, fun a c _ _ => by omega, fun a _ _ => by omega⟩
    obtain ⟨d, hd⟩ := hclps₂.present x hx (.inl hx)
    rw [hd, hclps₂.right x d hx hd]
  obtain ⟨hassigned₃, hclp, halp, hown⟩ :=
    foldlM_range_invariant (AlpsTo lpRank numberOfClps initialisor.alpToClpMap)
      (fun _ _ _ _ hp hstep => addAlp_ranks hp hstep) hstart h₃
  constructor
  · intro x hx
    rw [getDirectionFromRank, hranks]
    exact hclp x hx
  · rw [hports]
    exact hassigned₃.lead
  · intro a c hge hlt hc hcn hne
    rw [getDirectionFromRank, hranks]
    exact halp a c hge hlt hc hcn hne
  · intro a hge hlt hc
    simp only [getDirectionFromRank, getRankFromDirection, hranks, hports]
    exact hown a hge hlt hc

end

end RouteTable
end PdesMas
