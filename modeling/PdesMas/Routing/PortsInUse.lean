import PdesMas.Routing.Directions

/-!
The ports that a CLP uses: those to its neighbours among the CLPs, and one for each of
its own ALPs. Whatever direction a rank has, a rank is behind that port.
-/

namespace PdesMas.RouteTable

/-- The rank is that of an ALP of the CLP. -/
def OwnAlp (lpRank numberOfClps : Nat) (alpToClpMap : Std.TreeMap Nat Nat) (rank : Nat) : Prop :=
  numberOfClps ≤ rank ∧ rank < numberOfClps + alpToClpMap.size ∧ alpToClpMap[rank]? = some lpRank

instance (lpRank numberOfClps : Nat) (alpToClpMap : Std.TreeMap Nat Nat) (rank : Nat) :
    Decidable (OwnAlp lpRank numberOfClps alpToClpMap rank) := inferInstanceAs (Decidable (_ ∧ _))

/-- The ports in use lie between the first one and the next one to be given out. -/
structure InUse (lpRank numberOfClps : Nat) (alpToClpMap : Std.TreeMap Nat Nat) (p : Ports) :
    Prop where
  started : ordinal (Ports.start lpRank).direction ≤ ordinal p.direction
  between : ∀ d x, p.directionToRankMap d = some x →
    ordinal (Ports.start lpRank).direction ≤ ordinal d ∧ ordinal d < ordinal p.direction
  rank : ∀ d x, p.directionToRankMap d = some x →
    x < numberOfClps ∨ OwnAlp lpRank numberOfClps alpToClpMap x
  behind : ∀ (x : Nat) d, p.rankToDirectionMap[x]? = some d → d = .HERE ∨ p.directionToRankMap d ≠ none

section

variable {lpRank numberOfClps rank : Nat} {forwardingTable : ForwardingTable}
  {alpToClpMap : Std.TreeMap Nat Nat} {p p' : Ports} {initialisor : Initialisor} {t : RouteTable}

theorem inUse_start (lpRank numberOfClps : Nat) (alpToClpMap : Std.TreeMap Nat Nat) :
    InUse lpRank numberOfClps alpToClpMap (.start lpRank) := by
  refine ⟨Nat.le_refl _, nofun, nofun, fun x d hx => ?_⟩
  simp only [Ports.start, Std.TreeMap.getElem?_insert, Std.TreeMap.getElem?_emptyc] at hx
  split at hx
  · exact .inl (Option.some.inj hx).symm
  · cases hx

theorem InUse.addNeighbour (h : InUse lpRank numberOfClps alpToClpMap p)
    (hrank : rank < numberOfClps ∨ OwnAlp lpRank numberOfClps alpToClpMap rank)
    (hadd : p.addNeighbour rank = some p') : InUse lpRank numberOfClps alpToClpMap p' := by
  obtain ⟨next, hnext, rfl⟩ := Option.map_eq_some_iff.mp hadd
  have hlt := ordinal_next hnext
  have hstarted := h.started
  refine ⟨by dsimp only; omega, fun d x hx => ?_, fun d x hx => ?_, fun x d hx => ?_⟩
  · simp only [Function.update_apply] at hx ⊢
    split at hx
    · next hd =>
      subst hd
      exact ⟨hstarted, hlt⟩
    · have := h.between d x hx
      omega
  · simp only [Function.update_apply] at hx
    split at hx
    · exact Option.some.inj hx ▸ hrank
    · exact h.rank d x hx
  · simp only [Function.update_apply]
    split
    · exact .inr (Option.some_ne_none rank)
    · next hd =>
      simp only [Std.TreeMap.getElem?_insert, Std.LawfulEqCmp.compare_eq_iff_eq] at hx
      split at hx
      · exact absurd (Option.some.inj hx).symm hd
      · exact h.behind x d hx

theorem InUse.follow (h : InUse lpRank numberOfClps alpToClpMap p) (rank nextRank : Nat) :
    InUse lpRank numberOfClps alpToClpMap (p.follow rank nextRank) := by
  refine ⟨h.started, h.between, h.rank, fun x d hx => ?_⟩
  simp only [Ports.follow, lookUp, Std.TreeMap.getElem?_insert, Std.TreeMap.getElem?_insertIfNew,
    Std.LawfulEqCmp.compare_eq_iff_eq] at hx
  split at hx
  · obtain rfl := Option.some.inj hx
    rw [Std.TreeMap.getD_eq_getD_getElem?]
    cases hnext : p.rankToDirectionMap[nextRank]? with
    | none => exact .inl rfl
    | some d => exact h.behind nextRank d hnext
  · split at hx
    · exact .inl (Option.some.inj hx).symm
    · exact h.behind x d hx

theorem InUse.addClp (hx : rank < numberOfClps) (h : InUse lpRank numberOfClps alpToClpMap p)
    (hstep : Ports.addClp lpRank forwardingTable p rank = some p') :
    InUse lpRank numberOfClps alpToClpMap p' := by
  simp only [Ports.addClp] at hstep
  split at hstep
  · exact Option.some.inj hstep ▸ h
  · obtain ⟨info, _, hstep⟩ := Option.bind_eq_some_iff.mp hstep
    split at hstep
    · exact h.addNeighbour (.inl hx) hstep
    · exact Option.some.inj hstep ▸ h

theorem InUse.addRemoteClp (h : InUse lpRank numberOfClps alpToClpMap p)
    (hstep : Ports.addRemoteClp forwardingTable p rank = some p') :
    InUse lpRank numberOfClps alpToClpMap p' := by
  obtain rfl | ⟨nextRank, rfl⟩ := addRemoteClp_cases hstep
  · exact h
  · exact h.follow _ _

theorem InUse.addAlp (hle : numberOfClps ≤ rank) (hlt : rank < numberOfClps + alpToClpMap.size)
    (h : InUse lpRank numberOfClps alpToClpMap p)
    (hstep : Ports.addAlp lpRank alpToClpMap p rank = some p') :
    InUse lpRank numberOfClps alpToClpMap p' := by
  obtain ⟨clp, hclp, hstep⟩ := Option.bind_eq_some_iff.mp hstep
  split at hstep
  · next hown => exact h.addNeighbour (.inr ⟨hle, hlt, hown ▸ hclp⟩) hstep
  · exact Option.some.inj hstep ▸ h.follow _ _

/-- The ports of a route table. -/
structure UsesPorts (lpRank numberOfClps : Nat) (alpToClpMap : Std.TreeMap Nat Nat)
    (t : RouteTable) : Prop where
  port : ∀ d x, t.getRankFromDirection d = some x → d ≠ .HERE ∧ d ≠ .DIRECTION_SIZE ∧
    (lpRank = 0 → d ≠ .UP) ∧ (x < numberOfClps ∨ OwnAlp lpRank numberOfClps alpToClpMap x)
  behind : ∀ x d, t.getDirectionFromRank x = some d → d ≠ .HERE →
    ∃ y, t.getRankFromDirection d = some y

theorem usesPorts_create (h : create lpRank numberOfClps initialisor = some t) :
    UsesPorts lpRank numberOfClps initialisor.alpToClpMap t := by
  obtain ⟨table, _, h⟩ := Option.bind_eq_some_iff.mp h
  obtain ⟨ssvs, _, h⟩ := Option.bind_eq_some_iff.mp h
  obtain ⟨p₁, h₁, h⟩ := Option.bind_eq_some_iff.mp h
  obtain ⟨p₂, h₂, h⟩ := Option.bind_eq_some_iff.mp h
  obtain ⟨p₃, h₃, h⟩ := Option.bind_eq_some_iff.mp h
  cases h
  have hinUse₁ := foldlM_invariant (InUse lpRank numberOfClps initialisor.alpToClpMap)
    (fun _ _ _ hx => InUse.addClp (List.mem_range.mp hx)) (inUse_start _ _ _) h₁
  have hinUse₂ := foldlM_invariant _ (fun _ _ _ _ => InUse.addRemoteClp) hinUse₁ h₂
  obtain ⟨hstarted, hbetween, hrank, hbehind⟩ := foldlM_invariant _ (fun _ _ _ hx =>
    InUse.addAlp (List.mem_range'_1.mp hx).1 (List.mem_range'_1.mp hx).2) hinUse₂ h₃
  constructor
  · intro d x hx
    obtain ⟨hfirst, hlast⟩ := hbetween d x hx
    refine ⟨?_, ?_, ?_, hrank d x hx⟩
    · rintro rfl
      simp only [Ports.start] at hfirst
      split at hfirst <;> simp [ordinal] at hfirst
    · rintro rfl
      cases hdirection : p₃.direction <;> simp [hdirection, ordinal] at hlast
    · rintro rfl rfl
      simp [Ports.start, ordinal] at hfirst
  · intro x d hx hne
    exact Option.ne_none_iff_exists'.mp ((hbehind x d hx).resolve_left hne)

end

end PdesMas.RouteTable
