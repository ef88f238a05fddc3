import Mathlib.Data.Nat.Log
import PdesMas.Routing.PortsInUse
import PdesMas.Ssv.MigrationMap

/-!
Where the migration map sends variables. Accesses are counted in directions that the route
table gives for some rank. A CLP that the constructor does not take for one with ALPs
migrates in every direction, and one of its own ALPs may be there.
-/

namespace PdesMas.AccessCostCalculator

/-- `fIsParentCLP`: the CLP is on the last level of the tree. The logarithms are exact. -/
def parentTest (lpId numberOfClps : Nat) : Bool :=
  Nat.clog 2 (numberOfClps + 1) == Nat.clog 2 (lpId + 2)

/-- `fPortThreshold`: `2 * log2(pNumberOfClps)` without its fraction. -/
def thresholdOf (numberOfClps : Nat) : Nat := Nat.log 2 (numberOfClps ^ 2)

/-- The constructor, and the calls after it. -/
def countersOf (lpId numberOfClps : Nat) (calls : List Call) : AccessCostCalculator :=
  after (parentTest lpId numberOfClps) (thresholdOf numberOfClps) calls

/-- What is counted comes from a rank in that direction. -/
def CountsRoutes (t : RouteTable) (calls : List Call) : Prop :=
  ∀ direction count ssvId, Call.updateAccessCount direction count ssvId ∈ calls ∨
    Call.updateHopCount direction count ssvId ∈ calls →
      ∃ rank, t.getDirectionFromRank rank = some direction

variable {a : AccessCostCalculator} {d : Direction} {ssvId : SsvId} {calls : List Call}

theorem exec_isParentCLP (a : AccessCostCalculator) (call : Call) :
    (a.exec call).isParentCLP = a.isParentCLP := by
  cases call with
  | initialiseCounters | removeSsvFromList => rfl
  | updateAccessCount =>
      simp only [exec, updateAccessCount]
      split <;> rfl
  | updateHopCount =>
      simp only [exec, updateHopCount]
      split <;> rfl
  | removeSsvAccessRecord =>
      simp only [exec, removeSsvAccessRecord]
      split <;> rfl
  | removeSsvHopRecord =>
      simp only [exec, removeSsvHopRecord]
      split <;> rfl

theorem foldl_exec_isParentCLP (a : AccessCostCalculator) (calls : List Call) :
    (calls.foldl exec a).isParentCLP = a.isParentCLP := by
  induction calls generalizing a with
  | nil => rfl
  | cons call calls ih => exact (ih _).trans (exec_isParentCLP a call)

/-- Only its own calls raise a counter. -/
theorem exec_getAccessCount_le {call : Call} (hcall : ∀ n id, call ≠ .updateAccessCount d n id)
    (ssvId : SsvId) : (a.exec call).getAccessCount d ssvId ≤ a.getAccessCount d ssvId := by
  cases call with
  | initialiseCounters id =>
      simp only [exec, initialiseCounters, getAccessCount, setRecord]
      split
      · cases d <;> simp [initialCounterMap]
      · exact Nat.le_refl _
  | updateAccessCount direction n id =>
      have hd : d ≠ direction := fun hd => hcall n id (hd ▸ rfl)
      simp only [exec, updateAccessCount]
      split
      · simp only [addCount]
        cases hrecord : a.ssvPortAccessMap id with
        | none => exact Nat.le_refl _
        | some counters =>
            simp only [getAccessCount, setRecord]
            split
            · next heq =>
              subst heq
              simp [hrecord, hd]
            · exact Nat.le_refl _
      · exact Nat.le_refl _
  | updateHopCount direction n id =>
      simp only [exec, updateHopCount]
      split <;> exact Nat.le_refl _
  | removeSsvAccessRecord id =>
      simp only [exec, removeSsvAccessRecord]
      split
      · simp only [getAccessCount, setRecord]
        split
        · exact Nat.zero_le _
        · exact Nat.le_refl _
      · exact Nat.le_refl _
  | removeSsvHopRecord id =>
      simp only [exec, removeSsvHopRecord]
      split <;> exact Nat.le_refl _
  | removeSsvFromList id => exact Nat.le_refl _

theorem foldl_exec_getAccessCount_le (hcalls : ∀ n id, .updateAccessCount d n id ∉ calls)
    (ssvId : SsvId) : (calls.foldl exec a).getAccessCount d ssvId ≤ a.getAccessCount d ssvId := by
  induction calls generalizing a with
  | nil => exact Nat.le_refl _
  | cons call calls ih =>
      have hcall : ∀ n id, call ≠ .updateAccessCount d n id := fun n id heq =>
        hcalls n id (heq ▸ List.mem_cons_self)
      exact (ih fun n id hmem => hcalls n id (List.mem_cons_of_mem call hmem)).trans
        (exec_getAccessCount_le hcall ssvId)

/-- A direction that draws a variable has been counted. -/
theorem counted_of_migratesWord {isParentCLP : Bool} {portThreshold : Nat}
    (h : (after isParentCLP portThreshold calls).migratesWord d ssvId = true) :
    ∃ n id, .updateAccessCount d n id ∈ calls := by
  by_contra hnone
  have hle := foldl_exec_getAccessCount_le (a := create isParentCLP portThreshold)
    (fun n id hmem => hnone ⟨n, id, hmem⟩) ssvId
  have hzero : (after isParentCLP portThreshold calls).getAccessCount d ssvId = 0 :=
    Nat.le_zero.mp hle
  simp only [migratesWord, Bool.and_eq_true, dominatesWord, accessWord, hzero] at h
  simp at h

/-- The neighbour in the direction is a CLP. -/
def LeadsToClp (lpRank numberOfClps : Nat) (t : RouteTable) (direction : Direction) : Prop :=
  ∃ x, x < numberOfClps ∧ HeapTree.Adj lpRank x ∧ t.getRankFromDirection direction = some x

section Targets

variable {lpRank numberOfClps alp : Nat} {initialisor : Initialisor} {t : RouteTable}

open RouteTable in
/-- Level by level down to the last one, or without ALPs, each port in use has a CLP. -/
theorem leadsToClp_of_used (hrank : lpRank < numberOfClps)
    (h : RouteTable.create lpRank numberOfClps initialisor = some t)
    (hcondition : parentTest lpRank numberOfClps = true ∨
      ∀ alp, ¬ OwnAlp lpRank numberOfClps initialisor.alpToClpMap alp) {rank : Nat}
    (hdirection : t.getDirectionFromRank rank = some d) (hport : d ∈ ports)
    (hup : parentTest lpRank numberOfClps = true → d = .UP) :
    LeadsToClp lpRank numberOfClps t d := by
  have huses := usesPorts_create h
  have hlead := (directs_create hrank h).port
  have hhere : d ≠ .HERE := by
    rintro rfl
    exact absurd hport (by decide)
  obtain ⟨x, hx⟩ := huses.behind rank d hdirection hhere
  obtain ⟨_, _, hroot, hclp⟩ := huses.port d x hx
  rcases hcondition with htest | hnone
  · -- only the direction of the parent is left, and the root has none
    obtain rfl := hup htest
    have hnot : lpRank ≠ 0 := fun hzero => hroot hzero rfl
    have hadj : HeapTree.Adj lpRank ((lpRank - 1) / 2) := by
      simp only [HeapTree.Adj]
      omega
    refine ⟨(lpRank - 1) / 2, by omega, hadj, (hlead .UP _ (by omega)).mpr ⟨hadj, ?_⟩⟩
    grind [portOf]
  · have hlt : x < numberOfClps := hclp.resolve_right (hnone x)
    exact ⟨x, hlt, ((hlead d x hlt).mp hx).1, hx⟩

/-- Migrations go to neighbouring CLPs where each port in use has one. -/
theorem leadsToClp_of_counted (hrank : lpRank < numberOfClps)
    (h : RouteTable.create lpRank numberOfClps initialisor = some t)
    (hcondition : parentTest lpRank numberOfClps = true ∨
      ∀ alp, ¬ RouteTable.OwnAlp lpRank numberOfClps initialisor.alpToClpMap alp)
    (hcounts : CountsRoutes t calls) {e : Direction × List SsvId}
    (he : e ∈ (countersOf lpRank numberOfClps calls).migrationMap) :
    LeadsToClp lpRank numberOfClps t e.1 := by
  obtain ⟨direction, drawn⟩ := e
  rw [migrationMap_eq] at he
  obtain ⟨hport, rfl, hne⟩ := mem_entries he
  obtain ⟨ssvId, hmem⟩ := List.exists_mem_of_ne_nil _ hne
  have hmigrates := (List.mem_filter.mp hmem).2
  obtain ⟨n, id, hcall⟩ := counted_of_migratesWord hmigrates
  obtain ⟨rank, hdirection⟩ := hcounts direction n id (.inl hcall)
  refine leadsToClp_of_used hrank h hcondition hdirection hport fun htest => ?_
  have hparent : (countersOf lpRank numberOfClps calls).isParentCLP = true :=
    (foldl_exec_isParentCLP _ calls).trans htest
  simp only [migratesWord, hparent, Bool.and_eq_true] at hmigrates
  simpa using hmigrates.2

/-- One access in the direction, from far enough. -/
def oneAccess (direction : Direction) (portThreshold : Nat) : List Call :=
  [.initialiseCounters 0, .updateAccessCount direction 1 0,
    .updateHopCount direction (portThreshold + 1) 0]

theorem oneAccess_migrates {portThreshold : Nat} (hthreshold : portThreshold + 1 < 2 ^ 64)
    (hd : d ∈ ports) :
    (d, [0]) ∈ (after false portThreshold (oneAccess d portThreshold)).migrationMap := by
  let a := after false portThreshold (oneAccess d portThreshold)
  have hlist : a.ssvList = [0] := rfl
  have hthresholdOf : a.portThreshold = portThreshold := rfl
  have haccess : ∀ d', a.getAccessCount d' 0 = if d' = d then 1 else 0 := by
    intro d'
    simp only [ports, List.mem_cons, List.not_mem_nil, or_false] at hd
    rcases hd with rfl | rfl | rfl <;> cases d' <;> rfl
  have hhops : a.getHopCount d 0 = portThreshold + 1 := by
    simp only [ports, List.mem_cons, List.not_mem_nil, or_false] at hd
    rcases hd with rfl | rfl | rfl <;> exact Nat.zero_add _
  have hcost : a.ssvAccessCost 0 = 1 ∧ a.ssvPortAccessCost 0 = portThreshold + 1 := by
    simp only [ssvAccessCost, ssvPortAccessCost, haccess]
    simp only [ports, List.mem_cons, List.not_mem_nil, or_false] at hd
    rcases hd with rfl | rfl | rfl <;> simp [ports, hhops]
  have hmigrates : a.migratesWord d 0 = true := by
    have hdominates : a.dominatesWord d 0 = true := by
      rw [dominatesWord_iff (by omega) hd, haccess, if_pos rfl, hcost.1]
      decide
    rw [migratesWord, hdominates, portAccessCostWord_eq, hcost.2, hthresholdOf, Bool.and_true,
      Bool.and_eq_true, decide_eq_true_iff, gt_iff_lt, UInt64.lt_iff_toNat_lt,
      UInt64.toNat_ofNat_of_lt' hthreshold,
      UInt64.toNat_ofNat_of_lt' (Nat.lt_of_succ_lt hthreshold)]
    exact ⟨Nat.lt_succ_self _, rfl⟩
  rw [migrationMap_eq]
  refine List.mem_filterMap.mpr ⟨d, hd, ?_⟩
  rw [show (after false portThreshold (oneAccess d portThreshold)).ssvList = [0] from hlist,
    List.filter_cons_of_pos hmigrates, List.filter_nil]

/-- The number of CLPs is an `int`. -/
theorem thresholdOf_lt (hint : numberOfClps < 2 ^ 31) : thresholdOf numberOfClps + 1 < 2 ^ 64 := by
  have hlog : thresholdOf numberOfClps ≤ numberOfClps ^ 2 := Nat.log_le_self 2 _
  have hsquare : numberOfClps ^ 2 ≤ (2 ^ 31) ^ 2 := Nat.pow_le_pow_left hint.le 2
  omega

open RouteTable in
/-- An ALP of the CLP gets a variable that it uses most, unless the CLP is on the last level. -/
theorem ownAlp_drawn (hrank : lpRank < numberOfClps) (hint : numberOfClps < 2 ^ 31)
    (h : RouteTable.create lpRank numberOfClps initialisor = some t)
    (htest : parentTest lpRank numberOfClps = false)
    (halp : OwnAlp lpRank numberOfClps initialisor.alpToClpMap alp) :
    ∃ calls, CountsRoutes t calls ∧ ∃ e ∈ (countersOf lpRank numberOfClps calls).migrationMap,
      t.getRankFromDirection e.1 = some alp := by
  obtain ⟨hle, hlt, hown⟩ := halp
  obtain ⟨direction, hdirection, hback⟩ := (directs_create hrank h).ownAlp alp hle hlt hown
  obtain ⟨hhere, hsize, _⟩ := (usesPorts_create h).port direction alp hback
  have hport : direction ∈ ports := by
    cases direction <;> simp_all [ports]
  refine ⟨oneAccess direction (thresholdOf numberOfClps), ?_, (direction, [0]), ?_, hback⟩
  · rintro d n id hcall
    have hd : d = direction := by
      simp only [oneAccess, List.mem_cons, List.not_mem_nil] at hcall
      grind
    exact ⟨alp, hd ▸ hdirection⟩
  · rw [countersOf, htest]
    exact oneAccess_migrates (thresholdOf_lt hint) hport

open RouteTable in
/-- Migrations go to neighbouring CLPs, for any counters, exactly on the last level of the tree
and where no ALP is attached. -/
theorem targets_are_clps_iff (hrank : lpRank < numberOfClps) (hint : numberOfClps < 2 ^ 31)
    (h : RouteTable.create lpRank numberOfClps initialisor = some t) :
    (∀ calls, CountsRoutes t calls →
      ∀ e ∈ (countersOf lpRank numberOfClps calls).migrationMap,
        LeadsToClp lpRank numberOfClps t e.1) ↔
      parentTest lpRank numberOfClps = true ∨
        ∀ alp, ¬ OwnAlp lpRank numberOfClps initialisor.alpToClpMap alp := by
  constructor
  · intro hall
    by_contra hnot
    obtain ⟨htest, hown⟩ := not_or.mp hnot
    obtain ⟨alp, halp⟩ := not_forall_not.mp hown
    obtain ⟨calls, hcounts, e, he, hback⟩ :=
      ownAlp_drawn hrank hint h (Bool.not_eq_true _ ▸ htest) halp
    obtain ⟨x, hx, _, hto⟩ := hall calls hcounts e he
    have heq : alp = x := Option.some.inj (hback.symm.trans hto)
    have := halp.1
    omega
  · intro hcondition calls hcounts e he
    exact leadsToClp_of_counted hrank h hcondition hcounts he

/-- An ALP at CLP 2, which has no CLPs below it; there are four. -/
private def alpAtLeaf : Initialisor where
  clpToSsvMap := ∅
  alpToClpMap := (∅ : Std.TreeMap Nat Nat).insert 4 2
  clpSsvIdValueMap := ∅

private theorem create_alpAtLeaf : ∃ t, RouteTable.create 2 4 alpAtLeaf = some t ∧
    t.getDirectionFromRank 4 = some .LEFT ∧ t.getRankFromDirection .LEFT = some 4 := by
  have hcreated : ∃ t ∈ RouteTable.create 2 4 alpAtLeaf,
      t.getDirectionFromRank 4 = some .LEFT ∧ t.getRankFromDirection .LEFT = some 4 := by
    decide
  exact hcreated

theorem targets_are_clps_iff_leaf : ∃ t, RouteTable.create 2 4 alpAtLeaf = some t ∧
    ((∀ calls, CountsRoutes t calls → ∀ e ∈ (countersOf 2 4 calls).migrationMap,
        LeadsToClp 2 4 t e.1) ↔
      parentTest 2 4 = true ∨ ∀ alp, ¬ RouteTable.OwnAlp 2 4 alpAtLeaf.alpToClpMap alp) := by
  obtain ⟨t, ht, _⟩ := create_alpAtLeaf
  exact ⟨t, ht, targets_are_clps_iff (by decide) (by decide) ht⟩

/-- Two accesses of the ALP of a CLP without CLPs below send the variable to the ALP. -/
theorem variable_migrates_to_alp : ∃ t calls, RouteTable.create 2 4 alpAtLeaf = some t ∧
    CountsRoutes t calls ∧ (countersOf 2 4 calls).migrationMap = [(.LEFT, [7])] ∧
    t.getRankFromDirection .LEFT = some 4 ∧ ¬ LeadsToClp 2 4 t .LEFT := by
  obtain ⟨t, ht, hdirection, hback⟩ := create_alpAtLeaf
  refine ⟨t, [.initialiseCounters 7, .updateAccessCount .LEFT 2 7, .updateHopCount .LEFT 4 7], ht,
    ?_, by decide, hback, ?_⟩
  · intro d n id hcall
    have hd : d = .LEFT := by
      simp only [List.mem_cons, List.not_mem_nil] at hcall
      grind
    exact ⟨4, hd ▸ hdirection⟩
  · rintro ⟨x, hx, _, hto⟩
    have heq : 4 = x := Option.some.inj (hback.symm.trans hto)
    omega

end Targets

end PdesMas.AccessCostCalculator
