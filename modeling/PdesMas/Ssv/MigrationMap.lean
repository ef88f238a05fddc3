import Mathlib.Data.List.Perm.Basic
import PdesMas.Ssv.AccessCostCalculator

/-!
The migration map as the loops of `GetMigrationMap` build it, in machine words, over the
counters that any calls leave. The sum of the accesses is a `long` in the source, but
it is compared with a counter, and then both are unsigned.
-/

namespace PdesMas.AccessCostCalculator

/-- A counter as the `unsigned long` that it is. -/
def accessWord (a : AccessCostCalculator) (direction : Direction) (ssvId : SsvId) : UInt64 :=
  .ofNat (a.getAccessCount direction ssvId)

def hopWord (a : AccessCostCalculator) (direction : Direction) (ssvId : SsvId) : UInt64 :=
  .ofNat (a.getHopCount direction ssvId)

/-- The sum that a loop over the directions leaves. -/
def summed (f : Direction → UInt64) : UInt64 := ports.foldl (fun sum d => sum + f d) 0

def accessCostWord (a : AccessCostCalculator) (ssvId : SsvId) : UInt64 :=
  summed fun d => a.accessWord d ssvId

def portAccessCostWord (a : AccessCostCalculator) (ssvId : SsvId) : UInt64 :=
  summed fun d => a.accessWord d ssvId * a.hopWord d ssvId

/-- More than twice the accesses from elsewhere come from the direction. -/
def dominatesWord (a : AccessCostCalculator) (direction : Direction) (ssvId : SsvId) : Bool :=
  decide (a.accessWord direction ssvId >
    2 * (a.accessCostWord ssvId - a.accessWord direction ssvId))

def migratesWord (a : AccessCostCalculator) (direction : Direction) (ssvId : SsvId) : Bool :=
  decide (a.portAccessCostWord ssvId > .ofNat a.portThreshold) &&
    a.dominatesWord direction ssvId && (!a.isParentCLP || direction == .UP)

/-- The inner loop for one variable, which has no break. A list that is empty is not in the
map of the source. -/
def listForMigration (a : AccessCostCalculator) (lists : Direction → List SsvId) (ssvId : SsvId) :
    Direction → List SsvId :=
  ports.foldl
    (fun lists direction =>
      if a.migratesWord direction ssvId then
        fun d => if d = direction then lists d ++ [ssvId] else lists d
      else lists)
    lists

/-- `GetMigrationMap`. -/
def migrationMap (a : AccessCostCalculator) : List (Direction × List SsvId) :=
  let lists := a.ssvList.foldl a.listForMigration fun _ => []
  ports.filterMap fun d =>
    match lists d with
    | [] => none
    | ssvIds => some (d, ssvIds)

/-- The calls that change the counters. -/
inductive Call where
  | initialiseCounters (ssvId : SsvId)
  | updateAccessCount (direction : Direction) (accessCount : Nat) (ssvId : SsvId)
  | updateHopCount (direction : Direction) (hopCount : Nat) (ssvId : SsvId)
  | removeSsvAccessRecord (ssvId : SsvId)
  | removeSsvHopRecord (ssvId : SsvId)
  | removeSsvFromList (ssvId : SsvId)
deriving DecidableEq

def exec (a : AccessCostCalculator) : Call → AccessCostCalculator
  | .initialiseCounters ssvId => a.initialiseCounters ssvId
  | .updateAccessCount direction accessCount ssvId =>
      (a.updateAccessCount direction accessCount ssvId).2
  | .updateHopCount direction hopCount ssvId => (a.updateHopCount direction hopCount ssvId).2
  | .removeSsvAccessRecord ssvId => a.removeSsvAccessRecord ssvId
  | .removeSsvHopRecord ssvId => a.removeSsvHopRecord ssvId
  | .removeSsvFromList ssvId => a.removeSsvFromList ssvId

/-- The calculator after the calls. -/
def after (isParentCLP : Bool) (portThreshold : Nat) (calls : List Call) : AccessCostCalculator :=
  calls.foldl exec (create isParentCLP portThreshold)

variable {a : AccessCostCalculator} {d d' : Direction} {ssvId : SsvId}

theorem foldl_exec_nodup (h : a.ssvList.Nodup) (calls : List Call) :
    (calls.foldl exec a).ssvList.Nodup := by
  induction calls generalizing a with
  | nil => exact h
  | cons call calls ih =>
      refine ih ?_
      cases call with
      | initialiseCounters ssvId =>
          rw [exec, initialiseCounters_ssvList]
          split
          · exact h
          · next hnew => exact List.nodup_append.mpr ⟨h, List.nodup_singleton ssvId, by
            rintro id hid _ hnewId rfl
            exact hnew (List.mem_singleton.mp hnewId ▸ hid)⟩
      | updateAccessCount | updateHopCount | removeSsvAccessRecord | removeSsvHopRecord =>
          simpa [exec] using h
      | removeSsvFromList ssvId => exact h.erase ssvId

theorem nodup_after (isParentCLP : Bool) (portThreshold : Nat) (calls : List Call) :
    (after isParentCLP portThreshold calls).ssvList.Nodup :=
  foldl_exec_nodup (a := create isParentCLP portThreshold) List.nodup_nil calls

/-- A loop over some directions puts the variable in the lists of those it migrates to. -/
theorem foldl_directions_apply {l : List Direction} (hl : l.Nodup)
    (lists : Direction → List SsvId) (d : Direction) :
    l.foldl
        (fun lists direction =>
          if a.migratesWord direction ssvId then
            fun d => if d = direction then lists d ++ [ssvId] else lists d
          else lists)
        lists d =
      if d ∈ l ∧ a.migratesWord d ssvId then lists d ++ [ssvId] else lists d := by
  induction l generalizing lists with
  | nil => simp
  | cons direction l ih =>
      obtain ⟨hnot, hl⟩ := List.nodup_cons.mp hl
      rw [List.foldl_cons, ih hl]
      by_cases hd : d = direction
      · subst hd
        rw [if_neg fun h => hnot h.1]
        by_cases hmigrates : a.migratesWord d ssvId = true <;> simp [hmigrates]
      · have hlists : (if a.migratesWord direction ssvId then
            fun d => if d = direction then lists d ++ [ssvId] else lists d else lists) d =
              lists d := by
          split
          · exact if_neg hd
          · rfl
        simp only [hlists, List.mem_cons, hd, false_or]

theorem listForMigration_apply (lists : Direction → List SsvId) (hd : d ∈ ports) :
    a.listForMigration lists ssvId d =
      if a.migratesWord d ssvId then lists d ++ [ssvId] else lists d := by
  rw [listForMigration, foldl_directions_apply (by decide)]
  simp only [hd, true_and]

theorem foldl_listForMigration (l : List SsvId) (lists : Direction → List SsvId)
    (hd : d ∈ ports) :
    l.foldl a.listForMigration lists d = lists d ++ l.filter (a.migratesWord d) := by
  induction l generalizing lists with
  | nil => simp
  | cons ssvId l ih =>
      rw [List.foldl_cons, ih, listForMigration_apply lists hd, List.filter_cons]
      split <;> simp

theorem migrationMap_eq (a : AccessCostCalculator) :
    a.migrationMap = entries a.migratesWord a.ssvList := by
  refine List.filterMap_congr fun d hd => ?_
  cases hlist : a.ssvList.filter (a.migratesWord d) with
  | nil => simp only [foldl_listForMigration _ _ hd, List.nil_append, hlist]
  | cons ssvId rest => simp only [foldl_listForMigration _ _ hd, List.nil_append, hlist]

/-- The words are those of the sums, whatever their size. -/
theorem accessCostWord_eq (a : AccessCostCalculator) (ssvId : SsvId) :
    a.accessCostWord ssvId = .ofNat (a.ssvAccessCost ssvId) := by
  simp [accessCostWord, summed, ssvAccessCost, ports, accessWord, UInt64.ofNat_add, UInt64.add_assoc]

theorem portAccessCostWord_eq (a : AccessCostCalculator) (ssvId : SsvId) :
    a.portAccessCostWord ssvId = .ofNat (a.ssvPortAccessCost ssvId) := by
  simp [portAccessCostWord, summed, ssvPortAccessCost, ports, accessWord, hopWord,
    UInt64.ofNat_add, UInt64.ofNat_mul, UInt64.add_assoc]

theorem getAccessCount_le (a : AccessCostCalculator) (ssvId : SsvId) (hd : d ∈ ports) :
    a.getAccessCount d ssvId ≤ a.ssvAccessCost ssvId := by
  simp only [ports, List.mem_cons, List.not_mem_nil, or_false] at hd
  simp only [ssvAccessCost, ports, List.map_cons, List.map_nil, List.sum_cons, List.sum_nil]
  rcases hd with rfl | rfl | rfl <;> omega

/-- Below `2 ^ 62` accesses the comparison of the words is that of the numbers. -/
theorem dominatesWord_iff (hcount : a.ssvAccessCost ssvId < 2 ^ 62) (hd : d ∈ ports) :
    a.dominatesWord d ssvId = true ↔
      a.getAccessCount d ssvId > 2 * (a.ssvAccessCost ssvId - a.getAccessCount d ssvId) := by
  have hle := getAccessCount_le a ssvId hd
  have haccess : (a.accessWord d ssvId).toNat = a.getAccessCount d ssvId :=
    UInt64.toNat_ofNat_of_lt' (by simp only [UInt64.size]; omega)
  have hcost : (a.accessCostWord ssvId).toNat = a.ssvAccessCost ssvId := by
    rw [accessCostWord_eq]
    exact UInt64.toNat_ofNat_of_lt' (by simp only [UInt64.size]; omega)
  have hwords : a.accessWord d ssvId ≤ a.accessCostWord ssvId := by
    rw [UInt64.le_iff_toNat_le, haccess, hcost]
    exact hle
  have htwice : (2 * (a.accessCostWord ssvId - a.accessWord d ssvId)).toNat =
      2 * (a.ssvAccessCost ssvId - a.getAccessCount d ssvId) := by
    rw [UInt64.toNat_mul, UInt64.toNat_sub_of_le _ _ hwords, hcost, haccess]
    exact Nat.mod_eq_of_lt (by simp only [UInt64.toNat_ofNat]; omega)
  rw [dominatesWord, decide_eq_true_iff, gt_iff_lt, UInt64.lt_iff_toNat_lt, haccess, htwice]

theorem migratesWord_unique (hcount : a.ssvAccessCost ssvId < 2 ^ 62) (hd : d ∈ ports)
    (hd' : d' ∈ ports) (h : a.migratesWord d ssvId = true) (h' : a.migratesWord d' ssvId = true) :
    d = d' := by
  simp only [migratesWord, Bool.and_eq_true] at h h'
  exact dominant_unique hd hd' ((dominatesWord_iff hcount hd).mp h.1.2)
    ((dominatesWord_iff hcount hd').mp h'.1.2)

/-- As long as the counts do not come near the size of a word, the map is that of the numbers. -/
theorem migrationMap_eq_getMigrationMap (hthreshold : a.portThreshold < 2 ^ 64)
    (hcount : ∀ id ∈ a.ssvList, a.ssvAccessCost id < 2 ^ 62 ∧ a.ssvPortAccessCost id < 2 ^ 64) :
    a.migrationMap = a.getMigrationMap := by
  rw [migrationMap_eq]
  refine List.filterMap_congr fun d hd => ?_
  have hsame : a.ssvList.filter (a.migratesWord d) = a.ssvList.filter (a.migrates d) := by
    refine List.filter_congr fun id hid => ?_
    obtain ⟨haccess, hport⟩ := hcount id hid
    rw [migratesWord, migrates, portAccessCostWord_eq, Bool.eq_iff_iff, Bool.and_eq_true,
      Bool.and_eq_true, Bool.and_eq_true, Bool.and_eq_true, dominatesWord_iff haccess hd,
      decide_eq_true_iff, decide_eq_true_iff, decide_eq_true_iff, gt_iff_lt,
      UInt64.lt_iff_toNat_lt, UInt64.toNat_ofNat_of_lt' hport, UInt64.toNat_ofNat_of_lt' hthreshold]
  rw [hsame]

/-- The map lists variables of the calculator, each once. -/
theorem migrationMap_nodup (h : a.ssvList.Nodup)
    (hcount : ∀ id ∈ a.ssvList, a.ssvAccessCost id < 2 ^ 62) :
    (a.migrationMap.flatMap Prod.snd).Nodup ∧
      ∀ id ∈ a.migrationMap.flatMap Prod.snd, id ∈ a.ssvList := by
  rw [migrationMap_eq]
  exact entries_nodup h fun _ hd _ hd' id hid => migratesWord_unique (hcount id hid) hd hd'

end PdesMas.AccessCostCalculator
