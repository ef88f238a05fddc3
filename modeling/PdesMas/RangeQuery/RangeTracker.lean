import Std.Data.TreeMap.Lemmas
import PdesMas.Lp.LpId
import PdesMas.Types.Value

/-!
The range queries a CLP has seen and not yet answered. An entry knows the port
the query came in by, which ports are still to be scanned and what has been
collected; calls for an identifier without an entry do nothing.
-/

namespace PdesMas

/-- The map of a range query's answer. -/
abbrev PointMap := Std.TreeMap SsvId Point

namespace PointMap

/-- The loop of `AddToSSVValueMap`; `insert` leaves what is there. -/
def addAll (m valueList : PointMap) : PointMap :=
  valueList.toList.foldl (fun m e => m.insertIfNew e.1 e.2) m

private theorem getElem?_foldl_insertIfNew (l : List (SsvId × Point)) (m : PointMap)
    (id : SsvId) :
    (l.foldl (fun m e => m.insertIfNew e.1 e.2) m)[id]? =
      m[id]?.or ((l.find? fun e => e.1 = id).map Prod.snd) := by
  induction l generalizing m with
  | nil => simp
  | cons e l ih =>
      rw [List.foldl_cons, ih, Std.TreeMap.getElem?_insertIfNew]
      by_cases he : e.1 = id
      · subst he
        cases hm : m[e.1]? with
        | none =>
            have hout : e.1 ∉ m := by simp [Std.TreeMap.mem_iff_isSome_getElem?, hm]
            simp [hout]
        | some point =>
            have hin : e.1 ∈ m := by simp [Std.TreeMap.mem_iff_isSome_getElem?, hm]
            simp [hin]
      · simp [he]

/-- What is there stays, and the other values are added. -/
theorem getElem?_addAll (m valueList : PointMap) (id : SsvId) :
    (m.addAll valueList)[id]? = m[id]?.or valueList[id]? := by
  rw [addAll, getElem?_foldl_insertIfNew]
  congr 1
  cases hid : valueList[id]? with
  | some point =>
      have hmem : (id, point) ∈ valueList.toList :=
        Std.TreeMap.mem_toList_iff_getElem?_eq_some.mpr hid
      have hsome : (valueList.toList.find? fun e => e.1 = id).isSome = true := by
        rw [List.find?_isSome]
        exact ⟨_, hmem, by simp⟩
      obtain ⟨e, he⟩ := Option.isSome_iff_exists.mp hsome
      have hkey : e.1 = id := by simpa using List.find?_some he
      have hvalue := Std.TreeMap.mem_toList_iff_getElem?_eq_some.mp (List.mem_of_find?_eq_some he)
      rw [hkey, hid] at hvalue
      rw [he, Option.map_some, Option.some.inj hvalue]
  | none =>
      rw [Option.map_eq_none_iff, List.find?_eq_none]
      intro e he hkey
      have hvalue := Std.TreeMap.mem_toList_iff_getElem?_eq_some.mp he
      have hkey' : e.1 = id := by simpa using hkey
      rw [hkey', hid] at hvalue
      cases hvalue

end PointMap

inductive ScanStatus where
  | AVOID_SCAN
  | NOT_SCANNED
  | SCANNED
deriving DecidableEq, Repr

/-- The ports, in the order of the loops over them. -/
def Direction.ports : List Direction := [.HERE, .UP, .LEFT, .RIGHT]

structure RQPortScanStatus where
  originPort : Direction
  numberOfHops : Nat
  portScanStatusMap : Direction → Option ScanStatus
  ssvValueMap : PointMap

namespace RQPortScanStatus

def create (originPort : Direction) (numberOfHops : Nat) (ssvValueMap : PointMap) :
    RQPortScanStatus where
  originPort := originPort
  numberOfHops := numberOfHops
  portScanStatusMap := fun port =>
    if port = .DIRECTION_SIZE then none
    else if port = originPort then some .AVOID_SCAN
    else some .NOT_SCANNED
  ssvValueMap := ssvValueMap

def setScanStatus (s : RQPortScanStatus) (port : Direction) (status : ScanStatus) :
    RQPortScanStatus :=
  { s with portScanStatusMap := fun p => if p = port then some status else s.portScanStatusMap p }

def getScanStatus (s : RQPortScanStatus) (port : Direction) : ScanStatus :=
  (s.portScanStatusMap port).getD .AVOID_SCAN

def addToSsvValueMap (s : RQPortScanStatus) (valueList : PointMap) : RQPortScanStatus :=
  { s with ssvValueMap := s.ssvValueMap.addAll valueList }

def increaseNumberOfHops (s : RQPortScanStatus) (numberOfHops : Nat) : RQPortScanStatus :=
  { s with numberOfHops := s.numberOfHops + numberOfHops }

def outstandingPorts (s : RQPortScanStatus) : List Direction :=
  Direction.ports.filter fun port => s.getScanStatus port = .NOT_SCANNED

@[simp] theorem mem_outstandingPorts {s : RQPortScanStatus} {port : Direction} :
    port ∈ s.outstandingPorts ↔
      port ∈ Direction.ports ∧ s.getScanStatus port = .NOT_SCANNED := by
  simp [outstandingPorts]

theorem getScanStatus_create (originPort port : Direction) (numberOfHops : Nat)
    (ssvValueMap : PointMap) :
    (create originPort numberOfHops ssvValueMap).getScanStatus port = .NOT_SCANNED ↔
      port ∈ Direction.ports ∧ port ≠ originPort := by
  have hports : port ∈ Direction.ports ↔ port ≠ .DIRECTION_SIZE := by
    cases port <;> decide
  rw [hports]
  by_cases hsize : port = .DIRECTION_SIZE
  · simp [create, getScanStatus, hsize]
  · by_cases horigin : port = originPort
    · subst horigin
      simp [create, getScanStatus, hsize]
    · simp [create, getScanStatus, hsize, horigin]

@[simp] theorem getScanStatus_setScanStatus (s : RQPortScanStatus) (port p : Direction)
    (status : ScanStatus) :
    (s.setScanStatus port status).getScanStatus p =
      if p = port then status else s.getScanStatus p := by
  simp only [setScanStatus, getScanStatus]
  split <;> rfl

end RQPortScanStatus

abbrev RangeTracker := Std.TreeMap Nat RQPortScanStatus

namespace RangeTracker

variable (t : RangeTracker) (identifier : Nat)

def hasEntry : Bool := t.contains identifier

def createEntry (ssvValueList : PointMap) (port : Direction) (numberOfHops : Nat) : RangeTracker :=
  t.insertIfNew identifier (.create port numberOfHops ssvValueList)

/-- The port the query came in by, `HERE` without an entry. -/
def deleteEntry : Direction × RangeTracker :=
  match t[identifier]? with
  | some s => (s.originPort, t.erase identifier)
  | none => (.HERE, t)

def increaseNumberOfHops (numberOfHops : Nat) : RangeTracker :=
  t.modify identifier (·.increaseNumberOfHops numberOfHops)

def getNumberOfHops : Nat := (t[identifier]?.map RQPortScanStatus.numberOfHops).getD 0

def getOutstandingPorts : List Direction :=
  (t[identifier]?.map RQPortScanStatus.outstandingPorts).getD []

def setPortToScanned (port : Direction) : RangeTracker :=
  t.modify identifier (·.setScanStatus port .SCANNED)

def addToSsvValueMap (ssvValueList : PointMap) : RangeTracker :=
  t.modify identifier (·.addToSsvValueMap ssvValueList)

def getCollectedSsvValueMap : PointMap :=
  (t[identifier]?.map RQPortScanStatus.ssvValueMap).getD ∅

section

variable {t : RangeTracker} {identifier : Nat} {s : RQPortScanStatus}

theorem hasEntry_eq_true : t.hasEntry identifier = true ↔ ∃ s, t[identifier]? = some s := by
  rw [hasEntry, ← Std.TreeMap.isSome_getElem?_eq_contains]
  exact Option.isSome_iff_exists

theorem hasEntry_eq_false : t.hasEntry identifier = false ↔ t[identifier]? = none := by
  rw [hasEntry, ← Std.TreeMap.isSome_getElem?_eq_contains]
  exact Option.isSome_eq_false_iff.trans Option.isNone_iff_eq_none

theorem getElem?_createEntry (habsent : t[identifier]? = none) (ssvValueList : PointMap)
    (port : Direction) (numberOfHops j : Nat) :
    (t.createEntry identifier ssvValueList port numberOfHops)[j]? =
      if identifier = j then some (.create port numberOfHops ssvValueList) else t[j]? := by
  have hnot : identifier ∉ t := by simp [Std.TreeMap.mem_iff_isSome_getElem?, habsent]
  rw [createEntry, Std.TreeMap.getElem?_insertIfNew]
  simp [hnot]

theorem getElem?_createEntry_of_ne {j : Nat} (hj : identifier ≠ j) (ssvValueList : PointMap)
    (port : Direction) (numberOfHops : Nat) :
    (t.createEntry identifier ssvValueList port numberOfHops)[j]? = t[j]? := by
  rw [createEntry, Std.TreeMap.getElem?_insertIfNew]
  simp [hj]

theorem getElem?_modify_of_ne {j : Nat} (hj : identifier ≠ j)
    (f : RQPortScanStatus → RQPortScanStatus) : (t.modify identifier f)[j]? = t[j]? := by
  simp [Std.TreeMap.getElem?_modify, hj]

theorem getElem?_deleteEntry (t : RangeTracker) (identifier j : Nat) :
    (t.deleteEntry identifier).2[j]? = if identifier = j then none else t[j]? := by
  rw [deleteEntry]
  split
  · simp [Std.TreeMap.getElem?_erase]
  · rename_i hnone
    split
    · rename_i heq
      rw [← heq, hnone]
    · rfl

theorem deleteEntry_of_some (h : t[identifier]? = some s) :
    (t.deleteEntry identifier).1 = s.originPort := by
  rw [deleteEntry, h]

theorem getOutstandingPorts_of_some (h : t[identifier]? = some s) :
    t.getOutstandingPorts identifier = s.outstandingPorts := by
  rw [getOutstandingPorts, h]
  rfl

theorem getOutstandingPorts_nodup (t : RangeTracker) (identifier : Nat) :
    (t.getOutstandingPorts identifier).Nodup := by
  rw [getOutstandingPorts]
  cases t[identifier]? with
  | none => exact List.nodup_nil
  | some s => exact List.Pairwise.filter _ (show Direction.ports.Nodup by decide)

theorem getCollectedSsvValueMap_of_some (h : t[identifier]? = some s) :
    t.getCollectedSsvValueMap identifier = s.ssvValueMap := by
  rw [getCollectedSsvValueMap, h]
  rfl

end

end RangeTracker
end PdesMas
