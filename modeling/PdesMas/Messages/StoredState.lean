import PdesMas.Messages.StoredValue

/-!
Write periods and state variables on their way to another CLP: what is read back is what
was written, as long as the counts fit and no string breaks, and nothing that was read
from a text has a larger count or a broken string.
-/

namespace PdesMas
open TextStream

def serialiseReads (reads : List (LpId × Nat)) : List Char :=
  serialiseList (entryText LpId.serialise decimal) reads

/-- `SerialisableMultiMap::Deserialise` for the reads of a write period, which come in the order
of the multimap. -/
def deserialiseReads : Reader (List (LpId × Nat)) :=
  deserialiseList (readEntry LpId.deserialise (extractUnsigned 64))

def WritePeriod.serialise (fmt : DoubleFormat) (p : WritePeriod AbstractValue) : List Char :=
  tuple [decimal p.startTime, decimal p.endTime, p.agent.serialise,
    serialiseReads p.agentReadMap, p.value.serialise fmt]

def WritePeriod.deserialise (fmt : DoubleFormat) : Reader (WritePeriod AbstractValue) := do
  let startTime ← opening (extractUnsigned 64)
  let endTime ← field (extractUnsigned 64)
  let agent ← field LpId.deserialise
  let agentReadMap ← field deserialiseReads
  let value ← readValueLine fmt
  pure ⟨startTime, endTime, value, agent, agentReadMap⟩

def StateVariable.serialise (fmt : DoubleFormat) (sv : StateVariable AbstractValue) : List Char :=
  tuple [serialiseSsvId sv.stateVariableID,
    serialiseList (WritePeriod.serialise fmt) sv.writePeriodList]

def StateVariable.deserialise (fmt : DoubleFormat) : Reader (StateVariable AbstractValue) := do
  let stateVariableID ← opening deserialiseSsvId
  let writePeriodList ← field (deserialiseList (WritePeriod.deserialise fmt))
  ignoreTo DELIM_RIGHT
  pure ⟨stateVariableID, writePeriodList⟩

/-- The numbers of a write period are in range. -/
structure WritePeriod.InRange (fmt : DoubleFormat) (p : WritePeriod AbstractValue) : Prop where
  startTime : p.startTime < 2 ^ 64
  endTime : p.endTime < 2 ^ 64
  agent : p.agent.InRange
  reads : ∀ r ∈ p.agentReadMap, r.1.InRange ∧ r.2 < 2 ^ 64
  value : p.value.Fits fmt

/-- The reads can be counted, and a string is not broken. -/
structure WritePeriod.Portable (p : WritePeriod AbstractValue) : Prop where
  reads : p.agentReadMap.length < 2 ^ 32
  value : p.value.Unbroken [DELIM_RIGHT, DELIM_LIST_RIGHT]

structure StateVariable.InRange (fmt : DoubleFormat) (sv : StateVariable AbstractValue) :
    Prop where
  stateVariableID : sv.stateVariableID < 2 ^ 64
  writePeriodList : ∀ p ∈ sv.writePeriodList, p.InRange fmt

structure StateVariable.Portable (sv : StateVariable AbstractValue) : Prop where
  writePeriods : sv.writePeriodList.length < 2 ^ 32
  writePeriodList : ∀ p ∈ sv.writePeriodList, p.Portable

section Reads
variable {fmt : DoubleFormat}

theorem reads_read {r : LpId × Nat} (h : r.1.InRange ∧ r.2 < 2 ^ 64) :
    Reads (Before DELIM_LIST_RIGHT) (readEntry LpId.deserialise (extractUnsigned 64))
      (entryText LpId.serialise decimal r) r := by
  apply reads_entry h.1.reads
  apply (reads_unsigned h.2).mono
  exact fun tail htail => closes_of_before (by decide) htail

theorem reads_reads {reads : List (LpId × Nat)} (h : ∀ r ∈ reads, r.1.InRange ∧ r.2 < 2 ^ 64)
    (hsize : reads.length < 2 ^ 32) :
    Reads Closes deserialiseReads (serialiseReads reads) reads :=
  reads_list (fun r hr => reads_read (h r hr)) hsize

/-- Each insertion into the multimap puts the read behind those before it. -/
theorem reads_multiMap {reads : List (LpId × Nat)} (h : ∀ r ∈ reads, r.1.InRange ∧ r.2 < 2 ^ 64)
    (hsize : reads.length < 2 ^ 32) (hsorted : MultiMap.Sorted LpId.lt reads) :
    Reads Closes
      (deserialiseContainer [] (fun m r => MultiMap.insert LpId.lt r.1 r.2 m)
        (readEntry LpId.deserialise (extractUnsigned 64)))
      (serialiseReads reads) reads := by
  have hread := reads_container [] (fun m r => MultiMap.insert LpId.lt r.1 r.2 m)
    (fun r hr => reads_read (h r hr)) hsize
  rwa [MultiMap.Sorted.foldl_insert (m := []) hsorted, List.nil_append] at hread

theorem WritePeriod.InRange.reads_portable {p : WritePeriod AbstractValue} (h : p.InRange fmt)
    (hp : p.Portable) :
    Reads (Before DELIM_LIST_RIGHT) (WritePeriod.deserialise fmt) (p.serialise fmt) p := by
  apply reads_tuple (reads_unsigned h.startTime)
  apply reads_field (reads_unsigned h.endTime)
  apply reads_field h.agent.reads
  apply reads_field (reads_reads h.reads hp.reads)
  have hvalue := (reads_valueLine h.value hp.value).bind
    (k := fun value => (Pure.pure (⟨p.startTime, p.endTime, value, p.agent, p.agentReadMap⟩ :
      WritePeriod AbstractValue) : Reader _)) (fun _ htail => htail) (Reads.pure p)
  rwa [List.append_nil] at hvalue

theorem StateVariable.InRange.reads_portable {next : List Char → Prop}
    {sv : StateVariable AbstractValue} (h : sv.InRange fmt) (hp : sv.Portable) :
    Reads next (StateVariable.deserialise fmt) (sv.serialise fmt) sv := by
  apply reads_tuple (reads_ssvId h.stateVariableID)
  apply reads_field
    (reads_list
      (fun p hmem => (h.writePeriodList p hmem).reads_portable (hp.writePeriodList p hmem))
      hp.writePeriods)
  exact reads_closing sv

end Reads

section Ensures
variable {fmt : DoubleFormat} {whole : List Char}

theorem ensures_opening {α : Type} {r : Reader α} {P : α → Prop} (h : Ensures whole r P) :
    Ensures whole (opening r) P := by
  apply (ensures_ignoreTo whole _).bind
  intro _ _
  exact h

theorem ensures_field {α : Type} {r : Reader α} {P : α → Prop} (h : Ensures whole r P) :
    Ensures whole (field r) P := by
  apply (ensures_ignoreTo whole _).bind
  intro _ _
  exact h

theorem ensures_closing {α : Type} {P : α → Prop} {a : α} (h : P a) :
    Ensures whole (do ignoreTo DELIM_RIGHT; pure a) P := by
  apply (ensures_ignoreTo whole _).bind
  intro _ _
  exact Ensures.pure h

theorem ensures_enumeration {α : Type} (whole : List Char) (cases? : Int → Option α) :
    Ensures whole (readEnumeration cases?) fun _ => True := by
  apply (ensures_extractSigned whole 31).bind
  intro number _
  cases cases? number with
  | none => exact Ensures.fail
  | some a => exact Ensures.pure trivial

theorem ensures_ssvId : Ensures whole deserialiseSsvId fun _ => True := by
  apply (ensures_opening (ensures_extractUnsigned whole 64)).bind
  intro id _
  exact ensures_closing trivial

theorem ensures_lpId : Ensures whole LpId.deserialise fun _ => True := by
  apply (ensures_opening (ensures_extractUnsigned whole 64)).bind
  intro identifier _
  apply (ensures_field (ensures_extractUnsigned whole 32)).bind
  intro rank _
  exact ensures_closing trivial

theorem ensures_reads :
    Ensures whole deserialiseReads fun reads => reads.length < 2 ^ 32 := by
  apply (ensures_list (ensures_entry ensures_lpId (ensures_extractUnsigned whole 64))).mono
  exact fun _ h => h.1

theorem ensures_writePeriod (hwhole : NUL ∉ whole) :
    Ensures whole (WritePeriod.deserialise fmt) WritePeriod.Portable := by
  apply (ensures_opening (ensures_extractUnsigned whole 64)).bind
  intro startTime _
  apply (ensures_field (ensures_extractUnsigned whole 64)).bind
  intro endTime _
  apply (ensures_field ensures_lpId).bind
  intro agent _
  apply (ensures_field ensures_reads).bind
  intro reads hreads
  apply (ensures_valueLine whole).bind
  intro value hvalue
  exact Ensures.pure ⟨hreads, hvalue.unbroken hwhole⟩

theorem ensures_stateVariable (hwhole : NUL ∉ whole) :
    Ensures whole (StateVariable.deserialise fmt) StateVariable.Portable := by
  apply (ensures_opening ensures_ssvId).bind
  intro id _
  apply (ensures_field (ensures_list (ensures_writePeriod hwhole))).bind
  intro periods hperiods
  exact ensures_closing ⟨hperiods.1, hperiods.2⟩

end Ensures
end PdesMas
