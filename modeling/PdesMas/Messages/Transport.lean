import PdesMas.Messages.WireMessage

/-!
Messages between processes. The sender hands its text over as a string of C, which ends
at the first null character, with its length as an `int`; the receiver takes it into a
buffer made for the message it has probed, makes a message of the type it finds and lets
it read the text.

A message of numbers is read as it was written when its containers can be counted in 32
bits. A string arrives when no character of it is taken for the end of a word or of a
value, or, inside a migrating variable, of a list element, and the text fits.
-/

namespace PdesMas
namespace Wire
open TextStream

inductive Message where
  | endMessage (m : EndMessage)
  | gvtControl (m : GvtControlMessage)
  | gvtRequest (m : GvtRequestMessage)
  | gvtValue (m : GvtValueMessage)
  | rangeQueryAnti (m : RangeQueryAntiMessage)
  | rangeQuery (m : RangeQueryMessage)
  | rangeUpdate (m : RangeUpdateMessage)
  | rollback (m : RollbackMessage)
  | singleReadAnti (m : SsvAntiMessage)
  | singleRead (m : SingleReadMessage)
  | singleReadResponse (m : SingleReadResponseMessage)
  | stateMigration (m : StateMigrationMessage)
  | writeAnti (m : SsvAntiMessage)
  | write (m : WriteMessage)
  | writeResponse (m : WriteResponseMessage)

namespace Message

/-- `GetType`. -/
def type : Message → PdesmasType
  | endMessage _ => .ENDMESSAGE
  | gvtControl _ => .GVTCONTROLMESSAGE
  | gvtRequest _ => .GVTREQUESTMESSAGE
  | gvtValue _ => .GVTVALUEMESSAGE
  | rangeQueryAnti _ => .RANGEQUERYANTIMESSAGE
  | rangeQuery _ => .RANGEQUERYMESSAGE
  | rangeUpdate _ => .RANGEUPDATEMESSAGE
  | rollback _ => .ROLLBACKMESSAGE
  | singleReadAnti _ => .SINGLEREADANTIMESSAGE
  | singleRead _ => .SINGLEREADMESSAGE
  | singleReadResponse _ => .SINGLEREADRESPONSEMESSAGE
  | stateMigration _ => .STATEMIGRATIONMESSAGE
  | writeAnti _ => .WRITEANTIMESSAGE
  | write _ => .WRITEMESSAGE
  | writeResponse _ => .WRITERESPONSEMESSAGE

def serialise (fmt : DoubleFormat) : Message → List Char
  | endMessage m => m.serialise
  | gvtControl m => m.serialise
  | gvtRequest m => m.serialise
  | gvtValue m => m.serialise
  | rangeQueryAnti m => m.serialise
  | rangeQuery m => m.serialise
  | rangeUpdate m => m.serialise
  | rollback m => m.serialise
  | singleReadAnti m => SingleReadAntiMessage.serialise m
  | singleRead m => m.serialise
  | singleReadResponse m => m.serialise fmt
  | stateMigration m => m.serialise fmt
  | writeAnti m => WriteAntiMessage.serialise m
  | write m => m.serialise fmt
  | writeResponse m => m.serialise

/-- `Deserialise` of the class of the message. -/
def deserialise (fmt : DoubleFormat) (type : PdesmasType) (text : List Char) : Option Message :=
  match type with
  | .ENDMESSAGE => (parse EndMessage.deserialise text).map .endMessage
  | .GVTCONTROLMESSAGE => (parse GvtControlMessage.deserialise text).map .gvtControl
  | .GVTREQUESTMESSAGE => (parse GvtRequestMessage.deserialise text).map .gvtRequest
  | .GVTVALUEMESSAGE => (parse GvtValueMessage.deserialise text).map .gvtValue
  | .RANGEQUERYANTIMESSAGE => (parse RangeQueryAntiMessage.deserialise text).map .rangeQueryAnti
  | .RANGEQUERYMESSAGE => (parse RangeQueryMessage.deserialise text).map .rangeQuery
  | .RANGEUPDATEMESSAGE => (parse RangeUpdateMessage.deserialise text).map .rangeUpdate
  | .ROLLBACKMESSAGE => (parse RollbackMessage.deserialise text).map .rollback
  | .SINGLEREADANTIMESSAGE => (parse SsvAntiMessage.deserialise text).map .singleReadAnti
  | .SINGLEREADMESSAGE => (parse SingleReadMessage.deserialise text).map .singleRead
  | .SINGLEREADRESPONSEMESSAGE =>
      (parse (SingleReadResponseMessage.deserialise fmt) text).map .singleReadResponse
  | .STATEMIGRATIONMESSAGE =>
      (parse (StateMigrationMessage.deserialise fmt) text).map .stateMigration
  | .WRITEANTIMESSAGE => (parse SsvAntiMessage.deserialise text).map .writeAnti
  | .WRITEMESSAGE => (parse (WriteMessage.deserialise fmt) text).map .write
  | .WRITERESPONSEMESSAGE => (parse WriteResponseMessage.deserialise text).map .writeResponse
  | .VALUEINT | .VALUEDOUBLE | .VALUEPOINT | .VALUESTRING | .VALUELONG => none

/-- `SendThread::Send`: the buffer is filled up to the end of the string of C. Where the
length is no `int`, no string of C is sent. -/
def send (fmt : DoubleFormat) (m : Message) : Option (List Char) :=
  let sendBuffer := (m.serialise fmt).takeWhile fun c => c != NUL
  let stringLength := sendBuffer.length + 1
  if toInt32 stringLength = stringLength then some sendBuffer else none

/-- The message that is made of a text. -/
def recreate (fmt : DoubleFormat) (text : List Char) : Option Message :=
  match getTypeID text with
  | some type => deserialise fmt type text
  | none => none

/-- `ReceiveThread::Receive`, where the message that was probed has `count` characters. It need
not be the one that is received, and one that is longer than the buffer ends the process. -/
def receive (fmt : DoubleFormat) (count : Nat) (text : List Char) : Option Message :=
  let receiveLength := if count > 65536 then count else 65536
  if text.length + 1 ≤ receiveLength then recreate fmt text else none

/-- The numbers of the message are in the range of their types. -/
def InRange (fmt : DoubleFormat) : Message → Prop
  | endMessage m => m.InRange
  | gvtControl m => m.InRange
  | gvtRequest m => m.toAbstractMessage.InRange
  | gvtValue m => m.InRange
  | rangeQueryAnti m => m.InRange
  | rangeQuery m => m.InRange
  | rangeUpdate m => m.InRange
  | rollback m => m.InRange
  | singleReadAnti m => m.InRange
  | singleRead m => m.InRange
  | singleReadResponse m => m.InRange fmt
  | stateMigration m => m.InRange fmt
  | writeAnti m => m.InRange
  | write m => m.InRange fmt
  | writeResponse m => m.InRange

/-- What the message carries for state variables. -/
def values : Message → List AbstractValue
  | singleReadResponse m => [m.value]
  | write m => [m.value]
  | stateMigration m =>
      m.stateVariableMap.toList.flatMap fun e => e.2.writePeriodList.map WritePeriod.value
  | _ => []

/-- No map or list of the message has 2^32 elements or more. -/
def Counted : Message → Prop
  | gvtControl m => m.messageCount.size < 2 ^ 32
  | rangeQuery m => m.ssvIdValueMap.size < 2 ^ 32
  | stateMigration m =>
      m.stateVariableMap.size < 2 ^ 32 ∧ ∀ e ∈ m.stateVariableMap.toList,
        e.2.writePeriodList.length < 2 ^ 32 ∧
          ∀ p ∈ e.2.writePeriodList, p.agentReadMap.length < 2 ^ 32
  | _ => True

/-- The text with the null character behind it goes through `send` and `receive`. -/
def FitsBuffers (fmt : DoubleFormat) (count : Nat) (m : Message) : Prop :=
  (m.serialise fmt).length + 1 < 2 ^ 31 ∧ (m.serialise fmt).length + 1 ≤ max count 65536

/-- The characters a string may not have: inside a migrating variable also the end of a
list element. -/
def delims : Message → List Char
  | stateMigration _ => [DELIM_RIGHT, DELIM_LIST_RIGHT]
  | _ => [DELIM_RIGHT]

end Message

end Wire

/-- A value of kind int, long or Point. -/
def AbstractValue.Numeric : AbstractValue → Prop
  | .valueINT _ | .valueLONG _ | .valuePOINT _ => True
  | .valueDOUBLE _ | .valueSTRING _ => False

theorem AbstractValue.Numeric.unbroken {v : AbstractValue} (h : v.Numeric) (delims : List Char) :
    v.Unbroken delims := by
  intro s hs
  subst hs
  cases h

namespace Wire
namespace Message
open TextStream

variable {fmt : DoubleFormat}

theorem getTypeID_serialise (m : Message) : getTypeID (m.serialise fmt) = some m.type := by
  cases m <;> exact getTypeID_tuple _ _ _

theorem portable_of_counted {m : StateMigrationMessage} (h : Counted (.stateMigration m))
    (hv : ∀ v ∈ (stateMigration m).values, v.Unbroken [DELIM_RIGHT, DELIM_LIST_RIGHT]) :
    ∀ e ∈ m.stateVariableMap.toList, e.2.Portable := by
  intro e he
  refine ⟨(h.2 e he).1, ?_⟩
  intro p hp
  refine ⟨(h.2 e he).2 p hp, ?_⟩
  apply hv
  exact List.mem_flatMap.mpr ⟨e, he, List.mem_map_of_mem hp⟩

/-- A message in range that can be counted and carries no broken string is read back. -/
theorem deserialise_serialise {m : Message} (h : m.InRange fmt) (hc : m.Counted)
    (hv : ∀ v ∈ m.values, v.Unbroken m.delims) :
    deserialise fmt m.type (m.serialise fmt) = some m := by
  cases m with
  | endMessage m => exact congrArg (Option.map _) ((EndMessage.InRange.reads h).parse rfl)
  | gvtControl m => exact congrArg (Option.map _) ((GvtControlMessage.InRange.reads h hc).parse rfl)
  | gvtRequest m => exact congrArg (Option.map _) ((GvtRequestMessage.reads h).parse rfl)
  | gvtValue m => exact congrArg (Option.map _) ((GvtValueMessage.InRange.reads h).parse rfl)
  | rangeQueryAnti m =>
      exact congrArg (Option.map _) ((RangeQueryAntiMessage.InRange.reads h).parse rfl)
  | rangeQuery m => exact congrArg (Option.map _) ((RangeQueryMessage.InRange.reads h hc).parse rfl)
  | rangeUpdate m => exact congrArg (Option.map _) ((RangeUpdateMessage.InRange.reads h).parse rfl)
  | rollback m => exact congrArg (Option.map _) ((RollbackMessage.InRange.reads h).parse rfl)
  | singleReadAnti m =>
      exact congrArg (Option.map _) ((SsvAntiMessage.InRange.reads h _).parse rfl)
  | singleRead m => exact congrArg (Option.map _) ((SingleReadMessage.InRange.reads h).parse rfl)
  | singleReadResponse m =>
      exact congrArg (Option.map _)
        ((SingleReadResponseMessage.InRange.reads h (hv m.value List.mem_cons_self)).parse rfl)
  | stateMigration m =>
      exact congrArg (Option.map _)
        ((StateMigrationMessage.InRange.reads h hc.1 (portable_of_counted hc hv)).parse rfl)
  | writeAnti m => exact congrArg (Option.map _) ((SsvAntiMessage.InRange.reads h _).parse rfl)
  | write m =>
      exact congrArg (Option.map _)
        ((WriteMessage.InRange.reads h (hv m.value List.mem_cons_self)).parse rfl)
  | writeResponse m =>
      exact congrArg (Option.map _) ((WriteResponseMessage.InRange.reads h).parse rfl)

section NullCharacters

theorem nul_mem_fields (texts : List (List Char)) :
    NUL ∈ fields texts ↔ ∃ text ∈ texts, NUL ∈ text := by
  induction texts with
  | nil => simp [fields, NUL, DELIM_RIGHT]
  | cons text texts ih =>
      have hne : NUL ≠ DELIM_VAR_SEPARATOR := by decide
      simp [fields, hne, ih]

theorem nul_mem_tuple (texts : List (List Char)) :
    NUL ∈ tuple texts ↔ ∃ text ∈ texts, NUL ∈ text := by
  cases texts with
  | nil => simp [tuple, NUL, DELIM_LEFT, DELIM_RIGHT]
  | cons text texts =>
      have hne : NUL ≠ DELIM_LEFT := by decide
      simp [tuple, hne, nul_mem_fields]

theorem nul_mem_elements {α : Type} (text : α → List Char) (l : List α) :
    NUL ∈ elements text l ↔ ∃ e ∈ l, NUL ∈ text e := by
  induction l with
  | nil => simp [elements]
  | cons e l ih =>
      have hleft : NUL ≠ DELIM_LIST_LEFT := by decide
      have hright : NUL ≠ DELIM_LIST_RIGHT := by decide
      simp [elements, hleft, hright, ih]

theorem nul_not_mem_decimal (n : Nat) : NUL ∉ decimal n := by
  intro h
  exact plain_ne_NUL.decimal n _ h rfl

theorem nul_mem_serialiseList {α : Type} (text : α → List Char) (l : List α) :
    NUL ∈ serialiseList text l ↔ ∃ e ∈ l, NUL ∈ text e := by
  simp [serialiseList, nul_not_mem_decimal, nul_mem_elements]

theorem nul_not_mem_ssvId (id : SsvId) : NUL ∉ serialiseSsvId id := by
  simp [serialiseSsvId, nul_mem_tuple, nul_not_mem_decimal]

theorem nul_not_mem_lpId (lp : LpId) : NUL ∉ lp.serialise := by
  simp [LpId.serialise, nul_mem_tuple, nul_not_mem_decimal]

theorem nul_not_mem_colour (colour : MatternColour) : NUL ∉ colour.serialise :=
  nul_not_mem_decimal _

theorem nul_not_mem_type (type : PdesmasType) : NUL ∉ type.serialise := nul_not_mem_decimal _

theorem nul_not_mem_value {v : AbstractValue} {delims : List Char} (hfits : v.Fits fmt)
    (h : v.Unbroken delims) : NUL ∉ v.serialise fmt := by
  have hdata : ∀ c ∈ v.data fmt, c ≠ NUL := by
    apply plain_ne_NUL.data
    · intro d hd c hc
      subst hd
      exact (hfits.print c hc).2.1
    · exact fun s hs c hc => (h s hs c hc).2.1
  intro hmem
  exact plain_ne_NUL.value hdata _ hmem rfl

theorem nul_not_mem_write {m : WriteMessage} (h : m.InRange fmt)
    (hv : m.value.Unbroken [DELIM_RIGHT]) : NUL ∉ m.serialise fmt := by
  simp [WriteMessage.serialise, messageText, nul_mem_tuple, nul_not_mem_decimal,
    nul_not_mem_type, nul_not_mem_colour, nul_not_mem_lpId, nul_not_mem_ssvId,
    nul_not_mem_value h.value hv]

theorem nul_not_mem_singleReadResponse {m : SingleReadResponseMessage} (h : m.InRange fmt)
    (hv : m.value.Unbroken [DELIM_RIGHT]) : NUL ∉ m.serialise fmt := by
  simp [SingleReadResponseMessage.serialise, messageText, nul_mem_tuple, nul_not_mem_decimal,
    nul_not_mem_type, nul_not_mem_colour, nul_not_mem_lpId, nul_not_mem_value h.value hv]

theorem nul_not_mem_writePeriod {p : WritePeriod AbstractValue} (h : p.InRange fmt)
    (hv : p.value.Unbroken [DELIM_RIGHT, DELIM_LIST_RIGHT]) : NUL ∉ p.serialise fmt := by
  have hne : NUL ≠ DELIM_LIST_LEFT := by decide
  simp [WritePeriod.serialise, serialiseReads, entryText, nul_mem_tuple, nul_mem_serialiseList,
    nul_not_mem_decimal, nul_not_mem_lpId, nul_not_mem_value h.value hv, hne]

theorem nul_not_mem_stateVariable {sv : StateVariable AbstractValue} (h : sv.InRange fmt)
    (hv : ∀ p ∈ sv.writePeriodList, p.value.Unbroken [DELIM_RIGHT, DELIM_LIST_RIGHT]) :
    NUL ∉ sv.serialise fmt := by
  have hperiods : ∀ p ∈ sv.writePeriodList, NUL ∉ p.serialise fmt := fun p hp =>
    nul_not_mem_writePeriod (h.writePeriodList p hp) (hv p hp)
  simpa [StateVariable.serialise, nul_mem_tuple, nul_mem_serialiseList, nul_not_mem_ssvId]
    using hperiods

theorem nul_not_mem_stateMigration {m : StateMigrationMessage} (h : m.InRange fmt)
    (hv : ∀ e ∈ m.stateVariableMap.toList, ∀ p ∈ e.2.writePeriodList,
      p.value.Unbroken [DELIM_RIGHT, DELIM_LIST_RIGHT]) : NUL ∉ m.serialise fmt := by
  have hne : NUL ≠ DELIM_LIST_LEFT := by decide
  have hvariables : ∀ e ∈ m.stateVariableMap.toList, NUL ∉ e.2.serialise fmt := fun e he =>
    nul_not_mem_stateVariable (h.stateVariableMap e he).2 (hv e he)
  simpa [StateMigrationMessage.serialise, messageText, serialiseMap, entryText, nul_mem_tuple,
    nul_mem_serialiseList, nul_not_mem_decimal, nul_not_mem_type, nul_not_mem_ssvId, hne]
    using hvariables

end NullCharacters

section Received

theorem ensures_write (whole : List Char) :
    Ensures whole (WriteMessage.deserialise fmt) fun m => m.value.Within whole [DELIM_RIGHT] := by
  apply (ensures_field (ensures_extractUnsigned whole 32)).bind
  intro origin _
  apply (ensures_field (ensures_extractUnsigned whole 32)).bind
  intro destination _
  apply (ensures_field (ensures_extractUnsigned whole 64)).bind
  intro timestamp _
  apply (ensures_field (ensures_enumeration whole _)).bind
  intro matternColour _
  apply (ensures_field (ensures_extractUnsigned whole 64)).bind
  intro numberOfHops _
  apply (ensures_field (ensures_extractUnsigned whole 64)).bind
  intro identifier _
  apply (ensures_field ensures_lpId).bind
  intro originalAgent _
  apply (ensures_field ensures_ssvId).bind
  intro ssvId _
  apply (ensures_field (ensures_valueWord whole)).bind
  intro value hvalue
  exact ensures_closing hvalue

theorem ensures_singleReadResponse (whole : List Char) :
    Ensures whole (SingleReadResponseMessage.deserialise fmt) fun m =>
      m.value.Within whole [DELIM_RIGHT] := by
  apply (ensures_field (ensures_extractUnsigned whole 32)).bind
  intro origin _
  apply (ensures_field (ensures_extractUnsigned whole 32)).bind
  intro destination _
  apply (ensures_field (ensures_extractUnsigned whole 64)).bind
  intro timestamp _
  apply (ensures_field (ensures_enumeration whole _)).bind
  intro matternColour _
  apply (ensures_field (ensures_extractUnsigned whole 64)).bind
  intro identifier _
  apply (ensures_field ensures_lpId).bind
  intro originalAgent _
  apply (ensures_field (ensures_valueWord whole)).bind
  intro value hvalue
  exact ensures_closing hvalue

theorem ensures_stateMigration {whole : List Char} (hwhole : NUL ∉ whole) :
    Ensures whole (StateMigrationMessage.deserialise fmt) fun m =>
      m.stateVariableMap.size < 2 ^ 32 ∧ ∀ e ∈ m.stateVariableMap.toList, e.2.Portable := by
  apply (ensures_field (ensures_extractUnsigned whole 32)).bind
  intro origin _
  apply (ensures_field (ensures_extractUnsigned whole 32)).bind
  intro destination _
  apply (ensures_field (ensures_map ensures_ssvId (ensures_stateVariable hwhole))).bind
  intro stateVariableMap hmap
  exact ensures_closing ⟨hmap.1, fun e he => (hmap.2 e he).2⟩

/-- The messages that carry values of state variables. -/
def Carries : Message → Prop
  | write _ | singleReadResponse _ | stateMigration _ => True
  | _ => False

theorem deserialise_type {type : PdesmasType} {text : List Char} {m : Message}
    (h : deserialise fmt type text = some m) : m.type = type := by
  cases type <;> simp only [deserialise, Option.map_eq_some_iff, reduceCtorEq] at h <;>
    · cases h with
      | intro _ h => rw [← h.2]; rfl

/-- Whatever text a message was made from, its containers have been counted in 32 bits
and its strings are whole. -/
theorem sound_of_recreate {text : List Char} {m : Message} (hc : m.Carries) (htext : NUL ∉ text)
    (h : recreate fmt text = some m) : m.Counted ∧ ∀ v ∈ m.values, v.Unbroken m.delims := by
  simp only [recreate] at h
  split at h
  · rename_i type _
    have htype := deserialise_type h
    subst htype
    cases m with
    | write m =>
        cases Option.map_eq_some_iff.mp h with
        | intro m' hm =>
            cases hm.2
            have hv := ((ensures_write text).parse hm.1).unbroken htext
            exact ⟨trivial, fun v hmem => List.mem_singleton.mp hmem ▸ hv⟩
    | singleReadResponse m =>
        cases Option.map_eq_some_iff.mp h with
        | intro m' hm =>
            cases hm.2
            have hv := ((ensures_singleReadResponse text).parse hm.1).unbroken htext
            exact ⟨trivial, fun v hmem => List.mem_singleton.mp hmem ▸ hv⟩
    | stateMigration m =>
        cases Option.map_eq_some_iff.mp h with
        | intro m' hm =>
            cases hm.2
            have hmap := (ensures_stateMigration htext).parse hm.1
            refine ⟨⟨hmap.1, fun e he => ⟨(hmap.2 e he).writePeriods,
              fun p hp => ((hmap.2 e he).writePeriodList p hp).reads⟩⟩, ?_⟩
            intro v hmem
            cases List.mem_flatMap.mp hmem with
            | intro e he =>
                cases List.mem_map.mp he.2 with
                | intro p hp => exact hp.2 ▸ ((hmap.2 e he.1).writePeriodList p hp.1).value
    | _ => cases hc
  · cases h

/-- What is sent is a string of C that `int` has a length for. -/
theorem send_eq_some_iff {m : Message} {text : List Char} : m.send fmt = some text ↔
    text = (m.serialise fmt).takeWhile (fun c => c != NUL) ∧ text.length + 1 < 2 ^ 31 := by
  have hint : ∀ n : Nat, toInt32 (n + 1 : Nat) = (n + 1 : Nat) ↔ n + 1 < 2 ^ 31 := by
    intro n
    rw [toInt32_eq_self_iff]
    omega
  simp only [send, Option.ite_none_right_eq_some, Option.some.injEq, hint]
  constructor
  · rintro ⟨hlength, rfl⟩
    exact ⟨rfl, hlength⟩
  · rintro ⟨rfl, hlength⟩
    exact ⟨hlength, rfl⟩

theorem receive_eq_some_iff {count : Nat} {text : List Char} {m : Message} :
    receive fmt count text = some m ↔
      text.length + 1 ≤ max count 65536 ∧ recreate fmt text = some m := by
  have hlength : (if count > 65536 then count else 65536) = max count 65536 := by
    split <;> omega
  simp only [receive, hlength, Option.ite_none_right_eq_some]

theorem nul_not_mem_sent (l : List Char) : NUL ∉ l.takeWhile fun c => c != NUL := by
  intro h
  have hne := List.mem_takeWhile_imp (p := fun c => c != NUL) h
  simp at hne

theorem sent_eq_serialise {m : Message} (h : m.InRange fmt) (hc : m.Carries)
    (hv : ∀ v ∈ m.values, v.Unbroken m.delims) :
    ((m.serialise fmt).takeWhile fun c => c != NUL) = m.serialise fmt := by
  have hnul : NUL ∉ m.serialise fmt := by
    cases m with
    | write m => exact nul_not_mem_write h (hv m.value List.mem_cons_self)
    | singleReadResponse m =>
        exact nul_not_mem_singleReadResponse h (hv m.value List.mem_cons_self)
    | stateMigration m =>
        apply nul_not_mem_stateMigration h
        intro e he p hp
        exact hv p.value (List.mem_flatMap.mpr ⟨e, he, List.mem_map_of_mem hp⟩)
    | _ => cases hc
  apply List.takeWhile_eq_self_iff.mpr
  intro c hmem
  simpa using fun heq : c = NUL => hnul (heq ▸ hmem)

end Received

section Instances

def migrated (periods : List (WritePeriod AbstractValue)) : Message :=
  .stateMigration
    { origin := 1, destination := 0, stateVariableMap := insertEntry ∅ (4, ⟨4, periods⟩) }

theorem mem_migrated {periods : List (WritePeriod AbstractValue)}
    {e : Nat × StateVariable AbstractValue}
    (h : e ∈ (insertEntry ∅ (4, ⟨4, periods⟩) :
      SerialisableMap (StateVariable AbstractValue)).toList) : e = (4, ⟨4, periods⟩) := by
  have hget := Std.ExtTreeMap.mem_toList_iff_getElem?_eq_some.mp h
  rw [insertEntry, Std.ExtTreeMap.getElem?_insertIfNew] at hget
  split at hget
  · rename_i hkey
    have hkey' : 4 = e.1 := Nat.compare_eq_eq.mp hkey.1
    exact Prod.ext hkey'.symm (Option.some.inj hget).symm
  · simp at hget

theorem mem_migrated_self (periods : List (WritePeriod AbstractValue)) :
    ((4, ⟨4, periods⟩) : Nat × StateVariable AbstractValue) ∈
      (insertEntry ∅ (4, ⟨4, periods⟩) :
        SerialisableMap (StateVariable AbstractValue)).toList := by
  apply Std.ExtTreeMap.mem_toList_iff_getElem?_eq_some.mpr
  rw [insertEntry, Std.ExtTreeMap.getElem?_insertIfNew]
  simp

theorem size_migrated (periods : List (WritePeriod AbstractValue)) :
    (insertEntry ∅ (4, ⟨4, periods⟩) :
      SerialisableMap (StateVariable AbstractValue)).size < 2 ^ 32 := by
  have h := size_foldl_insertEntry_le [(4, (⟨4, periods⟩ : StateVariable AbstractValue))] ∅
  simp only [List.foldl_cons, List.foldl_nil, Std.ExtTreeMap.size_empty, List.length_cons,
    List.length_nil] at h
  omega

theorem migrated_inRange {fmt : DoubleFormat} {periods : List (WritePeriod AbstractValue)}
    (h : ∀ p ∈ periods, p.InRange fmt) : (migrated periods).InRange fmt where
  origin := (by decide : 1 < 2 ^ 32)
  destination := (by decide : 0 < 2 ^ 32)
  stateVariableMap := by
    intro e he
    rw [mem_migrated he]
    exact ⟨(by decide : 4 < 2 ^ 64), ⟨(by decide : 4 < 2 ^ 64), h⟩⟩

theorem mem_values_migrated {periods : List (WritePeriod AbstractValue)} {v : AbstractValue}
    (h : v ∈ (migrated periods).values) : ∃ p ∈ periods, p.value = v := by
  cases List.mem_flatMap.mp h with
  | intro e he =>
      rw [mem_migrated he.1] at he
      exact List.mem_map.mp he.2

theorem counted_migrated {periods : List (WritePeriod AbstractValue)}
    (hsize : periods.length < 2 ^ 32) (hreads : ∀ p ∈ periods, p.agentReadMap.length < 2 ^ 32) :
    (migrated periods).Counted := by
  refine ⟨size_migrated periods, ?_⟩
  intro e he
  rw [mem_migrated he]
  exact ⟨hsize, hreads⟩

/-- Agent 7 of rank 2 has written `value` at time 3, and the same agent has read it. -/
def written (value : AbstractValue) : WritePeriod AbstractValue :=
  ⟨3, ULONG_MAX, value, ⟨7, 2⟩, [(⟨7, 2⟩, 3)]⟩

theorem written_inRange {fmt : DoubleFormat} {value : AbstractValue} (h : value.Fits fmt) :
    (written value).InRange fmt where
  startTime := (by decide : 3 < 2 ^ 64)
  endTime := (by decide : ULONG_MAX < 2 ^ 64)
  agent := ⟨(by decide : 7 < 2 ^ 64), (by decide : 2 < 2 ^ 32)⟩
  reads := by
    intro r hr
    rw [List.mem_singleton.mp hr]
    exact ⟨⟨(by decide : 7 < 2 ^ 64), (by decide : 2 < 2 ^ 32)⟩, (by decide : 3 < 2 ^ 64)⟩
  value := h

theorem point_fits (fmt : DoubleFormat) : (AbstractValue.valuePOINT ⟨-3, 5⟩).Fits fmt :=
  ⟨⟨by decide, by decide⟩, ⟨by decide, by decide⟩⟩

theorem mem_written {value : AbstractValue} {p : WritePeriod AbstractValue} {n : Nat}
    (h : p ∈ List.replicate n (written value)) : p = written value := List.eq_of_mem_replicate h

end Instances

section Results

/-- Every message type is found in its text, and a message whose values are of kind int,
long or Point and whose containers have fewer than 2^32 elements is restored from it. -/
theorem round_trip (fmt : DoubleFormat) (m : Message) (h : m.InRange fmt) (hc : m.Counted)
    (hv : ∀ v ∈ m.values, v.Numeric) :
    getTypeID (m.serialise fmt) = some m.type ∧
      deserialise fmt m.type (m.serialise fmt) = some m := by
  constructor
  · exact getTypeID_serialise m
  · exact deserialise_serialise h hc fun v hmem => (hv v hmem).unbroken m.delims

theorem round_trip_migration :
    let m := migrated (List.replicate 2 (written (.valuePOINT ⟨-3, 5⟩)))
    getTypeID (m.serialise noDoubles) = some .STATEMIGRATIONMESSAGE ∧
      deserialise noDoubles .STATEMIGRATIONMESSAGE (m.serialise noDoubles) = some m := by
  apply round_trip noDoubles
    (migrated (List.replicate 2 (written (.valuePOINT ⟨-3, 5⟩))))
  · exact migrated_inRange fun p hp => mem_written hp ▸ written_inRange (point_fits noDoubles)
  · apply counted_migrated
    · decide
    · intro p hp
      rw [mem_written hp]
      decide
  · intro v hv
    cases mem_values_migrated hv with
    | intro p hp =>
        rw [← hp.2, mem_written hp.1]
        trivial

/-- The count of a list with 2^32 write periods is written as 0. -/
theorem round_trip_loses_long_list :
    ¬ ∀ (fmt : DoubleFormat) (m : Message), m.InRange fmt → (∀ v ∈ m.values, v.Numeric) →
      getTypeID (m.serialise fmt) = some m.type ∧
        deserialise fmt m.type (m.serialise fmt) = some m := by
  intro hclaim
  let periods := List.replicate (2 ^ 32) (written (.valuePOINT ⟨-3, 5⟩))
  have hnumeric : ∀ v ∈ (migrated periods).values, v.Numeric := by
    intro v hv
    cases mem_values_migrated hv with
    | intro p hp =>
        rw [← hp.2, mem_written hp.1]
        trivial
  have hrange : (migrated periods).InRange noDoubles :=
    migrated_inRange fun p hp => mem_written hp ▸ written_inRange (point_fits noDoubles)
  have hrestored := hclaim noDoubles (migrated periods) hrange hnumeric
  have hnul : NUL ∉ (migrated periods).serialise noDoubles := by
    apply nul_not_mem_stateMigration hrange
    intro e he p hp
    apply (hnumeric p.value _).unbroken
    exact List.mem_flatMap.mpr ⟨e, he, List.mem_map_of_mem hp⟩
  have hrecreated : recreate noDoubles ((migrated periods).serialise noDoubles) =
      some (migrated periods) := by
    rw [recreate, hrestored.1]
    exact hrestored.2
  have hcarries : (migrated periods).Carries := trivial
  have hcounted := (sound_of_recreate hcarries hnul hrecreated).1.2
  have hlength := (hcounted _ (mem_migrated_self periods)).1
  rw [List.length_replicate] at hlength
  exact Nat.lt_irrefl _ hlength

/-- A message that carries values arrives as it was sent exactly when its text fits the
buffers, its containers have fewer than 2^32 elements and its strings hold no whitespace, no
null character, no closing bracket and, in a migrating variable, no end of a list element. -/
theorem strings_arrive_iff (fmt : DoubleFormat) (count : Nat) (m : Message) (h : m.InRange fmt)
    (hc : m.Carries) :
    (m.send fmt).bind (receive fmt count) = some m ↔
      m.FitsBuffers fmt count ∧ m.Counted ∧ ∀ v ∈ m.values, v.Unbroken m.delims := by
  rw [Option.bind_eq_some_iff]
  constructor
  · rintro ⟨text, hsend, hreceive⟩
    obtain ⟨rfl, hint⟩ := send_eq_some_iff.mp hsend
    obtain ⟨hbuffer, hrecreate⟩ := receive_eq_some_iff.mp hreceive
    have hsound := sound_of_recreate hc (nul_not_mem_sent _) hrecreate
    rw [sent_eq_serialise h hc hsound.2] at hint hbuffer
    exact ⟨⟨hint, hbuffer⟩, hsound⟩
  · rintro ⟨⟨hint, hbuffer⟩, hcounted, hunbroken⟩
    refine ⟨m.serialise fmt, send_eq_some_iff.mpr ⟨(sent_eq_serialise h hc hunbroken).symm, hint⟩,
      receive_eq_some_iff.mpr ⟨hbuffer, ?_⟩⟩
    rw [recreate, getTypeID_serialise]
    exact deserialise_serialise h hcounted hunbroken

theorem written_string_inRange (s : String) :
    (migrated [written (.valueSTRING s)]).InRange noDoubles := by
  apply migrated_inRange
  intro p hp
  rw [List.mem_singleton.mp hp]
  exact written_inRange trivial

theorem written_string_counted (s : String) :
    (migrated [written (.valueSTRING s)]).Counted := by
  apply counted_migrated
  · change 1 < 2 ^ 32
    decide
  · intro p hp
    rw [List.mem_singleton.mp hp]
    change 1 < 2 ^ 32
    decide

theorem written_string_mem (s : String) :
    .valueSTRING s ∈ (migrated [written (.valueSTRING s)]).values := by
  apply List.mem_flatMap.mpr
  refine ⟨_, mem_migrated_self _, List.mem_map.mpr ⟨written (.valueSTRING s), ?_, rfl⟩⟩
  exact List.mem_singleton.mpr rfl

theorem strings_arrive_plain :
    ((migrated [written (.valueSTRING "0-12#")]).send noDoubles).bind (receive noDoubles 0) =
      some (migrated [written (.valueSTRING "0-12#")]) := by
  apply (strings_arrive_iff noDoubles 0 (migrated [written (.valueSTRING "0-12#")])
    (written_string_inRange "0-12#") trivial).mpr
  refine ⟨?_, written_string_counted "0-12#", ?_⟩
  · have hlength : ((migrated [written (.valueSTRING "0-12#")]).serialise noDoubles).length < 100 := by
      decide +kernel
    constructor <;> omega
  · intro v hv
    cases mem_values_migrated hv with
    | intro p hp =>
        rw [← hp.2, List.mem_singleton.mp hp.1]
        intro s hs
        cases hs
        decide

/-- A letter the way mailboxes hold it, with its sender and its time, is cut at the first
of its own separators when the variable migrates. -/
theorem letter_cut_on_migration :
    ¬ ∀ (fmt : DoubleFormat) (count : Nat) (m : Message), m.InRange fmt → m.Carries →
      m.FitsBuffers fmt count → m.Counted → (m.send fmt).bind (receive fmt count) = some m := by
  intro hclaim
  have hcarries : (migrated [written (.valueSTRING "7@3@0-12#")]).Carries := trivial
  have hlength : ((migrated [written (.valueSTRING "7@3@0-12#")]).serialise noDoubles).length <
      100 := by decide +kernel
  have hfits : (migrated [written (.valueSTRING "7@3@0-12#")]).FitsBuffers noDoubles 0 := by
    constructor <;> omega
  have harrives := hclaim noDoubles 0 (migrated [written (.valueSTRING "7@3@0-12#")])
    (written_string_inRange "7@3@0-12#") hcarries hfits (written_string_counted "7@3@0-12#")
  obtain ⟨text, hsend, hreceive⟩ := Option.bind_eq_some_iff.mp harrives
  obtain ⟨rfl, _⟩ := send_eq_some_iff.mp hsend
  have hunbroken := (sound_of_recreate hcarries (nul_not_mem_sent _)
    (receive_eq_some_iff.mp hreceive).2).2 (.valueSTRING "7@3@0-12#") (written_string_mem "7@3@0-12#")
  have hmem : DELIM_LIST_RIGHT ∈ "7@3@0-12#".toList := by decide
  have hseparator := hunbroken "7@3@0-12#" rfl DELIM_LIST_RIGHT hmem
  exact hseparator.2.2 (List.mem_cons_of_mem _ List.mem_cons_self)

end Results

end Message
end Wire
end PdesMas
