import PdesMas.Messages.StoredState

/-!
The fifteen messages as `Serialise` and `Deserialise` have them: field by field, in the
order of the text. The first field is looked for behind the first separator, which skips
the type.
-/

namespace PdesMas
namespace Wire
open TextStream

def messageText (type : PdesmasType) (texts : List (List Char)) : List Char :=
  tuple (type.serialise :: texts)

structure AbstractMessage where
  origin : Nat
  destination : Nat

structure SimulationMessage extends AbstractMessage where
  timestamp : Nat
  matternColour : MatternColour

structure EndMessage extends AbstractMessage where
  senderAlp : Nat

def EndMessage.serialise (m : EndMessage) : List Char :=
  messageText .ENDMESSAGE [decimal m.origin, decimal m.destination, decimal m.senderAlp]

def EndMessage.deserialise : Reader EndMessage := do
  let origin ← field (extractUnsigned 32)
  let destination ← field (extractUnsigned 32)
  let senderAlp ← field (extractUnsigned 32)
  ignoreTo DELIM_RIGHT
  pure { origin, destination, senderAlp }

structure GvtControlMessage extends AbstractMessage where
  messageMinimumTime : Nat
  redMessageTime : Nat
  matternCut : MatternCut
  messageCount : SerialisableMap Int

def GvtControlMessage.serialise (m : GvtControlMessage) : List Char :=
  messageText .GVTCONTROLMESSAGE [decimal m.origin, decimal m.destination,
    decimal m.messageMinimumTime, decimal m.redMessageTime, m.matternCut.serialise,
    serialiseMap decimal signedDecimal m.messageCount]

def GvtControlMessage.deserialise : Reader GvtControlMessage := do
  let origin ← field (extractUnsigned 32)
  let destination ← field (extractUnsigned 32)
  let messageMinimumTime ← field (extractUnsigned 64)
  let redMessageTime ← field (extractUnsigned 64)
  let matternCut ← field MatternCut.deserialise
  let messageCount ← field (deserialiseMap (extractUnsigned 32) (extractSigned 31))
  ignoreTo DELIM_RIGHT
  pure { origin, destination, messageMinimumTime, redMessageTime, matternCut, messageCount }

structure GvtRequestMessage extends AbstractMessage

def GvtRequestMessage.serialise (m : GvtRequestMessage) : List Char :=
  messageText .GVTREQUESTMESSAGE [decimal m.origin, decimal m.destination]

def GvtRequestMessage.deserialise : Reader GvtRequestMessage := do
  let origin ← field (extractUnsigned 32)
  let destination ← field (extractUnsigned 32)
  ignoreTo DELIM_RIGHT
  pure { origin, destination }

structure GvtValueMessage extends AbstractMessage where
  gvt : Nat

def GvtValueMessage.serialise (m : GvtValueMessage) : List Char :=
  messageText .GVTVALUEMESSAGE [decimal m.origin, decimal m.destination, decimal m.gvt]

def GvtValueMessage.deserialise : Reader GvtValueMessage := do
  let origin ← field (extractUnsigned 32)
  let destination ← field (extractUnsigned 32)
  let gvt ← field (extractUnsigned 64)
  ignoreTo DELIM_RIGHT
  pure { origin, destination, gvt }

structure RangeQueryAntiMessage extends SimulationMessage where
  numberOfHops : Nat
  rollbackTag : RollbackTag
  originalAgent : LpId
  range : Range
  identifier : Nat

def RangeQueryAntiMessage.serialise (m : RangeQueryAntiMessage) : List Char :=
  messageText .RANGEQUERYANTIMESSAGE [decimal m.origin, decimal m.destination,
    decimal m.timestamp, m.matternColour.serialise, decimal m.numberOfHops,
    m.rollbackTag.serialise, m.originalAgent.serialise, m.range.serialise, decimal m.identifier]

def RangeQueryAntiMessage.deserialise : Reader RangeQueryAntiMessage := do
  let origin ← field (extractUnsigned 32)
  let destination ← field (extractUnsigned 32)
  let timestamp ← field (extractUnsigned 64)
  let matternColour ← field MatternColour.deserialise
  let numberOfHops ← field (extractUnsigned 64)
  let rollbackTag ← field RollbackTag.deserialise
  let originalAgent ← field LpId.deserialise
  let range ← field Range.deserialise
  let identifier ← field (extractUnsigned 64)
  ignoreTo DELIM_RIGHT
  pure { origin, destination, timestamp, matternColour, numberOfHops, rollbackTag,
         originalAgent, range, identifier }

structure RangeQueryMessage extends SimulationMessage where
  numberOfHops : Nat
  identifier : Nat
  originalAgent : LpId
  range : Range
  numberOfTraverseHops : Nat
  ssvIdValueMap : SerialisableMap Point

def RangeQueryMessage.serialise (m : RangeQueryMessage) : List Char :=
  messageText .RANGEQUERYMESSAGE [decimal m.origin, decimal m.destination,
    decimal m.timestamp, m.matternColour.serialise, decimal m.numberOfHops,
    decimal m.identifier, m.originalAgent.serialise, m.range.serialise,
    decimal m.numberOfTraverseHops,
    serialiseMap serialiseSsvId serialisePointValue m.ssvIdValueMap]

def RangeQueryMessage.deserialise : Reader RangeQueryMessage := do
  let origin ← field (extractUnsigned 32)
  let destination ← field (extractUnsigned 32)
  let timestamp ← field (extractUnsigned 64)
  let matternColour ← field MatternColour.deserialise
  let numberOfHops ← field (extractUnsigned 64)
  let identifier ← field (extractUnsigned 64)
  let originalAgent ← field LpId.deserialise
  let range ← field Range.deserialise
  let numberOfTraverseHops ← field (extractUnsigned 32)
  let ssvIdValueMap ← field (deserialiseMap deserialiseSsvId deserialisePointValue)
  ignoreTo DELIM_RIGHT
  pure { origin, destination, timestamp, matternColour, numberOfHops, identifier,
         originalAgent, range, numberOfTraverseHops, ssvIdValueMap }

/-- A load balancing message, which has no colour. -/
structure RangeUpdateMessage extends AbstractMessage where
  timestamp : Nat
  range : Range

def RangeUpdateMessage.serialise (m : RangeUpdateMessage) : List Char :=
  messageText .RANGEUPDATEMESSAGE [decimal m.origin, decimal m.destination,
    decimal m.timestamp, m.range.serialise]

def RangeUpdateMessage.deserialise : Reader RangeUpdateMessage := do
  let origin ← field (extractUnsigned 32)
  let destination ← field (extractUnsigned 32)
  let timestamp ← field (extractUnsigned 64)
  let range ← field Range.deserialise
  ignoreTo DELIM_RIGHT
  pure { origin, destination, timestamp, range }

structure RollbackMessage extends SimulationMessage where
  rollbackTag : RollbackTag
  originalAgent : LpId

def RollbackMessage.serialise (m : RollbackMessage) : List Char :=
  messageText .ROLLBACKMESSAGE [decimal m.origin, decimal m.destination,
    decimal m.timestamp, m.matternColour.serialise, m.rollbackTag.serialise,
    m.originalAgent.serialise]

def RollbackMessage.deserialise : Reader RollbackMessage := do
  let origin ← field (extractUnsigned 32)
  let destination ← field (extractUnsigned 32)
  let timestamp ← field (extractUnsigned 64)
  let matternColour ← field MatternColour.deserialise
  let rollbackTag ← field RollbackTag.deserialise
  let originalAgent ← field LpId.deserialise
  ignoreTo DELIM_RIGHT
  pure { origin, destination, timestamp, matternColour, rollbackTag, originalAgent }

/-- The fields of the anti-messages of a read and of a write. -/
structure SsvAntiMessage extends SimulationMessage where
  numberOfHops : Nat
  rollbackTag : RollbackTag
  originalAgent : LpId
  ssvId : SsvId

def SsvAntiMessage.serialise (type : PdesmasType) (m : SsvAntiMessage) : List Char :=
  messageText type [decimal m.origin, decimal m.destination, decimal m.timestamp,
    m.matternColour.serialise, decimal m.numberOfHops, m.rollbackTag.serialise,
    m.originalAgent.serialise, serialiseSsvId m.ssvId]

def SsvAntiMessage.deserialise : Reader SsvAntiMessage := do
  let origin ← field (extractUnsigned 32)
  let destination ← field (extractUnsigned 32)
  let timestamp ← field (extractUnsigned 64)
  let matternColour ← field MatternColour.deserialise
  let numberOfHops ← field (extractUnsigned 64)
  let rollbackTag ← field RollbackTag.deserialise
  let originalAgent ← field LpId.deserialise
  let ssvId ← field deserialiseSsvId
  ignoreTo DELIM_RIGHT
  pure { origin, destination, timestamp, matternColour, numberOfHops, rollbackTag,
         originalAgent, ssvId }

def SingleReadAntiMessage.serialise (m : SsvAntiMessage) : List Char :=
  m.serialise .SINGLEREADANTIMESSAGE

def WriteAntiMessage.serialise (m : SsvAntiMessage) : List Char :=
  m.serialise .WRITEANTIMESSAGE

structure SingleReadMessage extends SimulationMessage where
  numberOfHops : Nat
  identifier : Nat
  originalAgent : LpId
  ssvId : SsvId

def SingleReadMessage.serialise (m : SingleReadMessage) : List Char :=
  messageText .SINGLEREADMESSAGE [decimal m.origin, decimal m.destination,
    decimal m.timestamp, m.matternColour.serialise, decimal m.numberOfHops,
    decimal m.identifier, m.originalAgent.serialise, serialiseSsvId m.ssvId]

def SingleReadMessage.deserialise : Reader SingleReadMessage := do
  let origin ← field (extractUnsigned 32)
  let destination ← field (extractUnsigned 32)
  let timestamp ← field (extractUnsigned 64)
  let matternColour ← field MatternColour.deserialise
  let numberOfHops ← field (extractUnsigned 64)
  let identifier ← field (extractUnsigned 64)
  let originalAgent ← field LpId.deserialise
  let ssvId ← field deserialiseSsvId
  ignoreTo DELIM_RIGHT
  pure { origin, destination, timestamp, matternColour, numberOfHops, identifier,
         originalAgent, ssvId }

structure SingleReadResponseMessage extends SimulationMessage where
  identifier : Nat
  originalAgent : LpId
  value : AbstractValue

def SingleReadResponseMessage.serialise (fmt : DoubleFormat) (m : SingleReadResponseMessage) :
    List Char :=
  messageText .SINGLEREADRESPONSEMESSAGE [decimal m.origin, decimal m.destination,
    decimal m.timestamp, m.matternColour.serialise, decimal m.identifier,
    m.originalAgent.serialise, m.value.serialise fmt]

def SingleReadResponseMessage.deserialise (fmt : DoubleFormat) :
    Reader SingleReadResponseMessage := do
  let origin ← field (extractUnsigned 32)
  let destination ← field (extractUnsigned 32)
  let timestamp ← field (extractUnsigned 64)
  let matternColour ← field MatternColour.deserialise
  let identifier ← field (extractUnsigned 64)
  let originalAgent ← field LpId.deserialise
  let value ← field (readValueWord fmt)
  ignoreTo DELIM_RIGHT
  pure { origin, destination, timestamp, matternColour, identifier, originalAgent, value }

structure StateMigrationMessage extends AbstractMessage where
  stateVariableMap : SerialisableMap (StateVariable AbstractValue)

def StateMigrationMessage.serialise (fmt : DoubleFormat) (m : StateMigrationMessage) :
    List Char :=
  messageText .STATEMIGRATIONMESSAGE [decimal m.origin, decimal m.destination,
    serialiseMap serialiseSsvId (StateVariable.serialise fmt) m.stateVariableMap]

def StateMigrationMessage.deserialise (fmt : DoubleFormat) : Reader StateMigrationMessage := do
  let origin ← field (extractUnsigned 32)
  let destination ← field (extractUnsigned 32)
  let stateVariableMap ←
    field (deserialiseMap deserialiseSsvId (StateVariable.deserialise fmt))
  ignoreTo DELIM_RIGHT
  pure { origin, destination, stateVariableMap }

structure WriteMessage extends SimulationMessage where
  numberOfHops : Nat
  identifier : Nat
  originalAgent : LpId
  ssvId : SsvId
  value : AbstractValue

def WriteMessage.serialise (fmt : DoubleFormat) (m : WriteMessage) : List Char :=
  messageText .WRITEMESSAGE [decimal m.origin, decimal m.destination, decimal m.timestamp,
    m.matternColour.serialise, decimal m.numberOfHops, decimal m.identifier,
    m.originalAgent.serialise, serialiseSsvId m.ssvId, m.value.serialise fmt]

def WriteMessage.deserialise (fmt : DoubleFormat) : Reader WriteMessage := do
  let origin ← field (extractUnsigned 32)
  let destination ← field (extractUnsigned 32)
  let timestamp ← field (extractUnsigned 64)
  let matternColour ← field MatternColour.deserialise
  let numberOfHops ← field (extractUnsigned 64)
  let identifier ← field (extractUnsigned 64)
  let originalAgent ← field LpId.deserialise
  let ssvId ← field deserialiseSsvId
  let value ← field (readValueWord fmt)
  ignoreTo DELIM_RIGHT
  pure { origin, destination, timestamp, matternColour, numberOfHops, identifier,
         originalAgent, ssvId, value }

structure WriteResponseMessage extends SimulationMessage where
  identifier : Nat
  originalAgent : LpId
  writeStatus : WriteStatus

def WriteResponseMessage.serialise (m : WriteResponseMessage) : List Char :=
  messageText .WRITERESPONSEMESSAGE [decimal m.origin, decimal m.destination,
    decimal m.timestamp, m.matternColour.serialise, decimal m.identifier,
    m.originalAgent.serialise, m.writeStatus.serialise]

def WriteResponseMessage.deserialise : Reader WriteResponseMessage := do
  let origin ← field (extractUnsigned 32)
  let destination ← field (extractUnsigned 32)
  let timestamp ← field (extractUnsigned 64)
  let matternColour ← field MatternColour.deserialise
  let identifier ← field (extractUnsigned 64)
  let originalAgent ← field LpId.deserialise
  let writeStatus ← field WriteStatus.deserialise
  ignoreTo DELIM_RIGHT
  pure { origin, destination, timestamp, matternColour, identifier, originalAgent, writeStatus }

section Ranges

structure AbstractMessage.InRange (m : AbstractMessage) : Prop where
  origin : m.origin < 2 ^ 32
  destination : m.destination < 2 ^ 32

structure SimulationMessage.InRange (m : SimulationMessage) : Prop
    extends toAbstract : m.toAbstractMessage.InRange where
  timestamp : m.timestamp < 2 ^ 64

structure EndMessage.InRange (m : EndMessage) : Prop extends toAbstract : m.toAbstractMessage.InRange where
  senderAlp : m.senderAlp < 2 ^ 32

structure GvtControlMessage.InRange (m : GvtControlMessage) : Prop
    extends toAbstract : m.toAbstractMessage.InRange where
  messageMinimumTime : m.messageMinimumTime < 2 ^ 64
  redMessageTime : m.redMessageTime < 2 ^ 64
  messageCount : ∀ e ∈ m.messageCount.toList, e.1 < 2 ^ 32 ∧ FitsSigned 31 e.2

structure GvtValueMessage.InRange (m : GvtValueMessage) : Prop
    extends toAbstract : m.toAbstractMessage.InRange where
  gvt : m.gvt < 2 ^ 64

structure RangeQueryAntiMessage.InRange (m : RangeQueryAntiMessage) : Prop
    extends toSimulation : m.toSimulationMessage.InRange where
  numberOfHops : m.numberOfHops < 2 ^ 64
  rollbackTag : m.rollbackTag.InRange
  originalAgent : m.originalAgent.InRange
  range : m.range.InRange
  identifier : m.identifier < 2 ^ 64

structure RangeQueryMessage.InRange (m : RangeQueryMessage) : Prop
    extends toSimulation : m.toSimulationMessage.InRange where
  numberOfHops : m.numberOfHops < 2 ^ 64
  identifier : m.identifier < 2 ^ 64
  originalAgent : m.originalAgent.InRange
  range : m.range.InRange
  numberOfTraverseHops : m.numberOfTraverseHops < 2 ^ 32
  ssvIdValueMap : ∀ e ∈ m.ssvIdValueMap.toList, e.1 < 2 ^ 64 ∧ e.2.InRange

structure RangeUpdateMessage.InRange (m : RangeUpdateMessage) : Prop
    extends toAbstract : m.toAbstractMessage.InRange where
  timestamp : m.timestamp < 2 ^ 64
  range : m.range.InRange

structure RollbackMessage.InRange (m : RollbackMessage) : Prop
    extends toSimulation : m.toSimulationMessage.InRange where
  rollbackTag : m.rollbackTag.InRange
  originalAgent : m.originalAgent.InRange

structure SsvAntiMessage.InRange (m : SsvAntiMessage) : Prop
    extends toSimulation : m.toSimulationMessage.InRange where
  numberOfHops : m.numberOfHops < 2 ^ 64
  rollbackTag : m.rollbackTag.InRange
  originalAgent : m.originalAgent.InRange
  ssvId : m.ssvId < 2 ^ 64

structure SingleReadMessage.InRange (m : SingleReadMessage) : Prop
    extends toSimulation : m.toSimulationMessage.InRange where
  numberOfHops : m.numberOfHops < 2 ^ 64
  identifier : m.identifier < 2 ^ 64
  originalAgent : m.originalAgent.InRange
  ssvId : m.ssvId < 2 ^ 64

structure SingleReadResponseMessage.InRange (fmt : DoubleFormat)
    (m : SingleReadResponseMessage) : Prop extends toSimulation : m.toSimulationMessage.InRange where
  identifier : m.identifier < 2 ^ 64
  originalAgent : m.originalAgent.InRange
  value : m.value.Fits fmt

structure StateMigrationMessage.InRange (fmt : DoubleFormat) (m : StateMigrationMessage) : Prop
    extends toAbstract : m.toAbstractMessage.InRange where
  stateVariableMap : ∀ e ∈ m.stateVariableMap.toList, e.1 < 2 ^ 64 ∧ e.2.InRange fmt

structure WriteMessage.InRange (fmt : DoubleFormat) (m : WriteMessage) : Prop
    extends toSimulation : m.toSimulationMessage.InRange where
  numberOfHops : m.numberOfHops < 2 ^ 64
  identifier : m.identifier < 2 ^ 64
  originalAgent : m.originalAgent.InRange
  ssvId : m.ssvId < 2 ^ 64
  value : m.value.Fits fmt

structure WriteResponseMessage.InRange (m : WriteResponseMessage) : Prop
    extends toSimulation : m.toSimulationMessage.InRange where
  identifier : m.identifier < 2 ^ 64
  originalAgent : m.originalAgent.InRange

end Ranges

section RoundTrip
variable {fmt : DoubleFormat}

theorem not_mem_type (type : PdesmasType) : DELIM_VAR_SEPARATOR ∉ type.serialise := by
  intro h
  cases isDigit_of_mem_decimal h

/-- The field a message ends with takes the closing bracket of the message for its own. -/
theorem reads_lastValue {α : Type} {v : AbstractValue} (hfits : v.Fits fmt)
    (hunbroken : v.Unbroken [DELIM_RIGHT]) (make : AbstractValue → α) :
    Reads AtEnd (field (readValueWord fmt) >>= fun value => do
      ignoreTo DELIM_RIGHT
      pure (make value)) (fields [v.serialise fmt]) (make v) := by
  have hend : Reads AtEnd (do ignoreTo DELIM_RIGHT; pure (make v)) ([] ++ []) (make v) :=
    (reads_ignoreTo_atEnd DELIM_RIGHT).bind (fun _ h => h) (Reads.pure (make v))
  have hread : Reads AtEnd (field (readValueWord fmt) >>= fun value => do
      ignoreTo DELIM_RIGHT
      pure (make value))
      (DELIM_VAR_SEPARATOR :: (v.serialise fmt ++ [DELIM_RIGHT] ++ ([] ++ []))) (make v) :=
    reads_separated (reads_valueWord hfits hunbroken) (fun _ h => h) hend
  rwa [List.append_nil, List.append_nil] at hread

theorem EndMessage.InRange.reads {m : EndMessage} (h : m.InRange) :
    Reads AtEnd EndMessage.deserialise m.serialise m := by
  apply reads_message (not_mem_type _) _ (List.cons_ne_nil _ _)
  apply reads_field (reads_unsigned h.origin)
  apply reads_field (reads_unsigned h.destination)
  apply reads_field (reads_unsigned h.senderAlp)
  exact reads_closing m

theorem GvtControlMessage.InRange.reads {m : GvtControlMessage} (h : m.InRange)
    (hsize : m.messageCount.size < 2 ^ 32) :
    Reads AtEnd GvtControlMessage.deserialise m.serialise m := by
  have hmap : Reads Closes (deserialiseMap (extractUnsigned 32) (extractSigned 31))
      (serialiseMap decimal signedDecimal m.messageCount) m.messageCount := by
    apply reads_map _ _ hsize
    · intro e he
      exact reads_unsigned (h.messageCount e he).1
    · intro e he
      apply (reads_fits (h.messageCount e he).2).mono
      exact fun tail htail => closes_of_before (by decide) htail
  apply reads_message (not_mem_type _) _ (List.cons_ne_nil _ _)
  apply reads_field (reads_unsigned h.origin)
  apply reads_field (reads_unsigned h.destination)
  apply reads_field (reads_unsigned h.messageMinimumTime)
  apply reads_field (reads_unsigned h.redMessageTime)
  apply reads_field (reads_matternCut m.matternCut)
  apply reads_field hmap
  exact reads_closing m

theorem GvtRequestMessage.reads {m : GvtRequestMessage} (h : m.toAbstractMessage.InRange) :
    Reads AtEnd GvtRequestMessage.deserialise m.serialise m := by
  apply reads_message (not_mem_type _) _ (List.cons_ne_nil _ _)
  apply reads_field (reads_unsigned h.origin)
  apply reads_field (reads_unsigned h.destination)
  exact reads_closing m

theorem GvtValueMessage.InRange.reads {m : GvtValueMessage} (h : m.InRange) :
    Reads AtEnd GvtValueMessage.deserialise m.serialise m := by
  apply reads_message (not_mem_type _) _ (List.cons_ne_nil _ _)
  apply reads_field (reads_unsigned h.origin)
  apply reads_field (reads_unsigned h.destination)
  apply reads_field (reads_unsigned h.gvt)
  exact reads_closing m

theorem RangeQueryAntiMessage.InRange.reads {m : RangeQueryAntiMessage} (h : m.InRange) :
    Reads AtEnd RangeQueryAntiMessage.deserialise m.serialise m := by
  apply reads_message (not_mem_type _) _ (List.cons_ne_nil _ _)
  apply reads_field (reads_unsigned h.origin)
  apply reads_field (reads_unsigned h.destination)
  apply reads_field (reads_unsigned h.timestamp)
  apply reads_field (reads_matternColour m.matternColour)
  apply reads_field (reads_unsigned h.numberOfHops)
  apply reads_field h.rollbackTag.reads
  apply reads_field h.originalAgent.reads
  apply reads_field h.range.reads
  apply reads_field (reads_unsigned h.identifier)
  exact reads_closing m

theorem RangeQueryMessage.InRange.reads {m : RangeQueryMessage} (h : m.InRange)
    (hsize : m.ssvIdValueMap.size < 2 ^ 32) :
    Reads AtEnd RangeQueryMessage.deserialise m.serialise m := by
  have hmap : Reads Closes (deserialiseMap deserialiseSsvId deserialisePointValue)
      (serialiseMap serialiseSsvId serialisePointValue m.ssvIdValueMap) m.ssvIdValueMap := by
    apply reads_map _ _ hsize
    · intro e he
      exact reads_ssvId (h.ssvIdValueMap e he).1
    · intro e he
      exact (h.ssvIdValueMap e he).2.reads_value
  apply reads_message (not_mem_type _) _ (List.cons_ne_nil _ _)
  apply reads_field (reads_unsigned h.origin)
  apply reads_field (reads_unsigned h.destination)
  apply reads_field (reads_unsigned h.timestamp)
  apply reads_field (reads_matternColour m.matternColour)
  apply reads_field (reads_unsigned h.numberOfHops)
  apply reads_field (reads_unsigned h.identifier)
  apply reads_field h.originalAgent.reads
  apply reads_field h.range.reads
  apply reads_field (reads_unsigned h.numberOfTraverseHops)
  apply reads_field hmap
  exact reads_closing m

theorem RangeUpdateMessage.InRange.reads {m : RangeUpdateMessage} (h : m.InRange) :
    Reads AtEnd RangeUpdateMessage.deserialise m.serialise m := by
  apply reads_message (not_mem_type _) _ (List.cons_ne_nil _ _)
  apply reads_field (reads_unsigned h.origin)
  apply reads_field (reads_unsigned h.destination)
  apply reads_field (reads_unsigned h.timestamp)
  apply reads_field h.range.reads
  exact reads_closing m

theorem RollbackMessage.InRange.reads {m : RollbackMessage} (h : m.InRange) :
    Reads AtEnd RollbackMessage.deserialise m.serialise m := by
  apply reads_message (not_mem_type _) _ (List.cons_ne_nil _ _)
  apply reads_field (reads_unsigned h.origin)
  apply reads_field (reads_unsigned h.destination)
  apply reads_field (reads_unsigned h.timestamp)
  apply reads_field (reads_matternColour m.matternColour)
  apply reads_field h.rollbackTag.reads
  apply reads_field h.originalAgent.reads
  exact reads_closing m

theorem SsvAntiMessage.InRange.reads {m : SsvAntiMessage} (h : m.InRange) (type : PdesmasType) :
    Reads AtEnd SsvAntiMessage.deserialise (m.serialise type) m := by
  apply reads_message (not_mem_type _) _ (List.cons_ne_nil _ _)
  apply reads_field (reads_unsigned h.origin)
  apply reads_field (reads_unsigned h.destination)
  apply reads_field (reads_unsigned h.timestamp)
  apply reads_field (reads_matternColour m.matternColour)
  apply reads_field (reads_unsigned h.numberOfHops)
  apply reads_field h.rollbackTag.reads
  apply reads_field h.originalAgent.reads
  apply reads_field (reads_ssvId h.ssvId)
  exact reads_closing m

theorem SingleReadMessage.InRange.reads {m : SingleReadMessage} (h : m.InRange) :
    Reads AtEnd SingleReadMessage.deserialise m.serialise m := by
  apply reads_message (not_mem_type _) _ (List.cons_ne_nil _ _)
  apply reads_field (reads_unsigned h.origin)
  apply reads_field (reads_unsigned h.destination)
  apply reads_field (reads_unsigned h.timestamp)
  apply reads_field (reads_matternColour m.matternColour)
  apply reads_field (reads_unsigned h.numberOfHops)
  apply reads_field (reads_unsigned h.identifier)
  apply reads_field h.originalAgent.reads
  apply reads_field (reads_ssvId h.ssvId)
  exact reads_closing m

theorem SingleReadResponseMessage.InRange.reads {m : SingleReadResponseMessage}
    (h : m.InRange fmt) (hvalue : m.value.Unbroken [DELIM_RIGHT]) :
    Reads AtEnd (SingleReadResponseMessage.deserialise fmt) (m.serialise fmt) m := by
  apply reads_message (not_mem_type _) _ (List.cons_ne_nil _ _)
  apply reads_field (reads_unsigned h.origin)
  apply reads_field (reads_unsigned h.destination)
  apply reads_field (reads_unsigned h.timestamp)
  apply reads_field (reads_matternColour m.matternColour)
  apply reads_field (reads_unsigned h.identifier)
  apply reads_field h.originalAgent.reads
  exact reads_lastValue h.value hvalue fun value => { m with value }

theorem StateMigrationMessage.InRange.reads {m : StateMigrationMessage} (h : m.InRange fmt)
    (hsize : m.stateVariableMap.size < 2 ^ 32)
    (hportable : ∀ e ∈ m.stateVariableMap.toList, e.2.Portable) :
    Reads AtEnd (StateMigrationMessage.deserialise fmt) (m.serialise fmt) m := by
  have hmap : Reads Closes (deserialiseMap deserialiseSsvId (StateVariable.deserialise fmt))
      (serialiseMap serialiseSsvId (StateVariable.serialise fmt) m.stateVariableMap)
      m.stateVariableMap := by
    apply reads_map _ _ hsize
    · intro e he
      exact reads_ssvId (h.stateVariableMap e he).1
    · intro e he
      exact (h.stateVariableMap e he).2.reads_portable (hportable e he)
  apply reads_message (not_mem_type _) _ (List.cons_ne_nil _ _)
  apply reads_field (reads_unsigned h.origin)
  apply reads_field (reads_unsigned h.destination)
  apply reads_field hmap
  exact reads_closing m

theorem WriteMessage.InRange.reads {m : WriteMessage} (h : m.InRange fmt)
    (hvalue : m.value.Unbroken [DELIM_RIGHT]) :
    Reads AtEnd (WriteMessage.deserialise fmt) (m.serialise fmt) m := by
  apply reads_message (not_mem_type _) _ (List.cons_ne_nil _ _)
  apply reads_field (reads_unsigned h.origin)
  apply reads_field (reads_unsigned h.destination)
  apply reads_field (reads_unsigned h.timestamp)
  apply reads_field (reads_matternColour m.matternColour)
  apply reads_field (reads_unsigned h.numberOfHops)
  apply reads_field (reads_unsigned h.identifier)
  apply reads_field h.originalAgent.reads
  apply reads_field (reads_ssvId h.ssvId)
  exact reads_lastValue h.value hvalue fun value => { m with value }

theorem WriteResponseMessage.InRange.reads {m : WriteResponseMessage} (h : m.InRange) :
    Reads AtEnd WriteResponseMessage.deserialise m.serialise m := by
  apply reads_message (not_mem_type _) _ (List.cons_ne_nil _ _)
  apply reads_field (reads_unsigned h.origin)
  apply reads_field (reads_unsigned h.destination)
  apply reads_field (reads_unsigned h.timestamp)
  apply reads_field (reads_matternColour m.matternColour)
  apply reads_field (reads_unsigned h.identifier)
  apply reads_field h.originalAgent.reads
  apply reads_field (reads_writeStatus m.writeStatus)
  exact reads_closing m

end RoundTrip
end Wire
end PdesMas
