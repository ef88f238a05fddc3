import PdesMas.Lp.LpId
import PdesMas.Types.Value

/-!
The messages an ALP exchanges with its CLP on behalf of its agents. Origin,
destination, colour and hop count, which belong to the transport, are left to
the models of the router and of the GVT computation.
-/

namespace PdesMas

/-- What distinguishes `SingleReadMessage`, `WriteMessage` and `RangeQueryMessage`. -/
inductive RequestKind where
  | singleRead (ssvId : SsvId)
  | write (ssvId : SsvId) (value : AbstractValue)
  | rangeQuery (range : Range)
deriving DecidableEq, Repr

/-- The read or range query whose answer an agent waits for, as opposed to a write. -/
def RequestKind.isQuery : RequestKind → Bool
  | .singleRead _ | .rangeQuery _ => true
  | .write .. => false

structure SharedStateMessage where
  identifier : Nat
  timestamp : Nat
  originalAgent : LpId
  kind : RequestKind
deriving DecidableEq, Repr

/-- What distinguishes the three anti-messages. -/
inductive AntiKind where
  | singleReadAnti (ssvId : SsvId)
  | writeAnti (ssvId : SsvId)
  | rangeQueryAnti (range : Range) (identifier : Nat)
deriving DecidableEq, Repr

structure AntiMessage where
  timestamp : Nat
  originalAgent : LpId
  rollbackTag : RollbackTag
  kind : AntiKind
deriving DecidableEq, Repr

/-- The anti-message `ProcessRollback` makes from a message of the send list. -/
def SharedStateMessage.anti (m : SharedStateMessage) (tag : RollbackTag) : AntiMessage where
  timestamp := m.timestamp
  originalAgent := m.originalAgent
  rollbackTag := tag
  kind :=
    match m.kind with
    | .singleRead ssvId => .singleReadAnti ssvId
    | .write ssvId _ => .writeAnti ssvId
    | .rangeQuery range => .rangeQueryAnti range m.identifier

structure RollbackMessage where
  timestamp : Nat
  originalAgent : LpId
  rollbackTag : RollbackTag
deriving DecidableEq, Repr

inductive ResponseKind where
  | singleReadResponse (value : AbstractValue)
  | writeResponse (writeStatus : WriteStatus)
  | rangeQueryResponse (ssvValueList : List (SsvId × Point))
deriving DecidableEq, Repr

structure ResponseMessage where
  identifier : Nat
  timestamp : Nat
  originalAgent : LpId
  kind : ResponseKind
deriving DecidableEq, Repr

/-- The type an agent expects of the answer to a request. A range query takes what
it gets for a `RangeQueryMessage`. -/
def RequestKind.expects : RequestKind → ResponseKind → Bool
  | .singleRead _, .singleReadResponse _ => true
  | .write .., .writeResponse _ => true
  | .rangeQuery _, .rangeQueryResponse _ => true
  | _, _ => false

/-- The simulation messages an ALP queues for sending. -/
inductive AlpMessage where
  | request (m : SharedStateMessage)
  | anti (m : AntiMessage)
deriving DecidableEq, Repr

/-- Identifiers are drawn from one residue class for each ALP. -/
structure IdentifierHandler where
  initialID : Nat
  additional : Nat
  lastID : Nat
deriving DecidableEq, Repr

namespace IdentifierHandler

def create (rank numberOfClps numberOfAlps : Nat) : IdentifierHandler :=
  ⟨rank - numberOfClps, numberOfAlps, rank - numberOfClps⟩

/-- The next identifier would tick over `ULONG_MAX`. -/
def exhausted (h : IdentifierHandler) : Prop := h.lastID > ULONG_MAX - h.additional

instance (h : IdentifierHandler) : Decidable h.exhausted :=
  inferInstanceAs (Decidable (h.lastID > ULONG_MAX - h.additional))

def getNextID (h : IdentifierHandler) : IdentifierHandler :=
  if h.exhausted then { h with lastID := h.initialID }
  else { h with lastID := h.lastID + h.additional }

end IdentifierHandler
end PdesMas
