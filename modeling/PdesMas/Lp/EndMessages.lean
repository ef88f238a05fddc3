import Mathlib.Data.List.Count
import Mathlib.Logic.Function.Basic
import PdesMas.Library.Machine
import Std.Data.TreeMap

/-!
End messages. An ALP whose agents are done sends one to its CLP, each CLP hands it
on to its other neighbours, and the root asks for a GVT when it has had those of
all ALPs. Messages on their way may arrive in any order.
-/

namespace PdesMas

structure EndMessage where
  origin : Nat
  destination : Nat
  senderAlp : Nat
deriving DecidableEq, Repr

/-- A CLP as end messages see it. -/
structure EndClp where
  rank : Nat
  numberOfClps : Nat
  numberOfAlps : Nat
  endMessageProcessed : Bool
  endMessagesReceived : List Bool
deriving DecidableEq, Repr

/-- What a CLP makes of an end message, and whether it asks its calculator for a GVT. -/
structure EndProcessed where
  clp : EndClp
  sent : List EndMessage
  requestsGvt : Bool
deriving DecidableEq, Repr

namespace EndClp

def start (rank numberOfClps numberOfAlps : Nat) : EndClp where
  rank := rank
  numberOfClps := numberOfClps
  numberOfAlps := numberOfAlps
  endMessageProcessed := false
  endMessagesReceived := List.replicate numberOfAlps false

def allEndMessagesReceived (c : EndClp) : Bool :=
  (List.range c.numberOfAlps).all fun i => c.endMessagesReceived.getD i false

/-- `(GetRank() + 1) / 2 - 1`; at the root, where it would wrap, it is not used. -/
def parentCLP (c : EndClp) : Nat := (c.rank + 1) / 2 - 1

def leftCLP (c : EndClp) : Nat := 2 * c.rank + 1

def rightCLP (c : EndClp) : Nat := 2 * c.rank + 2

/-- A copy of the message for `destination`. -/
def copy (c : EndClp) (m : EndMessage) (destination : Nat) : EndMessage :=
  { m with origin := c.rank, destination := destination }

/-- Where a CLP in the middle sends its two copies. With an unknown origin, which is logged, the
first one keeps its destination. -/
def middleDestinations (c : EndClp) (m : EndMessage) : List Nat :=
  if m.origin = c.leftCLP then [c.rightCLP, c.parentCLP]
  else if m.origin = c.rightCLP then [c.leftCLP, c.parentCLP]
  else if m.origin = c.parentCLP then [c.leftCLP, c.rightCLP]
  else [m.destination, c.parentCLP]

def processEndMessage (c : EndClp) (m : EndMessage) : EndProcessed :=
  if c.rank ≠ 0 ∧ c.rank < c.numberOfClps / 2 then
    { clp := { c with endMessageProcessed := true }
      sent := (c.middleDestinations m).map (c.copy m)
      requestsGvt := false }
  else if c.rank ≠ 0 ∧ c.rank ≥ c.numberOfClps / 2 then
    { clp := { c with endMessageProcessed := true }
      sent := if m.origin ≠ c.parentCLP then [c.copy m c.parentCLP] else []
      requestsGvt := false }
  else
    let received :=
      { c with endMessagesReceived := c.endMessagesReceived.set (m.senderAlp - c.numberOfClps) true }
    { clp :=
        { received with
          endMessageProcessed := received.allEndMessagesReceived || c.endMessageProcessed }
      sent :=
        if c.rank < c.numberOfClps / 2 then
          [c.copy m (if m.origin = c.leftCLP then c.rightCLP else c.leftCLP)]
        else []
      requestsGvt := received.allEndMessagesReceived && !c.endMessageProcessed }

/-- The part of `SetGvt` that is about end messages. -/
def setGvt (c : EndClp) : EndClp := { c with endMessageProcessed := false }

end EndClp

/-- The CLPs, the messages on their way, and the ALPs that have sent theirs. -/
structure EndNetwork where
  clp : Nat → EndClp
  inFlight : List EndMessage
  finalised : List Nat

namespace EndNetwork

inductive Event where
  | finalise (alp : Nat)
  | deliver (k : Nat)
  | setGvt (clp : Nat)
deriving DecidableEq, Repr

inductive Output where
  | nothing
  | processed (clp alp : Nat) (requestsGvt : Bool)
deriving DecidableEq, Repr

variable (numberOfClps : Nat) (alpToClpMap : Std.TreeMap Nat Nat)

/-- An ALP does not know end messages, and exits. -/
def step (net : EndNetwork) : Event → Option (EndNetwork × Output)
  | .finalise alp => do
      let parentClp ← alpToClpMap[alp]?
      if alp ∈ net.finalised then none
      else
        some ({ net with
          inFlight := net.inFlight ++ [⟨alp, parentClp, alp⟩]
          finalised := alp :: net.finalised }, .nothing)
  | .deliver k => do
      let m ← net.inFlight[k]?
      if m.destination < numberOfClps then
        let r := (net.clp m.destination).processEndMessage m
        some ({ net with
          clp := Function.update net.clp m.destination r.clp
          inFlight := net.inFlight.eraseIdx k ++ r.sent },
          .processed m.destination m.senderAlp r.requestsGvt)
      else none
  | .setGvt clp =>
      if clp < numberOfClps then
        some ({ net with clp := Function.update net.clp clp (net.clp clp).setGvt }, .nothing)
      else none

def machine : Machine EndNetwork Event Output where
  step := step numberOfClps alpToClpMap

def initial : EndNetwork where
  clp rank := .start rank numberOfClps alpToClpMap.size
  inFlight := []
  finalised := []

/-- The CLPs that have processed the end message of `alp`, in this order. -/
def processedBy (alp : Nat) (os : List Output) : List Nat :=
  os.filterMap fun
    | .nothing => none
    | .processed clp sender _ => if sender = alp then some clp else none

/-- Where the copies of the end message of `alp` are on their way to. -/
def pending (alp : Nat) (net : EndNetwork) : List Nat :=
  (net.inFlight.filter fun m => m.senderAlp = alp).map EndMessage.destination

end EndNetwork
end PdesMas
