import Std.Data.TreeMap.Lemmas
import PdesMas.Lp.LpId
import PdesMas.Types.Value

/-!
The computation of GVT by two cuts of a control message round a ring. A message
carries the colour of its sender; every process counts the white messages it has
sent to each process, less those it has received, and keeps the least time at
which it has sent a red one. The barrier at the end of the simulation is left
out.
-/

namespace PdesMas

inductive MatternColour where
  | WHITE
  | RED
deriving DecidableEq, Repr

inductive MatternCut where
  | FIRST
  | SECOND
deriving DecidableEq, Repr

structure GvtControlMessage where
  destination : Nat
  messageMinimumTime : Nat
  redMessageTime : Nat
  matternCut : MatternCut
  messageCount : Std.TreeMap Nat Int

structure GvtValueMessage where
  destination : Nat
  gvt : Nat
deriving DecidableEq, Repr

/-- What `GvtCalculator` queues for sending. -/
inductive ControlMessage where
  | control (m : GvtControlMessage)
  | value (m : GvtValueMessage)

def ControlMessage.destination : ControlMessage → Nat
  | .control m => m.destination
  | .value m => m.destination

def ControlMessage.control? : ControlMessage → Option GvtControlMessage
  | .control m => some m
  | .value _ => none

namespace GvtControlMessage

def getMessageCount (m : GvtControlMessage) (lpId : Nat) : Int :=
  m.messageCount[lpId]?.getD (-1)

/-- The count is an `int`, whatever the caller has added up. -/
def setMessageCount (m : GvtControlMessage) (lpId : Nat) (count : Int) : GvtControlMessage :=
  { m with messageCount := m.messageCount.insert lpId (toInt32 count) }

@[simp] theorem setMessageCount_destination (m : GvtControlMessage) (lpId : Nat) (count : Int) :
    (m.setMessageCount lpId count).destination = m.destination := rfl

@[simp] theorem setMessageCount_minimum (m : GvtControlMessage) (lpId : Nat) (count : Int) :
    (m.setMessageCount lpId count).messageMinimumTime = m.messageMinimumTime := rfl

@[simp] theorem setMessageCount_red (m : GvtControlMessage) (lpId : Nat) (count : Int) :
    (m.setMessageCount lpId count).redMessageTime = m.redMessageTime := rfl

@[simp] theorem setMessageCount_cut (m : GvtControlMessage) (lpId : Nat) (count : Int) :
    (m.setMessageCount lpId count).matternCut = m.matternCut := rfl

/-- `SetMessageMinimumTime` with the LVT, if that is smaller. -/
def lowerMinimum (m : GvtControlMessage) (lvt : Nat) : GvtControlMessage :=
  if lvt < m.messageMinimumTime then { m with messageMinimumTime := lvt } else m

/-- `SetRedMessageTime` with the red time, if that is smaller. -/
def lowerRed (m : GvtControlMessage) (redTime : Nat) : GvtControlMessage :=
  if redTime < m.redMessageTime then { m with redMessageTime := redTime } else m

theorem lowerMinimum_eq (m : GvtControlMessage) (lvt : Nat) :
    m.lowerMinimum lvt = { m with messageMinimumTime := min m.messageMinimumTime lvt } := by
  simp only [lowerMinimum]
  split
  · rw [Nat.min_eq_right (by omega)]
  · rw [Nat.min_eq_left (by omega)]

theorem lowerRed_eq (m : GvtControlMessage) (redTime : Nat) :
    m.lowerRed redTime = { m with redMessageTime := min m.redMessageTime redTime } := by
  simp only [lowerRed]
  split
  · rw [Nat.min_eq_right (by omega)]
  · rw [Nat.min_eq_left (by omega)]

/-- The value `SendAndSetGvt` takes from the message. -/
def gvt (m : GvtControlMessage) : Nat :=
  if m.messageMinimumTime < m.redMessageTime then m.messageMinimumTime else m.redMessageTime

theorem gvt_eq (m : GvtControlMessage) : m.gvt = min m.messageMinimumTime m.redMessageTime := by
  simp only [gvt]
  split
  · rw [Nat.min_eq_left (by omega)]
  · rw [Nat.min_eq_right (by omega)]

end GvtControlMessage

structure GvtCalculator where
  rank : Nat
  size : Nat
  colour : MatternColour
  redTime : Nat
  isAcceptingRequests : Bool
  whiteTransientMessageCounter : Std.TreeMap Nat Int

namespace GvtCalculator

def create (rank size : Nat) : GvtCalculator where
  rank := rank
  size := size
  colour := .WHITE
  redTime := ULONG_MAX
  isAcceptingRequests := true
  whiteTransientMessageCounter := ∅

def nextLpInRing (g : GvtCalculator) : Nat := (g.rank + 1) % g.size

def isGVTStarter (g : GvtCalculator) : Bool := g.rank == 0

/-- A process that no message was counted for has the count `-1`. -/
def getWhiteTransientMessageCounter (g : GvtCalculator) (rank : Nat) : Int :=
  g.whiteTransientMessageCounter[rank]?.getD (-1)

def decrementWhiteTransientMessageCounter (g : GvtCalculator) (rank : Nat) : GvtCalculator :=
  { g with
    whiteTransientMessageCounter :=
      g.whiteTransientMessageCounter.insert rank (g.whiteTransientMessageCounter[rank]?.getD 0 - 1) }

def incrementWhiteTransientMessageCounter (g : GvtCalculator) (rank : Nat) : GvtCalculator :=
  { g with
    whiteTransientMessageCounter :=
      g.whiteTransientMessageCounter.insert rank (g.whiteTransientMessageCounter[rank]?.getD 0 + 1) }

/-- What the calculator does with a control message: its new state, what it queues
for sending, and the GVT, where it computes one. -/
structure Outcome where
  calculator : GvtCalculator
  queued : List ControlMessage
  gvt : Option Nat

def processRequest (g : GvtCalculator) : Outcome :=
  if g.isGVTStarter ∧ g.isAcceptingRequests then
    { calculator := { g with isAcceptingRequests := false, colour := .WHITE }
      queued :=
        [.control
          { destination := g.nextLpInRing
            messageMinimumTime := LONG_MAX
            redMessageTime := LONG_MAX
            matternCut := .FIRST
            messageCount := (List.range g.size).foldl (fun m lp => m.insert lp 0) ∅ }]
      gvt := none }
  else ⟨g, [], none⟩

/-- The colour after a value message. -/
def processValue (g : GvtCalculator) : GvtCalculator :=
  if g.isGVTStarter then g else { g with colour := .WHITE }

def sendAndSetGvt (g : GvtCalculator) (m : GvtControlMessage) : Outcome where
  calculator := { g with isAcceptingRequests := true }
  queued := ((List.range g.size).filter fun lp => lp ≠ g.rank).map fun lp => .value ⟨lp, m.gvt⟩
  gvt := some m.gvt

/-- `SendToLp` with the next in the ring for a destination. -/
def passOn (g : GvtCalculator) (m : GvtControlMessage) : Outcome :=
  ⟨g, [.control { m with destination := g.nextLpInRing }], none⟩

/-- The loop that adds the local counts to those of the message. -/
def addMessageCounts (g : GvtCalculator) (m : GvtControlMessage) : GvtControlMessage :=
  (List.range g.size).foldl
    (fun m lp => m.setMessageCount lp (m.getMessageCount lp + g.getWhiteTransientMessageCounter lp))
    m

/-- Only the processes the starter has a count for itself are looked at. -/
def hasWhiteTransientsRemaining (g : GvtCalculator) (m : GvtControlMessage) : Bool :=
  g.whiteTransientMessageCounter.toList.any fun e => decide (m.getMessageCount e.1 > 0)

def processFirstCut (g : GvtCalculator) (lvt : Nat) (m : GvtControlMessage) : Outcome :=
  let m := g.addMessageCounts (m.lowerMinimum lvt)
  let g := { g with colour := .RED, redTime := LONG_MAX }
  if g.isGVTStarter then
    if g.hasWhiteTransientsRemaining m then g.passOn { m with matternCut := .SECOND }
    else { g with colour := .WHITE }.sendAndSetGvt m
  else g.passOn m

/-- The condition of the loop in which the second cut waits for messages. -/
def isOutstanding (g : GvtCalculator) (m : GvtControlMessage) : Bool :=
  decide (m.getMessageCount g.rank + g.getWhiteTransientMessageCounter g.rank > 0)

/-- The second cut after its loop. -/
def processSecondCut (g : GvtCalculator) (lvt : Nat) (m : GvtControlMessage) : Outcome :=
  let m := ((m.lowerMinimum lvt).lowerRed g.redTime).setMessageCount g.rank 0
  let g := { g with colour := .WHITE }
  if g.isGVTStarter then g.sendAndSetGvt m else g.passOn m

/-- `PreProcessSendMessage`, but for the colour it gives the message. -/
def preProcessSendMessage (g : GvtCalculator) (destination timestamp : Nat) :
    Option GvtCalculator :=
  match g.colour with
  | .WHITE =>
      if destination ≠ g.rank ∧ g.getWhiteTransientMessageCounter g.rank ≤ 0 then
        some (g.incrementWhiteTransientMessageCounter destination)
      else none
  | .RED => some { g with redTime := min g.redTime timestamp }

def preProcessReceiveMessage (g : GvtCalculator) (colour : MatternColour) : GvtCalculator :=
  match colour with
  | .WHITE => g.decrementWhiteTransientMessageCounter g.rank
  | .RED => g

/-- The same process in the same part of a round; the red time may have gone down. -/
structure Keeps (g g' : GvtCalculator) : Prop where
  rank : g'.rank = g.rank
  size : g'.size = g.size
  accepting : g'.isAcceptingRequests = g.isAcceptingRequests
  redTime : g'.redTime ≤ g.redTime

theorem Keeps.refl (g : GvtCalculator) : g.Keeps g := ⟨rfl, rfl, rfl, le_refl _⟩

theorem keeps_processValue (g : GvtCalculator) : g.Keeps g.processValue := by
  simp only [processValue]
  split
  · exact .refl g
  · exact ⟨rfl, rfl, rfl, le_refl _⟩

theorem keeps_preProcessReceiveMessage (g : GvtCalculator) (colour : MatternColour) :
    g.Keeps (g.preProcessReceiveMessage colour) := by
  cases colour with
  | WHITE => exact ⟨rfl, rfl, rfl, le_refl _⟩
  | RED => exact .refl g

/-- A red message is not before the red time of its sender. -/
theorem keeps_preProcessSendMessage {g g' : GvtCalculator} {destination timestamp : Nat}
    (h : g.preProcessSendMessage destination timestamp = some g') :
    g.Keeps g' ∧ (g.colour = .RED → g'.redTime ≤ timestamp) := by
  simp only [preProcessSendMessage] at h
  split at h
  · rename_i hcolour
    split at h
    · cases h
      exact ⟨⟨rfl, rfl, rfl, le_refl _⟩, fun hred => by rw [hcolour] at hred; cases hred⟩
    · cases h
  · cases h
    exact ⟨⟨rfl, rfl, rfl, Nat.min_le_left _ _⟩, fun _ => Nat.min_le_right _ _⟩

theorem addMessageCounts_minimum (g : GvtCalculator) (m : GvtControlMessage) :
    (g.addMessageCounts m).messageMinimumTime = m.messageMinimumTime := by
  simp only [addMessageCounts]
  generalize List.range g.size = l
  induction l generalizing m with
  | nil => rfl
  | cons lp l ih => exact ih (m.setMessageCount lp _)

theorem addMessageCounts_cut (g : GvtCalculator) (m : GvtControlMessage) :
    (g.addMessageCounts m).matternCut = m.matternCut := by
  simp only [addMessageCounts]
  generalize List.range g.size = l
  induction l generalizing m with
  | nil => rfl
  | cons lp l ih => exact ih (m.setMessageCount lp _)

/-- The control message goes on round the ring, changed to `m`. -/
structure Outcome.Passes (g : GvtCalculator) (m : GvtControlMessage) (o : Outcome) : Prop where
  rank : o.calculator.rank = g.rank
  size : o.calculator.size = g.size
  accepting : o.calculator.isAcceptingRequests = g.isAcceptingRequests
  queued : o.queued = [.control m]
  destination : m.destination = g.nextLpInRing
  gvt : o.gvt = none

/-- The round is over with the value `gvt`. -/
structure Outcome.Finishes (g : GvtCalculator) (gvt : Nat) (o : Outcome) : Prop where
  rank : o.calculator.rank = g.rank
  size : o.calculator.size = g.size
  accepting : o.calculator.isAcceptingRequests = true
  queued : o.queued.filterMap ControlMessage.control? = []
  gvt : o.gvt = some gvt

theorem processRequest_ignored {g : GvtCalculator}
    (h : ¬ (g.isGVTStarter = true ∧ g.isAcceptingRequests = true)) :
    g.processRequest = ⟨g, [], none⟩ := if_neg h

/-- The control message with which a round begins. -/
theorem processRequest_begins {g : GvtCalculator}
    (h : g.isGVTStarter = true ∧ g.isAcceptingRequests = true) :
    ∃ m, g.processRequest = ⟨{ g with isAcceptingRequests := false, colour := .WHITE },
        [.control m], none⟩ ∧
      m.destination = g.nextLpInRing ∧ m.matternCut = .FIRST :=
  ⟨_, if_pos h, rfl, rfl⟩

theorem finishes_sendAndSetGvt (g : GvtCalculator) (m : GvtControlMessage) :
    (g.sendAndSetGvt m).Finishes g m.gvt := by
  refine ⟨rfl, rfl, rfl, ?_, rfl⟩
  refine List.filterMap_eq_nil_iff.mpr ?_
  intro c hc
  obtain ⟨lp, _, rfl⟩ := List.mem_map.mp hc
  rfl

/-- The starter finds no white message in transit, and ends the round after the first cut. -/
def endsWithFirstCut (g : GvtCalculator) (lvt : Nat) (m : GvtControlMessage) : Bool :=
  g.isGVTStarter && !g.hasWhiteTransientsRemaining (g.addMessageCounts (m.lowerMinimum lvt))

/-- Colour and red time have no part in the branches of the first cut. -/
private theorem processFirstCut_eq (g : GvtCalculator) (lvt : Nat) (m : GvtControlMessage) :
    g.processFirstCut lvt m =
      let m := g.addMessageCounts (m.lowerMinimum lvt)
      if g.isGVTStarter then
        if g.hasWhiteTransientsRemaining m then
          { g with colour := .RED, redTime := LONG_MAX }.passOn { m with matternCut := .SECOND }
        else { g with colour := .WHITE, redTime := LONG_MAX }.sendAndSetGvt m
      else { g with colour := .RED, redTime := LONG_MAX }.passOn m := rfl

theorem processFirstCut_finishes {g : GvtCalculator} {lvt : Nat} {m : GvtControlMessage}
    (h : g.endsWithFirstCut lvt m = true) :
    ∃ gvt, (g.processFirstCut lvt m).Finishes g gvt ∧ gvt ≤ m.messageMinimumTime ∧ gvt ≤ lvt := by
  simp only [endsWithFirstCut, Bool.and_eq_true, Bool.not_eq_true'] at h
  obtain ⟨hstarter, hremaining⟩ := h
  simp only [processFirstCut_eq, hstarter, hremaining, ite_true, Bool.false_eq_true, ite_false]
  obtain ⟨hrank, hsize, haccepting, hqueued, hgvt⟩ := finishes_sendAndSetGvt
    { g with colour := .WHITE, redTime := LONG_MAX } (g.addMessageCounts (m.lowerMinimum lvt))
  refine ⟨_, ⟨hrank, hsize, haccepting, hqueued, hgvt⟩, ?_⟩
  rw [GvtControlMessage.gvt_eq, addMessageCounts_minimum, GvtControlMessage.lowerMinimum_eq]
  simp only
  omega

theorem processFirstCut_passes {g : GvtCalculator} {lvt : Nat} {m : GvtControlMessage}
    (h : g.endsWithFirstCut lvt m = false) :
    ∃ m', (g.processFirstCut lvt m).Passes g m' ∧
      m'.messageMinimumTime = min m.messageMinimumTime lvt ∧
      m'.matternCut = if g.isGVTStarter then .SECOND else m.matternCut := by
  have hminimum := g.addMessageCounts_minimum (m.lowerMinimum lvt)
  have hcut := g.addMessageCounts_cut (m.lowerMinimum lvt)
  simp only [processFirstCut_eq]
  by_cases hstarter : g.isGVTStarter = true
  · have hremaining : g.hasWhiteTransientsRemaining
        (g.addMessageCounts (m.lowerMinimum lvt)) = true := by
      simpa [endsWithFirstCut, hstarter] using h
    rw [if_pos hstarter, if_pos hremaining, if_pos hstarter]
    refine ⟨_, ⟨rfl, rfl, rfl, rfl, rfl, rfl⟩, ?_, rfl⟩
    simpa only [GvtControlMessage.lowerMinimum_eq] using hminimum
  · rw [if_neg hstarter, if_neg hstarter]
    refine ⟨_, ⟨rfl, rfl, rfl, rfl, rfl, rfl⟩, ?_, ?_⟩
    · simpa only [GvtControlMessage.lowerMinimum_eq] using hminimum
    · simpa only [GvtControlMessage.lowerMinimum_eq] using hcut

private theorem processSecondCut_eq (g : GvtCalculator) (lvt : Nat) (m : GvtControlMessage) :
    g.processSecondCut lvt m =
      let m := ((m.lowerMinimum lvt).lowerRed g.redTime).setMessageCount g.rank 0
      if g.isGVTStarter then { g with colour := .WHITE }.sendAndSetGvt m
      else { g with colour := .WHITE }.passOn m := rfl

theorem processSecondCut_finishes {g : GvtCalculator} (lvt : Nat) (m : GvtControlMessage)
    (h : g.isGVTStarter = true) :
    (g.processSecondCut lvt m).Finishes g
      (min (min m.messageMinimumTime lvt) (min m.redMessageTime g.redTime)) := by
  simp only [processSecondCut_eq, h, ite_true]
  obtain ⟨hrank, hsize, haccepting, hqueued, hgvt⟩ := finishes_sendAndSetGvt
    { g with colour := .WHITE } (((m.lowerMinimum lvt).lowerRed g.redTime).setMessageCount g.rank 0)
  refine ⟨hrank, hsize, haccepting, hqueued, ?_⟩
  rw [hgvt, GvtControlMessage.gvt_eq]
  simp only [GvtControlMessage.lowerMinimum_eq, GvtControlMessage.lowerRed_eq,
    GvtControlMessage.setMessageCount_minimum, GvtControlMessage.setMessageCount_red]

theorem processSecondCut_passes {g : GvtCalculator} (lvt : Nat) (m : GvtControlMessage)
    (h : g.isGVTStarter = false) :
    ∃ m', (g.processSecondCut lvt m).Passes g m' ∧
      m'.messageMinimumTime = min m.messageMinimumTime lvt ∧
      m'.redMessageTime = min m.redMessageTime g.redTime ∧ m'.matternCut = m.matternCut := by
  simp only [processSecondCut_eq, h, Bool.false_eq_true, ite_false]
  refine ⟨_, ⟨rfl, rfl, rfl, rfl, rfl, rfl⟩, ?_⟩
  simp only [GvtControlMessage.lowerMinimum_eq, GvtControlMessage.lowerRed_eq,
    GvtControlMessage.setMessageCount_minimum, GvtControlMessage.setMessageCount_red,
    GvtControlMessage.setMessageCount_cut, and_self]

end GvtCalculator
end PdesMas
