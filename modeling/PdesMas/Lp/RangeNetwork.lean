import PdesMas.Library.Machine
import PdesMas.Library.Pipes
import PdesMas.Lp.RangeTableEffect
import PdesMas.Routing.Directions

/-!
The tree of CLPs with the range messages on their links. Agents send range queries
and anti-messages by way of their ALPs, variables are written and writes rolled
back at their CLPs, a CLP gets a new GVT, and any message of a link may be the next
to arrive. A step
that cannot be taken, or that ends a process, is `none`.
-/

namespace PdesMas

structure RangeNetwork where
  clp : Nat → RangeClp
  pipe : Pipes Nat RangeMessage

namespace RangeNetwork

inductive Event where
  | query (identifier timestamp : Nat) (originalAgent : LpId) (range : Range)
  | anti (identifier timestamp : Nat) (originalAgent : LpId) (range : Range)
      (rollbackTag : RollbackTag)
  | deliver (source target k : Nat)
  | write (clp : Nat) (ssvId : SsvId) (originalAgent : LpId) (value : AbstractValue)
      (timestamp : Nat)
  | writeAnti (clp : Nat) (ssvId : SsvId) (originalAgent : LpId) (timestamp : Nat)
  | setGvt (clp gvt : Nat)
deriving DecidableEq, Repr

/-- What can be seen of a CLP's work on a query message. -/
structure Service where
  clp : Nat
  fresh : Bool
  message : RangeQueryMessage
  forwarded : List RangeQueryMessage
  reads : List PointMap

inductive Output where
  | nothing
  | served (s : Service)
  | received (alp : Nat) (m : RangeQueryMessage)

def setClp (net : RangeNetwork) (rank : Nat) (c : RangeClp) : RangeNetwork :=
  { net with clp := Function.update net.clp rank c }

/-- Each message goes to the process it is addressed to. -/
def send (net : RangeNetwork) (rank : Nat) (l : List RangeMessage) : RangeNetwork :=
  { net with pipe := net.pipe.pushAll rank (l.map fun m => (m.destination, m)) }

def receive (net : RangeNetwork) (target : Nat) :
    RangeMessage → Option (RangeNetwork × Output)
  | .query m => do
      let m := m.incrementNumberOfHops
      let r ← (net.clp target).processRangeQuery m
      pure ((net.setClp target r.clp).send target ((r.forwarded ++ r.responses).map .query),
        .served ⟨target, !(net.clp target).rangeTracker.hasEntry m.identifier, m, r.forwarded,
          r.reads⟩)
  | .anti m => do
      let r ← (net.clp target).processRangeQueryAnti
        { m with numberOfHops := m.numberOfHops + 1 }
      pure ((net.setClp target r.1).send target (r.2.map .anti), .nothing)
  | .update m => do
      let r ← (net.clp target).processRangeUpdate m
      pure ((net.setClp target r.1).send target (r.2.map .update), .nothing)

/-- What an ALP gets; it has a part in range queries only. -/
def receiveAlp (net : RangeNetwork) (target : Nat) : RangeMessage → RangeNetwork × Output
  | .query m => (net, .received target m)
  | .anti _ | .update _ => (net, .nothing)

variable (numberOfClps : Nat) (alpToClpMap : Std.TreeMap Nat Nat)

def step (net : RangeNetwork) : Event → Option (RangeNetwork × Output)
  | .query identifier timestamp originalAgent range => do
      let clp ← alpToClpMap[originalAgent.rank]?
      pure (net.send originalAgent.rank
        [.query ⟨originalAgent.rank, clp, timestamp, 0, identifier, originalAgent, range, 0, ∅⟩],
        .nothing)
  | .anti identifier timestamp originalAgent range rollbackTag => do
      let clp ← alpToClpMap[originalAgent.rank]?
      pure (net.send originalAgent.rank
        [.anti ⟨originalAgent.rank, clp, timestamp, 0, identifier, originalAgent, range,
          rollbackTag⟩], .nothing)
  | .deliver source target k => do
      let m ← (net.pipe source target)[k]?
      let net := { net with pipe := net.pipe.take source target k }
      if target < numberOfClps then net.receive target m
      else pure (net.receiveAlp target m)
  | .write clp ssvId originalAgent value timestamp =>
      if clp < numberOfClps then do
        let r ← (net.clp clp).processWrite ssvId originalAgent value timestamp
        pure ((net.setClp clp r.1).send clp (r.2.map .update), .nothing)
      else none
  | .writeAnti clp ssvId originalAgent timestamp =>
      if clp < numberOfClps then do
        let r ← (net.clp clp).processWriteAnti ssvId originalAgent timestamp
        pure ((net.setClp clp r.1).send clp (r.2.map .update), .nothing)
      else none
  | .setGvt clp gvt =>
      if clp < numberOfClps then some (net.setClp clp ((net.clp clp).setGvt gvt), .nothing)
      else none

def machine : Machine RangeNetwork Event Output where
  step := step numberOfClps alpToClpMap

/-- The ALPs come behind the CLPs and belong to one each. The CLPs have their route tables,
no query or message is about, no variable is on two CLPs, and there is no range at a port
that leads to no CLP. -/
structure Initial (initialisor : Initialisor) (net : RangeNetwork) : Prop where
  alps : ∀ a c, initialisor.alpToClpMap[a]? = some c →
    numberOfClps ≤ a ∧ a < numberOfClps + initialisor.alpToClpMap.size ∧ c < numberOfClps
  rank : ∀ c, c < numberOfClps → (net.clp c).rank = c
  clps : ∀ c, c < numberOfClps → (net.clp c).numberOfClps = numberOfClps
  routes : ∀ c, c < numberOfClps →
    RouteTable.create c numberOfClps initialisor = some (net.clp c).routeTable
  tracker : ∀ c, c < numberOfClps → (net.clp c).rangeTracker = ∅
  pipe : ∀ a b, net.pipe a b = []
  hosted : ∀ c d id, c < numberOfClps → d < numberOfClps →
    (net.clp c).sharedState.containsVariable id = true →
    (net.clp d).sharedState.containsVariable id = true → c = d
  noRange : ∀ c port, c < numberOfClps → port ≠ .HERE →
    (∀ d, d < numberOfClps → HeapTree.Adj c d → RouteTable.portOf c d ≠ port) →
    ((net.clp c).rangeTable port).NoRange
  unrecorded : ∀ c port, c < numberOfClps →
    RangeRoutingTable.recorded ((net.clp c).rangeTable port).rangePeriodList = []

/-- The messages of one query on a link. -/
def queriesOf (identifier : Nat) (l : List RangeMessage) : List RangeQueryMessage :=
  l.filterMap fun
    | .query m => if m.identifier = identifier then some m else none
    | .anti _ | .update _ => none

section Queries

variable {identifier : Nat}

@[simp] theorem queriesOf_nil : queriesOf identifier [] = [] := rfl

@[simp] theorem queriesOf_append (l l' : List RangeMessage) :
    queriesOf identifier (l ++ l') = queriesOf identifier l ++ queriesOf identifier l' :=
  List.filterMap_append

@[simp] theorem queriesOf_cons_query (m : RangeQueryMessage) (l : List RangeMessage) :
    queriesOf identifier (.query m :: l) =
      if m.identifier = identifier then m :: queriesOf identifier l
      else queriesOf identifier l := by
  by_cases h : m.identifier = identifier <;> simp [queriesOf, h]

@[simp] theorem queriesOf_cons_anti (m : RangeQueryAntiMessage) (l : List RangeMessage) :
    queriesOf identifier (.anti m :: l) = queriesOf identifier l := by
  simp [queriesOf]

@[simp] theorem queriesOf_cons_update (m : RangeUpdateMessage) (l : List RangeMessage) :
    queriesOf identifier (.update m :: l) = queriesOf identifier l := by
  simp [queriesOf]

theorem queriesOf_eq_nil {l : List RangeMessage}
    (h : ∀ m, .query m ∈ l → m.identifier ≠ identifier) : queriesOf identifier l = [] := by
  rw [queriesOf, List.filterMap_eq_nil_iff]
  intro m hm
  cases m with
  | query m => exact if_neg (h m hm)
  | anti m => rfl
  | update m => rfl

/-- What is added to a link by a send. -/
theorem pipe_send (net : RangeNetwork) (rank : Nat) (l : List RangeMessage) (a b : Nat) :
    (net.send rank l).pipe a b =
      if a = rank then net.pipe a b ++ l.filter (fun m => m.destination = b)
      else net.pipe a b := by
  simp only [send, Pipes.pushAll_apply]
  congr 2
  induction l with
  | nil => rfl
  | cons m l ih => by_cases hm : m.destination = b <;> simp [hm, ih]

theorem queriesOf_send_of_ne (net : RangeNetwork) (rank : Nat) {l : List RangeMessage}
    (h : ∀ m, .query m ∈ l → m.identifier ≠ identifier) (a b : Nat) :
    queriesOf identifier ((net.send rank l).pipe a b) =
      queriesOf identifier (net.pipe a b) := by
  rw [pipe_send]
  split
  · have hnil : queriesOf identifier (l.filter fun m => m.destination = b) = [] :=
      queriesOf_eq_nil fun m hm => h m (List.mem_filter.mp hm).1
    rw [queriesOf_append, hnil, List.append_nil]
  · rfl

end Queries

/-- How a step goes, by what it is about. -/
inductive Effect (net : RangeNetwork) : Event → RangeNetwork → Output → Prop
  | query {identifier timestamp originalAgent range clp}
      (hclp : alpToClpMap[originalAgent.rank]? = some clp) :
      Effect net (.query identifier timestamp originalAgent range)
        (net.send originalAgent.rank
          [.query ⟨originalAgent.rank, clp, timestamp, 0, identifier, originalAgent, range, 0,
            ∅⟩]) .nothing
  | anti {identifier timestamp originalAgent range rollbackTag clp}
      (hclp : alpToClpMap[originalAgent.rank]? = some clp) :
      Effect net (.anti identifier timestamp originalAgent range rollbackTag)
        (net.send originalAgent.rank
          [.anti ⟨originalAgent.rank, clp, timestamp, 0, identifier, originalAgent, range,
            rollbackTag⟩]) .nothing
  | serve {source target k front back m r} (htarget : target < numberOfClps)
      (hpipe : net.pipe source target = front ++ .query m :: back) (hk : front.length = k)
      (hr : (net.clp target).processRangeQuery m.incrementNumberOfHops = some r) :
      Effect net (.deliver source target k)
        ((({ net with pipe := net.pipe.put source target (front ++ back) } : RangeNetwork).setClp
          target r.clp).send target ((r.forwarded ++ r.responses).map .query))
        (.served ⟨target, !(net.clp target).rangeTracker.hasEntry m.identifier,
          m.incrementNumberOfHops, r.forwarded, r.reads⟩)
  | undo {source target k front back m r} (htarget : target < numberOfClps)
      (hpipe : net.pipe source target = front ++ .anti m :: back) (hk : front.length = k)
      (hr : (net.clp target).processRangeQueryAnti { m with numberOfHops := m.numberOfHops + 1 } =
        some r) :
      Effect net (.deliver source target k)
        ((({ net with pipe := net.pipe.put source target (front ++ back) } : RangeNetwork).setClp
          target r.1).send target (r.2.map .anti)) .nothing
  | update {source target k front back m r} (htarget : target < numberOfClps)
      (hpipe : net.pipe source target = front ++ .update m :: back) (hk : front.length = k)
      (hr : (net.clp target).processRangeUpdate m = some r) :
      Effect net (.deliver source target k)
        ((({ net with pipe := net.pipe.put source target (front ++ back) } : RangeNetwork).setClp
          target r.1).send target (r.2.map .update)) .nothing
  | respond {source target k front back m} (htarget : numberOfClps ≤ target)
      (hpipe : net.pipe source target = front ++ .query m :: back) (hk : front.length = k) :
      Effect net (.deliver source target k)
        { net with pipe := net.pipe.put source target (front ++ back) } (.received target m)
  | ignore {source target k front back} {m : RangeMessage} (htarget : numberOfClps ≤ target)
      (hpipe : net.pipe source target = front ++ m :: back) (hk : front.length = k)
      (hm : ∀ q, m ≠ .query q) :
      Effect net (.deliver source target k)
        { net with pipe := net.pipe.put source target (front ++ back) } .nothing
  | write {e : Event} {clp r} (hclp : clp < numberOfClps)
      (hranged : RangeClp.Ranged (· = .HERE) (net.clp clp) r) (hlocal : ∀ a b k, e ≠ .deliver a b k)
      (hquery : ∀ i t o r, e ≠ .query i t o r) (hanti : ∀ i t o r g, e ≠ .anti i t o r g)
      (hgvt : ∀ clp gvt, e ≠ .setGvt clp gvt) :
      Effect net e ((net.setClp clp r.1).send clp (r.2.map .update)) .nothing
  | setGvt {clp gvt} (hclp : clp < numberOfClps) :
      Effect net (.setGvt clp gvt) (net.setClp clp ((net.clp clp).setGvt gvt)) .nothing

theorem effect_of_step {net net' : RangeNetwork} {e : Event} {o : Output}
    (h : (machine numberOfClps alpToClpMap).step net e = some (net', o)) :
    Effect numberOfClps alpToClpMap net e net' o := by
  change net.step numberOfClps alpToClpMap e = some (net', o) at h
  cases e with
  | query identifier timestamp originalAgent range =>
      obtain ⟨clp, hclp, h⟩ := Option.bind_eq_some_iff.mp h
      cases h
      exact .query hclp
  | anti identifier timestamp originalAgent range rollbackTag =>
      obtain ⟨clp, hclp, h⟩ := Option.bind_eq_some_iff.mp h
      cases h
      exact .anti hclp
  | deliver source target k =>
      obtain ⟨m, hm, h⟩ := Option.bind_eq_some_iff.mp h
      obtain ⟨front, back, hpipe, htake, hk⟩ := Pipes.exists_take hm
      have hput : net.pipe.take source target k = net.pipe.put source target (front ++ back) := by
        rw [← htake]
        simp [Pipes.take]
      simp only [hput] at h
      split at h
      · rename_i htarget
        cases m with
        | query m =>
            obtain ⟨r, hr, h⟩ := Option.bind_eq_some_iff.mp h
            cases h
            exact .serve htarget hpipe hk hr
        | anti m =>
            obtain ⟨r, hr, h⟩ := Option.bind_eq_some_iff.mp h
            cases h
            exact .undo htarget hpipe hk hr
        | update m =>
            obtain ⟨r, hr, h⟩ := Option.bind_eq_some_iff.mp h
            cases h
            exact .update htarget hpipe hk hr
      · rename_i htarget
        cases m with
        | query m =>
            cases h
            exact .respond (Nat.le_of_not_lt htarget) hpipe hk
        | anti m =>
            cases h
            exact .ignore (Nat.le_of_not_lt htarget) hpipe hk (by simp)
        | update m =>
            cases h
            exact .ignore (Nat.le_of_not_lt htarget) hpipe hk (by simp)
  | write clp ssvId originalAgent value timestamp =>
      simp only [step] at h
      split at h
      · rename_i hclp
        obtain ⟨r, hr, h⟩ := Option.bind_eq_some_iff.mp h
        cases h
        exact .write hclp (RangeClp.processWrite_ranged hr) (by simp) (by simp) (by simp) (by simp)
      · cases h
  | writeAnti clp ssvId originalAgent timestamp =>
      simp only [step] at h
      split at h
      · rename_i hclp
        obtain ⟨r, hr, h⟩ := Option.bind_eq_some_iff.mp h
        cases h
        exact .write hclp (RangeClp.processWriteAnti_ranged hr) (by simp) (by simp) (by simp) (by simp)
      · cases h
  | setGvt clp gvt =>
      simp only [step] at h
      split at h
      · rename_i hclp
        cases h
        exact .setGvt hclp
      · cases h

end RangeNetwork
end PdesMas
