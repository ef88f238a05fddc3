import PdesMas.Library.Machine
import PdesMas.Lp.Clp

/-!
The CLPs of a simulation and the links between its processes. Every ordered pair
of processes has a first-in-first-out link. An ALP appears as the sender of its
agents' messages and as the end of what is sent to it. An event that finds
nothing to do changes nothing.
-/

namespace PdesMas

inductive Transfer where
  | simulation (m : SimulationMessage)
  | migration (m : StateMigrationMessage)

structure Network where
  clp : Nat → Clp
  link : Nat → Nat → List Transfer
  sent : Nat

namespace Network

inductive Event where
  | alpSend (alp : Nat) (m : AlpMessage)
  | deliver (source target : Nat)
  | receive (clp : Nat) (clock : SsvId → Nat)
  | send (clp : Nat)
  | setGvt (clp gvt : Nat)
  | migrate (clp : Nat) (migrationMap : List (Direction × List SsvId)) (clock : SsvId → Nat)

inductive Output where
  | nothing
  | sent (alp serial : Nat) (m : AlpMessage)
  | received (clp : Nat) (r : Clp.Received)
deriving DecidableEq, Repr

def setClp (net : Network) (rank : Nat) (c : Clp) : Network :=
  { net with clp := Function.update net.clp rank c }

def setLink (net : Network) (source target : Nat) (l : List Transfer) : Network :=
  { net with
    link := Function.update net.link source (Function.update (net.link source) target l) }

def push (net : Network) (source target : Nat) (t : Transfer) : Network :=
  net.setLink source target (net.link source target ++ [t])

/-- `ReceiveToLp`. -/
def receiveToLp (c : Clp) (source : Nat) : Transfer → Clp
  | .simulation m =>
      { c with receiveMessageQueue := c.receiveMessageQueue ++ [{ m with lastHop := source }] }
  | .migration m =>
      { c with
        receiveLoadBalancingMessageQueue := c.receiveLoadBalancingMessageQueue ++ [m] }

variable (setup : Setup)

def alpSend (net : Network) (alp : Nat) (m : AlpMessage) : Network × Output :=
  match setup.initialisor.alpToClpMap[alp]? with
  | some clp =>
      if setup.numberOfClps ≤ alp ∧ m.ssvId?.isSome then
        ({ net.push alp clp (.simulation ⟨alp, clp, .agent net.sent 0 m⟩) with
          sent := net.sent + 1 }, .sent alp net.sent m)
      else (net, .nothing)
  | none => (net, .nothing)

def deliver (net : Network) (source target : Nat) : Network :=
  match net.link source target with
  | [] => net
  | t :: rest =>
      let net := net.setLink source target rest
      if target < setup.numberOfClps then
        net.setClp target (receiveToLp (net.clp target) source t)
      else net

def put (net : Network) (source : Nat) : Clp.Sent → Network
  | .nothing => net
  | .simulation m => net.push source m.destination (.simulation m)
  | .migration m => net.push source m.destination (.migration m)

def step (net : Network) : Event → Except Exit (Network × Output)
  | .alpSend alp m => .ok (net.alpSend setup alp m)
  | .deliver source target => .ok (net.deliver setup source target, .nothing)
  | .receive clp clock =>
      if clp < setup.numberOfClps then do
        let r ← (net.clp clp).receive setup.rollbacks clock
        .ok (net.setClp clp r.1, .received clp r.2)
      else .ok (net, .nothing)
  | .send clp =>
      if clp < setup.numberOfClps then do
        let r ← (net.clp clp).send
        .ok ((net.setClp clp r.1).put clp r.2, .nothing)
      else .ok (net, .nothing)
  | .setGvt clp gvt =>
      if clp < setup.numberOfClps then .ok (net.setClp clp ((net.clp clp).setGvt gvt), .nothing)
      else .ok (net, .nothing)
  | .migrate clp migrationMap clock =>
      if clp < setup.numberOfClps then do
        let c ← (net.clp clp).migrateStateVariables setup.rollbacks clock migrationMap
        .ok (net.setClp clp c, .nothing)
      else .ok (net, .nothing)

def machine : Machine Network Event Output where
  step net e := (net.step setup e).toOption

/-- The network as the constructors of the CLPs leave it. -/
def create : Network where
  clp rank :=
    match Clp.create setup rank with
    | .ok c => c
    | .error _ => .idle rank
  link := fun _ _ => []
  sent := 0

/-- Every CLP as its constructor leaves it, nothing on the way, and every variable
placed on one CLP. -/
structure Initial (net : Network) : Prop where
  places : setup.initialisor.PlacesOnce setup.numberOfClps
  clps : ∀ rank, rank < setup.numberOfClps → Clp.create setup rank = .ok (net.clp rank)
  links : ∀ source target, net.link source target = []
  queues : ∀ rank, (net.clp rank).sendMessageQueue = [] ∧
    (net.clp rank).receiveMessageQueue = [] ∧
    (net.clp rank).sendLoadBalancingMessageQueue = [] ∧
    (net.clp rank).receiveLoadBalancingMessageQueue = []

/-- A migration goes in directions that lead to neighbouring CLPs, and takes variables
the CLP holds, each once. -/
def LeadsToNeighbours (net : Network) : Event → Prop
  | .migrate clp migrationMap _ =>
      (∀ e ∈ migrationMap, ∃ target, target < setup.numberOfClps ∧
        (net.clp clp).routeTable.getRankFromDirection e.1 = some target) ∧
      (migrationMap.flatMap Prod.snd).Nodup ∧
      ∀ ssvId ∈ migrationMap.flatMap Prod.snd,
        (net.clp clp).sharedState.containsVariable ssvId = true
  | _ => True

/-- The state migrations on a link. -/
def migrationsOf (l : List Transfer) : List StateMigrationMessage :=
  l.filterMap fun
    | .migration m => some m
    | .simulation _ => none

/-- The state migrations from `source` to `target`: received, on the link and queued
for sending. -/
def migrations (net : Network) (source target : Nat) : List StateMigrationMessage :=
  ((net.clp target).receiveLoadBalancingMessageQueue.filter fun m => m.origin = source) ++
    migrationsOf (net.link source target) ++
    ((net.clp source).sendLoadBalancingMessageQueue.filter fun m => m.destination = target)

end Network
end PdesMas
