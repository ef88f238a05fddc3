import PdesMas.Lp.AnsweredAgents
import PdesMas.Lp.Conservation

/-!
The whole simulation: the CLPs with their links, the ALPs with their agents, and
the messages an ALP has received. What an ALP sends enters the network, and what
the network brings to its rank goes into its queue. Range queries are left out.
-/

namespace PdesMas

/-- Nothing but a read from below GVT comes too late. -/
def Content.inTime (gvt : Nat) : Content → Bool
  | .agent _ _ (.request q) => q.due gvt
  | .agent _ _ (.anti _) | .response _ | .rollback _ => true

structure Simulation where
  network : Network
  alp : Nat → Alp
  receiveMessageQueue : Nat → List Content

namespace Simulation

/-- A step of the ALP of a rank and its agents, or of a CLP or a link. -/
inductive Event where
  | alp (rank : Nat) (e : Alp.Event)
  | network (e : Network.Event)

inductive Output where
  | alp (rank : Nat) (r : Alp.Result)
  | network (o : Network.Output)

/-- The message that comes in with the event. -/
def received : Alp.Event → Option Content
  | .receiveResponse m => some (.response m)
  | .receiveRollback m => some (.rollback m)
  | .issue .. | .timeWrap .. | .send | .consume _ | .setGvt _ => none

/-- `Alp::Receive` takes the first message of the queue. -/
def dequeueMessage (content : Option Content) (queue : List Content) : Option (List Content) :=
  match content, queue with
  | none, queue => some queue
  | some content, first :: rest => if first = content then some rest else none
  | some _, [] => none

variable (setup : Setup)

/-- What an ALP has sent enters the network. -/
def enter (net : Network) (rank : Nat) : Alp.Result → Network
  | .sent m => (net.alpSend setup rank m).1
  | .done | .consumed .. | .processed _ => net

def stepAlp (s : Simulation) (rank : Nat) (e : Alp.Event) : Option (Simulation × Alp.Result) :=
  if rank ∈ setup.initialisor.alpToClpMap then do
    let queue ← dequeueMessage (received e) (s.receiveMessageQueue rank)
    let (alp', r) ← (s.alp rank).step e
    some ({ network := enter setup s.network rank r
            alp := Function.update s.alp rank alp'
            receiveMessageQueue := Function.update s.receiveMessageQueue rank queue }, r)
  else none

/-- What arrives at an ALP in a step of the network. -/
def arrivalsAt (net : Network) (e : Network.Event) (rank : Nat) : List Content :=
  ((net.arrivals setup e).filter fun a => a.1 == rank).map Prod.snd

def stepNetwork (s : Simulation) (e : Network.Event) : Option (Simulation × Network.Output) :=
  match s.network.step setup e with
  | .ok (network, o) =>
      some ({ s with
        network := network
        receiveMessageQueue := fun rank =>
          s.receiveMessageQueue rank ++ arrivalsAt setup s.network e rank }, o)
  | .error _ => none

def step (s : Simulation) : Event → Option (Simulation × Output)
  | .alp rank e => (s.stepAlp setup rank e).map fun r => (r.1, .alp rank r.2)
  | .network (.alpSend ..) => none
  | .network e => (s.stepNetwork setup e).map fun r => (r.1, .network r.2)

def machine : Machine Simulation Event Output where
  step := step setup

/-- Every process as its constructor and `AddAgent` leave it. -/
structure Initial (s : Simulation) : Prop where
  network : s.network.Initial setup
  alps : ∀ rank, rank ∈ setup.initialisor.alpToClpMap → ∃ agentIds,
    s.alp rank = Alp.create rank setup.startTime setup.numberOfClps
      setup.initialisor.alpToClpMap.size agentIds
  queues : ∀ rank, s.receiveMessageQueue rank = []

/-- The agents read and write variables. -/
def ReadsOrWrites : Alp.Event → Prop
  | .issue _ (.rangeQuery _) _ => False
  | .issue _ (.singleRead _) _ | .issue _ (.write ..) _ | .timeWrap .. | .send
  | .receiveResponse _ | .consume _ | .receiveRollback _ | .setGvt _ => True

/-- No executed rollback leaves a write of its agent in the queue. -/
def SparesNoUnsent (alp : Alp) : Alp.Event → Prop
  | .receiveRollback m => Alp.Executes alp m → Dialogue.NoUnsentWriteAt alp m
  | .issue .. | .timeWrap .. | .send | .receiveResponse _ | .consume _ | .setGvt _ => True

def Permitted (s : Simulation) : Event → Prop
  | .alp rank e =>
      ReadsOrWrites e ∧ Alp.FreshIds (s.alp rank) e ∧ SparesNoUnsent (s.alp rank) e
  | .network e => Network.LeadsToNeighbours setup s.network e

/-- No CLP receives a read from below its GVT. -/
def InTime (s : Simulation) : Event → Prop
  | .network (.receive x _) =>
      (s.network.clp x).receiveMessageQueue.head?.all fun m =>
        m.content.inTime (s.network.clp x).gvt
  | .alp .. | .network (.alpSend ..) | .network (.deliver ..) | .network (.send _)
  | .network (.setGvt ..) | .network (.migrate ..) => True

instance : DecidablePred ReadsOrWrites
  | .issue _ (.rangeQuery _) _ => inferInstanceAs (Decidable False)
  | .issue _ (.singleRead _) _ | .issue _ (.write ..) _ | .timeWrap .. | .send
  | .receiveResponse _ | .consume _ | .receiveRollback _ | .setGvt _ =>
      inferInstanceAs (Decidable True)

instance (alp : Alp) : DecidablePred (SparesNoUnsent alp)
  | .receiveRollback m => inferInstanceAs (Decidable (Alp.Executes alp m → _))
  | .issue .. | .timeWrap .. | .send | .receiveResponse _ | .consume _ | .setGvt _ =>
      inferInstanceAs (Decidable True)

instance (s : Simulation) : DecidablePred (Permitted setup s)
  | .alp rank e => inferInstanceAs (Decidable (_ ∧ Alp.FreshIds (s.alp rank) e ∧ _))
  | .network e => inferInstanceAs (Decidable (Network.LeadsToNeighbours setup s.network e))

instance (s : Simulation) : DecidablePred (InTime s)
  | .network (.receive ..) => inferInstanceAs (Decidable (Option.all _ _ = true))
  | .alp .. | .network (.alpSend ..) | .network (.deliver ..) | .network (.send _)
  | .network (.setGvt ..) | .network (.migrate ..) => inferInstanceAs (Decidable True)

variable {setup} {s s' : Simulation}

/-- What a step of the simulation consists of. -/
inductive Acts (setup : Setup) (s : Simulation) : Event → Simulation → Prop
  | alp {rank e queue alp' r} (hrank : rank ∈ setup.initialisor.alpToClpMap)
      (hqueue : s.receiveMessageQueue rank = (received e).toList ++ queue)
      (hstep : (s.alp rank).step e = some (alp', r)) :
      Acts setup s (.alp rank e)
        { network := enter setup s.network rank r
          alp := Function.update s.alp rank alp'
          receiveMessageQueue := Function.update s.receiveMessageQueue rank queue }
  | network {e network o} (hinner : ∀ rank m, e ≠ .alpSend rank m)
      (hstep : s.network.step setup e = .ok (network, o)) :
      Acts setup s (.network e)
        { s with
          network := network
          receiveMessageQueue := fun rank =>
            s.receiveMessageQueue rank ++ arrivalsAt setup s.network e rank }

theorem dequeueMessage_eq_some {content : Option Content} {queue rest : List Content}
    (h : dequeueMessage content queue = some rest) : queue = content.toList ++ rest := by
  cases content with
  | none =>
      cases h
      rfl
  | some content =>
      cases queue with
      | nil => cases h
      | cons first queue =>
          simp only [dequeueMessage] at h
          split at h
          · rename_i heq
            cases h
            rw [heq]
            rfl
          · cases h

theorem acts_of_step {e : Event} {o : Output} (h : s.step setup e = some (s', o)) :
    Acts setup s e s' := by
  cases e with
  | alp rank e =>
      obtain ⟨⟨_, r⟩, hs, heq⟩ := Option.map_eq_some_iff.mp h
      cases heq
      simp only [stepAlp] at hs
      split at hs
      · rename_i hrank
        obtain ⟨queue, hqueue, hs⟩ := Option.bind_eq_some_iff.mp hs
        obtain ⟨⟨alp', _⟩, hstep, hs⟩ := Option.bind_eq_some_iff.mp hs
        cases hs
        exact .alp hrank (dequeueMessage_eq_some hqueue) hstep
      · cases hs
  | network e =>
      have hstepped : ∀ {e o}, (∀ rank m, e ≠ .alpSend rank m) →
          (s.stepNetwork setup e).map (fun r => (r.1, Output.network r.2)) = some (s', o) →
            Acts setup s (.network e) s' := by
        intro e o hinner h
        obtain ⟨⟨_, o⟩, hs, heq⟩ := Option.map_eq_some_iff.mp h
        cases heq
        simp only [stepNetwork] at hs
        split at hs
        · rename_i hstep
          cases hs
          exact .network hinner hstep
        · cases hs
      cases e with
      | alpSend => cases h
      | deliver | receive | send | setGvt | migrate => exact hstepped nofun h

end Simulation
end PdesMas
