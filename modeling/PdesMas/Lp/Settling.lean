import Mathlib.Data.Prod.Lex
import PdesMas.Lp.Conservation

/-!
The network settles. Once no variable is on the move and the ALPs send nothing,
every letter comes nearer to its goal with each step: a message of an agent to
the variable, where it may turn into answers, and an answer to the process of
its agent. So no schedule goes on for ever, and one that stops has brought every
letter to its goal, unless a process has ended.
-/

namespace PdesMas

namespace Network

open RouteTable (Attached)

variable {setup : Setup} {net net' : Network}

/-- A delivery, a receive or a send. -/
def Work : Event → Prop
  | .deliver .. | .receive .. | .send _ => True
  | .alpSend .. | .setGvt .. | .migrate .. => False

/-- A step in which a process or a link does something to the letters. -/
def Advances (setup : Setup) (net net' : Network) : Prop :=
  ∃ e o, Work e ∧ net.step setup e = .ok (net', o) ∧ net'.letters setup ≠ net.letters setup

/-- No variable is on the move; `host` is where each one is. -/
structure Resting (setup : Setup) (host : SsvId → Nat) (net : Network) : Prop where
  sound : Sound setup net
  unmoved : ∀ a b, net.migrations a b = []
  hosted : ∀ ssvId ∈ setup.initialisor.placements.map Prod.snd,
    Tracks setup net ssvId (.rest (host ssvId))

theorem still_deliver (hunmoved : ∀ a b, net.migrations a b = []) (i j : Nat) :
    Still net (net.deliver setup i j) := by
  simp only [deliver]
  split
  · exact ⟨fun _ => .refl _, fun _ _ => rfl⟩
  · rename_i t rest hlink
    cases t with
    | migration m =>
        have hmem : m ∈ net.migrations i j := by simp [migrations, hlink]
        rw [hunmoved] at hmem
        cases hmem
    | simulation m =>
        have hmigrations : ∀ a b, (net.setLink i j rest).migrations a b = net.migrations a b :=
          migrations_setLink (by simp [hlink])
        split
        · have hsame : SameHome (net.clp j) (receiveToLp (net.clp j) i (.simulation m)) :=
            ⟨rfl, rfl, fun _ => rfl, .refl _⟩
          refine ⟨sameHome_setClp hsame, fun a b => Eq.trans ?_ (hmigrations a b)⟩
          exact migrations_setClp _ j _ (by rfl) (by rfl) a b
        · exact ⟨fun _ => .refl _, hmigrations⟩

theorem queues_of_unmoved (hunmoved : ∀ a b, net.migrations a b = [])
    (x : Nat) : (net.clp x).receiveLoadBalancingMessageQueue = [] ∧
      (net.clp x).sendLoadBalancingMessageQueue = [] := by
  constructor
  · refine List.eq_nil_iff_forall_not_mem.mpr fun m hm => ?_
    have hmem : m ∈ net.migrations m.origin x := by simp [migrations, hm]
    rw [hunmoved] at hmem
    cases hmem
  · refine List.eq_nil_iff_forall_not_mem.mpr fun m hm => ?_
    have hmem : m ∈ net.migrations x m.destination := by simp [migrations, hm]
    rw [hunmoved] at hmem
    cases hmem

theorem still_receive {x : Nat} {clock : SsvId → Nat} {c : Clp} {r : Clp.Received}
    (hqueue : (net.clp x).receiveLoadBalancingMessageQueue = [])
    (hreceive : (net.clp x).receive setup.rollbacks clock = .ok (c, r)) :
    Still net (net.setClp x c) ∧ r ≠ .migrated := by
  simp only [Clp.receive, hqueue] at hreceive
  split at hreceive
  · rename_i m rest hmessages
    have hhandles := Clp.handles_of_receiveSimulation hreceive
    obtain ⟨hreceived, hsent⟩ := hhandles.migrations
    obtain ⟨hrank, hports, hroutes, hheld⟩ := sameHome_of_handles hhandles
    refine ⟨⟨sameHome_setClp ⟨hrank, hports, hroutes, hheld⟩,
      migrations_setClp net x c (hreceived.trans hqueue.symm) hsent⟩, ?_⟩
    rintro rfl
    generalize m.content = content at hhandles
    cases hhandles with
    | reply _ _ hr => rcases hr with hr | hr <;> cases hr
  · cases hreceive
    exact ⟨⟨sameHome_setClp (.refl _), migrations_setClp net x _ (by rfl) (by rfl)⟩, by simp⟩

theorem still_send {x : Nat} {c : Clp} {r : Clp.Sent}
    (hqueue : (net.clp x).sendLoadBalancingMessageQueue = [])
    (hsend : Clp.Sending (net.clp x) c r) : Still net ((net.setClp x c).put x r) := by
  cases hsend with
  | nothing => exact ⟨sameHome_setClp (.refl _), migrations_setClp net x _ (by rfl) (by rfl)⟩
  | simulation =>
      exact ⟨sameHome_setClp ⟨rfl, rfl, fun _ => rfl, .refl _⟩, fun a b =>
        (migrations_push_simulation _ _ _ _ a b).trans
          (migrations_setClp net x _ (by rfl) (by rfl) a b)⟩
  | migration hmigration =>
      rw [hqueue] at hmigration
      cases hmigration

/-- Where no variable moves, work moves none. -/
theorem still_of_work (hunmoved : ∀ a b, net.migrations a b = []) {e : Event} {o : Output}
    (hwork : Work e) (hstep : net.step setup e = .ok (net', o)) :
    Still net net' ∧ ∀ x, o ≠ .received x .migrated := by
  cases works_of_step hstep with
  | deliver i j => exact ⟨still_deliver hunmoved i j, nofun⟩
  | @receive x _ _ _ hx hreceive =>
      obtain ⟨hstill, hr⟩ := still_receive (queues_of_unmoved hunmoved x).1 hreceive
      exact ⟨hstill, fun y heq => hr (Output.received.inj heq).2⟩
  | @send x _ _ hx hsend =>
      exact ⟨still_send (queues_of_unmoved hunmoved x).2 (Clp.sending_of_send hsend), nofun⟩
  | idle => exact ⟨⟨fun _ => .refl _, fun _ _ => rfl⟩, nofun⟩
  | alpSend | setGvt | migrate => exact hwork.elim

theorem LeadsToNeighbours.of_work {e : Event} (h : Work e) : LeadsToNeighbours setup net e := by
  cases e with
  | migrate => exact h.elim
  | alpSend | deliver | receive | send | setGvt => trivial

theorem Resting.step {host : SsvId → Nat} (h : Resting setup host net)
    (hattached : Attached setup.numberOfClps setup.initialisor.alpToClpMap)
    (hhosts : ∀ e ∈ setup.initialisor.placements, e.1 < setup.numberOfClps) {e : Event}
    {o : Output} (hwork : Work e) (hstep : net.step setup e = .ok (net', o)) :
    Resting setup host net' ∧ Carries setup net net' e o ∧
      ∀ x, o ≠ .received x .migrated := by
  obtain ⟨hstill, hmigrated⟩ := still_of_work h.unmoved hwork hstep
  obtain ⟨hsound, hcarries⟩ := h.sound.step hattached hhosts (.of_work hwork) hstep
  exact ⟨⟨hsound, fun a b => (hstill.migrations a b).trans (h.unmoved a b),
    fun id hid => hstill.tracks (h.hosted id hid)⟩, hcarries, hmigrated⟩

section Weights

/-- How far a message of an agent is from its variable. -/
noncomputable def toHost (host : SsvId → Nat) (x : Nat) (m : AlpMessage) : Nat :=
  HeapTree.routing.graph.dist x ((m.ssvId?.map host).getD 0)

/-- Three steps for every edge to the host; where the letter is on its next edge decides which
of them are left. -/
noncomputable def messageWeight (host : SsvId → Nat) (letter : Letter) : Nat :=
  match letter.2.content, letter.1 with
  | .agent _ _ m, .received x => 3 * toHost host x m + 1
  | .agent _ _ m, .queued _ => 3 * toHost host letter.2.destination m + 3
  | .agent _ _ m, .link _ b => 3 * toHost host b m + 2
  | .response _, _ | .rollback _, _ => 0

noncomputable def replyWeight (setup : Setup) (letter : Letter) : Nat :=
  let toAgent := RouteTable.distance setup.numberOfClps setup.initialisor
  match letter.2.content.agent?, letter.1 with
  | none, _ => 0
  | some agent, .received x => 3 * toAgent x agent.rank + 1
  | some agent, .queued x => if x = agent.rank then 3 else 3 * toAgent x agent.rank
  | some agent, .link _ b => 3 * toAgent b agent.rank + 2

noncomputable def total (weight : Letter → Nat) (setup : Setup) (net : Network) : Nat :=
  ((net.letters setup).map weight).sum

variable {host : SsvId → Nat} {weight : Letter → Nat} {p p' : Spot} {m m' : SimulationMessage}
  {others : Multiset Letter} {l : List SimulationMessage}

theorem total_cons (h : net.letters setup = (p, m) ::ₘ others) :
    total weight setup net = weight (p, m) + (others.map weight).sum := by
  rw [total, h, Multiset.map_cons, Multiset.sum_cons]

theorem total_placed (h : net.letters setup = others + placed p l) :
    total weight setup net = (others.map weight).sum + (l.map fun m => weight (p, m)).sum := by
  rw [total, h, Multiset.map_add, Multiset.sum_add, placed, Multiset.map_coe, List.map_map,
    Multiset.sum_coe]
  rfl

/-- The measure: messages of agents first, since handling one may queue answers. -/
noncomputable def distanceToGo (setup : Setup) (host : SsvId → Nat) (net : Network) :
    Nat ×ₗ Nat :=
  toLex (total (messageWeight host) setup net, total (replyWeight setup) setup net)

theorem messageWeight_reply {agent : LpId} (h : m.content.agent? = some agent) :
    messageWeight host (p, m) = 0 := by
  obtain ⟨lastHop, destination, content⟩ := m
  cases content with
  | agent => cases h
  | response | rollback => rfl

theorem distanceToGo_lt (before : net.letters setup = (p, m) ::ₘ others)
    (after : net'.letters setup = others + placed p' l)
    (h : (l.map fun m => messageWeight host (p', m)).sum < messageWeight host (p, m) ∨
      (l.map fun m => messageWeight host (p', m)).sum = messageWeight host (p, m) ∧
        (l.map fun m => replyWeight setup (p', m)).sum < replyWeight setup (p, m)) :
    distanceToGo setup host net' < distanceToGo setup host net := by
  simp only [distanceToGo, Prod.Lex.toLex_lt_toLex, total_cons before, total_placed after]
  omega

/-- One letter for another. -/
theorem distanceToGo_moved (before : net.letters setup = (p, m) ::ₘ others)
    (after : net'.letters setup = (p', m') ::ₘ others)
    (h : messageWeight host (p', m') < messageWeight host (p, m) ∨
      messageWeight host (p', m') = messageWeight host (p, m) ∧
        replyWeight setup (p', m') < replyWeight setup (p, m)) :
    distanceToGo setup host net' < distanceToGo setup host net := by
  have hafter : net'.letters setup = others + placed p' [m'] := by
    rw [after, ← Multiset.singleton_add, Multiset.add_comm]
    rfl
  exact distanceToGo_lt before hafter (by simpa using h)

/-- An answer that comes nearer. -/
theorem nearer_of_reply {agent : LpId} (hagent : m.content.agent? = some agent)
    (hcontent : m'.content = m.content)
    (h : replyWeight setup (p', m') < replyWeight setup (p, m)) :
    messageWeight host (p', m') < messageWeight host (p, m) ∨
      messageWeight host (p', m') = messageWeight host (p, m) ∧
        replyWeight setup (p', m') < replyWeight setup (p, m) := by
  right
  rw [messageWeight_reply hagent, messageWeight_reply (by rw [hcontent, hagent])]
  exact ⟨rfl, h⟩

theorem lighter_delivered {a b : Nat} (hcontent : m'.content = m.content) :
    messageWeight host (.received b, m') < messageWeight host (.link a b, m) ∨
      messageWeight host (.received b, m') = messageWeight host (.link a b, m) ∧
        replyWeight setup (.received b, m') < replyWeight setup (.link a b, m) := by
  cases hagent : m.content.agent? with
  | some agent =>
      refine nearer_of_reply hagent hcontent ?_
      simp only [replyWeight, hcontent, hagent]
      omega
  | none =>
      left
      cases hm : m.content with
      | agent =>
          simp only [messageWeight, hcontent, hm]
          omega
      | response | rollback =>
          rw [hm] at hagent
          cases hagent

end Weights

section Decrease

variable {host : SsvId → Nat} (h : Resting setup host net)

include h in
theorem Resting.lighter_posted
    (hattached : Attached setup.numberOfClps setup.initialisor.alpToClpMap)
    (hhosts : ∀ e ∈ setup.initialisor.placements, e.1 < setup.numberOfClps) {x : Nat}
    (hx : x < setup.numberOfClps) {m m' : SimulationMessage}
    (hmem : (.queued x, m) ∈ net.letters setup)
    (hreaddresses : (net.clp x).Readdresses m m') :
    messageWeight host (.link x m'.destination, m') < messageWeight host (.queued x, m) ∨
      messageWeight host (.link x m'.destination, m') = messageWeight host (.queued x, m) ∧
        replyWeight setup (.link x m'.destination, m') < replyWeight setup (.queued x, m) := by
  have hdirected := h.sound.directed _ hmem
  cases hreaddresses with
  | message hagent =>
      left
      cases hm : m.content with
      | agent =>
          simp only [messageWeight, hm]
          omega
      | response | rollback =>
          rw [hm] at hagent
          cases hagent
  | @here agent hagent hhere =>
      have hself := h.sound.posted.tabled.eq_of_here hattached hx hhere
      refine nearer_of_reply hagent rfl ?_
      simp only [Directed, hagent] at hdirected
      have hdestination := hdirected.resolve_right fun hne => hne hself
      simp [replyWeight, hagent, hdestination, hself, RouteTable.distance]
  | @away agent direction y hagent hroute haway hport =>
      obtain ⟨hne, _, hnearer⟩ :=
        h.sound.posted.tabled.nearer hattached hhosts hx hroute haway hport
      refine nearer_of_reply hagent rfl ?_
      simp only [replyWeight, hagent, if_neg hne]
      omega

include h in
theorem Resting.lighter_treats
    (hattached : Attached setup.numberOfClps setup.initialisor.alpToClpMap)
    (hhosts : ∀ e ∈ setup.initialisor.placements, e.1 < setup.numberOfClps) {x : Nat}
    (hx : x < setup.numberOfClps) {m : SimulationMessage} {l : List SimulationMessage}
    {r : Clp.Received} (htreats : (net.clp x).Treats m.content l r) :
    (l.map fun m => messageWeight host (.queued x, m)).sum <
        messageWeight host (.received x, m) ∨
      (l.map fun m => messageWeight host (.queued x, m)).sum =
          messageWeight host (.received x, m) ∧
        (l.map fun m => replyWeight setup (.queued x, m)).sum <
          replyWeight setup (.received x, m) := by
  obtain ⟨lastHop, destination, content⟩ := m
  cases htreats with
  | @processed _ _ i _ responses rolls =>
      left
      have hnone : ((responses.map (·.sentBy (net.clp x).rank) ++
          rolls.map (·.sentBy (net.clp x).rank)).map
            (fun m => messageWeight host (.queued x, m))).sum = 0 := by
        refine List.sum_eq_zero fun n hn => ?_
        obtain ⟨m, hm, rfl⟩ := List.mem_map.mp hn
        rcases List.mem_append.mp hm with hm | hm
        · obtain ⟨r, _, rfl⟩ := List.mem_map.mp hm
          rfl
        · obtain ⟨r, _, rfl⟩ := List.mem_map.mp hm
          rfl
      rw [hnone]
      exact Nat.succ_pos _
  | @forwarded serial _ i ssvId direction y hid hroute haway hport =>
      left
      have hplaced : ssvId ∈ setup.initialisor.placements.map Prod.snd := by
        by_contra hnot
        cases ((h.sound.homed.absent ssvId hnot).route x hx).symm.trans hroute
      obtain ⟨hrest, hy, _⟩ :=
        (h.hosted ssvId hplaced).port_of_route h.sound.homed.wired hx hroute haway hport
      have hne : x ≠ host ssvId := fun heq => hrest (heq ▸ rfl)
      have hnext : y = HeapTree.nextHop x (host ssvId) := by
        rw [hy, TreeRouting.pointer, if_neg hne]
        rfl
      have hnearer := HeapTree.dist_nextHop hne
      simp only [List.map_cons, List.map_nil, List.sum_cons, List.sum_nil, messageWeight, toHost,
        hid, Option.map_some, Option.getD_some, hnext]
      omega
  | @passed _ agent direction y hagent hroute haway hport =>
      obtain ⟨hne, _⟩ := h.sound.posted.tabled.nearer hattached hhosts hx hroute haway hport
      have hweight : messageWeight host (.received x, ⟨lastHop, destination, content⟩) = 0 :=
        messageWeight_reply hagent
      have hqueued : messageWeight host (.queued x, ⟨(net.clp x).rank, y, content⟩) = 0 :=
        messageWeight_reply hagent
      right
      simp only [List.map_cons, List.map_nil, List.sum_cons, List.sum_nil, hweight, hqueued,
        replyWeight, hagent, if_neg hne]
      omega
  | dropped hagent hhere =>
      have hweight : messageWeight host (.received x, ⟨lastHop, destination, content⟩) = 0 :=
        messageWeight_reply hagent
      right
      simp only [List.map_nil, List.sum_nil, hweight, replyWeight, hagent]
      exact ⟨trivial, Nat.succ_pos _⟩

include h in
/-- A step of work leaves the letters alone or brings one nearer. -/
theorem Resting.nearer_of_carries
    (hattached : Attached setup.numberOfClps setup.initialisor.alpToClpMap)
    (hhosts : ∀ e ∈ setup.initialisor.placements, e.1 < setup.numberOfClps) {e : Event}
    {o : Output} (hwork : Work e) (hunmigrated : ∀ x, o ≠ .received x .migrated)
    (hcarries : Carries setup net net' e o) :
    (net'.letters setup = net.letters setup ∧ Quiet net e o ∧
        ∀ x, (net'.clp x).sendMessageQueue = (net.clp x).sendMessageQueue) ∨
      distanceToGo setup host net' < distanceToGo setup host net := by
  cases hcarries with
  | kept hkept queued quiet => exact .inl ⟨hkept, quiet, queued⟩
  | entered => exact hwork.elim
  | delivered _ _ before after =>
      exact .inr (distanceToGo_moved before after (lighter_delivered rfl))
  | @arrived a b m _ hb _ before =>
      obtain ⟨agent, hagent, _⟩ :=
        h.sound.arrived (a := a) (b := b) (m := m) (by simp [before]) hb
      have after : net'.letters setup = net'.letters setup + placed (.link a b) [] :=
        (add_zero _).symm
      refine .inr (distanceToGo_lt before after (.inr ?_))
      simp only [List.map_nil, List.sum_nil, messageWeight_reply hagent, replyWeight, hagent]
      exact ⟨trivial, Nat.succ_pos _⟩
  | handled hx _ treats _ before after =>
      exact .inr (distanceToGo_lt before after (h.lighter_treats hattached hhosts hx treats))
  | @posted x m m' others hx readdresses _ before after =>
      have hmem : (.queued x, m) ∈ net.letters setup := before ▸ Multiset.mem_cons_self _ _
      exact .inr (distanceToGo_moved before after
        (h.lighter_posted hattached hhosts hx hmem readdresses))
  | rolledBack _ _ cause =>
      rcases cause with ⟨_, _, rfl, _⟩ | ⟨_, _, rfl⟩
      · exact hwork.elim
      · exact absurd rfl (hunmigrated _)

include h in
theorem Resting.decreases
    (hattached : Attached setup.numberOfClps setup.initialisor.alpToClpMap)
    (hhosts : ∀ e ∈ setup.initialisor.placements, e.1 < setup.numberOfClps)
    (hadvances : Advances setup net net') :
    Resting setup host net' ∧ distanceToGo setup host net' < distanceToGo setup host net := by
  obtain ⟨e, o, hwork, hstep, hchanged⟩ := hadvances
  obtain ⟨hresting, hcarries, hunmigrated⟩ := h.step hattached hhosts hwork hstep
  exact ⟨hresting, (h.nearer_of_carries hattached hhosts hwork hunmigrated hcarries).resolve_left
    fun hkept => hchanged hkept.1⟩

end Decrease

section Runs

variable {host : SsvId → Nat}

theorem acc_advances (hattached : Attached setup.numberOfClps setup.initialisor.alpToClpMap)
    (hhosts : ∀ e ∈ setup.initialisor.placements, e.1 < setup.numberOfClps) :
    ∀ {net : Network}, Resting setup host net →
      Acc (fun after before => Advances setup before after) net := by
  have hwf : WellFounded (fun a b => distanceToGo setup host a < distanceToGo setup host b) :=
    InvImage.wf (distanceToGo setup host) wellFounded_lt
  intro net
  induction net using hwf.induction with
  | _ net ih =>
      intro h
      refine .intro net fun net' hadvances => ?_
      obtain ⟨h', hlt⟩ := h.decreases hattached hhosts hadvances
      exact ih net' hlt h'

/-- Some process can do something to a letter, or ends with an error. -/
def Busy (setup : Setup) (net : Network) : Prop :=
  (∃ net', Advances setup net net') ∨ ∃ e exit, Work e ∧ net.step setup e = .error exit

theorem busy_of_nearer {e : Event} {o : Output} (hwork : Work e)
    (hstep : net.step setup e = .ok (net', o))
    (hnearer : distanceToGo setup host net' < distanceToGo setup host net) : Busy setup net := by
  refine .inl ⟨net', e, o, hwork, hstep, fun heq => ?_⟩
  rw [distanceToGo, distanceToGo, total, total, total, total, heq] at hnearer
  exact lt_irrefl _ hnearer

theorem handled_of_receive {x : Nat} (hx : x < setup.numberOfClps) {clock : SsvId → Nat}
    {c : Clp} {r : Clp.Received} (hmigrations : (net.clp x).receiveLoadBalancingMessageQueue = [])
    (hmessages : (net.clp x).receiveMessageQueue ≠ [])
    (hreceive : (net.clp x).receive setup.rollbacks clock = .ok (c, r)) :
    ∃ m others l, (net.clp x).Treats m.content l r ∧
      net.letters setup = (.received x, m) ::ₘ others ∧
      (net.setClp x c).letters setup = others + placed (.queued x) l := by
  simp only [Clp.receive, hmigrations] at hreceive
  split at hreceive
  · rename_i m rest hqueue
    obtain ⟨l, htreats, hqueues⟩ := Clp.treats_of_receiveSimulation hreceive
    rw [← hmigrations] at hqueues
    obtain ⟨others, before, after⟩ := letters_handle hx hqueue hqueues
    exact ⟨m, others, l, htreats.congr rfl rfl rfl, before, after⟩
  · contradiction

theorem taken_of_send {c c' : Clp} {r : Clp.Sent}
    (hmigrations : c.sendLoadBalancingMessageQueue = [])
    (hmessages : c.sendMessageQueue ≠ []) (hsend : c.send = .ok (c', r)) :
    ∃ m, c.sendMessageQueue = m :: c'.sendMessageQueue := by
  cases Clp.dispatches_of_send hsend with
  | simulation hqueue => exact ⟨_, hqueue⟩
  | migration hqueue =>
      rw [hmigrations] at hqueue
      cases hqueue
  | nothing =>
      simp only [Clp.send] at hsend
      split at hsend
      · rename_i hqueue
        rw [hmigrations] at hqueue
        cases hqueue
      · split at hsend
        · split at hsend
          · cases (Prod.mk.inj (Except.ok.inj hsend)).2
          · obtain ⟨_, _, heq⟩ := bind_eq_ok.mp hsend
            cases (Prod.mk.inj (Except.ok.inj heq)).2
          · obtain ⟨_, _, heq⟩ := bind_eq_ok.mp hsend
            cases (Prod.mk.inj (Except.ok.inj heq)).2
        · contradiction

/-- The spot of a letter tells which step takes one there. -/
theorem Resting.busy (h : Resting setup host net)
    (hattached : Attached setup.numberOfClps setup.initialisor.alpToClpMap)
    (hhosts : ∀ e ∈ setup.initialisor.placements, e.1 < setup.numberOfClps)
    (hletters : net.letters setup ≠ 0) : Busy setup net := by
  obtain ⟨⟨p, m⟩, hmem⟩ := Multiset.exists_mem_of_ne_zero hletters
  obtain ⟨hspot, hat⟩ := Ledger.mem_bag.mp hmem
  cases p with
  | received x =>
      have hx := received_mem_spots.mp hspot
      have hwork : Work (.receive x fun _ => 0) := trivial
      cases hstep : net.step setup (.receive x fun _ => 0) with
      | error exit => exact .inr ⟨_, exit, hwork, hstep⟩
      | ok r =>
          suffices hnearer : distanceToGo setup host r.1 < distanceToGo setup host net from
            busy_of_nearer hwork hstep hnearer
          simp only [Network.step, if_pos hx] at hstep
          obtain ⟨⟨c, received⟩, hreceive, heq⟩ := bind_eq_ok.mp hstep
          cases heq
          obtain ⟨m, others, l, htreats, before, after⟩ := handled_of_receive hx
            (queues_of_unmoved h.unmoved x).1 (List.ne_nil_of_mem hat) hreceive
          exact distanceToGo_lt before after (h.lighter_treats hattached hhosts hx htreats)
  | queued x =>
      have hx := queued_mem_spots.mp hspot
      have hwork : Work (.send x) := trivial
      cases hstep : net.step setup (.send x) with
      | error exit => exact .inr ⟨_, exit, hwork, hstep⟩
      | ok r =>
          obtain ⟨_, hcarries, hunmigrated⟩ := h.step hattached hhosts hwork hstep
          refine (h.nearer_of_carries hattached hhosts hwork hunmigrated hcarries).elim
            (fun hkept => ?_) (busy_of_nearer hwork hstep)
          simp only [Network.step, if_pos hx] at hstep
          obtain ⟨⟨c, sent⟩, hsend, heq⟩ := bind_eq_ok.mp hstep
          cases heq
          obtain ⟨m₀, hqueue⟩ := taken_of_send (queues_of_unmoved h.unmoved x).2
            (List.ne_nil_of_mem hat) hsend
          have hsame : c.sendMessageQueue = (net.clp x).sendMessageQueue := by
            have hx := hkept.2.2 x
            cases sent <;> simpa [put, push] using hx
          rw [hsame] at hqueue
          exact absurd hqueue (List.cons_ne_self _ _).symm
  | link a b =>
      have hwork : Work (.deliver a b) := trivial
      have hstep : net.step setup (.deliver a b) = .ok (net.deliver setup a b, .nothing) := rfl
      obtain ⟨_, hcarries, hunmigrated⟩ := h.step hattached hhosts hwork hstep
      refine (h.nearer_of_carries hattached hhosts hwork hunmigrated hcarries).elim
        (fun hkept => ?_) (busy_of_nearer hwork hstep)
      rcases hkept.2.1 with ⟨_, hhead⟩ | ⟨_, _, _, heq, _⟩
      · have hunmoved := h.unmoved a b
        cases hlink : net.link a b with
        | nil => simp [messagesAt, hlink, simulationsOf] at hat
        | cons t rest =>
            cases t with
            | simulation m₀ => exact absurd hlink (hhead a b m₀ rest rfl)
            | migration m₀ => simp [migrations, hlink] at hunmoved
      · cases heq

theorem resting_of_reachable
    (hattached : Attached setup.numberOfClps setup.initialisor.alpToClpMap)
    (hreach : (machine setup).Reachable (Initial setup) (LeadsToNeighbours setup) net)
    (hunmoved : ∀ a b, net.migrations a b = []) :
    (∀ e ∈ setup.initialisor.placements, e.1 < setup.numberOfClps) ∧
      ∃ host, Resting setup host net := by
  have hplaces : setup.initialisor.PlacesOnce setup.numberOfClps :=
    hreach.invariant (fun _ => _) (fun _ h => h.places) fun _ _ _ _ hplaces _ _ => hplaces
  have hsound : Sound setup net :=
    hreach.invariant (Sound setup) (fun _ h => h.sound) fun _ _ _ _ h ha hs =>
      (h.step hattached hplaces.2 ha (machine_step.mp hs)).1
  have hhosted : ∀ id, ∃ x, id ∈ setup.initialisor.placements.map Prod.snd →
      Tracks setup net id (.rest x) := by
    intro id
    by_cases hid : id ∈ setup.initialisor.placements.map Prod.snd
    · obtain ⟨p, hp⟩ := hsound.homed.tracked id hid
      cases p with
      | rest x => exact ⟨x, fun _ => hp⟩
      | move a b =>
          have hcarried := hp.carried a b
          simp [carried, hunmoved] at hcarried
    · exact ⟨0, fun h => absurd h hid⟩
  obtain ⟨host, hhost⟩ := Classical.skolem.mp hhosted
  exact ⟨hplaces.2, host, hsound, hunmoved, hhost⟩

/-- Once no variable is on the move and the ALPs send nothing, every schedule of the CLPs and
the links comes to an end, and it ends with no letter on its way or a process that exits. -/
theorem settles (hattached : Attached setup.numberOfClps setup.initialisor.alpToClpMap)
    (hreach : (machine setup).Reachable (Initial setup) (LeadsToNeighbours setup) net)
    (hunmoved : ∀ a b, net.migrations a b = []) :
    Acc (fun after before => Advances setup before after) net ∧
      ∀ net', Relation.ReflTransGen (Advances setup) net net' →
        (∀ a b, net'.migrations a b = []) ∧
          ((∀ net'', ¬ Advances setup net' net'') → net'.letters setup = 0 ∨
            ∃ e exit, Work e ∧ net'.step setup e = .error exit) := by
  obtain ⟨hhosts, host, h⟩ := resting_of_reachable hattached hreach hunmoved
  refine ⟨acc_advances hattached hhosts h, fun net' hsteps => ?_⟩
  have h' : Resting setup host net' := by
    induction hsteps with
    | refl => exact h
    | tail _ hlast ih => exact (ih.decreases hattached hhosts hlast).1
  refine ⟨h'.unmoved, fun hstuck => ?_⟩
  by_contra hnot
  obtain ⟨hletters, hok⟩ := not_or.mp hnot
  rcases h'.busy hattached hhosts hletters with ⟨net'', hadvances⟩ | hexit
  · exact hstuck net'' hadvances
  · exact hok hexit

/-- The network of `pair` with the write on its way. -/
def writeSent : Network := ((create pair).alpSend pair 2 (.request write)).1

theorem settles_written :
    Acc (fun after before => Advances pair before after) writeSent ∧
      ∀ net', Relation.ReflTransGen (Advances pair) writeSent net' →
        (∀ a b, net'.migrations a b = []) ∧
          ((∀ net'', ¬ Advances pair net' net'') → net'.letters pair = 0 ∨
            ∃ e exit, Work e ∧ net'.step pair e = .error exit) := by
  have hreach : (machine pair).Reachable (Initial pair) (LeadsToNeighbours pair) writeSent :=
    .step (.start initial_pair)
      (show LeadsToNeighbours pair (create pair) (.alpSend 2 (.request write)) from trivial) rfl
  refine settles attached_pair hreach fun a b => ?_
  have hqueues := initial_pair.queues
  have hpush : writeSent.migrations a b = (create pair).migrations a b :=
    migrations_push_simulation (create pair) 2 1 ⟨2, 1, .agent 0 0 (.request write)⟩ a b
  rw [hpush]
  simp [migrations, initial_pair.links, hqueues]

end Runs

end Network
end PdesMas
