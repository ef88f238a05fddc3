import PdesMas.Lp.Letters
import PdesMas.Routing.Bearings

/-!
What a step of the network does to its letters. The tables keep the ranks they
were created with, so that no letter leaves the links of the simulation.
-/

namespace PdesMas.Network

open RouteTable (Attached)

variable {setup : Setup} {net net' : Network}

/-- The table of a CLP has the entries and the ports it was created with. -/
def Tabled (setup : Setup) (net : Network) : Prop :=
  ∀ x, x < setup.numberOfClps → ∃ t,
    RouteTable.create x setup.numberOfClps setup.initialisor = some t ∧
      (net.clp x).routeTable.rankToDirectionMap = t.rankToDirectionMap ∧
      (net.clp x).routeTable.directionToRankMap = t.directionToRankMap

/-- The letter is for a process of the simulation, or for that of its agent. -/
def Addressed (setup : Setup) (m : SimulationMessage) : Prop :=
  m.destination < numberOfProcesses setup ∨
    ∃ agent, m.content.agent? = some agent ∧ m.destination = agent.rank

/-- What holds of the letters in every state a run reaches. -/
structure Posted (setup : Setup) (net : Network) : Prop where
  tabled : Tabled setup net
  inside : ∀ a b, net.messagesAt (.link a b) ≠ [] → .link a b ∈ spots setup
  addressed : ∀ x, x < setup.numberOfClps → ∀ m ∈ (net.clp x).sendMessageQueue,
    Addressed setup m

section Tables

variable {x r : Nat} (h : Tabled setup net)

include h in
theorem Tabled.port_lt {d : Direction} (hx : x < setup.numberOfClps)
    (hport : (net.clp x).routeTable.getRankFromDirection d = some r) :
    r < numberOfProcesses setup := by
  obtain ⟨t, ht, _, hports⟩ := h x hx
  rw [RouteTable.getRankFromDirection, hports] at hport
  exact RouteTable.port_lt ht hport

include h in
theorem Tabled.eq_of_here (hattached : Attached setup.numberOfClps setup.initialisor.alpToClpMap)
    (hx : x < setup.numberOfClps)
    (hhere : (net.clp x).routeTable.getDirectionFromRank r = some .HERE) : r = x := by
  obtain ⟨t, ht, hranks, _⟩ := h x hx
  rw [RouteTable.getDirectionFromRank, hranks] at hhere
  exact RouteTable.eq_of_direction_here hattached hx ht hhere

include h in
theorem Tabled.here_self (hx : x < setup.numberOfClps) :
    (net.clp x).routeTable.getDirectionFromRank x = some .HERE := by
  obtain ⟨t, ht, hranks, _⟩ := h x hx
  rw [RouteTable.getDirectionFromRank, hranks]
  have hself := (RouteTable.directs_create hx ht).clp x hx
  rwa [RouteTable.directionTo_self] at hself

include h in
/-- The next process on the way to a rank is a CLP or has that rank, and is nearer. -/
theorem Tabled.nearer (hattached : Attached setup.numberOfClps setup.initialisor.alpToClpMap)
    (hhosts : ∀ e ∈ setup.initialisor.placements, e.1 < setup.numberOfClps) {d : Direction}
    {y : Nat} (hx : x < setup.numberOfClps)
    (hroute : (net.clp x).routeTable.getDirectionFromRank r = some d) (haway : d ≠ .HERE)
    (hport : (net.clp x).routeTable.getRankFromDirection d = some y) :
    x ≠ r ∧ (y < setup.numberOfClps ∨ y = r) ∧
      RouteTable.distance setup.numberOfClps setup.initialisor y r + 1 =
        RouteTable.distance setup.numberOfClps setup.initialisor x r := by
  have hne : x ≠ r := by
    rintro rfl
    exact haway (Option.some.inj (hroute.symm.trans (h.here_self hx)))
  obtain ⟨t, ht, hranks, hports⟩ := h x hx
  rw [RouteTable.getDirectionFromRank, hranks] at hroute
  rw [RouteTable.getRankFromDirection, hports] at hport
  have hlt := RouteTable.entriesBelow_create hx hattached.clps ht r d hroute
  have hdest : r < setup.numberOfClps ∨ r ∈ setup.initialisor.alpToClpMap := by
    by_cases hclp : r < setup.numberOfClps
    · exact .inl hclp
    · exact .inr ((hattached.ranks r).mpr ⟨Nat.le_of_not_lt hclp, hlt⟩)
  refine ⟨hne, RouteTable.hop_nearer hattached hhosts hx hdest hne ?_⟩
  simp only [RouteTable.hop, ht, Option.bind_eq_bind, Option.bind_some]
  exact Option.bind_eq_some_iff.mpr ⟨d, hroute, hport⟩

theorem Tabled.setClp {x : Nat} (h : Tabled setup net) {c' : Clp}
    (hranks : c'.routeTable.rankToDirectionMap = (net.clp x).routeTable.rankToDirectionMap)
    (hports : c'.routeTable.directionToRankMap = (net.clp x).routeTable.directionToRankMap) :
    Tabled setup (net.setClp x c') := by
  intro y hy
  by_cases hyx : y = x
  · subst hyx
    obtain ⟨t, ht, hranks', hports'⟩ := h y hy
    rw [setClp_self]
    exact ⟨t, ht, hranks.trans hranks', hports.trans hports'⟩
  · rw [setClp_of_ne net c' hyx]
    exact h y hy

end Tables

theorem sendMessageQueue_setClp {x : Nat} {c : Clp}
    (h : c.sendMessageQueue = (net.clp x).sendMessageQueue) (y : Nat) :
    ((net.setClp x c).clp y).sendMessageQueue = (net.clp y).sendMessageQueue := by
  by_cases hy : y = x
  · rw [hy, setClp_self, h]
  · rw [setClp_of_ne net c hy]

/-- No letter is taken from a link, and none is processed. -/
def Quiet (net : Network) (e : Event) (o : Output) : Prop :=
  (o = .nothing ∧ ∀ a b m rest, e = .deliver a b → net.link a b ≠ .simulation m :: rest) ∨
    ∃ x clock r, e = .receive x clock ∧ o = .received x r ∧ (r = .nothing ∨ r = .forwarded)

/-- How a step changes the letters. -/
inductive Carries (setup : Setup) (net net' : Network) : Event → Output → Prop
  | kept {e o} (letters : net'.letters setup = net.letters setup)
      (queued : ∀ x, (net'.clp x).sendMessageQueue = (net.clp x).sendMessageQueue)
      (quiet : Quiet net e o) :
      Carries setup net net' e o
  | entered {alp clp m} (halp : setup.numberOfClps ≤ alp)
      (hclp : setup.initialisor.alpToClpMap[alp]? = some clp) (hid : m.ssvId?.isSome = true)
      (letters : net'.letters setup =
        (.link alp clp, ⟨alp, clp, .agent net.sent 0 m⟩) ::ₘ net.letters setup) :
      Carries setup net net' (.alpSend alp m) (.sent alp net.sent m)
  | delivered {a b m rest} {others : Multiset Letter} (hb : b < setup.numberOfClps)
      (hlink : net.link a b = .simulation m :: rest)
      (before : net.letters setup = (.link a b, m) ::ₘ others)
      (after : net'.letters setup = (.received b, { m with lastHop := a }) ::ₘ others) :
      Carries setup net net' (.deliver a b) .nothing
  | arrived {a b m rest} (hb : setup.numberOfClps ≤ b)
      (hlink : net.link a b = .simulation m :: rest)
      (before : net.letters setup = (.link a b, m) ::ₘ net'.letters setup) :
      Carries setup net net' (.deliver a b) .nothing
  | handled {x clock m rest l r} {others : Multiset Letter} (hx : x < setup.numberOfClps)
      (hqueue : (net.clp x).receiveMessageQueue = m :: rest)
      (treats : (net.clp x).Treats m.content l r)
      (queued : (net'.clp x).sendMessageQueue = (net.clp x).sendMessageQueue ++ l)
      (before : net.letters setup = (.received x, m) ::ₘ others)
      (after : net'.letters setup = others + placed (.queued x) l) :
      Carries setup net net' (.receive x clock) (.received x r)
  | posted {x m m'} {others : Multiset Letter} (hx : x < setup.numberOfClps)
      (readdresses : (net.clp x).Readdresses m m')
      (target : m'.destination < numberOfProcesses setup)
      (before : net.letters setup = (.queued x, m) ::ₘ others)
      (after : net'.letters setup = (.link x m'.destination, m') ::ₘ others) :
      Carries setup net net' (.send x) .nothing
  | rolledBack {x e o} (rolls : List RollbackMessage) (hx : x < setup.numberOfClps)
      (cause : (∃ migrationMap clock, e = .migrate x migrationMap clock ∧ o = .nothing) ∨
        ∃ clock, e = .receive x clock ∧ o = .received x .migrated)
      (queued : (net'.clp x).sendMessageQueue =
        (net.clp x).sendMessageQueue ++ rolls.map (·.sentBy x))
      (after : net'.letters setup =
        net.letters setup + placed (.queued x) (rolls.map (·.sentBy x))) :
      Carries setup net net' e o

section Steps

/-- A readdressed letter stays inside the simulation. -/
theorem Posted.target_lt (h : Posted setup net)
    (hattached : Attached setup.numberOfClps setup.initialisor.alpToClpMap) {x : Nat}
    (hx : x < setup.numberOfClps) {m m' : SimulationMessage}
    (hm : m ∈ (net.clp x).sendMessageQueue) (hreaddresses : (net.clp x).Readdresses m m') :
    m'.destination < numberOfProcesses setup := by
  have haddressed := h.addressed x hx m hm
  cases hreaddresses with
  | message hagent =>
      rcases haddressed with hlt | ⟨agent, hsome, _⟩
      · exact hlt
      · cases hagent.symm.trans hsome
  | @here agent hagent hhere =>
      rcases haddressed with hlt | ⟨agent', hsome, heq⟩
      · exact hlt
      · obtain rfl := Option.some.inj (hagent.symm.trans hsome)
        rw [heq, h.tabled.eq_of_here hattached hx hhere]
        exact Nat.lt_of_lt_of_le hx (Nat.le_add_right _ _)
  | away _ _ _ hport => exact h.tabled.port_lt hx hport

/-- What a CLP queues is addressed. -/
theorem Posted.treats_addressed (h : Posted setup net) {x : Nat} (hx : x < setup.numberOfClps)
    {content : Content} {l : List SimulationMessage} {r : Clp.Received}
    (htreats : (net.clp x).Treats content l r) : ∀ m ∈ l, Addressed setup m := by
  intro m hm
  cases htreats with
  | processed =>
      right
      rcases List.mem_append.mp hm with hm | hm
      · obtain ⟨r, _, rfl⟩ := List.mem_map.mp hm
        exact ⟨r.originalAgent, rfl, rfl⟩
      · obtain ⟨r, _, rfl⟩ := List.mem_map.mp hm
        exact ⟨r.originalAgent, rfl, rfl⟩
  | forwarded _ _ _ hport | passed _ _ _ hport =>
      obtain rfl := List.mem_singleton.mp hm
      exact .inl (h.tabled.port_lt hx hport)
  | dropped => cases hm

/-- A CLP that queues addressed letters, or takes some away, leaves the rest in order. -/
theorem Posted.setClp (h : Posted setup net) {x : Nat} {c' : Clp}
    (hranks : c'.routeTable.rankToDirectionMap = (net.clp x).routeTable.rankToDirectionMap)
    (hports : c'.routeTable.directionToRankMap = (net.clp x).routeTable.directionToRankMap)
    (hqueued : ∀ m ∈ c'.sendMessageQueue,
      m ∈ (net.clp x).sendMessageQueue ∨ Addressed setup m) :
    Posted setup (net.setClp x c') := by
  refine ⟨h.tabled.setClp hranks hports, fun a b hne => ?_, fun y hy m hm => ?_⟩
  · exact h.inside a b hne
  · by_cases hyx : y = x
    · subst hyx
      rw [setClp_self] at hm
      rcases hqueued m hm with hm | hm
      · exact h.addressed y hy m hm
      · exact hm
    · rw [setClp_of_ne net c' hyx] at hm
      exact h.addressed y hy m hm

theorem Posted.setLink (h : Posted setup net) {a b : Nat} {l : List Transfer}
    (hinside : simulationsOf l ≠ [] → .link a b ∈ spots setup) :
    Posted setup (net.setLink a b l) := by
  refine ⟨h.tabled, fun i j hne => ?_, h.addressed⟩
  rw [messagesAt_setLink] at hne
  by_cases hij : (Spot.link i j) = .link a b
  · rw [hij, Function.update_self] at hne
    exact hij ▸ hinside hne
  · rw [Function.update_of_ne hij] at hne
    exact h.inside i j hne

theorem carries_alpSend (h : Posted setup net)
    (hattached : Attached setup.numberOfClps setup.initialisor.alpToClpMap) (alp : Nat)
    (m : AlpMessage) :
    Posted setup (net.alpSend setup alp m).1 ∧
      Carries setup net (net.alpSend setup alp m).1 (.alpSend alp m)
        (net.alpSend setup alp m).2 := by
  have hkept : Posted setup net ∧ Carries setup net net (.alpSend alp m) .nothing :=
    ⟨h, .kept rfl (fun _ => rfl) (.inl ⟨rfl, nofun⟩)⟩
  simp only [alpSend]
  split
  · rename_i clp hclp
    split
    · rename_i halp
      have hspot : .link alp clp ∈ spots setup := by
        have hlt := ((hattached.ranks alp).mp (RouteTable.mem_of_getElem? hclp)).2
        exact link_mem_spots.mpr ⟨hlt, Nat.lt_of_lt_of_le (hattached.clps alp clp hclp)
          (Nat.le_add_right _ _)⟩
      let m' : SimulationMessage := ⟨alp, clp, .agent net.sent 0 m⟩
      obtain ⟨htabled, hinside, haddressed⟩ : Posted setup (net.push alp clp (.simulation m')) :=
        h.setLink fun _ => hspot
      refine ⟨⟨htabled, hinside, haddressed⟩, .entered halp.1 hclp halp.2 ?_⟩
      have hmessages : messagesAt { net.push alp clp (.simulation m') with sent := net.sent + 1 } =
          Function.update net.messagesAt (.link alp clp)
            (net.messagesAt (.link alp clp) ++ [m']) := messagesAt_push net alp clp m'
      rw [letters, hmessages]
      exact (Ledger.bag_append hspot [m']).trans (Multiset.add_comm _ _)
    · exact hkept
  · exact hkept

theorem Posted.receiveToLp (h : Posted setup net) (a b : Nat) (t : Transfer) :
    Posted setup (net.setClp b (receiveToLp (net.clp b) a t)) := by
  cases t with
  | simulation m => exact h.setClp rfl rfl fun _ hm => .inl hm
  | migration m => exact h.setClp rfl rfl fun _ hm => .inl hm

theorem carries_deliver (h : Posted setup net) (a b : Nat) :
    Posted setup (net.deliver setup a b) ∧
      Carries setup net (net.deliver setup a b) (.deliver a b) .nothing := by
  simp only [deliver]
  split
  · rename_i hlink
    refine ⟨h, .kept rfl (fun _ => rfl) (.inl ⟨rfl, fun i j _ _ heq => ?_⟩)⟩
    cases heq
    simp [hlink]
  · rename_i t rest hlink
    have hwithout : Posted setup (net.setLink a b rest) := by
      refine h.setLink fun hne => h.inside a b fun hnil => hne ?_
      simp only [messagesAt, hlink, simulationsOf, List.filterMap_eq_nil_iff] at hnil ⊢
      exact fun t' ht' => hnil t' (List.mem_cons_of_mem _ ht')
    have hwith := hwithout.receiveToLp a b t
    cases t with
    | simulation m =>
        have hspot : .link a b ∈ spots setup :=
          h.inside a b (by simp [messagesAt, hlink, simulationsOf])
        have hbefore := letters_take hlink hspot
        split
        · rename_i hb
          exact ⟨hwith, .delivered hb hlink hbefore (letters_deliver hb m)⟩
        · rename_i hb
          exact ⟨hwithout, .arrived (Nat.le_of_not_lt hb) hlink hbefore⟩
    | migration m =>
        have hlinks : (net.setLink a b rest).messagesAt = net.messagesAt := by
          rw [messagesAt_setLink]
          refine Function.update_eq_self_iff.mpr ?_
          simp [messagesAt, hlink, simulationsOf]
        have hquiet : Quiet net (.deliver a b) .nothing := by
          refine .inl ⟨rfl, fun i j _ _ heq => ?_⟩
          cases heq
          simp [hlink]
        split
        · refine ⟨hwith, .kept ?_ (sendMessageQueue_setClp rfl) hquiet⟩
          have hqueued : ((net.setLink a b rest).setClp b
              (receiveToLp ((net.setLink a b rest).clp b) a (.migration m))).messagesAt =
                (net.setLink a b rest).messagesAt := messagesAt_setClp_of_same rfl rfl
          rw [letters, hqueued, hlinks]
          rfl
        · exact ⟨hwithout, .kept (by rw [letters, hlinks]; rfl) (fun _ => rfl) hquiet⟩

theorem Posted.queues {x : Nat} {c' : Clp} {l : List SimulationMessage} (h : Posted setup net)
    (hqueues : Clp.Queues (net.clp x) c' l) (haddressed : ∀ m ∈ l, Addressed setup m) :
    Posted setup (net.setClp x c') := by
  refine h.setClp hqueues.ranks hqueues.ports fun m hm => ?_
  rw [hqueues.sent] at hm
  exact (List.mem_append.mp hm).imp_right (haddressed m)

/-- A step in which a CLP does no more than queue rollbacks. -/
theorem carries_rollsBack (h : Posted setup net) (hwired : Wired setup net) {x : Nat}
    (hx : x < setup.numberOfClps) {c' : Clp} (hrolls : (net.clp x).RollsBack c') {e : Event}
    {o : Output} (cause : (∃ migrationMap clock, e = .migrate x migrationMap clock ∧
      o = .nothing) ∨ ∃ clock, e = .receive x clock ∧ o = .received x .migrated) :
    Posted setup (net.setClp x c') ∧ Carries setup net (net.setClp x c') e o := by
  obtain ⟨rolls, hqueues⟩ := hrolls
  rw [hwired.rank x hx] at hqueues
  have haddressed : ∀ m ∈ rolls.map (·.sentBy x), Addressed setup m := by
    intro m hm
    obtain ⟨r, _, rfl⟩ := List.mem_map.mp hm
    exact .inr ⟨r.originalAgent, rfl, rfl⟩
  refine ⟨h.queues hqueues haddressed,
    .rolledBack rolls hx cause ?_ (letters_queue hx hqueues)⟩
  rw [setClp_self, hqueues.sent]

theorem carries_receive (h : Posted setup net) (hwired : Wired setup net) {x : Nat}
    (hx : x < setup.numberOfClps) {clock : SsvId → Nat} {c' : Clp} {r : Clp.Received}
    (hreceive : (net.clp x).receive setup.rollbacks clock = .ok (c', r)) :
    Posted setup (net.setClp x c') ∧
      Carries setup net (net.setClp x c') (.receive x clock) (.received x r) := by
  simp only [Clp.receive] at hreceive
  split at hreceive
  · rename_i m rest hqueue
    split at hreceive
    · obtain ⟨c, hc, hreceive⟩ := bind_eq_ok.mp hreceive
      cases hreceive
      have htake : (net.clp x).RollsBack
          { net.clp x with receiveLoadBalancingMessageQueue := rest } :=
        .of_queues (Clp.queues_nil rfl rfl rfl rfl rfl)
      exact carries_rollsBack h hwired hx
        (htake.trans (Clp.rollsBack_processStateMigration hc)) (.inr ⟨clock, rfl, rfl⟩)
    · cases hreceive
      exact ⟨h.setClp rfl rfl fun m hm => .inl hm,
        .kept (letters_setClp_of_same rfl rfl) (sendMessageQueue_setClp rfl)
          (.inr ⟨x, clock, _, rfl, rfl, .inr rfl⟩)⟩
  · split at hreceive
    · rename_i m rest hqueue
      obtain ⟨l, htreats, hqueues⟩ := Clp.treats_of_receiveSimulation hreceive
      obtain ⟨others, hbefore, hafter⟩ := letters_handle hx hqueue hqueues
      have htreats' : (net.clp x).Treats m.content l r := htreats.congr rfl rfl rfl
      refine ⟨h.setClp hqueues.ranks hqueues.ports fun m hm => ?_,
        .handled hx hqueue htreats' ?_ hbefore hafter⟩
      · rw [hqueues.sent] at hm
        exact (List.mem_append.mp hm).imp_right (h.treats_addressed hx htreats' m)
      · rw [setClp_self, hqueues.sent]
    · cases hreceive
      exact ⟨h.setClp rfl rfl fun m hm => .inl hm,
        .kept (letters_setClp_of_same rfl rfl) (sendMessageQueue_setClp rfl)
          (.inr ⟨x, clock, _, rfl, rfl, .inl rfl⟩)⟩

theorem carries_send (h : Posted setup net)
    (hattached : Attached setup.numberOfClps setup.initialisor.alpToClpMap) {x : Nat}
    (hx : x < setup.numberOfClps) {c' : Clp} {r : Clp.Sent}
    (hsend : (net.clp x).send = .ok (c', r)) :
    Posted setup ((net.setClp x c').put x r) ∧
      Carries setup net ((net.setClp x c').put x r) (.send x) .nothing := by
  cases Clp.dispatches_of_send hsend with
  | nothing =>
      exact ⟨h.setClp rfl rfl fun m hm => .inl hm,
        .kept (letters_setClp_of_same rfl rfl) (sendMessageQueue_setClp rfl) (.inl ⟨rfl, nofun⟩)⟩
  | @simulation m m' rest hqueue haddress =>
      have hmem : m ∈ (net.clp x).sendMessageQueue := by simp [hqueue]
      have htarget := h.target_lt hattached hx hmem haddress
      have hspot : .link x m'.destination ∈ spots setup :=
        link_mem_spots.mpr ⟨Nat.lt_of_lt_of_le hx (Nat.le_add_right _ _), htarget⟩
      obtain ⟨others, hbefore, hafter⟩ := letters_send hx hqueue hspot
      have htaken : Posted setup
          (net.setClp x { net.clp x with sendMessageQueue := rest }) :=
        h.setClp rfl rfl fun m hm => .inl (hqueue ▸ List.mem_cons_of_mem _ hm)
      exact ⟨htaken.setLink fun _ => hspot, .posted hx haddress htarget hbefore hafter⟩
  | @migration m rest hqueue =>
      have htaken : Posted setup
          (net.setClp x { net.clp x with sendLoadBalancingMessageQueue := rest }) :=
        h.setClp rfl rfl fun m hm => .inl hm
      have hletters : (net.setClp x
          { net.clp x with sendLoadBalancingMessageQueue := rest }).letters setup =
            net.letters setup := letters_setClp_of_same rfl rfl
      refine ⟨htaken.setLink fun hne => h.inside x m.destination ?_,
        .kept ?_ (sendMessageQueue_setClp rfl) (.inl ⟨rfl, nofun⟩)⟩
      · rw [simulationsOf_append] at hne
        simpa [simulationsOf, messagesAt] using hne
      · rw [← hletters, letters, put, messagesAt_push_migration]
        rfl

theorem carries_of_step (h : Posted setup net) (hwired : Wired setup net)
    (hattached : Attached setup.numberOfClps setup.initialisor.alpToClpMap) {e : Event}
    {o : Output} (hstep : net.step setup e = .ok (net', o)) :
    Posted setup net' ∧ Carries setup net net' e o := by
  cases works_of_step hstep with
  | alpSend alp m => exact carries_alpSend h hattached alp m
  | deliver a b => exact carries_deliver h a b
  | receive hx hreceive => exact carries_receive h hwired hx hreceive
  | send hx hsend => exact carries_send h hattached hx hsend
  | @setGvt x gvt hx =>
      exact ⟨h.setClp rfl rfl fun m hm => .inl hm,
        .kept (letters_setClp_of_same rfl rfl) (sendMessageQueue_setClp rfl) (.inl ⟨rfl, nofun⟩)⟩
  | @migrate x migrationMap clock c hx hmigrate =>
      exact carries_rollsBack h hwired hx (Clp.rollsBack_migrateStateVariables hmigrate)
        (.inl ⟨migrationMap, clock, rfl, rfl⟩)
  | idle =>
      cases e with
      | deliver a b =>
          have hdeliver := carries_deliver h a b
          rwa [show net.deliver setup a b = net from congrArg Prod.fst (Except.ok.inj hstep)]
            at hdeliver
      | alpSend | receive | send | setGvt | migrate =>
          exact ⟨h, .kept rfl (fun _ => rfl) (.inl ⟨rfl, nofun⟩)⟩

end Steps

end PdesMas.Network
