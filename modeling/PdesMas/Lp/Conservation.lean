import PdesMas.Lp.LetterSteps
import PdesMas.Lp.MessageOrder

/-!
Nothing is lost and nothing comes twice. A message of an agent is processed once
or still on its way, a request that is processed turns into its response unless
it is a read from below GVT, and an answer leaves the network only at the ALP of
its agent.
-/

namespace PdesMas

namespace Network

open RouteTable (Attached)

variable {setup : Setup} {net net' : Network}

/-- Where a letter may lead: one of an agent from CLP to CLP, an answer also to the process of
its agent. -/
def Directed (setup : Setup) (letter : Letter) : Prop :=
  match letter.1, letter.2.content.agent? with
  | .received _, _ => True
  | .queued _, none => letter.2.destination < setup.numberOfClps
  | .queued x, some agent => letter.2.destination = agent.rank ∨ agent.rank ≠ x
  | .link _ b, none => b < setup.numberOfClps
  | .link _ b, some agent => b < setup.numberOfClps ∨ b = agent.rank

/-- What holds along every run. -/
structure Sound (setup : Setup) (net : Network) : Prop where
  homed : Homed setup net
  posted : Posted setup net
  directed : ∀ letter ∈ net.letters setup, Directed setup letter

theorem mem_placed {p : Spot} {l : List SimulationMessage} {letter : Letter} :
    letter ∈ placed p l ↔ ∃ m ∈ l, (p, m) = letter := by
  simp [placed]

theorem Initial.sound (h : Initial setup net) : Sound setup net := by
  have hempty : ∀ p, net.messagesAt p = [] := by
    intro p
    cases p with
    | received x => exact (h.queues x).2.1
    | queued x => exact (h.queues x).1
    | link a b => simp [messagesAt, h.links, simulationsOf]
  refine ⟨h.homed, ⟨fun x hx => ?_, fun a b hne => absurd (hempty _) hne, fun x _ m hm => ?_⟩,
    fun letter hletter => ?_⟩
  · obtain ⟨_, _, _, ht⟩ := (Clp.create_home x h.places).2 _ (h.clps x hx)
    exact ⟨_, ht, rfl, rfl⟩
  · rw [(h.queues x).1] at hm
    cases hm
  · have hmem := (Ledger.mem_bag.mp hletter).2
    rw [hempty] at hmem
    cases hmem

/-- A message for a variable is forwarded to a CLP. -/
theorem Homed.forward_lt (h : Homed setup net) {x g : Nat} {ssvId : SsvId} {direction : Direction}
    (hx : x < setup.numberOfClps)
    (hroute : (net.clp x).routeTable.getDirectionFromSsvId ssvId = some direction)
    (haway : direction ≠ .HERE)
    (hport : (net.clp x).routeTable.getRankFromDirection direction = some g) :
    g < setup.numberOfClps := by
  by_cases hplaced : ssvId ∈ setup.initialisor.placements.map Prod.snd
  · obtain ⟨p, hp⟩ := h.tracked ssvId hplaced
    exact (hp.port_of_route h.wired hx hroute haway hport).2.2.1
  · cases ((h.absent ssvId hplaced).route x hx).symm.trans hroute

/-- What a CLP queues leads where it may. -/
theorem Sound.treats_directed (h : Sound setup net) {x : Nat} (hx : x < setup.numberOfClps)
    {content : Content} {l : List SimulationMessage}
    {r : Clp.Received} (htreats : (net.clp x).Treats content l r) :
    ∀ m ∈ l, Directed setup (.queued x, m) := by
  intro m hm
  cases htreats with
  | processed =>
      rcases List.mem_append.mp hm with hm | hm
      · obtain ⟨r, _, rfl⟩ := List.mem_map.mp hm
        exact .inl rfl
      · obtain ⟨r, _, rfl⟩ := List.mem_map.mp hm
        exact .inl rfl
  | forwarded _ hroute haway hport =>
      obtain rfl := List.mem_singleton.mp hm
      exact h.homed.forward_lt hx hroute haway hport
  | @passed content agent direction destination hagent hroute haway hport =>
      obtain rfl := List.mem_singleton.mp hm
      simp only [Directed, hagent]
      right
      rintro rfl
      exact haway (Option.some.inj (hroute.symm.trans (h.posted.tabled.here_self hx)))
  | dropped => cases hm

/-- A letter that is sent leads where it may. -/
theorem Sound.readdresses_directed (h : Sound setup net)
    (hattached : Attached setup.numberOfClps setup.initialisor.alpToClpMap)
    (hhosts : ∀ e ∈ setup.initialisor.placements, e.1 < setup.numberOfClps) {x : Nat}
    (hx : x < setup.numberOfClps) {m m' : SimulationMessage}
    (hm : Directed setup (.queued x, m)) (hreaddresses : (net.clp x).Readdresses m m') :
    Directed setup (.link x m'.destination, m') := by
  cases hreaddresses with
  | message hagent =>
      simp only [Directed, hagent] at hm ⊢
      exact hm
  | @here agent hagent hhere =>
      simp only [Directed, hagent] at hm ⊢
      exact .inr (hm.resolve_right fun hne => hne (h.posted.tabled.eq_of_here hattached hx hhere))
  | away hagent hroute haway hport =>
      simp only [Directed, hagent]
      exact (h.posted.tabled.nearer hattached hhosts hx hroute haway hport).2.1

theorem Sound.step (h : Sound setup net)
    (hattached : Attached setup.numberOfClps setup.initialisor.alpToClpMap)
    (hhosts : ∀ e ∈ setup.initialisor.placements, e.1 < setup.numberOfClps) {e : Event}
    {o : Output} (hleads : LeadsToNeighbours setup net e)
    (hstep : net.step setup e = .ok (net', o)) :
    Sound setup net' ∧ Carries setup net net' e o := by
  obtain ⟨hposted, hcarries⟩ := carries_of_step h.posted h.homed.wired hattached hstep
  refine ⟨⟨h.homed.move ((moves_of_step h.homed hleads).2 _ hstep), hposted, ?_⟩, hcarries⟩
  have hdirected := h.directed
  cases hcarries with
  | kept letters => exact letters ▸ hdirected
  | entered halp hclp _ letters =>
      rw [letters]
      intro letter hletter
      rcases Multiset.mem_cons.mp hletter with rfl | hletter
      · exact hattached.clps _ _ hclp
      · exact hdirected letter hletter
  | delivered _ _ before after =>
      rw [after]
      rw [before] at hdirected
      intro letter hletter
      rcases Multiset.mem_cons.mp hletter with rfl | hletter
      · trivial
      · exact hdirected letter (Multiset.mem_cons_of_mem hletter)
  | arrived _ _ before =>
      rw [before] at hdirected
      exact fun letter hletter => hdirected letter (Multiset.mem_cons_of_mem hletter)
  | handled hx _ treats _ before after =>
      rw [after]
      rw [before] at hdirected
      intro letter hletter
      rcases Multiset.mem_add.mp hletter with hletter | hletter
      · exact hdirected letter (Multiset.mem_cons_of_mem hletter)
      · obtain ⟨m, hm, rfl⟩ := mem_placed.mp hletter
        exact h.treats_directed hx treats m hm
  | posted hx readdresses _ before after =>
      rw [after]
      rw [before] at hdirected
      intro letter hletter
      rcases Multiset.mem_cons.mp hletter with rfl | hletter
      · exact h.readdresses_directed hattached hhosts hx
          (hdirected _ (Multiset.mem_cons_self _ _)) readdresses
      · exact hdirected letter (Multiset.mem_cons_of_mem hletter)
  | rolledBack rolls hx _ _ after =>
      rw [after]
      intro letter hletter
      rcases Multiset.mem_add.mp hletter with hletter | hletter
      · exact hdirected letter hletter
      · obtain ⟨m, hm, rfl⟩ := mem_placed.mp hletter
        obtain ⟨r, _, rfl⟩ := List.mem_map.mp hm
        exact .inl rfl

end Network

/-- The message of an agent in a letter, with its serial number. -/
def Content.items : Content → Multiset (Nat × AlpMessage)
  | .agent serial _ m => {(serial, m)}
  | .response _ | .rollback _ => 0

/-- The request in a letter, or the one it answers. -/
def Content.owed : Content → Multiset Ticket
  | .agent _ _ (.request q) => {q.ticket}
  | .response r => {r.ticket}
  | .agent _ _ (.anti _) | .rollback _ => 0

/-- The answer in a letter, with the rank it is for. -/
def Content.replies (content : Content) : Multiset (Nat × Content) :=
  match content.agent? with
  | some originalAgent => {(originalAgent.rank, content)}
  | none => 0

namespace Network

open RouteTable (Attached)

section Counting

variable {β : Type} (f : Content → Multiset β)

/-- What the letters have of something. -/
def count (setup : Setup) (net : Network) : Multiset β :=
  (net.letters setup).bind fun letter => f letter.2.content

theorem placed_bind (p : Spot) (l : List SimulationMessage) :
    ((placed p l).bind fun letter => f letter.2.content) = (l.map fun m => f m.content).sum := by
  simp [placed, Multiset.bind, Multiset.join, Function.comp_def]

variable {f} {setup : Setup} {net net' : Network} {p p' : Spot} {m m' : SimulationMessage}
  {others : Multiset Letter} {l : List SimulationMessage}

theorem count_cons (h : net.letters setup = (p, m) ::ₘ others) :
    net.count f setup = f m.content + others.bind fun letter => f letter.2.content := by
  rw [count, h, Multiset.cons_bind]

theorem count_moved (before : net.letters setup = (p, m) ::ₘ others)
    (after : net'.letters setup = (p', m') ::ₘ others) (h : m'.content = m.content) :
    net'.count f setup = net.count f setup := by
  rw [count_cons before, count_cons after, h]

theorem count_handled {output intake : Multiset β} (before : net.letters setup = (p, m) ::ₘ others)
    (after : net'.letters setup = others + placed p' l)
    (h : (l.map fun m => f m.content).sum + output = f m.content + intake) :
    net'.count f setup + output = net.count f setup + intake := by
  rw [count_cons before, count, after, Multiset.add_bind, placed_bind, add_assoc, h, add_left_comm,
    add_assoc]

theorem count_added (after : net'.letters setup = net.letters setup + placed p l) :
    net'.count f setup = net.count f setup + (l.map fun m => f m.content).sum := by
  rw [count, after, Multiset.add_bind, placed_bind, count]

theorem count_entered (after : net'.letters setup = (p, m) ::ₘ net.letters setup) :
    net'.count f setup = f m.content + net.count f setup := count_cons after

theorem count_of_letters (h : net'.letters setup = net.letters setup) :
    net'.count f setup = net.count f setup := by
  rw [count, h, count]

end Counting

def Output.entered : Output → Multiset (Nat × AlpMessage)
  | .sent _ serial m => {(serial, m)}
  | .nothing | .received .. => 0

def Output.processed : Output → Multiset (Nat × AlpMessage)
  | .received _ (.processed serial m) => {(serial, m)}
  | .received _ .nothing | .received _ .forwarded | .received _ .dropped
  | .received _ .migrated | .nothing | .sent .. => 0

variable {setup : Setup} {net net' : Network}

theorem Quiet.entered {e : Event} {o : Output} (h : Quiet net e o) : o.entered = 0 := by
  rcases h with ⟨rfl, _⟩ | ⟨x, clock, r, _, rfl, _⟩ <;> rfl

theorem Quiet.processed {e : Event} {o : Output} (h : Quiet net e o) : o.processed = 0 := by
  rcases h with ⟨rfl, _⟩ | ⟨x, clock, r, _, rfl, rfl | rfl⟩ <;> rfl

theorem sum_map_replies {f : Content → Multiset β} {l : List SimulationMessage}
    (h : ∀ m ∈ l, f m.content = 0) : (l.map fun m => f m.content).sum = 0 := by
  rw [List.map_congr_left h]
  simp

theorem sum_map_answers {f : Content → Multiset β} {c : Clp} {responses : List ResponseMessage}
    {rolls : List RollbackMessage} (hrolls : ∀ r, f (.rollback r) = 0) :
    ((responses.map (·.sentBy c.rank) ++ rolls.map (·.sentBy c.rank)).map
      fun m => f m.content).sum = (responses.map fun r => f (.response r)).sum := by
  rw [List.map_append, List.sum_append, sum_map_replies (l := rolls.map _), add_zero, List.map_map]
  · rfl
  · intro m hm
    obtain ⟨r, _, rfl⟩ := List.mem_map.mp hm
    exact hrolls r

/-- What leaves for an ALP is an answer to one of its agents. -/
theorem Sound.arrived (h : Sound setup net) {a b : Nat} {m : SimulationMessage}
    (hm : (.link a b, m) ∈ net.letters setup) (hb : setup.numberOfClps ≤ b) :
    ∃ agent, m.content.agent? = some agent ∧ agent.rank = b := by
  have hdirected := h.directed _ hm
  cases hagent : m.content.agent? with
  | none =>
      simp only [Directed, hagent] at hdirected
      omega
  | some agent =>
      simp only [Directed, hagent] at hdirected
      exact ⟨agent, rfl, by omega⟩

theorem Content.items_of_agent {content : Content} {agent : LpId}
    (h : content.agent? = some agent) : content.items = 0 := by
  cases content with
  | agent => cases h
  | response | rollback => rfl

theorem items_of_treats {c : Clp} {content : Content} {l : List SimulationMessage}
    {r : Clp.Received} (h : c.Treats content l r) (x : Nat) :
    (l.map fun m => m.content.items).sum + (Output.received x r).processed =
      content.items + (Output.received x r).entered := by
  cases h with
  | processed =>
      rw [sum_map_answers (f := Content.items) fun _ => rfl]
      simp [Content.items, Output.processed, Output.entered]
  | forwarded => simp [Content.items, Output.processed, Output.entered]
  | passed hagent | dropped hagent =>
      simp [Content.items_of_agent hagent, Output.processed, Output.entered]

/-- A step takes the messages of agents it processes from the letters. -/
theorem Carries.items (h : Sound setup net) {e : Event} {o : Output}
    (hcarries : Carries setup net net' e o) :
    net'.count Content.items setup + o.processed = net.count Content.items setup + o.entered := by
  cases hcarries with
  | kept letters _ quiet => rw [count_of_letters letters, quiet.entered, quiet.processed]
  | entered _ _ _ letters =>
      rw [count_entered letters]
      exact (add_zero _).trans (add_comm _ _)
  | delivered _ _ before after =>
      rw [count_moved before after rfl]
      rfl
  | posted _ readdresses _ before after =>
      rw [count_moved before after readdresses.content]
      rfl
  | @arrived a b m _ hb _ before =>
      obtain ⟨agent, hagent, _⟩ := h.arrived (a := a) (b := b) (m := m) (by simp [before]) hb
      rw [count_cons before, Content.items_of_agent hagent, zero_add]
      rfl
  | rolledBack rolls _ cause _ after =>
      rw [count_added after, sum_map_replies, add_zero]
      · rcases cause with ⟨_, _, _, rfl⟩ | ⟨_, _, rfl⟩ <;> rfl
      · intro m hm
        obtain ⟨r, _, rfl⟩ := List.mem_map.mp hm
        rfl
  | handled _ _ treats _ before after => exact count_handled before after (items_of_treats treats _)

/-- The requests that have been sent. -/
def Output.asked : Output → Multiset Ticket
  | .sent _ _ (.request q) => {q.ticket}
  | .sent _ _ (.anti _) | .nothing | .received .. => 0

/-- The letters that come to an ALP, with its rank. -/
def arrivals (setup : Setup) (net : Network) : Event → List (Nat × Content)
  | .deliver a b =>
      match net.link a b with
      | .simulation m :: _ => if b < setup.numberOfClps then [] else [(b, m.content)]
      | .migration _ :: _ | [] => []
  | .alpSend .. | .receive .. | .send _ | .setGvt .. | .migrate .. => []

def answered (setup : Setup) (net : Network) (e : Event) : Multiset Ticket :=
  ((net.arrivals setup e).map fun a => a.2.owed).sum

/-- The requests a CLP processes without a response. -/
def ignored (net : Network) : Event → Output → Multiset Ticket
  | .receive x _, .received _ (.processed _ (.request q)) =>
      if q.due (net.clp x).gvt then 0 else {q.ticket}
  | _, _ => 0

/-- The answers a CLP drops because their agent has its rank. -/
def discards (net : Network) : Event → Output → List (Nat × Content)
  | .receive x _, .received _ .dropped =>
      ((net.clp x).receiveMessageQueue.take 1).map fun m => (x, m.content)
  | _, _ => []

/-- What a CLP has queued of its own in a step, with the rank it is for. -/
def queuedOf (net net' : Network) (x : Nat) : Multiset (Nat × Content) :=
  (((net'.clp x).sendMessageQueue.drop (net.clp x).sendMessageQueue.length).map
    fun m => m.content.replies).sum

def produced (net : Network) : Event → Network × Output → Multiset (Nat × Content)
  | .receive x _, (net', .received _ (.processed ..)) => net.queuedOf net' x
  | .receive x _, (net', .received _ .migrated) => net.queuedOf net' x
  | .migrate x _ _, (net', _) => net.queuedOf net' x
  | _, _ => 0

theorem Quiet.arrivals {e : Event} {o : Output} (h : Quiet net e o) :
    net.arrivals setup e = [] := by
  rcases h with ⟨_, hlink⟩ | ⟨_, _, _, rfl, _⟩
  · cases e with
    | deliver a b =>
        simp only [Network.arrivals]
        split
        · rename_i heq
          exact absurd heq (hlink a b _ _ rfl)
        · rfl
        · rfl
    | alpSend | receive | send | setGvt | migrate => rfl
  · rfl

theorem Quiet.asked {e : Event} {o : Output} (h : Quiet net e o) : o.asked = 0 := by
  rcases h with ⟨rfl, _⟩ | ⟨x, clock, r, _, rfl, _⟩ <;> rfl

theorem Quiet.ignored {e : Event} {o : Output} (h : Quiet net e o) : net.ignored e o = 0 := by
  rcases h with ⟨rfl, _⟩ | ⟨x, clock, r, rfl, rfl, rfl | rfl⟩
  · cases e <;> rfl
  · rfl
  · rfl

/-- ALPs send the requests of their own agents. -/
def OfOwnAgent : Event → Prop
  | .alpSend alp (.request q) => q.originalAgent.rank = alp
  | .alpSend _ (.anti _) | .deliver .. | .receive .. | .send _ | .setGvt .. | .migrate .. => True

instance : DecidablePred OfOwnAgent
  | .alpSend alp (.request q) => inferInstanceAs (Decidable (q.originalAgent.rank = alp))
  | .alpSend _ (.anti _) | .deliver .. | .receive .. | .send _ | .setGvt .. | .migrate .. =>
      inferInstanceAs (Decidable True)

/-- The requests on their way are those of agents of ALPs. -/
def OwedToAlps (setup : Setup) (net : Network) : Prop :=
  ∀ t ∈ net.count Content.owed setup, setup.numberOfClps ≤ t.originalAgent.rank

theorem owed_of_treats (hposted : Posted setup net)
    (hattached : Attached setup.numberOfClps setup.initialisor.alpToClpMap) {x : Nat}
    (hx : x < setup.numberOfClps) {clock : SsvId → Nat} {content : Content}
    {l : List SimulationMessage} {r : Clp.Received} (h : (net.clp x).Treats content l r)
    (halps : ∀ t ∈ content.owed, setup.numberOfClps ≤ t.originalAgent.rank) :
    (l.map fun m => m.content.owed).sum + net.ignored (.receive x clock) (.received x r) =
      content.owed := by
  cases h with
  | processed _ _ hresponds =>
      rw [sum_map_answers (f := Content.owed) fun _ => rfl]
      cases hresponds with
      | response hdue h =>
          simp [Content.owed, ignored, hdue, h.ticket]
      | late hdue => simp [Content.owed, ignored, hdue]
      | anti => rfl
  | @forwarded _ _ m => cases m <;> simp [Content.owed, ignored]
  | passed => simp [ignored]
  | @dropped content agent hagent hhere =>
      have hself := hposted.tabled.eq_of_here hattached hx hhere
      cases content with
      | agent => cases hagent
      | response r =>
          obtain rfl := Option.some.inj hagent
          have hle : setup.numberOfClps ≤ r.originalAgent.rank :=
            halps r.ticket (by simp [Content.owed])
          rw [hself] at hle
          exact absurd hx (Nat.not_lt.mpr hle)
      | rollback r => simp [Content.owed, ignored]

theorem answered_arrived {a b : Nat} {m : SimulationMessage} {rest : List Transfer}
    (hb : setup.numberOfClps ≤ b) (hlink : net.link a b = .simulation m :: rest) :
    net.arrivals setup (.deliver a b) = [(b, m.content)] := by
  simp [arrivals, hlink, Nat.not_lt.mpr hb]

theorem arrivals_delivered {a b : Nat} (hb : b < setup.numberOfClps) :
    net.arrivals setup (.deliver a b) = [] := by
  simp only [arrivals]
  split
  · exact if_pos hb
  · rfl
  · rfl

/-- A request goes over into its response, which ends at an ALP. -/
theorem Carries.owed (h : Sound setup net)
    (hattached : Attached setup.numberOfClps setup.initialisor.alpToClpMap)
    (halps : OwedToAlps setup net) {e : Event} {o : Output}
    (hcarries : Carries setup net net' e o) :
    net'.count Content.owed setup + (net.answered setup e + net.ignored e o) =
      net.count Content.owed setup + o.asked := by
  cases hcarries with
  | kept letters _ quiet =>
      simp [count_of_letters letters, answered, quiet.arrivals, quiet.asked, quiet.ignored]
  | @entered alp clp m _ _ _ letters =>
      rw [count_entered letters, add_comm (Content.owed _)]
      cases m <;> simp [answered, arrivals, ignored, Content.owed, Output.asked]
  | delivered hb _ before after =>
      simp [count_moved before after rfl, answered, arrivals_delivered hb, ignored, Output.asked]
  | posted _ readdresses _ before after =>
      simp [count_moved before after readdresses.content, answered, arrivals, ignored,
        Output.asked]
  | arrived hb hlink before =>
      simp [count_cons before, answered, answered_arrived hb hlink, ignored, Output.asked, add_comm]
      rfl
  | @rolledBack x _ _ rolls _ cause _ after =>
      rw [count_added after, sum_map_replies, add_zero]
      · rcases cause with ⟨_, _, rfl, rfl⟩ | ⟨_, rfl, rfl⟩ <;>
          simp [answered, arrivals, ignored, Output.asked]
      · intro m hm
        obtain ⟨r, _, rfl⟩ := List.mem_map.mp hm
        rfl
  | @handled x clock m _ _ r _ hx _ treats _ before after =>
      refine count_handled before after ?_
      have howed : ∀ t ∈ m.content.owed, setup.numberOfClps ≤ t.originalAgent.rank := by
        intro t ht
        exact halps t (by rw [count_cons before]; exact Multiset.mem_add.mpr (.inl ht))
      have htreats : (_ + net.ignored (.receive x clock) (.received x r)) = m.content.owed :=
        owed_of_treats h.posted hattached hx treats howed
      simpa [answered, arrivals, Output.asked] using htreats

theorem OwedToAlps.step (halps : OwedToAlps setup net) (h : Sound setup net)
    (hattached : Attached setup.numberOfClps setup.initialisor.alpToClpMap) {e : Event}
    {o : Output} (hown : OfOwnAgent e) (hcarries : Carries setup net net' e o) :
    OwedToAlps setup net' := by
  intro t ht
  have hmem : t ∈ net.count Content.owed setup + o.asked := by
    rw [← hcarries.owed h hattached halps]
    exact Multiset.mem_add.mpr (.inl ht)
  rcases Multiset.mem_add.mp hmem with hold | hasked
  · exact halps t hold
  · cases hcarries with
    | @entered alp clp m halp =>
        cases m with
        | request q =>
            obtain rfl := Multiset.mem_singleton.mp hasked
            exact (show q.originalAgent.rank = alp from hown) ▸ halp
        | anti m => cases hasked
    | kept _ _ quiet =>
        rw [quiet.asked] at hasked
        cases hasked
    | rolledBack _ _ cause =>
        rcases cause with ⟨_, _, _, rfl⟩ | ⟨_, _, rfl⟩
        · cases hasked
        · cases hasked
    | delivered | arrived | handled | posted => cases hasked

theorem queuedOf_append {x : Nat} {l : List SimulationMessage}
    (h : (net'.clp x).sendMessageQueue = (net.clp x).sendMessageQueue ++ l) :
    net.queuedOf net' x = (l.map fun m => m.content.replies).sum := by
  rw [queuedOf, h, List.drop_left]

theorem Quiet.discards {e : Event} {o : Output} (h : Quiet net e o) : net.discards e o = [] := by
  rcases h with ⟨rfl, _⟩ | ⟨x, clock, r, rfl, rfl, rfl | rfl⟩
  · cases e <;> rfl
  · rfl
  · rfl

theorem Quiet.produced {e : Event} {o : Output} (h : Quiet net e o)
    (hqueued : ∀ x, (net'.clp x).sendMessageQueue = (net.clp x).sendMessageQueue) :
    net.produced e (net', o) = 0 := by
  have hnone : ∀ x, net.queuedOf net' x = 0 := fun x =>
    queuedOf_append ((hqueued x).trans (List.append_nil _).symm)
  rcases h with ⟨rfl, _⟩ | ⟨x, clock, r, rfl, rfl, rfl | rfl⟩
  · cases e with
    | migrate x => exact hnone x
    | alpSend | deliver | receive | send | setGvt => rfl
  · rfl
  · rfl

/-- The answers that leave the network: those that come to an ALP and those that are dropped. -/
def ended (setup : Setup) (net : Network) (e : Event) (o : Output) : Multiset (Nat × Content) :=
  net.arrivals setup e + net.discards e o

theorem Content.replies_of_agent {content : Content} {agent : LpId}
    (h : content.agent? = some agent) : content.replies = {(agent.rank, content)} := by
  simp [Content.replies, h]

theorem replies_of_treats (hposted : Posted setup net)
    (hattached : Attached setup.numberOfClps setup.initialisor.alpToClpMap) {x : Nat}
    (hx : x < setup.numberOfClps) {clock : SsvId → Nat} {m : SimulationMessage}
    {rest l : List SimulationMessage} {r : Clp.Received}
    (hqueue : (net.clp x).receiveMessageQueue = m :: rest)
    (h : (net.clp x).Treats m.content l r)
    (hqueued : (net'.clp x).sendMessageQueue = (net.clp x).sendMessageQueue ++ l) :
    (l.map fun m => m.content.replies).sum + net.ended setup (.receive x clock) (.received x r) =
      m.content.replies + net.produced (.receive x clock) (net', .received x r) := by
  generalize hcontent : m.content = content at h
  cases h with
  | processed =>
      simp [ended, arrivals, discards, produced, queuedOf_append hqueued, Content.replies,
        Content.agent?]
  | forwarded => simp [ended, arrivals, discards, produced, Content.replies, Content.agent?]
  | passed => simp [ended, arrivals, discards, produced]
  | dropped hagent hhere =>
      have hself := hposted.tabled.eq_of_here hattached hx hhere
      simp [ended, arrivals, discards, produced, hqueue, hcontent,
        Content.replies_of_agent hagent, hself]

/-- An answer that leaves the network has come to the process of its agent. -/
theorem Carries.replies (h : Sound setup net)
    (hattached : Attached setup.numberOfClps setup.initialisor.alpToClpMap) {e : Event}
    {o : Output} (hcarries : Carries setup net net' e o) :
    net'.count Content.replies setup + net.ended setup e o =
      net.count Content.replies setup + net.produced e (net', o) := by
  cases hcarries with
  | kept letters queued quiet =>
      simp [count_of_letters letters, ended, quiet.arrivals, quiet.discards, quiet.produced queued]
  | entered _ _ _ letters =>
      simp [count_entered letters, ended, arrivals, discards, produced, Content.replies,
        Content.agent?]
  | delivered hb _ before after =>
      simp [count_moved before after rfl, ended, arrivals_delivered hb, discards, produced]
  | posted _ readdresses _ before after =>
      simp [count_moved before after readdresses.content, ended, arrivals, discards, produced]
  | @arrived a b m _ hb hlink before =>
      obtain ⟨agent, hagent, hrank⟩ := h.arrived (a := a) (b := b) (m := m) (by simp [before]) hb
      simp [count_cons before, ended, answered_arrived hb hlink, discards, produced,
        Content.replies_of_agent hagent, hrank, add_comm]
      rfl
  | @rolledBack x _ _ rolls _ cause queued after =>
      rw [count_added after]
      rcases cause with ⟨_, _, rfl, rfl⟩ | ⟨_, rfl, rfl⟩
      · simp [ended, arrivals, discards, produced, queuedOf_append queued]
      · simp [ended, arrivals, discards, produced, queuedOf_append queued]
  | handled hx hqueue treats queued before after =>
      exact count_handled before after
        (replies_of_treats h.posted hattached hx hqueue treats queued)

section Runs

variable {net₀ : Network} {es : List Event} {os : List Output}

theorem Initial.count_eq_zero (h : Initial setup net) {β : Type} (f : Content → Multiset β) :
    net.count f setup = 0 := by
  have hnone : net.letters setup = 0 := by
    refine Multiset.eq_zero_of_forall_notMem fun letter hletter => ?_
    have hmem := (Ledger.mem_bag.mp hletter).2
    cases hspot : letter.1 with
    | received x => simp [messagesAt, hspot, (h.queues x).2.1] at hmem
    | queued x => simp [messagesAt, hspot, (h.queues x).1] at hmem
    | link a b => simp [messagesAt, hspot, h.links, simulationsOf] at hmem
  rw [count, hnone, Multiset.zero_bind]

/-- Serial numbers are given out in turn. -/
theorem entered_of_run (hrun : (machine setup).run net es = some (net', os)) :
    net.sent ≤ net'.sent ∧ ((os.map Output.entered).sum.map Prod.fst).Nodup ∧
      ∀ i ∈ (os.map Output.entered).sum, net.sent ≤ i.1 := by
  induction es generalizing net os with
  | nil =>
      obtain ⟨rfl, rfl⟩ : net = net' ∧ [] = os := by simpa using hrun
      simp
  | cons e es ih =>
      obtain ⟨net₁, o, os', hstep, hrest, rfl⟩ := (machine setup).run_cons_iff.mp hrun
      obtain ⟨hle, hnodup, hlater⟩ := ih hrest
      rw [List.map_cons, List.sum_cons, Multiset.map_add]
      rcases sent_of_step (machine_step.mp hstep) with
        ⟨hsent, hquiet⟩ | ⟨alp, i, _, rfl, hsent, _⟩
      · have hnone : o.entered = 0 := by
          cases o with
          | sent alp serial i => exact absurd rfl (hquiet alp serial i)
          | nothing | received => rfl
        rw [hnone, Multiset.map_zero, zero_add, zero_add, ← hsent]
        exact ⟨hle, hnodup, hlater⟩
      · simp only [Output.entered, Multiset.map_singleton, Multiset.singleton_add,
          Multiset.nodup_cons, Multiset.mem_cons, Multiset.mem_map]
        refine ⟨by omega, ⟨?_, hnodup⟩, ?_⟩
        · rintro ⟨j, hj, heq⟩
          have := hlater j hj
          omega
        · rintro j (rfl | hj)
          · exact Nat.le_refl _
          · have := hlater j hj
            omega

/-- Every message an ALP has sent has its own serial number, and is processed by one CLP once
or is on its way as one letter, and nothing else is. -/
theorem sent_processed_once
    (hattached : Attached setup.numberOfClps setup.initialisor.alpToClpMap)
    (hinitial : Initial setup net₀)
    (hmeets : (machine setup).Meets (LeadsToNeighbours setup) net₀ es)
    (hrun : (machine setup).run net₀ es = some (net, os)) :
    ((os.map Output.entered).sum.map Prod.fst).Nodup ∧
      net.count Content.items setup + (os.map Output.processed).sum =
        (os.map Output.entered).sum := by
  refine ⟨(entered_of_run hrun).2.1, ?_⟩
  have hbalance := (machine setup).balance (LeadsToNeighbours setup) (Sound setup)
    (fun net => net.count Content.items setup) (fun _ _ r => r.2.entered)
    (fun _ _ r => r.2.processed)
    (fun net e net' o h ha hs => (h.step hattached hinitial.places.2 ha (machine_step.mp hs)).1)
    (fun net e net' o h ha hs =>
      (h.step hattached hinitial.places.2 ha (machine_step.mp hs)).2.items h)
    hinitial.sound hmeets hrun
  rwa [(machine setup).collect_outputs _ hrun, (machine setup).collect_outputs _ hrun,
    hinitial.count_eq_zero, zero_add] at hbalance

theorem attached_pair : Attached pair.numberOfClps pair.initialisor.alpToClpMap := by
  have hat : ∀ a : Nat, pair.initialisor.alpToClpMap[a]? = if 2 = a then some 1 else none := by
    intro a
    simp [pair, Std.TreeMap.getElem?_insert]
  have hsize : pair.initialisor.alpToClpMap.size = 1 := by decide
  have hclps : pair.numberOfClps = 2 := rfl
  constructor
  · intro a
    rw [Std.TreeMap.mem_iff_isSome_getElem?, hat, hsize, hclps]
    split
    · simp; omega
    · simp; omega
  · intro a c hac
    rw [hat] at hac
    split at hac
    · cases hac
      decide
    · cases hac
  · decide

/-- The write of `pair` comes to the first CLP when the variable has left it, and is processed
where the variable has gone; the anti-message is still on its way. -/
def forwardedAfterMigration : List Event :=
  [.alpSend 2 (.request write), .deliver 2 1, .receive 1 fun _ => 0, .send 1,
    .migrate 0 [(.LEFT, [7])] fun _ => 0, .send 0, .deliver 1 0, .deliver 0 1,
    .receive 1 fun _ => 0, .receive 0 fun _ => 0, .send 0, .deliver 0 1, .receive 1 fun _ => 0,
    .alpSend 2 writeAnti]

def forwardedOutputs : List Output :=
  [.sent 2 0 (.request write), .nothing, .received 1 .forwarded, .nothing, .nothing, .nothing,
    .nothing, .nothing, .received 1 .migrated, .received 0 .forwarded, .nothing, .nothing,
    .received 1 (.processed 0 (.request write)), .sent 2 1 writeAnti]

theorem sent_processed_once_forwarded : ∃ net,
    (machine pair).run (create pair) forwardedAfterMigration = some (net, forwardedOutputs) ∧
    net.count Content.items pair + {(0, .request write)} =
      {(0, .request write), (1, writeAnti)} :=
  ⟨_, rfl, (sent_processed_once attached_pair initial_pair (by decide)
    (show (machine pair).run (create pair) forwardedAfterMigration = some (_, forwardedOutputs)
      from rfl)).2⟩

/-- The write of `pair` reaches the variable, and its response the ALP. -/
def writtenAndAnswered : List Event :=
  [.alpSend 2 (.request write), .deliver 2 1, .receive 1 fun _ => 0, .send 1, .deliver 1 0,
    .receive 0 fun _ => 0, .send 0, .deliver 0 1, .receive 1 fun _ => 0, .send 1, .deliver 1 2]

def writtenOutputs : List Output :=
  [.sent 2 0 (.request write), .nothing, .received 1 .forwarded, .nothing, .nothing,
    .received 0 (.processed 0 (.request write)), .nothing, .nothing, .received 1 .forwarded,
    .nothing, .nothing]

/-- Every request has its response come to an ALP once, or has been ignored as a read from
below GVT, or is on its way, or its response is. -/
theorem requests_answered
    (hattached : Attached setup.numberOfClps setup.initialisor.alpToClpMap)
    (hinitial : Initial setup net₀)
    (hmeets : (machine setup).Meets (fun net e => LeadsToNeighbours setup net e ∧ OfOwnAgent e)
      net₀ es)
    (hrun : (machine setup).run net₀ es = some (net, os)) :
    net.count Content.owed setup + (machine setup).collect
        (fun net e r => net.answered setup e + net.ignored e r.2) net₀ es =
      (os.map Output.asked).sum := by
  let I : Network → Prop := fun net => Sound setup net ∧ OwedToAlps setup net
  have hinv : ∀ net e net' o, I net → LeadsToNeighbours setup net e ∧ OfOwnAgent e →
      (machine setup).step net e = some (net', o) → I net' ∧ Carries setup net net' e o := by
    rintro net e net' o ⟨h, halps⟩ ⟨hleads, hown⟩ hs
    obtain ⟨h', hcarries⟩ := h.step hattached hinitial.places.2 hleads (machine_step.mp hs)
    exact ⟨⟨h', halps.step h hattached hown hcarries⟩, hcarries⟩
  have halps : OwedToAlps setup net₀ := by
    rw [OwedToAlps, hinitial.count_eq_zero]
    exact nofun
  have hbalance := (machine setup).balance _ I (fun net => net.count Content.owed setup)
    (fun _ _ r => r.2.asked) (fun net e r => net.answered setup e + net.ignored e r.2)
    (fun net e net' o h ha hs => (hinv net e net' o h ha hs).1)
    (fun net e net' o h ha hs => (hinv net e net' o h ha hs).2.owed h.1 hattached h.2)
    ⟨hinitial.sound, halps⟩ hmeets hrun
  rwa [(machine setup).collect_outputs _ hrun, hinitial.count_eq_zero, zero_add] at hbalance

theorem requests_answered_written : ∃ net,
    (machine pair).run (create pair) writtenAndAnswered = some (net, writtenOutputs) ∧
    net.count Content.owed pair + (machine pair).collect
      (fun net e r => net.answered pair e + net.ignored e r.2) (create pair) writtenAndAnswered =
        {⟨3, ⟨1, 2⟩, .WRITERESPONSEMESSAGE⟩} :=
  ⟨_, rfl, requests_answered attached_pair initial_pair (by decide)
    (show (machine pair).run (create pair) writtenAndAnswered = some (_, writtenOutputs)
      from rfl)⟩

/-- Every answer that a CLP has queued has come to the process of its agent once, or is on its
way. -/
theorem replies_delivered
    (hattached : Attached setup.numberOfClps setup.initialisor.alpToClpMap)
    (hinitial : Initial setup net₀)
    (hmeets : (machine setup).Meets (LeadsToNeighbours setup) net₀ es)
    (hrun : (machine setup).run net₀ es = some (net, os)) :
    net.count Content.replies setup +
        (machine setup).collect (fun net e r => net.ended setup e r.2) net₀ es =
      (machine setup).collect produced net₀ es := by
  have hbalance := (machine setup).balance (LeadsToNeighbours setup) (Sound setup)
    (fun net => net.count Content.replies setup) produced (fun net e r => net.ended setup e r.2)
    (fun net e net' o h ha hs => (h.step hattached hinitial.places.2 ha (machine_step.mp hs)).1)
    (fun net e net' o h ha hs =>
      (h.step hattached hinitial.places.2 ha (machine_step.mp hs)).2.replies h hattached)
    hinitial.sound hmeets hrun
  rwa [hinitial.count_eq_zero, zero_add] at hbalance

theorem replies_delivered_written : ∃ net,
    (machine pair).run (create pair) writtenAndAnswered = some (net, writtenOutputs) ∧
    net.count Content.replies pair + (machine pair).collect
      (fun net e r => net.ended pair e r.2) (create pair) writtenAndAnswered =
        {(2, .response ⟨3, 5, ⟨1, 2⟩, .writeResponse .writeSUCCESS⟩)} :=
  ⟨_, rfl, replies_delivered attached_pair initial_pair (by decide)
    (show (machine pair).run (create pair) writtenAndAnswered = some (_, writtenOutputs)
      from rfl)⟩

end Runs

end Network
end PdesMas
