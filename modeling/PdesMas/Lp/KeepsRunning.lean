import PdesMas.Lp.Conservation
import PdesMas.Lp.LastingClp

/-!
No CLP ends its process. While the ALPs ask for variables there are, GVT does not
pass what is on its way and the variables move between neighbours, whatever a CLP
is to receive, send or give away it can.
-/

namespace PdesMas

def Content.Timely (floor : Nat) : Content → Prop
  | .agent _ _ m => m.Timely floor
  | .response _ | .rollback _ => True

instance (floor : Nat) : DecidablePred (AlpMessage.Timely floor)
  | .request _ => inferInstanceAs (Decidable (_ ∧ _))
  | .anti ⟨timestamp, _, _, .singleReadAnti _⟩ | .anti ⟨timestamp, _, _, .rangeQueryAnti ..⟩ =>
      inferInstanceAs (Decidable (timestamp < LONG_MAX ∧ floor ≤ timestamp))
  | .anti ⟨timestamp, _, _, .writeAnti _⟩ =>
      inferInstanceAs (Decidable (timestamp < LONG_MAX ∧ floor < timestamp))

instance (floor : Nat) : DecidablePred (Content.Timely floor)
  | .agent _ _ m => inferInstanceAs (Decidable (m.Timely floor))
  | .response _ | .rollback _ => inferInstanceAs (Decidable True)

theorem AlpMessage.Timely.max {m : AlpMessage} {floor floor' : Nat} (h : m.Timely floor)
    (h' : m.Timely floor') : m.Timely (max floor floor') := by
  cases m with
  | request m => exact ⟨Nat.max_le.mpr ⟨h.1, h'.1⟩, h.2⟩
  | anti m =>
      obtain ⟨timestamp, agent, tag, kind⟩ := m
      refine ⟨h.1, ?_⟩
      cases kind with
      | writeAnti => exact Nat.max_lt.mpr ⟨h.2, h'.2⟩
      | singleReadAnti | rangeQueryAnti => exact Nat.max_le.mpr ⟨h.2, h'.2⟩

section Clps

variable {known : LpId → Prop} {placed : SsvId → Prop} {floor floor' : Nat}

theorem Content.Fits.max {content : Content} (h : content.Fits known placed floor)
    (htimely : content.Timely floor') : content.Fits known placed (max floor floor') := by
  cases content with
  | agent => exact ⟨h.1.max htimely, h.2⟩
  | response | rollback => exact h

theorem StateMigrationMessage.Lasting.raise {m : StateMigrationMessage} (h : m.Lasting known floor)
    (hle : floor ≤ floor') : m.Lasting known floor' := fun id sv hsv => (h id sv hsv).raise hle

namespace Clp

variable {c c' : Clp} {rollbacks : RollbackList → List (LpId × Nat)} {clock : SsvId → Nat}

/-- A CLP that can handle whatever it has. -/
structure Lasting (known : LpId → Prop) (placed : SsvId → Prop) (floor : Nat) (c : Clp) : Prop where
  stored : c.sharedState.Lasting known floor
  received : ∀ m ∈ c.receiveMessageQueue, m.content.Fits known placed floor
  sent : ∀ m ∈ c.sendMessageQueue, m.content.Fits known placed floor
  migrationsReceived : ∀ m ∈ c.receiveLoadBalancingMessageQueue, m.Lasting known floor
  migrationsSent : ∀ m ∈ c.sendLoadBalancingMessageQueue, m.Lasting known floor

def Sent.Lasting (known : LpId → Prop) (placed : SsvId → Prop) (floor : Nat) : Sent → Prop
  | .nothing => True
  | .simulation m => m.content.Fits known placed floor
  | .migration m => m.Lasting known floor

theorem Lasting.sustain (h : c.Lasting known placed floor)
    (hsustains : Sustains known placed floor c c')
    (hreceived : ∀ m ∈ c'.receiveLoadBalancingMessageQueue, m.Lasting known floor)
    (hsent : ∀ m ∈ c'.sendLoadBalancingMessageQueue, m.Lasting known floor) :
    c'.Lasting known placed floor := by
  obtain ⟨l, hqueues, hfits⟩ := hsustains.queues
  refine ⟨hsustains.lasting, fun m hm => ?_, fun m hm => ?_, hreceived, hsent⟩
  · rw [hqueues.received] at hm
    exact h.received m hm
  · rw [hqueues.sent] at hm
    exact (List.mem_append.mp hm).elim (h.sent m) (hfits m)

/-- A GVT that passes nothing the CLP has. -/
theorem Lasting.raise (h : c.Lasting known placed floor)
    (hreceived : ∀ m ∈ c.receiveMessageQueue, m.content.Timely floor')
    (hsent : ∀ m ∈ c.sendMessageQueue, m.content.Timely floor') :
    c.Lasting known placed (max floor floor') where
  stored := h.stored.raise (Nat.le_max_left _ _)
  received m hm := (h.received m hm).max (hreceived m hm)
  sent m hm := (h.sent m hm).max (hsent m hm)
  migrationsReceived m hm := (h.migrationsReceived m hm).raise (Nat.le_max_left _ _)
  migrationsSent m hm := (h.migrationsSent m hm).raise (Nat.le_max_left _ _)

theorem Lasting.setGvt (h : c.Lasting known placed floor) {gvt : Nat} (hgvt : gvt ≤ floor)
    (htime : gvt < LONG_MAX) : (c.setGvt gvt).Lasting known placed floor :=
  ⟨h.stored.removeWritePeriods hgvt htime, h.received, h.sent, h.migrationsReceived,
    h.migrationsSent⟩

theorem Lasting.receiveSimulation (hrollbacks : CallsOnly rollbacks)
    (h : c.Lasting known placed floor) (hdirects : c.Directs known placed) {m : SimulationMessage}
    {rest : List SimulationMessage} (hqueue : c.receiveMessageQueue = m :: rest) :
    ∃ r, { c with receiveMessageQueue := rest }.receiveSimulation rollbacks clock m.content =
        .ok r ∧ r.1.Lasting known placed floor ∧ r.1.gvt = c.gvt := by
  let c₁ : Clp := { c with receiveMessageQueue := rest }
  have hrest : c₁.Lasting known placed floor :=
    ⟨h.stored, fun m' hm' => h.received m' (hqueue ▸ List.mem_cons_of_mem m hm'), h.sent,
      h.migrationsReceived, h.migrationsSent⟩
  have hfits := h.received m (by simp [hqueue])
  obtain ⟨r, hr, hsustains⟩ : ∃ r, c₁.receiveSimulation rollbacks clock m.content = .ok r ∧
      Sustains known placed floor c₁ r.1 :=
    exists_receiveSimulation hrollbacks hrest.stored ⟨hdirects.agents, hdirects.ssvs⟩ hfits
  obtain ⟨hreceived, hsent⟩ := (handles_of_receiveSimulation hr).migrations
  exact ⟨r, hr, hrest.sustain hsustains (hreceived ▸ h.migrationsReceived)
    (hsent ▸ h.migrationsSent), hsustains.gvt⟩

theorem Lasting.processStateMigration (hrollbacks : CallsOnly rollbacks)
    (h : c.Lasting known placed floor) {m : StateMigrationMessage}
    {rest : List StateMigrationMessage}
    (hqueue : c.receiveLoadBalancingMessageQueue = m :: rest)
    (hanswers : Answers { c with receiveLoadBalancingMessageQueue := rest } c')
    (hrun : Clp.processStateMigration rollbacks clock m.stateVariableMap.toList
      { c with receiveLoadBalancingMessageQueue := rest } = .ok c') :
    c'.Lasting known placed floor ∧ c'.gvt = c.gvt := by
  have hlasting := h.migrationsReceived m (by simp [hqueue])
  have hrest : { c with receiveLoadBalancingMessageQueue := rest }.Lasting known placed floor :=
    ⟨h.stored, h.received, h.sent, fun m' hm' => h.migrationsReceived m' (by simp [hqueue, hm']),
      h.migrationsSent⟩
  have hsustains : Sustains known placed floor _ c' := sustains_processStateMigration hrollbacks
    (fun e he => hlasting e.1 e.2 (Std.TreeMap.mem_toList_iff_getElem?_eq_some.mp he))
    hrest.stored hrun
  exact ⟨hrest.sustain hsustains (hanswers.migrationsReceived ▸ hrest.migrationsReceived)
    (hanswers.migrationsSent ▸ hrest.migrationsSent), hsustains.gvt⟩

theorem Lasting.send (h : c.Lasting known placed floor) (hdirects : c.Directs known placed) :
    ∃ r, c.send = .ok r ∧ r.1.Lasting known placed floor ∧ r.1.gvt = c.gvt ∧
      r.2.Lasting known placed floor := by
  obtain ⟨⟨c', s⟩, hr⟩ := exists_send hdirects h.sent
  refine ⟨(c', s), hr, ?_⟩
  cases sending_of_send hr with
  | nothing => exact ⟨h, rfl, trivial⟩
  | @simulation m m' rest hqueue hcontent =>
      refine ⟨⟨h.stored, h.received, fun m hm => h.sent m (by simp [hqueue, hm]),
        h.migrationsReceived, h.migrationsSent⟩, rfl, ?_⟩
      have hfits := h.sent m (by simp [hqueue])
      rwa [← hcontent] at hfits
  | @migration m rest hqueue =>
      exact ⟨⟨h.stored, h.received, h.sent, h.migrationsReceived,
        fun m hm => h.migrationsSent m (by simp [hqueue, hm])⟩, rfl,
        h.migrationsSent m (by simp [hqueue])⟩

theorem Lasting.migrateStateVariables (hrollbacks : CallsOnly rollbacks)
    (h : c.Lasting known placed floor) {migrationMap : List (Direction × List SsvId)}
    (hkept : c'.receiveLoadBalancingMessageQueue = c.receiveLoadBalancingMessageQueue)
    (hrun : Clp.migrateStateVariables rollbacks clock migrationMap c = .ok c') :
    c'.Lasting known placed floor ∧ c'.gvt = c.gvt := by
  obtain ⟨hsustains, ms, hms, hlasting⟩ :=
    sustains_migrateStateVariables hrollbacks h.stored hrun
  refine ⟨h.sustain hsustains (hkept ▸ h.migrationsReceived) fun m hm => ?_, hsustains.gvt⟩
  rw [hms] at hm
  exact (List.mem_append.mp hm).elim (h.migrationsSent m) (hlasting m)

end Clp
end Clps

namespace Network

open RouteTable (Attached)

variable {setup : Setup} {net net' : Network}

/-- The agents of the processes there are. -/
def Known (setup : Setup) (agent : LpId) : Prop := agent.rank < numberOfProcesses setup

def Placed (setup : Setup) (ssvId : SsvId) : Prop :=
  ssvId ∈ setup.initialisor.placements.map Prod.snd

/-- The highest GVT that a CLP has been told. -/
def highestGvt (setup : Setup) (net : Network) : Nat :=
  (Finset.range setup.numberOfClps).sup fun x => (net.clp x).gvt

/-- ALPs send messages of their own agents, about variables there are and not from before GVT.
GVT does not decrease, and passes nothing that is on its way. -/
def KeepsTime (setup : Setup) (net : Network) : Event → Prop
  | .alpSend alp m =>
      m.originalAgent.rank = alp ∧ m.Timely (net.highestGvt setup) ∧
        ∀ ssvId ∈ m.ssvId?, Placed setup ssvId
  | .setGvt clp gvt =>
      (net.clp clp).gvt ≤ gvt ∧ gvt < LONG_MAX ∧
        ∀ letter ∈ net.letters setup, letter.2.content.Timely gvt
  | .deliver .. | .receive .. | .send _ | .migrate .. => True

instance (net : Network) : DecidablePred (KeepsTime setup net)
  | .alpSend .. => inferInstanceAs (Decidable (_ ∧ _ ∧ ∀ ssvId ∈ _, ssvId ∈ _))
  | .setGvt .. => inferInstanceAs (Decidable (_ ∧ _ ∧ _))
  | .deliver .. | .receive .. | .send _ | .migrate .. => inferInstanceAs (Decidable True)

/-- The simulation is attached as it should be, starts in time, and its range queries are
those of its agents. -/
structure Started (setup : Setup) : Prop where
  attached : Attached setup.numberOfClps setup.initialisor.alpToClpMap
  startTime : setup.startTime < LONG_MAX
  queries : ∀ rank, ∀ e ∈ RangeRoutingTable.recorded (setup.rangeRoutingTable rank).rangePeriodList,
    Known setup e.originalAlp
  rollbacks : CallsOnly setup.rollbacks

/-- The tables of a CLP lead to all agents and to all variables. -/
theorem Sound.directs (h : Sound setup net)
    (hattached : Attached setup.numberOfClps setup.initialisor.alpToClpMap) {x : Nat}
    (hx : x < setup.numberOfClps) : (net.clp x).Directs (Known setup) (Placed setup) := by
  obtain ⟨t, ht, hranks, hports⟩ := h.posted.tabled x hx
  have hdirects := RouteTable.directs_create hx ht
  constructor
  · intro agent hagent
    have hfound : ∃ d, t.getDirectionFromRank agent.rank = some d := by
      by_cases hclp : agent.rank < setup.numberOfClps
      · exact ⟨_, hdirects.clp _ hclp⟩
      · have hle := Nat.le_of_not_lt hclp
        obtain ⟨c, hc⟩ := Std.TreeMap.isSome_getElem?_iff_mem.mpr
          ((hattached.ranks agent.rank).mpr ⟨hle, hagent⟩) |> Option.isSome_iff_exists.mp
        by_cases hown : c = x
        · obtain ⟨d, hd, _⟩ := hdirects.ownAlp agent.rank hle hagent (hown ▸ hc)
          exact ⟨d, hd⟩
        · exact ⟨_, hdirects.alp agent.rank c hle hagent hc (hattached.clps _ c hc) hown⟩
    obtain ⟨d, hd⟩ := hfound
    refine ⟨d, ?_, fun haway => ?_⟩
    · rwa [RouteTable.getDirectionFromRank, hranks]
    · rw [RouteTable.getRankFromDirection, hports]
      exact (RouteTable.usesPorts_create ht).behind _ _ hd haway
  · intro ssvId hplaced
    obtain ⟨p, hp⟩ := h.homed.tracked ssvId hplaced
    refine ⟨_, hp.route x hx, fun haway => ?_, fun hhere => ?_⟩
    · have hne : p ≠ .rest x := by
        rintro rfl
        exact haway (by simp [port, TreeRouting.pointer])
      obtain ⟨d, hd, hport⟩ := hp.leadsTo h.homed.wired hx hne
      rw [hp.route x hx] at hd
      exact ⟨_, Option.some.inj hd ▸ hport⟩
    · exact h.homed.held_of_here hx (hhere ▸ hp.route x hx)

def TransferLasts (setup : Setup) (floor : Nat) : Transfer → Prop
  | .simulation m => m.content.Fits (Known setup) (Placed setup) floor
  | .migration m => m.Lasting (Known setup) floor

/-- Every CLP can handle what it has and what is on its way to it. -/
structure Lasting (setup : Setup) (floor : Nat) (net : Network) : Prop where
  clps : ∀ x, x < setup.numberOfClps →
    (net.clp x).Lasting (Known setup) (Placed setup) floor
  links : ∀ a b, ∀ t ∈ net.link a b, TransferLasts setup floor t

section Steps

variable {floor : Nat}

theorem Lasting.setClp (h : net.Lasting setup floor) {x : Nat} {c : Clp}
    (hc : c.Lasting (Known setup) (Placed setup) floor) :
    (net.setClp x c).Lasting setup floor := by
  refine ⟨fun y hy => ?_, h.links⟩
  rw [setClp_clp]
  split
  · exact hc
  · exact h.clps y hy

theorem Lasting.setLink (h : net.Lasting setup floor) {a b : Nat} {l : List Transfer}
    (hl : ∀ t ∈ l, TransferLasts setup floor t) : (net.setLink a b l).Lasting setup floor := by
  refine ⟨h.clps, fun i j t ht => ?_⟩
  rw [setLink_link] at ht
  split at ht
  · exact hl t ht
  · exact h.links i j t ht

theorem Lasting.push (h : net.Lasting setup floor) {a b : Nat} {t : Transfer}
    (ht : TransferLasts setup floor t) : (net.push a b t).Lasting setup floor := by
  refine h.setLink fun t' ht' => ?_
  rcases List.mem_append.mp ht' with ht' | ht'
  · exact h.links a b t' ht'
  · exact List.mem_singleton.mp ht' ▸ ht

theorem highestGvt_of_same (h : ∀ x, (net'.clp x).gvt = (net.clp x).gvt) :
    net'.highestGvt setup = net.highestGvt setup := by
  simp only [highestGvt, h]

theorem gvt_setClp {x : Nat} {c : Clp} (h : c.gvt = (net.clp x).gvt) (y : Nat) :
    ((net.setClp x c).clp y).gvt = (net.clp y).gvt := by
  rw [setClp_clp]
  split
  · rename_i hyx
    rw [h, hyx]
  · rfl

theorem gvt_le_highestGvt {x : Nat} (hx : x < setup.numberOfClps) :
    (net.clp x).gvt ≤ net.highestGvt setup :=
  Finset.le_sup (f := fun x => (net.clp x).gvt) (Finset.mem_range.mpr hx)

/-- What holds along every run. -/
structure Running (setup : Setup) (net : Network) : Prop where
  sound : Sound setup net
  lasting : net.Lasting setup (net.highestGvt setup)

theorem Lasting.alpSend (h : net.Lasting setup floor)
    (hattached : Attached setup.numberOfClps setup.initialisor.alpToClpMap) {alp : Nat}
    {m : AlpMessage} (hagent : m.originalAgent.rank = alp) (htimely : m.Timely floor)
    (hplaced : ∀ ssvId ∈ m.ssvId?, Placed setup ssvId) :
    (net.alpSend setup alp m).1.Lasting setup floor := by
  simp only [Network.alpSend]
  split
  · rename_i clp hclp
    split
    · rename_i halp
      obtain ⟨ssvId, hid⟩ := Option.isSome_iff_exists.mp halp.2
      have hknown : Known setup m.originalAgent := by
        rw [Known, hagent]
        exact ((hattached.ranks alp).mp (RouteTable.mem_of_getElem? hclp)).2
      have hfits : (Content.agent net.sent 0 m).Fits (Known setup) (Placed setup) floor :=
        ⟨htimely, hknown, ssvId, hid, hplaced ssvId hid⟩
      have hpushed : (net.push alp clp (.simulation ⟨alp, clp, .agent net.sent 0 m⟩)).Lasting setup
          floor := h.push hfits
      exact ⟨hpushed.clps, hpushed.links⟩
    · exact h
  · exact h

theorem Lasting.deliver (h : net.Lasting setup floor) (source target : Nat) :
    (net.deliver setup source target).Lasting setup floor := by
  simp only [Network.deliver]
  split
  · exact h
  · rename_i t rest hlink
    have ht : TransferLasts setup floor t := h.links source target t (by simp [hlink])
    have hrest : (net.setLink source target rest).Lasting setup floor :=
      h.setLink fun t' ht' => h.links source target t' (by simp [hlink, ht'])
    split
    · rename_i htarget
      refine hrest.setClp ?_
      have hc := h.clps target htarget
      cases t with
      | simulation m =>
          refine ⟨hc.stored, fun m' hm' => ?_, hc.sent, hc.migrationsReceived, hc.migrationsSent⟩
          rcases List.mem_append.mp hm' with hm' | hm'
          · exact hc.received m' hm'
          · obtain rfl := List.mem_singleton.mp hm'
            exact ht
      | migration m =>
          refine ⟨hc.stored, hc.received, hc.sent, fun m' hm' => ?_, hc.migrationsSent⟩
          rcases List.mem_append.mp hm' with hm' | hm'
          · exact hc.migrationsReceived m' hm'
          · obtain rfl := List.mem_singleton.mp hm'
            exact ht
    · exact hrest

theorem Running.receive (h : Running setup net) (hstarted : Started setup) {x : Nat}
    (hx : x < setup.numberOfClps) (clock : SsvId → Nat) :
    ∃ r, (net.clp x).receive setup.rollbacks clock = .ok r ∧
      r.1.Lasting (Known setup) (Placed setup) (net.highestGvt setup) ∧
      r.1.gvt = (net.clp x).gvt := by
  have hc := h.lasting.clps x hx
  simp only [Clp.receive]
  split
  · rename_i m rest hqueue
    obtain ⟨hdestination, c', hc', hanswers, _⟩ := moves_enter h.sound.homed hx clock hqueue
    refine ⟨(c', .migrated), ?_,
      hc.processStateMigration hstarted.rollbacks hqueue hanswers hc'⟩
    rw [if_pos hdestination]
    exact bind_eq_ok.mpr ⟨c', hc', rfl⟩
  · split
    · rename_i m rest hqueue
      exact hc.receiveSimulation hstarted.rollbacks (h.sound.directs hstarted.attached hx) hqueue
    · exact ⟨_, rfl, hc, rfl⟩

theorem highestGvt_setGvt {x gvt : Nat} (hx : x < setup.numberOfClps)
    (hle : (net.clp x).gvt ≤ gvt) :
    (net.setClp x ((net.clp x).setGvt gvt)).highestGvt setup =
      max (net.highestGvt setup) gvt := by
  let net' := net.setClp x ((net.clp x).setGvt gvt)
  have hhigh : ∀ y, y < setup.numberOfClps → (net'.clp y).gvt ≤ net'.highestGvt setup :=
    fun y hy => gvt_le_highestGvt hy
  have hset : ∀ y, (net'.clp y).gvt = if y = x then gvt else (net.clp y).gvt := by
    intro y
    rw [setClp_clp]
    split <;> rfl
  refine Nat.le_antisymm (Finset.sup_le fun y hy => ?_)
    (Nat.max_le.mpr ⟨Finset.sup_le fun y hy => ?_, ?_⟩)
  · rw [hset]
    split
    · exact Nat.le_max_right _ _
    · exact (gvt_le_highestGvt (Finset.mem_range.mp hy)).trans (Nat.le_max_left _ _)
  · refine Nat.le_trans ?_ (hhigh y (Finset.mem_range.mp hy))
    rw [hset]
    split
    · rename_i hyx
      exact hyx ▸ hle
    · exact Nat.le_refl _
  · have hown := hhigh x hx
    rwa [hset, if_pos rfl] at hown

theorem Running.setGvt (h : Running setup net) {x gvt : Nat} (hx : x < setup.numberOfClps)
    (hkeeps : KeepsTime setup net (.setGvt x gvt)) :
    (net.setClp x ((net.clp x).setGvt gvt)).Lasting setup
      ((net.setClp x ((net.clp x).setGvt gvt)).highestGvt setup) := by
  obtain ⟨hle, htime, htimely⟩ := hkeeps
  have hclps : ∀ y, y < setup.numberOfClps →
      (net.clp y).Lasting (Known setup) (Placed setup) (max (net.highestGvt setup) gvt) := by
    intro y hy
    refine (h.lasting.clps y hy).raise (fun m hm => ?_) fun m hm => ?_
    · exact htimely (.received y, m) (Ledger.mem_bag.mpr ⟨received_mem_spots.mpr hy, hm⟩)
    · exact htimely (.queued y, m) (Ledger.mem_bag.mpr ⟨queued_mem_spots.mpr hy, hm⟩)
  have hlinks : net.Lasting setup (max (net.highestGvt setup) gvt) := by
    refine ⟨hclps, fun a b t ht => ?_⟩
    cases t with
    | simulation m =>
        have hm : m ∈ net.messagesAt (.link a b) :=
          List.mem_filterMap.mpr ⟨.simulation m, ht, rfl⟩
        have hspot := h.sound.posted.inside a b (List.ne_nil_of_mem hm)
        exact Content.Fits.max (h.lasting.links a b _ ht)
          (htimely (.link a b, m) (Ledger.mem_bag.mpr ⟨hspot, hm⟩))
    | migration m =>
        exact StateMigrationMessage.Lasting.raise (h.lasting.links a b _ ht) (Nat.le_max_left _ _)
  rw [highestGvt_setGvt hx hle]
  exact hlinks.setClp ((hclps x hx).setGvt (Nat.le_max_right _ _) htime)

theorem gvt_alpSend (alp : Nat) (m : AlpMessage) (y : Nat) :
    ((net.alpSend setup alp m).1.clp y).gvt = (net.clp y).gvt := by
  simp only [Network.alpSend]
  split
  · split <;> rfl
  · rfl

theorem gvt_deliver (source target y : Nat) :
    ((net.deliver setup source target).clp y).gvt = (net.clp y).gvt := by
  simp only [Network.deliver]
  split
  · rfl
  · rename_i t rest hlink
    split
    · refine gvt_setClp ?_ y
      cases t <;> rfl
    · rfl

theorem clp_put (source : Nat) (r : Clp.Sent) : (net.put source r).clp = net.clp := by
  cases r <;> rfl

theorem Lasting.put (h : net.Lasting setup floor) {source : Nat} {r : Clp.Sent}
    (hr : r.Lasting (Known setup) (Placed setup) floor) :
    (net.put source r).Lasting setup floor := by
  cases r with
  | nothing => exact h
  | simulation m => exact h.push hr
  | migration m => exact h.push hr

/-- No step fails, and all CLPs can go on after it. -/
theorem Running.step (h : Running setup net) (hstarted : Started setup)
    (hhosts : ∀ e ∈ setup.initialisor.placements, e.1 < setup.numberOfClps) {e : Event}
    (hleads : LeadsToNeighbours setup net e) (hkeeps : KeepsTime setup net e) :
    ∃ r, net.step setup e = .ok r ∧ Running setup r.1 := by
  have hexists : ∃ r, net.step setup e = .ok r ∧ r.1.Lasting setup (r.1.highestGvt setup) := by
    have hidle : ∃ r, (.ok (net, .nothing) : Except Exit (Network × Output)) = .ok r ∧
        r.1.Lasting setup (r.1.highestGvt setup) := ⟨_, rfl, h.lasting⟩
    cases e with
    | alpSend alp m =>
        obtain ⟨hagent, htimely, hplaced⟩ := hkeeps
        refine ⟨_, rfl, ?_⟩
        rw [highestGvt_of_same (gvt_alpSend alp m)]
        exact h.lasting.alpSend hstarted.attached hagent htimely hplaced
    | deliver source target =>
        refine ⟨_, rfl, ?_⟩
        rw [highestGvt_of_same (gvt_deliver source target)]
        exact h.lasting.deliver source target
    | receive x clock =>
        simp only [Network.step]
        split
        · rename_i hx
          obtain ⟨r, hr, hlasting, hgvt⟩ := h.receive hstarted hx clock
          refine ⟨_, bind_eq_ok.mpr ⟨r, hr, rfl⟩, ?_⟩
          rw [highestGvt_of_same (gvt_setClp hgvt)]
          exact h.lasting.setClp hlasting
        · exact hidle
    | send x =>
        simp only [Network.step]
        split
        · rename_i hx
          obtain ⟨r, hr, hlasting, hgvt, hsent⟩ :=
            (h.lasting.clps x hx).send (h.sound.directs hstarted.attached hx)
          have hsame : ∀ y, (((net.setClp x r.1).put x r.2).clp y).gvt = (net.clp y).gvt := by
            rw [clp_put]
            exact gvt_setClp hgvt
          refine ⟨_, bind_eq_ok.mpr ⟨r, hr, rfl⟩, ?_⟩
          rw [highestGvt_of_same hsame]
          exact (h.lasting.setClp hlasting).put hsent
        · exact hidle
    | setGvt x gvt =>
        simp only [Network.step]
        split
        · rename_i hx
          exact ⟨_, rfl, h.setGvt hx hkeeps⟩
        · exact hidle
    | migrate x migrationMap clock =>
        simp only [Network.step]
        split
        · rename_i hx
          obtain ⟨c', ms, hc', hsends, _⟩ := moves_migrate hx clock hleads
          obtain ⟨hlasting, hgvt⟩ := (h.lasting.clps x hx).migrateStateVariables
            hstarted.rollbacks hsends.migrationsReceived hc'
          refine ⟨_, bind_eq_ok.mpr ⟨c', hc', rfl⟩, ?_⟩
          rw [highestGvt_of_same (gvt_setClp hgvt)]
          exact h.lasting.setClp hlasting
        · exact hidle
  obtain ⟨⟨net', o⟩, hstep, hlasting⟩ := hexists
  exact ⟨_, hstep, (h.sound.step hstarted.attached hhosts hleads hstep).1, hlasting⟩

end Steps

section Runs

end Runs

end Network
end PdesMas
