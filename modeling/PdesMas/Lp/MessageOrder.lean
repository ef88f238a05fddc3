import PdesMas.Lp.MessageFlow

/-!
A request and the anti-message that cancels it follow the same way from their
ALP to the variable. The anti-message stays behind as long as the request does
not cross a state migration of the variable; if it does, the old host sends the
request back while the anti-message may meet the variable at its new host.
-/

namespace PdesMas.Network

open TreeRouting (Place Ahead Apart)

variable {setup : Setup} {net net' : Network}

theorem ssvId?_anti {q : SharedStateMessage} {ssvId : SsvId} (tag : RollbackTag)
    (h : (AlpMessage.request q).ssvId? = some ssvId) :
    (AlpMessage.anti (q.anti tag)).ssvId? = some ssvId := by
  obtain ⟨identifier, timestamp, agent, kind⟩ := q
  cases kind with
  | singleRead id | write id value | rangeQuery range => exact h

/-- The message is not on its way from one CLP to another while a state migration takes
the variable the other way. -/
def NotCrossing (setup : Setup) (net : Network) (ssvId : SsvId) (i : Nat × AlpMessage) : Prop :=
  ∀ a, a < setup.numberOfClps → ∀ b, b < setup.numberOfClps →
    i ∈ net.pipe setup a b → net.carried ssvId b a = 0

theorem NotCrossing.apart {ssvId : SsvId} {i : Nat × AlpMessage} {p : Place Nat}
    (h : NotCrossing setup net ssvId i) (hp : Tracks setup net ssvId p) :
    Apart (net.pipe setup) p i := by
  rintro a b rfl hmem
  obtain ⟨ha, hb, _⟩ := hp.onTree
  have hzero := h b hb a ha hmem
  rw [hp.carried, if_pos rfl] at hzero
  cases hzero

theorem Still.tracks {ssvId : SsvId} {p : Place Nat} (h : Still net net')
    (hp : Tracks setup net ssvId p) : Tracks setup net' ssvId p :=
  hp.stay (funext fun x => (h.clps x).holds ssvId) (funext fun x => (h.clps x).route ssvId)
    fun i j => by rw [carried, carried, h.migrations]

/-- Where the route of the variable is `HERE`, the variable is. -/
theorem Tracks.rest_of_here {ssvId : SsvId} {p : Place Nat} (hp : Tracks setup net ssvId p)
    {x : Nat} (hx : x < setup.numberOfClps) (hhere : net.route ssvId x = some .HERE) :
    p = .rest x := by
  by_contra hne
  have hself := port_eq_here.mp (Option.some.inj ((hp.route x hx).symm.trans hhere))
  exact (pointer_ne_self hp.onTree hne).ne hself.symm

/-- Elsewhere messages for the variable are forwarded along its pointer. -/
theorem Tracks.port_of_route {ssvId : SsvId} {p : Place Nat} (hp : Tracks setup net ssvId p)
    (hwired : Wired setup net) {x g : Nat} (hx : x < setup.numberOfClps) {direction : Direction}
    (hroute : net.route ssvId x = some direction) (haway : direction ≠ .HERE)
    (hport : (net.clp x).routeTable.getRankFromDirection direction = some g) :
    p ≠ .rest x ∧ g = HeapTree.routing.pointer p x ∧ g < setup.numberOfClps ∧
      HeapTree.Adj x g := by
  have hp' : p ≠ .rest x := by
    rintro rfl
    rw [hp.route x hx] at hroute
    simp [TreeRouting.pointer, port, haway.symm] at hroute
  obtain ⟨d, hd, hlead⟩ := hp.leadsTo hwired hx hp'
  obtain rfl : d = direction := Option.some.inj (hd.symm.trans hroute)
  have hg : g = HeapTree.routing.pointer p x := Option.some.inj (hport.symm.trans hlead)
  exact ⟨hp', hg, hg ▸ pointer_lt hp.onTree hx, hg ▸ pointer_ne_self hp.onTree hp'⟩

/-- The request is ahead of the later message. A message to a parent that is no CLP goes
nowhere. -/
inductive Leads (setup : Setup) (net : Network) (alp parent : Nat) (p : Place Nat)
    (r m : Nat × AlpMessage) : Prop
  | ahead (c d : Nat) (h : HeapTree.routing.Ahead (· < setup.numberOfClps) alp parent
      (net.pipe setup) p r m c d)
  | stuck (hparent : ¬ parent < setup.numberOfClps)
      (h : ∀ a b, m ∈ net.pipe setup a b → b = parent)

/-- What holds along a run in which `r` is sent and not processed. -/
structure Pending (setup : Setup) (net : Network) (ssvId : SsvId) (alp parent : Nat)
    (r m : Nat × AlpMessage) : Prop where
  homed : Homed setup net
  fresh : ∀ a b, ∀ i ∈ net.pipe setup a b, i.1 < net.sent
  leads : r.1 < net.sent → NotCrossing setup net ssvId r →
    ∃ p, Tracks setup net ssvId p ∧ Leads setup net alp parent p r m

/-- What the outputs of such a run are. -/
structure Awaits (alp : Nat) (r m : Nat × AlpMessage) (o : Output) : Prop where
  request : ∀ a i, o = .sent a r.1 i → a = alp ∧ i = r.2
  later : ∀ a i, o = .sent a m.1 i → a = alp
  unprocessed : ∀ x, o ≠ .received x (.processed r.1 r.2)

theorem Flows.fresh {o : Output} (h : Flows setup net net' o)
    (hfresh : ∀ a b, ∀ i ∈ net.pipe setup a b, i.1 < net.sent) :
    ∀ a b, ∀ i ∈ net'.pipe setup a b, i.1 < net'.sent := by
  intro a b i hi
  cases h with
  | rest pipes sent =>
      rw [pipes] at hi
      exact sent ▸ hfresh a b i hi
  | lost _ sent _ fewer => exact sent ▸ hfresh a b i (fewer a b i hi)
  | entered _ sent _ _ pipes =>
      rw [pipes] at hi
      rw [sent]
      rcases Pipes.mem_push hi with hi | ⟨_, _, rfl⟩
      · exact Nat.lt_succ_of_lt (hfresh a b i hi)
      · exact Nat.lt_succ_self _
  | processed _ sent _ _ _ head pipes =>
      rw [pipes] at hi
      exact sent ▸ hfresh a b i (Pipes.mem_put_tail head hi)
  | forwarded _ sent _ _ _ _ _ head pipes =>
      rw [pipes] at hi
      rw [sent]
      rcases Pipes.mem_push hi with hi | ⟨_, _, rfl⟩
      · exact hfresh a b i (Pipes.mem_put_tail head hi)
      · exact hfresh _ _ _ (by rw [head]; exact List.mem_cons_self)

section Order

variable {ssvId : SsvId} {alp parent : Nat} {r m : Nat × AlpMessage} {p p' : Place Nat}

/-- The request stays ahead when the variable moves. -/
theorem Leads.move (h : Leads setup net alp parent p r m)
    (hpipes : net'.pipe setup = net.pipe setup)
    (hp : p'.target = p.target ∨ ∃ x t, p = .rest x ∧ p' = .move x t)
    (hp' : Tracks setup net' ssvId p') (hcross : NotCrossing setup net' ssvId r) :
    Leads setup net' alp parent p' r m := by
  cases h with
  | ahead c d h =>
      refine .ahead c d (hpipes ▸ h.move ?_ (hpipes ▸ hcross.apart hp'))
      rcases hp with htarget | ⟨x, t, rfl, rfl⟩
      · exact .inl htarget
      · exact .inr ⟨x, t, hp'.onTree.2.2, rfl, rfl⟩
  | stuck hparent h => exact .stuck hparent (hpipes ▸ h)

/-- The request stays ahead when messages move. -/
theorem Leads.flow (h : Leads setup net alp parent p r m) {o : Output}
    (hflows : Flows setup net net' o) (hwired : Wired setup net)
    (hp : Tracks setup net ssvId p) (halp : setup.numberOfClps ≤ alp)
    (hparent : setup.initialisor.alpToClpMap[alp]? = some parent)
    (hr : r.2.ssvId? = some ssvId) (hm : m.2.ssvId? = some ssvId) (ho : Awaits alp r m o)
    (hcross : Apart (net'.pipe setup) p r) (hmove : net'.pipe setup ≠ net.pipe setup) :
    Leads setup net' alp parent p r m := by
  have hsource : ¬ alp < setup.numberOfClps := Nat.not_lt.mpr halp
  cases hflows with
  | rest pipes => exact absurd pipes hmove
  | lost _ _ inside fewer =>
      cases h with
      | ahead c d h => exact .ahead c d (h.lose inside fewer)
      | stuck hout h => exact .stuck hout fun a b hmem => h a b (fewer a b m hmem)
  | @entered alp' clp i _ _ _ hclp pipes =>
      have henter : (net.sent, i) = m → alp' = alp ∧ clp = parent := by
        rintro rfl
        obtain rfl := ho.later alp' i rfl
        exact ⟨rfl, Option.some.inj (hclp.symm.trans hparent)⟩
      cases h with
      | ahead c d h => exact .ahead c d (pipes ▸ h.enter henter)
      | stuck hout h =>
          refine .stuck hout fun a b hmem => ?_
          rw [pipes] at hmem
          rcases Pipes.mem_push hmem with hmem | ⟨_, rfl, heq⟩
          · exact h a b hmem
          · exact (henter heq.symm).2
  | @processed a x serial i id rest _ _ hx _ _ head pipes =>
      cases h with
      | ahead c d h =>
          have hne : ¬ (c = a ∧ d = x ∧ (serial, i) = r) := by
            rintro ⟨_, _, rfl⟩
            exact ho.unprocessed x rfl
          exact .ahead c d (pipes ▸ (h.pop head hne).1)
      | stuck hout h =>
          refine .stuck hout fun e f hmem => ?_
          rw [pipes] at hmem
          exact h e f (Pipes.mem_put_tail head hmem)
  | @forwarded a x g serial i id direction rest _ _ hx hid hroute haway hport head pipes =>
      have hhead : (serial, i) ∈ net.pipe setup a x := by simp [head]
      by_cases heq : id = ssvId
      · subst heq
        obtain ⟨hrest, hg, hlt, hadj⟩ := hp.port_of_route hwired hx hroute haway hport
        cases h with
        | ahead c d h =>
            obtain ⟨c', d', h'⟩ := h.forward head hsource hg hadj hlt hrest (pipes ▸ hcross)
            exact .ahead c' d' (pipes ▸ h')
        | stuck hout h =>
            refine .stuck hout fun e f hmem => ?_
            rw [pipes] at hmem
            rcases Pipes.mem_push hmem with hmem | ⟨_, _, rfl⟩
            · exact h e f (Pipes.mem_put_tail head hmem)
            · exact absurd (h a x hhead ▸ hx) hout
      · -- a message for another variable
        have hother : ∀ j : Nat × AlpMessage, j.2.ssvId? = some ssvId → (serial, i) ≠ j := by
          rintro j hj rfl
          exact heq (Option.some.inj (hid.symm.trans hj))
        cases h with
        | ahead c d h =>
            have hpop := (h.pop head fun hr' => hother r hr hr'.2.2).1
            exact .ahead c d (pipes ▸ hpop.push fun heq => absurd heq (hother m hm))
        | stuck hout h =>
            refine .stuck hout fun e f hmem => ?_
            rw [pipes] at hmem
            rcases Pipes.mem_push hmem with hmem | ⟨_, _, rfl⟩
            · exact h e f (Pipes.mem_put_tail head hmem)
            · exact absurd rfl (hother _ hm)

/-- The request is sent. -/
theorem leads_of_entered (hentered : net'.pipe setup = (net.pipe setup).push alp parent r)
    (halp : setup.numberOfClps ≤ alp) (hnew : ∀ a b, m ∉ net.pipe setup a b) :
    Leads setup net' alp parent p r m := by
  have hsource : ¬ alp < setup.numberOfClps := Nat.not_lt.mpr halp
  by_cases hin : parent < setup.numberOfClps
  · exact .ahead alp parent (hentered ▸ TreeRouting.ahead_of_push hsource hin hnew)
  · refine .stuck hin fun a b hmem => ?_
    rw [hentered] at hmem
    rcases Pipes.mem_push hmem with hmem | ⟨_, hb, _⟩
    · exact absurd hmem (hnew a b)
    · exact hb

theorem Pending.step (h : Pending setup net ssvId alp parent r m)
    (hplaced : ssvId ∈ setup.initialisor.placements.map Prod.snd)
    (halp : setup.numberOfClps ≤ alp)
    (hparent : setup.initialisor.alpToClpMap[alp]? = some parent)
    (hr : r.2.ssvId? = some ssvId) (hm : m.2.ssvId? = some ssvId) (hlater : r.1 < m.1)
    {e : Event} {o : Output} (hleads : LeadsToNeighbours setup net e)
    (hcross : NotCrossing setup net ssvId r) (ho : Awaits alp r m o)
    (hstep : net.step setup e = .ok (net', o)) : Pending setup net' ssvId alp parent r m := by
  have hmoves := (moves_of_step h.homed hleads).2 _ hstep
  have hflows := flows_of_step h.homed hleads hstep
  refine ⟨h.homed.move hmoves, hflows.fresh h.fresh, fun hsent' hcross' => ?_⟩
  by_cases hsent : r.1 < net.sent
  · obtain ⟨p, hp, hlead⟩ := h.leads hsent hcross
    by_cases hpipes : net'.pipe setup = net.pipe setup
    · obtain ⟨p', hp', htarget⟩ := hp.shift h.homed.wired (hmoves.shifts ssvId)
      exact ⟨p', hp', hlead.move hpipes htarget hp' hcross'⟩
    · have hp' : Tracks setup net' ssvId p := by
        cases hflows with
        | rest pipes => exact absurd pipes hpipes
        | lost still | entered still | processed still | forwarded still => exact still.tracks hp
      exact ⟨p, hp', hlead.flow hflows h.homed.wired hp halp hparent hr hm ho
        (hcross'.apart hp') hpipes⟩
  · -- only the step that sends the request makes it one that is sent
    cases hflows with
    | rest _ sent | lost _ sent | processed _ sent | forwarded _ sent =>
        rw [sent] at hsent'
        exact absurd hsent' hsent
    | @entered alp' clp i still sent _ hclp pipes =>
        have heq : r.1 = net.sent := by omega
        obtain ⟨rfl, rfl⟩ := ho.request alp' i (by rw [heq])
        obtain rfl : clp = parent := Option.some.inj (hclp.symm.trans hparent)
        obtain ⟨p, hp⟩ := h.homed.tracked ssvId hplaced
        refine ⟨p, still.tracks hp, leads_of_entered (heq ▸ pipes) halp fun a b hmem => ?_⟩
        have := h.fresh a b m hmem
        omega

/-- As long as the request is pending, the later message is not processed. -/
theorem Pending.not_processed (h : Pending setup net ssvId alp parent r m)
    (hm : m.2.ssvId? = some ssvId) (hlater : r.1 < net.sent)
    {e : Event} {y : Nat} (hleads : LeadsToNeighbours setup net e)
    (hcross : NotCrossing setup net ssvId r) (hne : m ≠ r) :
    net.step setup e ≠ .ok (net', .received y (.processed m.1 m.2)) := by
  intro hstep
  obtain ⟨p, hp, hlead⟩ := h.leads hlater hcross
  cases flows_of_step h.homed hleads hstep with
  | rest _ _ _ idle => exact idle y m.1 m.2 rfl
  | @processed a _ _ _ id rest _ _ hy hid hhere head =>
      obtain rfl : id = ssvId := Option.some.inj (hid.symm.trans hm)
      have hrest := hp.rest_of_here hy hhere
      cases hlead with
      | ahead c d h => exact (h.take head hrest hne).2 rfl
      | stuck hout h =>
          have hmem : m ∈ net.pipe setup a y := by simp [head]
          exact hout (h a y hmem ▸ hy)

end Order

/-- Serial numbers are given out in turn, to messages of ALPs. -/
theorem sent_of_step {e : Event} {o : Output} (h : net.step setup e = .ok (net', o)) :
    (net'.sent = net.sent ∧ ∀ alp serial i, o ≠ .sent alp serial i) ∨
      ∃ alp i parent, o = .sent alp net.sent i ∧ net'.sent = net.sent + 1 ∧
        setup.numberOfClps ≤ alp ∧ setup.initialisor.alpToClpMap[alp]? = some parent := by
  cases works_of_step h with
  | alpSend alp i =>
      simp only [alpSend]
      split
      · rename_i parent hparent
        split
        · rename_i halp
          exact .inr ⟨alp, i, parent, rfl, rfl, halp.1, hparent⟩
        · exact .inl ⟨rfl, by simp⟩
      · exact .inl ⟨rfl, by simp⟩
  | deliver source target =>
      refine .inl ⟨?_, by simp⟩
      simp only [deliver]
      split
      · rfl
      · split <;> rfl
  | @send x c s hx hsend => exact .inl ⟨by cases s <;> rfl, by simp⟩
  | receive | setGvt | migrate | idle => exact .inl ⟨rfl, by simp⟩

theorem serials_of_run {es : List Event} {os : List Output}
    (h : (machine setup).run net es = some (net', os)) :
    net.sent ≤ net'.sent ∧
      ∀ alp t i, .sent alp t i ∈ os → net.sent ≤ t ∧ t < net'.sent := by
  induction es generalizing net os with
  | nil =>
      obtain ⟨rfl, rfl⟩ : net = net' ∧ [] = os := by simpa using h
      exact ⟨Nat.le_refl _, nofun⟩
  | cons e es ih =>
      obtain ⟨net₁, o, os', hstep, hrest, rfl⟩ := (machine setup).run_cons_iff.mp h
      obtain ⟨hle, hos⟩ := ih hrest
      rcases sent_of_step (machine_step.mp hstep) with ⟨hsent, hquiet⟩ | ⟨_, _, _, rfl, hsent, _⟩
      · refine ⟨hsent ▸ hle, fun alp t i hmem => ?_⟩
        rcases List.mem_cons.mp hmem with heq | hmem
        · exact absurd heq.symm (hquiet alp t i)
        · exact hsent ▸ hos alp t i hmem
      · refine ⟨by omega, fun alp t i hmem => ?_⟩
        rcases List.mem_cons.mp hmem with heq | hmem
        · cases heq
          omega
        · have := hos alp t i hmem
          omega

/-- A serial number is given out once. -/
theorem serial_unique {es : List Event} {os os' : List Output} {alp t : Nat} {i : AlpMessage}
    (h : (machine setup).run net es = some (net', os ++ .sent alp t i :: os'))
    {alp' : Nat} {i' : AlpMessage} (hmem : .sent alp' t i' ∈ os ++ .sent alp t i :: os') :
    alp' = alp ∧ i' = i := by
  obtain ⟨es₁, e, es₂, net₁, net₂, rfl, hbefore, hstep, hafter⟩ := (machine setup).run_split h
  rcases sent_of_step (machine_step.mp hstep) with ⟨_, hquiet⟩ | ⟨_, _, _, heq, hsent, _⟩
  · exact absurd rfl (hquiet alp t i)
  · cases heq
    rcases List.mem_append.mp hmem with hmem | hmem
    · have := (serials_of_run hbefore).2 _ _ _ hmem
      omega
    · rcases List.mem_cons.mp hmem with heq | hmem
      · cases heq
        exact ⟨rfl, rfl⟩
      · have := (serials_of_run hafter).2 _ _ _ hmem
        omega

theorem Homed.run {allowed : Network → Event → Prop} {es : List Event} {os : List Output}
    (h : Homed setup net)
    (hallowed : ∀ net e, allowed net e → LeadsToNeighbours setup net e)
    (hmeets : (machine setup).Meets allowed net es)
    (hrun : (machine setup).run net es = some (net', os)) : Homed setup net' :=
  (machine setup).invariant_of_meets allowed (Homed setup)
    (fun net e _ _ h ha hs =>
      h.move ((moves_of_step h (hallowed net e ha)).2 _ (machine_step.mp hs)))
    _ _ _ _ h hmeets hrun

theorem Initial.pending {ssvId : SsvId} {alp parent : Nat} {r m : Nat × AlpMessage}
    (h : Initial setup net) (hr : net.sent ≤ r.1) : Pending setup net ssvId alp parent r m := by
  refine ⟨h.homed, fun a b i hi => ?_, fun hsent => absurd hsent (Nat.not_lt.mpr hr)⟩
  obtain ⟨hsent, _⟩ := h.queues a
  obtain ⟨_, hreceived, _⟩ := h.queues b
  simp [pipe, received, onLink, queued, itemsOf, hsent, hreceived, h.links] at hi

/-- A later message for the same variable is not processed before the request. -/
theorem request_processed {ssvId : SsvId} {net₀ : Network} {es : List Event} {e : Event}
    {before between after : List Output} {alp y : Nat} {r m : Nat × AlpMessage}
    (hinitial : Initial setup net₀)
    (hmeets : (machine setup).Meets (fun net e => LeadsToNeighbours setup net e ∧
      NotCrossing setup net ssvId r) net₀ (es ++ [e]))
    (hrun : (machine setup).run net₀ es = some (net,
      before ++ .sent alp r.1 r.2 :: (between ++ .sent alp m.1 m.2 :: after)))
    (hr : r.2.ssvId? = some ssvId) (hm : m.2.ssvId? = some ssvId)
    (hstep : net.step setup e = .ok (net', .received y (.processed m.1 m.2))) :
    ∃ x, .received x (.processed r.1 r.2) ∈
      before ++ .sent alp r.1 r.2 :: (between ++ .sent alp m.1 m.2 :: after) := by
  obtain ⟨hmeets, hallowed, _⟩ := ((machine setup).meets_append _ hrun).mp hmeets
  obtain ⟨es₁, e₁, es₂, net₁, net₂, rfl, hbefore, hsend, hafter⟩ := (machine setup).run_split hrun
  obtain ⟨hfirst, _⟩ := serials_of_run hbefore
  obtain ⟨hlast, hlater⟩ := serials_of_run hafter
  rcases sent_of_step (machine_step.mp hsend) with
    ⟨_, hquiet⟩ | ⟨_, _, parent, heq, hsent, halp, hparent⟩
  · exact absurd rfl (hquiet _ _ _)
  · obtain ⟨rfl, hserial, rfl⟩ := Output.sent.inj heq
    have hrm : r.1 < m.1 := by
      have := (hlater alp m.1 m.2 (by simp)).1
      omega
    -- the variable is one that was placed, since a message for it is processed
    have hhomed : Homed setup net := hinitial.homed.run (fun _ _ ha => ha.1) hmeets hrun
    have hplaced : ssvId ∈ setup.initialisor.placements.map Prod.snd := by
      by_contra hnot
      cases flows_of_step hhomed hallowed.1 hstep with
      | rest _ _ _ idle => exact idle y m.1 m.2 rfl
      | processed _ _ hy hid hhere =>
          obtain rfl := Option.some.inj (hid.symm.trans hm)
          rw [(hhomed.absent _ hnot).route y hy] at hhere
          cases hhere
    by_contra hnone
    have hawaits : ∀ o ∈ before ++ .sent alp r.1 r.2 ::
        (between ++ .sent alp m.1 m.2 :: after), Awaits alp r m o := by
      intro o ho
      refine ⟨?_, ?_, ?_⟩
      · rintro a i rfl
        exact serial_unique hrun ho
      · rintro a i rfl
        have hrun' : (machine setup).run net₀ (es₁ ++ e₁ :: es₂) = some (net,
            (before ++ .sent alp r.1 r.2 :: between) ++ .sent alp m.1 m.2 :: after) := by
          simpa using hrun
        exact (serial_unique hrun' (by simpa using ho)).1
      · rintro x rfl
        exact hnone ⟨x, ho⟩
    have hpending : Pending setup net ssvId alp parent r m :=
      (machine setup).invariant_of_outputs _ (Awaits alp r m)
        (fun net => Pending setup net ssvId alp parent r m)
        (fun net e net' o h ha ho hs =>
          h.step hplaced halp hparent hr hm hrm ha.1 ha.2 ho (machine_step.mp hs))
        (hinitial.pending (by omega)) hmeets hrun hawaits
    refine hpending.not_processed hm (by omega) hallowed.1 hallowed.2 ?_ hstep
    rintro rfl
    exact Nat.lt_irrefl _ hrm

/-- When an anti-message is processed, the request it cancels has been processed, by the
CLP that hosted the variable then. -/
theorem anti_follows_request {ssvId : SsvId} {net₀ : Network} {es : List Event} {e : Event}
    {before between after : List Output} {alp n k y : Nat} {q : SharedStateMessage}
    {tag : RollbackTag} (hinitial : Initial setup net₀)
    (hmeets : (machine setup).Meets (fun net e => LeadsToNeighbours setup net e ∧
      NotCrossing setup net ssvId (n, .request q)) net₀ (es ++ [e]))
    (hrun : (machine setup).run net₀ es = some (net,
      before ++ .sent alp n (.request q) :: (between ++ .sent alp k (.anti (q.anti tag)) :: after)))
    (hid : (AlpMessage.request q).ssvId? = some ssvId)
    (hstep : (machine setup).step net e =
      some (net', .received y (.processed k (.anti (q.anti tag))))) :
    ∃ x es₁ net₁ os₁ os₂, es₁ <+: es ∧ (machine setup).run net₀ es₁ = some (net₁, os₁) ∧
      before ++ .sent alp n (.request q) ::
        (between ++ .sent alp k (.anti (q.anti tag)) :: after) =
          os₁ ++ .received x (.processed n (.request q)) :: os₂ ∧
      AtHost setup net₁ ssvId x := by
  obtain ⟨x, hmem⟩ := request_processed (r := (n, .request q)) (m := (k, .anti (q.anti tag)))
    hinitial hmeets hrun hid (ssvId?_anti tag hid) (machine_step.mp hstep)
  obtain ⟨os₁, os₂, hsplit⟩ := List.append_of_mem hmem
  have hrun' := hrun
  rw [hsplit] at hrun'
  obtain ⟨es₁, e₁, es₂, net₁, net₂, rfl, hrun₁, hstep₁, _⟩ := (machine setup).run_split hrun'
  refine ⟨x, es₁, net₁, os₁, os₂, List.prefix_append _ _, hrun₁, hsplit, ?_⟩
  obtain ⟨hmeets, _⟩ := ((machine setup).meets_append _ hrun).mp hmeets
  obtain ⟨hmeets₁, hallowed, _⟩ := ((machine setup).meets_append _ hrun₁).mp hmeets
  have hhomed : Homed setup net₁ := hinitial.homed.run (fun _ _ ha => ha.1) hmeets₁ hrun₁
  cases flows_of_step hhomed hallowed.1 (machine_step.mp hstep₁) with
  | rest _ _ _ idle => exact absurd rfl (idle x n _)
  | @processed _ _ _ _ id _ _ _ hx hid' hhere =>
      obtain rfl : id = ssvId := Option.some.inj (hid'.symm.trans hid)
      by_cases hplaced : id ∈ setup.initialisor.placements.map Prod.snd
      · obtain ⟨p, hp⟩ := hhomed.tracked _ hplaced
        obtain rfl := hp.rest_of_here hx hhere
        exact hp.atHost hhomed.wired
      · rw [(hhomed.absent _ hplaced).route x hx] at hhere
        cases hhere

instance (ssvId : SsvId) (i : Nat × AlpMessage) : Decidable (NotCrossing setup net ssvId i) :=
  inferInstanceAs (Decidable (∀ a, a < _ → ∀ b, b < _ → _ → _))

/-- A write of the variable of `pair`. -/
def write : SharedStateMessage := ⟨3, 5, ⟨1, 2⟩, .write 7 (.valueINT 9)⟩

def writeAnti : AlpMessage := .anti (write.anti ⟨7, 2, 0, 0⟩)

/-- The variable leaves after the write, and the anti-message finds it at its new host. -/
def movedAfterwards : List Event :=
  [.alpSend 2 (.request write), .deliver 2 1, .receive 1 fun _ => 0, .send 1, .deliver 1 0,
    .receive 0 fun _ => 0, .migrate 0 [(.LEFT, [7])] fun _ => 0, .send 0, .deliver 0 1,
    .receive 1 fun _ => 0, .alpSend 2 writeAnti, .deliver 2 1]

theorem anti_follows_request_moved : ∃ x es₁ net₁ os₁, es₁ <+: movedAfterwards ∧
    (machine pair).run (create pair) es₁ = some (net₁, os₁) ∧ AtHost pair net₁ 7 x := by
  obtain ⟨x, es₁, net₁, os₁, _, hprefix, hrun, _, hhost⟩ :=
    anti_follows_request initial_pair
      (show (machine pair).Meets (fun net e => LeadsToNeighbours pair net e ∧
        NotCrossing pair net 7 (0, .request write)) (create pair)
          (movedAfterwards ++ [.receive 1 fun _ => 0]) by decide)
      (show (machine pair).run (create pair) movedAfterwards = some (_, [] ++
        .sent 2 0 (.request write) :: ([.nothing, .received 1 .forwarded, .nothing, .nothing,
          .received 0 (.processed 0 (.request write)), .nothing, .nothing, .nothing,
          .received 1 .migrated] ++ .sent 2 1 writeAnti :: [.nothing])) from rfl) rfl rfl
  exact ⟨x, es₁, net₁, os₁, hprefix, hrun, hhost⟩

/-- An anti-message that is processed comes after the request it cancels. -/
def CancelsInOrder (os : List Output) : Prop :=
  ∀ before after alp n k y q tag,
    os = before ++ .received y (.processed k (.anti (q.anti tag))) :: after →
    .sent alp n (.request q) ∈ before → .sent alp k (.anti (q.anti tag)) ∈ before →
    ∃ x, .received x (.processed n (.request q)) ∈ before

/-- The request crosses the migration and is sent back, and the anti-message is processed
without it. -/
def movedMeanwhile : List Event :=
  [.alpSend 2 (.request write), .deliver 2 1, .receive 1 fun _ => 0, .send 1,
    .migrate 0 [(.LEFT, [7])] fun _ => 0, .send 0, .deliver 0 1, .receive 1 fun _ => 0,
    .alpSend 2 writeAnti, .deliver 2 1, .receive 1 fun _ => 0]

theorem anti_overtakes_request : Initial pair (create pair) ∧
    (machine pair).Meets (LeadsToNeighbours pair) (create pair) movedMeanwhile ∧
    ∃ net os, (machine pair).run (create pair) movedMeanwhile = some (net, os) ∧
      ¬ CancelsInOrder os := by
  let before : List Output :=
    [.sent 2 0 (.request write), .nothing, .received 1 .forwarded, .nothing, .nothing, .nothing,
      .nothing, .received 1 .migrated, .sent 2 1 writeAnti, .nothing]
  refine ⟨initial_pair, by decide, _, before ++ [.received 1 (.processed 1 writeAnti)], rfl, ?_⟩
  intro h
  obtain ⟨x, hx⟩ := h before [] 2 0 1 1 write ⟨7, 2, 0, 0⟩ rfl (by decide) (by decide)
  simp [before] at hx

end PdesMas.Network
