import PdesMas.Library.RoutedOrder
import PdesMas.Lp.SingleHome

/-!
The messages of the agents on their way through the network. Between two
processes they form a pipe: what the second has received from the first, what
is on the link and what the first has queued for it. A step leaves the pipes
alone, or moves one message and no variable.
-/

namespace PdesMas

def Content.item? : Content → Option (Nat × AlpMessage)
  | .agent serial _ m => some (serial, m)
  | .response _ | .rollback _ => none

theorem Content.item?_of_isReply {content : Content} (h : content.isReply = true) :
    content.item? = none := by
  cases content with
  | agent => cases h
  | response | rollback => rfl

def Transfer.item? : Transfer → Option (Nat × AlpMessage)
  | .simulation m => m.content.item?
  | .migration _ => none

namespace Network

variable {setup : Setup} {net net' : Network}

def itemsOf (l : List SimulationMessage) : List (Nat × AlpMessage) :=
  l.filterMap fun m => m.content.item?

def received (net : Network) (a b : Nat) : List (Nat × AlpMessage) :=
  itemsOf ((net.clp b).receiveMessageQueue.filter fun m => m.lastHop = a)

def onLink (net : Network) (a b : Nat) : List (Nat × AlpMessage) :=
  (net.link a b).filterMap Transfer.item?

/-- The messages of an ALP are on the link at once. -/
def queued (setup : Setup) (net : Network) (a b : Nat) : List (Nat × AlpMessage) :=
  if a < setup.numberOfClps then
    itemsOf ((net.clp a).sendMessageQueue.filter fun m => m.destination = b)
  else []

/-- The messages of agents on their way from `a` to `b`, each with its serial number. -/
def pipe (setup : Setup) (net : Network) : Pipes Nat (Nat × AlpMessage) := fun a b =>
  net.received a b ++ net.onLink a b ++ net.queued setup a b

@[simp] theorem itemsOf_append (l l' : List SimulationMessage) :
    itemsOf (l ++ l') = itemsOf l ++ itemsOf l' := List.filterMap_append

theorem itemsOf_replies {l : List SimulationMessage}
    (h : ∀ m ∈ l, m.content.isReply = true) (b : Nat) :
    itemsOf (l.filter fun m => m.destination = b) = [] := by
  refine List.filterMap_eq_nil_iff.mpr fun m hm => ?_
  exact Content.item?_of_isReply (h m (List.mem_filter.mp hm).1)

theorem setClp_clp (net : Network) (x y : Nat) (c : Clp) :
    (net.setClp x c).clp y = if y = x then c else net.clp y := by
  simp [setClp, Function.update_apply]

/-- Taking a received message and queueing others. -/
theorem pipe_receive {x : Nat} (hx : x < setup.numberOfClps) {c' : Clp} {m : SimulationMessage}
    {rest l : List SimulationMessage} (hqueue : (net.clp x).receiveMessageQueue = m :: rest)
    (hreceived : c'.receiveMessageQueue = rest)
    (hsent : c'.sendMessageQueue = (net.clp x).sendMessageQueue ++ l) :
    ∃ tail : Pipes Nat (Nat × AlpMessage),
      (∀ a b, net.pipe setup a b =
        (if a = m.lastHop ∧ b = x then m.content.item?.toList else []) ++ tail a b) ∧
      ∀ a b, (net.setClp x c').pipe setup a b =
        tail a b ++ if a = x then itemsOf (l.filter fun m => m.destination = b) else [] := by
  have htaken : ∀ a b, net.received a b =
      (if a = m.lastHop ∧ b = x then m.content.item?.toList else []) ++
        (net.setClp x c').received a b := by
    intro a b
    simp only [received, setClp_clp]
    by_cases hb : b = x
    · subst hb
      by_cases ha : a = m.lastHop
      · subst ha
        cases hitem : m.content.item? <;> simp [hqueue, hreceived, itemsOf, hitem]
      · simp [hqueue, hreceived, ha, Ne.symm ha]
    · simp [hb]
  have hqueued : ∀ a b, (net.setClp x c').queued setup a b = net.queued setup a b ++
      if a = x then itemsOf (l.filter fun m => m.destination = b) else [] := by
    intro a b
    simp only [queued, setClp_clp]
    by_cases ha : a = x
    · simp [ha, hx, hsent]
    · simp [ha]
  refine ⟨fun a b => (net.setClp x c').received a b ++ net.onLink a b ++ net.queued setup a b,
    fun a b => ?_, fun a b => ?_⟩
  · rw [pipe, htaken, List.append_assoc, List.append_assoc, ← List.append_assoc]
    simp only [List.append_assoc]
  · rw [pipe, hqueued, ← List.append_assoc]
    rfl

/-- A CLP that only queues answers keeps the pipes. -/
theorem pipe_answers {x : Nat} {c' : Clp}
    (hreceived : c'.receiveMessageQueue = (net.clp x).receiveMessageQueue)
    (hsent : ∃ l, c'.sendMessageQueue = (net.clp x).sendMessageQueue ++ l ∧
      ∀ m ∈ l, m.content.isReply = true) : (net.setClp x c').pipe setup = net.pipe setup := by
  obtain ⟨l, hl, hreply⟩ := hsent
  funext a b
  have hkept : (net.setClp x c').received a b = net.received a b := by
    by_cases hb : b = x
    · simp [received, hb, hreceived]
    · simp [received, setClp_clp, hb]
  have hqueued : (net.setClp x c').queued setup a b = net.queued setup a b := by
    by_cases ha : a = x
    · simp [queued, ha, hl, itemsOf_replies hreply]
    · simp [queued, setClp_clp, ha]
  rw [pipe, pipe, hkept, hqueued]
  rfl

/-- The step moves no variable. -/
structure Still (net net' : Network) : Prop where
  clps : ∀ x, SameHome (net.clp x) (net'.clp x)
  migrations : ∀ a b, net'.migrations a b = net.migrations a b

/-- What a step does to the messages of the agents. -/
inductive Flows (setup : Setup) (net net' : Network) : Output → Prop
  | rest {o} (pipes : net'.pipe setup = net.pipe setup) (sent : net'.sent = net.sent)
      (quiet : ∀ alp serial m, o ≠ .sent alp serial m)
      (idle : ∀ x serial m, o ≠ .received x (.processed serial m)) : Flows setup net net' o
  | lost (still : Still net net') (sent : net'.sent = net.sent)
      (inside : ∀ a b, b < setup.numberOfClps → net'.pipe setup a b = net.pipe setup a b)
      (fewer : ∀ a b, ∀ i ∈ net'.pipe setup a b, i ∈ net.pipe setup a b) :
      Flows setup net net' .nothing
  | entered {alp clp m} (still : Still net net') (sent : net'.sent = net.sent + 1)
      (halp : setup.numberOfClps ≤ alp) (hclp : setup.initialisor.alpToClpMap[alp]? = some clp)
      (pipes : net'.pipe setup = (net.pipe setup).push alp clp (net.sent, m)) :
      Flows setup net net' (.sent alp net.sent m)
  | processed {a x serial m ssvId rest} (still : Still net net') (sent : net'.sent = net.sent)
      (hx : x < setup.numberOfClps) (hid : m.ssvId? = some ssvId)
      (hhere : net.route ssvId x = some .HERE) (head : net.pipe setup a x = (serial, m) :: rest)
      (pipes : net'.pipe setup = (net.pipe setup).put a x rest) :
      Flows setup net net' (.received x (.processed serial m))
  | forwarded {a x g serial m ssvId direction rest} (still : Still net net')
      (sent : net'.sent = net.sent) (hx : x < setup.numberOfClps) (hid : m.ssvId? = some ssvId)
      (hroute : net.route ssvId x = some direction) (haway : direction ≠ .HERE)
      (hport : (net.clp x).routeTable.getRankFromDirection direction = some g)
      (head : net.pipe setup a x = (serial, m) :: rest)
      (pipes : net'.pipe setup = ((net.pipe setup).put a x rest).push x g (serial, m)) :
      Flows setup net net' (.received x .forwarded)

theorem onLink_setLink (net : Network) (i j : Nat) (l : List Transfer) (a b : Nat) :
    (net.setLink i j l).onLink a b =
      if a = i ∧ b = j then l.filterMap Transfer.item? else net.onLink a b := by
  rw [onLink, setLink_link]
  split <;> rfl

theorem onLink_push (net : Network) (i j : Nat) (t : Transfer) (a b : Nat) :
    (net.push i j t).onLink a b =
      net.onLink a b ++ if a = i ∧ b = j then t.item?.toList else [] := by
  rw [push, onLink_setLink]
  split
  · rename_i h
    cases hitem : t.item? <;> simp [onLink, h.1, h.2, hitem]
  · simp

theorem flows_alpSend (setup : Setup) (net : Network) (alp : Nat) (m : AlpMessage) :
    Flows setup net (net.alpSend setup alp m).1 (net.alpSend setup alp m).2 := by
  have hrest : Flows setup net net .nothing := .rest rfl rfl nofun nofun
  simp only [alpSend]
  split
  · rename_i clp hclp
    split
    · rename_i h
      let t : Transfer := .simulation ⟨alp, clp, .agent net.sent 0 m⟩
      have hpipe : (net.push alp clp t).pipe setup =
          (net.pipe setup).push alp clp (net.sent, m) := by
        funext a b
        have hqueued : (net.push alp clp t).queued setup a b = net.queued setup a b := rfl
        rw [pipe, onLink_push, hqueued]
        by_cases hab : a = alp ∧ b = clp
        · obtain ⟨rfl, rfl⟩ := hab
          have hnone : net.queued setup a b = [] := if_neg (Nat.not_lt.mpr h.1)
          rw [if_pos ⟨rfl, rfl⟩, Pipes.push_self, pipe, hnone, List.append_nil, List.append_nil,
            ← List.append_assoc]
          rfl
        · rw [if_neg hab, List.append_nil, Pipes.push_of_ne _ _ hab]
          rfl
      exact .entered ⟨fun _ => .refl _,
        migrations_push_simulation net alp clp ⟨alp, clp, .agent net.sent 0 m⟩⟩ rfl h.1 hclp hpipe
    · exact hrest
  · exact hrest

theorem flows_deliver (hwired : Wired setup net) (a b : Nat) :
    Flows setup net (net.deliver setup a b) .nothing := by
  simp only [deliver]
  split
  · exact .rest rfl rfl (by simp) (by simp)
  · rename_i t rest hlink
    have htaken : ∀ i j, net.onLink i j =
        (if i = a ∧ j = b then t.item?.toList else []) ++ (net.setLink a b rest).onLink i j := by
      intro i j
      rw [onLink_setLink]
      split
      · rename_i h
        cases hitem : t.item? <;> simp [onLink, h.1, h.2, hlink, hitem]
      · rfl
    split
    · refine .rest ?_ rfl (by simp) (by simp)
      let c := receiveToLp ((net.setLink a b rest).clp b) a t
      have hreceived : ∀ i j, ((net.setLink a b rest).setClp b c).received i j =
          net.received i j ++ if i = a ∧ j = b then t.item?.toList else [] := by
        intro i j
        simp only [received, setClp_clp]
        by_cases hj : j = b
        · cases t with
          | simulation m =>
              by_cases hi : i = a
              · cases hitem : m.content.item? <;>
                  simp [c, hj, hi, receiveToLp, Transfer.item?, itemsOf, hitem]
              · simp [c, hj, hi, Ne.symm hi, receiveToLp, itemsOf]
          | migration m => simp [c, hj, receiveToLp, Transfer.item?]
        · simp [hj]
      have hqueued : ∀ i j, ((net.setLink a b rest).setClp b c).queued setup i j =
          net.queued setup i j := by
        intro i j
        have hsent : (((net.setLink a b rest).setClp b c).clp i).sendMessageQueue =
            (net.clp i).sendMessageQueue := by
          rw [setClp_clp]
          split
          · rename_i hi
            subst hi
            cases t <;> rfl
          · rfl
        rw [queued, queued, hsent]
      funext i j
      rw [pipe, pipe, hreceived, htaken, hqueued]
      simp only [List.append_assoc]
      rfl
    · rename_i hb
      have hmigrations : ∀ i j, (net.setLink a b rest).migrations i j = net.migrations i j := by
        refine migrations_setLink ?_
        cases t with
        | simulation m => simp [hlink]
        | migration m =>
            have hmem : m ∈ net.migrations a b := by simp [migrations, hlink]
            exact absurd (hwired.addressed a b m hmem).2.2.2 hb
      refine .lost ⟨fun _ => .refl _, hmigrations⟩ rfl (fun i j hj => ?_) fun i j item hitem => ?_
      · have hne : ¬ (i = a ∧ j = b) := fun h => hb (h.2 ▸ hj)
        rw [pipe, pipe, htaken, if_neg hne]
        rfl
      · rw [pipe, htaken]
        simp only [pipe, List.mem_append] at hitem ⊢
        tauto

theorem flows_receive (h : Homed setup net) {x : Nat} (hx : x < setup.numberOfClps)
    {clock : SsvId → Nat} {c' : Clp} {r : Clp.Received}
    (hreceive : (net.clp x).receive setup.rollbacks clock = .ok (c', r)) :
    Flows setup net (net.setClp x c') (.received x r) := by
  simp only [Clp.receive] at hreceive
  split at hreceive
  · rename_i m rest hqueue
    obtain ⟨hdestination, c, hc, hanswers, _⟩ := moves_enter h hx clock hqueue
    rw [if_pos hdestination, hc] at hreceive
    cases hreceive
    exact .rest (pipe_answers hanswers.received hanswers.replies) rfl (by simp) (by simp)
  · split at hreceive
    · rename_i m rest hqueue
      have hhandles := Clp.handles_of_receiveSimulation hreceive
      have hstill : Still net (net.setClp x c') := by
        obtain ⟨hreceived, hsent⟩ := hhandles.migrations
        obtain ⟨hrank, hports, hroutes, hheld⟩ := sameHome_of_handles hhandles
        exact ⟨sameHome_setClp ⟨hrank, hports, hroutes, hheld⟩,
          migrations_setClp net x c' hreceived hsent⟩
      generalize hcontent : m.content = content at hhandles
      cases hhandles with
      | @processed serial numberOfHops m₀ ssvId _ hid hhere hquiet =>
          obtain ⟨l, hl, hreply⟩ := hquiet.replies
          obtain ⟨tail, hbefore, hafter⟩ := pipe_receive hx hqueue hquiet.received hl
          refine @Flows.processed setup net _ m.lastHop x serial m₀ ssvId (tail m.lastHop x)
            hstill rfl hx hid hhere ?_ ?_
          · rw [hbefore, if_pos ⟨rfl, rfl⟩, hcontent]
            rfl
          · funext a b
            rw [hafter, itemsOf_replies hreply, ite_self, List.append_nil]
            by_cases hab : a = m.lastHop ∧ b = x
            · rw [hab.1, hab.2, Pipes.put_self]
            · rw [Pipes.put_of_ne _ _ hab, hbefore, if_neg hab, List.nil_append]
      | @forwarded serial numberOfHops m₀ ssvId direction g hid hroute haway hport =>
          let c : Clp := { net.clp x with receiveMessageQueue := rest }
          let m₁ : SimulationMessage := ⟨c.rank, g, .agent serial (numberOfHops + 1) m₀⟩
          have hl : (c.sendToLp m₁).sendMessageQueue = (net.clp x).sendMessageQueue ++ [m₁] := rfl
          obtain ⟨tail, hbefore, hafter⟩ := pipe_receive hx hqueue rfl hl
          refine @Flows.forwarded setup net _ m.lastHop x g serial m₀ ssvId direction
            (tail m.lastHop x) hstill rfl hx hid hroute haway hport ?_ ?_
          · rw [hbefore, if_pos ⟨rfl, rfl⟩, hcontent]
            rfl
          · have htail : ∀ a b, (net.pipe setup).put m.lastHop x (tail m.lastHop x) a b =
                tail a b := by
              intro a b
              by_cases hab : a = m.lastHop ∧ b = x
              · rw [hab.1, hab.2, Pipes.put_self]
              · rw [Pipes.put_of_ne _ _ hab, hbefore, if_neg hab, List.nil_append]
            funext a b
            refine (hafter a b).trans ?_
            by_cases hab : a = x ∧ b = g
            · rw [if_pos hab.1, hab.1, hab.2, Pipes.push_self, htail]
              simp [m₁, itemsOf, Content.item?]
            · rw [Pipes.push_of_ne _ _ hab, htail]
              by_cases ha : a = x
              · have hb : g ≠ b := fun hb => hab ⟨ha, hb.symm⟩
                simp [ha, m₁, hb, itemsOf]
              · simp [ha]
      | reply hreply hquiet hr =>
          obtain ⟨l, hl, hreplies⟩ := hquiet.replies
          obtain ⟨tail, hbefore, hafter⟩ := pipe_receive hx hqueue hquiet.received hl
          refine .rest ?_ rfl (by simp) ?_
          · funext a b
            rw [hafter, hbefore, hcontent, Content.item?_of_isReply hreply,
              itemsOf_replies hreplies, ite_self, Option.toList_none, ite_self, List.append_nil,
              List.nil_append]
          · rintro x' serial m₀ hprocessed
            rcases hr with rfl | rfl <;> cases hprocessed
    · cases hreceive
      exact .rest (pipe_answers rfl ⟨[], by simp, by simp⟩) rfl (by simp) (by simp)

theorem flows_send {x : Nat} (hx : x < setup.numberOfClps) {c' : Clp} {r : Clp.Sent}
    (h : Clp.Sending (net.clp x) c' r) :
    Flows setup net ((net.setClp x c').put x r) .nothing := by
  have hkept : c'.receiveMessageQueue = (net.clp x).receiveMessageQueue := by
    cases h <;> rfl
  have hreceived : ∀ i j, ((net.setClp x c').put x r).received i j = net.received i j := by
    intro i j
    have hclp : ((net.setClp x c').put x r).clp = (net.setClp x c').clp := by
      cases r <;> rfl
    rw [received, hclp, setClp_clp]
    split
    · rename_i hj
      rw [received, hj, hkept]
    · rfl
  refine .rest ?_ (by cases r <;> rfl) nofun nofun
  funext i j
  rw [pipe, pipe, hreceived, List.append_assoc, List.append_assoc]
  congr 1
  cases h with
  | nothing =>
      by_cases hi : i = x
      · simp [put, onLink, queued, hi]
      · simp [put, onLink, queued, setClp_clp, hi]
  | @simulation m m' rest hqueue hcontent hagent =>
      have hqueued : ∀ l, ((net.setClp x { net.clp x with sendMessageQueue := l }).put x
          (.simulation m')).queued setup i j =
          if i = x then itemsOf (l.filter fun m => m.destination = j)
          else net.queued setup i j := by
        intro l
        by_cases hi : i = x
        · simp [put, push, queued, hi, hx]
        · simp [put, push, queued, setClp_clp, hi]
      have hbefore : net.queued setup i j =
          if i = x then itemsOf ((m :: rest).filter fun m => m.destination = j)
          else net.queued setup i j := by
        by_cases hi : i = x
        · simp [queued, hi, hx, hqueue]
        · simp [hi]
      rw [hqueued rest, hbefore, put, onLink_push]
      cases hitem : m.content.item? with
      | none =>
          by_cases hi : i = x
          · by_cases hj : m.destination = j <;>
              simp [Transfer.item?, hcontent, hitem, itemsOf, hi, hj, onLink]
          · simp [hi, onLink]
      | some item =>
          have hm : m' = m := hagent (by
            by_contra hreply
            rw [Content.item?_of_isReply (by simpa using hreply)] at hitem
            cases hitem)
          subst hm
          by_cases hi : i = x
          · by_cases hj : j = m'.destination
            · simp [Transfer.item?, hitem, itemsOf, hi, hj, onLink]
            · simp [itemsOf, hi, hj, Ne.symm hj, onLink]
          · simp [hi, onLink]
  | @migration m rest hqueue =>
      rw [put, onLink_push]
      by_cases hi : i = x
      · simp [Transfer.item?, queued, push, onLink, hi]
      · simp [Transfer.item?, queued, push, onLink, setClp_clp, hi]

theorem flows_of_step (h : Homed setup net) {e : Event}
    (hleads : LeadsToNeighbours setup net e) {o : Output}
    (hstep : net.step setup e = .ok (net', o)) : Flows setup net net' o := by
  cases works_of_step hstep with
  | alpSend alp m => exact flows_alpSend setup net alp m
  | deliver source target => exact flows_deliver h.wired source target
  | receive hx hreceive => exact flows_receive h hx hreceive
  | send hx hsend => exact flows_send hx (Clp.sending_of_send hsend)
  | @setGvt x gvt hx =>
      have hquiet := Clp.quiet_setGvt (net.clp x) gvt
      exact .rest (pipe_answers hquiet.received hquiet.replies) rfl nofun nofun
  | @migrate x migrationMap clock c hx hmigrate =>
      obtain ⟨c', ms, hc', hsends, _⟩ := moves_migrate hx clock hleads
      cases hc'.symm.trans hmigrate
      exact .rest (pipe_answers hsends.received hsends.replies) rfl nofun nofun
  | idle => exact .rest rfl rfl nofun nofun

end Network
end PdesMas
