import PdesMas.Lp.RangeAnti

/-!
Range queries are undone everywhere. In every run whose anti-messages find the
entries of the query where they look for them and their status where they read it,
no entry of the query is left when no anti-message is on its way to a CLP any more.
The entries of the other queries are never taken.
-/

namespace PdesMas

namespace RangeNetwork

open RangeClp

def RangeMessage.isAntiOf (identifier : Nat) : RangeMessage → Bool
  | .anti m => m.identifier == identifier
  | .query _ | .update _ => false

/-- No anti-message of the query is on its way from one process to a CLP. -/
def NoAnti (numberOfClps : Nat) (alpToClpMap : Std.TreeMap Nat Nat) (identifier : Nat)
    (net : RangeNetwork) : Prop :=
  ∀ a, a < numberOfClps + alpToClpMap.size → ∀ b, b < numberOfClps →
    ∀ m ∈ net.pipe a b, RangeMessage.isAntiOf identifier m = false

instance (numberOfClps : Nat) (alpToClpMap : Std.TreeMap Nat Nat) (identifier : Nat)
    (net : RangeNetwork) : Decidable (NoAnti numberOfClps alpToClpMap identifier net) :=
  inferInstanceAs (Decidable (∀ a, a < _ → ∀ b, b < _ → ∀ m ∈ net.pipe a b, _))

/-- What the undoing of the query asks of an event. -/
def Undoable (numberOfClps time identifier : Nat) (net : RangeNetwork) : Event → Prop
  | .deliver source target k =>
      match (net.pipe source target)[k]? with
      | some (.anti m) =>
          m.identifier = identifier → target < numberOfClps →
            (net.clp target).Traces time identifier
      | some (.query _) | some (.update _) | none => True
  | .setGvt clp _ => (net.clp clp).Held time identifier
  | .query .. | .anti .. | .write .. | .writeAnti .. => True

instance (numberOfClps time identifier : Nat) (net : RangeNetwork) :
    ∀ e, Decidable (Undoable numberOfClps time identifier net e)
  | .deliver source target k =>
      match h : (net.pipe source target)[k]? with
      | some (.anti m) =>
          decidable_of_iff (m.identifier = identifier → target < numberOfClps →
            (net.clp target).Traces time identifier) (by simp [Undoable, h])
      | some (.query _) | some (.update _) | none => isTrue (by simp [Undoable, h])
  | .setGvt clp _ => inferInstanceAs (Decidable ((net.clp clp).Held time identifier))
  | .query .. | .anti .. | .write .. | .writeAnti .. => isTrue trivial

variable {numberOfClps : Nat} {alpToClpMap : Std.TreeMap Nat Nat} {net net' : RangeNetwork}
  {e : Event} {o : Output} {identifier time : Nat}

theorem not_arrival_of_not_about (h : Effect numberOfClps alpToClpMap net e net' o)
    (hnot : ¬ IsAbout identifier net e) : isArrival identifier o = false := by
  cases h with
  | @serve source target k front back m r htarget hpipe hk =>
      have hm := not_about hnot hpipe hk
      simp only [isArrival, beq_eq_false_iff_ne, ne_eq]
      exact fun heq => hm (congrArg some heq)
  | @respond source target k front back m htarget hpipe hk =>
      have hm := not_about hnot hpipe hk
      simp only [isArrival, beq_eq_false_iff_ne, ne_eq]
      exact fun heq => hm (congrArg some heq)
  | query | anti | undo | update | ignore | write | setGvt => rfl

def GvtUpTo (numberOfClps : Nat) (net : RangeNetwork) (time : Nat) : Prop :=
  ∀ c, c < numberOfClps → (net.clp c).gvt ≤ time

theorem gvtUpTo_step (hw : Wired numberOfClps alpToClpMap net)
    (h : Effect numberOfClps alpToClpMap net e net' o)
    (htime : ∀ clp gvt, e = .setGvt clp gvt → gvt ≤ time)
    (hgvt : GvtUpTo numberOfClps net time) : GvtUpTo numberOfClps net' time := by
  intro c hc
  by_cases hnot : ∀ clp gvt, e ≠ .setGvt clp gvt
  · rw [(steady_step hw h hnot c).kept.gvt]
    exact hgvt c hc
  · cases h with
    | setGvt =>
        rw [clp_setGvt]
        split
        · exact htime _ _ rfl
        · exact hgvt c hc
    | write _ _ _ _ _ hnone => exact absurd hnone hnot
    | query | anti | serve | undo | update | respond | ignore => exact absurd nofun hnot

namespace Inquiry

variable {I : Inquiry numberOfClps alpToClpMap} {prog prog' : Plan.Progress Nat}
  {visited : Nat → Prop} {past : List Output}

theorem dropsNone_of_entries (hcovers : Covers numberOfClps net time)
    (htime : ∀ clp gvt, e = .setGvt clp gvt → gvt ≤ time)
    (hundoable : Undoable numberOfClps time identifier net e)
    (h : Effect numberOfClps alpToClpMap net e net' o)
    (hentries : ∀ c port entry, c < numberOfClps → entry ∈ (net.clp c).recordedAt port →
      entry.identifier = identifier → entry.time = time ∧ port ∈ Direction.ports) :
    DropsNone time identifier net e := by
  cases h with
  | @setGvt clp gvt hclp =>
      refine ⟨htime clp gvt rfl, fun port => ⟨hcovers clp port hclp, fun entry hin hid => ?_⟩⟩
      obtain ⟨heq, hport⟩ := hentries clp port entry hclp hin hid
      exact ⟨heq, hundoable port hport⟩
  | @write e _ _ _ _ _ _ _ hlater =>
      cases e with
      | setGvt => exact absurd rfl (hlater _ _)
      | query | anti | deliver | write | writeAnti => trivial
  | query | anti | serve | undo | update | respond | ignore => trivial

/-- A step of the network while the anti-message is on its way. -/
theorem Standing.next (h : I.Standing prog net visited) (hinstep : I.InStep prog net)
    (hw : Wired numberOfClps alpToClpMap net) (hcovers : Covers numberOfClps net I.timestamp)
    (hgvt : GvtUpTo numberOfClps net I.timestamp)
    (heffect : Effect numberOfClps alpToClpMap net e net' o)
    (hadvance : I.Advance net prog prog' o)
    (hquery : ∀ t a r, e ≠ .query I.identifier t a r)
    (hanti : ∀ t a r g, e ≠ .anti I.identifier t a r g)
    (hfifo : ∀ source target k, e = .deliver source target k → k = 0)
    (htime : ∀ clp gvt, e = .setGvt clp gvt → gvt ≤ I.timestamp)
    (hundoable : Undoable numberOfClps I.timestamp I.identifier net e) :
    ∃ visited', I.Standing prog' net' visited' ∧ (∀ x, visited x → visited' x) ∧
      ((∀ x, ¬ visited x) → ∀ x, ¬ visited' x) := by
  have hfixed := fixed_step hw heffect
  by_cases hnot : IsAbout I.identifier net e
  · cases heffect with
    | query => exact absurd (congrArg (Event.query · _ _ _) hnot) (hquery _ _ _)
    | anti => exact absurd (congrArg (Event.anti · _ _ _ _) hnot) (hanti _ _ _ _)
    | @serve source target k front back m r htarget hpipe hk hr =>
        have hm : m.identifier = I.identifier := by
          obtain ⟨m', hm', hid⟩ := hnot
          rw [hpipe, ← hk] at hm'
          simp only [List.getElem?_append_right (Nat.le_refl _), Nat.sub_self,
            List.getElem?_cons_zero, Option.some.injEq] at hm'
          rw [← hm'] at hid
          exact Option.some.inj hid
        refine ⟨visited, ?_, fun _ => id, fun hnone => hnone⟩
        have hlink := hinstep.onLink hpipe hm
        cases hadvance with
        | question hphase hopens =>
            have htarget' := hopens.clp
            subst htarget'
            exact h.question hinstep hw hpipe hlink.about hphase hr hopens.first rfl hfixed
        | answer hd hstep hwaits hanswer hnotes =>
            have htarget' := hnotes.clp
            have horigin := hnotes.origin
            subst htarget'
            have habout := hlink.about
            cases hlink with
            | question hphase => simp [hwaits] at hphase
            | answer hphase hasker _ hsource hmap =>
                have hsame : m.origin = source := hsource
                have horigin' : m.origin = _ := horigin
                rw [hsame] at horigin'
                subst horigin'
                rw [hanswer] at hphase
                cases hphase
                exact h.answer hinstep hw hpipe habout hsource hmap hd hwaits hanswer hr hfixed
        | other ho =>
            simp only [isArrival, beq_eq_false_iff_ne, ne_eq] at ho
            exact absurd hm ho
    | @undo source target k front back m r htarget hpipe hk hr =>
        have hfront : front = [] := by
          rw [hfifo source target k rfl] at hk
          exact List.eq_nil_of_length_eq_zero hk
        subst hfront
        rw [List.nil_append] at hpipe
        have hid : m.identifier = I.identifier := by
          obtain ⟨m', hm', hid⟩ := hnot
          rw [hpipe, ← hk] at hm'
          cases hm'
          exact Option.some.inj hid
        have htraces : (net.clp target).Traces I.timestamp I.identifier := by
          simp only [Undoable, hpipe, ← hk, List.length_nil, List.getElem?_cons_zero] at hundoable
          exact hundoable hid htarget
        have hsame : prog' = prog := by
          cases hadvance with
          | other => rfl
        subst hsame
        refine ⟨_, h.undo hinstep hw hcovers htarget (hgvt target htarget) hpipe hid htraces hr
          hfixed, fun _ => .inl, fun hnone x hx => ?_⟩
        exact hnone source (h.not_asked hinstep htarget hpipe hid).2.1
    | @update source target k front back m r htarget hpipe hk hr =>
        obtain ⟨m', hm', hid⟩ := hnot
        rw [hpipe, ← hk] at hm'
        simp only [List.getElem?_append_right (Nat.le_refl _), Nat.sub_self,
          List.getElem?_cons_zero, Option.some.injEq] at hm'
        rw [← hm'] at hid
        cases hid
    | respond htarget hpipe hk =>
        refine ⟨visited, ?_, fun _ => id, fun hnone => hnone⟩
        cases hadvance with
        | @result m answer hphase =>
            refine h.toAlp htarget hpipe (fun c => ?_) fun c => ?_
            · by_cases hc : c = I.root
              · simp [hc]
              · simp [Function.update_of_ne hc]
            · by_cases hc : c = I.root
              · simp [hc, hphase]
              · simp [Function.update_of_ne hc]
        | other => exact h.toAlp htarget hpipe (fun _ => id) fun _ => Iff.rfl
    | ignore htarget hpipe hk =>
        refine ⟨visited, ?_, fun _ => id, fun hnone => hnone⟩
        cases hadvance with
        | other => exact h.toAlp htarget hpipe (fun _ => id) fun _ => Iff.rfl
    | @write e _ _ _ _ hlocal =>
        cases e with
        | query => exact absurd (congrArg (Event.query · _ _ _) hnot) (hquery _ _ _)
        | anti => exact absurd (congrArg (Event.anti · _ _ _ _) hnot) (hanti _ _ _ _)
        | deliver => exact absurd rfl (hlocal _ _ _)
        | write | writeAnti | setGvt => cases hnot
    | setGvt => cases hnot
  · have hsame : prog' = prog := by
      have ho := not_arrival_of_not_about heffect hnot
      cases hadvance with
      | question _ hopens => simp [isArrival, hopens.identifier] at ho
      | answer _ _ _ _ hnotes => simp [isArrival, hnotes.identifier] at ho
      | result _ hidentifier => simp [isArrival, hidentifier] at ho
      | other => rfl
    subst hsame
    have hdrops := dropsNone_of_entries hcovers htime hundoable heffect
      fun c port entry hc hin hid => by
        obtain ⟨heq, _, hport, _⟩ := h.entries c port entry hc hin hid
        exact ⟨heq, hport⟩
    exact ⟨visited, h.alike (alike_of_effect heffect hnot hdrops) hfixed, fun _ => id,
      fun hnone => hnone⟩

/-- All that holds while query and anti-message are about. -/
structure Chase (I : Inquiry numberOfClps alpToClpMap) (past : List Output) (net : RangeNetwork)
    (prog : Plan.Progress Nat) (visited : Nat → Prop) : Prop where
  wired : Wired numberOfClps alpToClpMap net
  covers : Covers numberOfClps net I.timestamp
  gvt : GvtUpTo numberOfClps net I.timestamp
  inStep : I.InStep prog net
  log : I.Log net past prog
  standing : I.Standing prog net visited

theorem Chase.run {es : List Event} {os : List Output} (h : I.Chase past net prog visited)
    (hrun : (machine numberOfClps alpToClpMap).run net es = some (net', os))
    (hquery : ∀ t a r, .query I.identifier t a r ∉ es)
    (hanti : ∀ t a r g, .anti I.identifier t a r g ∉ es)
    (hfifo : ∀ source target k, .deliver source target k ∈ es → k = 0)
    (htime : ∀ clp gvt, .setGvt clp gvt ∈ es → gvt ≤ I.timestamp)
    (hundoable : (machine numberOfClps alpToClpMap).Meets
      (Undoable numberOfClps I.timestamp I.identifier) net es)
    (hfirst : ∀ c s, (services I.identifier (past ++ os) c).head? = some s → I.first c = some s) :
    ∃ prog' visited', I.Chase (past ++ os) net' prog' visited' ∧
      (∀ x, visited x → visited' x) ∧ ((∀ x, ¬ visited x) → ∀ x, ¬ visited' x) := by
  induction es generalizing net past prog visited os with
  | nil =>
      cases hrun
      rw [List.append_nil]
      exact ⟨prog, visited, h, fun _ => id, id⟩
  | cons e es ih =>
      obtain ⟨net₁, o, os', hstep, hrest, rfl⟩ := (Machine.run_cons_iff _).mp hrun
      have heffect := effect_of_step _ _ hstep
      have hquery' : ∀ t a r, e ≠ .query I.identifier t a r :=
        fun t a r heq => hquery t a r (heq ▸ List.mem_cons_self)
      have htime' : ∀ clp gvt, e = .setGvt clp gvt → gvt ≤ I.timestamp :=
        fun clp gvt heq => htime clp gvt (heq ▸ List.mem_cons_self)
      obtain ⟨hnow, hlater⟩ := (Machine.meets_cons _ _ hstep).mp hundoable
      rw [List.append_cons] at hfirst
      obtain ⟨prog₁, hadvance, hinstep₁, hlog₁⟩ := h.log.next h.inStep h.wired h.covers heffect
        hquery' fun s hs hid hphase => by
          have hnone := h.log.before s.clp (by simp [hphase, Plan.Phase.level])
          apply hfirst
          rw [hs, services_append, services_served hid, hnone, if_pos rfl]
          rfl
      obtain ⟨visited₁, hstanding₁, hgrow₁, hnone₁⟩ := h.standing.next h.inStep h.wired h.covers
        h.gvt heffect hadvance hquery'
        (fun t a r g heq => hanti t a r g (heq ▸ List.mem_cons_self))
        (fun source target k heq => hfifo source target k (heq ▸ List.mem_cons_self))
        htime' hnow
      rw [List.append_cons]
      obtain ⟨prog', visited', hchase, hgrow, hnone⟩ := ih
        ⟨wired_step h.wired heffect, covers_step h.wired heffect htime' h.covers,
          gvtUpTo_step h.wired heffect htime' h.gvt, hinstep₁, hlog₁, hstanding₁⟩ hrest
        (fun t a r hin => hquery t a r (List.mem_cons_of_mem _ hin))
        (fun t a r g hin => hanti t a r g (List.mem_cons_of_mem _ hin))
        (fun source target k hin => hfifo source target k (List.mem_cons_of_mem _ hin))
        (fun clp gvt hin => htime clp gvt (List.mem_cons_of_mem _ hin)) hlater hfirst
      exact ⟨prog', visited', hchase, fun x hx => hgrow x (hgrow₁ x hx),
        fun hno => hnone (hnone₁ hno)⟩

/-- The query has just been sent. -/
theorem standing_sent
    (hentries : ∀ c port entry, c < numberOfClps → entry ∈ (net.clp c).recordedAt port →
      entry.identifier ≠ I.identifier)
    (htraffic : ∀ a b, traffic I.identifier (net.pipe a b) = []) (q : RangeQueryMessage) :
    I.Standing I.plan.start (net.send I.originalAgent.rank [.query q]) fun _ => False := by
  have hnone : ∀ a b x, .anti x ∉ traffic I.identifier
      ((net.send I.originalAgent.rank [.query q]).pipe a b) := by
    intro a b x hx
    obtain ⟨hx, hid⟩ := mem_traffic.mp hx
    rw [pipe_send] at hx
    have hold : RangeMessage.anti x ∉ net.pipe a b := by
      intro hin
      have hmem := mem_traffic.mpr ⟨hin, hid⟩
      rw [htraffic] at hmem
      cases hmem
    split at hx
    · cases List.mem_append.mp hx with
      | inl hx => exact hold hx
      | inr hx => simp at hx
    · exact hold hx
  have hmarked : ∀ c, c < numberOfClps →
      ¬ I.Marked (net.send I.originalAgent.rank [.query q]) c := by
    intro c hc hmarked
    obtain ⟨port, entry, hin, hid⟩ := hmarked
    exact hentries c port entry hc hin hid
  refine ⟨fun c port entry hc hin hid => absurd hid (hentries c port entry hc hin),
    fun _ _ h => h.elim, fun _ _ => id, fun c hc hpremise => .inr ⟨id, fun hroot => ?_⟩,
    fun a b x hx => absurd hx (hnone a b x), fun b _ => pairwise_behind (hnone _ b)⟩
  cases hpremise with
  | inl hasked =>
      have hidle : I.plan.start c = .idle := Function.update_of_ne hroot ..
      rw [hidle] at hasked
      cases hasked
  | inr hm => exact absurd hm (hmarked c hc)

/-- Nobody has heard of the query, and no anti-message of it is about. -/
structure Quiet (numberOfClps identifier : Nat) (net : RangeNetwork) : Prop where
  unheard : Unheard numberOfClps identifier net
  entries : ∀ c port entry, c < numberOfClps → entry ∈ (net.clp c).recordedAt port →
    entry.identifier ≠ identifier
  traffic : ∀ a b, traffic identifier (net.pipe a b) = []

theorem quiet_of_initial {initialisor : Initialisor} (h : Initial numberOfClps initialisor net) :
    Quiet numberOfClps identifier net := by
  refine ⟨unheard_of_initial h, fun c port entry hc hin => ?_, fun a b => ?_⟩
  · rw [recordedAt, h.unrecorded c port hc] at hin
    cases hin
  · rw [h.pipe]
    rfl

theorem Quiet.next (h : Quiet numberOfClps identifier net)
    (hcovers : Covers numberOfClps net time)
    (heffect : Effect numberOfClps alpToClpMap net e net' o)
    (hquery : ∀ t a r, e ≠ .query identifier t a r)
    (hanti : ∀ t a r g, e ≠ .anti identifier t a r g)
    (htime : ∀ clp gvt, e = .setGvt clp gvt → gvt ≤ time)
    (hundoable : Undoable numberOfClps time identifier net e) :
    Quiet numberOfClps identifier net' ∧ isArrival identifier o = false := by
  have hnot : ¬ IsAbout identifier net e := by
    intro habout
    cases e with
    | query => exact absurd (congrArg (Event.query · _ _ _) habout) (hquery _ _ _)
    | anti => exact absurd (congrArg (Event.anti · _ _ _ _) habout) (hanti _ _ _ _)
    | deliver source target k =>
        obtain ⟨m, hm, hid⟩ := habout
        have hmem := mem_traffic.mpr ⟨List.mem_of_getElem? hm, hid⟩
        rw [h.traffic] at hmem
        cases hmem
    | write | writeAnti | setGvt => exact habout
  have hdrops := dropsNone_of_entries hcovers htime hundoable heffect
    fun c port entry hc hin hid => absurd hid (h.entries c port entry hc hin)
  have halike := alike_of_effect heffect hnot hdrops
  obtain ⟨hunheard, ho⟩ := h.unheard.next (concerns_of_effect identifier heffect) hquery
  refine ⟨⟨hunheard, fun c port entry hc hin hid => ?_, fun a b => ?_⟩, ho⟩
  · exact h.entries c port entry hc ((halike.entries c port entry hc hid).mp hin) hid
  · rw [halike.traffic]
    exact h.traffic a b

theorem Quiet.run {es : List Event} {os : List Output} (h : Quiet numberOfClps identifier net)
    (hw : Wired numberOfClps alpToClpMap net) (hcovers : Covers numberOfClps net time)
    (hgvt : GvtUpTo numberOfClps net time)
    (hrun : (machine numberOfClps alpToClpMap).run net es = some (net', os))
    (hquery : ∀ t a r, .query identifier t a r ∉ es)
    (hanti : ∀ t a r g, .anti identifier t a r g ∉ es)
    (htime : ∀ clp gvt, .setGvt clp gvt ∈ es → gvt ≤ time)
    (hundoable : (machine numberOfClps alpToClpMap).Meets
      (Undoable numberOfClps time identifier) net es) :
    Quiet numberOfClps identifier net' ∧ Wired numberOfClps alpToClpMap net' ∧
      Covers numberOfClps net' time ∧ GvtUpTo numberOfClps net' time ∧
        ∀ o ∈ os, isArrival identifier o = false := by
  induction es generalizing net os with
  | nil =>
      cases hrun
      exact ⟨h, hw, hcovers, hgvt, fun _ ho => by cases ho⟩
  | cons e es ih =>
      obtain ⟨net₁, o, os', hstep, hrest, rfl⟩ := (Machine.run_cons_iff _).mp hrun
      have heffect := effect_of_step _ _ hstep
      have htime' : ∀ clp gvt, e = .setGvt clp gvt → gvt ≤ time :=
        fun clp gvt heq => htime clp gvt (heq ▸ List.mem_cons_self)
      obtain ⟨hnow, hlater⟩ := (Machine.meets_cons _ _ hstep).mp hundoable
      obtain ⟨hquiet, ho⟩ := h.next hcovers heffect
        (fun t a r heq => hquery t a r (heq ▸ List.mem_cons_self))
        (fun t a r g heq => hanti t a r g (heq ▸ List.mem_cons_self)) htime' hnow
      obtain ⟨hquiet', hw', hcovers', hgvt', hos⟩ := ih hquiet (wired_step hw heffect)
        (covers_step hw heffect htime' hcovers) (gvtUpTo_step hw heffect htime' hgvt) hrest
        (fun t a r hin => hquery t a r (List.mem_cons_of_mem _ hin))
        (fun t a r g hin => hanti t a r g (List.mem_cons_of_mem _ hin))
        (fun clp gvt hin => htime clp gvt (List.mem_cons_of_mem _ hin)) hlater
      refine ⟨hquiet', hw', hcovers', hgvt', fun o' ho' => ?_⟩
      cases List.mem_cons.mp ho' with
      | inl heq => exact heq ▸ ho
      | inr hin => exact hos o' hin

/-- Where the anti-message is on its way to no CLP, no CLP has an entry of the query. -/
theorem Chase.not_marked (h : I.Chase past net prog visited)
    (hvisited : visited I.originalAgent.rank)
    (hnone : NoAnti numberOfClps alpToClpMap I.identifier net) {c : Nat}
    (hc : c < numberOfClps) : ¬ I.Marked net c := by
  have hchased : ∀ x, x < numberOfClps → ¬ I.Chased net x := by
    intro x hx hchased
    obtain ⟨m, hm⟩ := hchased
    obtain ⟨hm, hid⟩ := mem_traffic.mp hm
    have hasker : I.asker x < numberOfClps + alpToClpMap.size := by
      rw [asker]
      split
      · exact I.agent_lt
      · have := HeapTree.nextHop_le_max x I.root
        have := I.root_lt
        omega
    have hanti := hnone _ hasker x hx _ hm
    rw [RangeMessage.isAntiOf, beq_eq_false_iff_ne] at hanti
    exact hanti (Option.some.inj hid)
  intro hmarked
  have hbelow : I.plan.Below I.plan.root c := by
    obtain ⟨port, entry, hin, hid⟩ := hmarked
    exact h.inStep.sound.below c (h.standing.entries c port entry hc hin hid).2.1
  -- back along the way the query came
  induction hbelow with
  | self =>
      cases h.standing.pointed _ hc (.inr hmarked) with
      | inl hch => exact hchased _ hc hch
      | inr hpoints =>
          have hasker : I.asker I.plan.root = I.originalAgent.rank := if_pos rfl
          exact hpoints.1 (hasker ▸ hvisited)
  | @step x d _ hd ih =>
      obtain ⟨hx, _, hroot, _⟩ := I.mem_forward.mp hd
      cases h.standing.pointed _ hc (.inr hmarked) with
      | inl hch => exact hchased _ hc hch
      | inr hpoints =>
          obtain ⟨entry, hin, hid, _⟩ := hpoints.2 hroot
          rw [I.asker_of_mem hd] at hin
          exact ih hx ⟨_, entry, hin, hid⟩

end Inquiry

/-- An anti-message takes no entry of another query, in whatever state it finds the CLP. -/
theorem anti_keeps_others {source target k : Nat} {m : RangeQueryAntiMessage}
    (hm : (net.pipe source target)[k]? = some (.anti m))
    (hstep : (machine numberOfClps alpToClpMap).step net (.deliver source target k) =
      some (net', o)) (c : Nat) (port : Direction) :
    ((net'.clp c).recordedAt port).filter (fun e => e.identifier != m.identifier) =
      ((net.clp c).recordedAt port).filter fun e => e.identifier != m.identifier := by
  have hhead : ∀ {front back : List RangeMessage} {m' : RangeMessage},
      net.pipe source target = front ++ m' :: back → front.length = k → m' = .anti m := by
    intro front back m' hpipe hk
    rw [hpipe, ← hk] at hm
    simpa using hm
  cases effect_of_step _ _ hstep with
  | serve _ hpipe hk => cases hhead hpipe hk
  | update _ hpipe hk => cases hhead hpipe hk
  | respond _ hpipe hk => cases hhead hpipe hk
  | ignore => rfl
  | write _ _ hlocal => exact absurd rfl (hlocal _ _ _)
  | undo _ hpipe hk hr =>
      cases hhead hpipe hk
      rw [clp_send, clp_setClp]
      split
      · rename_i heq
        rw [heq]
        cases processRangeQueryAnti_spec hr with
        | inl hearly => rw [hearly.2]
        | inr hundone =>
            obtain ⟨_, _, _, hanti⟩ := hundone
            exact hanti.others port
      · rfl

/-- Where every anti-message of the query finds its entries in the periods that cover its
time, and the status of the query first in them where the query went on, the query is undone
everywhere. -/
theorem undone_everywhere {initialisor : Initialisor} {es₁ es₂ es₃ : List Event}
    {os : List Output} {originalAgent : LpId} {range range' : Range} {rollbackTag : RollbackTag}
    (hinitial : Initial numberOfClps initialisor net) (hcovers : Covers numberOfClps net time)
    (hgvt : GvtUpTo numberOfClps net time)
    (hrun : (machine numberOfClps initialisor.alpToClpMap).run net
      (es₁ ++ .query identifier time originalAgent range :: es₂ ++
        .anti identifier time originalAgent range' rollbackTag :: es₃) = some (net', os))
    (hquery : ∀ t a r, .query identifier t a r ∉ es₁ ++ es₂ ++ es₃)
    (hanti : ∀ t a r g, .anti identifier t a r g ∉ es₁ ++ es₂ ++ es₃)
    (hfifo : ∀ source target k, .deliver source target k ∈ es₁ ++ es₂ ++ es₃ → k = 0)
    (htime : ∀ clp gvt, .setGvt clp gvt ∈ es₁ ++ es₂ ++ es₃ → gvt ≤ time)
    (hundoable : (machine numberOfClps initialisor.alpToClpMap).Meets
      (Undoable numberOfClps time identifier) net
      (es₁ ++ .query identifier time originalAgent range :: es₂ ++
        .anti identifier time originalAgent range' rollbackTag :: es₃))
    (hnone : NoAnti numberOfClps initialisor.alpToClpMap identifier net') :
    (∀ c port, c < numberOfClps → ∀ e ∈ (net'.clp c).recordedAt port,
      e.identifier ≠ identifier) ∧
    ∀ net₁ net₂ source target k m o, (net₁.pipe source target)[k]? = some (.anti m) →
      (machine numberOfClps initialisor.alpToClpMap).step net₁ (.deliver source target k) =
        some (net₂, o) →
      ∀ c port, ((net₂.clp c).recordedAt port).filter (fun e => e.identifier != m.identifier) =
        ((net₁.clp c).recordedAt port).filter fun e => e.identifier != m.identifier := by
  refine ⟨?_, fun net₁ net₂ source target k m o hm hstep c port =>
    anti_keeps_others hm hstep c port⟩
  obtain ⟨net₂, os₁, os₂, hrun₁, hrun₂, rfl⟩ := (Machine.run_append_iff _).mp hrun
  obtain ⟨hmeets₁, hmeets₂⟩ := (Machine.meets_append _ _ hrun₁).mp hundoable
  obtain ⟨net₁, os₁', os₂', hrunA, hrunB, rfl⟩ := (Machine.run_append_iff _).mp hrun₁
  obtain ⟨hmeetsA, hmeetsB⟩ := (Machine.meets_append _ _ hrunA).mp hmeets₁
  have hin₁ : ∀ e ∈ es₁, e ∈ es₁ ++ es₂ ++ es₃ := fun e he => by simp [he]
  have hin₂ : ∀ e ∈ es₂, e ∈ es₁ ++ es₂ ++ es₃ := fun e he => by simp [he]
  have hin₃ : ∀ e ∈ es₃, e ∈ es₁ ++ es₂ ++ es₃ := fun e he => by simp [he]
  -- before the query
  obtain ⟨hquiet, hw₁, hcovers₁, hgvt₁, hpast⟩ :=
    (Inquiry.quiet_of_initial hinitial).run (wired_of_initial hinitial) hcovers hgvt hrunA
      (fun t a r hin => hquery t a r (hin₁ _ hin)) (fun t a r g hin => hanti t a r g (hin₁ _ hin))
      (fun clp gvt hin => htime clp gvt (hin₁ _ hin)) hmeetsA
  obtain ⟨net₁', o₁, osB, hstep₁, hrestB, rfl⟩ := (Machine.run_cons_iff _).mp hrunB
  obtain ⟨home, hhome, hsent⟩ := Option.bind_eq_some_iff.mp hstep₁
  cases hsent
  obtain ⟨hge, hlt, hroot⟩ := hinitial.alps _ _ hhome
  let I : Inquiry numberOfClps initialisor.alpToClpMap :=
    ⟨identifier, time, originalAgent, range, home, hhome, hroot, hge, hlt,
      fun c => (services identifier (os₁' ++ .nothing :: osB ++ os₂) c).head?⟩
  have heffect₁ := effect_of_step _ _ hstep₁
  have hlog : ∀ net, I.Log net (os₁' ++ [.nothing]) I.plan.start := by
    refine fun net => log_start fun o ho => ?_
    cases List.mem_append.mp ho with
    | inl hin => exact hpast o hin
    | inr hin => exact List.mem_singleton.mp hin ▸ rfl
  have hfirst : ∀ c s (front back : List Output), os₁' ++ .nothing :: osB ++ os₂ = front ++ back →
      (services identifier front c).head? = some s → I.first c = some s := by
    intro c s front back hos hs
    change (services identifier (os₁' ++ .nothing :: osB ++ os₂) c).head? = some s
    rw [hos, services_append, List.head?_append, hs]
    rfl
  -- from the query to the anti-message
  have hinstep₁ := I.inStep_sent hquiet.unheard.tracker hquiet.unheard.pipe
  have hstart := Inquiry.Chase.mk (wired_step hw₁ heffect₁)
    (covers_step hw₁ heffect₁ nofun hcovers₁) (gvtUpTo_step hw₁ heffect₁ nofun hgvt₁) hinstep₁
    (hlog _) (Inquiry.standing_sent hquiet.entries hquiet.traffic _)
  obtain ⟨prog₂, visited₂, hchase₂, _, hnone₂⟩ := hstart.run hrestB
    (fun t a r hin => hquery t a r (hin₂ _ hin)) (fun t a r g hin => hanti t a r g (hin₂ _ hin))
    (fun source target k hin => hfifo source target k (hin₂ _ hin))
    (fun clp gvt hin => htime clp gvt (hin₂ _ hin))
    ((Machine.meets_cons _ _ hstep₁).mp hmeetsB).2
    fun c s hs => hfirst c s _ os₂ (by rw [List.append_cons]) hs
  rw [← List.append_cons] at hchase₂
  -- and from there to the end
  obtain ⟨net₂', o₂, osC, hstep₂, hrestC, rfl⟩ := (Machine.run_cons_iff _).mp hrun₂
  obtain ⟨home', hhome', hsent'⟩ := Option.bind_eq_some_iff.mp hstep₂
  have hsame : home' = home := Option.some.inj (hhome'.symm.trans hhome)
  subst hsame
  cases hsent'
  have heffect₂ := effect_of_step _ _ hstep₂
  have hwired₂ := wired_step hchase₂.wired heffect₂
  obtain ⟨prog₃, hadvance, hinstep₃, hlog₃⟩ := hchase₂.log.next hchase₂.inStep hchase₂.wired
    hchase₂.covers heffect₂ nofun nofun
  have hprog : prog₃ = prog₂ := by
    cases hadvance with
    | other => rfl
  subst hprog
  have hissued := Inquiry.Chase.mk hwired₂ (covers_step hchase₂.wired heffect₂ nofun hchase₂.covers)
    (gvtUpTo_step hchase₂.wired heffect₂ nofun hchase₂.gvt) hinstep₃ hlog₃
    (hchase₂.standing.issue (hnone₂ fun _ => id) rfl rfl rfl rfl)
  obtain ⟨prog', visited', hchase, hgrow, _⟩ := hissued.run hrestC
    (fun t a r hin => hquery t a r (hin₃ _ hin)) (fun t a r g hin => hanti t a r g (hin₃ _ hin))
    (fun source target k hin => hfifo source target k (hin₃ _ hin))
    (fun clp gvt hin => htime clp gvt (hin₃ _ hin))
    ((Machine.meets_cons _ _ hstep₂).mp hmeets₂).2
    fun c s hs => hfirst c s _ [] (by rw [← List.append_cons, List.append_nil]) hs
  intro c port hc entry hin hid
  exact hchase.not_marked (hgrow _ rfl) hnone hc ⟨port, entry, hin, hid⟩

theorem covers_branch (time : Nat) : Covers 3 branchNetwork time := by
  intro c port _
  rw [rangeTable_branch, RangeRoutingTable.hasRangePeriod_iff]
  exact ⟨_, List.mem_cons_self, Nat.zero_le time⟩

/-- The anti-message goes the way of the query. -/
def undoRun : List Event :=
  [] ++ .query 7 5 ⟨1, 3⟩ ⟨⟨1, 1⟩, ⟨8, 8⟩⟩ :: branchRun.tail ++
    .anti 7 5 ⟨1, 3⟩ ⟨⟨1, 1⟩, ⟨8, 8⟩⟩ ⟨7, 5, 0, 0⟩ ::
      [.deliver 3 1 0, .deliver 1 0 0, .deliver 0 2 0]

theorem undone_everywhere_branch : ∃ net' os,
    (machine 3 branchInitialisor.alpToClpMap).run branchNetwork undoRun = some (net', os) ∧
    ∀ c port, c < 3 → ∀ e ∈ (net'.clp c).recordedAt port, e.identifier ≠ 7 := by
  have hgone : ((machine 3 branchInitialisor.alpToClpMap).run branchNetwork undoRun).map
      (fun r => decide (NoAnti 3 branchInitialisor.alpToClpMap 7 r.1)) = some true := by decide
  obtain ⟨⟨net', os⟩, hrun, hnone⟩ := Option.map_eq_some_iff.mp hgone
  have hundoable : (machine 3 branchInitialisor.alpToClpMap).Meets (Undoable 3 5 7) branchNetwork
      undoRun := by decide
  have hquery : ∀ t a r, Event.query 7 t a r ∉ [] ++ branchRun.tail ++
      [.deliver 3 1 0, .deliver 1 0 0, .deliver 0 2 0] := by simp [branchRun]
  have hanti : ∀ t a r g, Event.anti 7 t a r g ∉ [] ++ branchRun.tail ++
      [.deliver 3 1 0, .deliver 1 0 0, .deliver 0 2 0] := by simp [branchRun]
  have hfifo : ∀ source target k, Event.deliver source target k ∈ [] ++ branchRun.tail ++
      [.deliver 3 1 0, .deliver 1 0 0, .deliver 0 2 0] → k = 0 := by
    intro source target k hin
    simp only [branchRun, List.tail_cons, List.nil_append, List.cons_append, List.mem_cons,
      Event.deliver.injEq, List.not_mem_nil, or_false] at hin
    omega
  have htime : ∀ clp gvt, Event.setGvt clp gvt ∈ [] ++ branchRun.tail ++
      [.deliver 3 1 0, .deliver 1 0 0, .deliver 0 2 0] → gvt ≤ 5 := by simp [branchRun]
  have hundone := undone_everywhere initial_branch (covers_branch 5) (fun _ _ => Nat.zero_le 5) hrun
    hquery hanti hfifo htime hundoable (of_decide_eq_true hnone)
  exact ⟨net', os, hrun, hundone.1⟩

/-- Behind the entry of a query that was blocked. -/
def blockedRun : List Event :=
  .query 8 5 ⟨1, 3⟩ ⟨⟨11, 11⟩, ⟨15, 15⟩⟩ :: .deliver 3 1 0 :: branchRun ++
    [.anti 7 5 ⟨1, 3⟩ ⟨⟨1, 1⟩, ⟨8, 8⟩⟩ ⟨7, 5, 0, 0⟩, .deliver 3 1 0]

theorem anti_stops_at_blocked : Initial 3 branchInitialisor branchNetwork ∧
    ∃ net' os, (machine 3 branchInitialisor.alpToClpMap).run branchNetwork blockedRun =
        some (net', os) ∧
      NoAnti 3 branchInitialisor.alpToClpMap 7 net' ∧
      ∃ e ∈ (net'.clp 0).recordedAt .RIGHT, e.identifier = 7 := by
  refine ⟨initial_branch, ?_⟩
  have hkept : ((machine 3 branchInitialisor.alpToClpMap).run branchNetwork blockedRun).map
      (fun r => decide (NoAnti 3 branchInitialisor.alpToClpMap 7 r.1 ∧
        ∃ e ∈ (r.1.clp 0).recordedAt .RIGHT, e.identifier = 7)) = some true := by decide
  obtain ⟨⟨net', os⟩, hrun, hnone⟩ := Option.map_eq_some_iff.mp hkept
  exact ⟨net', os, hrun, of_decide_eq_true hnone⟩

end RangeNetwork
end PdesMas
