import Mathlib.Algebra.BigOperators.Group.Finset.Basic
import Mathlib.Algebra.Order.BigOperators.Group.Finset
import PdesMas.Lp.RangeAdvance

/-!
Range queries are gathered exactly once. In every run in which a query is sent once,
each CLP reads its variables for it at most once, its entry is there exactly while
somebody it asked has not replied, and when nothing of the query is on its way the
ALP has got one response, with the points that were read.
-/

namespace PdesMas

namespace RangeNetwork

open RangeClp

section Seen

variable {identifier : Nat} {past : List Output}

theorem services_served {s : Service} (hs : s.message.identifier = identifier) (c : Nat) :
    services identifier (past ++ [.served s]) c =
      services identifier past c ++ if s.clp = c then [s] else [] := by
  rw [services_append]
  congr 1
  by_cases hc : s.clp = c <;> simp [services, hs, hc]

theorem services_received (alp : Nat) (m : RangeQueryMessage) (c : Nat) :
    services identifier (past ++ [.received alp m]) c = services identifier past c := by
  rw [services_append]
  exact List.append_nil _

theorem received_served (s : Service) :
    received identifier (past ++ [.served s]) = received identifier past := by
  rw [received_append]
  exact List.append_nil _

theorem arrivals_append_singleton (o : Output) :
    arrivals identifier (past ++ [o]) ≤ arrivals identifier past + 1 := by
  rw [arrivals, arrivals, List.countP_append]
  exact Nat.add_le_add_left (List.countP_le_length) _

theorem replied_congr {past' : List Output} {c : Nat}
    (h : services identifier past' c = services identifier past c) (d : Nat) :
    Replied identifier past' c d ↔ Replied identifier past c d := by
  rw [Replied, Replied, h]

end Seen

namespace Inquiry

variable {numberOfClps : Nat} {alpToClpMap : Std.TreeMap Nat Nat}
  {I : Inquiry numberOfClps alpToClpMap} {net net' : RangeNetwork}
  {prog prog' : Plan.Progress Nat} {past : List Output} {e : Event} {o : Output}

/-- The services of a CLP that the question has come to. -/
def Opened (I : Inquiry numberOfClps alpToClpMap) (net : RangeNetwork) (c : Nat)
    (l : List Service) : Prop :=
  ∃ s rest, l = s :: rest ∧ Opens I net c s ∧ ∀ s' ∈ rest, ∃ d, Notes I c d s'

/-- What the outputs of a run show of the gathering. -/
structure Log (I : Inquiry numberOfClps alpToClpMap) (net : RangeNetwork) (past : List Output)
    (prog : Plan.Progress Nat) : Prop where
  root : prog I.root ≠ .idle
  before : ∀ c, (prog c).level ≤ 1 → services I.identifier past c = []
  opened : ∀ c, 2 ≤ (prog c).level → Opened I net c (services I.identifier past c)
  replied : ∀ c d, Replied I.identifier past c d ↔
    d ∈ I.forward c ∧ ∃ noted, prog d = .done noted
  received : (received I.identifier past = [] ∧ ∀ noted, prog I.root ≠ .done noted) ∨
    ∃ m noted, received I.identifier past = [(I.originalAgent.rank, m)] ∧
      prog I.root = .done noted ∧ ∀ x : SsvId, m.ssvValueList[x]? = I.collected noted x
  arrivals : arrivals I.identifier past ≤ ∑ c ∈ Finset.range numberOfClps, (prog c).level

theorem Opened.congr {c : Nat} {l : List Service} (h : Opened I net c l)
    (hcontains : ∀ x, (net'.clp c).sharedState.containsVariable x =
      (net.clp c).sharedState.containsVariable x) : Opened I net' c l := by
  obtain ⟨s, rest, hl, hs, hrest⟩ := h
  refine ⟨s, rest, hl, ⟨hs.clp, hs.identifier, hs.first, hs.fresh, hs.forwarded,
    hs.reads_length, fun read hread x point hpoint => ?_⟩, hrest⟩
  rw [hcontains]
  exact hs.hosted read hread x point hpoint

theorem Opened.append {c : Nat} {l : List Service} (h : Opened I net c l) {d : Nat} {s : Service}
    (hs : Notes I c d s) : Opened I net c (l ++ [s]) := by
  obtain ⟨s', rest, hl, hopens, hrest⟩ := h
  refine ⟨s', rest ++ [s], by rw [hl, List.cons_append], hopens, fun s'' hs'' => ?_⟩
  cases List.mem_append.mp hs'' with
  | inl hin => exact hrest s'' hin
  | inr hin => exact ⟨d, List.mem_singleton.mp hin ▸ hs⟩

/-- The levels of the CLPs add up to more with every step of the gathering. -/
theorem sum_level_lt (h : I.plan.Sound prog) (hstep : I.plan.Step prog prog') :
    ∑ c ∈ Finset.range numberOfClps, (prog c).level <
      ∑ c ∈ Finset.range numberOfClps, (prog' c).level := by
  obtain ⟨hle, c, hc, hlt⟩ := Plan.level_step hstep h
  exact Finset.sum_lt_sum (fun x _ => hle x)
    ⟨c, Finset.mem_range.mpr (I.lt_of_below hc), hlt⟩

theorem Log.arrivals_step (h : I.Log net past prog) (hsound : I.plan.Sound prog)
    (hstep : I.plan.Step prog prog') (o : Output) :
    RangeNetwork.arrivals I.identifier (past ++ [o]) ≤
      ∑ c ∈ Finset.range numberOfClps, (prog' c).level :=
  Nat.le_trans (arrivals_append_singleton o)
    (Nat.le_trans (Nat.succ_le_succ h.arrivals) (sum_level_lt hsound hstep))

theorem Log.root_step (h : I.Log net past prog) (hsound : I.plan.Sound prog)
    (hstep : I.plan.Step prog prog') : prog' I.root ≠ .idle := by
  intro heq
  have hle := (Plan.level_step hstep hsound).1 I.root
  rw [heq] at hle
  cases hr : prog I.root with
  | idle => exact h.root hr
  | asked | waiting | answered | done => simp [hr, Plan.Phase.level] at hle

/-- What does not concern the query does not show. -/
theorem Log.other (h : I.Log net past prog) (ho : isArrival I.identifier o = false) :
    I.Log net (past ++ [o]) prog := by
  have hservices : ∀ c, services I.identifier (past ++ [o]) c = services I.identifier past c := by
    intro c
    rw [services_append, services_of_not_arrival ho, List.append_nil]
  have hreceived : RangeNetwork.received I.identifier (past ++ [o]) =
      RangeNetwork.received I.identifier past := by
    rw [received_append, received_of_not_arrival ho, List.append_nil]
  have harrivals : RangeNetwork.arrivals I.identifier (past ++ [o]) =
      RangeNetwork.arrivals I.identifier past := by
    rw [RangeNetwork.arrivals, RangeNetwork.arrivals, List.countP_append,
      List.countP_singleton, ho]
    rfl
  refine ⟨h.root, fun c hc => ?_, fun c hc => ?_, fun c d => ?_, ?_, ?_⟩
  · rw [hservices]
    exact h.before c hc
  · rw [hservices]
    exact h.opened c hc
  · rw [replied_congr (hservices c)]
    exact h.replied c d
  · rw [hreceived]
    exact h.received
  · rw [harrivals]
    exact h.arrivals

theorem Log.question (h : I.Log net past prog) (hsound : I.plan.Sound prog) {c : Nat}
    {s : Service} (hphase : prog c = .asked) (hopens : Opens I net c s) :
    I.Log net (past ++ [.served s]) (I.plan.receiveQuestion prog c) := by
  have hstep : I.plan.Step prog (I.plan.receiveQuestion prog c) := .question c hphase
  have hself : I.plan.receiveQuestion prog c c = .settle (I.forward c) [c] :=
    Plan.receiveQuestion_self prog c
  have hidle : ∀ d ∈ I.forward c, prog d = .idle := fun d hd => hsound.idle hphase hd
  have hchild : ∀ d ∈ I.forward c, I.plan.receiveQuestion prog c d = .asked :=
    fun d hd => Plan.receiveQuestion_child hd
  have hother : ∀ x, x ≠ c → x ∉ I.forward c → I.plan.receiveQuestion prog c x = prog x :=
    fun x hx hx' => Plan.receiveQuestion_other hx hx'
  have hdone : ∀ x noted, I.plan.receiveQuestion prog c x = .done noted ↔
      prog x = .done noted := by
    intro x noted
    by_cases hx : x = c
    · rw [hx, hself, hphase]
      cases I.forward c <;> simp [Plan.Phase.settle]
    · by_cases hx' : x ∈ I.forward c
      · simp [hchild x hx', hidle x hx']
      · rw [hother x hx hx']
  have hlevel := (Plan.level_step hstep hsound).1
  refine ⟨h.root_step hsound hstep, fun x hx => ?_, fun x hx => ?_, fun x d => ?_, ?_,
    h.arrivals_step hsound hstep _⟩
  · have hne : c ≠ x := by
      intro heq
      rw [← heq, hself] at hx
      have := Plan.Phase.level_settle (I.forward c) [c]
      omega
    rw [services_served hopens.identifier, hopens.clp, if_neg hne, List.append_nil]
    exact h.before x (Nat.le_trans (hlevel x) hx)
  · rw [services_served hopens.identifier, hopens.clp]
    by_cases hxc : x = c
    · subst hxc
      rw [if_pos rfl, h.before x (by simp [hphase, Plan.Phase.level]), List.nil_append]
      exact ⟨s, [], rfl, hopens, fun _ hs' => by cases hs'⟩
    · have hx' : x ∉ I.forward c := by
        intro hx'
        simp [hchild x hx', Plan.Phase.level] at hx
      rw [if_neg (Ne.symm hxc), List.append_nil]
      rw [hother x hxc hx'] at hx
      exact h.opened x hx
  · simp only [hdone]
    rw [← h.replied x d]
    simp only [Replied, services_served hopens.identifier, hopens.clp]
    by_cases hxc : c = x <;> simp [hxc, hopens.fresh, or_and_right, exists_or]
  · simp only [received_served, ne_eq, hdone]
    exact h.received

theorem Log.answer (h : I.Log net past prog) (hsound : I.plan.Sound prog) {c d : Nat}
    {s : Service} {pending noted answer : List Nat} (hd : d ∈ I.forward c)
    (hstep : I.plan.Step prog (I.plan.receiveAnswer prog d pending noted answer))
    (hwaits : prog c = .waiting pending noted) (hanswer : prog d = .answered answer)
    (hnotes : Notes I c d s) :
    I.Log net (past ++ [.served s]) (I.plan.receiveAnswer prog d pending noted answer) := by
  have hparent : I.plan.parent d = c := I.plan.parent_of_mem hd
  have hself : I.plan.receiveAnswer prog d pending noted answer c =
      .settle (pending.erase d) (noted ++ answer) :=
    Plan.receiveAnswer_asker hd
  have hanswered : I.plan.receiveAnswer prog d pending noted answer d = .done answer :=
    Plan.receiveAnswer_self prog d pending noted answer
  have hother : ∀ x, x ≠ d → x ≠ c →
      I.plan.receiveAnswer prog d pending noted answer x = prog x :=
    fun x hxd hxc => Plan.receiveAnswer_other hd hxd hxc
  have hsettle := Plan.Phase.level_settle (pending.erase d) (noted ++ answer)
  have hlevel := (Plan.level_step hstep hsound).1
  have hdone : ∀ x noted', x ≠ d →
      (I.plan.receiveAnswer prog d pending noted answer x = .done noted' ↔
        prog x = .done noted') := by
    intro x noted' hxd
    by_cases hxc : x = c
    · rw [hxc, hself, hwaits]
      cases pending.erase d <;> simp [Plan.Phase.settle]
    · rw [hother x hxd hxc]
  have hroot : d ≠ I.root := (I.mem_forward.mp hd).2.2.1
  refine ⟨h.root_step hsound hstep, fun x hx => ?_, fun x hx => ?_, fun x y => ?_, ?_,
    h.arrivals_step hsound hstep _⟩
  · have hne : c ≠ x := by
      intro heq
      rw [← heq, hself] at hx
      omega
    rw [services_served hnotes.identifier, hnotes.clp, if_neg hne, List.append_nil]
    exact h.before x (Nat.le_trans (hlevel x) hx)
  · rw [services_served hnotes.identifier, hnotes.clp]
    by_cases hxc : x = c
    · subst hxc
      rw [if_pos rfl]
      exact (h.opened x (by simp [hwaits, Plan.Phase.level])).append hnotes
    · rw [if_neg (Ne.symm hxc), List.append_nil]
      refine h.opened x ?_
      by_cases hxd : x = d
      · simp [hxd, hanswer, Plan.Phase.level]
      · rwa [hother x hxd hxc] at hx
  · have hnew : Replied I.identifier (past ++ [.served s]) x y ↔
        Replied I.identifier past x y ∨ c = x ∧ d = y := by
      simp only [Replied, services_served hnotes.identifier, hnotes.clp]
      by_cases hxc : c = x <;> simp [hxc, hnotes.fresh, hnotes.origin, or_and_right, exists_or]
    rw [hnew, h.replied]
    by_cases hyd : y = d
    · subst hyd
      simp only [hanswered, hanswer, reduceCtorEq, exists_false, and_false, false_or, and_true,
        Plan.Phase.done.injEq, exists_eq']
      constructor
      · exact fun heq => heq ▸ hd
      · exact fun hy => hparent.symm.trans (I.plan.parent_of_mem hy)
    · simp only [hdone y _ hyd, Ne.symm hyd, and_false, or_false]
  · simp only [received_served, ne_eq, hdone I.root _ (Ne.symm hroot)]
    exact h.received

theorem Log.result (h : I.Log net past prog) (hsound : I.plan.Sound prog)
    {m : RangeQueryMessage} {answer : List Nat} (hphase : prog I.root = .answered answer)
    (hm : m.identifier = I.identifier)
    (hmap : ∀ x : SsvId, m.ssvValueList[x]? = I.collected answer x) :
    I.Log net (past ++ [.received I.originalAgent.rank m])
      (Function.update prog I.root (.done answer)) := by
  have hstep : I.plan.Step prog (Function.update prog I.root (.done answer)) :=
    .result answer hphase
  have hself : Function.update prog I.root (.done answer) I.root = .done answer :=
    Function.update_self ..
  have hother : ∀ c, c ≠ I.root → Function.update prog I.root (.done answer) c = prog c :=
    fun c hc => Function.update_of_ne hc ..
  have hnone : RangeNetwork.received I.identifier past = [] := by
    cases h.received with
    | inl hnone => exact hnone.1
    | inr hone =>
        obtain ⟨_, _, _, hroot, _⟩ := hone
        rw [hphase] at hroot
        cases hroot
  refine ⟨by simp, fun x hx => ?_, fun x hx => ?_, fun x d => ?_, .inr ?_,
    h.arrivals_step hsound hstep _⟩
  · rw [services_received]
    by_cases hxr : x = I.root
    · simp [hxr, Plan.Phase.level] at hx
    · rw [hother x hxr] at hx
      exact h.before x hx
  · rw [services_received]
    refine h.opened x ?_
    by_cases hxr : x = I.root
    · simp [hxr, hphase, Plan.Phase.level]
    · rwa [hother x hxr] at hx
  · rw [replied_congr (services_received _ _ x), h.replied]
    constructor
    · intro hd
      rw [hother d (I.mem_forward.mp hd.1).2.2.1]
      exact hd
    · intro hd
      rw [hother d (I.mem_forward.mp hd.1).2.2.1] at hd
      exact hd
  · refine ⟨m, answer, ?_, hself, hmap⟩
    rw [received_append, hnone, List.nil_append]
    simp [RangeNetwork.received, hm]

theorem Log.advance (h : I.Log net past prog) (hsound : I.plan.Sound prog)
    (hadvance : I.Advance net prog prog' o) : I.Log net (past ++ [o]) prog' := by
  cases hadvance with
  | question hphase hopens => exact h.question hsound hphase hopens
  | answer hd hstep hwaits hanswer hnotes => exact h.answer hsound hd hstep hwaits hanswer hnotes
  | result hphase hm hmap => exact h.result hsound hphase hm hmap
  | other ho => exact h.other ho

/-- A step of the network, in step with the gathering and its log. -/
theorem Log.next (h : I.Log net past prog) (hinstep : I.InStep prog net)
    (hw : Wired numberOfClps alpToClpMap net) (hcovers : Covers numberOfClps net I.timestamp)
    (heffect : Effect numberOfClps alpToClpMap net e net' o)
    (he : ∀ timestamp originalAgent range,
      e ≠ .query I.identifier timestamp originalAgent range)
    (hfirst : ∀ s, o = .served s → s.message.identifier = I.identifier →
      prog s.clp = .asked → I.first s.clp = some s) :
    ∃ prog', I.Advance net prog prog' o ∧ I.InStep prog' net' ∧
      I.Log net' (past ++ [o]) prog' := by
  obtain ⟨prog', hadvance, hinstep'⟩ := exists_advance hinstep hw hcovers
    (concerns_of_effect I.identifier heffect) he hfirst
  have hlog := h.advance hinstep.sound hadvance
  refine ⟨prog', hadvance, hinstep', hlog.root, hlog.before, fun c hc => ?_, hlog.replied,
    hlog.received, hlog.arrivals⟩
  exact (hlog.opened c hc).congr (fixed_step hw heffect c).contains

/-- A run in which the query is not sent again. -/
theorem Log.run {es : List Event} {os : List Output} (h : I.Log net past prog)
    (hinstep : I.InStep prog net) (hw : Wired numberOfClps alpToClpMap net)
    (hcovers : Covers numberOfClps net I.timestamp)
    (hrun : (machine numberOfClps alpToClpMap).run net es = some (net', os))
    (honce : ∀ timestamp originalAgent range,
      .query I.identifier timestamp originalAgent range ∉ es)
    (hgvt : ∀ clp gvt, .setGvt clp gvt ∈ es → gvt ≤ I.timestamp)
    (hfirst : ∀ c, I.first c = (services I.identifier (past ++ os) c).head?) :
    ∃ prog', Wired numberOfClps alpToClpMap net' ∧ I.InStep prog' net' ∧
      I.Log net' (past ++ os) prog' := by
  induction es generalizing net past prog os with
  | nil =>
      cases hrun
      rw [List.append_nil]
      exact ⟨prog, hw, hinstep, h⟩
  | cons e es ih =>
      obtain ⟨net₁, o, os', hstep, hrest, rfl⟩ := (Machine.run_cons_iff _).mp hrun
      have heffect := effect_of_step _ _ hstep
      rw [List.append_cons] at hfirst
      obtain ⟨prog₁, _, hinstep₁, hlog₁⟩ := h.next hinstep hw hcovers heffect
        (fun t a r heq => honce t a r (heq ▸ List.mem_cons_self)) fun s hs hid hphase => by
          have hnone := h.before s.clp (by simp [hphase, Plan.Phase.level])
          rw [hfirst, hs, services_append, services_served hid, hnone, if_pos rfl]
          rfl
      rw [List.append_cons]
      have htime : ∀ clp gvt, e = .setGvt clp gvt → gvt ≤ I.timestamp :=
        fun clp gvt heq => hgvt clp gvt (heq ▸ List.mem_cons_self)
      exact ih hlog₁ hinstep₁ (wired_step hw heffect) (covers_step hw heffect htime hcovers) hrest
        (fun t a r hin => honce t a r (List.mem_cons_of_mem _ hin))
        (fun clp gvt hin => hgvt clp gvt (List.mem_cons_of_mem _ hin)) hfirst

section Shown

variable {c d : Nat}

theorem Opened.reads {l : List Service} (h : Opened I net c l) :
    ∃ s, I.first c = some s ∧ s.reads.length ≤ 1 ∧ l.flatMap Service.reads = s.reads ∧
      (∀ read ∈ s.reads, ∀ (x : SsvId) (point : Point), read[x]? = some point →
        (net.clp c).sharedState.containsVariable x = true) := by
  obtain ⟨s, rest, rfl, hopens, hrest⟩ := h
  refine ⟨s, hopens.first, hopens.reads_length, ?_, hopens.hosted⟩
  have hnone : rest.flatMap Service.reads = [] := by
    rw [List.flatMap_eq_nil_iff]
    intro s' hs'
    obtain ⟨d, hd⟩ := hrest s' hs'
    exact hd.reads
  rw [List.flatMap_cons, hnone, List.append_nil]

theorem Log.reads_length (h : I.Log net past prog) (c : Nat) :
    (rangeReads I.identifier past c).length ≤ 1 := by
  rw [rangeReads]
  by_cases hc : 2 ≤ (prog c).level
  · obtain ⟨s, _, hlength, heq, _⟩ := (h.opened c hc).reads
    rw [heq]
    exact hlength
  · rw [h.before c (by omega)]
    exact Nat.zero_le 1

/-- What a CLP found is what it read. -/
theorem Log.found_iff (h : I.Log net past prog) (hc : 2 ≤ (prog c).level) (x : SsvId)
    (point : Point) :
    I.found c x = some point ↔ ∃ read ∈ rangeReads I.identifier past c, read[x]? = some point := by
  obtain ⟨s, hfirst, hlength, heq, _⟩ := (h.opened c hc).reads
  rw [rangeReads, heq, found, hfirst, Option.bind_some]
  cases hreads : s.reads with
  | nil => simp
  | cons read rest =>
      have hrest : rest = [] := by
        rw [hreads, List.length_cons] at hlength
        exact List.eq_nil_of_length_eq_zero (by omega)
      cases hx : read[x]? <;> simp [hrest, hx]

theorem Log.hosted (h : I.Log net past prog) (hc : 2 ≤ (prog c).level) {x : SsvId}
    {point : Point} (hfound : I.found c x = some point) :
    (net.clp c).sharedState.containsVariable x = true := by
  obtain ⟨s, _, _, heq, hhosted⟩ := (h.opened c hc).reads
  obtain ⟨read, hread, hpoint⟩ := (h.found_iff hc x point).mp hfound
  rw [rangeReads, heq] at hread
  exact hhosted read hread x point hpoint

theorem Log.forwarded_iff (h : I.Log net past prog) :
    Forwarded I.identifier past c d ↔ 2 ≤ (prog c).level ∧ d ∈ I.forward c := by
  constructor
  · intro hforwarded
    obtain ⟨s, hs, hd⟩ := hforwarded
    have hc : 2 ≤ (prog c).level := by
      by_contra hc
      rw [h.before c (by omega)] at hs
      cases hs
    obtain ⟨s₁, rest, hl, hopens, hrest⟩ := h.opened c hc
    rw [hl] at hs
    cases List.mem_cons.mp hs with
    | inl heq => exact ⟨hc, (hopens.forwarded d).mp (heq ▸ hd)⟩
    | inr hin =>
        obtain ⟨_, hnotes⟩ := hrest s hin
        rw [hnotes.forwarded] at hd
        cases hd
  · intro hd
    obtain ⟨s₁, rest, hl, hopens, _⟩ := h.opened c hd.1
    rw [Forwarded, hl]
    exact ⟨s₁, List.mem_cons_self, (hopens.forwarded d).mpr hd.2⟩

/-- The entry of a CLP is there while somebody it asked has not replied. -/
theorem Log.hasEntry_iff (h : I.Log net past prog) (hinstep : I.InStep prog net)
    (hc : c < numberOfClps) :
    (net.clp c).rangeTracker.hasEntry I.identifier = true ↔
      ∃ d, Forwarded I.identifier past c d ∧ ¬ Replied I.identifier past c d := by
  have hwaits : (net.clp c).rangeTracker.hasEntry I.identifier = true ↔
      ∃ pending noted, prog c = .waiting pending noted := by
    rw [RangeTracker.hasEntry_eq_true]
    have htracks := hinstep.tracks c hc
    generalize (net.clp c).rangeTracker[I.identifier]? = entry at htracks
    cases htracks with
    | waiting hphase => simp [hphase]
    | nothing hphase => simp [hphase]
  rw [hwaits]
  constructor
  · intro hwaiting
    obtain ⟨pending, noted, hwaiting⟩ := hwaiting
    have hphase := hinstep.sound.phase c
    rw [hwaiting] at hphase
    obtain ⟨hne, _, hsub, _⟩ := hphase
    obtain ⟨d, rest, rfl⟩ := List.exists_cons_of_ne_nil hne
    have hd := hsub d List.mem_cons_self
    have hfits := hinstep.sound.child c d hd
    rw [hwaiting] at hfits
    have hactive := hfits.1 List.mem_cons_self
    refine ⟨d, h.forwarded_iff.mpr ⟨by simp [hwaiting, Plan.Phase.level], hd⟩, fun hreplied => ?_⟩
    obtain ⟨_, noted', hdone⟩ := (h.replied c d).mp hreplied
    rw [hdone] at hactive
    cases hactive
  · intro hd
    obtain ⟨d, hforwarded, hreplied⟩ := hd
    obtain ⟨hlevel, hd⟩ := h.forwarded_iff.mp hforwarded
    rw [h.replied] at hreplied
    have hfits := hinstep.sound.child c d hd
    cases hphase : prog c with
    | idle | asked => simp [hphase, Plan.Phase.level] at hlevel
    | waiting pending noted => exact ⟨pending, noted, rfl⟩
    | answered | done =>
        rw [hphase] at hfits
        exact absurd ⟨hd, hfits⟩ hreplied

/-- On a network where nothing of the query is on its way nobody is asked or answers. -/
theorem InStep.settled_iff (hinstep : I.InStep prog net) :
    Settled I.identifier net ↔ ∀ c, prog c ≠ .asked ∧ ∀ noted, prog c ≠ .answered noted := by
  constructor
  · intro hsettled c
    constructor
    · intro hphase
      have hlink := hinstep.links (I.asker c) c
      rw [hsettled] at hlink
      cases hlink with
      | nothing hquestion _ => exact hquestion rfl hphase
    · intro noted hphase
      have hlink := hinstep.links c (I.asker c)
      rw [hsettled] at hlink
      cases hlink with
      | nothing _ hanswer => exact hanswer rfl noted hphase
  · intro hphases a b
    have hlink := hinstep.links a b
    generalize queriesOf I.identifier (net.pipe a b) = l at hlink
    cases hlink with
    | question hphase => exact absurd hphase (hphases b).1
    | answer hphase => exact absurd hphase ((hphases a).2 _)
    | nothing => rfl

theorem Log.settled_of_received (h : I.Log net past prog) (hinstep : I.InStep prog net)
    (hreceived : RangeNetwork.received I.identifier past ≠ []) : Settled I.identifier net := by
  cases h.received with
  | inl hnone => exact absurd hnone.1 hreceived
  | inr hone =>
      obtain ⟨_, answer, _, hroot, _⟩ := hone
      refine hinstep.settled_iff.mpr fun c => ?_
      cases hinstep.sound.idle_or_done hroot c with
      | inl hidle => simp [hidle]
      | inr hdone =>
          obtain ⟨noted, hdone⟩ := hdone
          simp [hdone]

/-- One variable is found by one CLP. -/
theorem Log.collected_iff (h : I.Log net past prog) (hw : Wired numberOfClps alpToClpMap net)
    {noted : List Nat}
    (hnoted : ∀ c ∈ noted, c < numberOfClps ∧ 2 ≤ (prog c).level) (x : SsvId) (point : Point) :
    I.collected noted x = some point ↔ ∃ c ∈ noted, I.found c x = some point := by
  constructor
  · intro hcollected
    exact List.exists_of_findSome?_eq_some hcollected
  · intro hfound
    obtain ⟨c, hc, hfound⟩ := hfound
    cases hcollected : I.collected noted x with
    | none =>
        have hnone := List.findSome?_eq_none_iff.mp hcollected c hc
        rw [hfound] at hnone
        cases hnone
    | some point' =>
        obtain ⟨c', hc', hfound'⟩ := List.exists_of_findSome?_eq_some hcollected
        have hsame := hw.hosted c' c x (hnoted c' hc').1 (hnoted c hc).1
          (h.hosted (hnoted c' hc').2 hfound') (h.hosted (hnoted c hc).2 hfound)
        rw [hsame, hfound] at hfound'
        exact hfound'.symm

/-- When nothing of the query is on its way the gathering is over. -/
theorem Log.complete (h : I.Log net past prog) (hinstep : I.InStep prog net)
    (hw : Wired numberOfClps alpToClpMap net) (hsettled : Settled I.identifier net) :
    (∃ m, RangeNetwork.received I.identifier past = [(I.originalAgent.rank, m)] ∧
      ∀ (x : SsvId) (point : Point), m.ssvValueList[x]? = some point ↔
        ∃ c, ∃ read ∈ rangeReads I.identifier past c, read[x]? = some point) ∧
    services I.identifier past I.root ≠ [] ∧
    (∀ c d, Forwarded I.identifier past c d → services I.identifier past d ≠ []) ∧
    ∀ c, c < numberOfClps → (net.clp c).rangeTracker.hasEntry I.identifier = false := by
  have hphases := hinstep.settled_iff.mp hsettled
  obtain ⟨⟨noted, hroot, _, hmem⟩, hall⟩ := hinstep.sound.complete h.root
    (fun c => (hphases c).1) fun c => (hphases c).2
  have hserved : ∀ c, I.plan.Below I.plan.root c → services I.identifier past c ≠ [] := by
    intro c hc
    obtain ⟨_, hdone⟩ := hall c hc
    obtain ⟨s, rest, hl, _⟩ := h.opened c (by simp [hdone, Plan.Phase.level])
    simp [hl]
  have hbelow : ∀ c, 2 ≤ (prog c).level → I.plan.Below I.plan.root c := by
    intro c hc
    refine hinstep.sound.below c fun heq => ?_
    simp [heq, Plan.Phase.level] at hc
  have hlevel : ∀ c ∈ noted, c < numberOfClps ∧ 2 ≤ (prog c).level := by
    intro c hc
    have hc := (hmem c).mp hc
    obtain ⟨_, hdone⟩ := hall c hc
    exact ⟨I.lt_of_below hc, by simp [hdone, Plan.Phase.level]⟩
  refine ⟨?_, hserved I.root .self, fun c d hd => ?_, fun c hc => ?_⟩
  · cases h.received with
    | inl hnone => exact absurd hroot (hnone.2 noted)
    | inr hone =>
        obtain ⟨m, answer, hreceived, hanswer, hmap⟩ := hone
        rw [show prog I.root = .done noted from hroot] at hanswer
        cases hanswer
        refine ⟨m, hreceived, fun x point => ?_⟩
        rw [hmap, h.collected_iff hw hlevel]
        constructor
        · intro hfound
          obtain ⟨c, hc, hfound⟩ := hfound
          exact ⟨c, (h.found_iff (hlevel c hc).2 x point).mp hfound⟩
        · intro hread
          obtain ⟨c, read, hread, hpoint⟩ := hread
          have hc : 2 ≤ (prog c).level := by
            by_contra hc
            rw [rangeReads, h.before c (by omega)] at hread
            cases hread
          exact ⟨c, (hmem c).mpr (hbelow c hc), (h.found_iff hc x point).mpr ⟨read, hread, hpoint⟩⟩
  · obtain ⟨hc, hd⟩ := h.forwarded_iff.mp hd
    exact hserved d (.step (hbelow c hc) hd)
  · rw [← Bool.not_eq_true, h.hasEntry_iff hinstep hc]
    intro hd
    obtain ⟨d, hforwarded, hreplied⟩ := hd
    obtain ⟨hc, hd⟩ := h.forwarded_iff.mp hforwarded
    exact hreplied ((h.replied c d).mpr ⟨hd, hall d (.step (hbelow c hc) hd)⟩)

end Shown

end Inquiry

variable {numberOfClps : Nat} {net net' : RangeNetwork} {identifier : Nat}

/-- Nobody has heard of the query. -/
structure Unheard (numberOfClps identifier : Nat) (net : RangeNetwork) : Prop where
  tracker : ∀ c, c < numberOfClps → (net.clp c).rangeTracker[identifier]? = none
  pipe : ∀ a b, queriesOf identifier (net.pipe a b) = []

theorem unheard_of_initial {initialisor : Initialisor}
    (h : Initial numberOfClps initialisor net) : Unheard numberOfClps identifier net := by
  refine ⟨fun c hc => ?_, fun a b => ?_⟩
  · rw [h.tracker c hc]
    exact Std.TreeMap.getElem?_emptyc
  · rw [h.pipe]
    rfl

section Unheard

variable {alpToClpMap : Std.TreeMap Nat Nat} {e : Event} {o : Output}

theorem Unheard.next (h : Unheard numberOfClps identifier net)
    (hstep : Concerns numberOfClps alpToClpMap identifier net e net' o)
    (he : ∀ timestamp originalAgent range,
      e ≠ .query identifier timestamp originalAgent range) :
    Unheard numberOfClps identifier net' ∧ isArrival identifier o = false := by
  have hnone : ∀ {source target : Nat} {front back : List RangeMessage} {m : RangeQueryMessage},
      net.pipe source target = front ++ .query m :: back → m.identifier ≠ identifier := by
    intro source target front back m hpipe hm
    have hempty := h.pipe source target
    rw [hpipe, queriesOf_append, queriesOf_cons_query, if_pos hm] at hempty
    simp at hempty
  cases hstep with
  | sent => exact absurd rfl (he _ _ _)
  | served _ hpipe hm => exact absurd hm (hnone hpipe)
  | received _ hpipe hm => exact absurd hm (hnone hpipe)
  | other hview ho =>
      refine ⟨⟨fun c hc => ?_, fun a b => ?_⟩, ho⟩
      · rw [hview.tracker]
        exact h.tracker c hc
      · rw [hview.pipe]
        exact h.pipe a b

theorem Unheard.run {es : List Event} {os : List Output}
    (h : Unheard numberOfClps identifier net)
    (hrun : (machine numberOfClps alpToClpMap).run net es = some (net', os))
    (honce : ∀ timestamp originalAgent range,
      .query identifier timestamp originalAgent range ∉ es) :
    Unheard numberOfClps identifier net' ∧ ∀ o ∈ os, isArrival identifier o = false := by
  induction es generalizing net os with
  | nil =>
      cases hrun
      exact ⟨h, fun _ ho => by cases ho⟩
  | cons e es ih =>
      obtain ⟨net₁, o, os', hstep, hrest, rfl⟩ := (Machine.run_cons_iff _).mp hrun
      obtain ⟨h₁, ho⟩ := h.next (concerns_of_effect identifier (effect_of_step _ _ hstep))
        fun t a r heq => honce t a r (heq ▸ List.mem_cons_self)
      obtain ⟨h', hos⟩ := ih h₁ hrest fun t a r hin => honce t a r (List.mem_cons_of_mem _ hin)
      refine ⟨h', fun o' ho' => ?_⟩
      cases List.mem_cons.mp ho' with
      | inl heq => exact heq ▸ ho
      | inr hin => exact hos o' hin

/-- The log starts when nothing of the query has been seen. -/
theorem log_start {I : Inquiry numberOfClps alpToClpMap} {past : List Output}
    (hpast : ∀ o ∈ past, isArrival I.identifier o = false) :
    I.Log net past I.plan.start := by
  have hroot : I.plan.start I.root = .asked := Function.update_self ..
  have hother : ∀ c, c ≠ I.root → I.plan.start c = .idle := fun c hc => Function.update_of_ne hc ..
  have hlevel : ∀ c, (I.plan.start c).level ≤ 1 ∧ ∀ noted, I.plan.start c ≠ .done noted := by
    intro c
    by_cases hc : c = I.root
    · simp [hc, hroot, Plan.Phase.level]
    · simp [hother c hc, Plan.Phase.level]
  have hservices : ∀ c, services I.identifier past c = [] := by
    intro c
    rw [services, List.filterMap_eq_nil_iff]
    intro o ho
    have hnot := hpast o ho
    cases o with
    | served s =>
        simp only [isArrival, beq_eq_false_iff_ne, ne_eq] at hnot
        simp [hnot]
    | nothing | received => rfl
  refine ⟨by simp [hroot], fun c _ => hservices c, fun c hc => ?_, fun c d => ?_,
    .inl ⟨?_, (hlevel I.root).2⟩, ?_⟩
  · have := (hlevel c).1
    omega
  · simp [Replied, hservices, (hlevel d).2]
  · rw [received, List.filterMap_eq_nil_iff]
    intro o ho
    have hnot := hpast o ho
    cases o with
    | received alp m =>
        simp only [isArrival, beq_eq_false_iff_ne, ne_eq] at hnot
        simp [hnot]
    | nothing | served => rfl
  · have hnone : arrivals I.identifier past = 0 := by
      rw [arrivals, List.countP_eq_zero]
      intro o ho
      simp [hpast o ho]
    rw [hnone]
    exact Nat.zero_le _

theorem sum_level_le (prog : Plan.Progress Nat) (n : Nat) :
    ∑ c ∈ Finset.range n, (prog c).level ≤ 4 * n := by
  induction n with
  | zero => exact Nat.zero_le _
  | succ n ih =>
      have hle : (prog n).level ≤ 4 := by
        cases prog n <;> simp [Plan.Phase.level]
      rw [Finset.sum_range_succ]
      omega

end Unheard

/-- A range query with an identifier of its own, sent when every table has a period for its
timestamp and with no GVT beyond it, is gathered exactly once. -/
theorem gathered_once {initialisor : Initialisor} {net₁ : RangeNetwork}
    {es₁ es₂ : List Event} {os₁ os₂ : List Output} {timestamp : Nat} {originalAgent : LpId}
    {range : Range} (hinitial : Initial numberOfClps initialisor net)
    (hrun₁ : (machine numberOfClps initialisor.alpToClpMap).run net es₁ = some (net₁, os₁))
    (hcovers : Covers numberOfClps net₁ timestamp)
    (hrun₂ : (machine numberOfClps initialisor.alpToClpMap).run net₁
      (.query identifier timestamp originalAgent range :: es₂) = some (net', os₂))
    (honce : ∀ t a r, .query identifier t a r ∉ es₁ ++ es₂)
    (hgvt : ∀ clp gvt, .setGvt clp gvt ∈ es₂ → gvt ≤ timestamp) :
    (∀ c, (rangeReads identifier (os₁ ++ os₂) c).length ≤ 1) ∧
    (∀ c, c < numberOfClps → ((net'.clp c).rangeTracker.hasEntry identifier = true ↔
      ∃ d, Forwarded identifier (os₁ ++ os₂) c d ∧ ¬ Replied identifier (os₁ ++ os₂) c d)) ∧
    (∀ source target k m, (net'.pipe source target)[k]? = some (.query m) →
      m.identifier = identifier →
      ((machine numberOfClps initialisor.alpToClpMap).step net'
        (.deliver source target k)).isSome = true) ∧
    arrivals identifier (os₁ ++ os₂) ≤ 4 * numberOfClps ∧
    (received identifier (os₁ ++ os₂) ≠ [] → Settled identifier net') ∧
    (Settled identifier net' →
      (∃ m, received identifier (os₁ ++ os₂) = [(originalAgent.rank, m)] ∧
        ∀ (x : SsvId) (point : Point), m.ssvValueList[x]? = some point ↔
          ∃ c, ∃ read ∈ rangeReads identifier (os₁ ++ os₂) c, read[x]? = some point) ∧
      (∃ home, initialisor.alpToClpMap[originalAgent.rank]? = some home ∧
        services identifier (os₁ ++ os₂) home ≠ []) ∧
      (∀ c d, Forwarded identifier (os₁ ++ os₂) c d →
        services identifier (os₁ ++ os₂) d ≠ []) ∧
      ∀ c, c < numberOfClps → (net'.clp c).rangeTracker.hasEntry identifier = false) := by
  have honce₁ : ∀ t a r, .query identifier t a r ∉ es₁ :=
    fun t a r hin => honce t a r (List.mem_append_left _ hin)
  have honce₂ : ∀ t a r, .query identifier t a r ∉ es₂ :=
    fun t a r hin => honce t a r (List.mem_append_right _ hin)
  obtain ⟨hunheard, hpast⟩ := (unheard_of_initial hinitial).run hrun₁ honce₁
  have hw₁ : Wired numberOfClps initialisor.alpToClpMap net₁ :=
    Machine.invariant _ (Wired numberOfClps initialisor.alpToClpMap)
      (fun _ _ _ _ hw hstep => wired_step hw (effect_of_step _ _ hstep)) es₁ net net₁ os₁
      (wired_of_initial hinitial) hrun₁
  obtain ⟨net₂, o, os, hstep, hrest, rfl⟩ := (Machine.run_cons_iff _).mp hrun₂
  obtain ⟨home, hhome, hsent⟩ := Option.bind_eq_some_iff.mp hstep
  cases hsent
  obtain ⟨hge, hlt, hroot⟩ := hinitial.alps _ _ hhome
  let I : Inquiry numberOfClps initialisor.alpToClpMap :=
    ⟨identifier, timestamp, originalAgent, range, home, hhome, hroot, hge, hlt,
      fun c => (services identifier (os₁ ++ .nothing :: os) c).head?⟩
  have heffect := effect_of_step _ _ hstep
  have hlog : ∀ net, I.Log net (os₁ ++ [.nothing]) I.plan.start := by
    refine fun net => log_start fun o ho => ?_
    cases List.mem_append.mp ho with
    | inl hin => exact hpast o hin
    | inr hin => exact List.mem_singleton.mp hin ▸ rfl
  have hinstep := I.inStep_sent hunheard.tracker hunheard.pipe
  obtain ⟨prog, hw, hinstep', hlog'⟩ := (hlog _).run hinstep (wired_step hw₁ heffect)
    (covers_step hw₁ heffect nofun hcovers) hrest honce₂ hgvt fun c => by rw [← List.append_cons]
  rw [← List.append_cons] at hlog'
  refine ⟨hlog'.reads_length, fun c hc => hlog'.hasEntry_iff hinstep' hc,
    fun source target k m hk hm => Inquiry.exists_deliver hinstep' hw hk hm,
    Nat.le_trans hlog'.arrivals (sum_level_le prog numberOfClps),
    hlog'.settled_of_received hinstep', fun hsettled => ?_⟩
  obtain ⟨hreceived, hserved, hall, hentries⟩ := hlog'.complete hinstep' hw hsettled
  exact ⟨hreceived, ⟨home, hhome, hserved⟩, hall, hentries⟩

/-- A root with two children and an ALP at each child. -/
def branchInitialisor : Initialisor := ⟨∅, .ofList [(3, 1), (4, 2)], ∅⟩

/-- The table of a port, as far back as time goes. -/
def branchTable (range : Option Range) : RangeRoutingTable := ⟨[⟨0, range, []⟩], []⟩

/-- One point, at the right child. -/
def branchVariables (c : Nat) : StateVariableMap :=
  if c = 2 then
    .ofList [(6, (StateVariable.create 6).addWritePeriod (AbstractValue.valuePOINT ⟨3, 4⟩) 0 ⟨0, 4⟩)]
  else ∅

def branchRange (c : Nat) (port : Direction) : Option Range :=
  if (c, port) ∈ [(0, Direction.RIGHT), (1, .UP), (2, .HERE)] then some ⟨⟨0, 0⟩, ⟨9, 9⟩⟩ else none

def branchClp (c : Nat) : RangeClp where
  rank := c
  numberOfClps := 3
  gvt := 0
  routeTable := (RouteTable.create c 3 branchInitialisor).getD ⟨∅, fun _ => none, ∅⟩
  sharedState := ⟨branchVariables c, branchTable (branchRange c .HERE), .create true 0⟩
  portTable port := branchTable (branchRange c port)
  rangeTracker := ∅

def branchNetwork : RangeNetwork := ⟨branchClp, fun _ _ => []⟩

/-- The query of the agent at the left child goes round by the root. -/
def branchRun : List Event :=
  [.query 7 5 ⟨1, 3⟩ ⟨⟨1, 1⟩, ⟨8, 8⟩⟩, .deliver 3 1 0, .deliver 1 0 0, .deliver 0 2 0,
    .deliver 2 0 0, .deliver 0 1 0, .deliver 1 3 0]

theorem rangeTable_branch (c : Nat) (port : Direction) :
    (branchNetwork.clp c).rangeTable port = branchTable (branchRange c port) := by
  cases port <;> rfl

theorem initial_branch : Initial 3 branchInitialisor branchNetwork := by
  refine ⟨fun a c hac => ?_, fun c _ => rfl, fun c _ => rfl, fun c hc => ?_, fun c _ => rfl,
    fun a b => rfl, fun c d id _ _ hc hd => ?_, fun c port hc hport hnone => ?_,
    fun c port _ => ?_⟩
  · have halps : a = 3 ∧ c = 1 ∨ a = 4 ∧ c = 2 := by
      have hmem := Std.TreeMap.mem_toList_iff_getElem?_eq_some.mpr hac
      have hlist : branchInitialisor.alpToClpMap.toList = [(3, 1), (4, 2)] := by decide
      rw [hlist] at hmem
      simpa using hmem
    have hsize : branchInitialisor.alpToClpMap.size = 2 := by decide
    omega
  · have hsome : (RouteTable.create c 3 branchInitialisor).isSome = true := by
      revert c
      decide
    obtain ⟨t, ht⟩ := Option.isSome_iff_exists.mp hsome
    change _ = some ((RouteTable.create c 3 branchInitialisor).getD _)
    rw [ht]
    rfl
  · have htwo : ∀ x, (branchVariables x).contains id = true → x = 2 := by
      intro x hx
      by_contra hne
      rw [branchVariables, if_neg hne] at hx
      simp at hx
    exact (htwo c hc).trans (htwo d hd).symm
  · rw [rangeTable_branch]
    intro p hp
    obtain rfl := List.mem_singleton.mp hp
    refine if_neg fun hmem => ?_
    have hports : ((c, port) = (0, .RIGHT) ∨ (c, port) = (1, .UP)) ∨ (c, port) = (2, .HERE) := by
      simpa [or_assoc] using hmem
    rcases hports with (heq | heq) | heq
    · cases heq
      exact hnone 2 (by decide) (by decide) (by decide)
    · cases heq
      exact hnone 0 (by decide) (by decide) (by decide)
    · cases heq
      exact hport rfl
  · rw [rangeTable_branch]
    rfl

theorem gathered_once_branch : ∃ net' os m,
    (machine 3 branchInitialisor.alpToClpMap).run branchNetwork branchRun = some (net', os) ∧
    received 7 os = [(3, m)] ∧ ∀ (x : SsvId) (point : Point),
      m.ssvValueList[x]? = some point ↔
        ∃ c, ∃ read ∈ rangeReads 7 os c, read[x]? = some point := by
  have hreceived : ((machine 3 branchInitialisor.alpToClpMap).run branchNetwork branchRun).map
      (fun r => (received 7 r.2).map Prod.fst) = some [3] := by decide
  obtain ⟨⟨net', os⟩, hrun, hos⟩ := Option.map_eq_some_iff.mp hreceived
  have hne : received 7 os ≠ [] := by
    intro hnil
    simp [hnil] at hos
  have hcovers : Covers 3 branchNetwork 5 := by
    intro c port _
    rw [rangeTable_branch]
    rfl
  have honce : ∀ t a r, Event.query 7 t a r ∉ [] ++ branchRun.tail := by
    intro t a r hin
    simp [branchRun] at hin
  have hgvt : ∀ clp gvt, Event.setGvt clp gvt ∈ branchRun.tail → gvt ≤ 5 := by
    intro clp gvt hin
    simp [branchRun] at hin
  obtain ⟨_, _, _, _, hsettles, hsettled⟩ :=
    gathered_once initial_branch (Machine.run_nil _ _) hcovers hrun honce hgvt
  obtain ⟨⟨m, hm, hmap⟩, _⟩ := hsettled (hsettles hne)
  exact ⟨net', os, m, hrun, hm, hmap⟩

end RangeNetwork
end PdesMas
