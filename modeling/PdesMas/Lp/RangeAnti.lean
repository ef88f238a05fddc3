import PdesMas.Lp.RangeGathered
import PdesMas.Lp.RangeRecords

/-!
The anti-message of a range query follows the query. Whoever has an entry of the
query, or has it on its way to him, is pointed at by whoever asked him, or has the
anti-message on its way to him behind it. An anti-message that finds the entries of
the query where it looks for them, and their status where it reads it, takes all of
them away and goes wherever they point.
-/

namespace PdesMas

namespace RangeNetwork

open RangeClp

/-- Behind an anti-message comes no query. -/
def Behind (m m' : RangeMessage) : Prop := (∃ a, m = .anti a) → ∃ a, m' = .anti a

theorem pairwise_behind {l : List RangeMessage} (h : ∀ a, .anti a ∉ l) : l.Pairwise Behind := by
  refine List.pairwise_iff_forall_sublist.mpr fun {m m'} hsub hm => ?_
  obtain ⟨a, rfl⟩ := hm
  exact absurd (hsub.subset List.mem_cons_self) (h a)

theorem pairwise_behind_append {l l' : List RangeMessage} (h : l.Pairwise Behind)
    (hl : ∀ m ∈ l', ∃ a, m = .anti a) : (l ++ l').Pairwise Behind := by
  refine List.pairwise_append.mpr ⟨h, ?_, fun m _ m' hm' _ => hl m' hm'⟩
  exact List.pairwise_of_forall_mem_list fun m _ m' hm' _ => hl m' hm'

namespace Inquiry

variable {numberOfClps : Nat} {alpToClpMap : Std.TreeMap Nat Nat}
  {I : Inquiry numberOfClps alpToClpMap} {net net' : RangeNetwork}
  {prog prog' : Plan.Progress Nat} {e : Event} {o : Output} {visited : Nat → Prop}

def Marked (I : Inquiry numberOfClps alpToClpMap) (net : RangeNetwork) (c : Nat) : Prop :=
  ∃ port, ∃ entry ∈ (net.clp c).recordedAt port, entry.identifier = I.identifier

/-- Whoever asked `c` has it in his table that he did. -/
def Points (I : Inquiry numberOfClps alpToClpMap) (net : RangeNetwork) (c : Nat) : Prop :=
  c ≠ I.root → ∃ entry ∈ (net.clp (I.asker c)).recordedAt (RouteTable.portOf (I.asker c) c),
    entry.identifier = I.identifier ∧ entry.blockStatus = false

/-- The anti-message is on its way to `c`. -/
def Chased (I : Inquiry numberOfClps alpToClpMap) (net : RangeNetwork) (c : Nat) : Prop :=
  ∃ m, .anti m ∈ traffic I.identifier (net.pipe (I.asker c) c)

/-- How query and anti-message stand when the anti-message has been to those in `visited`. -/
structure Standing (I : Inquiry numberOfClps alpToClpMap) (prog : Plan.Progress Nat)
    (net : RangeNetwork) (visited : Nat → Prop) : Prop where
  entries : ∀ c port entry, c < numberOfClps → entry ∈ (net.clp c).recordedAt port →
    entry.identifier = I.identifier → entry.time = I.timestamp ∧ prog c ≠ .idle ∧
      port ∈ Direction.ports ∧
        (net.clp c).routeTable.getDirectionFromRank I.originalAgent.rank ≠ some port
  free : ∀ c, c < numberOfClps → visited c → prog c ≠ .asked ∧ ¬ I.Marked net c
  up : ∀ c, c < numberOfClps → visited c → visited (I.asker c)
  pointed : ∀ c, c < numberOfClps → prog c = .asked ∨ I.Marked net c →
    I.Chased net c ∨ ¬ visited (I.asker c) ∧ I.Points net c
  antis : ∀ a b m, .anti m ∈ traffic I.identifier (net.pipe a b) →
    m.timestamp = I.timestamp ∧ m.originalAgent = I.originalAgent ∧
      (b < numberOfClps → a = I.asker b ∧ visited a)
  order : ∀ b, b < numberOfClps →
    (traffic I.identifier (net.pipe (I.asker b) b)).Pairwise Behind

/-- A step that changes no entry and takes no anti-message from a CLP. -/
theorem Standing.congr (h : I.Standing prog net visited)
    (hentries : ∀ c port entry, c < numberOfClps → entry.identifier = I.identifier →
      (entry ∈ (net'.clp c).recordedAt port ↔ entry ∈ (net.clp c).recordedAt port))
    (hfixed : ∀ c, Fixed (net.clp c) (net'.clp c))
    (hidle : ∀ c, prog c ≠ .idle → prog' c ≠ .idle)
    (hasked : ∀ c, prog' c = .asked ↔ prog c = .asked)
    (hantis : ∀ a b m, .anti m ∈ traffic I.identifier (net'.pipe a b) →
      .anti m ∈ traffic I.identifier (net.pipe a b))
    (hkept : ∀ a b m, b < numberOfClps → .anti m ∈ traffic I.identifier (net.pipe a b) →
      .anti m ∈ traffic I.identifier (net'.pipe a b))
    (horder : ∀ b, b < numberOfClps →
      (traffic I.identifier (net'.pipe (I.asker b) b)).Pairwise Behind) :
    I.Standing prog' net' visited := by
  have hmarked : ∀ c, c < numberOfClps → I.Marked net' c → I.Marked net c := by
    intro c hc hmarked
    obtain ⟨port, entry, hin, hid⟩ := hmarked
    exact ⟨port, entry, (hentries c port entry hc hid).mp hin, hid⟩
  refine ⟨fun c port entry hc hin hid => ?_, fun c hc hvisited => ?_, h.up, fun c hc hpremise => ?_,
    fun a b m hm => h.antis a b m (hantis a b m hm), horder⟩
  · obtain ⟨htime, hreached, hport, haway⟩ :=
      h.entries c port entry hc ((hentries c port entry hc hid).mp hin) hid
    refine ⟨htime, hidle c hreached, hport, ?_⟩
    rw [(hfixed c).routeTable]
    exact haway
  · obtain ⟨hnot, hnone⟩ := h.free c hc hvisited
    exact ⟨fun heq => hnot ((hasked c).mp heq), fun hm => hnone (hmarked c hc hm)⟩
  · have hbefore : prog c = .asked ∨ I.Marked net c :=
      hpremise.imp (hasked c).mp (hmarked c hc)
    cases h.pointed c hc hbefore with
    | inl hchased =>
        obtain ⟨m, hm⟩ := hchased
        exact .inl ⟨m, hkept _ c m hc hm⟩
    | inr hpoints =>
        refine .inr ⟨hpoints.1, fun hroot => ?_⟩
        obtain ⟨entry, hin, hid, hstatus⟩ := hpoints.2 hroot
        have hasker : I.asker c < numberOfClps := by
          by_contra hge
          exact hroot (eq_root_of_asker_ge hc (Nat.le_of_not_lt hge)).1
        exact ⟨entry, (hentries _ _ entry hasker hid).mpr hin, hid, hstatus⟩

theorem Standing.alike (h : I.Standing prog net visited)
    (halike : Alike numberOfClps I.identifier net net')
    (hfixed : ∀ c, Fixed (net.clp c) (net'.clp c)) : I.Standing prog net' visited := by
  refine h.congr halike.entries hfixed (fun _ => id) (fun _ => Iff.rfl) (fun a b m hm => ?_)
    (fun a b m _ hm => ?_) fun b hb => ?_
  · rwa [halike.traffic] at hm
  · rwa [halike.traffic]
  · rw [halike.traffic]
    exact h.order b hb

section Serve

variable {source c : Nat} {front back : List RangeMessage} {m : RangeQueryMessage}
  {c' : RangeClp} {sent : List RangeQueryMessage}

/-- The network when the CLP has done its work on a query message. -/
def afterServe (net : RangeNetwork) (source c : Nat) (rest : List RangeMessage) (c' : RangeClp)
    (sent : List RangeQueryMessage) : RangeNetwork :=
  (({ net with pipe := net.pipe.put source c rest } : RangeNetwork).setClp c c').send c
    (sent.map .query)

theorem traffic_afterServe (c' : RangeClp) (sent : List RangeQueryMessage)
    (hpipe : net.pipe source c = front ++ .query m :: back) (i a b : Nat) :
    ∃ l, l.Sublist (traffic i (net.pipe a b)) ∧
      (∀ x, .anti x ∈ traffic i (net.pipe a b) → .anti x ∈ l) ∧
      traffic i ((afterServe net source c (front ++ back) c' sent).pipe a b) = l ++
        if a = c then traffic i ((sent.map RangeMessage.query).filter fun q => q.destination = b)
        else [] := by
  have hput : ∃ l, l = traffic i (net.pipe.put source c (front ++ back) a b) ∧
      l.Sublist (traffic i (net.pipe a b)) ∧
      ∀ x, .anti x ∈ traffic i (net.pipe a b) → .anti x ∈ l := by
    refine ⟨_, rfl, ?_⟩
    simp only [Pipes.put]
    split
    · rename_i heq
      rw [heq.1, heq.2, hpipe]
      constructor
      · exact ((List.Sublist.refl front).append (List.sublist_cons_self _ _)).filter _
      · intro x hx
        obtain ⟨hx, hid⟩ := mem_traffic.mp hx
        refine mem_traffic.mpr ⟨?_, hid⟩
        simpa using hx
    · exact ⟨.refl _, fun _ => id⟩
  obtain ⟨l, hl, hsub, hkeep⟩ := hput
  refine ⟨l, hsub, hkeep, ?_⟩
  rw [afterServe, pipe_send, pipe_setClp]
  split
  · rw [traffic_append, hl]
  · rw [List.append_nil, hl]

theorem anti_mem_afterServe (hpipe : net.pipe source c = front ++ .query m :: back)
    {i a b : Nat} {x : RangeQueryAntiMessage} :
    .anti x ∈ traffic i ((afterServe net source c (front ++ back) c' sent).pipe a b) ↔
      .anti x ∈ traffic i (net.pipe a b) := by
  obtain ⟨l, hsub, hkeep, heq⟩ := traffic_afterServe c' sent hpipe i a b
  rw [heq, List.mem_append]
  constructor
  · intro hx
    cases hx with
    | inl hx => exact hsub.subset hx
    | inr hx =>
        split at hx
        · have hin := (List.mem_filter.mp (mem_traffic.mp hx).1).1
          simp at hin
        · cases hx
  · exact fun hx => .inl (hkeep x hx)

theorem order_afterServe (hpipe : net.pipe source c = front ++ .query m :: back) {i a b : Nat}
    (h : (traffic i (net.pipe a b)).Pairwise Behind)
    (hc : a = c → (∀ x, .anti x ∉ traffic i (net.pipe a b)) ∨
      ∀ q ∈ sent, q.destination ≠ b) :
    (traffic i ((afterServe net source c (front ++ back) c' sent).pipe a b)).Pairwise
      Behind := by
  by_cases hanti : ∀ x, .anti x ∉ traffic i (net.pipe a b)
  · exact pairwise_behind fun x hx => hanti x ((anti_mem_afterServe hpipe).mp hx)
  · obtain ⟨l, hsub, _, heq⟩ := traffic_afterServe c' sent hpipe i a b
    rw [heq]
    split
    · rename_i hac
      have hnone : (sent.map RangeMessage.query).filter (fun q => q.destination = b) = [] := by
        rw [List.filter_eq_nil_iff]
        intro q hq hdestination
        obtain ⟨q', hq', rfl⟩ := List.mem_map.mp hq
        exact (hc hac).resolve_left hanti q' hq' (of_decide_eq_true hdestination)
      rw [hnone]
      exact (List.append_nil l).symm ▸ h.sublist hsub
    · exact (List.append_nil l).symm ▸ h.sublist hsub

end Serve

section Query

variable {source c : Nat} {front back : List RangeMessage} {m : RangeQueryMessage} {r : Served}

/-- The table of a CLP that is not at work is as it was. -/
theorem recordedAt_afterServe {c' : RangeClp} {sent : List RangeQueryMessage}
    {rest : List RangeMessage} (x : Nat) (port : Direction) :
    ((afterServe net source c rest c' sent).clp x).recordedAt port =
      if x = c then c'.recordedAt port else (net.clp x).recordedAt port := by
  rw [afterServe, clp_send, clp_setClp]
  split <;> rfl

/-- The question is recorded, and points at those it is handed on to. -/
theorem Standing.question (h : I.Standing prog net visited) (hinstep : I.InStep prog net)
    (hw : Wired numberOfClps alpToClpMap net) {s : Service}
    (hpipe : net.pipe source c = front ++ .query m :: back) (hm : I.About m)
    (hphase : prog c = .asked)
    (hr : (net.clp c).serve m.incrementNumberOfHops.incrementNumberOfTraverseHops = some r)
    (hfirst : I.first c = some s) (hforwarded : s.forwarded = r.forwarded)
    (hfixed : ∀ x, Fixed (net.clp x)
      ((afterServe net source c (front ++ back) r.clp (r.forwarded ++ r.responses)).clp x)) :
    I.Standing (I.plan.receiveQuestion prog c)
      (afterServe net source c (front ++ back) r.clp (r.forwarded ++ r.responses)) visited := by
  have hc : c < numberOfClps := hinstep.lt_of_phase (by simp [hphase])
  have habout : I.About m.incrementNumberOfHops.incrementNumberOfTraverseHops :=
    ⟨hm.identifier, hm.timestamp, hm.originalAgent, hm.range⟩
  obtain ⟨incomingPort, hdirection, htakes, hfresh⟩ :=
    hinstep.takes hw hphase habout hr hfirst hforwarded
  have hself : I.plan.receiveQuestion prog c c = .settle (I.forward c) [c] :=
    Plan.receiveQuestion_self prog c
  have hsettled : I.plan.receiveQuestion prog c c ≠ .asked ∧
      I.plan.receiveQuestion prog c c ≠ .idle := by
    rw [hself]
    cases I.forward c <;> simp [Plan.Phase.settle]
  have hother : ∀ x, x ≠ c → x ∉ I.forward c → I.plan.receiveQuestion prog c x = prog x :=
    fun x hx hx' => Plan.receiveQuestion_other hx hx'
  have hfree : ¬ visited c := fun hvisited => (h.free c hc hvisited).1 hphase
  have hgrow : ∀ x port entry, entry ∈ (net.clp x).recordedAt port → entry ∈ ((afterServe net source
      c (front ++ back) r.clp (r.forwarded ++ r.responses)).clp x).recordedAt port := by
    intro x port entry hin
    rw [recordedAt_afterServe]
    split
    · rename_i heq
      rw [heq] at hin
      exact (hfresh.tables.mem_recordedAt port entry).mpr (.inl hin)
    · exact hin
  have hmarked : ∀ x, x ≠ c → I.Marked (afterServe net source c (front ++ back) r.clp
      (r.forwarded ++ r.responses)) x → I.Marked net x := by
    intro x hx hmarked
    obtain ⟨port, entry, hin, hid⟩ := hmarked
    rw [recordedAt_afterServe, if_neg hx] at hin
    exact ⟨port, entry, hin, hid⟩
  have hpoints : ∀ x, I.Chased net x ∨ ¬ visited (I.asker x) ∧ I.Points net x →
      I.Chased (afterServe net source c (front ++ back) r.clp (r.forwarded ++ r.responses)) x ∨
        ¬ visited (I.asker x) ∧ I.Points (afterServe net source c (front ++ back) r.clp
          (r.forwarded ++ r.responses)) x := by
    intro x hx
    cases hx with
    | inl hchased =>
        obtain ⟨a, ha⟩ := hchased
        exact .inl ⟨a, (anti_mem_afterServe hpipe).mpr ha⟩
    | inr hpoints =>
        refine .inr ⟨hpoints.1, fun hroot => ?_⟩
        obtain ⟨entry, hin, hstatus⟩ := hpoints.2 hroot
        exact ⟨entry, hgrow _ _ entry hin, hstatus⟩
  refine ⟨fun x port entry hx hin hid => ?_, fun x hx hvisited => ?_, h.up,
    fun x hx hpremise => ?_, fun a b y hy => h.antis a b y ((anti_mem_afterServe hpipe).mp hy),
    fun b hb => ?_⟩
  · by_cases hxc : x = c
    · subst hxc
      rw [(hfixed x).routeTable]
      rw [recordedAt_afterServe, if_pos rfl, hfresh.tables.mem_recordedAt] at hin
      cases hin with
      | inl hin =>
          obtain ⟨htime, _, haway⟩ := h.entries x port entry hx hin hid
          exact ⟨htime, hsettled.2, haway⟩
      | inr hnew =>
          obtain ⟨hport, _, rfl⟩ := hnew
          obtain ⟨hmem, hother⟩ := mem_otherPorts.mp hport
          refine ⟨hm.timestamp, hsettled.2, hmem, fun heq => ?_⟩
          rw [hdirection] at heq
          exact hother (Option.some.inj heq).symm
    · rw [(hfixed x).routeTable]
      rw [recordedAt_afterServe, if_neg hxc] at hin
      obtain ⟨htime, hreached, haway⟩ := h.entries x port entry hx hin hid
      refine ⟨htime, ?_, haway⟩
      rw [Plan.receiveQuestion, if_neg hxc]
      split
      · simp
      · exact hreached
  · have hxc : x ≠ c := fun heq => hfree (heq ▸ hvisited)
    obtain ⟨hnot, hnone⟩ := h.free x hx hvisited
    refine ⟨?_, fun hm => hnone (hmarked x hxc hm)⟩
    have hx' : x ∉ I.forward c := fun hin => hfree (I.asker_of_mem hin ▸ h.up x hx hvisited)
    rwa [hother x hxc hx']
  · by_cases hxc : x = c
    · subst hxc
      exact hpoints x (h.pointed x hx (.inl hphase))
    · by_cases hx' : x ∈ I.forward c
      · -- the query goes on to `x` through a port that is not blocked
        have hasker : I.asker x = c := I.asker_of_mem hx'
        obtain ⟨hport, hasks⟩ := (htakes.asks_iff _).mpr ⟨x, hx', rfl⟩
        refine .inr ⟨by rwa [hasker], fun _ => ?_⟩
        refine ⟨(net.clp c).entry m.incrementNumberOfHops.incrementNumberOfTraverseHops
          (RouteTable.portOf c x), ?_, hm.identifier, ?_⟩
        · rw [hasker, recordedAt_afterServe, if_pos rfl, hfresh.tables.mem_recordedAt]
          simp only [asks, Bool.and_eq_true] at hasks
          exact .inr ⟨hport, hasks.1, rfl⟩
        · simp only [asks, Bool.and_eq_true] at hasks
          simp [RangeClp.entry, hasks.2.1]
      · rw [hother x hxc hx'] at hpremise
        exact hpoints x (h.pointed x hx (hpremise.imp_right (hmarked x hxc)))
  · refine order_afterServe hpipe (h.order b hb) fun hbc => .inl fun y hy => ?_
    have hvisited := ((h.antis _ b y hy).2.2 hb).2
    exact hfree (hbc ▸ hvisited)

/-- An answer leaves the entries alone. -/
theorem Standing.answer (h : I.Standing prog net visited) (hinstep : I.InStep prog net)
    (hw : Wired numberOfClps alpToClpMap net) {d : Nat} {pending noted answer : List Nat}
    (hpipe : net.pipe d c = front ++ .query m :: back) (hm : I.About m)
    (horigin : m.origin = d) (hmap : ∀ x : SsvId, m.ssvValueList[x]? = I.collected answer x)
    (hd : d ∈ I.forward c) (hwaits : prog c = .waiting pending noted)
    (hphase : prog d = .answered answer)
    (hr : (net.clp c).serve m.incrementNumberOfHops.incrementNumberOfTraverseHops = some r)
    (hfixed : ∀ x, Fixed (net.clp x)
      ((afterServe net d c (front ++ back) r.clp (r.forwarded ++ r.responses)).clp x)) :
    I.Standing (I.plan.receiveAnswer prog d pending noted answer)
      (afterServe net d c (front ++ back) r.clp (r.forwarded ++ r.responses)) visited := by
  have hc : c < numberOfClps := hinstep.lt_of_phase (by simp [hwaits])
  have habout : I.About m.incrementNumberOfHops.incrementNumberOfTraverseHops :=
    ⟨hm.identifier, hm.timestamp, hm.originalAgent, hm.range⟩
  obtain ⟨_, _, incomingPort, _, _, _, _, hback, ⟨t, ht⟩, hnone, _, houtcome, _⟩ :=
    hinstep.replied hw hphase (I.asker_of_mem hd) hc habout horigin hmap hr
  have hreached : ∀ x, prog x ≠ .idle →
      I.plan.receiveAnswer prog d pending noted answer x ≠ .idle := by
    intro x hx
    by_cases hxd : x = d
    · simp [hxd]
    · by_cases hxc : x = c
      · rw [hxc, Plan.receiveAnswer_asker hd]
        cases pending.erase d <;> simp [Plan.Phase.settle]
      · rwa [Plan.receiveAnswer_other hd hxd hxc]
  refine h.congr (fun x port entry _ _ => ?_) hfixed hreached
    (Plan.receiveAnswer_asked hd hphase hwaits)
    (fun a b y hy => (anti_mem_afterServe hpipe).mp hy)
    (fun a b y _ hy => (anti_mem_afterServe hpipe).mpr hy) fun b hb => ?_
  · rw [recordedAt_afterServe, ht]
    split
    · rename_i heq
      rw [heq]
      rfl
    · exact Iff.rfl
  · refine order_afterServe hpipe (h.order b hb) fun hbc => .inr fun q hq hdestination => ?_
    -- whoever is asked by `c` is not the one `c` answers to
    rw [hnone, List.nil_append] at hq
    have hanswer : some q.destination = some (I.asker c) := by
      generalize r.responses = l at houtcome hq
      cases houtcome with
      | waiting => cases hq
      | answered _ _ hanswer =>
          rw [List.mem_singleton.mp hq, ← hback]
          exact hanswer.destination.symm
    have hasker : I.asker c = b := (Option.some.inj hanswer).symm.trans hdestination
    have hbelow := hinstep.sound.below c (by simp [hwaits])
    have hmem := I.mem_forward_of_below hbelow hasker hb
    exact asker_ne_of_mem_forward hmem hbc

end Query

/-- What comes to an ALP concerns no CLP. -/
theorem Standing.toAlp (h : I.Standing prog net visited) {source target : Nat}
    {front back : List RangeMessage} {m : RangeMessage} (htarget : numberOfClps ≤ target)
    (hpipe : net.pipe source target = front ++ m :: back)
    (hidle : ∀ c, prog c ≠ .idle → prog' c ≠ .idle)
    (hasked : ∀ c, prog' c = .asked ↔ prog c = .asked) :
    I.Standing prog' { net with pipe := net.pipe.put source target (front ++ back) } visited := by
  have hlinks : ∀ a b, b < numberOfClps →
      net.pipe.put source target (front ++ back) a b = net.pipe a b := by
    intro a b hb
    refine Pipes.put_of_ne _ _ fun heq => ?_
    omega
  refine h.congr (fun _ _ _ _ _ => Iff.rfl) (fun _ => ⟨rfl, rfl, rfl, fun _ => rfl⟩) hidle hasked
    (fun a b y hy => ?_) (fun a b y hb hy => ?_) fun b hb => ?_
  · obtain ⟨hy, hid⟩ := mem_traffic.mp hy
    exact mem_traffic.mpr ⟨mem_pipe_taken hpipe hy, hid⟩
  · change _ ∈ traffic _ (net.pipe.put source target (front ++ back) a b)
    rwa [hlinks a b hb]
  · change (traffic _ (net.pipe.put source target (front ++ back) _ b)).Pairwise Behind
    rw [hlinks _ b hb]
    exact h.order b hb

section Undo

variable {source c : Nat} {back : List RangeMessage} {m : RangeQueryAntiMessage}
  {r : RangeClp × List RangeQueryAntiMessage}

/-- The network when the CLP has done its work on an anti-message. -/
def afterUndo (net : RangeNetwork) (source c : Nat) (rest : List RangeMessage)
    (r : RangeClp × List RangeQueryAntiMessage) : RangeNetwork :=
  (({ net with pipe := net.pipe.put source c rest } : RangeNetwork).setClp c r.1).send c
    (r.2.map .anti)

theorem recordedAt_afterUndo {rest : List RangeMessage} (x : Nat) (port : Direction) :
    ((afterUndo net source c rest r).clp x).recordedAt port =
      if x = c then r.1.recordedAt port else (net.clp x).recordedAt port := by
  rw [afterUndo, clp_send, clp_setClp]
  split <;> rfl

theorem traffic_afterUndo (hpipe : net.pipe source c = .anti m :: back) (i a b : Nat) :
    ∃ l, l.Sublist (traffic i (net.pipe a b)) ∧
      (¬ (a = source ∧ b = c) → l = traffic i (net.pipe a b)) ∧
      traffic i ((afterUndo net source c back r).pipe a b) = l ++
        if a = c then traffic i ((r.2.map RangeMessage.anti).filter fun q => q.destination = b)
        else [] := by
  refine ⟨traffic i (net.pipe.put source c back a b), ?_, fun hne => ?_, ?_⟩
  · simp only [Pipes.put]
    split
    · rename_i heq
      rw [heq.1, heq.2, hpipe]
      exact (List.sublist_cons_self _ _).filter _
    · exact .refl _
  · rw [Pipes.put_of_ne _ _ hne]
  · rw [afterUndo, pipe_send, pipe_setClp]
    split
    · rw [traffic_append]
    · rw [List.append_nil]

/-- A CLP that the anti-message comes to has had the query, if it gets it at all. -/
theorem Standing.not_asked (h : I.Standing prog net visited) (hinstep : I.InStep prog net)
    (hc : c < numberOfClps) (hpipe : net.pipe source c = .anti m :: back)
    (hid : m.identifier = I.identifier) :
    source = I.asker c ∧ visited source ∧ prog c ≠ .asked := by
  have hhead : traffic I.identifier (net.pipe source c) =
      .anti m :: traffic I.identifier back := by
    rw [hpipe]
    exact traffic_cons_of_eq back (congrArg some hid)
  have hmem : .anti m ∈ traffic I.identifier (net.pipe source c) := by
    rw [hhead]
    exact List.mem_cons_self
  obtain ⟨hsource, hvisited⟩ := (h.antis source c m hmem).2.2 hc
  refine ⟨hsource, hvisited, fun hphase => ?_⟩
  -- the question would be behind the anti-message
  have horder := h.order c hc
  rw [← hsource, hhead, List.pairwise_cons] at horder
  have hlink := hinstep.links source c
  generalize hqueries : queriesOf I.identifier (net.pipe source c) = l at hlink
  cases hlink with
  | @question q hphase' hasker habout hempty =>
      have hq : q ∈ queriesOf I.identifier (net.pipe source c) := by
        rw [hqueries]
        exact List.mem_cons_self
      rw [mem_queriesOf, hhead] at hq
      cases List.mem_cons.mp hq with
      | inl heq => cases heq
      | inr hin =>
          obtain ⟨a, ha⟩ := horder.1 _ hin ⟨m, rfl⟩
          cases ha
  | answer hanswered hasker =>
      have hbelow := hinstep.sound.below source (by simp [hanswered])
      have hmem := I.mem_forward_of_below hbelow hasker hc
      exact asker_ne_of_mem_forward hmem hsource.symm
  | nothing hquestion => exact hquestion hsource.symm hphase

/-- The anti-message takes the entries of the query away and goes on to those they point at. -/
theorem Standing.undo (h : I.Standing prog net visited) (hinstep : I.InStep prog net)
    (hw : Wired numberOfClps alpToClpMap net) (hcovers : Covers numberOfClps net I.timestamp)
    (hc : c < numberOfClps) (hgvt : (net.clp c).gvt ≤ I.timestamp)
    (hpipe : net.pipe source c = .anti m :: back) (hid : m.identifier = I.identifier)
    (htraces : (net.clp c).Traces I.timestamp I.identifier)
    (hr : (net.clp c).processRangeQueryAnti { m with numberOfHops := m.numberOfHops + 1 } =
      some r)
    (hfixed : ∀ x, Fixed (net.clp x) ((afterUndo net source c back r).clp x)) :
    I.Standing prog (afterUndo net source c back r) fun x => visited x ∨ x = c := by
  obtain ⟨hsource, hvisited, hnotasked⟩ := h.not_asked hinstep hc hpipe hid
  have hmem : .anti m ∈ traffic I.identifier (net.pipe source c) := by
    rw [hpipe]
    exact mem_traffic.mpr ⟨List.mem_cons_self, congrArg some hid⟩
  obtain ⟨htime, hagent, _⟩ := h.antis source c m hmem
  have hspec : ∃ towards,
      (net.clp c).routeTable.getDirectionFromRank I.originalAgent.rank = some towards ∧
        AntiTo (net.clp c) { m with numberOfHops := m.numberOfHops + 1 } towards
          Direction.ports r := by
    cases processRangeQueryAnti_spec hr with
    | inl hearly =>
        have hlt : m.timestamp < (net.clp c).gvt := hearly.1
        omega
    | inr hundo =>
        obtain ⟨_, towards, hdirection, hanti⟩ := hundo
        exact ⟨towards, hagent ▸ hdirection, hanti⟩
  obtain ⟨towards, hdirection, hanti⟩ := hspec
  obtain ⟨back', hdirection', hback⟩ := exists_back I hw hc
  have hback' : back' = towards := Option.some.inj (hdirection'.symm.trans hdirection)
  subst hback'
  have hclean : ¬ I.Marked (afterUndo net source c back r) c := by
    intro hmarked
    obtain ⟨port, entry, hin, hentry⟩ := hmarked
    rw [recordedAt_afterUndo, if_pos rfl] at hin
    obtain ⟨_, _, hports, haway⟩ := h.entries c port entry hc (hanti.mem_recordedAt hin) hentry
    have hport : port ≠ back' := fun heq => haway (heq ▸ hdirection)
    have hperiod : ((net.clp c).rangeTable port).hasRangePeriod m.timestamp = true :=
      htime ▸ hcovers c port hc
    rw [recordedAt, hanti.table, if_pos hports, undone, if_pos ⟨hport, hperiod⟩] at hin
    have hheld : ((net.clp c).rangeTable port).HeldAt m.timestamp m.identifier := by
      rw [htime, hid]
      exact htraces.1 port hports
    exact hheld.delete hperiod hin (hentry.trans hid.symm)
  have hmarked : ∀ x, I.Marked (afterUndo net source c back r) x → x ≠ c ∧ I.Marked net x := by
    intro x hx
    have hne : x ≠ c := fun heq => hclean (heq ▸ hx)
    obtain ⟨port, entry, hin, hentry⟩ := hx
    rw [recordedAt_afterUndo, if_neg hne] at hin
    exact ⟨hne, port, entry, hin, hentry⟩
  refine ⟨fun x port entry hx hin hentry => ?_, fun x hx hvisited' => ?_, fun x hx hvisited' => ?_,
    fun x hx hpremise => ?_, fun a b y hy => ?_, fun b hb => ?_⟩
  · rw [(hfixed x).routeTable]
    refine h.entries x port entry hx ?_ hentry
    rw [recordedAt_afterUndo] at hin
    split at hin
    · rename_i heq
      rw [heq]
      exact hanti.mem_recordedAt hin
    · exact hin
  · cases hvisited' with
    | inl hvisited' =>
        obtain ⟨hnot, hnone⟩ := h.free x hx hvisited'
        exact ⟨hnot, fun hm => hnone (hmarked x hm).2⟩
    | inr heq =>
        rw [heq]
        exact ⟨hnotasked, hclean⟩
  · cases hvisited' with
    | inl hvisited' => exact .inl (h.up x hx hvisited')
    | inr heq =>
        rw [heq, ← hsource]
        exact .inl hvisited
  · have hxc : x ≠ c := by
      intro heq
      cases hpremise with
      | inl hasked => exact hnotasked (heq ▸ hasked)
      | inr hm => exact (hmarked x hm).1 heq
    cases h.pointed x hx (hpremise.imp_right fun hm => (hmarked x hm).2) with
    | inl hchased =>
        obtain ⟨a, ha⟩ := hchased
        obtain ⟨l, _, hl, heq⟩ := traffic_afterUndo (r := r) hpipe I.identifier (I.asker x) x
        refine .inl ⟨a, ?_⟩
        rw [heq, hl fun hlink => hxc hlink.2]
        exact List.mem_append_left _ ha
    | inr hpoints =>
        by_cases hasker : I.asker x = c
        · -- the entry points at `x`, so the anti-message goes on to `x`
          left
          have hroot : x ≠ I.root := by
            intro heq
            rw [asker, if_pos heq] at hasker
            have := I.agent_ge
            omega
          obtain ⟨entry, hin, hentry, hstatus⟩ := hpoints.2 hroot
          rw [hasker] at hin
          have hnext : HeapTree.nextHop x I.root = c := by
            rwa [asker, if_neg hroot] at hasker
          have hadj := ((I.away_iff hx).mpr ⟨hroot, hnext⟩).1
          have hhere := RouteTable.portOf_ne_here c x
          obtain ⟨_, _, hports, haway⟩ := h.entries c _ entry hc hin hentry
          have hport : RouteTable.portOf c x ≠ back' := fun heq => haway (heq ▸ hdirection)
          have hread := htraces.2 _ hports hhere ⟨entry, hin, hentry, hstatus⟩
          have hperiod := hcovers c (RouteTable.portOf c x) hc
          have hhands : (net.clp c).handsOn { m with numberOfHops := m.numberOfHops + 1 } back'
              (RouteTable.portOf c x) = true := by
            simp [handsOn, hport, hhere, htime, hid, hread, hperiod]
          obtain ⟨q, hq, rank, hrank, hqeq⟩ :=
            exists_right_of_mem hanti.sent (List.mem_filter.mpr ⟨hports, hhands⟩)
          have hx' := (hw.rankFromDirection hc hx (RouteTable.portOf c x)).mpr ⟨hadj, rfl⟩
          have hdestination : q.destination = x := by
            rw [hqeq]
            exact Option.some.inj (hrank.symm.trans hx')
          obtain ⟨l, _, _, heq⟩ := traffic_afterUndo (r := r) hpipe I.identifier (I.asker x) x
          refine ⟨q, ?_⟩
          rw [heq, if_pos hasker, List.mem_append]
          refine .inr (mem_traffic.mpr ⟨List.mem_filter.mpr ⟨List.mem_map_of_mem hq, ?_⟩, ?_⟩)
          · exact decide_eq_true hdestination
          · rw [hqeq]
            exact congrArg some hid
        · refine .inr ⟨fun hor => hor.elim hpoints.1 hasker, fun hroot => ?_⟩
          obtain ⟨entry, hin, hentry⟩ := hpoints.2 hroot
          exact ⟨entry, by rwa [recordedAt_afterUndo, if_neg hasker], hentry⟩
  · obtain ⟨l, hsub, _, heq⟩ := traffic_afterUndo (r := r) hpipe I.identifier a b
    rw [heq, List.mem_append] at hy
    cases hy with
    | inl hy =>
        obtain ⟨htime', hagent', hb⟩ := h.antis a b y (hsub.subset hy)
        exact ⟨htime', hagent', fun hlt => ⟨(hb hlt).1, .inl (hb hlt).2⟩⟩
    | inr hy =>
        split at hy
        · rename_i hac
          obtain ⟨hin, hdestination⟩ := List.mem_filter.mp (mem_traffic.mp hy).1
          obtain ⟨q, hq, heq⟩ := List.mem_map.mp hin
          cases heq
          obtain ⟨port, hport, rank, hrank, rfl⟩ := exists_left_of_mem hanti.sent hq
          refine ⟨htime, hagent, fun hb => ⟨?_, .inr hac⟩⟩
          have hrank' : rank = b := of_decide_eq_true hdestination
          subst hrank'
          obtain ⟨hadj, hportOf⟩ := (hw.rankFromDirection hc hb port).mp hrank
          have hhands := (List.mem_filter.mp hport).2
          simp only [handsOn, Bool.and_eq_true, decide_eq_true_eq] at hhands
          have hne : rank ≠ I.asker c := fun heq => hhands.1.1.1
            (hportOf.trans ((portOf_eq_back_iff hw hc hback hb hadj).mpr heq))
          obtain ⟨hroot, hnext⟩ := (I.away_iff hb).mp ⟨hadj, hne⟩
          rw [hac, asker, if_neg hroot, hnext]
        · cases hy
  · obtain ⟨l, hsub, _, heq⟩ := traffic_afterUndo (r := r) hpipe I.identifier (I.asker b) b
    rw [heq]
    have horder := (h.order b hb).sublist hsub
    split
    · refine pairwise_behind_append horder fun y hy => ?_
      have hin := (List.mem_filter.mp (mem_traffic.mp hy).1).1
      obtain ⟨q, _, rfl⟩ := List.mem_map.mp hin
      exact ⟨q, rfl⟩
    · rw [List.append_nil]
      exact horder

end Undo

/-- The anti-message is sent on its way. -/
theorem Standing.issue (h : I.Standing prog net visited) (hnone : ∀ x, ¬ visited x)
    {a : RangeQueryAntiMessage} (hid : a.identifier = I.identifier)
    (htimestamp : a.timestamp = I.timestamp)
    (hagent : a.originalAgent = I.originalAgent) (hdestination : a.destination = I.root) :
    I.Standing prog (net.send I.originalAgent.rank [.anti a]) (· = I.originalAgent.rank) := by
  have hasker : I.asker I.root = I.originalAgent.rank := if_pos rfl
  have hge := I.agent_ge
  have htraffic : ∀ x y, traffic I.identifier ((net.send I.originalAgent.rank [.anti a]).pipe x y) =
      traffic I.identifier (net.pipe x y) ++
        if x = I.originalAgent.rank ∧ y = I.root then [.anti a] else [] := by
    intro x y
    have hfilter : traffic I.identifier ([RangeMessage.anti a].filter fun m => m.destination = y) =
        if y = I.root then [.anti a] else [] := by
      have hdestination' : (RangeMessage.anti a).destination = I.root := hdestination
      by_cases hy : y = I.root
      · have hkeep : [RangeMessage.anti a].filter (fun m => m.destination = y) = [.anti a] := by
          simp [hdestination', hy]
        rw [hkeep, if_pos hy]
        exact traffic_cons_of_eq [] (congrArg some hid)
      · have hdrop : [RangeMessage.anti a].filter (fun m => m.destination = y) = [] := by
          simp [hdestination', Ne.symm hy]
        rw [hdrop, if_neg hy]
        rfl
    rw [pipe_send]
    by_cases hx : x = I.originalAgent.rank
    · rw [if_pos hx, traffic_append, hfilter]
      simp [hx]
    · simp [hx]
  refine ⟨h.entries, fun c hc hvisited => ?_, fun c hc hvisited => ?_, fun c hc hpremise => ?_,
    fun x y m hm => ?_, fun b hb => ?_⟩
  · omega
  · omega
  · cases h.pointed c hc hpremise with
    | inl hchased =>
        obtain ⟨m, hm⟩ := hchased
        exact .inl ⟨m, htraffic _ _ ▸ List.mem_append_left _ hm⟩
    | inr hpoints =>
        by_cases hc' : I.asker c = I.originalAgent.rank
        · left
          have hroot := (eq_root_of_asker_ge hc (hc' ▸ hge)).1
          refine ⟨a, ?_⟩
          rw [htraffic, if_pos ⟨hc', hroot⟩]
          exact List.mem_append_right _ List.mem_cons_self
        · exact .inr ⟨hc', hpoints.2⟩
  · rw [htraffic, List.mem_append] at hm
    cases hm with
    | inl hm =>
        obtain ⟨htime, hagent', hb⟩ := h.antis x y m hm
        exact ⟨htime, hagent', fun hlt => absurd (hb hlt).2 (hnone x)⟩
    | inr hm =>
        split at hm
        · rename_i hxy
          cases List.mem_singleton.mp hm
          exact ⟨htimestamp, hagent, fun _ => ⟨by rw [hxy.1, hxy.2, hasker], hxy.1⟩⟩
        · cases hm
  · rw [htraffic]
    split
    · exact pairwise_behind_append (h.order b hb) fun m hm => ⟨a, List.mem_singleton.mp hm⟩
    · rw [List.append_nil]
      exact h.order b hb

end Inquiry

end RangeNetwork
end PdesMas
