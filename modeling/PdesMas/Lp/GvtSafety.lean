import PdesMas.Lp.GvtCuts

/-!
When GVT is a lower bound. The value that ends a round is not above any LVT nor
above the time of any message queued or on the way, provided that nothing has
escaped the cuts of the round: no message that was sent before its sender was
cut is still on the way, and no process has got, kept or queued something that
its last cut did not measure.
-/

namespace PdesMas.Gvt

def Packet.missedBy (history : CutHistory) : Packet → Bool
  | .simulation t => history.misses t
  | .control _ => false

namespace Network

variable {setup : Setup} {net net' : Network} {o : Option Nat}

section Definitions

variable (setup : Setup) (net : Network)

/-- No process but the starter is exposed, and no message on the way is one that a process
with `history` has missed. -/
def NothingEscapes (history : CutHistory) : Prop :=
  (∀ rank, rank < setup.size → rank ≠ 0 → (net.lp rank).history.exposed = false) ∧
    ∀ source, source < setup.size → ∀ target, target < setup.size →
      ∀ packet ∈ net.link source target, packet.missedBy history = false

instance (history : CutHistory) : Decidable (net.NothingEscapes setup history) :=
  inferInstanceAs (Decidable (_ ∧ _))

/-- Where a step ends the round, nothing has escaped its cuts and the queue of the starter
has nothing before the times of its own. -/
def NothingMissed : SystemEvent → Prop
  | .network (.receive rank source _) =>
      ∀ m ∈ (net.link source rank).head?.bind Packet.control?,
        ∀ lvt ∈ (net.lp rank).process.getLvt, m.matternCut = .FIRST →
          (net.lp rank).calculator.endsWithFirstCut lvt m = true →
            (net.lp rank).leaves (Lp.firstCutTimes lvt m) = false ∧
              net.NothingEscapes setup
                { (net.lp rank).history with
                  epoch := (net.lp rank).history.epoch + 1
                  settled := false }
  | .network (.complete rank) =>
      ∀ m ∈ (net.lp rank).awaiting, ∀ lvt ∈ (net.lp rank).process.getLvt,
        (net.lp rank).calculator.isGVTStarter = true →
          (net.lp rank).leaves ((net.lp rank).secondCutTimes lvt m) = false ∧
            net.NothingEscapes setup { (net.lp rank).history with settled := true }
  | _ => True

instance : ∀ e, Decidable (net.NothingMissed setup e)
  | .network (.receive rank source _) =>
      inferInstanceAs (Decidable (∀ m ∈ (net.link source rank).head?.bind Packet.control?,
        ∀ lvt ∈ (net.lp rank).process.getLvt, m.matternCut = .FIRST →
          (net.lp rank).calculator.endsWithFirstCut lvt m = true → _ ∧ _))
  | .network (.complete rank) =>
      inferInstanceAs (Decidable (∀ m ∈ (net.lp rank).awaiting,
        ∀ lvt ∈ (net.lp rank).process.getLvt,
          (net.lp rank).calculator.isGVTStarter = true → _ ∧ _))
  | .network (.agent ..) | .network (.send _) | .network (.request _) | .post .. =>
      inferInstanceAs (Decidable True)

end Definitions

theorem bounds_of_times {gvt : Nat}
    (htimes : ∀ rank, rank < setup.size → (net.lp rank).process.times ⊆ Set.Ici gvt)
    (hflight : ∀ i j t, .simulation t ∈ net.link i j → gvt ≤ t.message.timestamp) :
    net.Bounds setup gvt where
  lvt rank alp lvt hr halp hlvt := by
    have hsubset := htimes rank hr
    rw [halp] at hsubset
    exact hsubset (Alp.getLvt_eq_some hlvt).2
  queued rank hr t ht := htimes rank hr (Process.queued_subset_times ht)
  inFlight := hflight

section Step

variable {rank R p lvt gvt : Nat} {station : Station} {m : GvtControlMessage}

/-- The whole ring but for the starter is behind the bound. -/
theorem Round.within {history : CutHistory} (h : net.Round setup R station m setup.size)
    (hescapes : net.NothingEscapes setup history) :
    net.sites.Within (fun t => t.message.timestamp) (swept setup.size) (counts R m.matternCut)
      (net.bound setup m setup.size) := by
  refine h.sweeping.resolve_left ?_
  rintro ⟨i, hi, hexposed⟩
  rw [hescapes.1 i hi.2 (Nat.ne_of_gt hi.1)] at hexposed
  cases hexposed

theorem NothingEscapes.counts {history : CutHistory} (h : net.NothingEscapes setup history)
    (hlogged : net.Logged setup) {i j : Nat} {t : Transmission}
    (ht : .simulation t ∈ net.link i j) : history.misses t = false := by
  obtain ⟨⟨hi, hj⟩, _⟩ := hlogged i j t ht
  exact h.2 i hi j hj _ ht

theorem bounds_firstCut (h : net.Computing setup) (hr : rank < setup.size)
    (hround : net.Round setup R station m p) (hrank : rank = m.destination)
    (hcut : m.matternCut = .FIRST) (hlvt : (net.lp rank).process.getLvt = some lvt)
    (hc : CutAt net net' rank station ((net.lp rank).calculator.processFirstCut lvt m))
    (hends : (net.lp rank).calculator.endsWithFirstCut lvt m = true)
    (hgvt : ((net.lp rank).calculator.processFirstCut lvt m).gvt = some gvt)
    (hleaves : (net.lp rank).leaves (Lp.firstCutTimes lvt m) = false)
    (hescapes : net.NothingEscapes setup
      { (net.lp rank).history with epoch := (net.lp rank).history.epoch + 1, settled := false }) :
    net'.Bounds setup gvt := by
  obtain ⟨gvt', hfinishes, hminimum, hle⟩ := GvtCalculator.processFirstCut_finishes hends
  obtain rfl : gvt' = gvt := Option.some.inj (hfinishes.gvt.symm.trans hgvt)
  obtain rfl : rank = 0 := h.placed.starter_of_ends hends
  obtain rfl : p = setup.size := hround.toCirculates.size_of_starter hrank
  have hwithin := hround.within hescapes
  simp only [bound, hcut] at hwithin
  refine bounds_of_times ?_ ?_
  · intro i hi
    rw [hc.times i]
    by_cases hi0 : i = 0
    · subst hi0
      have htimes := (measured hlvt (Nat.min_le_right _ _)).resolve_left (by
        rw [← Lp.firstCutTimes, hleaves]
        exact Bool.false_ne_true)
      exact htimes.trans (Set.Ici_subset_Ici.mpr (Nat.le_min.mpr ⟨hminimum, hle⟩))
    · have htimes := hwithin.site i ⟨Nat.pos_of_ne_zero hi0, hi⟩
      exact (Lp.times_process _).trans (htimes.trans (Set.Ici_subset_Ici.mpr hminimum))
  · intro i j t ht
    have hmissed := hescapes.counts h.logged (hc.flight i j t ht)
    have hepoch := (hround.others 0 hr fun hs => Nat.not_succ_le_zero 0 hs.1).1
    simp only [hcut, reduceCtorEq, ite_false] at hepoch
    simp only [CutHistory.misses, hepoch, Bool.false_and, Bool.or_false,
      decide_eq_false_iff_not] at hmissed
    have hcounts : t ∈ counts R .FIRST := ⟨by omega, by simp⟩
    exact hminimum.trans (hwithin.message i j t (hc.flight i j t ht) (hcut ▸ hcounts))

theorem bounds_secondCut (h : net.Computing setup) (hr : rank < setup.size)
    (hround : net.Round setup R station m p) (hrank : rank = m.destination)
    (hcut : m.matternCut = .SECOND) (hlvt : (net.lp rank).process.getLvt = some lvt)
    (hc : CutAt net net' rank station ((net.lp rank).calculator.processSecondCut lvt m))
    (hstarter : (net.lp rank).calculator.isGVTStarter = true)
    (hgvt : ((net.lp rank).calculator.processSecondCut lvt m).gvt = some gvt)
    (hleaves : (net.lp rank).leaves ((net.lp rank).secondCutTimes lvt m) = false)
    (hescapes : net.NothingEscapes setup { (net.lp rank).history with settled := true }) :
    net'.Bounds setup gvt := by
  have hfinishes := GvtCalculator.processSecondCut_finishes lvt m hstarter
  obtain rfl : (net.lp rank).secondCutTimes lvt m = gvt :=
    Option.some.inj (hfinishes.gvt.symm.trans hgvt)
  obtain rfl := h.placed.isGVTStarter.mp hstarter
  obtain rfl : p = setup.size := hround.toCirculates.size_of_starter hrank
  have hbound : net.bound setup m setup.size ⊆ Set.Ici ((net.lp 0).secondCutTimes lvt m) := by
    simp only [bound, hcut]
    rintro t (ht | ht | ⟨i, hi, hs, ht⟩)
    · exact ((Nat.min_le_left _ _).trans (Nat.min_le_left _ _)).trans ht
    · exact ((Nat.min_le_right _ _).trans (Nat.min_le_left _ _)).trans ht
    · obtain rfl : i = 0 := by
        by_contra hi0
        exact hs ⟨Nat.pos_of_ne_zero hi0, hi⟩
      exact ((Nat.min_le_right _ _).trans (Nat.min_le_right _ _)).trans ht
  have hwithin := (hround.within hescapes).widen hbound
  refine bounds_of_times ?_ ?_
  · intro i hi
    rw [hc.times i]
    by_cases hi0 : i = 0
    · subst hi0
      refine (measured hlvt ?_).resolve_left (by rw [hleaves]; exact Bool.false_ne_true)
      exact (Nat.min_le_left _ _).trans (Nat.min_le_right _ _)
    · exact (Lp.times_process _).trans (hwithin.site i ⟨Nat.pos_of_ne_zero hi0, hi⟩)
  · intro i j t ht
    have hmissed := hescapes.counts h.logged (hc.flight i j t ht)
    have hepoch := (hround.others 0 hr fun hs => Nat.not_succ_le_zero 0 hs.1).1
    simp only [hcut, ite_true] at hepoch
    simp only [CutHistory.misses, hepoch, Bool.true_and, Bool.or_eq_false_iff,
      decide_eq_false_iff_not, Bool.not_eq_false'] at hmissed
    have hcounts : t ∈ counts R .SECOND := ⟨by omega, fun _ => hmissed.2⟩
    exact hwithin.message i j t (hc.flight i j t ht) (hcut ▸ hcounts)

end Step

/-- GVT is computed by a step of the network. -/
theorem network_of_computed {e : SystemEvent} {gvt : Nat}
    (h : net.systemStep setup e = some (net', some gvt)) :
    ∃ e', e = .network e' ∧ net.step setup e' = some (net', some gvt) := by
  cases e with
  | network e => exact ⟨e, rfl, h⟩
  | post rank m =>
      obtain ⟨_, h⟩ := Option.ite_none_right_eq_some.mp h
      obtain ⟨lp, _, heq⟩ := Option.map_eq_some_iff.mp h
      cases heq

/-- A step that computes GVT and misses nothing computes a bound. -/
theorem bounds_of_step {e : SystemEvent} {gvt : Nat} (h : net.Computing setup)
    (hstep : net.systemStep setup e = some (net', some gvt))
    (hmissed : net.NothingMissed setup e) : net'.Bounds setup gvt := by
  obtain ⟨e, rfl, hstep⟩ := network_of_computed hstep
  have htransition := transition_of_step hstep
  generalize hsome : some gvt = o at htransition
  cases htransition with
  | agent | sendControl | sendMessage | receiveMessage | receiveValue | await | request =>
      cases hsome
  | @firstCut rank source m rest answers lvt hr hlink hcut hawaiting hlvt =>
      obtain ⟨R, p, hround⟩ := h.round_of_link hlink
      have hends : (net.lp rank).calculator.endsWithFirstCut lvt m = true := by
        by_contra hnot
        obtain ⟨m', hpasses, _⟩ := GvtCalculator.processFirstCut_passes (by simpa using hnot)
        rw [hpasses.gvt] at hsome
        cases hsome
      obtain ⟨hleaves, hescapes⟩ := hmissed m
        (by simp [hlink, Packet.control?, ControlMessage.control?]) lvt hlvt hcut hends
      exact bounds_firstCut h hr hround hround.leadsTo hcut hlvt (cutAt_link hlink) hends
        hsome.symm hleaves hescapes
  | @complete rank m lvt hr hawaiting hlvt =>
      obtain ⟨R, p, hround⟩ := h.round_of_awaiting hawaiting
      have hstarter : (net.lp rank).calculator.isGVTStarter = true := by
        by_contra hnot
        obtain ⟨m', hpasses, _⟩ := GvtCalculator.processSecondCut_passes lvt m
          (by simpa using hnot)
        rw [hpasses.gvt] at hsome
        cases hsome
      obtain ⟨hleaves, hescapes⟩ := hmissed m hawaiting lvt hlvt hstarter
      exact bounds_secondCut h hr hround hround.leadsTo (hround.waits rank rfl) hlvt
        cutAt_awaiting hstarter hsome.symm hleaves hescapes

/-- In every run, whatever its earlier rounds have missed, the value that ends a round in
which nothing is missed is a lower bound. -/
theorem gvt_bounds {net'' : Network} {es : List SystemEvent} {e : SystemEvent}
    {os : List (Option Nat)} {gvt : Nat} (hinitial : net.Initial setup)
    (hrun : (systemMachine setup).run net es = some (net', os))
    (hstep : (systemMachine setup).step net' e = some (net'', some gvt))
    (hmissed : net'.NothingMissed setup e) : net''.Bounds setup gvt :=
  bounds_of_step (computing_of_run hinitial hrun) hstep hmissed

/-- One CLP and one ALP with two agents. -/
def duo : Setup := ⟨2, fun _ => 0⟩

def duoProcess : Nat → Process
  | 0 => .clp 0 []
  | rank => .alp (.create rank 0 1 1 [1, 2])

/-- Both agents write at 5 and are answered behind the control message, so that the round
takes two cuts; the CLP has a rollback to 6 of its own to send. The round lacks its last
step. -/
def answeredInRound : List SystemEvent :=
  let write : RequestKind := .write 7 (.valueINT 1)
  let answer (agent : Nat) : List (Nat × Payload) :=
    [(1, .response ⟨agent, 5, ⟨agent, 1⟩, .writeResponse .writeSUCCESS⟩)]
  [.network (.agent 1 (.timeWrap 1 5)), .network (.agent 1 (.timeWrap 2 5)),
    .network (.agent 1 (.issue 1 write 5)), .network (.agent 1 (.issue 2 write 5)),
    .network (.send 1), .network (.send 1), .network (.receive 0 1 (answer 1)),
    .network (.receive 0 1 (answer 2)), .network (.request 0), .network (.send 0),
    .network (.send 0), .network (.send 0), .network (.receive 1 0 []),
    .network (.receive 1 0 []), .network (.receive 1 0 []),
    .post 0 ⟨1, .WHITE, .rollback ⟨6, ⟨1, 1⟩, ⟨7, 6, 1, 0⟩⟩⟩, .network (.send 1),
    .network (.receive 0 1 []), .network (.send 0), .network (.receive 1 0 []),
    .network (.complete 1), .network (.send 1), .network (.receive 0 1 [])]

theorem initial_duo : (create duo duoProcess).Initial duo := by
  refine initial_create duo ?_
  intro rank
  cases rank <;> rfl

theorem gvt_bounds_answeredInRound : ∃ net os net',
    (systemMachine duo).run (create duo duoProcess) answeredInRound = some (net, os) ∧
      (systemMachine duo).step net (.network (.complete 0)) = some (net', some 5) ∧
        net'.Bounds duo 5 := by
  obtain ⟨net, os, net', hrun, hstep, hmissed⟩ : ∃ net os net',
      (systemMachine duo).run (create duo duoProcess) answeredInRound = some (net, os) ∧
        (systemMachine duo).step net (.network (.complete 0)) = some (net', some 5) ∧
          net.NothingMissed duo (.network (.complete 0)) := ⟨_, _, _, rfl, rfl, by decide⟩
  exact ⟨net, os, net', hrun, hstep, gvt_bounds initial_duo hrun hstep hmissed⟩

/-- A CLP and two ALPs with an agent each. -/
def trio : Setup := ⟨3, fun _ => 0⟩

def trioProcess : Nat → Process
  | 0 => .clp 0 []
  | rank => .alp (.create rank 0 1 2 [1])

/-- The agent of the second ALP writes at 5 and goes on to 20; the agent of the first is at
10 when GVT is computed, and the rollback to 5 for it still in the queue of the CLP. -/
def rollbackQueued : List Event :=
  [.agent 1 (.timeWrap 1 10), .agent 2 (.timeWrap 1 5),
    .agent 2 (.issue 1 (.write 7 (.valueINT 1)) 5), .send 2,
    .receive 0 2 [(2, .response ⟨3, 5, ⟨1, 2⟩, .writeResponse .writeSUCCESS⟩),
      (1, .rollback ⟨5, ⟨1, 1⟩, ⟨7, 5, 1, 0⟩⟩)],
    .send 0, .receive 2 0 [], .agent 2 (.consume 1), .agent 2 (.timeWrap 1 14), .request 0,
    .send 0, .receive 1 0 [], .send 1, .receive 2 1 [], .send 2, .receive 0 2 []]

theorem gvt_passes_rollback : (create trio trioProcess).Initial trio ∧
    ∃ net, (systemMachine trio).run (create trio trioProcess) (rollbackQueued.map .network) =
        some (net, List.replicate 15 none ++ [some 10]) ∧ ¬ net.Bounds trio 10 := by
  refine ⟨initial_create trio ?_, _, rfl, ?_⟩
  · intro rank
    cases rank <;> rfl
  · intro h
    exact absurd (h.queued 0 (by decide) 5 (by decide)) (by decide)

end Network
end PdesMas.Gvt
