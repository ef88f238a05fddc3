import PdesMas.Lp.GvtRounds

/-!
The steps in which a cut passes a process. Both cuts take the control message,
measure the process against it, and either hand it on or, at the starter, turn
to the other cut or end the round.
-/

namespace PdesMas.Gvt.Network

variable {setup : Setup} {net net' : Network} {e : Event} {o : Option Nat}

/-- The control message is taken from `station` by `rank`, which turns to what its
calculator makes of it. -/
structure CutAt (net net' : Network) (rank : Nat) (station : Station)
    (outcome : GvtCalculator.Outcome) : Prop where
  apart : station ≠ .queue rank
  taken : ∀ m, Token.At net.controls station m → net'.controls station = []
  queue : net'.controls (.queue rank) =
    net.controls (.queue rank) ++ outcome.queued.filterMap ControlMessage.control?
  frame : ∀ s, s ≠ station → s ≠ .queue rank → net'.controls s = net.controls s
  calculator : (net'.lp rank).calculator = outcome.calculator
  others : ∀ i, i ≠ rank → net'.lp i = net.lp i
  times : ∀ i, (net'.lp i).process.times = (net.lp i).process.times
  flight : ∀ i j t, .simulation t ∈ net'.link i j → .simulation t ∈ net.link i j

theorem apply_times (lp : Lp) (outcome : GvtCalculator.Outcome) :
    (lp.apply outcome).process.times = lp.process.times := by
  simp only [Lp.apply]
  split
  · rfl
  · exact Process.times_setGvt _ _

theorem cutAt_link {rank source : Nat} {m : GvtControlMessage} {rest : List Packet}
    {outcome : GvtCalculator.Outcome} {history : CutHistory}
    (hlink : net.link source rank = .control (.control m) :: rest) :
    CutAt net
      { net.setLp rank { (net.lp rank).apply outcome with history := history } with
        link := net.link.put source rank rest } rank (.link source rank) outcome where
  apart := nofun
  taken m' htoken := by
    obtain ⟨_, _, hrest⟩ := htoken.of_cons (controls_of_link hlink)
    simpa [controls] using hrest
  queue := by simp [controls, Lp.apply]
  frame s hs hs' := by
    refine controls_frame s (fun hsame => absurd hsame hs') (fun _ => rfl) ?_
    intro i j hsame
    rw [Pipes.put_of_ne]
    rintro ⟨rfl, rfl⟩
    exact hs hsame
  calculator := by simp [Lp.apply]
  others i hi := setLp_lp_of_ne net _ hi
  times i := by
    by_cases hi : i = rank
    · subst hi
      simpa using apply_times _ outcome
    · simp only [setLp_lp_of_ne net _ hi]
  flight _ _ _ := Pipes.mem_put_tail hlink

theorem cutAt_awaiting {rank : Nat} {outcome : GvtCalculator.Outcome} {history : CutHistory} :
    CutAt net
      (net.setLp rank { (net.lp rank).apply outcome with awaiting := none, history := history })
      rank (.awaiting rank) outcome where
  apart := nofun
  taken _ _ := by simp [controls]
  queue := by simp [controls, Lp.apply]
  frame s hs hs' :=
    controls_frame s (fun hsame => absurd hsame hs') (fun hsame => absurd hsame hs)
      fun _ _ _ => rfl
  calculator := by simp [Lp.apply]
  others i hi := setLp_lp_of_ne net _ hi
  times i := by
    by_cases hi : i = rank
    · subst hi
      simpa using apply_times _ outcome
    · simp only [setLp_lp_of_ne net _ hi]
  flight _ _ _ ht := ht

section CutAt

variable {rank R p : Nat} {station : Station} {outcome : GvtCalculator.Outcome}
  {m m' : GvtControlMessage}

theorem CutAt.placed (hc : CutAt net net' rank station outcome) (h : net.Placed setup)
    (hrank : outcome.calculator.rank = (net.lp rank).calculator.rank)
    (hsize : outcome.calculator.size = (net.lp rank).calculator.size) : net'.Placed setup := by
  intro i
  by_cases hi : i = rank
  · subst hi
    rw [hc.calculator, hrank, hsize]
    exact h i
  · rw [hc.others i hi]
    exact h i

/-- The starter ends the round. -/
theorem CutAt.idle {gvt : Nat} (hc : CutAt net net' 0 station outcome)
    (htoken : Token.At net.controls station m)
    (hfinishes : outcome.Finishes (net.lp 0).calculator gvt)
    (hepoch : ∀ i, i < setup.size → (net'.lp i).history.epoch = R) : net'.Idle setup R where
  token := by
    refine htoken.remove (hc.taken m htoken) ?_
    intro s hs
    by_cases hqueue : s = .queue 0
    · rw [hqueue, hc.queue, hfinishes.queued, List.append_nil]
    · exact hc.frame s hs hqueue
  accepting := by rw [hc.calculator, hfinishes.accepting]
  epoch := hepoch

theorem CutAt.token (hc : CutAt net net' rank station outcome)
    (htoken : Token.At net.controls station m)
    (hpasses : outcome.Passes (net.lp rank).calculator m') :
    Token.At net'.controls (.queue rank) m' := by
  refine htoken.move (hc.taken m htoken) ?_ hc.frame
  rw [hc.queue, htoken.empty hc.apart.symm, hpasses.queued]
  rfl

/-- Who has the message takes it as the starter or as the next in the ring. -/
theorem Circulates.rank_eq (h : Circulates setup net R station m p)
    (hrank : rank = m.destination) : rank = 0 ∧ p = setup.size ∨ rank = p ∧ p < setup.size := by
  obtain ⟨_, hle, hdestination⟩ := h.position
  cases Nat.lt_or_eq_of_le hle with
  | inl hlt =>
      rw [Nat.mod_eq_of_lt hlt] at hdestination
      exact .inr ⟨hrank.trans hdestination, hlt⟩
  | inr heq =>
      rw [heq, Nat.mod_self] at hdestination
      exact .inl ⟨hrank.trans hdestination, heq⟩

theorem zero_not_swept (p : Nat) : (0 : Nat) ∉ swept p := fun hs => Nat.not_succ_le_zero 0 hs.1

theorem Placed.isGVTStarter (h : net.Placed setup) :
    (net.lp rank).calculator.isGVTStarter = true ↔ rank = 0 := by
  rw [GvtCalculator.isGVTStarter, (h rank).1]
  exact beq_iff_eq

theorem Placed.starter_of_ends {lvt : Nat} (h : net.Placed setup)
    (hends : (net.lp rank).calculator.endsWithFirstCut lvt m = true) : rank = 0 := by
  simp only [GvtCalculator.endsWithFirstCut, Bool.and_eq_true] at hends
  exact h.isGVTStarter.mp hends.1

theorem Circulates.not_swept (h : Circulates setup net R station m p)
    (hrank : rank = m.destination) : rank ∉ swept p := by
  cases h.rank_eq hrank with
  | inl hstarter =>
      rw [hstarter.1]
      exact zero_not_swept p
  | inr hnext => exact fun hs => Nat.ne_of_lt hs.2 hnext.1

theorem Circulates.size_pos (h : Circulates setup net R station m p) : 0 < setup.size :=
  h.position.1.trans h.position.2.1

/-- In the second cut everybody has made the first. -/
theorem Circulates.epoch_of_second (h : Circulates setup net R station m p)
    (hcut : m.matternCut = .SECOND) {i : Nat} (hi : i < setup.size) :
    (net.lp i).history.epoch = R + 1 := by
  by_cases hs : i ∈ swept p
  · exact (h.passed i hs).1
  · simpa [hcut] using (h.others i hi hs).1

/-- The message is back at the starter when it has been at all. -/
theorem Circulates.size_of_starter (h : Circulates setup net R station m p)
    (hstarter : 0 = m.destination) : p = setup.size := by
  cases h.rank_eq hstarter with
  | inl hstarter => exact hstarter.2
  | inr hnext =>
      have := h.position.1
      omega

theorem swept_succ_subset (p : Nat) : swept (p + 1) ⊆ insert p (swept p) := by
  intro i hi
  obtain ⟨hone, hlt⟩ := hi
  rcases Nat.lt_or_eq_of_le (Nat.le_of_lt_succ hlt) with hlt | heq
  · exact .inr ⟨hone, hlt⟩
  · exact .inl heq

theorem swept_subset_succ (p : Nat) : swept p ⊆ swept (p + 1) :=
  fun _ hi => ⟨hi.1, Nat.lt_succ_of_lt hi.2⟩

theorem swept_one : swept 1 = ∅ := by
  ext i
  simp [swept]
  omega

/-- The cut goes on past `p`, which is then exposed or behind the new bound. -/
theorem CutAt.sweeping (hc : CutAt net net' p station outcome) (hp : 1 ≤ p)
    (h : net.Sweeping setup R m p) (hcut : m'.matternCut = m.matternCut)
    (hbound : net.bound setup m p ⊆ net'.bound setup m' (p + 1))
    (hmeasured : (net'.lp p).history.exposed = true ∨
      (net'.lp p).times ⊆ net'.bound setup m' (p + 1)) :
    net'.Sweeping setup R m' (p + 1) := by
  rcases h with ⟨i, hi, hexposed⟩ | hwithin
  · refine .inl ⟨i, swept_subset_succ p hi, ?_⟩
    rwa [hc.others i (Nat.ne_of_lt hi.2)]
  · rcases hmeasured with hexposed | hmeasured
    · exact .inl ⟨p, ⟨hp, Nat.lt_succ_self p⟩, hexposed⟩
    · right
      rw [hcut]
      refine ((hwithin.widen hbound).advance (isUpperSet_bound m' (p + 1)) ?_ ?_).visit
        (swept_succ_subset p) hmeasured
      · intro i hi
        simp only [sites, hc.others i (Nat.ne_of_lt hi.2)]
        exact subset_upperClosure
      · exact fun i j t ht => .inl (hc.flight i j t ht)

/-- A process that is not the starter hands the message on. -/
theorem CutAt.circulates (hc : CutAt net net' p station outcome) (hlt : p < setup.size)
    (h : Circulates setup net R station m p) (hplaced : net.Placed setup)
    (hpasses : outcome.Passes (net.lp p).calculator m') (hcut : m'.matternCut = m.matternCut)
    (hhistory : (net'.lp p).history.epoch = R + 1 ∧
      (net'.lp p).history.settled = decide (m.matternCut = .SECOND)) :
    Circulates setup net' R (.queue p) m' (p + 1) where
  token := hc.token h.token hpasses
  leadsTo := trivial
  waits := nofun
  position := by
    refine ⟨Nat.le_add_left 1 p, hlt, ?_⟩
    rw [hpasses.destination, GvtCalculator.nextLpInRing, (hplaced p).1, (hplaced p).2]
  busy := by
    rw [hc.others 0 (Nat.ne_of_lt h.position.1)]
    exact h.busy
  passed i hi := by
    rw [hcut]
    cases swept_succ_subset p hi with
    | inl heq =>
        subst heq
        exact hhistory
    | inr hi =>
        rw [hc.others i (Nat.ne_of_lt hi.2)]
        exact h.passed i hi
  others i hi hs := by
    have hne : i ≠ p := fun heq => hs ⟨heq ▸ h.position.1, heq ▸ Nat.lt_succ_self p⟩
    rw [hc.others i hne, hcut]
    exact h.others i hi fun hi' => hs (swept_subset_succ p hi')

/-- The starter ends the first cut and has the second go round. -/
theorem CutAt.turned (hc : CutAt net net' 0 station outcome) (hplaced : net.Placed setup)
    (h : Circulates setup net R station m setup.size) (hcut : m.matternCut = .FIRST)
    (hpasses : outcome.Passes (net.lp 0).calculator m') (hcut' : m'.matternCut = .SECOND)
    (hhistory : (net'.lp 0).history.epoch = R + 1 ∧ (net'.lp 0).history.settled = false) :
    Circulates setup net' R (.queue 0) m' 1 where
  token := hc.token h.token hpasses
  leadsTo := trivial
  waits := nofun
  position := by
    refine ⟨le_refl _, h.position.1, ?_⟩
    rw [hpasses.destination, GvtCalculator.nextLpInRing, (hplaced 0).1, (hplaced 0).2]
  busy := by
    rw [hc.calculator, hpasses.accepting]
    exact h.busy
  passed i hi := by
    rw [swept_one] at hi
    exact hi.elim
  others i hi _ := by
    rw [hcut', if_pos rfl]
    by_cases hi0 : i = 0
    · subst hi0
      exact ⟨hhistory.1, fun _ => hhistory.2⟩
    · rw [hc.others i hi0]
      obtain ⟨hepoch, hsettled⟩ := h.passed i ⟨Nat.pos_of_ne_zero hi0, hi⟩
      exact ⟨hepoch, fun _ => by simpa [hcut] using hsettled⟩

/-- When a cut sets out nothing that counts is ahead of its bound. -/
theorem Circulates.sweeping (h : Circulates setup net R station m 1)
    (hlogged : net.Logged setup) : net.Sweeping setup R m 1 := by
  refine .inr ⟨by rw [swept_one]; exact fun i hi => hi.elim, ?_⟩
  intro i j t ht hc
  obtain ⟨⟨hi, _⟩, hle, hred⟩ := hlogged i j t ht
  have hs : i ∉ swept 1 := by simp [swept_one]
  obtain ⟨hepoch, hsettled⟩ := h.others i hi hs
  cases hcut : m.matternCut with
  | FIRST =>
      -- no process has made a first cut in the new round
      simp only [hcut, reduceCtorEq, ite_false] at hepoch
      rw [hepoch] at hle
      exact absurd hc.1 (Nat.not_lt_of_le hle)
  | SECOND =>
      -- what is on a link and counts has been recorded by its sender
      rw [if_pos hcut] at hepoch
      have hsame : t.epoch = (net.lp i).history.epoch := by
        have := hc.1
        omega
      simp only [bound, hcut]
      exact .inr (.inr ⟨i, hi, hs, hred hsame (hc.2 hcut) (hsettled hcut)⟩)

end CutAt

/-- Everything a process has is behind the times a cut leaves it with, unless its queue
is not. -/
theorem measured {lp : Lp} {lvt time : Nat} (hlvt : lp.process.getLvt = some lvt)
    (hle : time ≤ lvt) : lp.leaves time = true ∨ lp.process.times ⊆ Set.Ici time := by
  cases hleaves : lp.leaves time with
  | true => exact .inl rfl
  | false =>
      refine .inr (Process.times_of_getLvt hlvt hle ?_)
      intro t ht
      simp only [Lp.leaves, List.any_eq_false, decide_eq_true_eq] at hleaves
      exact Nat.le_of_not_lt (hleaves t ht)

theorem Computing.round_of_link {source rank : Nat} {m : GvtControlMessage} {rest : List Packet}
    (h : net.Computing setup) (hlink : net.link source rank = .control (.control m) :: rest) :
    ∃ R p, net.Round setup R (.link source rank) m p :=
  h.round_of_mem (mem_controls_link hlink)

theorem Computing.round_of_awaiting {rank : Nat} {m : GvtControlMessage}
    (h : net.Computing setup) (hawaiting : (net.lp rank).awaiting = some m) :
    ∃ R p, net.Round setup R (.awaiting rank) m p :=
  h.round_of_mem (mem_controls_awaiting hawaiting)

section Step

variable {rank source R p lvt : Nat} {station : Station} {m : GvtControlMessage}

theorem CutAt.logged {outcome : GvtCalculator.Outcome} (hc : CutAt net net' rank station outcome)
    (h : net.Logged setup)
    (hepoch : (net.lp rank).history.epoch ≤ (net'.lp rank).history.epoch)
    (hsettled : (net'.lp rank).history.epoch = (net.lp rank).history.epoch →
      (net'.lp rank).history.settled = true) : net'.Logged setup := by
  refine h.mono hc.flight ?_ ?_
  · intro i
    by_cases hi : i = rank
    · exact hi ▸ hepoch
    · rw [hc.others i hi]
  · intro i hsame hnot
    by_cases hi : i = rank
    · subst hi
      rw [hsettled hsame] at hnot
      cases hnot
    · rw [hc.others i hi] at hnot ⊢
      exact ⟨hnot, le_refl _⟩

theorem computing_firstCut (h : net.Computing setup) (hr : rank < setup.size)
    (hround : net.Round setup R station m p) (hrank : rank = m.destination)
    (hcut : m.matternCut = .FIRST) (hlvt : (net.lp rank).process.getLvt = some lvt)
    (hc : CutAt net net' rank station ((net.lp rank).calculator.processFirstCut lvt m))
    (hhistory : (net'.lp rank).history = ⟨(net.lp rank).history.epoch + 1, false,
      (net.lp rank).leaves (Lp.firstCutTimes lvt m), Lp.firstCutTimes lvt m,
      (net.lp rank).calculator.getWhiteTransientMessageCounter⟩) :
    net'.Computing setup := by
  have hlogged : net'.Logged setup := by
    refine hc.logged h.logged ?_ ?_ <;> rw [hhistory]
    · exact Nat.le_succ _
    · exact fun hsame => absurd hsame (Nat.succ_ne_self _)
  have hhistory' : (net'.lp rank).history.epoch = (net.lp rank).history.epoch + 1 ∧
      (net'.lp rank).history.settled = false := by rw [hhistory]; exact ⟨rfl, rfl⟩
  have hepoch : (net'.lp rank).history.epoch = R + 1 := by
    have hepoch := (hround.others rank hr (hround.toCirculates.not_swept hrank)).1
    simp only [hcut, reduceCtorEq, ite_false] at hepoch
    rw [hhistory'.1, hepoch]
  cases hends : (net.lp rank).calculator.endsWithFirstCut lvt m with
  | true =>
      obtain ⟨gvt, hfinishes, _⟩ := GvtCalculator.processFirstCut_finishes hends
      obtain rfl : rank = 0 := h.placed.starter_of_ends hends
      have hp : p = setup.size := hround.toCirculates.size_of_starter hrank
      refine ⟨hc.placed h.placed hfinishes.rank hfinishes.size, hlogged, R + 1, .inl ?_⟩
      refine hc.idle hround.token hfinishes fun i hi => ?_
      by_cases hi0 : i = 0
      · subst hi0
        exact hepoch
      · rw [hc.others i hi0]
        exact (hround.passed i ⟨Nat.pos_of_ne_zero hi0, hp ▸ hi⟩).1
  | false =>
      obtain ⟨m', hpasses, hminimum, hcut'⟩ := GvtCalculator.processFirstCut_passes hends
      refine ⟨hc.placed h.placed hpasses.rank hpasses.size, hlogged, R, .inr ?_⟩
      rcases hround.toCirculates.rank_eq hrank with ⟨rfl, rfl⟩ | ⟨rfl, hlt⟩
      · rw [if_pos (h.placed.isGVTStarter.mpr rfl)] at hcut'
        have hnew := hc.turned h.placed hround.toCirculates hcut hpasses hcut'
          ⟨hepoch, hhistory'.2⟩
        exact ⟨_, m', 1, hnew, hnew.sweeping hlogged⟩
      · have hnot : ¬ (net.lp rank).calculator.isGVTStarter = true := by
          rw [h.placed.isGVTStarter]
          exact Nat.ne_of_gt hround.position.1
        rw [if_neg hnot] at hcut'
        have hbound : net'.bound setup m' (rank + 1) = Set.Ici (Lp.firstCutTimes lvt m) := by
          simp only [bound, hcut', hcut, hminimum, Lp.firstCutTimes]
        have hnew := hc.circulates hlt hround.toCirculates h.placed hpasses hcut'
          ⟨hepoch, by simp [hcut, hhistory'.2]⟩
        refine ⟨_, m', rank + 1, hnew, hc.sweeping hround.position.1 hround.sweeping hcut' ?_ ?_⟩
        · rw [hbound]
          simp only [bound, hcut]
          exact Set.Ici_subset_Ici.mpr (Nat.min_le_left _ _)
        · rw [hbound, Lp.times, hhistory, hc.times]
          refine (measured hlvt (Nat.min_le_right _ _)).imp id fun htimes => ?_
          exact Set.insert_subset Set.self_mem_Ici htimes

theorem computing_secondCut (h : net.Computing setup) (hr : rank < setup.size)
    (hround : net.Round setup R station m p) (hrank : rank = m.destination)
    (hcut : m.matternCut = .SECOND) (hlvt : (net.lp rank).process.getLvt = some lvt)
    (hc : CutAt net net' rank station ((net.lp rank).calculator.processSecondCut lvt m))
    (hhistory : (net'.lp rank).history = ⟨(net.lp rank).history.epoch, true,
      (net.lp rank).leaves ((net.lp rank).secondCutTimes lvt m),
      (net.lp rank).secondCutTimes lvt m, (net.lp rank).history.reported⟩) :
    net'.Computing setup := by
  have hlogged : net'.Logged setup := by
    refine hc.logged h.logged ?_ ?_ <;> rw [hhistory]
    exact fun _ => rfl
  have hepoch : ∀ i, i < setup.size → (net'.lp i).history.epoch = R + 1 := by
    intro i hi
    have hold := hround.toCirculates.epoch_of_second hcut hi
    by_cases hir : i = rank
    · subst hir
      rw [hhistory]
      exact hold
    · rw [hc.others i hir]
      exact hold
  rcases hround.toCirculates.rank_eq hrank with ⟨rfl, rfl⟩ | ⟨rfl, hlt⟩
  · have hfinishes := GvtCalculator.processSecondCut_finishes lvt m
      (h.placed.isGVTStarter.mpr rfl)
    refine ⟨hc.placed h.placed hfinishes.rank hfinishes.size, hlogged, R + 1, .inl ?_⟩
    exact hc.idle hround.token hfinishes hepoch
  · have hnot : (net.lp rank).calculator.isGVTStarter = false := by
      rw [← Bool.not_eq_true, h.placed.isGVTStarter]
      exact Nat.ne_of_gt hround.position.1
    obtain ⟨m', hpasses, hminimum, hred, hcut'⟩ :=
      GvtCalculator.processSecondCut_passes lvt m hnot
    refine ⟨hc.placed h.placed hpasses.rank hpasses.size, hlogged, R, .inr ?_⟩
    have hnew := hc.circulates hlt hround.toCirculates h.placed hpasses hcut'
      ⟨hepoch rank hr, by simp [hcut, hhistory]⟩
    refine ⟨_, m', rank + 1, hnew, hc.sweeping hround.position.1 hround.sweeping hcut' ?_ ?_⟩
    · -- the red time of this process goes from those to come to those the message carries
      simp only [bound, hcut', hcut, hminimum, hred]
      rintro t (ht | ht | ⟨i, hi, hs, ht⟩)
      · exact .inl ((Nat.min_le_left _ _).trans ht)
      · exact .inr (.inl ((Nat.min_le_left _ _).trans ht))
      · by_cases hir : i = rank
        · subst hir
          exact .inr (.inl ((Nat.min_le_right _ _).trans ht))
        · refine .inr (.inr ⟨i, hi, ?_, ?_⟩)
          · exact fun hs' => (swept_succ_subset rank hs').elim hir hs
          · rwa [hc.others i hir]
    · rw [Lp.times, hhistory, hc.times]
      refine (measured hlvt ((Nat.min_le_left _ _).trans (Nat.min_le_right _ _))).imp id ?_
      intro htimes t ht
      have hle : (net.lp rank).secondCutTimes lvt m ≤ t :=
        Set.insert_subset Set.self_mem_Ici htimes ht
      simp only [bound, hcut', hcut, hminimum, hred]
      rw [Lp.secondCutTimes, min_le_iff] at hle
      exact hle.imp id .inl

end Step

theorem history_apply (net : Network) (rank : Nat) (outcome : GvtCalculator.Outcome) (i : Nat) :
    ((net.setLp rank ((net.lp rank).apply outcome)).lp i).history = (net.lp i).history := by
  by_cases hi : i = rank
  · subst hi
    simp [Lp.apply]
  · rw [setLp_lp_of_ne net _ hi]

/-- The starter begins a round. -/
theorem Idle.begins {R : Nat} {m : GvtControlMessage} {outcome : GvtCalculator.Outcome}
    (h : net.Idle setup R) (hplaced : net.Placed setup) (hsize : 0 < setup.size)
    (hpasses : outcome.queued = [.control m])
    (hbusy : outcome.calculator.isAcceptingRequests = false)
    (hdestination : m.destination = (net.lp 0).calculator.nextLpInRing)
    (hcut : m.matternCut = .FIRST) :
    Circulates setup (net.setLp 0 ((net.lp 0).apply outcome)) R (.queue 0) m 1 where
  token := by
    refine h.token.place ?_ ?_
    · have hempty := h.token (.queue 0)
      simp only [controls] at hempty
      simp [controls, Lp.apply, hempty, hpasses, ControlMessage.control?]
    · exact fun s hs => controls_frame s (fun hsame => absurd hsame hs)
        (fun _ => by simp [Lp.apply]) fun _ _ _ => rfl
  leadsTo := trivial
  waits := nofun
  position := by
    refine ⟨le_refl _, hsize, ?_⟩
    rw [hdestination, GvtCalculator.nextLpInRing, (hplaced 0).1, (hplaced 0).2]
  busy := by simpa [Lp.apply] using hbusy
  passed i hi := by
    rw [swept_one] at hi
    exact hi.elim
  others i hi _ := by
    rw [history_apply, hcut]
    simpa using h.epoch i hi

theorem computing_request {rank : Nat} (h : net.Computing setup) (hr : rank < setup.size) :
    Computing setup
      (net.setLp rank ((net.lp rank).apply (net.lp rank).calculator.processRequest)) := by
  by_cases hbegins : (net.lp rank).calculator.isGVTStarter = true ∧
      (net.lp rank).calculator.isAcceptingRequests = true
  · obtain ⟨m, heq, hdestination, hcut⟩ := GvtCalculator.processRequest_begins hbegins
    obtain rfl := h.placed.isGVTStarter.mp hbegins.1
    have hqueued : (net.lp 0).calculator.processRequest.queued = [.control m] := by rw [heq]
    have hcalculator : (net.lp 0).calculator.processRequest.calculator =
        { (net.lp 0).calculator with isAcceptingRequests := false, colour := .WHITE } := by
      rw [heq]
    obtain ⟨R, hidle | ⟨station, m', p, hround⟩⟩ := h.phase
    · have hnew := hidle.begins h.placed hr hqueued (by rw [hcalculator]) hdestination hcut
      have hplaced : (net.setLp 0
          ((net.lp 0).apply (net.lp 0).calculator.processRequest)).Placed setup := by
        intro i
        by_cases hi : i = 0
        · subst hi
          simpa [Lp.apply, hcalculator] using h.placed 0
        · rw [setLp_lp_of_ne net _ hi]
          exact h.placed i
      have hlogged : (net.setLp 0
          ((net.lp 0).apply (net.lp 0).calculator.processRequest)).Logged setup := by
        refine h.logged.mono (fun _ _ _ ht => ht) (fun i => by rw [history_apply]) ?_
        intro i _ hnot
        rw [history_apply] at hnot
        refine ⟨hnot, ?_⟩
        by_cases hi : i = 0
        · subst hi
          simp [Lp.apply, hcalculator]
        · rw [setLp_lp_of_ne net _ hi]
      exact ⟨hplaced, hlogged, R, .inr ⟨.queue 0, m, 1, hnew, hnew.sweeping hlogged⟩⟩
    · rw [hround.busy] at hbegins
      cases hbegins.2
  · rw [GvtCalculator.processRequest_ignored hbegins]
    refine h.quiet (quiet_setLp (.refl _) rfl subset_upperClosure fun _ _ _ ht => ht) ?_
    exact fun s => controls_frame s (fun _ => by simp [Lp.apply]) (fun _ => rfl) fun _ _ _ => rfl

theorem computing_transition (h : net.Computing setup)
    (htransition : Transition setup net e net' o) : net'.Computing setup := by
  cases htransition with
  | agent hr hagent => exact computing_agent h hagent
  | sendControl hr hd hqueue => exact computing_sendControl h hqueue
  | sendMessage hr hd hdequeue hkeeps htime hepoch hrecorded =>
      obtain ⟨htimes, hm⟩ := Process.times_of_dequeue hdequeue
      exact computing_sendMessage h hr hd hkeeps htimes (htime ▸ hm) hepoch hrecorded
  | receiveMessage hr hlink hreceive => exact computing_receiveMessage h hlink hreceive
  | receiveValue hr hlink => exact computing_receiveValue h hlink
  | @firstCut rank source m rest answers lvt hr hlink hcut hawaiting hlvt =>
      obtain ⟨R, p, hround⟩ := h.round_of_link hlink
      exact computing_firstCut h hr hround hround.leadsTo hcut hlvt (cutAt_link hlink) (by simp)
  | await hr hlink hcut hawaiting => exact computing_await h hlink hcut
  | @complete rank m lvt hr hawaiting hlvt =>
      obtain ⟨R, p, hround⟩ := h.round_of_awaiting hawaiting
      exact computing_secondCut h hr hround hround.leadsTo (hround.waits rank rfl) hlvt
        cutAt_awaiting (by simp)
  | request hr => exact computing_request h hr

theorem computing_step {e : SystemEvent} (h : net.Computing setup)
    (hstep : net.systemStep setup e = some (net', o)) : net'.Computing setup := by
  cases e with
  | network e => exact computing_transition h (transition_of_step hstep)
  | post rank m =>
      obtain ⟨hr, hstep⟩ := Option.ite_none_right_eq_some.mp hstep
      obtain ⟨lp, hpost, heq⟩ := Option.map_eq_some_iff.mp hstep
      cases heq
      exact computing_post h hpost

theorem idle_of_initial (h : net.Initial setup) : net.Idle setup 0 where
  token s := by
    cases s with
    | queue i => simp [controls, h.control i]
    | link i j => simp [controls, h.link i j]
    | awaiting i => simp [controls, h.awaiting i]
  accepting := by
    rw [h.calculator 0]
    rfl
  epoch i _ := by rw [h.history i]

theorem computing_of_initial (h : net.Initial setup) : net.Computing setup where
  placed rank := by
    rw [h.calculator rank]
    exact ⟨rfl, rfl⟩
  logged i j t ht := by
    rw [h.link i j] at ht
    cases ht
  phase := ⟨0, .inl (idle_of_initial h)⟩

theorem computing_of_run {es : List SystemEvent} {os : List (Option Nat)} (h : net.Initial setup)
    (hrun : (systemMachine setup).run net es = some (net', os)) : net'.Computing setup :=
  (systemMachine setup).invariant (Computing setup) (fun _ _ _ _ hc hs => computing_step hc hs)
    es net net' os (computing_of_initial h) hrun

end PdesMas.Gvt.Network
