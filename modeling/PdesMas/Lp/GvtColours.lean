import PdesMas.Lp.GvtDrain

/-!
The two colours of consecutive rounds. All rounds use the same two, and a value message
turns a process white whenever it comes, on another link than the control message of
the next round. The rounds are kept apart exactly if a round begins with every process
white and no red message on its way, no value message comes between the two cuts of a
process, and what is handed on without `PreProcessSendMessage` is red and covered.
-/

namespace PdesMas.Gvt.Network

section Definitions

variable (setup : Setup) (net : Network)

/-- How many first cuts a process has made when it has made that of the round of `m`. The
starter makes its own last. -/
def roundOf (m : GvtControlMessage) : Nat :=
  if m.matternCut = .FIRST then (net.lp 0).history.epoch + 1 else (net.lp 0).history.epoch

/-- The process has made its first cut of the round of `m`, and not its second. -/
def Between (m : GvtControlMessage) (rank : Nat) : Prop :=
  (net.lp rank).history.epoch = net.roundOf m ∧ (net.lp rank).history.settled = false

/-- The message was sent in the round of `m`, and its time is not below the red minimum of
`m` or one that is still to come to it. -/
def Covers (m : GvtControlMessage) (source : Nat) (t : Transmission) : Prop :=
  t.epoch = net.roundOf m ∧
    (net.Between m source ∧ (net.lp source).calculator.redTime ≤ t.message.timestamp ∨
      m.redMessageTime ≤ t.message.timestamp)

/-- A round is under way with this control message. -/
def UnderWay (m : GvtControlMessage) : Prop := ∃ station, m ∈ net.controls station

/-- In the round of `m` the processes are white before their first cuts and red up to their
second, and the red messages are those of the round. -/
structure Coloured (m : GvtControlMessage) : Prop where
  white : ∀ rank < setup.size, (net.lp rank).history.epoch < net.roundOf m →
    (net.lp rank).calculator.colour = .WHITE
  red : ∀ rank < setup.size, net.Between m rank → (net.lp rank).calculator.colour = .RED
  covered : ∀ source target t, .simulation t ∈ net.link source target →
    t.message.colour = .RED → net.Covers m source t

/-- Every message on its way is counted or, if it is red, covered by the round under way. -/
structure Separated : Prop where
  counted : Conserved setup net
  coloured : ∀ m, net.UnderWay m → net.Coloured setup m

/-- A step that does not bring the colours of two rounds together. -/
def Timely : SystemEvent → Prop
  | .network (.request rank) =>
      (net.lp rank).calculator.isGVTStarter = true ∧
        (net.lp rank).calculator.isAcceptingRequests = true →
      (∀ other < setup.size, other ≠ rank → (net.lp other).calculator.colour = .WHITE) ∧
        ∀ source target t, .simulation t ∈ net.link source target → t.message.colour ≠ .RED
  | .network (.receive rank source _) =>
      ∀ value rest, net.link source rank = .control (.value value) :: rest →
        (net.lp rank).calculator.isGVTStarter = false →
          ∀ m, net.UnderWay m → ¬ net.Between m rank
  | .network (.send rank) =>
      ∀ gvt m rest, (net.lp rank).process = .clp gvt (m :: rest) →
        (net.lp rank).sendControlMessageQueue = [] →
          (net.lp rank).process.preProcesses m.payload = false → m.colour = .RED →
            ∀ control, net.UnderWay control → net.Covers control rank
              ⟨m, (net.lp rank).history.epoch, (net.lp rank).history.settled⟩
  | _ => True

def InTime (e : SystemEvent) : Prop := net.CountsWhite e ∧ net.Timely setup e

/-- A process that has made its second cut is white until the next first one. -/
def WhiteWhenSettled : Prop :=
  ∀ rank, (net.lp rank).history.settled = true → (net.lp rank).calculator.colour = .WHITE

end Definitions

variable {setup : Setup} {net net' : Network} {e : SystemEvent} {o : Option Nat}

section Round

variable {R p rank : Nat} {station : Station} {m m' : GvtControlMessage}

theorem Circulates.underWay_iff (h : Circulates setup net R station m p) :
    net.UnderWay m' ↔ m' = m := by
  constructor
  · intro hm
    obtain ⟨station', hm⟩ := hm
    exact (h.token.of_mem hm).2
  · intro heq
    subst heq
    exact ⟨station, by rw [h.token.self]; exact List.mem_cons_self⟩

theorem Idle.not_underWay (h : net.Idle setup R) : ¬ net.UnderWay m := by
  intro hm
  obtain ⟨station, hm⟩ := hm
  exact h.token.not_mem hm

theorem Circulates.roundOf (h : Circulates setup net R station m p) :
    net.roundOf m = R + 1 := by
  have hepoch := (h.others 0 h.size_pos (zero_not_swept p)).1
  cases hcut : m.matternCut with
  | FIRST =>
      rw [hcut] at hepoch
      rw [Network.roundOf, if_pos hcut, hepoch, if_neg nofun]
  | SECOND =>
      rw [if_pos hcut] at hepoch
      rw [Network.roundOf, if_neg (by rw [hcut]; nofun), hepoch]

theorem Circulates.forall_underWay (h : Circulates setup net R station m p)
    {P : GvtControlMessage → Prop} : (∀ m', net.UnderWay m' → P m') ↔ P m := by
  constructor
  · exact fun hall => hall m (h.underWay_iff.mpr rfl)
  · intro hm m' hm'
    rw [h.underWay_iff.mp hm']
    exact hm

/-- A red process in a round is between its cuts. -/
theorem Circulates.between_of_red (h : Circulates setup net R station m p)
    (hwhite : net.WhiteWhenSettled) (hcoloured : net.Coloured setup m) (hr : rank < setup.size)
    (hred : (net.lp rank).calculator.colour = .RED) : net.Between m rank := by
  have hsettled : (net.lp rank).history.settled = false := by
    apply eq_false_of_ne_true
    intro hsettled
    rw [hwhite rank hsettled] at hred
    cases hred
  refine ⟨?_, hsettled⟩
  have hnot : ¬ (net.lp rank).history.epoch < net.roundOf m := by
    intro hlt
    rw [hcoloured.white rank hr hlt] at hred
    cases hred
  rw [h.roundOf] at hnot ⊢
  by_cases hs : rank ∈ swept p
  · exact (h.passed rank hs).1
  · have hepoch := (h.others rank hr hs).1
    split at hepoch
    · exact hepoch
    · omega

end Round

/-- What a step leaves of the round: the cuts made, and the links but for what is taken. -/
structure Leaves (net net' : Network) (m : GvtControlMessage) : Prop where
  round : net'.roundOf m = net.roundOf m
  epoch : ∀ i, (net'.lp i).history.epoch = (net.lp i).history.epoch
  settled : ∀ i, (net'.lp i).history.settled = (net.lp i).history.settled
  redTime : ∀ i, (net'.lp i).calculator.redTime ≤ (net.lp i).calculator.redTime

theorem Ordinary.leaves (h : Ordinary net net') (m : GvtControlMessage) : Leaves net net' m where
  round := by simp only [roundOf, h.epoch]
  epoch := h.epoch
  settled := h.settled
  redTime i := (h.keeps i).redTime

theorem Leaves.between {m : GvtControlMessage} (h : Leaves net net' m) (rank : Nat) :
    net'.Between m rank ↔ net.Between m rank := by
  simp only [Between, h.round, h.epoch, h.settled]

theorem Leaves.covers {m : GvtControlMessage} {source : Nat} {t : Transmission}
    (h : Leaves net net' m) (hc : net.Covers m source t) : net'.Covers m source t := by
  refine ⟨hc.1.trans h.round.symm, ?_⟩
  cases hc.2 with
  | inl hbetween =>
      exact .inl ⟨(h.between source).mpr hbetween.1, (h.redTime source).trans hbetween.2⟩
  | inr hcarried => exact .inr hcarried

/-- A step that changes no colour and sends nothing red. -/
theorem Leaves.coloured {m : GvtControlMessage} (h : Leaves net net' m)
    (hcolour : ∀ i, (net'.lp i).calculator.colour = (net.lp i).calculator.colour)
    (hflight : ∀ i j t, .simulation t ∈ net'.link i j → t.message.colour = .RED →
      .simulation t ∈ net.link i j ∨ net'.Covers m i t)
    (hc : net.Coloured setup m) : net'.Coloured setup m where
  white rank hr hlt := by
    rw [h.epoch, h.round] at hlt
    rw [hcolour]
    exact hc.white rank hr hlt
  red rank hr hb := by
    rw [hcolour]
    exact hc.red rank hr ((h.between rank).mp hb)
  covered i j t ht hred := by
    cases hflight i j t ht hred with
    | inl ht => exact h.covers (hc.covered i j t ht hred)
    | inr hcovers => exact hcovers

theorem colour_setLp {rank : Nat} {lp : Lp}
    (h : lp.calculator.colour = (net.lp rank).calculator.colour) (i : Nat) :
    ((net.setLp rank lp).lp i).calculator.colour = (net.lp i).calculator.colour := by
  by_cases hi : i = rank
  · subst hi
    simpa using h
  · rw [setLp_lp_of_ne net lp hi]

section Step

variable {R p : Nat} {station : Station} {m : GvtControlMessage}

theorem colour_preProcessSendMessage {g g' : GvtCalculator} {destination timestamp : Nat}
    (h : g.preProcessSendMessage destination timestamp = some g') : g'.colour = g.colour := by
  simp only [GvtCalculator.preProcessSendMessage] at h
  split at h
  · split at h
    · cases h
      rfl
    · cases h
  · cases h
    rfl

theorem colour_preProcessReceiveMessage (g : GvtCalculator) (colour : MatternColour) :
    (g.preProcessReceiveMessage colour).colour = g.colour := by
  cases colour with
  | WHITE => rfl
  | RED => rfl

/-- In a round, a step without a cut keeps the colours if it is in time. -/
theorem Plain.coloured_iff (h : Plain setup net e net')
    (hround : Circulates setup net R station m p)
    (hwhite : net.WhiteWhenSettled) (hc : net.Coloured setup m) :
    net'.Coloured setup m ↔ net.Timely setup e := by
  have hleaves := h.stays.ordinary.leaves m
  cases h with
  | agent hr | post hr =>
      refine iff_of_true ?_ trivial
      exact hleaves.coloured (colour_setLp rfl) (fun _ _ _ ht _ => .inl ht) hc
  | sendControl hr hd hqueue =>
      refine iff_of_true ?_ ?_
      · exact hleaves.coloured (colour_setLp rfl)
          (fun _ _ _ ht _ => .inl (simulation_of_push ht)) hc
      · intro gvt n rest _ hnone
        rw [hqueue] at hnone
        cases hnone
  | @sendMessage rank process calculator n hr hd hpre hsend =>
      refine iff_of_true ?_ ?_
      · refine hleaves.coloured (colour_setLp (colour_preProcessSendMessage hsend)) ?_ hc
        intro i j t ht hred
        cases Pipes.mem_push ht with
        | inl ht => exact .inl ht
        | inr hnew =>
            obtain ⟨rfl, _, heq⟩ := hnew
            cases heq
            -- a red sender is between its cuts, and its red time covers what it sends
            have hbetween := hround.between_of_red hwhite hc hr hred
            have htime := (GvtCalculator.keeps_preProcessSendMessage hsend).2 hred
            refine .inr ⟨?_, .inl ⟨(hleaves.between i).mpr hbetween, ?_⟩⟩
            · rw [hleaves.round]
              exact hbetween.1
            · simp only [setLp_lp_self]
              exact htime
      · intro gvt n' rest hprocess _ hnot
        rw [hpre gvt n' rest hprocess] at hnot
        cases hnot
  | @handOn rank gvt rest n hr hd hprocess hcontrol hpre =>
      constructor
      · intro hc' gvt' n' rest' hprocess' _ _ hred
        rw [hprocess] at hprocess'
        cases hprocess'
        rw [hround.forall_underWay]
        have hcovers := hc'.covered rank n.destination
          ⟨n, (net.lp rank).history.epoch, (net.lp rank).history.settled⟩
          (Pipes.mem_push_self net.link rank n.destination _) hred
        refine ⟨hcovers.1.trans hleaves.round, ?_⟩
        cases hcovers.2 with
        | inl hbetween =>
            refine .inl ⟨(hleaves.between rank).mp hbetween.1, ?_⟩
            simpa using hbetween.2
        | inr hcarried => exact .inr hcarried
      · intro htimely
        refine hleaves.coloured (colour_setLp rfl) ?_ hc
        intro i j t ht hred
        cases Pipes.mem_push ht with
        | inl ht => exact .inl ht
        | inr hnew =>
            obtain ⟨rfl, _, heq⟩ := hnew
            cases heq
            have hcovers := htimely gvt n rest hprocess hcontrol hpre hred
            exact .inr (hleaves.covers (hround.forall_underWay.mp hcovers))
  | @receiveMessage rank source t rest answers process exposed hr hreceiving hlink hexposed =>
      refine iff_of_true ?_ ?_
      · exact hleaves.coloured (colour_setLp (colour_preProcessReceiveMessage _ _))
          (fun _ _ _ ht _ => .inl (Pipes.mem_put_tail hlink ht)) hc
      · intro value rest' hvalue
        rw [hlink] at hvalue
        cases hvalue
  | @receiveValue rank source value rest answers hr hlink =>
      have hflight : ∀ i j t, .simulation t ∈ net.link.put source rank rest i j →
          .simulation t ∈ net.link i j := fun _ _ _ => Pipes.mem_put_tail hlink
      constructor
      · intro hc' value' rest' _ hstarter
        rw [hround.forall_underWay]
        intro hbetween
        have hred := hc'.red rank hr ((hleaves.between rank).mpr hbetween)
        simp [Lp.receiveValue, GvtCalculator.processValue, hstarter] at hred
      · intro htimely
        by_cases hstarter : (net.lp rank).calculator.isGVTStarter = true
        · refine hleaves.coloured (colour_setLp ?_) (fun i j t ht _ => .inl (hflight i j t ht)) hc
          simp [Lp.receiveValue, GvtCalculator.processValue, hstarter]
        · rw [Bool.not_eq_true] at hstarter
          have hnot : ¬ net.Between m rank :=
            hround.forall_underWay.mp (htimely value rest hlink hstarter)
          refine ⟨?_, ?_, ?_⟩
          · intro i hi hlt
            rw [hleaves.epoch, hleaves.round] at hlt
            by_cases hir : i = rank
            · subst hir
              simp [Lp.receiveValue, GvtCalculator.processValue, hstarter]
            · simp only [setLp_lp_of_ne net _ hir]
              exact hc.white i hi hlt
          · intro i hi hbetween
            rw [hleaves.between] at hbetween
            have hir : i ≠ rank := by
              intro heq
              subst heq
              exact hnot hbetween
            simp only [setLp_lp_of_ne net _ hir]
            exact hc.red i hi hbetween
          · intro i j t ht hred
            exact hleaves.covers (hc.covered i j t (hflight i j t ht) hred)
  | await hr hlink hcut hawaiting =>
      refine iff_of_true ?_ ?_
      · exact hleaves.coloured (colour_setLp rfl)
          (fun _ _ _ ht _ => .inl (Pipes.mem_put_tail hlink ht)) hc
      · intro value rest' hvalue
        rw [hlink] at hvalue
        cases hvalue
  | ignored hignored => exact iff_of_true hc fun hbegins => absurd hbegins hignored

/-- Between two rounds only a request can come too early. -/
theorem timely_of_idle (h : net.Idle setup R)
    (hrequest : ∀ rank, e = .network (.request rank) →
      ¬ ((net.lp rank).calculator.isGVTStarter = true ∧
        (net.lp rank).calculator.isAcceptingRequests = true)) : net.Timely setup e := by
  cases e with
  | post rank m => trivial
  | network e =>
      cases e with
      | agent rank e => trivial
      | complete rank => trivial
      | send rank => exact fun _ _ _ _ _ _ _ control hcontrol => absurd hcontrol h.not_underWay
      | receive rank source answers =>
          exact fun _ _ _ _ control hcontrol => absurd hcontrol h.not_underWay
      | request rank => exact fun hbegins => absurd hbegins (hrequest rank rfl)

theorem Plain.not_begins (h : Plain setup net e net') (rank : Nat)
    (he : e = .network (.request rank)) :
    ¬ ((net.lp rank).calculator.isGVTStarter = true ∧
      (net.lp rank).calculator.isAcceptingRequests = true) := by
  cases h with
  | ignored hignored =>
      cases he
      exact hignored
  | agent hr | post hr | sendControl hr hd hqueue | sendMessage hr hd hpre hsend
  | handOn hr hd hprocess hcontrol hpre | receiveMessage hr hreceiving hlink hexposed
  | receiveValue hr hlink | await hr hlink hcut hawaiting => cases he

/-- A cut is always in time. -/
theorem Cuts.timely {rank epoch : Nat} {settled : Bool}
    (h : Cuts net e net' rank epoch settled) : net.Timely setup e := by
  cases h.event with
  | inl hcomplete =>
      subst hcomplete
      trivial
  | inr hreceive =>
      obtain ⟨source, answers, m, rest, rfl, hlink⟩ := hreceive
      intro value rest' hvalue
      rw [hlink] at hvalue
      cases hvalue

theorem Cuts.flying {rank epoch i j : Nat} {settled : Bool} {t : Transmission}
    (h : Cuts net e net' rank epoch settled) (ht : .simulation t ∈ net'.link i j) :
    .simulation t ∈ net.link i j := by
  rw [← mem_simulations] at ht ⊢
  rwa [h.flight i j] at ht

/-- A round begins with its colours apart if everything of the round before is over. -/
theorem coloured_begins_iff (ho : Orderly setup net) (hidle : net.Idle setup R)
    (hstarts : (net.lp 0).calculator.isGVTStarter = true ∧
      (net.lp 0).calculator.isAcceptingRequests = true)
    (hnew : Circulates setup net' R station m 1)
    (hcalculator : (net'.lp 0).calculator =
      { (net.lp 0).calculator with isAcceptingRequests := false, colour := .WHITE })
    (hothers : ∀ i, i ≠ 0 → net'.lp i = net.lp i)
    (hhistory : ∀ i, (net'.lp i).history = (net.lp i).history) (hlink : net'.link = net.link) :
    net'.Coloured setup m ↔ net.Timely setup (.network (.request 0)) := by
  have hbefore : ∀ i, i < setup.size → (net'.lp i).history.epoch < R + 1 := by
    intro i hi
    rw [hhistory, hidle.epoch i hi]
    exact Nat.lt_succ_self R
  constructor
  · intro hc _
    refine ⟨?_, ?_⟩
    · intro i hi hne
      have hwhite := hc.white i hi (by rw [hnew.roundOf]; exact hbefore i hi)
      rwa [hothers i hne] at hwhite
    · intro i j t ht hred
      have hcovers := (hc.covered i j t (by rw [hlink]; exact ht) hred).1
      obtain ⟨⟨hi, _⟩, hle, _⟩ := ho.logged i j t ht
      rw [hnew.roundOf] at hcovers
      rw [hidle.epoch i hi] at hle
      omega
  · intro htimely
    obtain ⟨hwhite, hnone⟩ := htimely hstarts
    refine ⟨?_, ?_, ?_⟩
    · intro i hi _
      by_cases hne : i = 0
      · subst hne
        rw [hcalculator]
      · rw [hothers i hne]
        exact hwhite i hi hne
    · intro i hi hbetween
      have hepoch := hbetween.1
      rw [hnew.roundOf] at hepoch
      have := hbefore i hi
      omega
    · intro i j t ht hred
      rw [hlink] at ht
      exact absurd hred (hnone i j t ht)

/-- The first cut turns a process red that has sent nothing red in the round. -/
theorem coloured_first {p' rank : Nat} {station' : Station} {m' : GvtControlMessage}
    (ho : Orderly setup net) (hround : Circulates setup net R station m p)
    (hnew : Circulates setup net' R station' m' p') (hcuts : Cuts net e net' rank (R + 1) false)
    (hepoch : (net.lp rank).history.epoch = R) (hred : m'.redMessageTime = m.redMessageTime)
    (hcolour : (net'.lp rank).calculator.colour = .RED) (hc : net.Coloured setup m) :
    net'.Coloured setup m' := by
  have hsame : net'.roundOf m' = net.roundOf m := hnew.roundOf.trans hround.roundOf.symm
  refine ⟨?_, ?_, ?_⟩
  · intro i hi hlt
    by_cases hir : i = rank
    · subst hir
      rw [hcuts.epochAfter, hnew.roundOf] at hlt
      omega
    · rw [hcuts.others i hir] at hlt ⊢
      exact hc.white i hi (hsame ▸ hlt)
  · intro i hi hbetween
    by_cases hir : i = rank
    · subst hir
      exact hcolour
    · rw [hcuts.others i hir]
      rw [Between, hcuts.others i hir, hsame] at hbetween
      exact hc.red i hi hbetween
  · intro i j t ht hredt
    have ht' := hcuts.flying ht
    have hcovers := hc.covered i j t ht' hredt
    have hir : i ≠ rank := by
      intro heq
      subst heq
      have hle := (ho.logged i j t ht').2.1
      rw [hcovers.1, hround.roundOf] at hle
      omega
    refine ⟨hcovers.1.trans hsame.symm, ?_⟩
    rw [Between, hcuts.others i hir, hsame, hred]
    exact hcovers.2

/-- The second cut takes the red time of a process into the control message. -/
theorem coloured_second {m' : GvtControlMessage} (hround : Circulates setup net R station m p)
    (hnew : Circulates setup net' R (.queue p) m' (p + 1))
    (hcuts : Cuts net e net' p (R + 1) true)
    (hred : m'.redMessageTime = min m.redMessageTime (net.lp p).calculator.redTime)
    (hc : net.Coloured setup m) : net'.Coloured setup m' := by
  have hsame : net'.roundOf m' = net.roundOf m := hnew.roundOf.trans hround.roundOf.symm
  refine ⟨?_, ?_, ?_⟩
  · intro i hi hlt
    by_cases hip : i = p
    · subst hip
      exact hcuts.white rfl
    · rw [hcuts.others i hip] at hlt ⊢
      exact hc.white i hi (hsame ▸ hlt)
  · intro i hi hbetween
    by_cases hip : i = p
    · subst hip
      have hsettled := hbetween.2
      rw [hcuts.settledAfter] at hsettled
      cases hsettled
    · rw [hcuts.others i hip]
      rw [Between, hcuts.others i hip, hsame] at hbetween
      exact hc.red i hi hbetween
  · intro i j t ht hredt
    have hcovers := hc.covered i j t (hcuts.flying ht) hredt
    refine ⟨hcovers.1.trans hsame.symm, ?_⟩
    rw [hred]
    cases hcovers.2 with
    | inl hbetween =>
        by_cases hip : i = p
        · subst hip
          exact .inr ((Nat.min_le_right _ _).trans hbetween.2)
        · refine .inl ?_
          rw [Between, hcuts.others i hip, hsame]
          exact hbetween
    | inr hcarried => exact .inr ((Nat.min_le_left _ _).trans hcarried)

end Step

/-- A step keeps the colours of the rounds apart exactly if it is in time. -/
theorem coloured_ring_iff (ho : Orderly setup net) (hwhite : net.WhiteWhenSettled)
    (hc : ∀ m, net.UnderWay m → net.Coloured setup m) (hstep : RingStep setup net e net') :
    (∀ m, net'.UnderWay m → net'.Coloured setup m) ↔ net.Timely setup e := by
  cases hstep with
  | plain hplain hstays =>
      obtain ⟨R, hidle | ⟨station, m, p, hround⟩⟩ := ho.phase
      · refine iff_of_true ?_ (timely_of_idle hidle hplain.not_begins)
        exact fun m hm => absurd hm (hstays.idle R hidle).not_underWay
      · obtain ⟨station', hround'⟩ := hstays.circulates R station m p hround
        rw [hround'.forall_underWay]
        exact hplain.coloured_iff hround hwhite (hround.forall_underWay.mp hc)
  | begins hevent hstarts hidle hnew hcut hcount hcalculator hothers hhistory hlink =>
      subst hevent
      rw [hnew.forall_underWay]
      exact coloured_begins_iff ho hidle hstarts hnew hcalculator hothers hhistory hlink
  | first hr hround hcut hnew hcuts hepoch hcount hreported hred hcolour =>
      refine iff_of_true ?_ hcuts.timely
      rw [hnew.forall_underWay]
      exact coloured_first ho hround hnew hcuts hepoch hred hcolour
        (hround.forall_underWay.mp hc)
  | second hr hround hcut hnew hcut' hcuts hcount hreported hred =>
      refine iff_of_true ?_ hcuts.timely
      rw [hnew.forall_underWay]
      exact coloured_second hround hnew hcuts hred (hround.forall_underWay.mp hc)
  | ends hr hround hidle hcuts hsettled =>
      refine iff_of_true ?_ hcuts.timely
      exact fun m hm => absurd hm hidle.not_underWay

theorem Plain.colour (h : Plain setup net e net') (i : Nat) :
    (net'.lp i).calculator.colour = (net.lp i).calculator.colour ∨
      (net'.lp i).calculator.colour = .WHITE := by
  cases h with
  | agent hr | post hr | sendControl hr hd hqueue | handOn hr hd hprocess hcontrol hpre
  | await hr hlink hcut hawaiting =>
      refine .inl (colour_setLp ?_ i)
      rfl
  | sendMessage hr hd hpre hsend =>
      exact .inl (colour_setLp (colour_preProcessSendMessage hsend) i)
  | receiveMessage hr hreceiving hlink hexposed =>
      exact .inl (colour_setLp (colour_preProcessReceiveMessage _ _) i)
  | @receiveValue rank source value rest answers hr hlink =>
      by_cases hi : i = rank
      · subst hi
        simp only [setLp_lp_self, Lp.receiveValue, GvtCalculator.processValue]
        split
        · exact .inl rfl
        · exact .inr rfl
      · exact .inl (by rw [setLp_lp_of_ne net _ hi])
  | ignored hignored => exact .inl rfl

theorem Cuts.whiteWhenSettled {rank epoch : Nat} {settled : Bool}
    (h : Cuts net e net' rank epoch settled) (hw : net.WhiteWhenSettled) :
    net'.WhiteWhenSettled := by
  intro i hi
  by_cases hir : i = rank
  · subst hir
    exact h.white (h.settledAfter.symm.trans hi)
  · rw [h.others i hir] at hi ⊢
    exact hw i hi

theorem whiteWhenSettled_ring (hw : net.WhiteWhenSettled) (hstep : RingStep setup net e net') :
    net'.WhiteWhenSettled := by
  cases hstep with
  | plain hplain hstays =>
      intro i hi
      rw [hstays.ordinary.settled] at hi
      cases hplain.colour i with
      | inl hsame => exact hsame.trans (hw i hi)
      | inr hwhite => exact hwhite
  | begins hevent hstarts hidle hnew hcut hcount hcalculator hothers hhistory hlink =>
      intro i hi
      rw [hhistory] at hi
      by_cases hi0 : i = 0
      · subst hi0
        rw [hcalculator]
      · rw [hothers i hi0]
        exact hw i hi
  | first hr hround hcut hnew hcuts hepoch hcount hreported hred hcolour =>
      exact hcuts.whiteWhenSettled hw
  | second hr hround hcut hnew hcut' hcuts hcount hreported hred => exact hcuts.whiteWhenSettled hw
  | ends hr hround hidle hcuts hsettled => exact hcuts.whiteWhenSettled hw

/-- What every reachable state has, whether its colours are kept apart or not. -/
structure Colouring (setup : Setup) (net : Network) : Prop where
  orderly : Orderly setup net
  wired : Wired setup net
  white : net.WhiteWhenSettled

theorem colouring_step (h : Colouring setup net)
    (hstep : net.systemStep setup e = some (net', o)) : Colouring setup net' := by
  have hring := ring_step h.orderly (system_of_step hstep)
  exact ⟨orderly_of_ring h.orderly hring, wired_step (moves_of_step hstep) h.wired,
    whiteWhenSettled_ring h.white hring⟩

theorem colouring_initial (h : net.Initial setup) : Colouring setup net where
  orderly := orderly_initial h
  wired := wired_initial h
  white rank _ := by
    rw [h.calculator rank]
    rfl

theorem separated_initial (h : net.Initial setup) : Separated setup net where
  counted := conserved_initial h
  coloured _ hm := absurd hm (idle_of_initial h).not_underWay

theorem separated_step_iff (h : Colouring setup net) (hs : Separated setup net)
    (hstep : net.systemStep setup e = some (net', o)) :
    Separated setup net' ↔ net.InTime setup e := by
  have hcounted := conserved_step_iff (moves_of_step hstep) h.wired hs.counted
  have hcoloured := coloured_ring_iff h.orderly h.white hs.coloured
    (ring_step h.orderly (system_of_step hstep))
  rw [InTime, ← hcounted, ← hcoloured]
  exact ⟨fun hs' => ⟨hs'.counted, hs'.coloured⟩, fun hs' => ⟨hs'.1, hs'.2⟩⟩

/-- In every run, the rounds are kept apart in every state exactly if every step is in
time. -/
theorem separated_throughout_iff {es : List SystemEvent} {results : List (Option Nat)}
    (hinitial : net.Initial setup)
    (hrun : (systemMachine setup).run net es = some (net', results)) :
    (systemMachine setup).Throughout (Separated setup) net es ↔
      (systemMachine setup).Meets (fun net e => net.InTime setup e) net es := by
  have hall := (systemMachine setup).meets_true net es
  rw [(systemMachine setup).throughout_iff (fun _ _ => True) (fun net e => net.InTime setup e)
    (Colouring setup) (Separated setup) ?_ ?_ es net net' results (colouring_initial hinitial)
    hall hrun]
  · exact and_iff_right (separated_initial hinitial)
  · exact fun s e s' o hs _ hstep => colouring_step hs hstep
  · exact fun s e s' o hs hsep _ hstep => separated_step_iff hs hsep hstep

/-- The rounds are not apart when a process is red at its first cut. -/
theorem not_separated_of_red (source rank : Nat) {m : GvtControlMessage} {rest : List Packet}
    (hlink : net.link source rank = .control (.control m) :: rest) (hcut : m.matternCut = .FIRST)
    (hr : rank < setup.size)
    (hepoch : (net.lp rank).history.epoch < (net.lp 0).history.epoch + 1)
    (hred : (net.lp rank).calculator.colour = .RED) : ¬ Separated setup net := by
  intro h
  have hm : net.UnderWay m := ⟨.link source rank, mem_controls_link hlink⟩
  have hwhite := (h.coloured m hm).white rank hr (by rw [roundOf, if_pos hcut]; exact hepoch)
  rw [hred] at hwhite
  cases hwhite

/-- A round of three CLPs that the starter ends after the first cut, with the value message
for the second CLP taken and that for the third on its link, and the next round up to the
control message for the third. -/
def lateValue : List SystemEvent :=
  firstCutToThird ++
    [.network (.receive 0 2 []), .network (.send 0), .network (.send 0),
      .network (.receive 1 0 []), .network (.request 0), .network (.send 0),
      .network (.receive 1 0 []), .network (.send 1)]

theorem separated_throughout_iff_lateValue : ∃ net results,
    (systemMachine threeClps).run threeQueues lateValue = some (net, results) ∧
      ((systemMachine threeClps).Throughout (Separated threeClps) threeQueues lateValue ↔
        (systemMachine threeClps).Meets (fun net e => net.InTime threeClps e) threeQueues
          lateValue) :=
  ⟨_, _, rfl, separated_throughout_iff initial_threeQueues rfl⟩

/-- The third CLP makes its first cut red, and the late value turns it white before its
second. -/
theorem first_cut_of_red : threeQueues.Initial threeClps ∧
    ∃ net results net' results',
      (systemMachine threeClps).run threeQueues lateValue = some (net, results) ∧
      (systemMachine threeClps).run net
        [.network (.receive 2 1 []), .network (.receive 2 0 [])] = some (net', results') ∧
      (net.lp 2).calculator.colour = .RED ∧
      (∃ m rest, net.link 1 2 = .control (.control m) :: rest ∧ m.matternCut = .FIRST) ∧
      (net'.lp 2).calculator.colour = .WHITE ∧ (net'.lp 2).history.settled = false ∧
      ¬ Separated threeClps net := by
  refine ⟨initial_threeQueues, _, _, _, _, rfl, rfl, rfl, ⟨_, _, rfl, rfl⟩, rfl, rfl, ?_⟩
  exact not_separated_of_red 1 2 rfl rfl (by decide) (by decide) rfl

end PdesMas.Gvt.Network
