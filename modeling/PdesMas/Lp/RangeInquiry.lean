import PdesMas.Library.Gather
import PdesMas.Lp.RangeWiring

/-!
One range query in a network, seen from what each CLP does when the query first
comes to it. Who hands it on to whom is a gathering on the tree; the network is in
step with it when trackers and links hold what the phases of the CLPs say.
-/

namespace PdesMas

namespace RangeNetwork

open RangeClp

/-- A query of an agent, and what each CLP does when it sees the query first. -/
structure Inquiry (numberOfClps : Nat) (alpToClpMap : Std.TreeMap Nat Nat) where
  identifier : Nat
  timestamp : Nat
  originalAgent : LpId
  range : Range
  root : Nat
  home : alpToClpMap[originalAgent.rank]? = some root
  root_lt : root < numberOfClps
  agent_ge : numberOfClps ≤ originalAgent.rank
  agent_lt : originalAgent.rank < numberOfClps + alpToClpMap.size
  first : Nat → Option Service

namespace Inquiry

variable {numberOfClps : Nat} {alpToClpMap : Std.TreeMap Nat Nat}
  (I : Inquiry numberOfClps alpToClpMap)

/-- Where the query comes from and the answer goes to. -/
noncomputable def asker (c : Nat) : Nat :=
  if c = I.root then I.originalAgent.rank else HeapTree.nextHop c I.root

def chosen (c : Nat) : List Nat :=
  match I.first c with
  | some s => s.forwarded.map RangeQueryMessage.destination
  | none => []

/-- The point of a variable in the range reads of a CLP. -/
def found (c : Nat) (x : SsvId) : Option Point :=
  (I.first c).bind fun s => s.reads.findSome? (·[x]?)

def collected (noted : List Nat) (x : SsvId) : Option Point :=
  noted.findSome? fun c => I.found c x

theorem collected_append (noted noted' : List Nat) (x : SsvId) :
    I.collected (noted ++ noted') x = (I.collected noted x).or (I.collected noted' x) :=
  List.findSome?_append

open Classical in
/-- The CLPs that `c` hands the query on to. -/
noncomputable def forward (c : Nat) : List Nat :=
  [(c - 1) / 2, 2 * c + 1, 2 * c + 2].filter fun d =>
    c < numberOfClps ∧ d < numberOfClps ∧ d ≠ I.root ∧ HeapTree.nextHop d I.root = c ∧
      d ∈ I.chosen c

theorem mem_forward {c d : Nat} :
    d ∈ I.forward c ↔ c < numberOfClps ∧ d < numberOfClps ∧ d ≠ I.root ∧
      HeapTree.nextHop d I.root = c ∧ d ∈ I.chosen c := by
  simp only [forward, List.mem_filter, decide_eq_true_eq]
  constructor
  · exact fun h => h.2
  · intro h
    refine ⟨?_, h⟩
    have hadj := HeapTree.adj_nextHop h.2.2.1
    rw [h.2.2.2.1] at hadj
    simp only [HeapTree.Adj] at hadj
    simp only [List.mem_cons, List.not_mem_nil, or_false]
    omega

theorem forward_nodup (c : Nat) : (I.forward c).Nodup := by
  refine List.Nodup.filter _ ?_
  simp only [List.nodup_cons, List.mem_cons, List.not_mem_nil, or_false, not_or, not_false_iff,
    List.nodup_nil, and_true]
  omega

open Classical in
/-- Falls along the ways from the root: up to the top of the tree, then down. -/
noncomputable def weight (c : Nat) : Nat :=
  if HeapTree.Below c I.root then numberOfClps + c else numberOfClps - c

theorem weight_lt {c d : Nat} (h : d ∈ I.forward c) : I.weight d < I.weight c := by
  obtain ⟨_, hd, hne, hnext, _⟩ := I.mem_forward.mp h
  by_cases hbelow : HeapTree.Below d I.root
  · have hchild : (c = 2 * d + 1 ∨ c = 2 * d + 2) ∧ HeapTree.Below c I.root := by
      rcases HeapTree.below_iff.mp hbelow with heq | hl | hr
      · exact absurd heq.symm hne
      · rw [HeapTree.nextHop_left hl] at hnext
        exact ⟨.inl hnext.symm, hnext ▸ hl⟩
      · rw [HeapTree.nextHop_right hr] at hnext
        exact ⟨.inr hnext.symm, hnext ▸ hr⟩
    rw [weight, weight, if_pos hbelow, if_pos hchild.2]
    omega
  · rw [HeapTree.nextHop_up hbelow] at hnext
    have hpos : d ≠ 0 := fun heq => hbelow (heq ▸ HeapTree.below_zero I.root)
    rw [weight, weight, if_neg hbelow]
    split <;> omega

noncomputable def plan : Plan Nat where
  root := I.root
  forward := I.forward
  parent d := HeapTree.nextHop d I.root
  weight := I.weight
  nodup := I.forward_nodup
  parent_of_mem h := (I.mem_forward.mp h).2.2.2.1
  weight_lt h := I.weight_lt h
  root_not_mem _ h := (I.mem_forward.mp h).2.2.1 rfl

theorem lt_of_below {c : Nat} (h : I.plan.Below I.plan.root c) : c < numberOfClps := by
  cases h with
  | self => exact I.root_lt
  | step _ hd => exact (I.mem_forward.mp hd).2.1

/-- Whoever has been asked has been asked by its asker. -/
theorem mem_forward_of_below {c d : Nat} (h : I.plan.Below I.plan.root d) (hasker : I.asker d = c)
    (hc : c < numberOfClps) : d ∈ I.forward c := by
  have hne : d ≠ I.root := by
    intro heq
    rw [asker, if_pos heq] at hasker
    have := I.agent_ge
    omega
  rw [asker, if_neg hne] at hasker
  cases h with
  | self => exact absurd rfl hne
  | @step x _ _ hd =>
      have hx : HeapTree.nextHop d I.root = x := I.plan.parent_of_mem hd
      rw [← hasker, hx]
      exact hd

theorem asker_of_mem {c d : Nat} (h : d ∈ I.forward c) : I.asker d = c := by
  obtain ⟨_, _, hne, hnext, _⟩ := I.mem_forward.mp h
  rw [asker, if_neg hne, hnext]

/-- The neighbours of a CLP, but the one it was asked by, lie away from the root. -/
theorem away_iff {c d : Nat} (hd : d < numberOfClps) :
    HeapTree.Adj c d ∧ d ≠ I.asker c ↔ d ≠ I.root ∧ HeapTree.nextHop d I.root = c := by
  by_cases hc : c = I.root
  · have hagent : d ≠ I.asker c := by
      rw [asker, if_pos hc]
      have := I.agent_ge
      omega
    constructor
    · intro h
      refine ⟨fun heq => h.1.ne (hc.trans heq.symm), ?_⟩
      rw [← hc]
      exact HeapTree.nextHop_of_adj h.1.symm
    · intro h
      refine ⟨?_, hagent⟩
      have hadj := HeapTree.adj_nextHop h.1
      rw [h.2] at hadj
      exact hadj.symm
  · rw [asker, if_neg hc]
    constructor
    · intro h
      have hne : d ≠ I.root := by
        intro heq
        rw [← heq] at h
        exact h.2 (HeapTree.nextHop_of_adj h.1).symm
      refine ⟨hne, ?_⟩
      by_contra hother
      exact h.2 ((HeapTree.separates h.1 (Ne.symm hc) (Ne.symm hne)).mpr hother).symm
    · intro h
      have hadj := HeapTree.adj_nextHop h.1
      rw [h.2] at hadj
      refine ⟨hadj.symm, fun heq => ?_⟩
      exact (HeapTree.separates hadj.symm (Ne.symm hc) (Ne.symm h.1)).mp heq.symm h.2

/-- A message of this query. -/
structure About (m : RangeQueryMessage) : Prop where
  identifier : m.identifier = I.identifier
  timestamp : m.timestamp = I.timestamp
  originalAgent : m.originalAgent = I.originalAgent
  range : m.range = I.range

variable (prog : Plan.Progress Nat)

/-- What the messages of the query on a link are. -/
inductive OnLink (a b : Nat) : List RangeQueryMessage → Prop
  | question {m} (hphase : prog b = .asked) (hasker : I.asker b = a) (habout : I.About m)
      (hempty : m.ssvValueList = ∅) : OnLink a b [m]
  | answer {m noted} (hphase : prog a = .answered noted) (hasker : I.asker a = b)
      (habout : I.About m) (horigin : m.origin = a)
      (hmap : ∀ x : SsvId, m.ssvValueList[x]? = I.collected noted x) : OnLink a b [m]
  | nothing (hquestion : I.asker b = a → prog b ≠ .asked)
      (hanswer : I.asker a = b → ∀ noted, prog a ≠ .answered noted) : OnLink a b []

/-- What the tracker of a CLP has of the query. -/
inductive Tracks (c : Nat) (back : Option Direction) : Option RQPortScanStatus → Prop
  | waiting {pending noted e} (hphase : prog c = .waiting pending noted)
      (horigin : back = some e.originPort)
      (hstatus : ∀ p, e.getScanStatus p = .NOT_SCANNED ↔
        ∃ d ∈ pending, RouteTable.portOf c d = p)
      (hmap : ∀ x : SsvId, e.ssvValueMap[x]? = I.collected noted x) : Tracks c back (some e)
  | nothing (hphase : ∀ pending noted, prog c ≠ .waiting pending noted) : Tracks c back none

/-- The network is in step with the gathering. -/
structure InStep (net : RangeNetwork) : Prop where
  sound : I.plan.Sound prog
  tracks : ∀ c, c < numberOfClps → I.Tracks prog c
    ((net.clp c).routeTable.getDirectionFromRank I.originalAgent.rank)
    (net.clp c).rangeTracker[I.identifier]?
  links : ∀ a b, I.OnLink prog a b (queriesOf I.identifier (net.pipe a b))

variable {I} {prog} {prog' : Plan.Progress Nat} {a b : Nat}

theorem OnLink.congr {l : List RangeQueryMessage} (h : I.OnLink prog a b l)
    (hquestion : I.asker b = a → (prog' b = .asked ↔ prog b = .asked))
    (hanswer : I.asker a = b → ∀ noted, prog' a = .answered noted ↔ prog a = .answered noted) :
    I.OnLink prog' a b l := by
  cases h with
  | question hphase hasker habout hempty =>
      exact .question ((hquestion hasker).mpr hphase) hasker habout hempty
  | answer hphase hasker habout horigin hmap =>
      exact .answer ((hanswer hasker _).mpr hphase) hasker habout horigin hmap
  | nothing hq ha =>
      exact .nothing (fun hasker hphase => hq hasker ((hquestion hasker).mp hphase))
        fun hasker noted hphase => ha hasker noted ((hanswer hasker noted).mp hphase)

theorem OnLink.about {m : RangeQueryMessage} (h : I.OnLink prog a b [m]) : I.About m := by
  cases h with
  | question _ _ habout _ => exact habout
  | answer _ _ habout _ _ => exact habout

theorem Tracks.congr {c : Nat} {back : Option Direction} {e : Option RQPortScanStatus}
    (h : I.Tracks prog c back e)
    (hwaiting : ∀ pending noted, prog' c = .waiting pending noted ↔
      prog c = .waiting pending noted) : I.Tracks prog' c back e := by
  cases h with
  | waiting hphase horigin hstatus hmap =>
      exact .waiting ((hwaiting _ _).mpr hphase) horigin hstatus hmap
  | nothing hphase => exact .nothing fun p n h => hphase p n ((hwaiting p n).mp h)

theorem InStep.lt_of_phase {net : RangeNetwork} (h : I.InStep prog net) {c : Nat}
    (hc : prog c ≠ .idle) : c < numberOfClps := I.lt_of_below (h.sound.below c hc)

end Inquiry

end RangeNetwork
end PdesMas
