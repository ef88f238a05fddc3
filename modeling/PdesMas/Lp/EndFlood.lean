import Mathlib.Data.List.Perm.Basic
import PdesMas.Library.Flood
import PdesMas.Library.RouteWalks
import PdesMas.Lp.EndMessages
import PdesMas.Routing.Delivery

/-!
The flood of the end messages. Where every CLP has two children or none and ALPs
are at CLPs without children, the end message of an ALP goes down the tree that
has the ALP on top: every CLP gets it once, and the root does not ask for the
last GVT before it has had all of them.
-/

namespace PdesMas
namespace EndNetwork

/-- A CLP has two CLPs below it or none, and the ALPs are at those that have none. -/
structure LeafAlps (numberOfClps : Nat) (alpToClpMap : Std.TreeMap Nat Nat) : Prop where
  full : ∀ c, 2 * c + 1 < numberOfClps → 2 * c + 2 < numberOfClps
  ranks : ∀ a, a ∈ alpToClpMap ↔ numberOfClps ≤ a ∧ a < numberOfClps + alpToClpMap.size
  leaves : ∀ a c : Nat, alpToClpMap[a]? = some c → c < numberOfClps ∧ numberOfClps ≤ 2 * c + 1

section Tree

variable {numberOfClps home alp : Nat}

/-- Above a CLP is the next one on the way to the home of the ALP, above the home the ALP. -/
noncomputable def above (home alp v : Nat) : Nat :=
  if v = home then alp else HeapTree.nextHop v home

theorem descends_above (hhome : home < numberOfClps) (v : Nat) (hv : v < numberOfClps) :
    Flood.Descends (above home alp) {v | v < numberOfClps} alp v := by
  obtain ⟨l, hl⟩ := HeapTree.exists_route v home
  induction hl with
  | here => exact .child hv (if_pos rfl)
  | @step v l hne _ ih =>
      refine .step hv ?_
      have hup : above home alp v = HeapTree.nextHop v home := if_neg hne
      rw [hup]
      exact ih (Nat.lt_of_le_of_lt (HeapTree.nextHop_le_max v home) (Nat.max_lt.mpr ⟨hv, hhome⟩))

/-- The tree of CLPs, hung up at an ALP. -/
noncomputable def floodTree (hhome : home < numberOfClps) (halp : numberOfClps ≤ alp) :
    Flood.Tree Nat where
  parent := above home alp
  vertices := {v | v < numberOfClps}
  source := alp
  source_notMem := Nat.not_lt.mpr halp
  descends := descends_above hhome

/-- Below a CLP are its neighbours, but for the one above it. -/
theorem above_eq_iff (halp : numberOfClps ≤ alp) {u v : Nat} (hu : u < numberOfClps)
    (hv : v < numberOfClps) :
    above home alp v = u ↔ HeapTree.Adj u v ∧ v ≠ above home alp u := by
  by_cases hvh : v = home
  · subst hvh
    have hself : above v alp v = alp := if_pos rfl
    rw [hself]
    constructor
    · intro heq
      omega
    · intro ⟨hadj, hne⟩
      have hup : above v alp u = HeapTree.nextHop u v := if_neg hadj.ne
      exact absurd (hup.trans (HeapTree.nextHop_of_adj hadj)).symm hne
  · have hup : above home alp v = HeapTree.nextHop v home := if_neg hvh
    rw [hup]
    by_cases huh : u = home
    · subst huh
      have hself : above u alp u = alp := if_pos rfl
      rw [hself]
      constructor
      · intro heq
        refine ⟨?_, by omega⟩
        have hadj := HeapTree.adj_nextHop hvh
        rw [heq] at hadj
        exact hadj.symm
      · intro ⟨hadj, _⟩
        exact HeapTree.nextHop_of_adj hadj.symm
    · have hother : above home alp u = HeapTree.nextHop u home := if_neg huh
      rw [hother]
      constructor
      · intro heq
        have hadj := HeapTree.adj_nextHop hvh
        rw [heq] at hadj
        exact ⟨hadj.symm,
          Ne.symm ((HeapTree.separates hadj (Ne.symm hvh) (Ne.symm huh)).mp heq)⟩
      · intro ⟨hadj, hne⟩
        exact (HeapTree.separates hadj.symm (Ne.symm hvh) (Ne.symm huh)).mpr (Ne.symm hne)

end Tree

section Process

variable {numberOfClps home alp : Nat} {c : EndClp} {m : EndMessage}

theorem processEndMessage_rank :
    (c.processEndMessage m).clp.rank = c.rank ∧
      (c.processEndMessage m).clp.numberOfClps = c.numberOfClps ∧
      (c.processEndMessage m).clp.numberOfAlps = c.numberOfAlps := by
  simp only [EndClp.processEndMessage]
  split
  · exact ⟨rfl, rfl, rfl⟩
  · split
    · exact ⟨rfl, rfl, rfl⟩
    · exact ⟨rfl, rfl, rfl⟩

/-- A CLP in the middle sends to its two neighbours other than the one it has the message from. -/
theorem middleDestinations_spec (hrank : c.rank ≠ 0) (hadj : HeapTree.Adj c.rank m.origin) :
    (c.middleDestinations m).Nodup ∧
      ∀ v, v ∈ c.middleDestinations m ↔ HeapTree.Adj c.rank v ∧ v ≠ m.origin := by
  have hcases : m.origin = c.leftCLP ∨ m.origin = c.rightCLP ∨ m.origin = c.parentCLP := by
    simp only [HeapTree.Adj] at hadj
    simp only [EndClp.leftCLP, EndClp.rightCLP, EndClp.parentCLP]
    omega
  have hright : c.rightCLP ≠ c.leftCLP := by
    simp only [EndClp.leftCLP, EndClp.rightCLP]
    omega
  have hparent : c.parentCLP ≠ c.leftCLP ∧ c.parentCLP ≠ c.rightCLP := by
    simp only [EndClp.leftCLP, EndClp.rightCLP, EndClp.parentCLP]
    omega
  have hneighbour : ∀ v, HeapTree.Adj c.rank v ↔
      v = c.leftCLP ∨ v = c.rightCLP ∨ v = c.parentCLP := by
    intro v
    simp only [HeapTree.Adj, EndClp.leftCLP, EndClp.rightCLP, EndClp.parentCLP]
    omega
  simp only [hneighbour, EndClp.middleDestinations]
  rcases hcases with horigin | horigin | horigin
  · rw [if_pos horigin, horigin]
    simp
    grind
  · rw [if_neg (by rw [horigin]; exact hright), if_pos horigin, horigin]
    simp
    grind
  · rw [if_neg (by rw [horigin]; exact hparent.1), if_neg (by rw [horigin]; exact hparent.2),
      if_pos horigin, horigin]
    simp
    grind

/-- The copies go to the CLPs below, one to each. -/
theorem exists_sent (hfull : 2 * c.rank + 1 < numberOfClps → 2 * c.rank + 2 < numberOfClps)
    (hleaf : numberOfClps ≤ 2 * home + 1) (hhome : home < numberOfClps)
    (halp : numberOfClps ≤ alp) (hrank : c.rank < numberOfClps)
    (hclps : c.numberOfClps = numberOfClps) (horigin : m.origin = above home alp c.rank) :
    ∃ dests : List Nat, (c.processEndMessage m).sent = dests.map (c.copy m) ∧ dests.Nodup ∧
      ∀ v, v ∈ dests ↔ v < numberOfClps ∧ above home alp v = c.rank := by
  have hbelow : ∀ v, (v < numberOfClps ∧ above home alp v = c.rank) ↔
      v < numberOfClps ∧ HeapTree.Adj c.rank v ∧ v ≠ m.origin := by
    intro v
    rw [horigin]
    exact and_congr_right fun hv => above_eq_iff halp hrank hv
  have hfrom : c.rank = home ∧ m.origin = alp ∨
      c.rank ≠ home ∧ m.origin < numberOfClps ∧ HeapTree.Adj c.rank m.origin := by
    by_cases heq : c.rank = home
    · left
      exact ⟨heq, horigin.trans (if_pos heq)⟩
    · right
      have hup : m.origin = HeapTree.nextHop c.rank home := horigin.trans (if_neg heq)
      have hle := HeapTree.nextHop_le_max c.rank home
      rw [hup]
      exact ⟨heq, by omega, HeapTree.adj_nextHop heq⟩
  simp only [hbelow, EndClp.processEndMessage, hclps]
  split
  · rename_i hmiddle
    have hinner : c.rank ≠ home := by omega
    obtain ⟨_, _, hadj⟩ := hfrom.resolve_left fun h => hinner h.1
    obtain ⟨hnodup, hmem⟩ := middleDestinations_spec hmiddle.1 hadj
    refine ⟨c.middleDestinations m, rfl, hnodup, fun v => ?_⟩
    rw [hmem]
    refine (and_iff_right_of_imp fun hv => ?_).symm
    have hvadj := hv.1
    simp only [HeapTree.Adj] at hvadj
    omega
  · split
    · rename_i hleafClp
      have hparent : c.parentCLP = (c.rank + 1) / 2 - 1 := rfl
      simp only [HeapTree.Adj] at hfrom ⊢
      have hup : m.origin = c.parentCLP ∨ m.origin = alp := by omega
      cases hup with
      | inl hup =>
          refine ⟨[], by rw [if_neg (fun h => h hup)]; rfl, List.nodup_nil, fun v => ?_⟩
          simp only [List.not_mem_nil, false_iff]
          omega
      | inr hup =>
          refine ⟨[c.parentCLP], ?_, List.nodup_singleton _, fun v => ?_⟩
          · rw [if_pos (by omega)]
            rfl
          · rw [List.mem_singleton]
            omega
    · rename_i hmiddle hleafClp
      have hroot : c.rank = 0 := by omega
      simp only [HeapTree.Adj, hroot] at hfrom ⊢
      by_cases hinner : 0 < numberOfClps / 2
      · have hside : m.origin = 1 ∨ m.origin = 2 := by omega
        refine ⟨[if m.origin = c.leftCLP then c.rightCLP else c.leftCLP], ?_,
          List.nodup_singleton _, fun v => ?_⟩
        · rw [if_pos hinner]
          rfl
        · simp only [EndClp.leftCLP, EndClp.rightCLP, hroot, List.mem_singleton]
          split
          · omega
          · omega
      · refine ⟨[], by rw [if_neg hinner]; rfl, List.nodup_nil, fun v => ?_⟩
        simp only [List.not_mem_nil, false_iff]
        omega

theorem count_copies (c : EndClp) (m : EndMessage) (dests : List Nat) (u v b : Nat) :
    (dests.map (c.copy m)).count ⟨u, v, b⟩ =
      if u = c.rank ∧ b = m.senderAlp then dests.count v else 0 := by
  induction dests with
  | nil => simp
  | cons d dests ih =>
      rw [List.map_cons, List.count_cons, ih, List.count_cons]
      simp only [EndClp.copy, beq_iff_eq, EndMessage.mk.injEq]
      by_cases hcond : u = c.rank ∧ b = m.senderAlp
      · simp [hcond.1, hcond.2]
      · rw [if_neg hcond, if_neg hcond, if_neg fun h => hcond ⟨h.1.symm, h.2.2.symm⟩]

/-- At the root, an entry that is set was set before or is that of the sender. -/
theorem received_of_processEndMessage {i : Nat}
    (h : (c.processEndMessage m).clp.endMessagesReceived[i]? = some true) :
    c.endMessagesReceived[i]? = some true ∨
      c.rank = 0 ∧ i = m.senderAlp - c.numberOfClps := by
  simp only [EndClp.processEndMessage] at h
  split at h
  · exact .inl h
  · split at h
    · exact .inl h
    · rename_i hmiddle hleafClp
      have hroot : c.rank = 0 := by omega
      simp only [List.getElem?_set] at h
      split at h
      · rename_i hi
        exact .inr ⟨hroot, hi.symm⟩
      · exact .inl h

/-- Only the root asks for a GVT, and only when all entries are set. -/
theorem requestsGvt_of_processEndMessage (h : (c.processEndMessage m).requestsGvt = true) :
    c.rank = 0 ∧ (c.processEndMessage m).clp.allEndMessagesReceived = true := by
  simp only [EndClp.processEndMessage] at h ⊢
  split at h
  · cases h
  · split at h
    · cases h
    · rename_i hmiddle hleafClp
      rw [if_neg hmiddle, if_neg hleafClp]
      refine ⟨by omega, ?_⟩
      exact (Bool.and_eq_true_iff.mp h).1

end Process

section Run

variable {numberOfClps : Nat} {alpToClpMap : Std.TreeMap Nat Nat} {net net' : EndNetwork}
  {os : List Output}

/-- The copies of the end message of `alp` on their way from `u` to `v`. -/
def flying (net : EndNetwork) (alp u v : Nat) : Nat := net.inFlight.count ⟨u, v, alp⟩

/-- How often a CLP has had the end message of `alp`; the ALP has it when it has sent it. -/
def timesHad (net : EndNetwork) (os : List Output) (alp v : Nat) : Nat :=
  (processedBy alp os).count v + if v = alp ∧ alp ∈ net.finalised then 1 else 0

@[simp] theorem processedBy_append (alp : Nat) (os os' : List Output) :
    processedBy alp (os ++ os') = processedBy alp os ++ processedBy alp os' :=
  List.filterMap_append

@[simp] theorem processedBy_nothing (alp : Nat) : processedBy alp [.nothing] = [] := rfl

@[simp] theorem processedBy_processed (alp clp sender : Nat) (requestsGvt : Bool) :
    processedBy alp [.processed clp sender requestsGvt] =
      if sender = alp then [clp] else [] := by
  by_cases h : sender = alp
  · simp [processedBy, h]
  · simp [processedBy, h]

theorem LeafAlps.alp_le (h : LeafAlps numberOfClps alpToClpMap) {alp home : Nat}
    (hhome : alpToClpMap[alp]? = some home) : numberOfClps ≤ alp := by
  have hmem : alp ∈ alpToClpMap := by
    rw [Std.TreeMap.mem_iff_isSome_getElem?, hhome]
    rfl
  exact ((h.ranks alp).mp hmem).1

/-- What holds of the network and the history of its run. -/
structure Floods (hleaf : LeafAlps numberOfClps alpToClpMap) (net : EndNetwork)
    (os : List Output) : Prop where
  rank : ∀ c, c < numberOfClps → (net.clp c).rank = c
  clps : ∀ c, c < numberOfClps → (net.clp c).numberOfClps = numberOfClps
  alps : ∀ c, c < numberOfClps → (net.clp c).numberOfAlps = alpToClpMap.size
  senders : ∀ m ∈ net.inFlight, m.senderAlp ∈ alpToClpMap
  flooded : ∀ (alp home : Nat) (hhome : alpToClpMap[alp]? = some home),
    Flood.Flooded (floodTree (hleaf.leaves alp home hhome).1 (hleaf.alp_le hhome))
      (flying net alp) (timesHad net os alp)
  received : ∀ i : Nat, (net.clp 0).endMessagesReceived[i]? = some true →
    0 ∈ processedBy (numberOfClps + i) os
  processed : ∀ alp, ∀ v ∈ processedBy alp os, v < numberOfClps

variable {hleaf : LeafAlps numberOfClps alpToClpMap}

theorem floods_initial (hleaf : LeafAlps numberOfClps alpToClpMap) :
    Floods hleaf (initial numberOfClps alpToClpMap) [] := by
  refine ⟨fun _ _ => rfl, fun _ _ => rfl, fun _ _ => rfl, nofun, fun alp home hhome => ?_,
    fun i h => ?_, fun _ => nofun⟩
  · have hhad : timesHad (initial numberOfClps alpToClpMap) [] alp = fun _ => 0 := by
      funext v
      simp [timesHad, processedBy, initial]
    rw [hhad]
    exact Flood.flooded_zero _
  · simp only [initial, EndClp.start, List.getElem?_replicate] at h
    split at h
    · cases h
    · cases h

/-- An ALP sends its end message to its CLP. -/
theorem Floods.finalise (h : Floods hleaf net os) {alp parentClp : Nat}
    (hclp : alpToClpMap[alp]? = some parentClp) (hfirst : alp ∉ net.finalised) :
    Floods hleaf
      { net with
        inFlight := net.inFlight ++ [⟨alp, parentClp, alp⟩]
        finalised := alp :: net.finalised } (os ++ [.nothing]) := by
  refine ⟨h.rank, h.clps, h.alps, fun m hm => ?_, fun a home hhome => ?_, fun i hi => ?_,
    fun a => ?_⟩
  · cases List.mem_append.mp hm with
    | inl hm => exact h.senders m hm
    | inr hm =>
        rw [List.mem_singleton.mp hm, Std.TreeMap.mem_iff_isSome_getElem?, hclp]
        rfl
  · have halp := hleaf.alp_le hhome
    by_cases ha : a = alp
    · subst ha
      obtain rfl : home = parentClp := Option.some.inj (hhome.symm.trans hclp)
      have hchild : ∀ v, v < numberOfClps ∧ above home a v = a ↔ v = home := by
        intro v
        constructor
        · intro ⟨hv, hup⟩
          by_contra hne
          have hnext : above home a v = HeapTree.nextHop v home := if_neg hne
          have hlt := (hleaf.leaves a home hhome).1
          have hle := HeapTree.nextHop_le_max v home
          omega
        · intro heq
          exact ⟨heq ▸ (hleaf.leaves a home hhome).1, if_pos heq⟩
      have hcopies : Flood.ToChildren (floodTree (hleaf.leaves a home hhome).1 halp) a
          fun v => if v = home then 1 else 0 :=
        fun v => ⟨fun hc => if_pos ((hchild v).mp hc), fun hc => if_neg fun heq =>
          hc ((hchild v).mpr heq)⟩
      apply (h.flooded a home hhome).emit hcopies
      · intro u v
        simp only [flying, List.count_append, List.count_singleton, beq_iff_eq,
          EndMessage.mk.injEq]
        grind
      · intro v
        simp [timesHad, hfirst]
      · exact Nat.not_lt.mpr halp
    · have hflying : flying { net with
          inFlight := net.inFlight ++ [⟨alp, parentClp, alp⟩]
          finalised := alp :: net.finalised } a = flying net a := by
        funext u v
        simp [flying, List.count_append, Ne.symm ha]
      have hhad : timesHad { net with
          inFlight := net.inFlight ++ [⟨alp, parentClp, alp⟩]
          finalised := alp :: net.finalised } (os ++ [.nothing]) a = timesHad net os a := by
        funext v
        simp [timesHad, ha]
      rw [hflying, hhad]
      exact h.flooded a home hhome
  · simpa using h.received i hi
  · simpa using h.processed a

/-- A message arrives, and its copies go out. -/
theorem Floods.deliver (h : Floods hleaf net os) {k : Nat} {m : EndMessage}
    (hm : net.inFlight[k]? = some m) :
    m.destination < numberOfClps ∧
      Floods hleaf
        { net with
          clp := Function.update net.clp m.destination
            ((net.clp m.destination).processEndMessage m).clp
          inFlight :=
            net.inFlight.eraseIdx k ++ ((net.clp m.destination).processEndMessage m).sent }
        (os ++ [.processed m.destination m.senderAlp
          ((net.clp m.destination).processEndMessage m).requestsGvt]) := by
  have hmem : m ∈ net.inFlight := List.mem_of_getElem? hm
  obtain ⟨home, hhome⟩ : ∃ home, alpToClpMap[m.senderAlp]? = some home :=
    Option.isSome_iff_exists.mp (Std.TreeMap.mem_iff_isSome_getElem?.mp (h.senders m hmem))
  obtain ⟨hlt, hchildless⟩ := hleaf.leaves _ _ hhome
  have halp := hleaf.alp_le hhome
  have hflood := h.flooded _ _ hhome
  have hflies : flying net m.senderAlp m.origin m.destination ≠ 0 :=
    Nat.pos_iff_ne_zero.mp (List.count_pos_iff.mpr hmem)
  obtain ⟨hdest, horigin⟩ := hflood.away _ _ hflies
  have hdest : m.destination < numberOfClps := hdest
  have horigin : m.origin = above home m.senderAlp m.destination := horigin
  have hrank := h.rank _ hdest
  obtain ⟨dests, hsent, hnodup, hchildren⟩ := exists_sent (c := net.clp m.destination) (m := m)
    (by rw [hrank]; exact hleaf.full m.destination) hchildless hlt halp (by rw [hrank]; exact hdest)
    (h.clps _ hdest) (by rw [hrank]; exact horigin)
  rw [hrank] at hchildren
  have hperm : (m :: net.inFlight.eraseIdx k).Perm net.inFlight := by
    obtain ⟨hk, heq⟩ := List.getElem?_eq_some_iff.mp hm
    exact heq ▸ List.getElem_cons_eraseIdx_perm hk
  have hcount : ∀ u v b, (net.inFlight.eraseIdx k ++
      ((net.clp m.destination).processEndMessage m).sent).count ⟨u, v, b⟩ +
        (if m = ⟨u, v, b⟩ then 1 else 0) = net.inFlight.count ⟨u, v, b⟩ +
          if u = m.destination ∧ b = m.senderAlp then dests.count v else 0 := by
    intro u v b
    rw [← hperm.count_eq, hsent, List.count_append, count_copies, List.count_cons, hrank]
    simp only [beq_iff_eq]
    omega
  have hkept : ∀ (f : EndClp → Nat), f ((net.clp m.destination).processEndMessage m).clp =
      f (net.clp m.destination) → ∀ x, f (Function.update net.clp m.destination
        ((net.clp m.destination).processEndMessage m).clp x) = f (net.clp x) := by
    intro f hf x
    rw [Function.update_apply]
    split
    · rename_i hx
      rw [hf, hx]
    · rfl
  obtain ⟨hkeepsRank, hkeepsClps, hkeepsAlps⟩ :=
    processEndMessage_rank (c := net.clp m.destination) (m := m)
  refine ⟨hdest, ⟨fun x hx => ?_, fun x hx => ?_, fun x hx => ?_, fun m' hm' => ?_,
    fun a home' hhome' => ?_, fun i hi => ?_, fun a v hv => ?_⟩⟩
  · exact (hkept EndClp.rank hkeepsRank x).trans (h.rank x hx)
  · exact (hkept EndClp.numberOfClps hkeepsClps x).trans (h.clps x hx)
  · exact (hkept EndClp.numberOfAlps hkeepsAlps x).trans (h.alps x hx)
  · cases List.mem_append.mp hm' with
    | inl hm' => exact h.senders m' (List.mem_of_mem_eraseIdx hm')
    | inr hm' =>
        rw [hsent] at hm'
        obtain ⟨d, _, rfl⟩ := List.mem_map.mp hm'
        exact h.senders m hmem
  · by_cases ha : a = m.senderAlp
    · subst ha
      obtain rfl : home = home' := Option.some.inj (hhome.symm.trans hhome')
      have hcopies :
          Flood.ToChildren (floodTree hlt halp) m.destination fun v => dests.count v := by
        intro v
        simp only [hnodup.count, hchildren]
        exact ⟨fun hc => if_pos hc, fun hc => if_neg hc⟩
      apply hflood.arrive hdest hcopies
      · intro u v
        have hone := hcount u v m.senderAlp
        have hself : m = ⟨u, v, m.senderAlp⟩ ↔ u = above home m.senderAlp m.destination ∧
            v = m.destination := by
          rw [← horigin]
          constructor
          · intro heq
            exact ⟨(congrArg EndMessage.origin heq).symm,
              (congrArg EndMessage.destination heq).symm⟩
          · intro ⟨hu, hv⟩
            rw [hu, hv]
        simp only [hself, and_true] at hone
        exact hone
      · intro v
        simp only [timesHad, processedBy_append, processedBy_processed, List.count_append]
        rw [if_pos True.intro, List.count_singleton]
        by_cases hv : v = m.destination
        · simp [hv]
          omega
        · simp [hv, Ne.symm hv]
    · have hflying : flying { net with
          clp := Function.update net.clp m.destination
            ((net.clp m.destination).processEndMessage m).clp
          inFlight := net.inFlight.eraseIdx k ++
            ((net.clp m.destination).processEndMessage m).sent } a = flying net a := by
        funext u v
        have hone := hcount u v a
        rw [if_neg fun heq => ha (congrArg EndMessage.senderAlp heq).symm,
          if_neg fun hc => ha hc.2] at hone
        exact hone
      have hhad : timesHad { net with
          clp := Function.update net.clp m.destination
            ((net.clp m.destination).processEndMessage m).clp
          inFlight := net.inFlight.eraseIdx k ++
            ((net.clp m.destination).processEndMessage m).sent }
          (os ++ [.processed m.destination m.senderAlp
            ((net.clp m.destination).processEndMessage m).requestsGvt]) a =
          timesHad net os a := by
        funext v
        simp [timesHad, Ne.symm ha]
      rw [hflying, hhad]
      exact h.flooded a home' hhome'
  · simp only [processedBy_append, processedBy_processed]
    simp only [Function.update_apply] at hi
    split at hi
    · rename_i hzero
      cases received_of_processEndMessage hi with
      | inl hbefore =>
          rw [← hzero] at hbefore
          exact List.mem_append_left _ (h.received i hbefore)
      | inr hnow =>
          obtain ⟨_, hi⟩ := hnow
          rw [h.clps _ hdest] at hi
          have hsender : m.senderAlp = numberOfClps + i := by omega
          rw [if_pos hsender, ← hzero]
          exact List.mem_append_right _ (List.mem_singleton_self 0)
    · exact List.mem_append_left _ (h.received i hi)
  · rw [processedBy_append, processedBy_processed] at hv
    cases List.mem_append.mp hv with
    | inl hv => exact h.processed a v hv
    | inr hv =>
        split at hv
        · rw [List.mem_singleton.mp hv]
          exact hdest
        · cases hv

theorem Floods.setGvt (h : Floods hleaf net os) (clp : Nat) :
    Floods hleaf { net with clp := Function.update net.clp clp (net.clp clp).setGvt }
      (os ++ [.nothing]) := by
  have hkept : ∀ {β : Type} (f : EndClp → β), (∀ c : EndClp, f c.setGvt = f c) → ∀ x,
      f (Function.update net.clp clp (net.clp clp).setGvt x) = f (net.clp x) := by
    intro β f hf x
    rw [Function.update_apply]
    split
    · rename_i hx
      rw [hf, hx]
    · rfl
  refine ⟨fun x hx => ?_, fun x hx => ?_, fun x hx => ?_, h.senders, fun a home hhome => ?_,
    fun i hi => ?_, fun a => ?_⟩
  · exact (hkept EndClp.rank (fun _ => rfl) x).trans (h.rank x hx)
  · exact (hkept EndClp.numberOfClps (fun _ => rfl) x).trans (h.clps x hx)
  · exact (hkept EndClp.numberOfAlps (fun _ => rfl) x).trans (h.alps x hx)
  · have hhad : timesHad { net with clp := Function.update net.clp clp (net.clp clp).setGvt }
        (os ++ [.nothing]) a = timesHad net os a := by
      funext v
      simp [timesHad]
    rw [hhad]
    exact h.flooded a home hhome
  · rw [processedBy_append, processedBy_nothing, List.append_nil]
    apply h.received
    rw [← hi]
    exact congrArg (fun l : List Bool => l[i]?)
      (hkept EndClp.endMessagesReceived (fun _ => rfl) 0).symm
  · simpa using h.processed a

theorem Floods.step (h : Floods hleaf net os) {e : Event} {o : Output}
    (hstep : (machine numberOfClps alpToClpMap).step net e = some (net', o)) :
    Floods hleaf net' (os ++ [o]) := by
  cases e with
  | finalise alp =>
      obtain ⟨parentClp, hclp, hstep⟩ := Option.bind_eq_some_iff.mp hstep
      split at hstep
      · cases hstep
      · rename_i hfirst
        cases hstep
        exact h.finalise hclp hfirst
  | deliver k =>
      obtain ⟨m, hm, hstep⟩ := Option.bind_eq_some_iff.mp hstep
      split at hstep
      · cases hstep
        exact (h.deliver hm).2
      · cases hstep
  | setGvt clp =>
      simp only [machine, EndNetwork.step] at hstep
      split at hstep
      · cases hstep
        exact h.setGvt clp
      · cases hstep

theorem Floods.run {es : List Event} {os' : List Output} (h : Floods hleaf net os)
    (hrun : (machine numberOfClps alpToClpMap).run net es = some (net', os')) :
    Floods hleaf net' (os ++ os') := by
  induction es generalizing net os os' with
  | nil =>
      cases hrun
      rwa [List.append_nil]
  | cons e es ih =>
      obtain ⟨net₁, o, os₁, hstep, hrest, rfl⟩ := (Machine.run_cons_iff _).mp hrun
      have hdone := ih (h.step hstep) hrest
      rwa [List.append_assoc] at hdone

/-- A copy on its way to `v` comes from above. -/
theorem Floods.count_pending (h : Floods hleaf net os) {alp home : Nat}
    (hhome : alpToClpMap[alp]? = some home) (v : Nat) :
    (pending alp net).count v = flying net alp (above home alp v) v := by
  have hmsg : ∀ m ∈ net.inFlight, m.senderAlp = alp → m.destination = v →
      m = ⟨above home alp v, v, alp⟩ := by
    intro m hm hsender hdest
    subst hsender hdest
    have hflies : flying net m.senderAlp m.origin m.destination ≠ 0 :=
      Nat.pos_iff_ne_zero.mp (List.count_pos_iff.mpr hm)
    have horigin : m.origin = above home m.senderAlp m.destination :=
      ((h.flooded _ _ hhome).away _ _ hflies).2
    rw [← horigin]
  simp only [pending, flying, List.count_eq_countP, List.countP_map, List.countP_filter]
  apply List.countP_congr
  intro m hm
  simp only [Function.comp_apply, Bool.and_eq_true, beq_iff_eq, decide_eq_true_eq]
  constructor
  · intro hboth
    exact hmsg m hm hboth.2 hboth.1
  · intro heq
    rw [heq]
    exact ⟨rfl, rfl⟩

/-- Of the copies of one end message, those that have arrived and those on their way, each CLP
gets at most one. -/
theorem Floods.nodup (h : Floods hleaf net os) {alp : Nat} (halp : alp ∈ alpToClpMap) :
    (processedBy alp os ++ pending alp net).Nodup ∧
      ∀ v ∈ processedBy alp os ++ pending alp net, v < numberOfClps := by
  obtain ⟨home, hhome⟩ : ∃ home, alpToClpMap[alp]? = some home :=
    Option.isSome_iff_exists.mp (Std.TreeMap.mem_iff_isSome_getElem?.mp halp)
  have hflood := h.flooded alp home hhome
  have hbelow : ∀ v ∈ processedBy alp os ++ pending alp net, v < numberOfClps := by
    intro v hv
    cases List.mem_append.mp hv with
    | inl hv => exact h.processed alp v hv
    | inr hv =>
        have hcount := List.count_pos_iff.mpr hv
        rw [h.count_pending hhome] at hcount
        exact (hflood.away _ _ (Nat.pos_iff_ne_zero.mp hcount)).1
  refine ⟨List.nodup_iff_count_le_one.mpr fun v => ?_, hbelow⟩
  by_cases hv : v < numberOfClps
  · have hle := hflood.done_add_flying_le hv
    have hge := hleaf.alp_le hhome
    have hnone : (processedBy alp os).count alp = 0 :=
      List.count_eq_zero_of_not_mem fun hmem => Nat.not_lt.mpr hge (h.processed alp alp hmem)
    have hsource : timesHad net os alp alp ≤ 1 := by
      rw [timesHad, hnone]
      split
      · exact Nat.le_refl 1
      · exact Nat.zero_le 1
    have hhad : timesHad net os alp v = (processedBy alp os).count v := by
      rw [timesHad, if_neg fun hc => by omega, Nat.add_zero]
    rw [List.count_append, h.count_pending hhome, ← hhad]
    exact Nat.le_trans hle hsource
  · rw [List.count_eq_zero_of_not_mem fun hmem => hv (hbelow v hmem)]
    exact Nat.zero_le 1

/-- When no copy is left, each CLP has had one. -/
theorem Floods.perm (h : Floods hleaf net os) {alp : Nat} (halp : alp ∈ alpToClpMap)
    (hsent : alp ∈ net.finalised) (hempty : pending alp net = []) :
    (processedBy alp os).Perm (List.range numberOfClps) := by
  obtain ⟨home, hhome⟩ : ∃ home, alpToClpMap[alp]? = some home :=
    Option.isSome_iff_exists.mp (Std.TreeMap.mem_iff_isSome_getElem?.mp halp)
  have hflood := h.flooded alp home hhome
  have hge := hleaf.alp_le hhome
  obtain ⟨hnodup, hbelow⟩ := h.nodup halp
  rw [hempty, List.append_nil] at hnodup hbelow
  have hflying : ∀ u v, flying net alp u v = 0 := by
    intro u v
    by_contra hne
    have hup := (hflood.away u v hne).2
    have hcount := h.count_pending hhome v
    rw [hempty, List.count_nil] at hcount
    exact hne (hup ▸ hcount.symm)
  rw [List.perm_ext_iff_of_nodup hnodup List.nodup_range]
  intro v
  rw [List.mem_range]
  refine ⟨hbelow v, fun hv => ?_⟩
  have hdone := hflood.done_eq hflying hv
  have hsource : timesHad net os alp alp ≠ 0 := by
    rw [timesHad, if_pos ⟨rfl, hsent⟩]
    exact Nat.succ_ne_zero _
  have hhad : timesHad net os alp v = (processedBy alp os).count v := by
    rw [timesHad, if_neg fun hc => by omega, Nat.add_zero]
  rw [hhad] at hdone
  apply List.count_pos_iff.mp
  rw [hdone]
  exact Nat.pos_iff_ne_zero.mpr hsource

/-- The root asks for a GVT only when it has had every end message, this one included. -/
theorem Floods.root (h : Floods hleaf net os) {k clp alp : Nat}
    (hstep : (machine numberOfClps alpToClpMap).step net (.deliver k) =
      some (net', .processed clp alp true)) :
    clp = 0 ∧ ∀ a, a ∈ alpToClpMap → 0 ∈ processedBy a (os ++ [.processed clp alp true]) := by
  have hnext := h.step hstep
  obtain ⟨m, hm, hstep⟩ := Option.bind_eq_some_iff.mp hstep
  split at hstep
  · rename_i hdest
    obtain ⟨hnet, houtput⟩ := Prod.mk.inj (Option.some.inj hstep)
    obtain ⟨hclp, _, hrequests⟩ := Output.processed.inj houtput
    obtain ⟨hrank, hall⟩ := requestsGvt_of_processEndMessage hrequests
    have hzero : m.destination = 0 := (h.rank _ hdest).symm.trans hrank
    refine ⟨hclp.symm.trans hzero, fun a ha => ?_⟩
    have hrange := (hleaf.ranks a).mp ha
    have hclpZero : net'.clp 0 = ((net.clp m.destination).processEndMessage m).clp := by
      rw [← hnet, ← hzero]
      exact Function.update_self ..
    rw [← hclpZero] at hall
    have halps : (net'.clp 0).numberOfAlps = alpToClpMap.size := hnext.alps 0 (hzero ▸ hdest)
    have hentry := List.all_eq_true.mp hall (a - numberOfClps)
      (List.mem_range.mpr (by omega))
    rw [List.getD_eq_getElem?_getD] at hentry
    have hreceived := hnext.received (a - numberOfClps) (by
      cases hget : (net'.clp 0).endMessagesReceived[a - numberOfClps]? with
      | none => simp [hget] at hentry
      | some b => simpa [hget] using hentry)
    rwa [Nat.add_sub_cancel' hrange.1] at hreceived
  · cases hstep

/-- In every run, whatever the order of the messages: no CLP gets the end message of an ALP twice,
so that there are no more of them than CLPs; what is on its way can arrive; when nothing is, each
CLP has had it once; and when the root asks for a GVT it has had them all. -/
theorem processed_once (hleaf : LeafAlps numberOfClps alpToClpMap) {es : List Event}
    (hrun : (machine numberOfClps alpToClpMap).run (initial numberOfClps alpToClpMap) es =
      some (net, os)) :
    (∀ alp, alp ∈ alpToClpMap →
      (processedBy alp os ++ pending alp net).Nodup ∧
      (processedBy alp os ++ pending alp net).length ≤ numberOfClps ∧
      (alp ∈ net.finalised → pending alp net = [] →
        (processedBy alp os).Perm (List.range numberOfClps))) ∧
    (∀ k, k < net.inFlight.length →
      ((machine numberOfClps alpToClpMap).step net (.deliver k)).isSome) ∧
    ∀ os₁ clp alp os₂, os = os₁ ++ .processed clp alp true :: os₂ →
      clp = 0 ∧ ∀ a, a ∈ alpToClpMap → 0 ∈ processedBy a (os₁ ++ [.processed clp alp true]) := by
  have h : Floods hleaf net ([] ++ os) := (floods_initial hleaf).run hrun
  rw [List.nil_append] at h
  refine ⟨fun alp halp => ?_, fun k hk => ?_, fun os₁ clp alp os₂ hos => ?_⟩
  · obtain ⟨hnodup, hbelow⟩ := h.nodup halp
    refine ⟨hnodup, ?_, h.perm halp⟩
    have hsubset : processedBy alp os ++ pending alp net ⊆ List.range numberOfClps :=
      fun v hv => List.mem_range.mpr (hbelow v hv)
    have hle := (hnodup.subperm hsubset).length_le
    rwa [List.length_range] at hle
  · have hm : net.inFlight[k]? = some net.inFlight[k] := List.getElem?_eq_getElem hk
    have hdest := (h.deliver hm).1
    simp [machine, EndNetwork.step, hm, hdest]
  · subst hos
    obtain ⟨es₁, e, es₂, net₁, net₂, _, hrun₁, hstep, _⟩ := Machine.run_split _ hrun
    have h₁ : Floods hleaf net₁ ([] ++ os₁) := (floods_initial hleaf).run hrun₁
    rw [List.nil_append] at h₁
    cases e with
    | finalise a =>
        obtain ⟨_, _, hstep⟩ := Option.bind_eq_some_iff.mp hstep
        split at hstep
        · cases hstep
        · cases hstep
    | deliver k => exact h₁.root hstep
    | setGvt c =>
        simp only [machine, EndNetwork.step] at hstep
        split at hstep
        · cases hstep
        · cases hstep

/-- Two ALPs at the two leaves of three CLPs. -/
theorem leafAlps_twoAgents : LeafAlps 3 RouteTable.twoAgents.alpToClpMap := by
  refine ⟨by omega, RouteTable.attached_twoAgents.ranks, fun a c hac => ?_⟩
  have hmem : a ∈ RouteTable.twoAgents.alpToClpMap := by
    rw [Std.TreeMap.mem_iff_isSome_getElem?, hac]
    rfl
  have hrange := (RouteTable.attached_twoAgents.ranks a).mp hmem
  have hsize : RouteTable.twoAgents.alpToClpMap.size = 2 := by decide
  have hcases : a = 3 ∨ a = 4 := by omega
  cases hcases with
  | inl ha =>
      subst ha
      have hthree : RouteTable.twoAgents.alpToClpMap[3]? = some 1 := by decide
      obtain rfl := Option.some.inj (hac.symm.trans hthree)
      omega
  | inr ha =>
      subst ha
      have hfour : RouteTable.twoAgents.alpToClpMap[4]? = some 2 := by decide
      obtain rfl := Option.some.inj (hac.symm.trans hfour)
      omega

/-- Both floods at once, each message as soon as it is the oldest. -/
theorem processed_once_twoAgents :
    ∃ net os, (machine 3 RouteTable.twoAgents.alpToClpMap).run
        (initial 3 RouteTable.twoAgents.alpToClpMap)
        [.finalise 3, .finalise 4, .deliver 0, .deliver 0, .deliver 0, .deliver 0, .deliver 0,
          .deliver 0] = some (net, os) ∧
      (processedBy 3 os ++ pending 3 net).length ≤ 3 := by
  have hrun : ((machine 3 RouteTable.twoAgents.alpToClpMap).run
      (initial 3 RouteTable.twoAgents.alpToClpMap)
      [.finalise 3, .finalise 4, .deliver 0, .deliver 0, .deliver 0, .deliver 0, .deliver 0,
        .deliver 0]).isSome = true := by decide
  obtain ⟨⟨net, os⟩, hrun⟩ := Option.isSome_iff_exists.mp hrun
  exact ⟨net, os, hrun, ((processed_once leafAlps_twoAgents hrun).1 3 (by decide)).2.1⟩

end Run

end EndNetwork
end PdesMas
