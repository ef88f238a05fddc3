import PdesMas.Library.RouteWalks
import PdesMas.Routing.Directions

/-!
Delivery by the route tables. Where no CLP has more than two children, CLPs and
ALPs together, every table can be built; from any CLP a message that goes where
the tables point takes the way of the tree, and a variable lies in the direction
of the CLP it is placed on.
-/

namespace PdesMas
namespace RouteTable

section Create

/-- How many children a CLP has: CLPs below it in the tree, and ALPs attached to it. -/
def numberOfChildren (numberOfClps : Nat) (alpToClpMap : Std.TreeMap Nat Nat) (clp : Nat) : Nat :=
  [2 * clp + 1, 2 * clp + 2].countP (fun x => x < numberOfClps) +
    (List.range' numberOfClps alpToClpMap.size).countP fun a => alpToClpMap[a]? = some clp

/-- The ALPs have the ranks behind the CLPs, each is attached to a CLP, and no CLP has more
than two children. -/
structure Attached (numberOfClps : Nat) (alpToClpMap : Std.TreeMap Nat Nat) : Prop where
  ranks : ∀ a, a ∈ alpToClpMap ↔ numberOfClps ≤ a ∧ a < numberOfClps + alpToClpMap.size
  clps : ∀ a c : Nat, alpToClpMap[a]? = some c → c < numberOfClps
  children : ∀ c, c < numberOfClps → numberOfChildren numberOfClps alpToClpMap c ≤ 2

variable {lpRank numberOfClps : Nat} {forwardingTable : ForwardingTable}
  {alpToClpMap : Std.TreeMap Nat Nat}

theorem exists_foldlM_range {σ : Type} {f : σ → Nat → Option σ} {start n : Nat} {s : σ}
    (I : Nat → σ → Prop)
    (hstep : ∀ k s, k < n → I k s → ∃ s', f s (start + k) = some s' ∧ I (k + 1) s') (hs : I 0 s) :
    ∃ s', (List.range' start n).foldlM f s = some s' ∧ I n s' := by
  induction n with
  | zero => exact ⟨s, rfl, hs⟩
  | succ n ih =>
      obtain ⟨q, hq, hI⟩ := ih fun k s hk => hstep k s (by omega)
      obtain ⟨r, hr, hI'⟩ := hstep n q (Nat.lt_succ_self n) hI
      refine ⟨r, ?_, hI'⟩
      rw [List.range'_concat, List.foldlM_append, hq]
      simp [hr]

theorem exists_addClp
    (htable : ∀ x, x < numberOfClps →
      ∃ info, forwardingTable[x]? = some info ∧ ForwardingTable.Describes lpRank x info)
    {k : Nat} (hk : k ≤ numberOfClps) :
    ∃ p, (List.range k).foldlM (Ports.addClp lpRank forwardingTable) (.start lpRank) = some p := by
  induction k with
  | zero => exact ⟨_, rfl⟩
  | succ k ih =>
      obtain ⟨p, hp⟩ := ih (by omega)
      obtain ⟨hdirection, _⟩ := addClp_loop htable (by omega) hp
      obtain ⟨info, hinfo, _, hhops⟩ := htable k (by omega)
      have hstep : ∃ p', Ports.addClp lpRank forwardingTable p k = some p' := by
        simp only [Ports.addClp]
        split
        · exact ⟨p, rfl⟩
        · rename_i hself
          simp only [hinfo, Option.bind_eq_bind, Option.bind_some]
          split
          · rename_i hone
            have hadj : HeapTree.Adj lpRank k := (hhops.mp hone).resolve_left hself
            rw [Ports.addNeighbour, hdirection, (portFrom_adj hadj).2]
            exact ⟨_, rfl⟩
          · exact ⟨p, rfl⟩
      obtain ⟨p', hp'⟩ := hstep
      refine ⟨p', ?_⟩
      rw [List.range_succ, List.foldlM_append, hp]
      simp [hp']

theorem addRemoteClp_direction {p p' : Ports} {rank : Nat}
    (h : Ports.addRemoteClp forwardingTable p rank = some p') : p'.direction = p.direction := by
  obtain rfl | ⟨nextRank, rfl⟩ := addRemoteClp_cases h
  · rfl
  · rfl

theorem exists_addRemoteClp
    (htable : ∀ x, x < numberOfClps →
      ∃ info, forwardingTable[x]? = some info ∧ ForwardingTable.Describes lpRank x info)
    (p : Ports) :
    ∃ p', (List.range numberOfClps).foldlM (Ports.addRemoteClp forwardingTable) p = some p' ∧
      p'.direction = p.direction := by
  rw [List.range_eq_range']
  refine exists_foldlM_range (fun _ (q : Ports) => q.direction = p.direction) ?_ rfl
  intro k q hk hq
  obtain ⟨info, hinfo, _⟩ := htable k hk
  have hstep : ∃ q', Ports.addRemoteClp forwardingTable q (0 + k) = some q' := by
    rw [Nat.zero_add, Ports.addRemoteClp]
    split
    · exact ⟨q, rfl⟩
    · simp only [hinfo, Option.bind_eq_bind, Option.bind_some]
      split
      · exact ⟨_, rfl⟩
      · exact ⟨q, rfl⟩
  obtain ⟨q', hq'⟩ := hstep
  exact ⟨q', hq', (addRemoteClp_direction hq').trans hq⟩

theorem ordinal_portFrom (h : lpRank < numberOfClps) :
    ordinal (portFrom lpRank numberOfClps) =
      2 + [2 * lpRank + 1, 2 * lpRank + 2].countP (fun x => x < numberOfClps) := by
  simp only [portFrom, List.countP_cons, List.countP_nil, decide_eq_true_eq]
  have hup : ¬ (lpRank ≠ 0 ∧ numberOfClps ≤ (lpRank - 1) / 2) := by omega
  rw [if_neg hup]
  by_cases hleft : numberOfClps ≤ 2 * lpRank + 1
  · rw [if_pos hleft, if_neg (by omega), if_neg (by omega)]
    rfl
  · by_cases hright : numberOfClps ≤ 2 * lpRank + 2
    · rw [if_neg hleft, if_pos hright, if_neg (by omega), if_pos (by omega)]
      rfl
    · rw [if_neg hleft, if_neg hright, if_pos (by omega), if_pos (by omega)]
      rfl

/-- There is a next direction as long as not all are used up. -/
theorem exists_next {d : Direction} (h : ordinal d < 4) :
    ∃ next, d.next = some next ∧ ordinal next = ordinal d + 1 := by
  cases d with
  | HERE => exact ⟨_, rfl, rfl⟩
  | UP => exact ⟨_, rfl, rfl⟩
  | LEFT => exact ⟨_, rfl, rfl⟩
  | RIGHT => exact ⟨_, rfl, rfl⟩
  | DIRECTION_SIZE => exact absurd h (Nat.lt_irrefl 4)

/-- The directions given out to the ALPs are as many as the CLP has of them. -/
theorem exists_addAlp (hattached : Attached numberOfClps alpToClpMap)
    (hrank : lpRank < numberOfClps) {p : Ports} (hp : p.direction = portFrom lpRank numberOfClps) :
    ∃ p', (List.range' numberOfClps alpToClpMap.size).foldlM
      (Ports.addAlp lpRank alpToClpMap) p = some p' := by
  let I : Nat → Ports → Prop := fun k q => ordinal q.direction = ordinal p.direction +
    (List.range' numberOfClps k).countP fun a => alpToClpMap[a]? = some lpRank
  have hstep : ∀ k q, k < alpToClpMap.size → I k q →
      ∃ q', Ports.addAlp lpRank alpToClpMap q (numberOfClps + k) = some q' ∧ I (k + 1) q' := by
    intro k q hk hq
    simp only [I] at hq ⊢
    have hmem : numberOfClps + k ∈ alpToClpMap :=
      (hattached.ranks _).mpr ⟨by omega, by omega⟩
    obtain ⟨c, hc⟩ : ∃ c, alpToClpMap[numberOfClps + k]? = some c :=
      Option.isSome_iff_exists.mp (Std.TreeMap.mem_iff_isSome_getElem?.mp hmem)
    have hcount : (List.range' numberOfClps (k + 1)).countP
        (fun a => alpToClpMap[a]? = some lpRank) =
          (List.range' numberOfClps k).countP (fun a => alpToClpMap[a]? = some lpRank) +
            if c = lpRank then 1 else 0 := by
      rw [List.range'_concat, List.countP_append, Nat.one_mul]
      simp [hc]
    simp only [Ports.addAlp, hc, Option.bind_eq_bind, Option.bind_some]
    split
    · rename_i hown
      have hle : (List.range' numberOfClps (k + 1)).countP
          (fun a => alpToClpMap[a]? = some lpRank) ≤
            (List.range' numberOfClps alpToClpMap.size).countP
              (fun a => alpToClpMap[a]? = some lpRank) := by
        apply List.Sublist.countP_le
        exact List.range'_sublist_right.mpr hk
      have hchildren := hattached.children lpRank hrank
      rw [numberOfChildren] at hchildren
      rw [hcount, if_pos hown] at hle
      rw [hp, ordinal_portFrom hrank] at hq
      obtain ⟨next, hnext, hordinal⟩ := exists_next (d := q.direction) (by omega)
      refine ⟨_, by rw [Ports.addNeighbour, hnext]; rfl, ?_⟩
      simp only [hordinal, hcount, if_pos hown, hp, ordinal_portFrom hrank]
      omega
    · rename_i hown
      refine ⟨_, rfl, ?_⟩
      rw [hcount, if_neg hown, Nat.add_zero]
      exact hq
  obtain ⟨p', hp', _⟩ := exists_foldlM_range I hstep (Nat.add_zero _).symm
  exact ⟨p', hp'⟩

theorem exists_placeSsv
    (htable : ∀ x, x < numberOfClps →
      ∃ info, forwardingTable[x]? = some info ∧ ForwardingTable.Describes lpRank x info)
    {placements : List (Nat × SsvId)} (hhosts : ∀ e ∈ placements, e.1 < numberOfClps)
    (m : Std.TreeMap SsvId Direction) :
    ∃ m', placements.foldlM (placeSsv lpRank forwardingTable) m = some m' := by
  induction placements generalizing m with
  | nil => exact ⟨m, rfl⟩
  | cons e placements ih =>
      have hstep : ∃ m₁, placeSsv lpRank forwardingTable m e = some m₁ := by
        simp only [placeSsv]
        split
        · exact ⟨_, rfl⟩
        · obtain ⟨info, hinfo, _⟩ := htable e.1 (hhosts e List.mem_cons_self)
          simp only [hinfo, Option.bind_eq_bind, Option.bind_some]
          split
          · exact ⟨_, rfl⟩
          · exact ⟨_, rfl⟩
      obtain ⟨m₁, hm₁⟩ := hstep
      obtain ⟨m', hm'⟩ := ih (fun e' he' => hhosts e' (List.mem_cons_of_mem _ he')) m₁
      refine ⟨m', ?_⟩
      rw [List.foldlM_cons, hm₁]
      exact hm'

/-- The constructor has a direction for every neighbour. -/
theorem exists_create {initialisor : Initialisor}
    (hattached : Attached numberOfClps initialisor.alpToClpMap)
    (hhosts : ∀ e ∈ initialisor.placements, e.1 < numberOfClps) (hrank : lpRank < numberOfClps) :
    ∃ t, create lpRank numberOfClps initialisor = some t := by
  obtain ⟨table, htable, hdescribes⟩ := ForwardingTable.create_describes hrank
  obtain ⟨ssvs, hssvs⟩ := exists_placeSsv hdescribes hhosts ∅
  obtain ⟨p₁, h₁⟩ := exists_addClp hdescribes (Nat.le_refl _)
  obtain ⟨p₂, h₂, hdirection⟩ := exists_addRemoteClp hdescribes p₁
  obtain ⟨p₃, h₃⟩ := exists_addAlp hattached hrank
    (hdirection.trans (addClp_loop hdescribes (Nat.le_refl _) h₁).1)
  refine ⟨⟨p₃.rankToDirectionMap, p₃.directionToRankMap, ssvs⟩, ?_⟩
  simp only [create, htable, hssvs, h₁, h₂, h₃, Option.bind_eq_bind, Option.bind_some]

end Create

section Ways

variable {numberOfClps : Nat} {initialisor : Initialisor}

/-- The links of the simulation: between parent and child, and between an ALP and its CLP. -/
def links (numberOfClps : Nat) (alpToClpMap : Std.TreeMap Nat Nat) : SimpleGraph Nat :=
  .fromRel fun r s =>
    r < numberOfClps ∧ s < numberOfClps ∧ HeapTree.Adj r s ∨ alpToClpMap[r]? = some s

/-- Where the table of a CLP points for `dest`. -/
def hop (numberOfClps : Nat) (initialisor : Initialisor) (dest rank : Nat) : Option Nat := do
  let t ← create rank numberOfClps initialisor
  let direction ← t.getDirectionFromRank dest
  t.getRankFromDirection direction

/-- The ranks that a message for `dest` comes to, each where the table before it points. -/
inductive Delivery (numberOfClps : Nat) (initialisor : Initialisor) (dest : Nat) :
    Nat → List Nat → Prop
  | arrived : Delivery numberOfClps initialisor dest dest [dest]
  | forward {rank next : Nat} {path : List Nat} (hne : rank ≠ dest)
      (hhop : hop numberOfClps initialisor dest rank = some next)
      (h : Delivery numberOfClps initialisor dest next path) :
      Delivery numberOfClps initialisor dest rank (rank :: path)

namespace Attached

variable {alpToClpMap : Std.TreeMap Nat Nat} (h : Attached numberOfClps alpToClpMap)

theorem getElem?_alp {a : Nat} (ha : a ∈ alpToClpMap) :
    alpToClpMap[a]? = some (alpToClpMap.getD a 0) := by
  obtain ⟨c, hc⟩ := Option.isSome_iff_exists.mp (Std.TreeMap.mem_iff_isSome_getElem?.mp ha)
  rw [Std.TreeMap.getD_eq_getD_getElem?, hc, Option.getD_some]

include h in
theorem clp_lt {a : Nat} (ha : a ∈ alpToClpMap) : alpToClpMap.getD a 0 < numberOfClps :=
  h.clps a _ (getElem?_alp ha)

/-- The CLP of an ALP. -/
def attach (a : {a // a ∈ alpToClpMap}) : {x // x < numberOfClps} :=
  ⟨alpToClpMap.getD a 0, h.clp_lt a.2⟩

/-- The CLPs, and the ALPs hung on them. -/
noncomputable def tree : TreeRouting ({x // x < numberOfClps} ⊕ {a // a ∈ alpToClpMap}) :=
  (HeapTree.routing.restrict {x | x < numberOfClps} fun a ha b hb _ =>
    Nat.lt_of_le_of_lt (HeapTree.nextHop_le_max a b) (Nat.max_lt.mpr ⟨ha, hb⟩)).withLeaves h.attach

end Attached

/-- The rank of a CLP or of an ALP. -/
def rankOf {alpToClpMap : Std.TreeMap Nat Nat} :
    {x // x < numberOfClps} ⊕ {a // a ∈ alpToClpMap} → Nat :=
  Sum.elim Subtype.val Subtype.val

section

variable {alpToClpMap : Std.TreeMap Nat Nat} (h : Attached numberOfClps alpToClpMap)

theorem mem_of_getElem? {a c : Nat} (hat : alpToClpMap[a]? = some c) : a ∈ alpToClpMap := by
  rw [Std.TreeMap.mem_iff_isSome_getElem?, hat]
  rfl

include h in
theorem rankOf_injective :
    Function.Injective (rankOf : {x // x < numberOfClps} ⊕ {a // a ∈ alpToClpMap} → Nat) := by
  intro a b hab
  cases a with
  | inl x =>
      cases b with
      | inl y => exact congrArg Sum.inl (Subtype.ext hab)
      | inr z => exact absurd hab (Nat.ne_of_lt (Nat.lt_of_lt_of_le x.2 ((h.ranks z).mp z.2).1))
  | inr y =>
      cases b with
      | inl x =>
          have hlt := Nat.lt_of_lt_of_le x.2 ((h.ranks y).mp y.2).1
          exact absurd hab.symm (Nat.ne_of_lt hlt)
      | inr z => exact congrArg Sum.inr (Subtype.ext hab)

/-- What is linked to a node is a node next to it in the tree. -/
theorem adj_of_links {a : {x // x < numberOfClps} ⊕ {a // a ∈ alpToClpMap}} {s : Nat}
    (hlink : (links numberOfClps alpToClpMap).Adj (rankOf a) s) :
    ∃ b, rankOf b = s ∧ h.tree.adj a b := by
  have hrel := ((SimpleGraph.fromRel_adj _ _ _).mp hlink).2
  cases a with
  | inl x =>
      have hmem : x.val ∉ alpToClpMap := by
        rw [h.ranks]
        have := x.2
        omega
      have hclp : s < numberOfClps → HeapTree.Adj x s →
          ∃ b, rankOf b = s ∧ h.tree.adj (.inl x) b :=
        fun hs hadj => ⟨.inl ⟨s, hs⟩, rfl, hadj⟩
      rcases hrel with (⟨_, hs, hadj⟩ | hat) | ⟨hs, _, hadj⟩ | hat
      · exact hclp hs hadj
      · exact absurd (mem_of_getElem? hat) hmem
      · exact hclp hs hadj.symm
      · have halp := mem_of_getElem? hat
        refine ⟨.inr ⟨s, halp⟩, rfl, Subtype.ext ?_⟩
        exact Option.some.inj ((Attached.getElem?_alp halp).symm.trans hat)
  | inr a =>
      have hrank := (h.ranks a).mp a.2
      rcases hrel with (⟨hlt, _⟩ | hat) | ⟨_, hlt, _⟩ | hat
      · exact absurd hlt (Nat.not_lt.mpr hrank.1)
      · have hclp := h.clps _ _ hat
        refine ⟨.inl ⟨s, hclp⟩, rfl, Subtype.ext ?_⟩
        exact Option.some.inj ((Attached.getElem?_alp a.2).symm.trans hat)
      · exact absurd hlt (Nat.not_lt.mpr hrank.1)
      · exact absurd (h.clps _ _ hat) (Nat.not_lt.mpr hrank.1)

theorem links_of_adj {a b : {x // x < numberOfClps} ⊕ {a // a ∈ alpToClpMap}}
    (hadj : h.tree.adj a b) : (links numberOfClps alpToClpMap).Adj (rankOf a) (rankOf b) := by
  refine (SimpleGraph.fromRel_adj _ _ _).mpr
    ⟨fun heq => h.tree.adj_ne hadj (rankOf_injective h heq), ?_⟩
  cases a with
  | inl x =>
      cases b with
      | inl y => exact .inl (.inl ⟨x.2, y.2, hadj⟩)
      | inr a =>
          have hat : h.attach a = x := hadj
          exact .inr (.inr (hat ▸ Attached.getElem?_alp a.2))
  | inr a =>
      cases b with
      | inl x =>
          have hat : h.attach a = x := hadj
          exact .inl (.inr (hat ▸ Attached.getElem?_alp a.2))
      | inr b => exact hadj.elim

/-- A walk over the links stays in the tree. -/
theorem exists_tree_walk {r s : Nat} (w : (links numberOfClps alpToClpMap).Walk r s)
    {a : {x // x < numberOfClps} ⊕ {a // a ∈ alpToClpMap}} (ha : rankOf a = r) :
    ∃ b, rankOf b = s ∧ ∃ w' : h.tree.graph.Walk a b, w'.length = w.length := by
  induction w generalizing a with
  | nil => exact ⟨a, ha, .nil, rfl⟩
  | cons hlink w ih =>
      subst ha
      obtain ⟨c, hc, hadj⟩ := adj_of_links h hlink
      obtain ⟨b, hb, w', hw'⟩ := ih hc
      have hgraph : h.tree.graph.Adj a c := hadj
      refine ⟨b, hb, .cons hgraph w', ?_⟩
      rw [SimpleGraph.Walk.length_cons, SimpleGraph.Walk.length_cons, hw']

/-- The distance between two ranks is that in the tree. -/
theorem dist_links {a b : {x // x < numberOfClps} ⊕ {a // a ∈ alpToClpMap}}
    (hreach : h.tree.graph.Reachable a b) :
    (links numberOfClps alpToClpMap).dist (rankOf a) (rankOf b) = h.tree.graph.dist a b := by
  let f : h.tree.graph →g links numberOfClps alpToClpMap := ⟨rankOf, links_of_adj h⟩
  obtain ⟨w, hw⟩ := hreach.exists_walk_length_eq_dist
  apply Nat.le_antisymm
  · have hle := SimpleGraph.dist_le (w.map f)
    rwa [SimpleGraph.Walk.length_map, hw] at hle
  · obtain ⟨w', hw'⟩ := (w.map f).reachable.exists_walk_length_eq_dist
    obtain ⟨b', hb', v, hv⟩ := exists_tree_walk h w' rfl
    obtain rfl := rankOf_injective h hb'
    have hle := SimpleGraph.dist_le v
    rw [hv, hw'] at hle
    exact hle

end

section

variable (hattached : Attached numberOfClps initialisor.alpToClpMap)

/-- A CLP's table points to the next rank on the way of the tree. -/
theorem hop_eq (hhosts : ∀ e ∈ initialisor.placements, e.1 < numberOfClps)
    {x : {x // x < numberOfClps}}
    {dest : {x // x < numberOfClps} ⊕ {a // a ∈ initialisor.alpToClpMap}}
    (hne : .inl x ≠ dest) :
    hop numberOfClps initialisor (rankOf dest) x =
      some (rankOf (hattached.tree.nextHop (.inl x) dest)) := by
  obtain ⟨t, ht⟩ := exists_create hattached hhosts x.2
  have hdirects := directs_create x.2 ht
  have hclp : ∀ y : {x // x < numberOfClps}, x ≠ y →
      t.getRankFromDirection (directionTo x y) = some (HeapTree.nextHop x y) := by
    intro y hxy
    have hval : x.val ≠ y.val := fun heq => hxy (Subtype.ext heq)
    have hlt : HeapTree.nextHop x y < numberOfClps :=
      Nat.lt_of_le_of_lt (HeapTree.nextHop_le_max _ _) (Nat.max_lt.mpr ⟨x.2, y.2⟩)
    exact (hdirects.port _ _ hlt).mpr
      ⟨HeapTree.adj_nextHop hval, directionTo_of_ne (Ne.symm hval)⟩
  have hrestrict : ∀ y : {x // x < numberOfClps}, x ≠ y →
      rankOf (hattached.tree.nextHop (.inl x) (.inl y)) = HeapTree.nextHop x y :=
    fun y hxy => TreeRouting.restrict_nextHop hxy
  simp only [hop, ht, Option.bind_eq_bind, Option.bind_some]
  cases dest with
  | inl y =>
      have hxy : x ≠ y := fun heq => hne (congrArg Sum.inl heq)
      have hdirection : t.getDirectionFromRank y = some (directionTo x y) := hdirects.clp y y.2
      rw [hrestrict y hxy]
      simp only [rankOf, Sum.elim_inl, hdirection, Option.bind_some, hclp y hxy]
  | inr a =>
      obtain ⟨hle, hlt⟩ := (hattached.ranks a).mp a.2
      have hat := Attached.getElem?_alp a.2
      by_cases hx : hattached.attach a = x
      · have hown : initialisor.alpToClpMap[a.val]? = some x.val := hx ▸ hat
        obtain ⟨d, hd, hda⟩ := hdirects.ownAlp a hle hlt hown
        have hnext : hattached.tree.nextHop (.inl x) (.inr a) = .inr a := if_pos hx
        rw [hnext]
        simp only [rankOf, Sum.elim_inr, hd, Option.bind_some, hda]
      · have hval : (hattached.attach a).val ≠ x.val := fun heq => hx (Subtype.ext heq)
        have hdirection := hdirects.alp a _ hle hlt hat (hattached.clp_lt a.2) hval
        have hnext : hattached.tree.nextHop (.inl x) (.inr a) =
            hattached.tree.nextHop (.inl x) (.inl (hattached.attach a)) := if_neg hx
        rw [hnext, hrestrict _ (Ne.symm hx)]
        simp only [rankOf, Sum.elim_inr, hdirection, Option.bind_some]
        exact hclp (hattached.attach a) (Ne.symm hx)

/-- From a CLP the tables lead along the route of the tree. -/
theorem exists_route (x : {x // x < numberOfClps})
    (dest : {x // x < numberOfClps} ⊕ {a // a ∈ initialisor.alpToClpMap}) :
    ∃ l, hattached.tree.Route dest (.inl x) l := by
  have hclps : ∀ y : {x // x < numberOfClps}, ∃ l, (HeapTree.routing.restrict
      {x | x < numberOfClps} fun a ha b hb _ => Nat.lt_of_le_of_lt (HeapTree.nextHop_le_max a b)
        (Nat.max_lt.mpr ⟨ha, hb⟩)).Route y x l := by
    intro y
    obtain ⟨l, hl⟩ := HeapTree.exists_route x y
    obtain ⟨l', hl', _⟩ := hl.restrict x.2
    exact ⟨l', hl'⟩
  cases dest with
  | inl y =>
      obtain ⟨l, hl⟩ := hclps y
      exact ⟨_, hl.inl⟩
  | inr a =>
      obtain ⟨l, hl⟩ := hclps (hattached.attach a)
      exact ⟨_, hl.inr⟩

/-- An ALP is next only for what is for the ALP. -/
theorem dest_of_nextHop {x : {x // x < numberOfClps}}
    {dest : {x // x < numberOfClps} ⊕ {a // a ∈ initialisor.alpToClpMap}}
    {a : {a // a ∈ initialisor.alpToClpMap}}
    (hnext : hattached.tree.nextHop (.inl x) dest = .inr a) : dest = .inr a := by
  cases dest with
  | inl y => exact absurd hnext Sum.inl_ne_inr
  | inr b =>
      by_cases hb : hattached.attach b = x
      · have hown : hattached.tree.nextHop (.inl x) (.inr b) = .inr b := if_pos hb
        exact hown.symm.trans hnext
      · have hup : hattached.tree.nextHop (.inl x) (.inr b) =
            hattached.tree.nextHop (.inl x) (.inl (hattached.attach b)) := if_neg hb
        exact absurd (hup.symm.trans hnext) Sum.inl_ne_inr

theorem delivery_of_route (hhosts : ∀ e ∈ initialisor.placements, e.1 < numberOfClps)
    {node dest : {x // x < numberOfClps} ⊕ {a // a ∈ initialisor.alpToClpMap}}
    {l : List ({x // x < numberOfClps} ⊕ {a // a ∈ initialisor.alpToClpMap})}
    (hclp : ∃ x, node = .inl x) (hroute : hattached.tree.Route dest node l) :
    Delivery numberOfClps initialisor (rankOf dest) (rankOf node) (l.map rankOf) := by
  induction hroute with
  | here => exact .arrived
  | @step node l hne hroute ih =>
      obtain ⟨x, rfl⟩ := hclp
      refine .forward (fun heq => hne (rankOf_injective hattached heq))
        (hop_eq hattached hhosts hne) ?_
      generalize hnext : hattached.tree.nextHop (.inl x) dest = next at hroute ih ⊢
      cases next with
      | inl y => exact ih ⟨y, rfl⟩
      | inr a =>
          obtain rfl := dest_of_nextHop hattached hnext
          rw [hroute.unique .here]
          exact .arrived

include hattached in
theorem exists_delivery (hhosts : ∀ e ∈ initialisor.placements, e.1 < numberOfClps)
    {start dest : Nat} (hstart : start < numberOfClps)
    (hdest : dest < numberOfClps ∨ dest ∈ initialisor.alpToClpMap) :
    ∃ path, Delivery numberOfClps initialisor dest start path ∧ path.Nodup ∧
      path.length = (links numberOfClps initialisor.alpToClpMap).dist start dest + 1 := by
  let x : {x // x < numberOfClps} := ⟨start, hstart⟩
  obtain ⟨node, rfl⟩ : ∃ node : {x // x < numberOfClps} ⊕ {a // a ∈ initialisor.alpToClpMap},
      rankOf node = dest := by
    cases hdest with
    | inl hlt => exact ⟨.inl ⟨dest, hlt⟩, rfl⟩
    | inr hmem => exact ⟨.inr ⟨dest, hmem⟩, rfl⟩
  obtain ⟨l, hl⟩ := exists_route hattached x node
  obtain ⟨w, _⟩ := hl.exists_walk
  have hdist : (links numberOfClps initialisor.alpToClpMap).dist start (rankOf node) =
      hattached.tree.graph.dist (.inl x) node := dist_links hattached w.reachable
  refine ⟨l.map rankOf, delivery_of_route hattached hhosts ⟨x, rfl⟩ hl,
    hl.nodup.map (rankOf_injective hattached), ?_⟩
  rw [List.length_map, hl.length_eq, hdist]

end

/-- A variable that is placed on one CLP only has the direction of that CLP. -/
theorem placeSsv_host {lpRank host : Nat} {ssvId : SsvId} {forwardingTable : ForwardingTable}
    (htable : ∀ x, x < numberOfClps →
      ∃ info, forwardingTable[x]? = some info ∧ ForwardingTable.Describes lpRank x info)
    {placements : List (Nat × SsvId)} (hhosts : ∀ e ∈ placements, e.1 < numberOfClps)
    (honce : ∀ e ∈ placements, e.2 = ssvId → e.1 = host) {m m' : Std.TreeMap SsvId Direction}
    (hm : m[ssvId]? = some (directionTo lpRank host) ∨
      m[ssvId]? = none ∧ (host, ssvId) ∈ placements)
    (h : placements.foldlM (placeSsv lpRank forwardingTable) m = some m') :
    m'[ssvId]? = some (directionTo lpRank host) := by
  induction placements generalizing m with
  | nil =>
      obtain rfl : m = m' := Option.some.inj h
      exact hm.resolve_right fun hnone => List.not_mem_nil hnone.2
  | cons e placements ih =>
      obtain ⟨m₁, h₁, h₂⟩ := Option.bind_eq_some_iff.mp h
      have hm₁ : m₁ = m.insertIfNew e.2 (directionTo lpRank e.1) :=
        placeSsv_eq htable (hhosts e List.mem_cons_self) h₁
      refine ih (fun e' he' => hhosts e' (List.mem_cons_of_mem _ he'))
        (fun e' he' => honce e' (List.mem_cons_of_mem _ he')) ?_ h₂
      simp only [hm₁, Std.TreeMap.getElem?_insertIfNew, Std.LawfulEqCmp.compare_eq_iff_eq]
      by_cases he : e.2 = ssvId
      · left
        have hhost := honce e List.mem_cons_self he
        cases hm with
        | inl hsome => simp [he, hhost, hsome]
        | inr hnone =>
            have hnotin : ssvId ∉ m := by
              rw [Std.TreeMap.mem_iff_isSome_getElem?, hnone.1]
              exact Bool.false_ne_true
            simp [he, hnotin, hhost]
      · rw [if_neg fun heq => he heq.1]
        refine hm.imp_right fun hnone => ⟨hnone.1, ?_⟩
        refine (List.mem_cons.mp hnone.2).resolve_left fun heq => ?_
        exact he (congrArg Prod.snd heq).symm

theorem directionFromSsvId_create {lpRank : Nat} {t : RouteTable} {e : Nat × SsvId}
    (hrank : lpRank < numberOfClps)
    (hhosts : ∀ e ∈ initialisor.placements, e.1 < numberOfClps)
    (he : e ∈ initialisor.placements)
    (honce : ∀ e' ∈ initialisor.placements, e'.2 = e.2 → e'.1 = e.1)
    (h : create lpRank numberOfClps initialisor = some t) :
    t.getDirectionFromSsvId e.2 = some (directionTo lpRank e.1) := by
  obtain ⟨table, p₁, p₂, p₃, hdescribes, hssvs, _⟩ := create_phases hrank h
  exact placeSsv_host hdescribes hhosts honce (.inr ⟨by simp, he⟩) hssvs

/-- Every table can be built, and from every CLP they lead to every rank in as many steps as the
tree has between the two, without coming to a rank twice. A variable starts in the direction of
the CLP it is placed on. -/
theorem delivers (hattached : Attached numberOfClps initialisor.alpToClpMap)
    (hhosts : ∀ e ∈ initialisor.placements, e.1 < numberOfClps) :
    (∀ start dest, start < numberOfClps →
      dest < numberOfClps ∨ dest ∈ initialisor.alpToClpMap →
        ∃ path, Delivery numberOfClps initialisor dest start path ∧ path.Nodup ∧
          path.length = (links numberOfClps initialisor.alpToClpMap).dist start dest + 1) ∧
    ∀ e ∈ initialisor.placements, (∀ e' ∈ initialisor.placements, e'.2 = e.2 → e'.1 = e.1) →
      ∀ rank, rank < numberOfClps →
        ∃ t direction, create rank numberOfClps initialisor = some t ∧
          t.getDirectionFromSsvId e.2 = some direction ∧
          t.getDirectionFromRank e.1 = some direction := by
  constructor
  · intro start dest hstart hdest
    exact exists_delivery hattached hhosts hstart hdest
  · intro e he honce rank hrank
    obtain ⟨t, ht⟩ := exists_create hattached hhosts hrank
    exact ⟨t, directionTo rank e.1, ht, directionFromSsvId_create hrank hhosts he honce ht,
      (directs_create hrank ht).clp e.1 (hhosts e he)⟩

/-- Three CLPs, an ALP at each of the two leaves, a variable on the second leaf. -/
def twoAgents : Initialisor where
  clpToSsvMap := (∅ : Std.TreeMap Nat (List SsvId)).insert 2 [7]
  alpToClpMap := ((∅ : Std.TreeMap Nat Nat).insert 3 1).insert 4 2
  clpSsvIdValueMap := ∅

theorem attached_twoAgents : Attached 3 twoAgents.alpToClpMap := by
  have hat : ∀ a, twoAgents.alpToClpMap[a]? =
      if 4 = a then some 2 else if 3 = a then some 1 else none := by
    intro a
    simp [twoAgents, Std.TreeMap.getElem?_insert]
  have hsize : twoAgents.alpToClpMap.size = 2 := by decide
  constructor
  · intro a
    rw [Std.TreeMap.mem_iff_isSome_getElem?, hat, hsize]
    split
    · simp; omega
    · split
      · simp; omega
      · simp; omega
  · intro a c hac
    rw [hat] at hac
    split at hac
    · cases hac
      decide
    · split at hac
      · cases hac
        decide
      · cases hac
  · decide

/-- From the first leaf to the ALP at the second; the variable lies that way. -/
theorem delivers_twoAgents :
    (∃ path, Delivery 3 twoAgents 4 1 path ∧ path.Nodup ∧
      path.length = (links 3 twoAgents.alpToClpMap).dist 1 4 + 1) ∧
    ∃ t direction, create 1 3 twoAgents = some t ∧
      t.getDirectionFromSsvId 7 = some direction ∧ t.getDirectionFromRank 2 = some direction := by
  have hplacements : twoAgents.placements = [(2, 7)] := by decide
  have hdelivers := delivers attached_twoAgents (by rw [hplacements]; decide)
  rw [hplacements] at hdelivers
  exact ⟨hdelivers.1 1 4 (by decide) (.inr (by decide)),
    hdelivers.2 (2, 7) (by decide) (by decide) 1 (by decide)⟩

end Ways

end RouteTable
end PdesMas
