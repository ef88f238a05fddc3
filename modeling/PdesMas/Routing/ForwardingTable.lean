import Std.Data.TreeMap.Lemmas
import PdesMas.Library.HeapTree

/-!
The forwarding table of a CLP. `WalkTree` visits the tree depth first from each
neighbour and records the hops and the neighbour; below a child it only goes
down, above the parent it goes every way and turns back at what it has seen.
-/

namespace PdesMas

structure RoutingInfo where
  nodeRank : Nat
  destination : Nat
  hops : Nat
  nextNodeRank : Nat
deriving DecidableEq, Repr

abbrev ForwardingTable := Std.TreeMap Nat RoutingInfo

namespace ForwardingTable

variable (clpRank numberOfClps : Nat)

/-- `WalkTree`, with a bound on the depth of its recursion. -/
def walkTree : Nat → ForwardingTable → Nat → Nat → Nat → Option ForwardingTable
  | 0, _, _, _, _ => none
  | fuel + 1, table, rank, numberOfHops, nextRank =>
      if rank > numberOfClps - 1 then some table
      else if table.contains rank then some table
      else do
        let table := table.insert rank ⟨clpRank, rank, numberOfHops, nextRank⟩
        let table ← walkTree fuel table (2 * rank + 1) (numberOfHops + 1) nextRank
        let table ← walkTree fuel table (2 * rank + 2) (numberOfHops + 1) nextRank
        if (nextRank ≠ 2 * clpRank + 1 ∧ nextRank ≠ 2 * clpRank + 2) ∧ rank ≠ 0 then
          walkTree fuel table ((rank - 1) / 2) (numberOfHops + 1) nextRank
        else some table

/-- The constructor. A walk goes at most `numberOfClps` deep down, after at most as
many steps up. -/
def create : Option ForwardingTable := do
  let fuel := 2 * numberOfClps + 1
  let table : ForwardingTable := (∅ : ForwardingTable).insert clpRank ⟨clpRank, clpRank, 0, clpRank⟩
  let table ← walkTree clpRank numberOfClps fuel table (2 * clpRank + 1) 1 (2 * clpRank + 1)
  let table ← walkTree clpRank numberOfClps fuel table (2 * clpRank + 2) 1 (2 * clpRank + 2)
  if clpRank ≠ 0 then
    walkTree clpRank numberOfClps fuel table ((clpRank - 1) / 2) 1 ((clpRank - 1) / 2)
  else some table

variable {clpRank numberOfClps}

/-- The entry a walk that starts at `root` with `hops` leaves for `x`. -/
def WalkedFrom (clpRank root hops nextRank x : Nat) (info : Option RoutingInfo) : Prop :=
  ∃ h, info = some ⟨clpRank, x, h, nextRank⟩ ∧ (x = root → h = hops) ∧ (x ≠ root → hops < h)

theorem WalkedFrom.from_child {clpRank root child hops nextRank x : Nat}
    {info : Option RoutingInfo} (h : WalkedFrom clpRank child (hops + 1) nextRank x info)
    (hx : x ≠ root) : WalkedFrom clpRank root hops nextRank x info := by
  obtain ⟨k, hinfo, hroot, hother⟩ := h
  refine ⟨k, hinfo, fun heq => absurd heq hx, fun _ => ?_⟩
  by_cases hc : x = child
  · have := hroot hc
    omega
  · have := hother hc
    omega

/-- What a walk changes: the subtree of `root` is filled, the rest is kept. -/
def Fills (clpRank numberOfClps root hops nextRank : Nat) (table table' : ForwardingTable) :
    Prop :=
  (∀ x, HeapTree.Below root x → x < numberOfClps →
    WalkedFrom clpRank root hops nextRank x table'[x]?) ∧
  ∀ x, ¬ (HeapTree.Below root x ∧ x < numberOfClps) → table'[x]? = table[x]?

theorem getElem?_insert (table : ForwardingTable) (k x : Nat) (info : RoutingInfo) :
    (table.insert k info)[x]? = if k = x then some info else table[x]? := by
  simp [Std.TreeMap.getElem?_insert]

theorem contains_iff {table : ForwardingTable} {x : Nat} :
    table.contains x = true ↔ table[x]? ≠ none := by
  rw [← Option.isSome_iff_ne_none, Std.TreeMap.isSome_getElem?_eq_contains]

theorem walkTree_contained {fuel rank hops nextRank : Nat} {table : ForwardingTable}
    (hpos : 0 < fuel) (h : table.contains rank = true) :
    walkTree clpRank numberOfClps fuel table rank hops nextRank = some table := by
  obtain ⟨fuel, rfl⟩ : ∃ k, fuel = k + 1 := ⟨fuel - 1, by omega⟩
  simp [walkTree, h]

/-- A vertex not seen yet is entered before its children, and left upwards. -/
theorem walkTree_visit {fuel rank hops nextRank : Nat} {table table₁ table₂ : ForwardingTable}
    (hrange : rank < numberOfClps) (hnew : table[rank]? = none)
    (hleft : walkTree clpRank numberOfClps fuel
      (table.insert rank ⟨clpRank, rank, hops, nextRank⟩) (2 * rank + 1) (hops + 1) nextRank =
        some table₁)
    (hright : walkTree clpRank numberOfClps fuel table₁ (2 * rank + 2) (hops + 1) nextRank =
      some table₂) :
    walkTree clpRank numberOfClps (fuel + 1) table rank hops nextRank =
      if (nextRank ≠ 2 * clpRank + 1 ∧ nextRank ≠ 2 * clpRank + 2) ∧ rank ≠ 0 then
        walkTree clpRank numberOfClps fuel table₂ ((rank - 1) / 2) (hops + 1) nextRank
      else some table₂ := by
  have hseen : table.contains rank = false := by
    simpa [Std.TreeMap.isSome_getElem?_eq_contains] using congrArg Option.isSome hnew
  have hrange' : ¬ rank > numberOfClps - 1 := by omega
  rw [walkTree, if_neg hrange', if_neg (by simp [hseen])]
  simp only [hleft, hright, Option.bind_eq_bind, Option.bind_some]

/-- A walk into a subtree not seen yet, in which a step up would turn back. -/
theorem walkTree_below (clpRank numberOfClps fuel root hops nextRank : Nat)
    (table : ForwardingTable)
    (hN : 0 < numberOfClps) (hfuel : numberOfClps < fuel + root) (hpos : 0 < fuel)
    (hfresh : ∀ x, HeapTree.Below root x → table[x]? = none) (hroot : root ≠ 0)
    (hparent : table.contains ((root - 1) / 2) = true) :
    ∃ table', walkTree clpRank numberOfClps fuel table root hops nextRank = some table' ∧
      Fills clpRank numberOfClps root hops nextRank table table' := by
  induction fuel generalizing root hops table with
  | zero => omega
  | succ fuel ih =>
      by_cases hrange : root > numberOfClps - 1
      · refine ⟨table, by simp [walkTree, hrange], fun x hx hlt => ?_, fun x _ => rfl⟩
        have := hx.le
        omega
      · let table₁ := table.insert root ⟨clpRank, root, hops, nextRank⟩
        have hin₁ : table₁[root]? = some ⟨clpRank, root, hops, nextRank⟩ := by
          simp [table₁]
        have hout₁ : ∀ x, x ≠ root → table₁[x]? = table[x]? := fun x hx => by
          rw [getElem?_insert, if_neg (Ne.symm hx)]
        obtain ⟨table₂, hwalk₂, hfill₂, hkeep₂⟩ := ih (2 * root + 1) (hops + 1) table₁
          (by omega) (by omega)
          (fun x hx => by
            rw [hout₁ x (by have := hx.le; omega)]
            exact hfresh x (HeapTree.Below.root.left.trans hx))
          (by omega)
          (by rw [contains_iff, show (2 * root + 1 - 1) / 2 = root by omega, hin₁]; simp)
        have hin₂ : table₂[root]? = some ⟨clpRank, root, hops, nextRank⟩ := by
          rw [hkeep₂ root fun h => HeapTree.not_below_of_lt (by omega) h.1, hin₁]
        obtain ⟨table₃, hwalk₃, hfill₃, hkeep₃⟩ := ih (2 * root + 2) (hops + 1) table₂
          (by omega) (by omega)
          (fun x hx => by
            rw [hkeep₂ x fun h => HeapTree.not_below_both h.1 hx,
              hout₁ x (by have := hx.le; omega)]
            exact hfresh x (HeapTree.Below.root.right.trans hx))
          (by omega)
          (by rw [contains_iff, show (2 * root + 2 - 1) / 2 = root by omega, hin₂]; simp)
        have hout₃ : ∀ x, ¬ (HeapTree.Below root x ∧ x < numberOfClps) →
            table₃[x]? = table[x]? := by
          intro x hx
          rw [hkeep₃ x fun h => hx ⟨HeapTree.Below.root.right.trans h.1, h.2⟩,
            hkeep₂ x fun h => hx ⟨HeapTree.Below.root.left.trans h.1, h.2⟩]
          refine hout₁ x ?_
          rintro rfl
          exact hx ⟨.root, by omega⟩
        refine ⟨table₃, ?_, fun x hx hlt => ?_, hout₃⟩
        · have hback : table₃.contains ((root - 1) / 2) = true := by
            rw [contains_iff, hout₃ _ fun h => HeapTree.not_below_of_lt (by omega) h.1]
            exact contains_iff.mp hparent
          have hlast : walkTree clpRank numberOfClps fuel table₃ ((root - 1) / 2) (hops + 1)
              nextRank = some table₃ := walkTree_contained (by omega) hback
          rw [walkTree_visit (by omega) (hfresh root .root) hwalk₂ hwalk₃, hlast, ite_self]
        · rcases HeapTree.below_iff.mp hx with rfl | hl | hr
          · refine ⟨hops, ?_, fun _ => rfl, fun h => absurd rfl h⟩
            rw [hkeep₃ x fun h => HeapTree.not_below_of_lt (by omega) h.1, hin₂]
          · rw [hkeep₃ x fun h => HeapTree.not_below_both hl h.1]
            exact (hfill₂ x hl hlt).from_child (by have := hl.le; omega)
          · exact (hfill₃ x hr hlt).from_child (by have := hr.le; omega)

/-- One child of a vertex on the way up: the one the walk comes from turns back. -/
private theorem walkTree_child (clpRank numberOfClps fuel k s hops nextRank : Nat)
    (table : ForwardingTable)
    (hN : 0 < numberOfClps) (hfuel : numberOfClps ≤ fuel)
    (hfresh : s ≠ k → ∀ x, HeapTree.Below s x → table[x]? = none) (hs : s ≠ 0)
    (hk : table.contains k = true) (hparent : table.contains ((s - 1) / 2) = true) :
    ∃ table', walkTree clpRank numberOfClps fuel table s hops nextRank = some table' ∧
      (s ≠ k → ∀ x, HeapTree.Below s x → x < numberOfClps →
        WalkedFrom clpRank s hops nextRank x table'[x]?) ∧
      ∀ x, (s ≠ k → ¬ (HeapTree.Below s x ∧ x < numberOfClps)) → table'[x]? = table[x]? := by
  by_cases hsk : s = k
  · exact ⟨table, walkTree_contained (by omega) (hsk ▸ hk), fun h => absurd hsk h,
      fun x _ => rfl⟩
  · obtain ⟨table', hwalk, hfill, hkeep⟩ := walkTree_below clpRank numberOfClps fuel s hops
      nextRank table hN (by omega) (by omega) (hfresh hsk) hs hparent
    exact ⟨table', hwalk, fun _ => hfill, fun x hx => hkeep x (hx hsk)⟩

/-- Both children of the parent `p` of `k`, of which only `k` has been seen. -/
private theorem walkTree_parent (clpRank fuel hops nextRank : Nat) {k p : Nat}
    {table : ForwardingTable}
    (hk : k < numberOfClps) (hkp : k = 2 * p + 1 ∨ k = 2 * p + 2) (hfuel : numberOfClps ≤ fuel)
    (hseen : ∀ x, table[x]? ≠ none ↔ HeapTree.Below k x ∧ x < numberOfClps) :
    ∃ table', walkTree clpRank numberOfClps (fuel + 1) table p hops nextRank =
        (if (nextRank ≠ 2 * clpRank + 1 ∧ nextRank ≠ 2 * clpRank + 2) ∧ p ≠ 0 then
          walkTree clpRank numberOfClps fuel table' ((p - 1) / 2) (hops + 1) nextRank
        else some table') ∧
      (∀ x, x < numberOfClps → HeapTree.Below p x → ¬ HeapTree.Below k x →
        WalkedFrom clpRank p hops nextRank x table'[x]?) ∧
      (∀ x, HeapTree.Below k x → table'[x]? = table[x]?) ∧
      ∀ x, ¬ (HeapTree.Below p x ∧ x < numberOfClps) → table'[x]? = none := by
  have hnone : ∀ x, ¬ (HeapTree.Below k x ∧ x < numberOfClps) → table[x]? = none :=
    fun x hx => by
      by_contra h
      exact hx ((hseen x).mp h)
  have hpk : ¬ HeapTree.Below k p := HeapTree.not_below_of_lt (by omega)
  let table₁ := table.insert p ⟨clpRank, p, hops, nextRank⟩
  have hin₁ : table₁[p]? = some ⟨clpRank, p, hops, nextRank⟩ := by simp [table₁]
  have hout₁ : ∀ x, x ≠ p → table₁[x]? = table[x]? := fun x hx => by
    rw [getElem?_insert, if_neg (Ne.symm hx)]
  have hsibling : ∀ s, s = 2 * p + 1 ∨ s = 2 * p + 2 → s ≠ k → ∀ x, HeapTree.Below s x →
      ¬ HeapTree.Below k x := by
    intro s hs hne x hx hkx
    rcases hs with rfl | rfl <;> rcases hkp with rfl | rfl
    · exact hne rfl
    · exact HeapTree.not_below_both hx hkx
    · exact HeapTree.not_below_both hkx hx
    · exact hne rfl
  have hk₁ : table₁.contains k = true := by
    rw [contains_iff, hout₁ k (by omega)]
    exact (hseen k).mpr ⟨.root, hk⟩
  obtain ⟨table₂, hwalk₂, hfill₂, hkeep₂⟩ := walkTree_child clpRank numberOfClps fuel k
    (2 * p + 1) (hops + 1) nextRank table₁ (by omega) hfuel
    (fun hne x hx => by
      rw [hout₁ x (by have := hx.le; omega)]
      exact hnone x fun h => hsibling _ (.inl rfl) hne x hx h.1)
    (by omega) hk₁
    (by rw [contains_iff, show (2 * p + 1 - 1) / 2 = p by omega, hin₁]; simp)
  have hin₂ : table₂[p]? = some ⟨clpRank, p, hops, nextRank⟩ := by
    rw [hkeep₂ p fun _ h => HeapTree.not_below_of_lt (by omega) h.1, hin₁]
  have hk₂ : ∀ x, HeapTree.Below k x → table₂[x]? = table[x]? := by
    intro x hx
    rw [hkeep₂ x fun hne h => hsibling _ (.inl rfl) hne x h.1 hx,
      hout₁ x (by have := hx.le; omega)]
  obtain ⟨table₃, hwalk₃, hfill₃, hkeep₃⟩ := walkTree_child clpRank numberOfClps fuel k
    (2 * p + 2) (hops + 1) nextRank table₂ (by omega) hfuel
    (fun hne x hx => by
      rw [hkeep₂ x fun _ h => HeapTree.not_below_both h.1 hx,
        hout₁ x (by have := hx.le; omega)]
      exact hnone x fun h => hsibling _ (.inr rfl) hne x hx h.1)
    (by omega)
    (by rw [contains_iff, hk₂ k .root]; exact (hseen k).mpr ⟨.root, hk⟩)
    (by rw [contains_iff, show (2 * p + 2 - 1) / 2 = p by omega, hin₂]; simp)
  refine ⟨table₃, walkTree_visit (by omega) (hnone p fun h => hpk h.1) hwalk₂ hwalk₃,
    ?_, ?_, ?_⟩
  · intro x hlt hx hkx
    rcases HeapTree.below_iff.mp hx with rfl | hl | hr
    · refine ⟨hops, ?_, fun _ => rfl, fun h => absurd rfl h⟩
      rw [hkeep₃ x fun _ h => HeapTree.not_below_of_lt (by omega) h.1, hin₂]
    · have hne : 2 * p + 1 ≠ k := by
        rintro rfl
        exact hkx hl
      rw [hkeep₃ x fun _ h => HeapTree.not_below_both hl h.1]
      exact (hfill₂ hne x hl hlt).from_child (by have := hl.le; omega)
    · have hne : 2 * p + 2 ≠ k := by
        rintro rfl
        exact hkx hr
      exact (hfill₃ hne x hr hlt).from_child (by have := hr.le; omega)
  · intro x hx
    rw [hkeep₃ x fun hne h => hsibling _ (.inr rfl) hne x h.1 hx, hk₂ x hx]
  · intro x hx
    have hpx : x ≠ p := by
      rintro rfl
      exact hx ⟨.root, by omega⟩
    rw [hkeep₃ x fun _ h => hx ⟨HeapTree.Below.root.right.trans h.1, h.2⟩,
      hkeep₂ x fun _ h => hx ⟨HeapTree.Below.root.left.trans h.1, h.2⟩, hout₁ x hpx]
    refine hnone x fun h => hx ⟨?_, h.2⟩
    rcases hkp with rfl | rfl
    · exact HeapTree.Below.root.left.trans h.1
    · exact HeapTree.Below.root.right.trans h.1

/-- A walk up from `k`, whose subtree is all that has been seen. -/
theorem walkTree_above (clpRank fuel k hops nextRank : Nat) {table : ForwardingTable}
    (hk : k < numberOfClps) (hk0 : k ≠ 0) (hfuel : numberOfClps + k ≤ fuel)
    (hseen : ∀ x, table[x]? ≠ none ↔ HeapTree.Below k x ∧ x < numberOfClps)
    (hup : nextRank ≠ 2 * clpRank + 1 ∧ nextRank ≠ 2 * clpRank + 2) :
    ∃ table', walkTree clpRank numberOfClps fuel table ((k - 1) / 2) hops nextRank =
        some table' ∧
      (∀ x, x < numberOfClps → ¬ HeapTree.Below k x →
        WalkedFrom clpRank ((k - 1) / 2) hops nextRank x table'[x]?) ∧
      ∀ x, HeapTree.Below k x → table'[x]? = table[x]? := by
  induction fuel generalizing k hops table with
  | zero => omega
  | succ fuel ih =>
      obtain ⟨p, hp⟩ : ∃ p, p = (k - 1) / 2 := ⟨_, rfl⟩
      rw [← hp]
      have hkp : k = 2 * p + 1 ∨ k = 2 * p + 2 := by omega
      have hbelow : ∀ x, HeapTree.Below k x → HeapTree.Below p x := fun x hx => by
        rcases hkp with rfl | rfl
        · exact HeapTree.Below.root.left.trans hx
        · exact HeapTree.Below.root.right.trans hx
      obtain ⟨table₁, hwalk, hfill, hkeep, hnone⟩ := walkTree_parent clpRank fuel hops
        nextRank hk hkp (by omega) hseen
      rw [hwalk]
      by_cases hp0 : p = 0
      · rw [if_neg fun h => h.2 hp0]
        exact ⟨table₁, rfl, fun x hlt hx => hfill x hlt (hp0 ▸ HeapTree.below_zero x) hx, hkeep⟩
      · have hseen₁ : ∀ x, table₁[x]? ≠ none ↔ HeapTree.Below p x ∧ x < numberOfClps := by
          intro x
          refine ⟨fun h => by_contra fun hx => h (hnone x hx), fun ⟨hpx, hlt⟩ => ?_⟩
          by_cases hkx : HeapTree.Below k x
          · rw [hkeep x hkx]
            exact (hseen x).mpr ⟨hkx, hlt⟩
          · obtain ⟨_, hinfo, _⟩ := hfill x hlt hpx hkx
            simp [hinfo]
        obtain ⟨table₂, hwalk₂, hfill₂, hkeep₂⟩ := ih p (hops + 1) (by omega) hp0
          (by omega) hseen₁
        rw [if_pos ⟨hup, hp0⟩]
        refine ⟨table₂, hwalk₂, fun x hlt hkx => ?_, fun x hkx => ?_⟩
        · by_cases hpx : HeapTree.Below p x
          · rw [hkeep₂ x hpx]
            exact hfill x hlt hpx hkx
          · refine (hfill₂ x hlt hpx).from_child ?_
            rintro rfl
            exact hpx .root
        · rw [hkeep₂ x (hbelow x hkx), hkeep x hkx]

/-- What the table says of a CLP: the neighbour on the way, and who is a neighbour. -/
def Describes (clpRank x : Nat) (info : RoutingInfo) : Prop :=
  (x ≠ clpRank → info.nextNodeRank = HeapTree.nextHop clpRank x) ∧
    (info.hops ≤ 1 ↔ x = clpRank ∨ HeapTree.Adj clpRank x)

private theorem WalkedFrom.describes {root x : Nat} {info : Option RoutingInfo}
    (h : WalkedFrom clpRank root 1 root x info) (hx : x ≠ clpRank)
    (hnext : HeapTree.nextHop clpRank x = root) (hroot : HeapTree.Adj clpRank root) :
    ∃ i, info = some i ∧ Describes clpRank x i := by
  obtain ⟨k, hinfo, hone, hmore⟩ := h
  refine ⟨_, hinfo, fun _ => hnext.symm, ?_⟩
  constructor
  · intro hk
    by_cases hxr : x = root
    · exact .inr (hxr ▸ hroot)
    · exact absurd hk (Nat.not_le_of_lt (hmore hxr))
  · rintro (heq | hadj)
    · exact absurd heq hx
    · exact Nat.le_of_eq (hone ((HeapTree.nextHop_of_adj hadj).symm.trans hnext))

theorem create_describes (hclp : clpRank < numberOfClps) :
    ∃ table, create clpRank numberOfClps = some table ∧
      ∀ x, x < numberOfClps → ∃ info, table[x]? = some info ∧ Describes clpRank x info := by
  let table₀ : ForwardingTable :=
    (∅ : ForwardingTable).insert clpRank ⟨clpRank, clpRank, 0, clpRank⟩
  have hin₀ : table₀[clpRank]? = some ⟨clpRank, clpRank, 0, clpRank⟩ := by simp [table₀]
  have hout₀ : ∀ x, x ≠ clpRank → table₀[x]? = none := fun x hx => by
    simp [table₀, Ne.symm hx]
  obtain ⟨table₁, hwalk₁, hfill₁, hkeep₁⟩ := walkTree_below clpRank numberOfClps
    (2 * numberOfClps + 1) (2 * clpRank + 1) 1 (2 * clpRank + 1) table₀ (by omega) (by omega)
    (by omega)
    (fun x hx => hout₀ x (by have := hx.le; omega)) (by omega)
    (by rw [contains_iff, show (2 * clpRank + 1 - 1) / 2 = clpRank by omega, hin₀]; simp)
  have hin₁ : table₁[clpRank]? = some ⟨clpRank, clpRank, 0, clpRank⟩ := by
    rw [hkeep₁ clpRank fun h => HeapTree.not_below_of_lt (by omega) h.1, hin₀]
  obtain ⟨table₂, hwalk₂, hfill₂, hkeep₂⟩ := walkTree_below clpRank numberOfClps
    (2 * numberOfClps + 1) (2 * clpRank + 2) 1 (2 * clpRank + 2) table₁ (by omega) (by omega)
    (by omega)
    (fun x hx => by
      rw [hkeep₁ x fun h => HeapTree.not_below_both h.1 hx]
      exact hout₀ x (by have := hx.le; omega)) (by omega)
    (by rw [contains_iff, show (2 * clpRank + 2 - 1) / 2 = clpRank by omega, hin₁]; simp)
  have hbelow : ∀ x, x < numberOfClps → HeapTree.Below clpRank x →
      ∃ info, table₂[x]? = some info ∧ Describes clpRank x info := by
    intro x hlt hx
    rcases HeapTree.below_iff.mp hx with rfl | hl | hr
    · refine ⟨⟨x, x, 0, x⟩, ?_, fun h => absurd rfl h, by simp⟩
      rw [hkeep₂ x fun h => HeapTree.not_below_of_lt (by omega) h.1, hin₁]
    · rw [hkeep₂ x fun h => HeapTree.not_below_both hl h.1]
      exact (hfill₁ x hl hlt).describes (by have := hl.le; omega) (HeapTree.nextHop_left hl)
        (.inl rfl)
    · exact (hfill₂ x hr hlt).describes (by have := hr.le; omega) (HeapTree.nextHop_right hr)
        (.inr (.inl rfl))
  have hcreate : create clpRank numberOfClps =
      if clpRank ≠ 0 then
        walkTree clpRank numberOfClps (2 * numberOfClps + 1) table₂ ((clpRank - 1) / 2) 1
          ((clpRank - 1) / 2)
      else some table₂ := by
    simp only [create, table₀] at hwalk₁ ⊢
    simp only [hwalk₁, hwalk₂, Option.bind_eq_bind, Option.bind_some]
  rw [hcreate]
  by_cases hroot : clpRank = 0
  · refine ⟨table₂, ?_, fun x hlt => hbelow x hlt (hroot ▸ HeapTree.below_zero x)⟩
    exact if_neg fun h => h hroot
  · have hseen : ∀ x, table₂[x]? ≠ none ↔ HeapTree.Below clpRank x ∧ x < numberOfClps := by
      intro x
      constructor
      · intro h
        by_contra hx
        rw [hkeep₂ x fun h => hx ⟨HeapTree.Below.root.right.trans h.1, h.2⟩,
          hkeep₁ x fun h => hx ⟨HeapTree.Below.root.left.trans h.1, h.2⟩] at h
        refine h (hout₀ x ?_)
        rintro rfl
        exact hx ⟨.root, hclp⟩
      · rintro ⟨hx, hlt⟩
        obtain ⟨info, hinfo, _⟩ := hbelow x hlt hx
        simp [hinfo]
    obtain ⟨table₃, hwalk₃, hfill₃, hkeep₃⟩ := walkTree_above clpRank (2 * numberOfClps + 1)
      clpRank 1 ((clpRank - 1) / 2) hclp hroot (by omega) hseen (by omega)
    refine ⟨table₃, ?_, fun x hlt => ?_⟩
    · rw [if_pos hroot, hwalk₃]
    · by_cases hx : HeapTree.Below clpRank x
      · rw [hkeep₃ x hx]
        exact hbelow x hlt hx
      · refine (hfill₃ x hlt hx).describes ?_ (HeapTree.nextHop_up hx) ?_
        · rintro rfl
          exact hx .root
        · simp only [HeapTree.Adj]
          omega

end ForwardingTable
end PdesMas
