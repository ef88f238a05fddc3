import Mathlib.Data.List.Nodup
import PdesMas.Lp.LpId
import PdesMas.Routing.ForwardingTable
import PdesMas.Types.Value

/-!
The route table of a CLP, built from the initialisor: the direction of every
rank and of every shared state variable, and the rank behind each direction.
Neighbouring CLPs get the directions in the order of their ranks, attached ALPs
what is left; a CLP with more neighbours than ports trips the assertion of `++`.
-/

namespace PdesMas

/-- What the tables are built from: the variables of each CLP, the CLP of each ALP
and the initial values. -/
structure Initialisor where
  clpToSsvMap : Std.TreeMap Nat (List SsvId)
  alpToClpMap : Std.TreeMap Nat Nat
  clpSsvIdValueMap : Std.TreeMap SsvId AbstractValue

namespace Initialisor

/-- The pairs the loops over `GetClpToSsvMap` go through. -/
def placements (initialisor : Initialisor) : List (Nat × SsvId) :=
  initialisor.clpToSsvMap.toList.flatMap fun e => e.2.map fun ssvId => (e.1, ssvId)

/-- Each variable is placed once, on a CLP. -/
def PlacesOnce (initialisor : Initialisor) (numberOfClps : Nat) : Prop :=
  (initialisor.placements.map Prod.snd).Nodup ∧
    ∀ e ∈ initialisor.placements, e.1 < numberOfClps

/-- The variables of one CLP. -/
def ssvsOf (initialisor : Initialisor) (rank : Nat) : List SsvId :=
  (initialisor.clpToSsvMap[rank]?).getD []

theorem mem_ssvsOf {initialisor : Initialisor} {rank : Nat} {ssvId : SsvId} :
    ssvId ∈ initialisor.ssvsOf rank ↔ (rank, ssvId) ∈ initialisor.placements := by
  simp only [ssvsOf, placements, List.mem_flatMap, List.mem_map, Prod.exists, Prod.mk.injEq,
    Std.TreeMap.mem_toList_iff_getElem?_eq_some]
  cases hrank : initialisor.clpToSsvMap[rank]? with
  | none => simp [hrank]
  | some ssvIds => simp [hrank]

theorem PlacesOnce.ssvsOf_nodup {initialisor : Initialisor} {numberOfClps : Nat}
    (h : initialisor.PlacesOnce numberOfClps) (rank : Nat) : (initialisor.ssvsOf rank).Nodup := by
  have hnodup := h.1
  simp only [placements, List.map_flatMap, List.map_map, List.nodup_flatMap] at hnodup
  rw [ssvsOf]
  cases hrank : initialisor.clpToSsvMap[rank]? with
  | none => exact List.nodup_nil
  | some ssvIds =>
      have hpiece := hnodup.1 (rank, ssvIds) (Std.TreeMap.mem_toList_iff_getElem?_eq_some.mpr hrank)
      simpa [Function.comp_def] using hpiece

/-- A variable has one CLP. -/
theorem PlacesOnce.unique {initialisor : Initialisor} {numberOfClps : Nat}
    (h : initialisor.PlacesOnce numberOfClps) {a b : Nat} {ssvId : SsvId}
    (ha : (a, ssvId) ∈ initialisor.placements) (hb : (b, ssvId) ∈ initialisor.placements) :
    a = b := by
  have heq := List.inj_on_of_nodup_map h.1 ha hb rfl
  exact (Prod.mk.inj heq).1

end Initialisor

structure RouteTable where
  rankToDirectionMap : Std.TreeMap Nat Direction
  directionToRankMap : Direction → Option Nat
  ssvIdToDirectionMap : Std.TreeMap SsvId Direction

namespace RouteTable

/-- `(pLpRank - 1) / 2` on unsigned numbers. -/
def parentRank (lpRank : Nat) : Nat := if lpRank = 0 then 2147483647 else (lpRank - 1) / 2

/-- The direction of a variable behind `nextClp`; without one, a warning is logged. -/
def ssvDirection (lpRank nextClp : Nat) : Option Direction :=
  if nextClp = parentRank lpRank then some .UP
  else if nextClp = lpRank * 2 + 1 then some .LEFT
  else if nextClp = lpRank * 2 + 2 then some .RIGHT
  else none

def placeSsv (lpRank : Nat) (forwardingTable : ForwardingTable)
    (m : Std.TreeMap SsvId Direction) (placement : Nat × SsvId) :
    Option (Std.TreeMap SsvId Direction) :=
  if placement.1 = lpRank then some (m.insertIfNew placement.2 .HERE)
  else do
    let routingInfo ← forwardingTable[placement.1]?
    match ssvDirection lpRank routingInfo.nextNodeRank with
    | some direction => some (m.insertIfNew placement.2 direction)
    | none => some m

/-- What the loops of the constructor carry along. -/
structure Ports where
  rankToDirectionMap : Std.TreeMap Nat Direction
  directionToRankMap : Direction → Option Nat
  direction : Direction

/-- `m[rank]`, which enters `HERE` for a rank that is missing. -/
def lookUp (m : Std.TreeMap Nat Direction) (rank : Nat) :
    Direction × Std.TreeMap Nat Direction :=
  (m.getD rank .HERE, m.insertIfNew rank .HERE)

namespace Ports

def addNeighbour (p : Ports) (rank : Nat) : Option Ports :=
  p.direction.next.map fun next =>
    { rankToDirectionMap := p.rankToDirectionMap.insert rank p.direction
      directionToRankMap := Function.update p.directionToRankMap p.direction (some rank)
      direction := next }

/-- `rank` is reached the way `nextRank` is. -/
def follow (p : Ports) (rank nextRank : Nat) : Ports :=
  let r := lookUp p.rankToDirectionMap nextRank
  { p with rankToDirectionMap := r.2.insert rank r.1 }

def addClp (lpRank : Nat) (forwardingTable : ForwardingTable) (p : Ports) (rank : Nat) :
    Option Ports :=
  if rank = lpRank then some p
  else do
    let routingInfo ← forwardingTable[rank]?
    if routingInfo.hops ≤ 1 then p.addNeighbour rank else some p

def addRemoteClp (forwardingTable : ForwardingTable) (p : Ports) (rank : Nat) : Option Ports :=
  if p.rankToDirectionMap.contains rank then some p
  else do
    let routingInfo ← forwardingTable[rank]?
    if routingInfo.hops > 1 then some (p.follow rank routingInfo.nextNodeRank) else some p

/-- An ALP. The map holds every ALP, so that `alpToClpMap[rank]` enters nothing. -/
def addAlp (lpRank : Nat) (alpToClpMap : Std.TreeMap Nat Nat) (p : Ports) (rank : Nat) :
    Option Ports := do
  let clp ← alpToClpMap[rank]?
  if clp = lpRank then p.addNeighbour rank else some (p.follow rank clp)

def start (lpRank : Nat) : Ports where
  rankToDirectionMap := (∅ : Std.TreeMap Nat Direction).insert lpRank .HERE
  directionToRankMap := fun _ => none
  direction := if lpRank = 0 then .LEFT else .UP

end Ports

/-- The constructor. -/
def create (lpRank numberOfClps : Nat) (initialisor : Initialisor) : Option RouteTable := do
  let forwardingTable ← ForwardingTable.create lpRank numberOfClps
  let ssvIdToDirectionMap ←
    initialisor.placements.foldlM (placeSsv lpRank forwardingTable) ∅
  let p ← (List.range numberOfClps).foldlM (Ports.addClp lpRank forwardingTable) (.start lpRank)
  let p ← (List.range numberOfClps).foldlM (Ports.addRemoteClp forwardingTable) p
  let p ← (List.range' numberOfClps initialisor.alpToClpMap.size).foldlM
    (Ports.addAlp lpRank initialisor.alpToClpMap) p
  some
    { rankToDirectionMap := p.rankToDirectionMap
      directionToRankMap := p.directionToRankMap
      ssvIdToDirectionMap := ssvIdToDirectionMap }

def getDirectionFromSsvId (t : RouteTable) (ssvId : SsvId) : Option Direction :=
  t.ssvIdToDirectionMap[ssvId]?

def getDirectionFromRank (t : RouteTable) (rank : Nat) : Option Direction :=
  t.rankToDirectionMap[rank]?

def getRankFromDirection (t : RouteTable) (direction : Direction) : Option Nat :=
  t.directionToRankMap direction

def setSsvIdHost (t : RouteTable) (ssvId : SsvId) (direction : Direction) : RouteTable :=
  { t with ssvIdToDirectionMap := t.ssvIdToDirectionMap.insert ssvId direction }

@[simp] theorem getDirectionFromSsvId_set (t : RouteTable) (ssvId id : SsvId)
    (direction : Direction) :
    (t.setSsvIdHost ssvId direction).getDirectionFromSsvId id =
      if ssvId = id then some direction else t.getDirectionFromSsvId id := by
  simp [setSsvIdHost, getDirectionFromSsvId, Std.TreeMap.getElem?_insert]

@[simp] theorem getRankFromDirection_set (t : RouteTable) (ssvId : SsvId)
    (direction d : Direction) :
    (t.setSsvIdHost ssvId direction).getRankFromDirection d = t.getRankFromDirection d := rfl

/-- The port of `rank` that leads to its neighbour `x`. -/
def portOf (rank x : Nat) : Direction :=
  if x = 2 * rank + 1 then .LEFT else if x = 2 * rank + 2 then .RIGHT else .UP

theorem portOf_ne_here (rank x : Nat) : portOf rank x ≠ .HERE := by
  simp only [portOf]
  split
  · nofun
  · split <;> nofun

theorem ssvDirection_of_adj {rank x : Nat} (h : HeapTree.Adj rank x) :
    ssvDirection rank x = some (portOf rank x) := by
  simp only [HeapTree.Adj] at h
  simp only [ssvDirection, portOf, parentRank]
  grind

theorem portOf_injective {rank x y : Nat} (hx : HeapTree.Adj rank x) (hy : HeapTree.Adj rank y)
    (h : portOf rank x = portOf rank y) : x = y := by
  simp only [HeapTree.Adj] at hx hy
  grind [portOf]

/-- The ports of a CLP lead to its neighbours among the CLPs below `bound`. -/
def PortsLead (rank bound : Nat) (directionToRankMap : Direction → Option Nat) : Prop :=
  ∀ d x, x < bound →
    (directionToRankMap d = some x ↔ HeapTree.Adj rank x ∧ d = portOf rank x)

section Ports

variable {lpRank numberOfClps : Nat} {forwardingTable : ForwardingTable}

theorem foldlM_invariant {σ α : Type} {f : σ → α → Option σ} (I : σ → Prop) {l : List α}
    (hstep : ∀ s x s', x ∈ l → I s → f s x = some s' → I s') {s s' : σ} (hs : I s)
    (h : l.foldlM f s = some s') : I s' := by
  induction l generalizing s with
  | nil => exact Option.some.inj h ▸ hs
  | cons x l ih =>
      obtain ⟨s₁, h₁, h₂⟩ := Option.bind_eq_some_iff.mp h
      exact ih (fun s x s' hx => hstep s x s' (List.mem_cons_of_mem _ hx))
        (hstep s x s₁ List.mem_cons_self hs h₁) h₂

/-- The direction for the first neighbour from `k` on. -/
def portFrom (rank k : Nat) : Direction :=
  if rank ≠ 0 ∧ k ≤ (rank - 1) / 2 then .UP
  else if k ≤ 2 * rank + 1 then .LEFT
  else if k ≤ 2 * rank + 2 then .RIGHT
  else .DIRECTION_SIZE

theorem portFrom_adj {rank k : Nat} (h : HeapTree.Adj rank k) :
    portFrom rank k = portOf rank k ∧ (portFrom rank k).next = some (portFrom rank (k + 1)) := by
  rcases h with rfl | rfl | rfl | rfl
  · grind [portFrom, portOf, Direction.next]
  · grind [portFrom, portOf, Direction.next]
  · grind [portFrom, portOf, Direction.next]
  · grind [portFrom, portOf, Direction.next]

theorem portFrom_not_adj {rank k : Nat} (h : ¬ HeapTree.Adj rank k) :
    portFrom rank (k + 1) = portFrom rank k := by
  simp only [HeapTree.Adj] at h
  grind [portFrom]

/-- The loop over the CLPs, up to `k`: each neighbour has got the next direction. -/
theorem addClp_loop {k : Nat} {p : Ports}
    (htable : ∀ x, x < numberOfClps →
      ∃ info, forwardingTable[x]? = some info ∧ ForwardingTable.Describes lpRank x info)
    (hk : k ≤ numberOfClps)
    (h : (List.range k).foldlM (Ports.addClp lpRank forwardingTable) (.start lpRank) = some p) :
    p.direction = portFrom lpRank k ∧ ∀ d x,
      p.directionToRankMap d = some x ↔ x < k ∧ HeapTree.Adj lpRank x ∧ d = portOf lpRank x := by
  induction k generalizing p with
  | zero =>
      obtain rfl : Ports.start lpRank = p := Option.some.inj h
      refine ⟨?_, fun d x => by simp [Ports.start]⟩
      simp only [Ports.start, portFrom]
      grind
  | succ k ih =>
      rw [List.range_succ, List.foldlM_append] at h
      obtain ⟨q, hq, hlast⟩ := Option.bind_eq_some_iff.mp h
      obtain ⟨hdirection, hports⟩ := ih (by omega) hq
      obtain ⟨r, hr, hrp⟩ := Option.bind_eq_some_iff.mp hlast
      obtain rfl : r = p := Option.some.inj hrp
      obtain ⟨info, hinfo, _, hhops⟩ := htable k (by omega)
      have hother : ∀ d x, ¬ HeapTree.Adj lpRank k → (q.directionToRankMap d = some x ↔
          x < k + 1 ∧ HeapTree.Adj lpRank x ∧ d = portOf lpRank x) := by
        intro d x hnot
        rw [hports]
        refine and_congr_left fun hx => ?_
        have hne : x ≠ k := by
          rintro rfl
          exact hnot hx.1
        omega
      simp only [Ports.addClp] at hr
      split at hr
      · rename_i hrank
        cases hr
        have hnot : ¬ HeapTree.Adj lpRank k := fun hadj => hadj.ne hrank.symm
        exact ⟨hdirection.trans (portFrom_not_adj hnot).symm, fun d x => hother d x hnot⟩
      · rename_i hrank
        simp only [hinfo, Option.bind_eq_bind, Option.bind_some] at hr
        split at hr
        · rename_i hhop
          have hadj : HeapTree.Adj lpRank k := (hhops.mp hhop).resolve_left hrank
          obtain ⟨hport, hnext⟩ := portFrom_adj hadj
          rw [Ports.addNeighbour, hdirection, hnext] at hr
          cases hr
          refine ⟨rfl, fun d x => ?_⟩
          simp only [Function.update_apply]
          split
          · rename_i hd
            have hdk : d = portOf lpRank k := hd.trans hport
            constructor
            · intro hx
              obtain rfl : k = x := Option.some.inj hx
              exact ⟨Nat.lt_succ_self k, hadj, hdk⟩
            · rintro ⟨_, hx, hdx⟩
              rw [portOf_injective hx hadj (hdx.symm.trans hdk)]
          · rename_i hd
            rw [hports]
            refine and_congr_left fun hx => ?_
            have hne : x ≠ k := by
              rintro rfl
              exact hd (hx.2.trans hport.symm)
            omega
        · rename_i hhop
          cases hr
          have hnot : ¬ HeapTree.Adj lpRank k := fun hadj => hhop (hhops.mpr (.inr hadj))
          exact ⟨hdirection.trans (portFrom_not_adj hnot).symm, fun d x => hother d x hnot⟩

/-- The rank of a direction in the order in which ports are given out. -/
def ordinal : Direction → Nat
  | .HERE => 0
  | .UP => 1
  | .LEFT => 2
  | .RIGHT => 3
  | .DIRECTION_SIZE => 4

theorem ordinal_next {d next : Direction} (h : d.next = some next) : ordinal d < ordinal next := by
  cases d <;> simp [Direction.next] at h <;> simp [← h, ordinal]

/-- What the loops behind the neighbouring CLPs keep. -/
structure Assigned (lpRank numberOfClps : Nat) (p : Ports) : Prop where
  lead : PortsLead lpRank numberOfClps p.directionToRankMap
  used : ∀ d, p.directionToRankMap d ≠ none → ordinal d < ordinal p.direction

theorem Assigned.follow {p : Ports} (h : Assigned lpRank numberOfClps p)
    (rank nextRank : Nat) : Assigned lpRank numberOfClps (p.follow rank nextRank) :=
  ⟨h.lead, h.used⟩

theorem Assigned.addNeighbour {p p' : Ports} {rank : Nat}
    (h : Assigned lpRank numberOfClps p) (hrank : numberOfClps ≤ rank)
    (hadd : p.addNeighbour rank = some p') : Assigned lpRank numberOfClps p' := by
  obtain ⟨next, hnext, rfl⟩ := Option.map_eq_some_iff.mp hadd
  have hlt := ordinal_next hnext
  have hfree : p.directionToRankMap p.direction = none := by
    by_contra hne
    exact Nat.lt_irrefl _ (h.used _ hne)
  constructor
  · intro d x hx
    rw [← h.lead d x hx]
    simp only [Function.update_apply]
    split
    · rename_i hd
      rw [hd, hfree]
      simp only [Option.some.injEq, reduceCtorEq, iff_false]
      omega
    · rfl
  · intro d hd
    simp only [Function.update_apply] at hd
    split at hd
    · rename_i heq
      exact heq ▸ hlt
    · exact Nat.lt_trans (h.used d hd) hlt

theorem assigned_addClp {p : Ports}
    (htable : ∀ x, x < numberOfClps →
      ∃ info, forwardingTable[x]? = some info ∧ ForwardingTable.Describes lpRank x info)
    (h : (List.range numberOfClps).foldlM (Ports.addClp lpRank forwardingTable) (.start lpRank) =
      some p) : Assigned lpRank numberOfClps p := by
  obtain ⟨hdirection, hports⟩ := addClp_loop htable (Nat.le_refl _) h
  constructor
  · intro d x hx
    rw [hports]
    exact and_iff_right hx
  · intro d hd
    obtain ⟨x, hx⟩ := Option.ne_none_iff_exists'.mp hd
    obtain ⟨hlt, hadj, rfl⟩ := (hports d x).mp hx
    rw [hdirection]
    simp only [HeapTree.Adj] at hadj
    grind [portOf, portFrom, ordinal]

theorem addRemoteClp_cases {p p' : Ports} {rank : Nat}
    (h : Ports.addRemoteClp forwardingTable p rank = some p') :
    p' = p ∨ ∃ nextRank, p' = p.follow rank nextRank := by
  simp only [Ports.addRemoteClp] at h
  split at h
  · exact .inl (Option.some.inj h).symm
  · obtain ⟨info, _, h⟩ := Option.bind_eq_some_iff.mp h
    split at h
    · exact .inr ⟨info.nextNodeRank, (Option.some.inj h).symm⟩
    · exact .inl (Option.some.inj h).symm

theorem assigned_addRemoteClp {p p' : Ports} {rank : Nat}
    (h : Assigned lpRank numberOfClps p)
    (hstep : Ports.addRemoteClp forwardingTable p rank = some p') :
    Assigned lpRank numberOfClps p' := by
  obtain rfl | ⟨nextRank, rfl⟩ := addRemoteClp_cases hstep
  · exact h
  · exact h.follow rank nextRank

/-- The constructor takes its loops one after another, over a table that describes the tree. -/
theorem create_phases {initialisor : Initialisor} {t : RouteTable}
    (hrank : lpRank < numberOfClps) (h : create lpRank numberOfClps initialisor = some t) :
    ∃ (table : ForwardingTable) (p₁ p₂ p₃ : Ports),
      (∀ x, x < numberOfClps →
        ∃ info, table[x]? = some info ∧ ForwardingTable.Describes lpRank x info) ∧
      initialisor.placements.foldlM (placeSsv lpRank table) ∅ = some t.ssvIdToDirectionMap ∧
      (List.range numberOfClps).foldlM (Ports.addClp lpRank table) (.start lpRank) = some p₁ ∧
      (List.range numberOfClps).foldlM (Ports.addRemoteClp table) p₁ = some p₂ ∧
      (List.range' numberOfClps initialisor.alpToClpMap.size).foldlM
        (Ports.addAlp lpRank initialisor.alpToClpMap) p₂ = some p₃ ∧
      t.rankToDirectionMap = p₃.rankToDirectionMap ∧
      t.directionToRankMap = p₃.directionToRankMap := by
  obtain ⟨table, htable, hdescribes⟩ := ForwardingTable.create_describes hrank
  simp only [create, htable, Option.bind_eq_bind, Option.bind_some] at h
  obtain ⟨ssvs, hssvs, h⟩ := Option.bind_eq_some_iff.mp h
  obtain ⟨p₁, h₁, h⟩ := Option.bind_eq_some_iff.mp h
  obtain ⟨p₂, h₂, h⟩ := Option.bind_eq_some_iff.mp h
  obtain ⟨p₃, h₃, h⟩ := Option.bind_eq_some_iff.mp h
  cases h
  exact ⟨table, p₁, p₂, p₃, hdescribes, hssvs, h₁, h₂, h₃, rfl, rfl⟩

theorem portsLead_create {initialisor : Initialisor} {t : RouteTable}
    (hrank : lpRank < numberOfClps) (h : create lpRank numberOfClps initialisor = some t) :
    PortsLead lpRank numberOfClps t.directionToRankMap := by
  obtain ⟨table, p₁, p₂, p₃, hdescribes, _, h₁, h₂, h₃, _, hports⟩ := create_phases hrank h
  rw [hports]
  have hassigned : Assigned lpRank numberOfClps p₂ :=
    foldlM_invariant _ (fun _ _ _ _ => assigned_addRemoteClp) (assigned_addClp hdescribes h₁) h₂
  refine (foldlM_invariant _ (fun p rank p' hmem hp hstep => ?_) hassigned h₃).lead
  obtain ⟨clp, _, hstep⟩ := Option.bind_eq_some_iff.mp hstep
  split at hstep
  · exact hp.addNeighbour (List.mem_range'_1.mp hmem).1 hstep
  · exact Option.some.inj hstep ▸ hp.follow _ _

/-- The direction in which a CLP finds a variable placed on `host`. -/
noncomputable def directionTo (lpRank host : Nat) : Direction :=
  if host = lpRank then .HERE else portOf lpRank (HeapTree.nextHop lpRank host)

theorem placeSsv_eq {m m' : Std.TreeMap SsvId Direction} {host : Nat} {ssvId : SsvId}
    (htable : ∀ x, x < numberOfClps →
      ∃ info, forwardingTable[x]? = some info ∧ ForwardingTable.Describes lpRank x info)
    (hhost : host < numberOfClps)
    (h : placeSsv lpRank forwardingTable m (host, ssvId) = some m') :
    m' = m.insertIfNew ssvId (directionTo lpRank host) := by
  simp only [placeSsv] at h
  split at h
  · rename_i heq
    rw [directionTo, if_pos heq]
    exact (Option.some.inj h).symm
  · rename_i hne
    obtain ⟨info, hinfo, hnext, _⟩ := htable host hhost
    simp only [hinfo, Option.bind_eq_bind, Option.bind_some, hnext hne,
      ssvDirection_of_adj (HeapTree.adj_nextHop (Ne.symm hne))] at h
    rw [directionTo, if_neg hne]
    exact (Option.some.inj h).symm

theorem placeSsv_loop {placements : List (Nat × SsvId)} {m m' : Std.TreeMap SsvId Direction}
    (htable : ∀ x, x < numberOfClps →
      ∃ info, forwardingTable[x]? = some info ∧ ForwardingTable.Describes lpRank x info)
    (hnodup : (placements.map Prod.snd).Nodup) (hhosts : ∀ e ∈ placements, e.1 < numberOfClps)
    (hfresh : ∀ e ∈ placements, m.contains e.2 = false)
    (h : placements.foldlM (placeSsv lpRank forwardingTable) m = some m') :
    (∀ e ∈ placements, m'[e.2]? = some (directionTo lpRank e.1)) ∧
      ∀ ssvId, (∀ e ∈ placements, e.2 ≠ ssvId) → m'[ssvId]? = m[ssvId]? := by
  induction placements generalizing m with
  | nil =>
      obtain rfl : m = m' := Option.some.inj h
      exact ⟨nofun, fun _ _ => rfl⟩
  | cons e placements ih =>
      obtain ⟨m₁, h₁, h₂⟩ := Option.bind_eq_some_iff.mp h
      obtain ⟨hnew, hnodup⟩ := List.nodup_cons.mp hnodup
      have hm₁ : m₁ = m.insertIfNew e.2 (directionTo lpRank e.1) :=
        placeSsv_eq htable (hhosts e List.mem_cons_self) h₁
      have hlookup : ∀ ssvId, m₁[ssvId]? =
          if e.2 = ssvId then some (directionTo lpRank e.1) else m[ssvId]? := by
        intro ssvId
        have hnotin : e.2 ∉ m := by
          rw [Std.TreeMap.mem_iff_contains, hfresh e List.mem_cons_self]
          exact Bool.false_ne_true
        simp [hm₁, Std.TreeMap.getElem?_insertIfNew, hnotin]
      have hother : ∀ e' ∈ placements, e.2 ≠ e'.2 := fun e' he' heq =>
        hnew (heq ▸ List.mem_map_of_mem he')
      obtain ⟨hplaced, hkept⟩ := ih hnodup (fun e' he' => hhosts e' (List.mem_cons_of_mem _ he'))
        (fun e' he' => by
          rw [hm₁, Std.TreeMap.contains_insertIfNew, hfresh e' (List.mem_cons_of_mem _ he')]
          simpa using hother e' he') h₂
      refine ⟨fun e' he' => ?_, fun ssvId hne => ?_⟩
      · rcases List.mem_cons.mp he' with rfl | he'
        · rw [hkept e'.2 fun e'' he'' => Ne.symm (hother e'' he''), hlookup, if_pos rfl]
        · exact hplaced e' he'
      · rw [hkept ssvId fun e' he' => hne e' (List.mem_cons_of_mem _ he'), hlookup,
          if_neg (hne e List.mem_cons_self)]

theorem ssvs_create {initialisor : Initialisor} {t : RouteTable}
    (hrank : lpRank < numberOfClps) (hplaces : initialisor.PlacesOnce numberOfClps)
    (h : create lpRank numberOfClps initialisor = some t) :
    (∀ e ∈ initialisor.placements,
      t.getDirectionFromSsvId e.2 = some (directionTo lpRank e.1)) ∧
    ∀ ssvId, ssvId ∉ initialisor.placements.map Prod.snd →
      t.getDirectionFromSsvId ssvId = none := by
  obtain ⟨table, p₁, p₂, p₃, hdescribes, hssvs, _⟩ := create_phases hrank h
  obtain ⟨hplaced, hkept⟩ := placeSsv_loop hdescribes hplaces.1 hplaces.2 (fun _ _ => by simp) hssvs
  refine ⟨hplaced, fun ssvId hid => ?_⟩
  exact (hkept ssvId fun e he heq => hid (heq ▸ List.mem_map_of_mem he)).trans (by simp)

end Ports
end RouteTable
end PdesMas
