import PdesMas.Lp.Conservation
import PdesMas.Lp.CountedAccesses

/-!
The network of CLPs that balance their load. Where `SetGvt` finds the load of a CLP too
high, the CLP migrates the variables of its own migration map. End messages appear as the
flag that they set, which keeps the next `SetGvt` from migrating. Range queries appear as the
range reads that CLPs make for them, at any time and with any range, agent and hops.
-/

namespace PdesMas

namespace Clp

/-- `CheckClpLoad`, with its effect on the counters. -/
def checkLoad (c : Clp) : Clp :=
  { c with
    sharedState :=
      { c.sharedState with
        accessCostCalculator := c.sharedState.accessCostCalculator.checkClpLoad.2 } }

/-- The migration of `SetGvt`. `GetMigrationMap` resets the load, which is zero by then. -/
def balance (rollbacks : RollbackList → List (LpId × Nat)) (clock : SsvId → Nat) (c : Clp) :
    Except Exit Clp :=
  if c.sharedState.accessCostCalculator.checkClpLoad.1 then
    c.checkLoad.migrateStateVariables rollbacks clock
      c.checkLoad.sharedState.accessCostCalculator.migrationMap
  else .ok c.checkLoad

/-- `SetGvt`, all of it. -/
def setGvtAndBalance (rollbacks : RollbackList → List (LpId × Nat)) (clock : SsvId → Nat)
    (c : Clp) (gvt : Nat) (endMessageProcessed : Bool) : Except Exit Clp :=
  if endMessageProcessed then .ok (c.setGvt gvt) else (c.setGvt gvt).balance rollbacks clock

end Clp

structure BalancingNetwork where
  network : Network
  endMessageProcessed : Nat → Bool

namespace BalancingNetwork

inductive Event where
  | alpSend (alp : Nat) (m : AlpMessage)
  | deliver (source target : Nat)
  | receive (clp : Nat) (clock : SsvId → Nat)
  | send (clp : Nat)
  | rangeRead (clp : Nat) (agent : LpId) (range : Range) (numberOfTraverseHops time : Nat)
  | processEndMessage (clp : Nat)
  | setGvt (clp gvt : Nat) (clock : SsvId → Nat)

def start (net : Network) : BalancingNetwork := ⟨net, fun _ => false⟩

variable (setup : Setup)

/-- An event of the network has no part in the flags. -/
def pass (b : BalancingNetwork) (e : Network.Event) :
    Except Exit (BalancingNetwork × Network.Output) := do
  let r ← b.network.step setup e
  .ok ({ b with network := r.1 }, r.2)

def step (b : BalancingNetwork) : Event → Except Exit (BalancingNetwork × Network.Output)
  | .alpSend alp m => b.pass setup (.alpSend alp m)
  | .deliver source target => b.pass setup (.deliver source target)
  | .receive clp clock => b.pass setup (.receive clp clock)
  | .send clp => b.pass setup (.send clp)
  | .rangeRead clp agent range numberOfTraverseHops time =>
      if clp < setup.numberOfClps then do
        let c ← (b.network.clp clp).rangeRead agent range numberOfTraverseHops time
        .ok ({ b with network := b.network.setClp clp c }, .nothing)
      else .ok (b, .nothing)
  | .processEndMessage clp =>
      .ok ({ b with endMessageProcessed := Function.update b.endMessageProcessed clp true },
        .nothing)
  | .setGvt clp gvt clock =>
      if clp < setup.numberOfClps then do
        let c ← (b.network.clp clp).setGvtAndBalance setup.rollbacks clock gvt
          (b.endMessageProcessed clp)
        .ok (⟨b.network.setClp clp c, Function.update b.endMessageProcessed clp false⟩, .nothing)
      else .ok (b, .nothing)

def machine : Machine BalancingNetwork Event Network.Output where
  step b e := (b.step setup e).toOption

/-- What has been counted: the accesses to each variable since it came to the CLP, and all
accesses since the CLP checked its load. -/
structure Log where
  accesses : Nat → SsvId → List Access
  unchecked : Nat → List Access

/-- The accesses that the CLP `x` counts in the step. -/
def counted (b : BalancingNetwork) (x : Nat) : Event → List (SsvId × Access)
  | .receive clp _ => if clp = x then (b.network.clp x).counts.toList else []
  | .rangeRead clp agent range numberOfTraverseHops time =>
      if clp = x then (b.network.clp x).countsInRange agent range numberOfTraverseHops time
      else []
  | .alpSend .. | .deliver .. | .send _ | .processEndMessage _ | .setGvt .. => []

/-- The CLP `x` checks its load in the step. -/
def checks (b : BalancingNetwork) (x : Nat) : Event → Bool
  | .setGvt clp _ _ => clp == x && !b.endMessageProcessed x
  | .alpSend .. | .deliver .. | .receive .. | .send _ | .rangeRead .. | .processEndMessage _ =>
      false

def note (b : BalancingNetwork) (e : Event) (r : BalancingNetwork × Network.Output)
    (log : Log) : Log where
  accesses x ssvId :=
    if b.network.holds ssvId x && r.1.network.holds ssvId x then
      log.accesses x ssvId ++ accessesTo ssvId (b.counted x e)
    else []
  unchecked x :=
    (if b.checks x e then [] else log.unchecked x) ++ (b.counted x e).map Prod.snd

/-- The log of a run. -/
def logOf (b : BalancingNetwork) (es : List Event) : Log :=
  (machine setup).noted note b es ⟨fun _ _ => [], fun _ => []⟩

variable {setup} {b b' : BalancingNetwork} {e : Event} {o : Network.Output}

theorem machine_step_iff {r : BalancingNetwork × Network.Output} :
    (machine setup).step b e = some r ↔ b.step setup e = .ok r := by
  cases h : b.step setup e <;> simp [machine, h, Except.toOption]

section Counting

/-- A step counts at most one access to a variable. -/
theorem length_accessesTo_counted (b : BalancingNetwork) (x : Nat) (e : Event) (ssvId : SsvId) :
    (accessesTo ssvId (b.counted x e)).length ≤ 1 := by
  apply length_accessesTo_le
  cases e with
  | receive clp clock =>
      simp only [counted]
      split
      · cases (b.network.clp x).counts with
        | none => simp
        | some p => simp
      · simp
  | rangeRead clp agent range numberOfTraverseHops time =>
      simp only [counted]
      split
      · simpa [Clp.countsInRange, List.map_map, Function.comp_def] using
          (b.network.clp x).sharedState.readAt_nodup range time
      · simp
  | alpSend alp m | deliver source target | send clp | processEndMessage clp
  | setGvt clp gvt clock => simp [counted]

/-- The CLP as it counts in the step. -/
def counter (b : BalancingNetwork) (x : Nat) (e : Event) : Clp :=
  if b.checks x e then (b.network.clp x).checkLoad else b.network.clp x

theorem counting_same (x : Nat) : (b.network.clp x).Counting (b.network.clp x) [] :=
  Clp.counting_of_same rfl (.refl _) rfl

theorem counting_setClp (net : Network) {x : Nat} {c : Clp} (h : (net.clp x).Counting c [])
    (y : Nat) : (net.clp y).Counting ((net.setClp x c).clp y) [] := by
  by_cases hy : y = x
  · subst hy
    rwa [Network.setClp_self]
  · rw [Network.setClp_of_ne net c hy]
    exact Clp.counting_of_same rfl (.refl _) rfl

/-- An event of the network in which no CLP takes a message. -/
theorem counting_of_pass {f : Network.Event} (hreceive : ∀ x clock, f ≠ .receive x clock)
    (hmigrate : ∀ x migrationMap clock, f ≠ .migrate x migrationMap clock)
    (h : b.pass setup f = .ok (b', o)) (x : Nat) :
    (b.network.clp x).Counting (b'.network.clp x) [] := by
  obtain ⟨⟨net', o'⟩, hstep, h⟩ := bind_eq_ok.mp h
  cases h
  cases Network.works_of_step hstep with
  | alpSend alp m =>
      have hclp : (b.network.alpSend setup alp m).1.clp = b.network.clp := by
        simp only [Network.alpSend]
        split
        · split <;> rfl
        · rfl
      simp only [hclp]
      exact counting_same x
  | deliver i j =>
      simp only [Network.deliver]
      split
      · exact counting_same x
      · rename_i t rest _
        have hsame : (b.network.clp j).Counting (Network.receiveToLp (b.network.clp j) i t)
            [] := by
          cases t <;> exact Clp.counting_of_same rfl (.refl _) rfl
        split
        · exact counting_setClp (b.network.setLink i j rest) hsame x
        · exact counting_same x
  | receive => exact absurd rfl (hreceive _ _)
  | @send y c s _ hsend =>
      have hput : ((b.network.setClp y c).put y s).clp = (b.network.setClp y c).clp := by
        cases s <;> rfl
      simp only [hput]
      exact counting_setClp b.network (Clp.counting_of_send hsend) x
  | @setGvt y gvt _ => exact counting_setClp b.network (Clp.counting_setGvt _ gvt) x
  | migrate => exact absurd rfl (hmigrate _ _ _)
  | idle => exact counting_same x

theorem counting_of_balance {c c' : Clp} {rollbacks : RollbackList → List (LpId × Nat)}
    {clock : SsvId → Nat} (h : c.balance rollbacks clock = .ok c') :
    c.checkLoad.Counting c' [] := by
  simp only [Clp.balance] at h
  split at h
  · exact (Clp.counting_of_migrateStateVariables h).1
  · cases h
    exact Clp.counting_of_same rfl (.refl _) rfl

/-- What every step does to the counters of every CLP. -/
theorem counting_of_step (hwired : Network.Wired setup b.network)
    (h : b.step setup e = .ok (b', o)) {x : Nat} (hx : x < setup.numberOfClps) :
    (b.counter x e).Counting (b'.network.clp x) (b.counted x e) := by
  cases e with
  | alpSend alp m => exact counting_of_pass (by simp) (by simp) h x
  | deliver source target => exact counting_of_pass (by simp) (by simp) h x
  | send clp => exact counting_of_pass (by simp) (by simp) h x
  | processEndMessage clp =>
      cases h
      exact counting_same x
  | receive clp clock =>
      obtain ⟨⟨net', o'⟩, hstep, h⟩ := bind_eq_ok.mp h
      cases h
      simp only [counter, checks, counted, Bool.false_eq_true, ite_false]
      simp only [Network.step] at hstep
      split at hstep
      · rename_i hclp
        obtain ⟨⟨c, r⟩, hreceive, hstep⟩ := bind_eq_ok.mp hstep
        cases hstep
        by_cases hcx : clp = x
        · subst hcx
          rw [if_pos rfl, Network.setClp_self]
          exact Clp.counting_of_receive (hwired.counted clp hclp) hreceive
        · rw [if_neg hcx, Network.setClp_of_ne _ _ (Ne.symm hcx)]
          exact counting_same x
      · rename_i hclp
        cases hstep
        have hcx : clp ≠ x := fun heq => hclp (heq ▸ hx)
        rw [if_neg hcx]
        exact counting_same x
  | rangeRead clp agent range numberOfTraverseHops time =>
      simp only [step] at h
      simp only [counter, checks, counted, Bool.false_eq_true, ite_false]
      split at h
      · rename_i hclp
        obtain ⟨c, hread, h⟩ := bind_eq_ok.mp h
        cases h
        by_cases hcx : clp = x
        · subst hcx
          rw [if_pos rfl, Network.setClp_self]
          exact Clp.counting_of_rangeRead (hwired.counted clp hclp) hread
        · rw [if_neg hcx, Network.setClp_of_ne _ _ (Ne.symm hcx)]
          exact counting_same x
      · rename_i hclp
        cases h
        have hcx : clp ≠ x := fun heq => hclp (heq ▸ hx)
        rw [if_neg hcx]
        exact counting_same x
  | setGvt clp gvt clock =>
      simp only [step] at h
      split at h
      · obtain ⟨c, hc, h⟩ := bind_eq_ok.mp h
        cases h
        simp only [counter, checks, counted]
        by_cases hcx : clp = x
        · subst hcx
          simp only [Clp.setGvtAndBalance] at hc
          rw [Network.setClp_self]
          split at hc
          · rename_i hflag
            cases hc
            simpa [hflag] using Clp.counting_setGvt (b.network.clp clp) gvt
          · rename_i hflag
            have hcheck : (b.network.clp clp).checkLoad.Counting
                ((b.network.clp clp).setGvt gvt).checkLoad [] :=
              Clp.counting_setGvt (b.network.clp clp).checkLoad gvt
            have hbalance := hcheck.trans (counting_of_balance hc) fun id hid _ =>
              (((b.network.clp clp).sharedState.removeWritePeriods_sameVariables gvt).contains
                id).trans hid
            simpa [hflag] using hbalance
        · rw [Network.setClp_of_ne _ _ (Ne.symm hcx)]
          simpa [hcx] using counting_same x
      · rename_i hclp
        cases h
        have hcx : clp ≠ x := fun heq => hclp (heq ▸ hx)
        simpa [counter, checks, counted, hcx] using counting_same x

end Counting

end BalancingNetwork
end PdesMas
