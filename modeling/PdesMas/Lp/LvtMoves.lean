import PdesMas.Library.UpperBound
import PdesMas.Lp.AgentHistory

/-!
The LVT of an agent and its history, with what has moved it: a request to behind its
timestamp, an advance by some time. An executed rollback undoes the requests from its
time on and the advances beyond it, and puts the LVT back where the first of these
found it.
-/

namespace PdesMas

/-- The LVT of an agent in the maps of its ALP. -/
structure AgentLvt where
  lvt : Nat
  lvtHistory : List Nat
deriving DecidableEq, Repr

namespace AgentLvt

def initial : AgentLvt := ⟨0, [0]⟩

def setAgentLvt (a : AgentLvt) (lvt : Nat) : AgentLvt :=
  if a.lvt ≤ lvt then ⟨lvt, a.lvtHistory ++ [lvt]⟩ else a

/-- What a request does when it has been answered. It is behind the LVT by an assertion; behind
the last time there is none, and the sum wraps. -/
def request (a : AgentLvt) (timestamp : Nat) : Option AgentLvt :=
  if timestamp ≥ a.lvt then some (a.setAgentLvt ((timestamp + 1) % (ULONG_MAX + 1))) else none

def timeWrap (a : AgentLvt) (t : Nat) : AgentLvt :=
  a.setAgentLvt ((a.lvt + t) % (ULONG_MAX + 1))

/-- The part of `ProcessRollback` that erases from the history. -/
def rollback (a : AgentLvt) (time : Nat) : Option AgentLvt :=
  let history := a.lvtHistory.take (UpperBound.upperBound a.lvtHistory time)
  history.getLast?.map fun lvt => ⟨lvt, history⟩

end AgentLvt

/-- What has moved an LVT, and the LVT before that. -/
inductive Move where
  | request (timestamp before : Nat)
  | advance (lvt before : Nat)
deriving DecidableEq, Repr

namespace Move

def before : Move → Nat
  | request _ before | advance _ before => before

def after : Move → Nat
  | request timestamp _ => timestamp + 1
  | advance lvt _ => lvt

/-- A request from `time` on, or an advance beyond it. -/
def undoneBy (time : Nat) : Move → Bool
  | request timestamp _ => decide (time ≤ timestamp)
  | advance lvt _ => decide (time < lvt)

theorem undoneBy_eq (time : Nat) (m : Move) : m.undoneBy time = decide (time < m.after) := by
  cases m with
  | request timestamp before => simp only [undoneBy, after, Nat.lt_succ_iff]
  | advance lvt before => rfl

end Move

/-- The LVT of an agent, and the moves of it that no executed rollback has undone. -/
structure MovedLvt where
  agent : AgentLvt
  moves : List Move
deriving DecidableEq, Repr

namespace MovedLvt

inductive Event where
  /-- A request that has been answered. -/
  | request (timestamp : Nat)
  | timeWrap (t : Nat)
  /-- A rollback that is executed. -/
  | rollback (time : Nat)
deriving DecidableEq, Repr

def initial : MovedLvt := ⟨.initial, []⟩

/-- A request at the last time, which sets the LVT to no time behind it, is not one here. -/
def requestMove (timestamp before : Nat) : Move :=
  if timestamp < ULONG_MAX then .request timestamp before else .advance 0 before

/-- `SetAgentLvt` ignores an LVT below the present one. -/
def addMove (s : MovedLvt) (m : Move) : List Move :=
  if s.agent.lvt ≤ m.after then s.moves ++ [m] else s.moves

def step (s : MovedLvt) : Event → Option MovedLvt
  | .request timestamp =>
      if timestamp ≤ ULONG_MAX then
        (s.agent.request timestamp).map fun agent =>
          ⟨agent, s.addMove (requestMove timestamp s.agent.lvt)⟩
      else none
  | .timeWrap t =>
      if t ≤ ULONG_MAX then
        some ⟨s.agent.timeWrap t,
          s.addMove (.advance ((s.agent.lvt + t) % (ULONG_MAX + 1)) s.agent.lvt)⟩
      else none
  | .rollback time =>
      if time ≤ s.agent.lvt then
        (s.agent.rollback time).map fun agent =>
          ⟨agent, s.moves.filter fun m => ¬ m.undoneBy time⟩
      else none

def machine : Machine MovedLvt Event Unit := ⟨fun s e => (s.step e).map fun s => (s, ())⟩

/-- The LVT before the first move that a rollback undoes; without one, the LVT itself. -/
def lvtBefore (moves : List Move) (lvt time : Nat) : Nat :=
  match moves.find? fun m => m.undoneBy time with
  | some m => m.before
  | none => lvt

/-- The moves lead from one LVT to the other, and never back. -/
def Leads : Nat → List Move → Nat → Prop
  | start, [], lvt => lvt = start
  | start, m :: moves, lvt => m.before = start ∧ start ≤ m.after ∧ Leads m.after moves lvt

/-- The history is that of the moves. -/
structure Follows (s : MovedLvt) : Prop where
  history : s.agent.lvtHistory = 0 :: s.moves.map Move.after
  leads : Leads 0 s.moves s.agent.lvt

section Leads

variable {start lvt time : Nat} {moves : List Move}

theorem Leads.le (h : Leads start moves lvt) : start ≤ lvt := by
  induction moves generalizing start with
  | nil => exact Nat.le_of_eq h.symm
  | cons m moves ih => exact Nat.le_trans h.2.1 (ih h.2.2)

theorem Leads.sorted (h : Leads start moves lvt) :
    (start :: moves.map Move.after).Pairwise (· ≤ ·) := by
  induction moves generalizing start with
  | nil => exact List.pairwise_singleton _ _
  | cons m moves ih =>
      have hrest := ih h.2.2
      refine List.pairwise_cons.mpr ⟨?_, hrest⟩
      intro t ht
      rcases List.mem_cons.mp ht with rfl | ht
      · exact h.2.1
      · exact Nat.le_trans h.2.1 ((List.pairwise_cons.mp hrest).1 t ht)

theorem Leads.getLast? (h : Leads start moves lvt) :
    (start :: moves.map Move.after).getLast? = some lvt := by
  induction moves generalizing start with
  | nil => exact congrArg some h.symm
  | cons m moves ih =>
      rw [List.map_cons, List.getLast?_cons_cons]
      exact ih h.2.2

theorem Leads.concat (h : Leads start moves lvt) {m : Move} (hbefore : m.before = lvt)
    (hafter : lvt ≤ m.after) : Leads start (moves ++ [m]) m.after := by
  induction moves generalizing start with
  | nil =>
      obtain rfl : lvt = start := h
      exact ⟨hbefore, hafter, rfl⟩
  | cons m' moves ih => exact ⟨h.1, h.2.1, ih h.2.2⟩

/-- Everything after `time` is undone. -/
theorem Leads.filter_eq_nil (h : Leads start moves lvt) (hstart : time < start) :
    moves.filter (fun m => ¬ m.undoneBy time) = [] := by
  refine List.filter_eq_nil_iff.mpr fun m hm hkept => ?_
  have hle := (List.pairwise_cons.mp h.sorted).1 m.after (List.mem_map_of_mem hm)
  rw [Move.undoneBy_eq] at hkept
  simp at hkept
  omega

theorem lvtBefore_cons_of_undone {m : Move} (hm : m.undoneBy time = true) :
    lvtBefore (m :: moves) lvt time = m.before := by
  simp [lvtBefore, hm]

theorem lvtBefore_cons_of_kept {m : Move} (hm : m.undoneBy time = false) :
    lvtBefore (m :: moves) lvt time = lvtBefore moves lvt time := by
  simp [lvtBefore, hm]

/-- The moves that a rollback leaves lead to the LVT before the first that it undoes. -/
theorem Leads.kept (h : Leads start moves lvt) (hstart : start ≤ time) :
    Leads start (moves.filter fun m => ¬ m.undoneBy time) (lvtBefore moves lvt time) ∧
      lvtBefore moves lvt time ≤ time ∧
      (start :: moves.map Move.after).takeWhile (fun t => decide (t ≤ time)) =
        start :: (moves.filter fun m => ¬ m.undoneBy time).map Move.after := by
  induction moves generalizing start with
  | nil =>
      obtain rfl : lvt = start := h
      exact ⟨rfl, hstart, by simp [hstart]⟩
  | cons m moves ih =>
      obtain ⟨hbefore, hafter, hrest⟩ := h
      rw [List.takeWhile_cons_of_pos (p := fun t => decide (t ≤ time)) (decide_eq_true hstart),
        List.map_cons]
      by_cases hm : time < m.after
      · have hundone : m.undoneBy time = true := by simpa [Move.undoneBy_eq] using hm
        rw [lvtBefore_cons_of_undone hundone, List.filter_cons_of_neg (by simp [hundone]),
          hrest.filter_eq_nil hm, List.takeWhile_cons_of_neg (by simpa using hm)]
        exact ⟨hbefore, hbefore ▸ hstart, rfl⟩
      · have hkept : m.undoneBy time = false := by simpa [Move.undoneBy_eq] using hm
        obtain ⟨hleads, hle, htake⟩ := ih hrest (Nat.le_of_not_lt hm)
        rw [lvtBefore_cons_of_kept hkept, List.filter_cons_of_pos (by simp [hkept]), htake]
        exact ⟨⟨hbefore, hafter, hleads⟩, hle, rfl⟩

end Leads

variable {s s' : MovedLvt} {e : Event}

theorem Follows.sorted (h : Follows s) : s.agent.lvtHistory.Pairwise (· ≤ ·) := by
  rw [h.history]
  exact h.leads.sorted

theorem Follows.last (h : Follows s) : s.agent.lvtHistory.getLast? = some s.agent.lvt := by
  rw [h.history]
  exact h.leads.getLast?

theorem follows_initial : Follows initial := ⟨rfl, rfl⟩

/-- The LVT is set, and the move recorded that it is set for. -/
theorem Follows.addMove (h : Follows s) {m : Move} (hbefore : m.before = s.agent.lvt) :
    Follows ⟨s.agent.setAgentLvt m.after, s.addMove m⟩ := by
  by_cases hle : s.agent.lvt ≤ m.after
  · rw [AgentLvt.setAgentLvt, if_pos hle, MovedLvt.addMove, if_pos hle]
    refine ⟨?_, h.leads.concat hbefore hle⟩
    simp [h.history]
  · rw [AgentLvt.setAgentLvt, if_neg hle, MovedLvt.addMove, if_neg hle]
    exact h

theorem after_requestMove {timestamp : Nat} (h : timestamp ≤ ULONG_MAX) (before : Nat) :
    (requestMove timestamp before).after = (timestamp + 1) % (ULONG_MAX + 1) := by
  rw [requestMove]
  split
  · next hlt => exact (Nat.mod_eq_of_lt (Nat.succ_lt_succ hlt)).symm
  · next hge =>
    rw [Nat.le_antisymm h (Nat.le_of_not_lt hge), Nat.mod_self]
    rfl

theorem before_requestMove (timestamp before : Nat) :
    (requestMove timestamp before).before = before := by
  rw [requestMove]
  split <;> rfl

/-- The bisection is on a list in order, and an executed rollback finds an LVT to restore. -/
theorem Follows.rollback (h : Follows s) (time : Nat) :
    s.agent.rollback time = some
      ⟨lvtBefore s.moves s.agent.lvt time,
        0 :: (s.moves.filter fun m => ¬ m.undoneBy time).map Move.after⟩ := by
  obtain ⟨hleads, _, htake⟩ := h.leads.kept (Nat.zero_le time)
  rw [AgentLvt.rollback, UpperBound.take_upperBound h.sorted, h.history, htake, hleads.getLast?]
  rfl

theorem follows_step (h : Follows s) (hstep : s.step e = some s') : Follows s' := by
  cases e with
  | request timestamp =>
      simp only [step] at hstep
      split at hstep
      · next htime =>
        obtain ⟨agent, hagent, rfl⟩ := Option.map_eq_some_iff.mp hstep
        simp only [AgentLvt.request] at hagent
        split at hagent
        · cases hagent
          rw [← after_requestMove htime s.agent.lvt]
          exact h.addMove (before_requestMove timestamp _)
        · cases hagent
      · cases hstep
  | timeWrap t =>
      simp only [step] at hstep
      split at hstep
      · cases hstep
        exact h.addMove (m := .advance ((s.agent.lvt + t) % (ULONG_MAX + 1)) s.agent.lvt) rfl
      · cases hstep
  | rollback time =>
      simp only [step] at hstep
      split at hstep
      · rw [h.rollback time] at hstep
        cases hstep
        exact ⟨rfl, (h.leads.kept (Nat.zero_le time)).1⟩
      · cases hstep

/-- In every run the history is never empty, in order and ends with the LVT, and a rollback
that is executed restores the LVT before the first move that it undoes. -/
theorem lvt_restored {es : List Event} {os : List Unit}
    (hrun : machine.run initial es = some (s, os)) :
    (s.agent.lvtHistory ≠ [] ∧ s.agent.lvtHistory.Pairwise (· ≤ ·) ∧
        s.agent.lvtHistory.getLast? = some s.agent.lvt) ∧
      ∀ time, time ≤ s.agent.lvt → ∃ s', s.step (.rollback time) = some s' ∧
        s'.agent.lvt = lvtBefore s.moves s.agent.lvt time ∧ s'.agent.lvt ≤ time := by
  have hfollows : Follows s := by
    refine machine.invariant Follows ?_ es initial s os follows_initial hrun
    intro s e s' o h hstep
    obtain ⟨next, hnext, heq⟩ := Option.map_eq_some_iff.mp hstep
    cases heq
    exact follows_step h hnext
  refine ⟨⟨?_, hfollows.sorted, hfollows.last⟩, fun time htime => ?_⟩
  · rw [hfollows.history]
    exact List.cons_ne_nil _ _
  · have hstep : ∃ s', s.step (.rollback time) = some s' ∧
        s'.agent.lvt = lvtBefore s.moves s.agent.lvt time := by
      rw [step, if_pos htime, hfollows.rollback time]
      exact ⟨_, rfl, rfl⟩
    obtain ⟨s', hs', hlvt⟩ := hstep
    exact ⟨s', hs', hlvt, hlvt ▸ (hfollows.leads.kept (Nat.zero_le time)).2.1⟩

/-- An agent that two requests and an advance between them have moved is rolled back twice:
into the gap that the second request has left, and to the advance. -/
def rolledBackTwice : List Event :=
  [.request 3, .timeWrap 2, .request 20, .rollback 15, .request 8, .rollback 6]

theorem lvt_restored_rolledBackTwice : ∃ s os,
    machine.run initial rolledBackTwice = some (s, os) ∧
      (s.agent.lvtHistory ≠ [] ∧ s.agent.lvtHistory.Pairwise (· ≤ ·) ∧
        s.agent.lvtHistory.getLast? = some s.agent.lvt) ∧
      ∀ time, time ≤ s.agent.lvt → ∃ s', s.step (.rollback time) = some s' ∧
        s'.agent.lvt = lvtBefore s.moves s.agent.lvt time ∧ s'.agent.lvt ≤ time := by
  obtain ⟨⟨s, os⟩, hrun⟩ := Option.isSome_iff_exists.mp
    (by decide : (machine.run initial rolledBackTwice).isSome = true)
  exact ⟨s, os, hrun, lvt_restored hrun⟩

end MovedLvt

def AgentState.agentLvt (a : AgentState) : AgentLvt := ⟨a.lvt, a.lvtHistory⟩

namespace AgentState

theorem agentLvt_setLvt (a : AgentState) (lvt : Nat) :
    (a.setLvt lvt).agentLvt = a.agentLvt.setAgentLvt lvt := by
  by_cases h : a.lvt ≤ lvt
  · simp [setLvt, AgentLvt.setAgentLvt, agentLvt, h]
  · simp [setLvt, AgentLvt.setAgentLvt, agentLvt, h]

theorem lvt_setLvt {a : AgentState} {lvt : Nat} (h : a.lvt ≤ lvt) : (a.setLvt lvt).lvt = lvt := by
  rw [setLvt, if_pos h]

/-- The bisection finds what the history is cut to. -/
theorem Consistent.rollback_agentLvt {lpId : LpId} {a a' : AgentState} {time : Nat}
    (h : a.Consistent lpId) (ha' : a.rollbackTo time = some a') :
    a.agentLvt.rollback time = some a'.agentLvt := by
  obtain ⟨lvt, hlvt, rfl⟩ := Option.map_eq_some_iff.mp ha'
  have htake := UpperBound.take_upperBound h.sorted time
  simp only [AgentLvt.rollback, agentLvt, htake]
  exact Option.map_eq_some_iff.mpr ⟨lvt, hlvt, rfl⟩

end AgentState

namespace Alp

/-- The event leaves the LVTs of the agents among the times. -/
def StaysInTime (alp : Alp) (e : Event) : Prop :=
  ∀ alp' r, alp.step e = some (alp', r) →
    ∀ (id : Nat) (a : AgentState), alp'.agents[id]? = some a → a.lvt ≤ ULONG_MAX

/-- The agent that a step has changed, if it is this one. -/
theorem of_getElem?_insert_agent {agents : Std.TreeMap Nat AgentState} {id k : Nat}
    {a a' b : AgentState} {P : AgentState → Prop} (ha : agents[k]? = some a)
    (ha' : (agents.insert k b)[id]? = some a') (hself : a' = b → P a)
    (hother : agents[id]? = some a' → P a') : ∃ a, agents[id]? = some a ∧ P a := by
  rw [getElem?_insert_agent] at ha'
  split at ha'
  · next hk =>
    subst hk
    exact ⟨a, ha, hself (Option.some.inj ha').symm⟩
  · exact ⟨a', ha', hother ha'⟩

/-- What a step of the ALP does to the LVT of an agent: nothing, or one of the moves. -/
theorem exists_moved_of_transition {alp alp' : Alp} {e : Event} {r : Result} {id : Nat}
    {a' : AgentState} (h : Transition alp e alp' r) (hc : AgentsConsistent alp.rank alp.agents)
    (ha' : alp'.agents[id]? = some a') (hlvt : a'.lvt ≤ ULONG_MAX) :
    ∃ a, alp.agents[id]? = some a ∧ (a'.agentLvt = a.agentLvt ∨
      ∀ moves, ∃ e' s', MovedLvt.step ⟨a.agentLvt, moves⟩ e' = some s' ∧
        s'.agent = a'.agentLvt) := by
  cases h with
  | @issue a id kind timestamp ha hidle hts =>
      exact of_getElem?_insert_agent ha ha' (fun heq => .inl (heq ▸ rfl)) fun _ => .inl rfl
  | @sendRequest m rest a hqueue ha =>
      exact of_getElem?_insert_agent ha ha' (fun heq => .inl (heq ▸ rfl)) fun _ => .inl rfl
  | @responseStored a m ha hid =>
      exact of_getElem?_insert_agent ha ha' (fun heq => .inl (heq ▸ rfl)) fun _ => .inl rfl
  | sendAnti | responseIgnored | rollbackDuplicate | rollbackTooLate | setGvt =>
      exact ⟨a', ha', .inl rfl⟩
  | @timeWrap a id t ha hidle =>
      refine of_getElem?_insert_agent ha ha' (fun heq => .inr fun moves => ?_) fun _ => .inl rfl
      subst heq
      rw [AgentState.lvt_setLvt (Nat.le_add_right a.lvt t)] at hlvt
      have ht : t ≤ ULONG_MAX := Nat.le_trans (Nat.le_add_left t a.lvt) hlvt
      have hmod : (a.lvt + t) % (ULONG_MAX + 1) = a.lvt + t :=
        Nat.mod_eq_of_lt (Nat.lt_succ_of_le hlvt)
      refine ⟨.timeWrap t, _, by rw [MovedLvt.step, if_pos ht], ?_⟩
      rw [AgentState.agentLvt_setLvt, AgentLvt.timeWrap]
      exact congrArg a.agentLvt.setAgentLvt hmod
  | @consume a request response id ha hwaiting hresponse hready =>
      refine of_getElem?_insert_agent ha ha' (fun heq => .inr fun moves => ?_) fun _ => .inl rfl
      subst heq
      have hts := ((hc id a ha).waiting request hwaiting).1
      have hle : a.lvt ≤ request.timestamp + 1 := Nat.le_succ_of_le hts
      rw [AgentState.lvt_setLvt (a := { a with messageReady := false, waiting := none }) hle] at hlvt
      have hrequest : a.agentLvt.request request.timestamp =
          some (a.agentLvt.setAgentLvt (request.timestamp + 1)) := by
        have hpos : request.timestamp ≥ a.agentLvt.lvt := hts
        rw [AgentLvt.request, if_pos hpos, Nat.mod_eq_of_lt (Nat.lt_succ_of_le hlvt)]
      refine ⟨.request request.timestamp, ?_⟩
      rw [MovedLvt.step, if_pos (Nat.le_of_succ_le hlvt), hrequest, AgentState.agentLvt_setLvt]
      exact ⟨_, rfl, rfl⟩
  | @rollbackExecuted a a₁ m ha htag hle ha₁ =>
      refine of_getElem?_insert_agent ha ha' (fun heq => .inr fun moves => ?_) fun _ => .inl rfl
      subst heq
      have hexecuted : m.timestamp ≤ a.agentLvt.lvt := hle
      refine ⟨.rollback m.timestamp, ?_⟩
      simp only [MovedLvt.step]
      rw [if_pos hexecuted, (hc _ a ha).rollback_agentLvt ha₁]
      exact ⟨_, rfl, rfl⟩

/-- In every run the LVT of an agent is one that moves and executed rollbacks lead to. -/
theorem exists_moved_of_run {alp alp' : Alp} {es : List Event} {results : List Result} {id : Nat}
    {a' : AgentState} (hinitial : Initial alp) (htime : machine.Meets StaysInTime alp es)
    (hrun : machine.run alp es = some (alp', results)) (ha' : alp'.agents[id]? = some a') :
    ∃ es' s os, MovedLvt.machine.run .initial es' = some (s, os) ∧ s.agent = a'.agentLvt := by
  have hreached : AgentsConsistent alp'.rank alp'.agents ∧
      ∀ a, alp'.agents[id]? = some a → ∃ es' s os,
        MovedLvt.machine.run .initial es' = some (s, os) ∧ s.agent = a.agentLvt := by
    refine machine.invariant_of_meets StaysInTime
      (fun alp => AgentsConsistent alp.rank alp.agents ∧ ∀ a, alp.agents[id]? = some a →
        ∃ es' s os, MovedLvt.machine.run .initial es' = some (s, os) ∧ s.agent = a.agentLvt)
      ?_ es alp alp' results ⟨?_, ?_⟩ htime hrun
    · intro alp e alp' r hinv htime hstep
      obtain ⟨hc, hmoved⟩ := hinv
      have htransition := transition_of_step hstep
      refine ⟨agentsConsistent_step htransition hc, fun a' ha' => ?_⟩
      obtain ⟨a, ha, heq | hmove⟩ := exists_moved_of_transition htransition hc ha'
        (htime alp' r hstep id a' ha')
      · rw [heq]
        exact hmoved a ha
      · obtain ⟨es', s, os, hrun, hs⟩ := hmoved a ha
        obtain ⟨e', s', hs', heq⟩ := hmove s.moves
        rw [← hs] at hs'
        refine ⟨es' ++ [e'], s', os ++ [()], ?_, heq⟩
        refine (MovedLvt.machine.run_append_iff).mpr ⟨s, os, [()], hrun, ?_, rfl⟩
        exact MovedLvt.machine.run_cons_iff.mpr
          ⟨s', (), [], Option.map_eq_some_iff.mpr ⟨s', hs', rfl⟩, rfl, rfl⟩
    · have hreach : machine.Reachable Initial StaysInTime alp := .start hinitial
      exact agentsConsistent_of_reachable hreach
    · intro a ha
      obtain ⟨rank, startTime, numberOfClps, numberOfAlps, agentIds, _, rfl⟩ := hinitial
      rw [eq_initial_of_create ha]
      exact ⟨[], .initial, [], rfl, rfl⟩
  exact hreached.2 a' ha'

end Alp
end PdesMas
