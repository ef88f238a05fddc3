import PdesMas.Lp.AgentHistory

/-!
What the rollback tag list suppresses. The list is shared by the agents of an
ALP and takes a tag before the other guards run, so of the messages with one tag
only the first that comes, until GVT passes the tag, can roll an agent back. The
log of a run keeps what came and the LVT each rollback restored.
-/

namespace PdesMas.Alp

/-- What a run says about tags: the rollbacks that came, with their agent before
and the LVT restored, and the values of GVT. -/
inductive LogEntry where
  | rollback (m : RollbackMessage) (agent : AgentState) (restored : Option Nat)
  | gvt (gvt : Nat)
deriving DecidableEq, Repr

def record (alp : Alp) (e : Event) (alp' : Alp) (r : Result) : List LogEntry :=
  match e with
  | .receiveRollback m =>
      match alp.agents[m.originalAgent.identifier]?,
          alp'.agents[m.originalAgent.identifier]? with
      | some a, some a' => [.rollback m a (if r = .processed true then some a'.lvt else none)]
      | _, _ => []
  | .setGvt gvt => [.gvt gvt]
  | _ => []

/-- The ALP, with the log of its run. -/
def logged : Machine (Alp × List LogEntry) Event Result where
  step s e := (s.1.step e).map fun r => ((r.1, s.2 ++ record s.1 e r.1 r.2), r.2)

def LogInitial (s : Alp × List LogEntry) : Prop := Initial s.1 ∧ s.2 = []

/-- A message with the tag came after GVT last passed the tag. -/
def listed (tag : RollbackTag) (log : List LogEntry) : Bool :=
  log.foldl (fun seen e =>
    match e with
    | .rollback m _ _ => seen || decide (m.rollbackTag = tag)
    | .gvt gvt => seen && decide (¬ tag.time < gvt)) false

@[simp] theorem listed_nil (tag : RollbackTag) : listed tag [] = false := rfl

@[simp] theorem listed_rollback (tag : RollbackTag) (log : List LogEntry) (m : RollbackMessage)
    (a : AgentState) (restored : Option Nat) :
    listed tag (log ++ [.rollback m a restored]) =
      (listed tag log || decide (m.rollbackTag = tag)) := by
  simp [listed]

@[simp] theorem listed_gvt (tag : RollbackTag) (log : List LogEntry) (gvt : Nat) :
    listed tag (log ++ [.gvt gvt]) = (listed tag log && decide (¬ tag.time < gvt)) := by
  simp [listed]

/-- The LVT restored by a message that comes after `log` to an agent in state `a`. -/
def restores (log : List LogEntry) (m : RollbackMessage) (a : AgentState) : Option Nat :=
  if listed m.rollbackTag log then none
  else if m.timestamp > a.lvt then none
  else (a.rollbackTo m.timestamp).map (·.lvt)

/-- An entry that may follow `log`. -/
def Fits (log : List LogEntry) : LogEntry → Prop
  | .rollback m a restored => (∃ lpId, a.Consistent lpId) ∧ restored = restores log m a
  | .gvt _ => True

inductive Recorded : List LogEntry → Prop
  | nil : Recorded []
  | snoc {log e} : Recorded log → Fits log e → Recorded (log ++ [e])

theorem Recorded.fits {log before after : List LogEntry} {e : LogEntry} (h : Recorded log)
    (hsplit : log = before ++ e :: after) : Fits before e := by
  induction h generalizing after with
  | nil => simp at hsplit
  | @snoc log last _ hlast ih =>
      rcases List.eq_nil_or_concat after with rfl | ⟨front, x, rfl⟩
      · obtain ⟨rfl, hlast'⟩ := List.append_inj' hsplit rfl
        cases hlast'
        exact hlast
      · have hsplit' : log ++ [last] = (before ++ e :: front) ++ [x] := by
          simpa using hsplit
        exact ih (List.append_inj' hsplit' rfl).1

/-- The tag list and the log agree. -/
structure Logs (alp : Alp) (log : List LogEntry) : Prop where
  agents : AgentsConsistent alp.rank alp.agents
  listed : ∀ tag, tag ∈ alp.rollbackTagList ↔ listed tag log = true
  recorded : Recorded log

private theorem Logs.keep {alp alp' : Alp} {log : List LogEntry} (h : Logs alp log)
    (hagents : AgentsConsistent alp'.rank alp'.agents)
    (htags : alp'.rollbackTagList = alp.rollbackTagList) : Logs alp' (log ++ []) := by
  rw [List.append_nil]
  exact ⟨hagents, fun tag => htags ▸ h.listed tag, h.recorded⟩

/-- A message that comes to the agent adds its tag and its entry. -/
private theorem Logs.rollback {alp alp' : Alp} {log : List LogEntry} {m : RollbackMessage}
    {a : AgentState} {restored : Option Nat} (h : Logs alp log)
    (hagents : AgentsConsistent alp'.rank alp'.agents)
    (ha : alp.agents[m.originalAgent.identifier]? = some a)
    (htags : ∀ tag, tag ∈ alp'.rollbackTagList ↔
      tag ∈ alp.rollbackTagList ∨ m.rollbackTag = tag)
    (hrestored : restored = restores log m a) :
    Logs alp' (log ++ [.rollback m a restored]) := by
  refine ⟨hagents, fun tag => ?_, h.recorded.snoc ⟨⟨_, h.agents _ a ha⟩, hrestored⟩⟩
  rw [htags, h.listed, listed_rollback]
  simp

theorem logs_step {alp alp' : Alp} {log : List LogEntry} {e : Event} {r : Result}
    (h : Transition alp e alp' r) (hlogs : Logs alp log) :
    Logs alp' (log ++ record alp e alp' r) := by
  have hagents := agentsConsistent_step h hlogs.agents
  cases h with
  | issue | timeWrap | sendAnti | sendRequest | responseIgnored | responseStored | consume =>
      exact hlogs.keep hagents rfl
  | @rollbackDuplicate a m ha htag =>
      simp only [record, ha]
      refine hlogs.rollback hagents ha (fun tag => ?_) ?_
      · exact ⟨.inl, fun h => h.elim id fun h => h ▸ htag⟩
      · simp [restores, (hlogs.listed _).mp htag]
  | @rollbackTooLate a m ha htag hlvt =>
      have hnew : listed m.rollbackTag log = false := by
        simpa using mt (hlogs.listed _).mpr htag
      simp only [record, ha]
      refine hlogs.rollback hagents ha (fun tag => ?_) ?_
      · simp [eq_comm]
      · simp [restores, hnew, hlvt]
  | @rollbackExecuted a a' m ha htag hlvt ha' =>
      have hnew : listed m.rollbackTag log = false := by
        simpa using mt (hlogs.listed _).mpr htag
      have hafter : (alp.agents.insert m.originalAgent.identifier a')[
          m.originalAgent.identifier]? = some a' := by
        rw [getElem?_insert_agent, if_pos rfl]
      simp only [record, ha, setAgent, hafter]
      refine hlogs.rollback hagents ha (fun tag => ?_) ?_
      · simp [eq_comm]
      · simp [restores, hnew, Nat.not_lt.mpr hlvt, ha']
  | setGvt gvt =>
      refine ⟨hagents, fun tag => ?_, hlogs.recorded.snoc trivial⟩
      change tag ∈ alp.rollbackTagList.filter _ ↔ listed tag (log ++ [.gvt gvt]) = true
      rw [List.mem_filter, hlogs.listed, listed_gvt]
      simp

theorem logs_of_reachable {alp : Alp} {log : List LogEntry}
    (h : logged.Reachable LogInitial (fun _ _ => True) (alp, log)) : Logs alp log := by
  refine h.invariant (fun s => Logs s.1 s.2) ?_ ?_
  · rintro ⟨alp, log⟩ ⟨hinit, hlog⟩
    obtain rfl : log = [] := hlog
    have hagents := agentsConsistent_of_reachable
      (.start hinit : machine.Reachable Initial (fun _ _ => True) alp)
    obtain ⟨rank, startTime, numberOfClps, numberOfAlps, agentIds, _, rfl⟩ := hinit
    exact ⟨hagents, fun tag => by simp [create], .nil⟩
  · rintro ⟨alp, log⟩ e ⟨alp', log'⟩ r hlogs _ hs
    obtain ⟨⟨alp₁, r₁⟩, hstep, heq⟩ := Option.map_eq_some_iff.mp hs
    cases heq
    exact logs_step (transition_of_step hstep) hlogs

/-- `CheckRollbackTagList` makes `ProcessRollback` ignore the message. -/
def Suppressed (alp : Alp) (m : RollbackMessage) : Prop :=
  (alp.checkRollbackTagList m.rollbackTag).1 = true

instance (alp : Alp) (m : RollbackMessage) : Decidable (Suppressed alp m) :=
  inferInstanceAs (Decidable (_ = true))

/-- The entry is a message with the tag of `m` that rolled its agent back as far. -/
def LogEntry.covers (m : RollbackMessage) : LogEntry → Bool
  | .rollback m₀ _ (some lvt) =>
      decide (m₀.rollbackTag = m.rollbackTag ∧ m₀.originalAgent = m.originalAgent ∧
        lvt ≤ m.timestamp)
  | .rollback _ _ none | .gvt _ => false

def RolledBackBefore (log : List LogEntry) (m : RollbackMessage) : Prop :=
  ∃ e ∈ log, e.covers m = true

instance (log : List LogEntry) (m : RollbackMessage) : Decidable (RolledBackBefore log m) :=
  inferInstanceAs (Decidable (∃ e ∈ log, e.covers m = true))

theorem rolledBackBefore_iff_exists {log : List LogEntry} {m : RollbackMessage} :
    RolledBackBefore log m ↔
      ∃ m₀ a lvt, .rollback m₀ a (some lvt) ∈ log ∧ m₀.rollbackTag = m.rollbackTag ∧
        m₀.originalAgent = m.originalAgent ∧ lvt ≤ m.timestamp := by
  constructor
  · rintro ⟨e, hmem, hcovers⟩
    cases e with
    | gvt => cases hcovers
    | rollback m₀ a restored =>
        cases restored with
        | none => cases hcovers
        | some lvt => exact ⟨m₀, a, lvt, hmem, by simpa [LogEntry.covers] using hcovers⟩
  · rintro ⟨m₀, a, lvt, hmem, h⟩
    exact ⟨_, hmem, by simpa [LogEntry.covers] using h⟩

/-- A message that was the first with the tag came for the same agent, not above its
LVT, and no LVT of the agent lay after the time of `m` and up to its own. -/
def FirstWasForAgent (log : List LogEntry) (m : RollbackMessage) : Prop :=
  ∃ before m₀ a restored after, log = before ++ .rollback m₀ a restored :: after ∧
    listed m.rollbackTag before = false ∧ m₀.rollbackTag = m.rollbackTag ∧
    m₀.originalAgent = m.originalAgent ∧ m₀.timestamp ≤ a.lvt ∧
    ∀ t ∈ a.lvtHistory, t ≤ m₀.timestamp → t ≤ m.timestamp

theorem rolledBackBefore_iff {log : List LogEntry} {m : RollbackMessage} (h : Recorded log) :
    RolledBackBefore log m ↔ FirstWasForAgent log m := by
  rw [rolledBackBefore_iff_exists]
  constructor
  · rintro ⟨m₀, a, lvt, hmem, htag, hagent, hle⟩
    obtain ⟨before, after, hsplit⟩ := List.append_of_mem hmem
    obtain ⟨⟨lpId, hc⟩, hrestored⟩ := h.fits hsplit
    rw [restores] at hrestored
    split at hrestored
    · cases hrestored
    · rename_i hnew
      split at hrestored
      · cases hrestored
      · rename_i hlvt
        obtain ⟨a', ha', rfl⟩ := Option.map_eq_some_iff.mp hrestored.symm
        have hhistory := (AgentState.rollbackTo_eq_some ha').1
        refine ⟨before, m₀, a, _, after, hsplit, ?_, htag, hagent, Nat.le_of_not_lt hlvt, ?_⟩
        · simpa [htag] using hnew
        · intro t ht htime
          have hkept := hc.mem_takeWhile ht htime
          rw [← hhistory] at hkept
          exact Nat.le_trans ((hc.rollbackTo ha').le_lvt t hkept) hle
  · rintro ⟨before, m₀, a, restored, after, hsplit, hnew, htag, hagent, hlvt, hnone⟩
    obtain ⟨⟨lpId, hc⟩, hrestored⟩ := h.fits hsplit
    obtain ⟨a', ha'⟩ := hc.exists_rollbackTo m₀.timestamp
    obtain ⟨hhistory, hlast, _⟩ := AgentState.rollbackTo_eq_some ha'
    have hmem : a'.lvt ∈ a.lvtHistory.takeWhile fun t => decide (t ≤ m₀.timestamp) :=
      hhistory ▸ List.mem_of_getLast? hlast
    have hbefore : a'.lvt ≤ m₀.timestamp := by
      simpa using List.mem_takeWhile_imp hmem
    refine ⟨m₀, a, a'.lvt, ?_, htag, hagent,
      hnone _ ((List.takeWhile_sublist _).subset hmem) hbefore⟩
    rw [hsplit, hrestored, restores, htag, hnew]
    simp [Nat.not_lt.mpr hlvt, ha']

/-- A message is suppressed only as a true duplicate exactly if the first message
with its tag was for the same agent and reached back as far. -/
theorem suppressed_rolledBack_iff (alp : Alp) (log : List LogEntry) (m : RollbackMessage)
    (hreach : logged.Reachable LogInitial (fun _ _ => True) (alp, log)) :
    (Suppressed alp m → RolledBackBefore log m) ↔
      (Suppressed alp m → FirstWasForAgent log m) := by
  rw [rolledBackBefore_iff (logs_of_reachable hreach).recorded]

theorem suppressed_rolledBack_iff_twice :
    ∃ alp log results,
      logged.run (create 3 0 2 2 [1], []) [.timeWrap 1 4, .receiveRollback ⟨2, ⟨1, 3⟩,
        ⟨7, 2, 0, 100⟩⟩] = some ((alp, log), results) ∧
      ((Suppressed alp ⟨3, ⟨1, 3⟩, ⟨7, 2, 0, 100⟩⟩ →
          RolledBackBefore log ⟨3, ⟨1, 3⟩, ⟨7, 2, 0, 100⟩⟩) ↔
        (Suppressed alp ⟨3, ⟨1, 3⟩, ⟨7, 2, 0, 100⟩⟩ →
          FirstWasForAgent log ⟨3, ⟨1, 3⟩, ⟨7, 2, 0, 100⟩⟩)) :=
  ⟨_, _, _, rfl, suppressed_rolledBack_iff _ _ ⟨3, ⟨1, 3⟩, ⟨7, 2, 0, 100⟩⟩
    (Machine.Reachable.run (.start ⟨⟨3, 0, 2, 2, [1], by decide, rfl⟩, rfl⟩)
      (show logged.Meets (fun _ _ => True) (create 3 0 2 2 [1], [])
        [.timeWrap 1 4, .receiveRollback ⟨2, ⟨1, 3⟩, ⟨7, 2, 0, 100⟩⟩] by decide) rfl)⟩

/-- The tag of a rollback of one agent suppresses the rollback of another. -/
theorem tag_suppresses_other_agent :
    ∃ alp log results,
      logged.run (create 3 0 2 2 [1, 2], []) [.timeWrap 1 10, .timeWrap 2 10,
        .receiveRollback ⟨5, ⟨1, 3⟩, ⟨7, 5, 0, 100⟩⟩] = some ((alp, log), results) ∧
      Suppressed alp ⟨7, ⟨2, 3⟩, ⟨7, 5, 0, 100⟩⟩ ∧
      ¬ RolledBackBefore log ⟨7, ⟨2, 3⟩, ⟨7, 5, 0, 100⟩⟩ :=
  ⟨_, _, _, rfl, by decide, by decide⟩

end PdesMas.Alp
