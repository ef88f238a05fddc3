import PdesMas.State.Migration
import PdesMas.State.PeriodList
import PdesMas.State.Readers
import PdesMas.State.TakenOut

/-!
What keeps a variable readable. Its first period has started by GVT, and only the
undoing of a write from behind GVT takes a period away again, so that no walk for
a call from GVT on falls off the list. Rollbacks go to the agents that have read.
-/

namespace PdesMas
universe u
variable {V : Type u}

namespace Operation

/-- The call is not from before `floor`, undoes no write at `floor` and collects nothing
that starts later. -/
def Timely (floor : Nat) : Operation V → Prop
  | .read _ time | .writeWithRollback _ _ time | .performReadRollback _ time => floor ≤ time
  | .performWriteRollback _ time => floor < time
  | .removeWritePeriods time => time ≤ floor

end Operation

namespace Timeline

variable {floor : Nat} {l l' : List (Entry V)} {op : Operation V}
  {o : Outcome V}

/-- There is a first period, and it has started by `floor`. -/
def OpensBy (floor : Nat) (l : List (Entry V)) : Prop :=
  ∃ e rest, l = e :: rest ∧ e.start ≤ floor

theorem OpensBy.not_later (h : OpensBy floor l) {time : Nat} (htime : floor ≤ time) :
    ¬ Later time l := by
  obtain ⟨e, rest, rfl, hstart⟩ := h
  intro hlater
  have hlt := hlater e List.mem_cons_self
  omega

/-- The start of the first period counts, not what comes behind. -/
theorem OpensBy.replace {A B B' : List (Entry V)} {e e' : Entry V}
    (h : OpensBy floor (A ++ e :: B)) (hstart : e'.start = e.start) :
    OpensBy floor (A ++ e' :: B') := by
  obtain ⟨x, rest, heq, hx⟩ := h
  cases A with
  | nil =>
      cases heq
      exact ⟨e', B', rfl, hstart ▸ hx⟩
  | cons y A =>
      cases heq
      exact ⟨_, _, rfl, hx⟩

theorem opensBy_step (h : Effect l op l' o) (htimely : op.Timely floor)
    (hopens : OpensBy floor l) : OpensBy floor l' := by
  cases h with
  | read | writeAccepted | readRollback => exact hopens.replace rfl
  | writeFirst => exact absurd hopens (by simp [OpensBy])
  | writeTooEarly | writeRejected | writeRollbackMissing | writeRollbackForeign
    | collectNothing => exact hopens
  | @writeRollback A B e agent time he =>
      obtain ⟨x, rest, heq, hx⟩ := hopens
      have hlt : floor < time := htimely
      cases A with
      | nil =>
          -- The first period cannot be undone: it starts by GVT.
          cases heq
          omega
      | cons y A =>
          cases heq
          exact ⟨_, _, rfl, hx⟩
  | @collect A B e time he hB =>
      have hle : time ≤ floor := htimely
      cases hfront : A.dropWhile fun x => x.start != time with
      | nil => exact ⟨_, B, rfl, hle⟩
      | cons y rest =>
          have hstart : y.start = time := by
            have hhead := List.head_dropWhile_not (fun x : Entry V => x.start != time)
              (l := A) (by simp [hfront])
            simpa [hfront] using hhead
          exact ⟨y, rest ++ e.restamp time :: B, rfl, hstart.symm ▸ hle⟩

theorem exists_step (hopens : OpensBy floor l) (htimely : op.Timely floor) :
    ∃ r, step l op = some r := by
  have hreaches : ∀ time, floor ≤ time → ∃ c, Cut.last? (Entry.reaches time) l = some c := by
    intro time htime
    cases hc : Cut.last? (Entry.reaches time) l with
    | none => exact absurd (last?_reaches_eq_none.mp hc) (hopens.not_later htime)
    | some c => exact ⟨c, rfl⟩
  cases op with
  | read agent time | performReadRollback agent time =>
      obtain ⟨c, hc⟩ := hreaches time htimely
      exact ⟨_, Option.map_eq_some_iff.mpr ⟨c, hc, rfl⟩⟩
  | writeWithRollback | performWriteRollback | removeWritePeriods => exact ⟨_, rfl⟩

end Timeline

namespace StateVariable

variable {known : LpId → Prop} {floor : Nat} {sv sv' : StateVariable V}

/-- No call from `floor` on ends the process, whichever came before. -/
structure Lasting (known : LpId → Prop) (floor : Nat) (sv : StateVariable V) : Prop where
  shaped : sv.Shaped
  opens : Timeline.OpensBy floor sv.entries
  readers : Timeline.ReadBy known sv.entries

theorem Lasting.raise {floor' : Nat} (h : sv.Lasting known floor) (hle : floor ≤ floor') :
    sv.Lasting known floor' := by
  obtain ⟨e, rest, hl, hstart⟩ := h.opens
  exact ⟨h.shaped, ⟨e, rest, hl, hstart.trans hle⟩, h.readers⟩

theorem Lasting.exec (h : sv.Lasting known floor) {op : Operation V}
    (htimely : op.Timely floor) (hby : op.By known) (htime : op.time < LONG_MAX) :
    ∃ sv' o, sv.exec op = some (sv', o) ∧ sv'.Lasting known floor ∧
      ∀ c ∈ o.calls, known c.1 := by
  obtain ⟨r, hr⟩ := Timeline.exists_step h.opens htimely
  rw [← exec_entries, Option.map_eq_some_iff] at hr
  obtain ⟨⟨sv', o⟩, hexec, _⟩ := hr
  have heffect := Timeline.effect_of_exec hexec
  exact ⟨sv', o, hexec, ⟨h.shaped.exec htime hexec, Timeline.opensBy_step heffect htimely h.opens,
    Timeline.readBy_step heffect hby h.readers⟩, Timeline.calls_of_readBy heffect h.readers⟩

theorem lasting_addWritePeriod (id : SsvId) (value : V) {time : Nat} (agentID : LpId)
    (htime : time < LONG_MAX) :
    ((create id).addWritePeriod value time agentID).Lasting known time where
  shaped := shaped_addWritePeriod id value agentID htime
  opens := ⟨_, [], rfl, Nat.le_refl _⟩
  readers := by
    simp [Timeline.ReadBy, Timeline.AllReads, entries, addWritePeriod, StateVariable.create,
      WritePeriod.create, WritePeriod.entry]

/-- A write adds calls to the list it is given. -/
theorem writeWithRollback_calls (sv : StateVariable V) (agent : LpId) (value : V) (time : Nat)
    (rollbackList : RollbackList) :
    (sv.writeWithRollback agent value time rollbackList).2.2.calls =
      rollbackList.calls ++ (sv.writeWithRollback agent value time .empty).2.2.calls := by
  simp only [writeWithRollback]
  split
  · simp
  · split
    · simp
    · split
      · simp
      · split <;> simp [WritePeriod.removeReadsAfterInclusive]

end StateVariable

end PdesMas
