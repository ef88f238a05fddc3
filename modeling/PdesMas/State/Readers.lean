import PdesMas.State.Ordered

/-!
The reads a variable has recorded. Whatever the operations do to them, they come
from the agents that have read, and stand in the order of their agents.
-/

namespace PdesMas
universe u
variable {V : Type u}

/-- A read is one of a known agent. -/
def Operation.By (known : LpId → Prop) : Operation V → Prop
  | .read agent _ => known agent
  | .writeWithRollback .. | .performReadRollback .. | .performWriteRollback ..
  | .removeWritePeriods _ => True

namespace Timeline

variable {P : List (LpId × Nat) → Prop} {known : LpId → Prop} {l l' : List (Entry V)}
  {op : Operation V} {o : Outcome V}

/-- The reads of each period satisfy `P`. -/
def AllReads (P : List (LpId × Nat) → Prop) (l : List (Entry V)) : Prop := ∀ e ∈ l, P e.reads

theorem AllReads.sublist (h : AllReads P l) (hsub : l'.Sublist l) : AllReads P l' :=
  fun e he => h e (hsub.subset he)

theorem AllReads.replace {A A' B : List (Entry V)} {e e' : Entry V}
    (h : AllReads P (A ++ e :: B)) (hA : A'.Sublist A) (hreads : P e.reads → P e'.reads) :
    AllReads P (A' ++ e' :: B) := by
  intro x hx
  rcases List.mem_append.mp hx with hx | hx
  · exact h x (List.mem_append_left _ (hA.subset hx))
  · rcases List.mem_cons.mp hx with rfl | hx
    · exact hreads (h e (by simp))
    · exact h x (by simp [hx])

/-- Operations start periods without reads, take reads out, and record one read at a time. -/
theorem allReads_step (h : Effect l op l' o) (hnil : P [])
    (hfilter : ∀ reads p, P reads → P (reads.filter p))
    (hrecord : ∀ agent time reads, op = .read agent time → P reads →
      P (MultiMap.insert LpId.lt agent time reads)) (hl : AllReads P l) : AllReads P l' := by
  cases h with
  | read agent time => exact hl.replace (.refl _) (hrecord agent time _ rfl)
  | writeFirst agent value time =>
      intro x hx
      rw [List.mem_singleton.mp hx]
      exact hnil
  | writeTooEarly | writeRejected | writeRollbackMissing | writeRollbackForeign
    | collectNothing => exact hl
  | @writeAccepted A B e agent value time =>
      have hkept : AllReads P (A ++ e.keepBefore time :: B) :=
        hl.replace (.refl _) (hfilter _ _)
      intro x hx
      rcases List.mem_append.mp hx with hx | hx
      · exact hkept x (by simp [hx])
      · rcases List.mem_cons.mp hx with rfl | hx
        · exact hkept _ (by simp)
        · rcases List.mem_cons.mp hx with rfl | hx
          · exact hnil
          · exact hkept x (by simp [hx])
  | readRollback => exact hl.replace (.refl _) (hfilter _ _)
  | @writeRollback A B e =>
      exact hl.sublist ((List.Sublist.refl A).append (List.sublist_cons_self e B))
  | collect => exact hl.replace (List.dropWhile_sublist _) (hfilter _ _)

/-- The reads are those of known agents. -/
def ReadBy (known : LpId → Prop) (l : List (Entry V)) : Prop :=
  AllReads (fun reads => ∀ r ∈ reads, known r.1) l

theorem readBy_step (h : Effect l op l' o) (hby : op.By known) (hl : ReadBy known l) :
    ReadBy known l' := by
  refine allReads_step h (by simp) (fun reads p hreads r hr => ?_) ?_ hl
  · exact hreads r (List.mem_of_mem_filter hr)
  · rintro agent time reads rfl hreads r hr
    rcases MultiMap.mem_insert.mp hr with rfl | hr
    · exact hby
    · exact hreads r hr

/-- Known agents are called back. -/
theorem calls_of_readBy (h : Effect l op l' o) (hl : ReadBy known l) :
    ∀ c ∈ o.calls, known c.1 := by
  cases h with
  | @writeAccepted A B e =>
      exact fun c hc => hl e (by simp) c (List.mem_of_mem_filter hc)
  | @writeRollback A B e =>
      intro c hc
      obtain ⟨r, hr, rfl⟩ := List.mem_map.mp hc
      exact hl e (by simp) r hr
  | read | writeFirst | writeTooEarly | writeRejected | readRollback | writeRollbackMissing
    | writeRollbackForeign | collectNothing | collect => simp

/-- The reads of each period stand in the order of their agents. -/
def ReadsSorted (l : List (Entry V)) : Prop := AllReads (MultiMap.Sorted LpId.lt) l

theorem readsSorted_step (h : Effect l op l' o) (hl : ReadsSorted l) : ReadsSorted l' :=
  allReads_step h .nil (fun _ p hreads => hreads.filter p)
    (fun agent time _ _ hreads => hreads.insert LpId.lt_irrefl LpId.lt_trans agent time) hl

end Timeline

namespace StateVariable

theorem ReachableBy.readBy {known : LpId → Prop} {sv : StateVariable V}
    (h : ReachableBy (Operation.By known) sv) :
    Timeline.ReadBy known sv.entries ∧ Timeline.ReadsSorted sv.entries := by
  induction h with
  | create id => exact ⟨List.forall_mem_nil _, List.forall_mem_nil _⟩
  | addWritePeriod value time agentID _ hempty _ =>
      rw [entries_addWritePeriod value time agentID hempty]
      constructor <;> intro e he <;> rw [List.mem_singleton.mp he]
      · simp [Entry.fresh]
      · exact .nil
  | exec _ hby hexec ih =>
      have heff := Timeline.effect_of_exec hexec
      exact ⟨Timeline.readBy_step heff hby ih.1, Timeline.readsSorted_step heff ih.2⟩

end StateVariable
end PdesMas
