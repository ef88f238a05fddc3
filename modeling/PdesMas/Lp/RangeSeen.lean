import PdesMas.Lp.RangeGather

/-!
What can be seen of one query in a run: the work of the CLPs on its messages and
what the ALPs get. Any other step leaves its entries and messages as they are.
-/

namespace PdesMas

namespace RangeNetwork

open RangeClp

section Seen

variable (identifier : Nat)

/-- What a CLP has done about a query. -/
def services (os : List Output) (c : Nat) : List Service :=
  os.filterMap fun
    | .served s => if s.clp = c ∧ s.message.identifier = identifier then some s else none
    | .nothing | .received _ _ => none

def rangeReads (os : List Output) (c : Nat) : List PointMap :=
  (services identifier os c).flatMap Service.reads

/-- `c` has handed the query on to `d`. -/
def Forwarded (os : List Output) (c d : Nat) : Prop :=
  ∃ s ∈ services identifier os c, d ∈ s.forwarded.map RangeQueryMessage.destination

/-- The reply of `d` has arrived at `c`. -/
def Replied (os : List Output) (c d : Nat) : Prop :=
  ∃ s ∈ services identifier os c, s.fresh = false ∧ s.message.origin = d

/-- The responses that ALPs have got. -/
def received (os : List Output) : List (Nat × RangeQueryMessage) :=
  os.filterMap fun
    | .received alp m => if m.identifier = identifier then some (alp, m) else none
    | .nothing | .served _ => none

/-- An arrival of a message of the query. -/
def isArrival : Output → Bool
  | .served s => s.message.identifier == identifier
  | .received _ m => m.identifier == identifier
  | .nothing => false

def arrivals (os : List Output) : Nat := os.countP (isArrival identifier)

/-- No message of the query is on its way. -/
def Settled (net : RangeNetwork) : Prop := ∀ a b, queriesOf identifier (net.pipe a b) = []

variable {identifier}

theorem services_append (os os' : List Output) (c : Nat) :
    services identifier (os ++ os') c =
      services identifier os c ++ services identifier os' c := List.filterMap_append

theorem received_append (os os' : List Output) :
    received identifier (os ++ os') = received identifier os ++ received identifier os' :=
  List.filterMap_append

theorem services_of_not_arrival {o : Output} (h : isArrival identifier o = false) (c : Nat) :
    services identifier [o] c = [] := by
  cases o with
  | served s =>
      simp only [isArrival, beq_eq_false_iff_ne, ne_eq] at h
      simp [services, h]
  | nothing | received => rfl

theorem received_of_not_arrival {o : Output} (h : isArrival identifier o = false) :
    received identifier [o] = [] := by
  cases o with
  | received alp m =>
      simp only [isArrival, beq_eq_false_iff_ne, ne_eq] at h
      simp [received, h]
  | nothing | served => rfl

end Seen

variable {numberOfClps : Nat} {alpToClpMap : Std.TreeMap Nat Nat} {net net' : RangeNetwork}
  {e : Event} {o : Output} {identifier : Nat}

/-- Nothing that concerns the query has changed. -/
structure SameView (identifier : Nat) (net net' : RangeNetwork) : Prop where
  routes : ∀ c, (net'.clp c).routeTable = (net.clp c).routeTable
  tracker : ∀ c, (net'.clp c).rangeTracker[identifier]? = (net.clp c).rangeTracker[identifier]?
  pipe : ∀ a b, queriesOf identifier (net'.pipe a b) = queriesOf identifier (net.pipe a b)

theorem queriesOf_put {source target : Nat} {front back : List RangeMessage} {m : RangeMessage}
    (hpipe : net.pipe source target = front ++ m :: back)
    (hm : queriesOf identifier [m] = []) (a b : Nat) :
    queriesOf identifier (net.pipe.put source target (front ++ back) a b) =
      queriesOf identifier (net.pipe a b) := by
  apply Pipes.apply_put (queriesOf identifier)
  rw [hpipe, List.append_cons, queriesOf_append, queriesOf_append, queriesOf_append, hm,
    List.append_nil]

theorem sameView_of_clp {target : Nat} {c' : RangeClp} {source : Nat}
    {front back : List RangeMessage} {m : RangeMessage} {l : List RangeMessage}
    (hpipe : net.pipe source target = front ++ m :: back)
    (hm : queriesOf identifier [m] = []) (hkept : Kept (net.clp target) c')
    (htracker : c'.rangeTracker[identifier]? = (net.clp target).rangeTracker[identifier]?)
    (hl : ∀ q, .query q ∈ l → q.identifier ≠ identifier) :
    SameView identifier net
      ((({ net with pipe := net.pipe.put source target (front ++ back) } : RangeNetwork).setClp
        target c').send target l) := by
  refine ⟨fun c => ?_, fun c => ?_, fun a b => ?_⟩
  · rw [clp_send, clp_setClp]
    split
    · rename_i heq
      rw [heq, hkept.routeTable]
    · rfl
  · rw [clp_send, clp_setClp]
    split
    · rename_i heq
      rw [heq, htracker]
    · rfl
  · rw [queriesOf_send_of_ne _ _ hl]
    exact queriesOf_put hpipe hm a b

/-- A step is the sending of the query, an arrival of one of its messages, or it does not
concern the query. -/
inductive Concerns (numberOfClps : Nat) (alpToClpMap : Std.TreeMap Nat Nat) (identifier : Nat)
    (net : RangeNetwork) : Event → RangeNetwork → Output → Prop
  | sent {timestamp originalAgent range clp}
      (hclp : alpToClpMap[originalAgent.rank]? = some clp) :
      Concerns numberOfClps alpToClpMap identifier net
        (.query identifier timestamp originalAgent range)
        (net.send originalAgent.rank
          [.query ⟨originalAgent.rank, clp, timestamp, 0, identifier, originalAgent, range, 0,
            ∅⟩]) .nothing
  | served {source target k front back m r} (htarget : target < numberOfClps)
      (hpipe : net.pipe source target = front ++ .query m :: back)
      (hm : m.identifier = identifier)
      (hr : (net.clp target).processRangeQuery m.incrementNumberOfHops = some r) :
      Concerns numberOfClps alpToClpMap identifier net (.deliver source target k)
        ((({ net with pipe := net.pipe.put source target (front ++ back) } : RangeNetwork).setClp
          target r.clp).send target ((r.forwarded ++ r.responses).map .query))
        (.served ⟨target, !(net.clp target).rangeTracker.hasEntry m.identifier,
          m.incrementNumberOfHops, r.forwarded, r.reads⟩)
  | received {source target k front back m} (htarget : numberOfClps ≤ target)
      (hpipe : net.pipe source target = front ++ .query m :: back)
      (hm : m.identifier = identifier) :
      Concerns numberOfClps alpToClpMap identifier net (.deliver source target k)
        { net with pipe := net.pipe.put source target (front ++ back) } (.received target m)
  | other {event : Event} {after : RangeNetwork} {output : Output}
      (hview : SameView identifier net after) (ho : isArrival identifier output = false)
      (he : ∀ timestamp originalAgent range,
        event ≠ .query identifier timestamp originalAgent range) :
      Concerns numberOfClps alpToClpMap identifier net event after output

theorem concerns_of_effect (identifier : Nat)
    (h : Effect numberOfClps alpToClpMap net e net' o) :
    Concerns numberOfClps alpToClpMap identifier net e net' o := by
  cases h with
  | @query i timestamp originalAgent range clp hclp =>
      by_cases hi : i = identifier
      · subst hi
        exact .sent hclp
      · refine .other ⟨fun _ => rfl, fun _ => rfl, fun a b => ?_⟩ rfl ?_
        · refine queriesOf_send_of_ne _ _ (fun m hm => ?_) a b
          obtain rfl : m = _ := by simpa using hm
          exact hi
        · intro _ _ _ heq
          cases heq
          exact hi rfl
  | anti hclp =>
      refine .other ⟨fun _ => rfl, fun _ => rfl, fun a b => ?_⟩ rfl nofun
      exact queriesOf_send_of_ne _ _ (fun m hm => by simp at hm) a b
  | @serve source target k front back m r htarget hpipe hk hr =>
      by_cases hm : m.identifier = identifier
      · exact .served htarget hpipe hm hr
      · have hframe : Steady (fun _ => False) (net.clp target) r.clp ∧ _ := serve_frame hr
        obtain ⟨hsteady, hothers, hsent⟩ := hframe
        refine .other (sameView_of_clp hpipe (by simp [hm]) hsteady.kept (hothers _ hm) ?_)
          (by simpa [isArrival, RangeQueryMessage.incrementNumberOfHops] using hm) nofun
        intro q hq
        obtain ⟨q', hq', heq⟩ := List.mem_map.mp hq
        cases heq
        rw [hsent q hq']
        exact hm
  | undo htarget hpipe hk hr =>
      have hclp : ∀ {c r m}, RangeClp.processRangeQueryAnti c m = some r →
          Kept c r.1 ∧ r.1.rangeTracker = c.rangeTracker := by
        intro c r m hr
        cases processRangeQueryAnti_spec hr with
        | inl hearly =>
            rw [hearly.2]
            exact ⟨.refl c, rfl⟩
        | inr hundone =>
            obtain ⟨_, _, _, hanti⟩ := hundone
            exact ⟨hanti.kept, hanti.rangeTracker⟩
      obtain ⟨hkept, htracker⟩ := hclp hr
      exact .other (sameView_of_clp hpipe (by simp) hkept (by rw [htracker])
        (fun q hq => by simp at hq)) rfl nofun
  | update htarget hpipe hk hr =>
      obtain ⟨port, _, hranged⟩ := processRangeUpdate_ranged hr
      exact .other (sameView_of_clp hpipe (by simp) hranged.steady.kept
        (by rw [hranged.rangeTracker]) (fun q hq => by simp at hq)) rfl nofun
  | @respond source target k front back m htarget hpipe hk =>
      by_cases hm : m.identifier = identifier
      · exact .received htarget hpipe hm
      · refine .other ⟨fun _ => rfl, fun _ => rfl, queriesOf_put hpipe (by simp [hm])⟩
          (by simpa [isArrival] using hm) nofun
  | @ignore source target k front back m htarget hpipe hk hm =>
      refine .other ⟨fun _ => rfl, fun _ => rfl, queriesOf_put hpipe ?_⟩ rfl nofun
      cases m with
      | query q => exact absurd rfl (hm q)
      | anti | update => rfl
  | @setGvt clp gvt _ =>
      refine .other ⟨fun c => ?_, fun c => ?_, fun _ _ => rfl⟩ rfl nofun
      · rw [clp_setGvt]
        split <;> rfl
      · rw [clp_setGvt]
        split <;> rfl
  | @write _ clp r hclp hranged hlocal hquery hanti hgvt =>
      refine .other ⟨fun c => ?_, fun c => ?_, fun a b => ?_⟩ rfl (hquery _)
      · rw [clp_send, clp_setClp]
        split
        · rename_i heq
          rw [heq, hranged.steady.kept.routeTable]
        · rfl
      · rw [clp_send, clp_setClp]
        split
        · rename_i heq
          rw [heq, hranged.rangeTracker]
        · rfl
      · exact queriesOf_send_of_ne _ _ (fun m hm => by simp at hm) a b

end RangeNetwork
end PdesMas
