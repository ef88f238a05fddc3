import PdesMas.Library.ChainMap
import PdesMas.Lp.LpId

/-!
The `std::map` of a rollback list. Its keys are compared with the `operator <` of
agents, which two agents of one ALP never satisfy: they are one key to the map.
-/

namespace PdesMas

namespace LpId

/-- The agents are the same, or one comes before the other. -/
def Ordered (a b : LpId) : Prop := ChainMap.Comparable lt a b

instance (a b : LpId) : Decidable (Ordered a b) :=
  inferInstanceAs (Decidable (a = b ∨ lt a b = true ∨ lt b a = true))

end LpId

namespace RollbackList

/-- The entries of the map, in the order in which they are sent. -/
def content (list : RollbackList) : List (LpId × Nat) := ChainMap.collect LpId.lt list.calls

variable {list : RollbackList} {agent : LpId} {t v : Nat}

theorem ordered_of_mem_content {other : LpId} {w : Nat} (h : (agent, v) ∈ list.content)
    (h' : (other, w) ∈ list.content) : LpId.Ordered agent other :=
  ChainMap.comparable_of_mem_collect LpId.lt_trans h h'

/-- An agent in order with all others has an entry, not behind any of its calls. -/
theorem exists_content (hordered : ∀ c ∈ list.calls, LpId.Ordered c.1 agent)
    (h : (agent, t) ∈ list.calls) : ∃ v, v ≤ t ∧ (agent, v) ∈ list.content :=
  ChainMap.exists_le_collect hordered h

theorem mem_calls_of_mem_content (hordered : ∀ c ∈ list.calls, LpId.Ordered c.1 agent)
    (h : (agent, v) ∈ list.content) : (agent, v) ∈ list.calls :=
  ChainMap.mem_of_mem_collect hordered h

end RollbackList
end PdesMas
