import Std.Data.ExtTreeMap.Lemmas
import PdesMas.Library.TextStream
import PdesMas.Lp.GvtCalculator
import PdesMas.Lp.LpId
import PdesMas.Types.Value

/-!
How the parts of a message are written and read: the bracketed tuples, the counted
containers, the identifiers, points and enumerations. A character of the text
stands for one byte.
-/

namespace PdesMas
open TextStream

def DELIM_VAR_SEPARATOR : Char := ':'
def DELIM_LEFT : Char := '<'
def DELIM_RIGHT : Char := '>'
def DELIM_LIST_LEFT : Char := '|'
def DELIM_LIST_RIGHT : Char := '@'

section Tuples
variable {α β : Type} {next : List Char → Prop}

/-- Each of the parts behind a separator, and the closing bracket. -/
def fields : List (List Char) → List Char
  | [] => [DELIM_RIGHT]
  | text :: texts => DELIM_VAR_SEPARATOR :: (text ++ fields texts)

def tuple : List (List Char) → List Char
  | [] => [DELIM_LEFT, DELIM_RIGHT]
  | text :: texts => DELIM_LEFT :: (text ++ fields texts)

def opening (r : Reader α) : Reader α := do
  ignoreTo DELIM_LEFT
  r

def field (r : Reader α) : Reader α := do
  ignoreTo DELIM_VAR_SEPARATOR
  r

theorem closes_fields (texts : List (List Char)) (tail : List Char) :
    Closes (fields texts ++ tail) := by
  cases texts with
  | nil => rfl
  | cons text texts => rfl

theorem reads_skip {r : Reader α} {delim : Char} {text : List Char} {a : α}
    (h : Reads next r text a) : Reads next (do ignoreTo delim; r) (delim :: text) a := by
  have hskip : Reads (fun _ => True) (ignoreTo delim) ([] ++ [delim]) () :=
    reads_ignoreTo (by simp)
  exact hskip.bind (fun _ _ => trivial) h

theorem reads_opening {next' : List Char → Prop} {r : Reader α} {k : α → Reader β}
    {text more : List Char} {a : α} {b : β} (h : Reads next' r text a)
    (hmore : ∀ tail, next tail → next' (more ++ tail)) (hk : Reads next (k a) more b) :
    Reads next (opening r >>= k) (DELIM_LEFT :: (text ++ more)) b :=
  reads_skip (h.bind hmore hk)

theorem reads_separated {next' : List Char → Prop} {r : Reader α} {k : α → Reader β}
    {text more : List Char} {a : α} {b : β} (h : Reads next' r text a)
    (hmore : ∀ tail, next tail → next' (more ++ tail)) (hk : Reads next (k a) more b) :
    Reads next (field r >>= k) (DELIM_VAR_SEPARATOR :: (text ++ more)) b :=
  reads_skip (h.bind hmore hk)

theorem reads_tuple {r : Reader α} {k : α → Reader β} {text : List Char}
    {texts : List (List Char)} {a : α} {b : β} (h : Reads Closes r text a)
    (hk : Reads next (k a) (fields texts) b) :
    Reads next (opening r >>= k) (tuple (text :: texts)) b :=
  reads_opening h (fun tail _ => closes_fields texts tail) hk

theorem reads_field {r : Reader α} {k : α → Reader β} {text : List Char}
    {texts : List (List Char)} {a : α} {b : β} (h : Reads Closes r text a)
    (hk : Reads next (k a) (fields texts) b) :
    Reads next (field r >>= k) (fields (text :: texts)) b :=
  reads_separated h (fun tail _ => closes_fields texts tail) hk

theorem reads_closing (a : α) :
    Reads next (do ignoreTo DELIM_RIGHT; pure a) (fields []) a :=
  reads_skip (Reads.pure a)

/-- What stands in front of the first separator is skipped with it. -/
theorem reads_message {r : Reader α} {k : α → Reader β} {type : List Char}
    {texts : List (List Char)} {b : β} (htype : DELIM_VAR_SEPARATOR ∉ type)
    (h : Reads next (field r >>= k) (fields texts) b) (hne : texts ≠ []) :
    Reads next (field r >>= k) (tuple (type :: texts)) b := by
  cases texts with
  | nil => exact absurd rfl hne
  | cons text texts =>
      intro taken tail htail
      have hnot : DELIM_VAR_SEPARATOR ∉ DELIM_LEFT :: type := by
        simpa [DELIM_VAR_SEPARATOR, DELIM_LEFT] using htype
      have hskip := ignoreTo_skipped taken (text ++ fields texts ++ tail) hnot
      have hread := h ((DELIM_LEFT :: type).reverse ++ taken) tail htail
      simp only [fields, field, bind_apply, List.cons_append] at hread
      simp only [tuple, fields, field, bind_apply, List.append_assoc, List.cons_append] at hskip ⊢
      rw [hskip, ← List.append_assoc, hread]
      simp

end Tuples

section Containers
variable {α γ : Type}

def elements (text : α → List Char) : List α → List Char
  | [] => []
  | e :: l => DELIM_LIST_LEFT :: (text e ++ DELIM_LIST_RIGHT :: elements text l)

/-- `SerialisableList::Serialise`. The number of elements goes through an unsigned int. -/
def serialiseList (text : α → List Char) (l : List α) : List Char :=
  decimal (l.length % 2 ^ 32) ++ elements text l

def readElements (insert : γ → α → γ) (r : Reader α) : Nat → γ → Reader γ
  | 0, container => pure container
  | n + 1, container => do
      ignoreTo DELIM_LIST_LEFT
      let e ← r
      ignoreTo DELIM_LIST_RIGHT
      readElements insert r n (insert container e)

def deserialiseContainer (empty : γ) (insert : γ → α → γ) (r : Reader α) : Reader γ := do
  let size ← extractUnsigned 32
  readElements insert r size empty

theorem closes_elements (text : α → List Char) (l : List α) {tail : List Char}
    (htail : Closes tail) : Closes (elements text l ++ tail) := by
  cases l with
  | nil => exact htail
  | cons e l => rfl

theorem reads_elements (text : α → List Char) {r : Reader α} (insert : γ → α → γ)
    {l : List α} (h : ∀ e ∈ l, Reads (Before DELIM_LIST_RIGHT) r (text e) e) (container : γ) :
    Reads (fun _ => True) (readElements insert r l.length container) (elements text l)
      (l.foldl insert container) := by
  induction l generalizing container with
  | nil => exact Reads.pure container
  | cons e l ih =>
      apply reads_skip
      apply (h e List.mem_cons_self).bind
      · intro tail _
        exact ⟨elements text l ++ tail, rfl⟩
      · apply reads_skip
        exact ih (fun e' he' => h e' (List.mem_cons_of_mem _ he')) (insert container e)

theorem reads_container {text : α → List Char} {r : Reader α} (empty : γ) (insert : γ → α → γ)
    {l : List α} (h : ∀ e ∈ l, Reads (Before DELIM_LIST_RIGHT) r (text e) e)
    (hsize : l.length < 2 ^ 32) :
    Reads Closes (deserialiseContainer empty insert r) (serialiseList text l)
      (l.foldl insert empty) := by
  rw [serialiseList, Nat.mod_eq_of_lt hsize]
  apply (reads_unsigned hsize).bind
  · intro tail htail
    exact closes_elements text l htail
  · exact (reads_elements text insert h empty).mono fun _ _ => trivial

theorem ensures_elements {whole : List Char} {r : Reader α} {P : α → Prop}
    (h : Ensures whole r P) (insert : γ → α → γ) (n : Nat) (container : γ) :
    Ensures whole (readElements insert r n container) fun out =>
      ∃ l : List α, l.length = n ∧ (∀ e ∈ l, P e) ∧ out = l.foldl insert container := by
  induction n generalizing container with
  | zero => exact Ensures.pure ⟨[], rfl, by simp, rfl⟩
  | succ n ih =>
      apply (ensures_ignoreTo whole _).bind
      intro _ _
      apply h.bind
      intro e he
      apply (ensures_ignoreTo whole _).bind
      intro _ _
      apply (ih (insert container e)).mono
      intro out hout
      cases hout with
      | intro l hl =>
          refine ⟨e :: l, by simp [hl.1], ?_, by rw [hl.2.2, List.foldl_cons]⟩
          intro e' he'
          cases List.mem_cons.mp he' with
          | inl heq => exact heq ▸ he
          | inr hmem => exact hl.2.1 e' hmem

/-- No container that was read has 2^32 elements or more. -/
theorem ensures_container {whole : List Char} {r : Reader α} {P : α → Prop}
    (h : Ensures whole r P) (empty : γ) (insert : γ → α → γ) :
    Ensures whole (deserialiseContainer empty insert r) fun out =>
      ∃ l : List α, l.length < 2 ^ 32 ∧ (∀ e ∈ l, P e) ∧ out = l.foldl insert empty := by
  apply (ensures_extractUnsigned whole 32).bind
  intro n hn
  apply (ensures_elements h insert n empty).mono
  intro out hout
  cases hout with
  | intro l hl => exact ⟨l, hl.1 ▸ hn, hl.2⟩

/-- `list::push_back`, and `multimap::insert` of an element with no key before those of the
others. -/
def pushBack (l : List α) (e : α) : List α := l ++ [e]

theorem foldl_pushBack (l l' : List α) : l.foldl pushBack l' = l' ++ l := by
  induction l generalizing l' with
  | nil => simp
  | cons e l ih => simp [ih, pushBack]

def deserialiseList (r : Reader α) : Reader (List α) := deserialiseContainer [] pushBack r

theorem reads_list {text : α → List Char} {r : Reader α} {l : List α}
    (h : ∀ e ∈ l, Reads (Before DELIM_LIST_RIGHT) r (text e) e) (hsize : l.length < 2 ^ 32) :
    Reads Closes (deserialiseList r) (serialiseList text l) l := by
  have hread := reads_container [] pushBack h hsize
  rwa [foldl_pushBack, List.nil_append] at hread

theorem ensures_list {whole : List Char} {r : Reader α} {P : α → Prop} (h : Ensures whole r P) :
    Ensures whole (deserialiseList r) fun l => l.length < 2 ^ 32 ∧ ∀ e ∈ l, P e := by
  apply (ensures_container h [] pushBack).mono
  intro out hout
  cases hout with
  | intro l hl =>
      rw [hl.2.2, foldl_pushBack, List.nil_append]
      exact ⟨hl.1, hl.2.1⟩

end Containers

section Entries
variable {κ β : Type}

def entryText (keyText : κ → List Char) (valueText : β → List Char) (e : κ × β) : List Char :=
  keyText e.1 ++ DELIM_LIST_LEFT :: valueText e.2

def readEntry (key : Reader κ) (value : Reader β) : Reader (κ × β) := do
  let k ← key
  ignoreTo DELIM_LIST_LEFT
  let v ← value
  pure (k, v)

theorem reads_entry {keyText : κ → List Char} {valueText : β → List Char} {key : Reader κ}
    {value : Reader β} {e : κ × β} (hk : Reads Closes key (keyText e.1) e.1)
    (hv : Reads (Before DELIM_LIST_RIGHT) value (valueText e.2) e.2) :
    Reads (Before DELIM_LIST_RIGHT) (readEntry key value) (entryText keyText valueText e) e := by
  apply hk.bind
  · intro tail _
    rfl
  · apply reads_skip
    have hpair : Reads (Before DELIM_LIST_RIGHT)
        (value >>= fun v => (pure (e.1, v) : Reader (κ × β))) (valueText e.2 ++ []) e :=
      hv.bind (fun tail htail => htail) (Reads.pure e)
    rwa [List.append_nil] at hpair

theorem ensures_entry {whole : List Char} {key : Reader κ} {value : Reader β} {P : κ → Prop}
    {Q : β → Prop} (hk : Ensures whole key P) (hv : Ensures whole value Q) :
    Ensures whole (readEntry key value) fun e => P e.1 ∧ Q e.2 := by
  apply hk.bind
  intro k hP
  apply (ensures_ignoreTo whole _).bind
  intro _ _
  apply hv.bind
  intro v hQ
  exact Ensures.pure ⟨hP, hQ⟩

end Entries

section Maps
variable {β : Type}

/-- The maps of the messages are keyed by SSV identifiers or ranks. -/
abbrev SerialisableMap (β : Type) := Std.ExtTreeMap Nat β

/-- `map::insert`, which leaves a key alone that is there already. -/
def insertEntry (m : SerialisableMap β) (e : Nat × β) : SerialisableMap β :=
  m.insertIfNew e.1 e.2

def serialiseMap (keyText : Nat → List Char) (valueText : β → List Char)
    (m : SerialisableMap β) : List Char :=
  serialiseList (entryText keyText valueText) m.toList

def deserialiseMap (key : Reader Nat) (value : Reader β) : Reader (SerialisableMap β) :=
  deserialiseContainer ∅ insertEntry (readEntry key value)

theorem getElem?_foldl_insertEntry (l : List (Nat × β)) (m : SerialisableMap β) (k : Nat) :
    (l.foldl insertEntry m)[k]? = m[k]?.or ((l.find? fun e => e.1 == k).map Prod.snd) := by
  induction l generalizing m with
  | nil => simp
  | cons e l ih =>
      rw [List.foldl_cons, ih, insertEntry, Std.ExtTreeMap.getElem?_insertIfNew]
      by_cases hk : e.1 = k
      · subst hk
        cases hm : m[e.1]? with
        | none =>
            have hout : e.1 ∉ m := by simp [Std.ExtTreeMap.mem_iff_isSome_getElem?, hm]
            simp [hout]
        | some v =>
            have hin : e.1 ∈ m := by simp [Std.ExtTreeMap.mem_iff_isSome_getElem?, hm]
            simp [hin]
      · simp [hk]

/-- Inserting the entries of a map one after the other gives the map. -/
theorem foldl_insertEntry_toList (m : SerialisableMap β) :
    m.toList.foldl insertEntry ∅ = m := by
  apply Std.ExtTreeMap.ext_getElem?
  intro k
  rw [getElem?_foldl_insertEntry]
  cases hk : m[k]? with
  | none =>
      have hnone : m.toList.find? (fun e => e.1 == k) = none := by
        apply List.find?_eq_none.mpr
        intro e he hek
        have hin := Std.ExtTreeMap.mem_toList_iff_getElem?_eq_some.mp he
        rw [beq_iff_eq.mp hek, hk] at hin
        cases hin
      simp [hnone]
  | some v =>
      have hin := Std.ExtTreeMap.mem_toList_iff_getElem?_eq_some.mpr hk
      have hsome : (m.toList.find? fun e => e.1 == k).isSome := by
        apply List.find?_isSome.mpr
        exact ⟨(k, v), hin, by simp⟩
      cases Option.isSome_iff_exists.mp hsome with
      | intro e he =>
          have hfound := List.mem_of_find?_eq_some he
          have hmem := Std.ExtTreeMap.mem_toList_iff_getElem?_eq_some.mp hfound
          have hek : e.1 = k := by simpa using List.find?_some he
          rw [hek, hk] at hmem
          simp [he, Option.some.inj hmem]

theorem reads_map {keyText : Nat → List Char} {valueText : β → List Char} {key : Reader Nat}
    {value : Reader β} {m : SerialisableMap β}
    (hk : ∀ e ∈ m.toList, Reads Closes key (keyText e.1) e.1)
    (hv : ∀ e ∈ m.toList, Reads (Before DELIM_LIST_RIGHT) value (valueText e.2) e.2)
    (hsize : m.size < 2 ^ 32) :
    Reads Closes (deserialiseMap key value) (serialiseMap keyText valueText m) m := by
  have hentries : ∀ e ∈ m.toList, Reads (Before DELIM_LIST_RIGHT) (readEntry key value)
      (entryText keyText valueText e) e := fun e he => reads_entry (hk e he) (hv e he)
  have hread := reads_container (∅ : SerialisableMap β) insertEntry hentries
    (by rwa [Std.ExtTreeMap.length_toList])
  rwa [foldl_insertEntry_toList] at hread

theorem size_foldl_insertEntry_le (l : List (Nat × β)) (m : SerialisableMap β) :
    (l.foldl insertEntry m).size ≤ m.size + l.length := by
  induction l generalizing m with
  | nil => simp
  | cons e l ih =>
      have hstep : (insertEntry m e).size ≤ m.size + 1 := Std.ExtTreeMap.size_insertIfNew_le
      have hrest := ih (insertEntry m e)
      rw [List.foldl_cons, List.length_cons]
      omega

theorem ensures_map {whole : List Char} {key : Reader Nat} {value : Reader β} {P : Nat → Prop}
    {Q : β → Prop} (hk : Ensures whole key P) (hv : Ensures whole value Q) :
    Ensures whole (deserialiseMap key value) fun m =>
      m.size < 2 ^ 32 ∧ ∀ e ∈ m.toList, P e.1 ∧ Q e.2 := by
  apply (ensures_container (ensures_entry hk hv) (∅ : SerialisableMap β) insertEntry).mono
  intro m hm
  cases hm with
  | intro l hl =>
      rw [hl.2.2]
      constructor
      · have hsize := size_foldl_insertEntry_le l (∅ : SerialisableMap β)
        rw [Std.ExtTreeMap.size_empty] at hsize
        omega
      · intro e he
        have hget := Std.ExtTreeMap.mem_toList_iff_getElem?_eq_some.mp he
        rw [getElem?_foldl_insertEntry] at hget
        simp only [Std.ExtTreeMap.getElem?_empty, Option.none_or, Option.map_eq_some_iff] at hget
        cases hget with
        | intro e' he' =>
            have hkey : e'.1 = e.1 := by simpa using List.find?_some he'.1
            have hfound := hl.2.1 e' (List.mem_of_find?_eq_some he'.1)
            rwa [hkey, he'.2] at hfound

end Maps
end PdesMas
