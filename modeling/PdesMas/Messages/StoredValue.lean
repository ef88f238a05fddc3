import PdesMas.Messages.Types
import PdesMas.State.StateVariable

/-!
How values, write periods and state variables are written and read. A value is written
without quoting, and cut out of its text again: a message takes the next word, a write
period the rest of its list element, and both the characters from the first separator to
the first closing bracket of that.

The text of a double is left to the stream, as a parameter of which nothing is assumed.
-/

namespace PdesMas
open TextStream

/-- How the stream writes and reads a double. -/
structure DoubleFormat where
  print : BitVec 64 → List Char
  scan : Reader (BitVec 64)

/-- Values without doubles do not depend on how these are written. -/
def noDoubles : DoubleFormat := ⟨fun _ => [], fail⟩

/-- The end of a string for the functions of C. -/
def NUL : Char := Char.ofNat 0

section Values

def AbstractValue.type : AbstractValue → PdesmasType
  | .valueINT _ => .VALUEINT
  | .valueDOUBLE _ => .VALUEDOUBLE
  | .valuePOINT _ => .VALUEPOINT
  | .valueSTRING _ => .VALUESTRING
  | .valueLONG _ => .VALUELONG

/-- What the inserter of the value's class writes. -/
def AbstractValue.data (fmt : DoubleFormat) : AbstractValue → List Char
  | .valueINT z => signedDecimal z
  | .valueDOUBLE d => fmt.print d
  | .valuePOINT p => p.serialise
  | .valueSTRING s => s.toList
  | .valueLONG z => signedDecimal z

def AbstractValue.serialise (fmt : DoubleFormat) (v : AbstractValue) : List Char :=
  tuple [v.type.serialise, v.data fmt]

/-- `GetValueString`. Where there is no separator the search starts over, the position
behind the end of the text being one less than zero. -/
def getValueString (text : List Char) : List Char :=
  let value :=
    match text.dropWhile fun c => c == DELIM_LEFT with
    | [] => text
    | _ :: rest =>
        match rest.dropWhile fun c => c != DELIM_VAR_SEPARATOR with
        | [] => text
        | _ :: value => value
  value.takeWhile fun c => c != DELIM_RIGHT

/-- `CreateObject` for the type of the text, and `SetValue` with its value string. A
string that cannot be extracted stays empty. -/
def recreate (fmt : DoubleFormat) (text : List Char) : Option AbstractValue :=
  let value := getValueString text
  match getTypeID text with
  | some .VALUEINT => (parse (extractSigned 31) value).map .valueINT
  | some .VALUEDOUBLE => (parse fmt.scan value).map .valueDOUBLE
  | some .VALUEPOINT => (parse Point.deserialise value).map .valuePOINT
  | some .VALUESTRING => some (.valueSTRING (String.ofList ((parse extractWord value).getD [])))
  | some .VALUELONG => (parse (extractSigned 63) value).map .valueLONG
  | _ => none

def recreated (fmt : DoubleFormat) (text : List Char) : Reader AbstractValue :=
  match recreate fmt text with
  | some v => pure v
  | none => fail

/-- How a message reads its value. -/
def readValueWord (fmt : DoubleFormat) : Reader AbstractValue := do
  let valueString ← extractWord
  recreated fmt valueString

/-- How a write period reads its value, at the end of an element of a list. -/
def readValueLine (fmt : DoubleFormat) : Reader AbstractValue := do
  ignoreTo DELIM_VAR_SEPARATOR
  ignoreTo DELIM_LEFT
  let valueString ← getline DELIM_LIST_RIGHT
  let value ← recreated fmt valueString
  unget
  pure value

end Values

section Survival

/-- The string holds no whitespace, none of the delimiters and no end of a string. -/
def Unbroken (delims : List Char) (s : String) : Prop :=
  ∀ c ∈ s.toList, isSpace c = false ∧ c ≠ NUL ∧ c ∉ delims

instance (delims : List Char) (s : String) : Decidable (Unbroken delims s) :=
  List.decidableBAll (fun c => isSpace c = false ∧ c ≠ NUL ∧ c ∉ delims) s.toList

/-- A string, if the value is one, is unbroken. -/
def AbstractValue.Unbroken (delims : List Char) (v : AbstractValue) : Prop :=
  ∀ s, v = .valueSTRING s → PdesMas.Unbroken delims s

/-- The double has a text that is a word and reads back as the double. -/
structure DoubleFormat.Exact (fmt : DoubleFormat) (d : BitVec 64) : Prop where
  scan : parse fmt.scan (fmt.print d) = some d
  print : ∀ c ∈ fmt.print d, isSpace c = false ∧ c ≠ NUL ∧ c ∉ [DELIM_RIGHT, DELIM_LIST_RIGHT]

/-- Numbers are in the range of their class. -/
def AbstractValue.Fits (fmt : DoubleFormat) : AbstractValue → Prop
  | .valueINT z => FitsSigned 31 z
  | .valueDOUBLE d => fmt.Exact d
  | .valuePOINT p => p.InRange
  | .valueSTRING _ => True
  | .valueLONG z => FitsSigned 63 z

variable {fmt : DoubleFormat}

/-- A property of the characters that numbers and tuples of numbers are made of. -/
structure Plain (P : Char → Prop) : Prop where
  digit : ∀ c, c.isDigit = true → P c
  minus : P '-'
  left : P DELIM_LEFT
  separator : P DELIM_VAR_SEPARATOR
  right : P DELIM_RIGHT

variable {P : Char → Prop}

theorem plain_ne_NUL : Plain (· ≠ NUL) where
  digit _ h := ne_of_isDigit h (by decide)
  minus := by decide
  left := by decide
  separator := by decide
  right := by decide

theorem plain_ne_listRight : Plain (· ≠ DELIM_LIST_RIGHT) where
  digit _ h := ne_of_isDigit h (by decide)
  minus := by decide
  left := by decide
  separator := by decide
  right := by decide

theorem plain_not_space : Plain fun c => isSpace c = false where
  digit _ := isSpace_of_isDigit
  minus := by decide
  left := by decide
  separator := by decide
  right := by decide

theorem not_mem_signedDecimal (z : Int) : DELIM_RIGHT ∉ signedDecimal z := by
  intro hmem
  simp only [signedDecimal] at hmem
  split at hmem
  · cases List.mem_cons.mp hmem with
    | inl heq => cases heq
    | inr hdigit => cases isDigit_of_mem_decimal hdigit
  · cases isDigit_of_mem_decimal hmem

theorem Plain.decimal (h : Plain P) (n : Nat) : ∀ c ∈ decimal n, P c := by
  intro c hc
  exact h.digit c (isDigit_of_mem_decimal hc)

theorem Plain.signedDecimal (h : Plain P) (z : Int) : ∀ c ∈ signedDecimal z, P c := by
  intro c hc
  simp only [TextStream.signedDecimal] at hc
  split at hc
  · cases List.mem_cons.mp hc with
    | inl heq => exact heq ▸ h.minus
    | inr hmem => exact h.decimal _ c hmem
  · exact h.decimal _ c hc

theorem Plain.fields (h : Plain P) {texts : List (List Char)}
    (ht : ∀ text ∈ texts, ∀ c ∈ text, P c) : ∀ c ∈ fields texts, P c := by
  induction texts with
  | nil =>
      intro c hc
      exact List.mem_singleton.mp hc ▸ h.right
  | cons text texts ih =>
      have hrest := ih fun text' htext' => ht text' (List.mem_cons_of_mem _ htext')
      intro c hc
      rcases List.mem_cons.mp hc with hc | hc
      · exact hc ▸ h.separator
      · cases List.mem_append.mp hc with
        | inl htext => exact ht text List.mem_cons_self c htext
        | inr hmem => exact hrest c hmem

theorem Plain.tuple (h : Plain P) {text : List Char} {texts : List (List Char)}
    (ht : ∀ t ∈ text :: texts, ∀ c ∈ t, P c) : ∀ c ∈ tuple (text :: texts), P c := by
  have hrest := h.fields fun text' htext' => ht text' (List.mem_cons_of_mem _ htext')
  intro c hc
  rcases List.mem_cons.mp hc with hc | hc
  · exact hc ▸ h.left
  · cases List.mem_append.mp hc with
    | inl htext => exact ht text List.mem_cons_self c htext
    | inr hmem => exact hrest c hmem

theorem Plain.point (h : Plain P) (p : Point) : ∀ c ∈ p.serialise, P c := by
  apply h.tuple
  intro t ht
  simp only [List.mem_cons, List.not_mem_nil, or_false] at ht
  cases ht with
  | inl ht => exact ht ▸ h.signedDecimal p.x
  | inr ht => exact ht ▸ h.signedDecimal p.y

/-- A property that the characters of strings and of doubles have as well holds of the
text of every value. -/
theorem Plain.data (h : Plain P) {v : AbstractValue}
    (hdouble : ∀ d, v = .valueDOUBLE d → ∀ c ∈ fmt.print d, P c)
    (hstring : ∀ s, v = .valueSTRING s → ∀ c ∈ s.toList, P c) : ∀ c ∈ v.data fmt, P c := by
  cases v with
  | valueINT z => exact h.signedDecimal z
  | valueDOUBLE d => exact hdouble d rfl
  | valuePOINT p => exact h.point p
  | valueSTRING s => exact hstring s rfl
  | valueLONG z => exact h.signedDecimal z

theorem Plain.value (h : Plain P) {v : AbstractValue} (hdata : ∀ c ∈ v.data fmt, P c) :
    ∀ c ∈ v.serialise fmt, P c := by
  apply h.tuple
  intro t ht
  simp only [List.mem_cons, List.not_mem_nil, or_false] at ht
  cases ht with
  | inl ht => exact ht ▸ h.decimal v.type.number
  | inr ht => exact ht ▸ hdata

end Survival

section Cutting
variable {fmt : DoubleFormat}

/-- The value string of a text of the right form is what stands between its first
separator and the first closing bracket behind that. -/
theorem getValueString_of_type {lead : List Char} (hlead : ∀ c ∈ lead, c = DELIM_LEFT)
    (type : PdesmasType) (rest : List Char) :
    getValueString (lead ++ (type.serialise ++ DELIM_VAR_SEPARATOR :: rest)) =
      rest.takeWhile fun c => c != DELIM_RIGHT := by
  obtain ⟨c, digits, _, hsep, hdrop⟩ := exists_digits_of_type hlead type rest
  have hskip : (digits ++ DELIM_VAR_SEPARATOR :: rest).dropWhile
      (fun d => d != DELIM_VAR_SEPARATOR) = DELIM_VAR_SEPARATOR :: rest := by
    rw [List.dropWhile_append_of_pos]
    · simp
    · intro d hmem
      have hne : d ≠ DELIM_VAR_SEPARATOR := fun heq => hsep (heq ▸ hmem)
      simpa using hne
  simp only [getValueString, hdrop, hskip]

theorem reads_point_cut {p : Point} (h : p.InRange) :
    parse Point.deserialise
      (DELIM_LEFT :: (signedDecimal p.x ++ DELIM_VAR_SEPARATOR :: signedDecimal p.y)) = some p := by
  have hend : Reads AtEnd (do ignoreTo DELIM_RIGHT; pure p) ([] ++ []) p :=
    (reads_ignoreTo_atEnd DELIM_RIGHT).bind (fun _ h => h) (Reads.pure p)
  have hread : Reads AtEnd Point.deserialise
      (DELIM_LEFT :: (signedDecimal p.x ++ DELIM_VAR_SEPARATOR :: (signedDecimal p.y ++ []))) p := by
    apply reads_opening (reads_fits h.x)
    · exact fun tail _ => rfl
    · apply reads_separated (reads_fits h.y)
      · intro tail htail
        cases htail
        trivial
      · exact hend
  rw [List.append_nil] at hread
  exact hread.parse rfl

theorem parse_extractWord {word : List Char} (h : ∀ c ∈ word, isSpace c = false) :
    (parse extractWord word).getD [] = word := by
  by_cases hne : word = []
  · subst hne
    rfl
  · rw [(reads_word h hne).parse rfl, Option.getD_some]

/-- A value is made again from its type and its text, whatever follows the bracket
behind it. -/
theorem recreate_text {lead : List Char} (hlead : ∀ c ∈ lead, c = DELIM_LEFT) {v : AbstractValue}
    (hfits : v.Fits fmt) (hunbroken : v.Unbroken [DELIM_RIGHT]) (rest : List Char) :
    recreate fmt (lead ++ (v.type.serialise ++
      DELIM_VAR_SEPARATOR :: (v.data fmt ++ DELIM_RIGHT :: rest))) = some v := by
  have htype := getTypeID_of_type hlead v.type (v.data fmt ++ DELIM_RIGHT :: rest)
  have hvalue := getValueString_of_type hlead v.type (v.data fmt ++ DELIM_RIGHT :: rest)
  have hnumber : ∀ z : Int, DELIM_RIGHT ∉ signedDecimal z := not_mem_signedDecimal
  simp only [recreate, htype]
  cases v with
  | valueINT z =>
      rw [hvalue, AbstractValue.data, takeWhile_ne_append rest (hnumber z)]
      simp only [AbstractValue.type, (reads_fits hfits).parse trivial, Option.map_some]
  | valueLONG z =>
      rw [hvalue, AbstractValue.data, takeWhile_ne_append rest (hnumber z)]
      simp only [AbstractValue.type, (reads_fits hfits).parse trivial, Option.map_some]
  | valueDOUBLE d =>
      have hnot : DELIM_RIGHT ∉ fmt.print d := fun hmem => (hfits.print _ hmem).2.2 (by simp)
      rw [hvalue, AbstractValue.data, takeWhile_ne_append rest hnot]
      simp only [AbstractValue.type, hfits.scan, Option.map_some]
  | valueSTRING s =>
      have hs := hunbroken s rfl
      have hnot : DELIM_RIGHT ∉ s.toList := fun hmem => (hs _ hmem).2.2 (by simp)
      rw [hvalue, AbstractValue.data, takeWhile_ne_append rest hnot]
      simp only [AbstractValue.type, parse_extractWord fun c hc => (hs c hc).1,
        String.ofList_toList]
  | valuePOINT p =>
      have hnot : DELIM_RIGHT ∉
          DELIM_LEFT :: (signedDecimal p.x ++ DELIM_VAR_SEPARATOR :: signedDecimal p.y) := by
        intro hmem
        simp only [List.mem_cons, List.mem_append] at hmem
        rcases hmem with h | h | h | h
        · cases h
        · exact hnumber _ h
        · cases h
        · exact hnumber _ h
      have hcut := takeWhile_ne_append (DELIM_RIGHT :: rest) hnot
      rw [hvalue]
      simp only [AbstractValue.data, Point.serialise, tuple, fields, List.append_assoc,
        List.cons_append, List.nil_append] at hcut ⊢
      simp only [AbstractValue.type, hcut, reads_point_cut hfits, Option.map_some]

theorem reads_recreated {next : List Char → Prop} {text : List Char} {v : AbstractValue}
    (h : recreate fmt text = some v) : Reads next (recreated fmt text) [] v := by
  rw [recreated, h]
  exact Reads.pure v

/-- A message reads the value it was written with, where the end of the text follows. -/
theorem reads_valueWord {v : AbstractValue} (hfits : v.Fits fmt)
    (hunbroken : v.Unbroken [DELIM_RIGHT]) :
    Reads AtEnd (readValueWord fmt) (v.serialise fmt ++ [DELIM_RIGHT]) v := by
  have hspace : ∀ c ∈ v.serialise fmt ++ [DELIM_RIGHT], isSpace c = false := by
    have hdata : ∀ c ∈ v.data fmt, isSpace c = false := by
      apply plain_not_space.data
      · intro d hd c hc
        subst hd
        exact (hfits.print c hc).1
      · exact fun s hs c hc => (hunbroken s hs c hc).1
    intro c hc
    cases List.mem_append.mp hc with
    | inl hvalue => exact plain_not_space.value hdata c hvalue
    | inr hright => exact List.mem_singleton.mp hright ▸ plain_not_space.right
  have hword : Reads AtEnd extractWord (v.serialise fmt ++ [DELIM_RIGHT])
      (v.serialise fmt ++ [DELIM_RIGHT]) := reads_word hspace (by simp)
  have htext : v.serialise fmt ++ [DELIM_RIGHT] = [DELIM_LEFT] ++ (v.type.serialise ++
      DELIM_VAR_SEPARATOR :: (v.data fmt ++ DELIM_RIGHT :: [DELIM_RIGHT])) := by
    simp [AbstractValue.serialise, tuple, fields]
  have hvalue : recreate fmt (v.serialise fmt ++ [DELIM_RIGHT]) = some v := by
    rw [htext]
    exact recreate_text (by simp) hfits hunbroken [DELIM_RIGHT]
  have hread := hword.bind (k := recreated fmt) (fun _ h => h) (reads_recreated hvalue)
  rwa [List.append_nil] at hread

/-- A write period reads the value it was written with, where the element ends behind it. -/
theorem reads_valueLine {v : AbstractValue} (hfits : v.Fits fmt)
    (hunbroken : v.Unbroken [DELIM_RIGHT, DELIM_LIST_RIGHT]) :
    Reads (Before DELIM_LIST_RIGHT) (readValueLine fmt) (fields [v.serialise fmt]) v := by
  have hdata : ∀ c ∈ v.data fmt, c ≠ DELIM_LIST_RIGHT := by
    apply plain_ne_listRight.data
    · intro d hd c hc
      subst hd
      intro heq
      exact (hfits.print c hc).2.2 (by simp [heq])
    · intro s hs c hc heq
      exact (hunbroken s hs c hc).2.2 (by simp [heq])
  have hright : v.Unbroken [DELIM_RIGHT] := by
    intro s hs c hc
    have h := hunbroken s hs c hc
    exact ⟨h.1, h.2.1, fun hmem => h.2.2 (List.mem_cons.mpr (.inl (List.mem_singleton.mp hmem)))⟩
  let line := v.type.serialise ++
    DELIM_VAR_SEPARATOR :: (v.data fmt ++ DELIM_RIGHT :: [DELIM_RIGHT])
  have hline : DELIM_LIST_RIGHT ∉ line := by
    intro hmem
    simp only [line, List.mem_append, List.mem_cons, List.not_mem_nil, or_false] at hmem
    rcases hmem with h | h | h | h | h
    · exact plain_ne_listRight.decimal _ _ h rfl
    · cases h
    · exact hdata _ h rfl
    · cases h
    · cases h
  have hlead : ∀ c ∈ ([] : List Char), c = DELIM_LEFT := by simp
  have hvalue : recreate fmt line = some v := recreate_text hlead hfits hright [DELIM_RIGHT]
  intro taken tail htail
  cases htail with
  | intro more hmore =>
      subst hmore
      have htext : fields [v.serialise fmt] ++ DELIM_LIST_RIGHT :: more =
          [] ++ DELIM_VAR_SEPARATOR :: ([] ++ DELIM_LEFT :: (line ++ DELIM_LIST_RIGHT :: more)) := by
        simp [AbstractValue.serialise, tuple, fields, line]
      rw [htext, readValueLine, bind_apply, ignoreTo_append _ _ List.not_mem_nil, Option.bind_some,
        bind_apply, ignoreTo_append _ _ List.not_mem_nil, Option.bind_some, bind_apply,
        getline_append _ _ hline, Option.bind_some, bind_apply, recreated, hvalue]
      simp [pure_apply, bind_apply, unget, AbstractValue.serialise, tuple, fields, line]

/-- Whatever a text is, a string that is made from it is a word of it without a closing
bracket. -/
theorem recreate_string {text : List Char} {s : String}
    (h : recreate fmt text = some (.valueSTRING s)) :
    ∀ c ∈ s.toList, isSpace c = false ∧ c ≠ DELIM_RIGHT ∧ c ∈ text := by
  have hcut : ∀ c ∈ getValueString text, c ≠ DELIM_RIGHT ∧ c ∈ text := by
    intro c hc
    have hne := List.mem_takeWhile_imp (p := fun c => c != DELIM_RIGHT) hc
    refine ⟨by simpa using hne, ?_⟩
    have hin := (List.takeWhile_prefix _).subset hc
    split at hin
    · exact hin
    · rename_i d rest hdrop
      have hrest : rest ⊆ text := fun e he =>
        (List.dropWhile_suffix _).subset (hdrop ▸ List.mem_cons_of_mem d he)
      split at hin
      · exact hin
      · rename_i e value hdrop'
        exact hrest ((List.dropWhile_suffix _).subset (hdrop' ▸ List.mem_cons_of_mem e hin))
  simp only [recreate] at h
  split at h
  · cases Option.map_eq_some_iff.mp h with | intro _ h => cases h.2
  · cases Option.map_eq_some_iff.mp h with | intro _ h => cases h.2
  · cases Option.map_eq_some_iff.mp h with | intro _ h => cases h.2
  · cases h
    intro c hc
    rw [String.toList_ofList] at hc
    cases hword : parse extractWord (getValueString text) with
    | none =>
        rw [hword] at hc
        cases hc
    | some word =>
        rw [hword] at hc
        have hin := (ensures_extractWord (getValueString text)).parse hword c hc
        exact ⟨hin.1, hcut c hin.2⟩
  · cases Option.map_eq_some_iff.mp h with | intro _ h => cases h.2
  · cases h

/-- The string, if the value is one, is made of characters of the text that are neither
whitespace nor among `delims`. -/
def AbstractValue.Within (whole delims : List Char) (v : AbstractValue) : Prop :=
  ∀ s, v = .valueSTRING s → ∀ c ∈ s.toList, isSpace c = false ∧ c ∉ delims ∧ c ∈ whole

theorem AbstractValue.Within.unbroken {whole delims : List Char} {v : AbstractValue}
    (h : v.Within whole delims) (hwhole : NUL ∉ whole) : v.Unbroken delims := by
  intro s hs c hc
  have hin := h s hs c hc
  exact ⟨hin.1, fun heq => hwhole (heq ▸ hin.2.2), hin.2.1⟩

theorem ensures_recreated {whole text delims : List Char}
    (htext : ∀ c ∈ text, c ∈ whole ∧ (c ≠ DELIM_RIGHT → c ∉ delims)) :
    Ensures whole (recreated fmt text) fun v => v.Within whole delims := by
  rw [recreated]
  cases hv : recreate fmt text with
  | none => exact Ensures.fail
  | some v =>
      apply Ensures.pure
      intro s hs c hc
      subst hs
      have hin := recreate_string hv c hc
      have hc' := htext c hin.2.2
      exact ⟨hin.1, hc'.2 hin.2.1, hc'.1⟩

theorem ensures_valueWord (whole : List Char) :
    Ensures whole (readValueWord fmt) fun v => v.Within whole [DELIM_RIGHT] := by
  apply (ensures_extractWord whole).bind
  intro word hword
  apply ensures_recreated
  intro c hc
  exact ⟨(hword c hc).2, fun hne hmem => hne (List.mem_singleton.mp hmem)⟩

theorem ensures_valueLine (whole : List Char) :
    Ensures whole (readValueLine fmt) fun v =>
      v.Within whole [DELIM_RIGHT, DELIM_LIST_RIGHT] := by
  apply (ensures_ignoreTo whole _).bind
  intro _ _
  apply (ensures_ignoreTo whole _).bind
  intro _ _
  apply (ensures_getline whole _).bind
  intro line hline
  have hrecreated : Ensures whole (recreated fmt line) fun v =>
      v.Within whole [DELIM_RIGHT, DELIM_LIST_RIGHT] := by
    apply ensures_recreated
    intro c hc
    refine ⟨(hline c hc).2, ?_⟩
    intro hne hmem
    cases List.mem_cons.mp hmem with
    | inl heq => exact hne heq
    | inr hlist => exact (hline c hc).1 (List.mem_singleton.mp hlist)
  apply hrecreated.bind
  intro v hv
  apply (ensures_unget whole).bind
  intro _ _
  exact Ensures.pure hv

end Cutting
end PdesMas
