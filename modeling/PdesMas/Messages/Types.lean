import PdesMas.Messages.Serialisable

/-!
The type numbers, the enumerations and the small records that messages are made of.
-/

namespace PdesMas
open TextStream

inductive PdesmasType where
  | VALUEINT
  | VALUEDOUBLE
  | VALUEPOINT
  | VALUESTRING
  | VALUELONG
  | ENDMESSAGE
  | GVTCONTROLMESSAGE
  | GVTREQUESTMESSAGE
  | GVTVALUEMESSAGE
  | RANGEQUERYANTIMESSAGE
  | RANGEQUERYMESSAGE
  | RANGEUPDATEMESSAGE
  | ROLLBACKMESSAGE
  | SINGLEREADANTIMESSAGE
  | SINGLEREADMESSAGE
  | SINGLEREADRESPONSEMESSAGE
  | STATEMIGRATIONMESSAGE
  | WRITEANTIMESSAGE
  | WRITEMESSAGE
  | WRITERESPONSEMESSAGE
deriving DecidableEq, Repr

namespace PdesmasType

def number : PdesmasType → Nat
  | VALUEINT => 0
  | VALUEDOUBLE => 1
  | VALUEPOINT => 2
  | VALUESTRING => 3
  | VALUELONG => 4
  | ENDMESSAGE => 5
  | GVTCONTROLMESSAGE => 6
  | GVTREQUESTMESSAGE => 7
  | GVTVALUEMESSAGE => 8
  | RANGEQUERYANTIMESSAGE => 9
  | RANGEQUERYMESSAGE => 10
  | RANGEUPDATEMESSAGE => 11
  | ROLLBACKMESSAGE => 12
  | SINGLEREADANTIMESSAGE => 13
  | SINGLEREADMESSAGE => 14
  | SINGLEREADRESPONSEMESSAGE => 15
  | STATEMIGRATIONMESSAGE => 16
  | WRITEANTIMESSAGE => 17
  | WRITEMESSAGE => 18
  | WRITERESPONSEMESSAGE => 19

/-- The cases of `operator >>`. Another number leaves the variable as it is. -/
def ofNumber? (n : Int) : Option PdesmasType :=
  [VALUEINT, VALUEDOUBLE, VALUEPOINT, VALUESTRING, VALUELONG, ENDMESSAGE, GVTCONTROLMESSAGE,
    GVTREQUESTMESSAGE, GVTVALUEMESSAGE, RANGEQUERYANTIMESSAGE, RANGEQUERYMESSAGE,
    RANGEUPDATEMESSAGE, ROLLBACKMESSAGE, SINGLEREADANTIMESSAGE, SINGLEREADMESSAGE,
    SINGLEREADRESPONSEMESSAGE, STATEMIGRATIONMESSAGE, WRITEANTIMESSAGE, WRITEMESSAGE,
    WRITERESPONSEMESSAGE].find? fun type => (type.number : Int) == n

theorem ofNumber?_number (type : PdesmasType) : ofNumber? type.number = some type := by
  cases type <;> decide

/-- An enumerator is written as its number, an enumeration having no inserter of its own. -/
def serialise (type : PdesmasType) : List Char := decimal type.number

end PdesmasType

/-- The extraction of an enumeration: an int, and what the cases make of it. -/
def readEnumeration {α : Type} (cases? : Int → Option α) : Reader α := do
  let number ← extractSigned 31
  match cases? number with
  | some a => pure a
  | none => fail

def readType : Reader PdesmasType := readEnumeration PdesmasType.ofNumber?

/-- `GetTypeID`. The substring taken where there is nothing but brackets throws. -/
def getTypeID (text : List Char) : Option PdesmasType :=
  match text.dropWhile fun c => c == DELIM_LEFT with
  | [] => none
  | c :: rest => parse readType (c :: rest.takeWhile fun c => c != DELIM_VAR_SEPARATOR)

section Enumerations

def MatternColour.number : MatternColour → Nat
  | .RED => 0
  | .WHITE => 1

def MatternColour.ofNumber? (n : Int) : Option MatternColour :=
  [MatternColour.RED, .WHITE].find? fun colour => (colour.number : Int) == n

def MatternColour.serialise (colour : MatternColour) : List Char := decimal colour.number

def MatternColour.deserialise : Reader MatternColour := readEnumeration ofNumber?

def MatternCut.number : MatternCut → Nat
  | .FIRST => 0
  | .SECOND => 1

def MatternCut.ofNumber? (n : Int) : Option MatternCut :=
  [MatternCut.FIRST, .SECOND].find? fun cut => (cut.number : Int) == n

def MatternCut.serialise (cut : MatternCut) : List Char := decimal cut.number

def MatternCut.deserialise : Reader MatternCut := readEnumeration ofNumber?

def WriteStatus.number : WriteStatus → Nat
  | .writeSUCCESS => 0
  | .writeFAILURE => 1

def WriteStatus.ofNumber? (n : Int) : Option WriteStatus :=
  [WriteStatus.writeSUCCESS, .writeFAILURE].find? fun status => (status.number : Int) == n

def WriteStatus.serialise (status : WriteStatus) : List Char := decimal status.number

def WriteStatus.deserialise : Reader WriteStatus := readEnumeration ofNumber?

theorem signedDecimal_natCast (n : Nat) : signedDecimal (n : Int) = decimal n := by
  simp [signedDecimal]

theorem reads_enumeration {α : Type} {cases? : Int → Option α} {a : α} {n : Nat}
    (hcase : cases? n = some a) (hn : n < 2 ^ 31) :
    Reads Closes (readEnumeration cases?) (decimal n) a := by
  have hnumber : Reads Closes (extractSigned 31) (decimal n) (n : Int) := by
    have hread : Reads Closes (extractSigned 31) (signedDecimal (n : Int)) (n : Int) :=
      reads_signed (by omega) (by omega)
    rwa [signedDecimal_natCast] at hread
  have hwhole : Reads Closes (readEnumeration cases?) (decimal n ++ []) a := by
    apply hnumber.bind
    · exact fun tail htail => htail
    · rw [hcase]
      exact Reads.pure a
  rwa [List.append_nil] at hwhole

theorem PdesmasType.number_lt (type : PdesmasType) : type.number < 20 := by
  cases type <;> decide

theorem reads_type (type : PdesmasType) : Reads Closes readType type.serialise type := by
  have h := type.number_lt
  exact reads_enumeration type.ofNumber?_number (by omega)

theorem reads_matternColour (colour : MatternColour) :
    Reads Closes MatternColour.deserialise colour.serialise colour := by
  cases colour with
  | RED => exact reads_enumeration (by decide) (by decide)
  | WHITE => exact reads_enumeration (by decide) (by decide)

theorem reads_matternCut (cut : MatternCut) :
    Reads Closes MatternCut.deserialise cut.serialise cut := by
  cases cut with
  | FIRST => exact reads_enumeration (by decide) (by decide)
  | SECOND => exact reads_enumeration (by decide) (by decide)

theorem reads_writeStatus (status : WriteStatus) :
    Reads Closes WriteStatus.deserialise status.serialise status := by
  cases status with
  | writeSUCCESS => exact reads_enumeration (by decide) (by decide)
  | writeFAILURE => exact reads_enumeration (by decide) (by decide)

/-- With the brackets in front of it dropped a text begins with the digits of its type. -/
theorem exists_digits_of_type {lead : List Char} (hlead : ∀ c ∈ lead, c = DELIM_LEFT)
    (type : PdesmasType) (rest : List Char) :
    ∃ c digits, type.serialise = c :: digits ∧ DELIM_VAR_SEPARATOR ∉ digits ∧
      (lead ++ (type.serialise ++ DELIM_VAR_SEPARATOR :: rest)).dropWhile
        (fun d => d == DELIM_LEFT) = c :: (digits ++ DELIM_VAR_SEPARATOR :: rest) := by
  cases hd : type.serialise with
  | nil => exact absurd hd (decimal_ne_nil type.number)
  | cons c digits =>
      have hdigit : ∀ d ∈ c :: digits, d.isDigit = true := by
        intro d hmem
        rw [← hd] at hmem
        exact isDigit_of_mem_decimal hmem
      have hleft : c ≠ DELIM_LEFT := ne_of_isDigit (hdigit c List.mem_cons_self) (by decide)
      refine ⟨c, digits, rfl, fun hmem => ?_, ?_⟩
      · cases hdigit _ (List.mem_cons_of_mem c hmem)
      · rw [List.dropWhile_append_of_pos fun d hmem => by simp [hlead d hmem]]
        simp [hleft]

/-- Brackets in front of it aside, the number at the front is what `GetTypeID` finds. -/
theorem getTypeID_of_type {lead : List Char} (hlead : ∀ c ∈ lead, c = DELIM_LEFT)
    (type : PdesmasType) (rest : List Char) :
    getTypeID (lead ++ (type.serialise ++ DELIM_VAR_SEPARATOR :: rest)) = some type := by
  have hparse : parse readType type.serialise = some type := (reads_type type).parse trivial
  obtain ⟨c, digits, hd, hsep, hdrop⟩ := exists_digits_of_type hlead type rest
  rw [getTypeID, hdrop]
  simp only [takeWhile_ne_append rest hsep]
  rw [← hd, hparse]

theorem getTypeID_tuple (type : PdesmasType) (text : List Char) (texts : List (List Char)) :
    getTypeID (tuple (type.serialise :: text :: texts)) = some type := by
  have hlead : ∀ c ∈ [DELIM_LEFT], c = DELIM_LEFT := fun c hc => List.mem_singleton.mp hc
  exact getTypeID_of_type hlead type (text ++ fields texts)

end Enumerations

section Records

def serialiseSsvId (id : SsvId) : List Char := tuple [decimal id]

def deserialiseSsvId : Reader SsvId := do
  let id ← opening (extractUnsigned 64)
  ignoreTo DELIM_RIGHT
  pure id

def LpId.serialise (lp : LpId) : List Char := tuple [decimal lp.identifier, decimal lp.rank]

def LpId.deserialise : Reader LpId := do
  let identifier ← opening (extractUnsigned 64)
  let rank ← field (extractUnsigned 32)
  ignoreTo DELIM_RIGHT
  pure ⟨identifier, rank⟩

def RollbackTag.serialise (tag : RollbackTag) : List Char :=
  tuple [serialiseSsvId tag.originalSsv, decimal tag.time, signedDecimal tag.type,
    decimal tag.realTimeStamp]

def RollbackTag.deserialise : Reader RollbackTag := do
  let originalSsv ← opening deserialiseSsvId
  let time ← field (extractUnsigned 64)
  let type ← field (extractSigned 31)
  let realTimeStamp ← field (extractUnsigned 64)
  ignoreTo DELIM_RIGHT
  pure ⟨originalSsv, time, type, realTimeStamp⟩

def Point.serialise (p : Point) : List Char := tuple [signedDecimal p.x, signedDecimal p.y]

def Point.deserialise : Reader Point := do
  let x ← opening (extractSigned 31)
  let y ← field (extractSigned 31)
  ignoreTo DELIM_RIGHT
  pure ⟨x, y⟩

def Range.serialise (range : Range) : List Char :=
  tuple [range.minRangeValue.serialise, range.maxRangeValue.serialise]

def Range.deserialise : Reader Range := do
  let minRangeValue ← opening Point.deserialise
  let maxRangeValue ← field Point.deserialise
  ignoreTo DELIM_RIGHT
  pure ⟨minRangeValue, maxRangeValue⟩

/-- `Value<Point>::Serialise`. -/
def serialisePointValue (p : Point) : List Char :=
  tuple [PdesmasType.VALUEPOINT.serialise, p.serialise]

/-- `Value<Point>::Deserialise`. A value of this class is a point by its constructor, so
that there is none with another type. -/
def deserialisePointValue : Reader Point := do
  let type ← opening readType
  let p ← field Point.deserialise
  ignoreTo DELIM_RIGHT
  if type = .VALUEPOINT then pure p else fail

/-- What an `int` can hold, the least of the numbers of `width + 1` bits being negative. -/
def FitsSigned (width : Nat) (z : Int) : Prop := -(2 ^ width : Int) ≤ z ∧ z < 2 ^ width

structure LpId.InRange (lp : LpId) : Prop where
  identifier : lp.identifier < 2 ^ 64
  rank : lp.rank < 2 ^ 32

structure RollbackTag.InRange (tag : RollbackTag) : Prop where
  originalSsv : tag.originalSsv < 2 ^ 64
  time : tag.time < 2 ^ 64
  type : FitsSigned 31 tag.type
  realTimeStamp : tag.realTimeStamp < 2 ^ 64

structure Point.InRange (p : Point) : Prop where
  x : FitsSigned 31 p.x
  y : FitsSigned 31 p.y

structure Range.InRange (range : Range) : Prop where
  minRangeValue : range.minRangeValue.InRange
  maxRangeValue : range.maxRangeValue.InRange

variable {next : List Char → Prop}

theorem reads_fits {width : Nat} {z : Int} (h : FitsSigned width z) :
    Reads Closes (extractSigned width) (signedDecimal z) z := reads_signed h.1 h.2

theorem reads_ssvId {id : SsvId} (h : id < 2 ^ 64) :
    Reads next deserialiseSsvId (serialiseSsvId id) id := by
  apply reads_tuple (reads_unsigned h)
  exact reads_closing id

theorem LpId.InRange.reads {lp : LpId} (h : lp.InRange) :
    Reads next LpId.deserialise lp.serialise lp := by
  apply reads_tuple (reads_unsigned h.identifier)
  apply reads_field (reads_unsigned h.rank)
  exact reads_closing lp

theorem RollbackTag.InRange.reads {tag : RollbackTag} (h : tag.InRange) :
    Reads next RollbackTag.deserialise tag.serialise tag := by
  apply reads_tuple (reads_ssvId h.originalSsv)
  apply reads_field (reads_unsigned h.time)
  apply reads_field (reads_fits h.type)
  apply reads_field (reads_unsigned h.realTimeStamp)
  exact reads_closing tag

theorem Point.InRange.reads {p : Point} (h : p.InRange) :
    Reads next Point.deserialise p.serialise p := by
  apply reads_tuple (reads_fits h.x)
  apply reads_field (reads_fits h.y)
  exact reads_closing p

theorem Range.InRange.reads {range : Range} (h : range.InRange) :
    Reads next Range.deserialise range.serialise range := by
  apply reads_tuple h.minRangeValue.reads
  apply reads_field h.maxRangeValue.reads
  exact reads_closing range

theorem Point.InRange.reads_value {p : Point} (h : p.InRange) :
    Reads next deserialisePointValue (serialisePointValue p) p := by
  apply reads_tuple (reads_type .VALUEPOINT)
  apply reads_field h.reads
  exact reads_closing p

end Records
end PdesMas
