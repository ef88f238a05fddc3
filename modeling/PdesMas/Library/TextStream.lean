import Mathlib.Algebra.Group.Int.Defs
import Mathlib.Algebra.Group.Nat.Defs
import Mathlib.Data.List.TakeWhile
import Mathlib.Tactic.Common

/-!
Formatted input from a text, in the manner of the standard streams: skipping to a
delimiter, numbers, words, lines and putting a character back. A reader has no
result where an extraction fails, since what its variable then holds is not
determined by the text.

There are two kinds of rule. `Reads` says what a reader makes of a text that was
written for it; `Ensures` says what holds of every result, whatever the text.
-/

namespace TextStream

structure Istream where
  /-- What has been read, the last character first. -/
  taken : List Char
  rest : List Char

namespace Istream

def start (text : List Char) : Istream := ⟨[], text⟩

def advance (s : Istream) (n : Nat) : Istream :=
  ⟨(s.rest.take n).reverse ++ s.taken, s.rest.drop n⟩

/-- The text the stream was made from. -/
def whole (s : Istream) : List Char := s.taken.reverse ++ s.rest

@[simp] theorem whole_start (text : List Char) : (start text).whole = text := rfl

@[simp] theorem whole_advance (s : Istream) (n : Nat) : (s.advance n).whole = s.whole := by
  simp [whole, advance]

theorem advance_append (taken text tail : List Char) :
    (Istream.mk taken (text ++ tail)).advance text.length = ⟨text.reverse ++ taken, tail⟩ := by
  simp [advance]

theorem mem_whole_of_mem_rest {s : Istream} {c : Char} (h : c ∈ s.rest) : c ∈ s.whole :=
  List.mem_append_right _ h

end Istream

abbrev Reader (α : Type) := StateT Istream Option α

section Primitives

def isSpace (c : Char) : Bool := c.toNat == 32 || (decide (9 ≤ c.toNat) && decide (c.toNat ≤ 13))

def fail {α : Type} : Reader α := fun _ => none

def readWhile (p : Char → Bool) : Reader (List Char) := fun s =>
  some (s.rest.takeWhile p, s.advance (s.rest.takeWhile p).length)

/-- Drops everything up to the first `delim` and that itself, or all there is. -/
def ignoreTo (delim : Char) : Reader Unit := fun s =>
  some ((), s.advance ((s.rest.takeWhile fun c => c != delim).length + 1))

/-- The text in front of the first `delim`, which is dropped. -/
def getline (delim : Char) : Reader (List Char) := fun s =>
  if s.rest = [] then none
  else
    let line := s.rest.takeWhile fun c => c != delim
    some (line, s.advance (line.length + 1))

def unget : Reader Unit := fun s =>
  match s.taken with
  | [] => none
  | c :: taken => some ((), ⟨taken, c :: s.rest⟩)

def extractWord : Reader (List Char) := do
  let _ ← readWhile isSpace
  let word ← readWhile fun c => !isSpace c
  if word = [] then fail else pure word

/-- An optional sign; true for a minus. -/
def readSign : Reader Bool := fun s =>
  match s.rest with
  | '-' :: _ => some (true, s.advance 1)
  | '+' :: _ => some (false, s.advance 1)
  | _ => some (false, s)

/-- The sign and the magnitude of a decimal number. -/
def extractNumber : Reader (Bool × Nat) := do
  let _ ← readWhile isSpace
  let negative ← readSign
  let digits ← readWhile Char.isDigit
  if digits = [] then fail else pure (negative, Nat.ofDigitChars 10 digits 0)

/-- Into an unsigned variable of `width` bits, which a minus sign makes wrap. -/
def extractUnsigned (width : Nat) : Reader Nat := do
  let number ← extractNumber
  if number.2 < 2 ^ width then
    pure (if number.1 then (2 ^ width - number.2) % 2 ^ width else number.2)
  else fail

/-- Into a signed variable of `width + 1` bits. -/
def extractSigned (width : Nat) : Reader Int := do
  let number ← extractNumber
  if number.1 then
    if number.2 ≤ 2 ^ width then pure (-(number.2 : Int)) else fail
  else
    if number.2 < 2 ^ width then pure (number.2 : Int) else fail

def decimal (n : Nat) : List Char := Nat.toDigits 10 n

def signedDecimal (z : Int) : List Char :=
  if z < 0 then '-' :: decimal z.natAbs else decimal z.natAbs

end Primitives

section Running

variable {α β : Type}

theorem bind_apply (r : Reader α) (k : α → Reader β) (s : Istream) :
    (r >>= k) s = (r s).bind fun out => k out.1 out.2 := rfl

theorem pure_apply (a : α) (s : Istream) : (pure a : Reader α) s = some (a, s) := rfl

/-- What a reader makes of a text of its own, as `Helper::stream_cast` does. -/
def parse (r : Reader α) (text : List Char) : Option α := (r (.start text)).map Prod.fst

end Running

section Reads

variable {α β : Type}

/-- The text does not begin with a digit, so that a number in front of it ends there. -/
def Closes : List Char → Prop
  | [] => True
  | c :: _ => c.isDigit = false

def AtEnd (tail : List Char) : Prop := tail = []

def Before (delim : Char) (tail : List Char) : Prop := ∃ more, tail = delim :: more

/-- In front of a text that satisfies `next`, the reader takes `text` for `a` and stops
behind it. -/
def Reads (next : List Char → Prop) (r : Reader α) (text : List Char) (a : α) : Prop :=
  ∀ taken tail, next tail → r ⟨taken, text ++ tail⟩ = some (a, ⟨text.reverse ++ taken, tail⟩)

variable {next : List Char → Prop}

theorem Reads.mono {next' : List Char → Prop} {r : Reader α} {text : List Char} {a : α}
    (h : Reads next r text a) (hnext : ∀ tail, next' tail → next tail) :
    Reads next' r text a := by
  intro taken tail htail
  exact h taken tail (hnext tail htail)

theorem Reads.parse {r : Reader α} {text : List Char} {a : α} (h : Reads next r text a)
    (hnext : next []) : parse r text = some a := by
  have hread := h [] [] hnext
  rw [List.append_nil] at hread
  simp [TextStream.parse, Istream.start, hread]

theorem closes_of_before {delim : Char} (h : delim.isDigit = false) {tail : List Char}
    (ht : Before delim tail) : Closes tail := by
  cases ht with
  | intro more hmore =>
      subst hmore
      exact h

theorem Reads.pure (a : α) : Reads next (pure a) [] a := by
  intro taken tail _
  rfl

theorem Reads.bind {next' : List Char → Prop} {r : Reader α} {k : α → Reader β}
    {text more : List Char} {a : α} {b : β} (h : Reads next r text a)
    (hmore : ∀ tail, next' tail → next (more ++ tail)) (hk : Reads next' (k a) more b) :
    Reads next' (r >>= k) (text ++ more) b := by
  intro taken tail htail
  have hr := h taken (more ++ tail) (hmore tail htail)
  rw [List.append_assoc, bind_apply, hr, Option.bind_some, hk _ tail htail]
  simp

theorem takeWhile_append_of_forall {p : Char → Bool} {text tail : List Char}
    (h : ∀ c ∈ text, p c = true) (ht : ∀ c ∈ tail.head?, p c = false) :
    (text ++ tail).takeWhile p = text := by
  rw [List.takeWhile_append_of_pos h]
  cases tail with
  | nil => simp
  | cons c tail => simp [ht c rfl]

theorem readWhile_append {p : Char → Bool} {text tail : List Char} (taken : List Char)
    (h : ∀ c ∈ text, p c = true) (ht : ∀ c ∈ tail.head?, p c = false) :
    readWhile p ⟨taken, text ++ tail⟩ = some (text, ⟨text.reverse ++ taken, tail⟩) := by
  simp only [readWhile, takeWhile_append_of_forall h ht, Istream.advance_append]

theorem takeWhile_ne_append {delim : Char} {text : List Char} (tail : List Char)
    (h : delim ∉ text) : (text ++ delim :: tail).takeWhile (fun c => c != delim) = text := by
  apply takeWhile_append_of_forall
  · intro c hc
    simpa using fun he : c = delim => h (he ▸ hc)
  · simp

theorem Istream.advance_past (taken text tail : List Char) (c : Char) :
    (Istream.mk taken (text ++ c :: tail)).advance (text.length + 1) =
      ⟨c :: (text.reverse ++ taken), tail⟩ := by
  have h := Istream.advance_append taken (text ++ [c]) tail
  simpa using h

theorem ignoreTo_append {delim : Char} {skipped : List Char} (taken tail : List Char)
    (h : delim ∉ skipped) :
    ignoreTo delim ⟨taken, skipped ++ delim :: tail⟩ =
      some ((), ⟨delim :: (skipped.reverse ++ taken), tail⟩) := by
  simp only [ignoreTo, takeWhile_ne_append tail h, Istream.advance_past]

/-- What does not hold the delimiter may as well have been read already. -/
theorem ignoreTo_skipped {delim : Char} {skipped : List Char} (taken tail : List Char)
    (h : delim ∉ skipped) :
    ignoreTo delim ⟨taken, skipped ++ delim :: tail⟩ =
      ignoreTo delim ⟨skipped.reverse ++ taken, delim :: tail⟩ := by
  have hnil : delim ∉ ([] : List Char) := List.not_mem_nil
  have hread := ignoreTo_append (skipped.reverse ++ taken) tail hnil
  rw [ignoreTo_append taken tail h]
  exact hread.symm

theorem getline_append {delim : Char} {line : List Char} (taken tail : List Char)
    (h : delim ∉ line) :
    getline delim ⟨taken, line ++ delim :: tail⟩ =
      some (line, ⟨delim :: (line.reverse ++ taken), tail⟩) := by
  have hne : line ++ delim :: tail ≠ [] := by simp
  simp only [getline, if_neg hne, takeWhile_ne_append tail h, Istream.advance_past]

/-- Skipping to a delimiter that is not among what comes first. -/
theorem reads_ignoreTo {delim : Char} {skipped : List Char} (h : delim ∉ skipped) :
    Reads next (ignoreTo delim) (skipped ++ [delim]) () := by
  intro taken tail _
  rw [List.append_assoc]
  simp [ignoreTo_append taken tail h]

theorem reads_ignoreTo_atEnd (delim : Char) : Reads AtEnd (ignoreTo delim) [] () := by
  intro taken tail htail
  cases htail
  rfl

theorem decimal_ne_nil (n : Nat) : decimal n ≠ [] := Nat.toDigits_ne_nil

theorem isDigit_of_mem_decimal {n : Nat} {c : Char} (h : c ∈ decimal n) : c.isDigit = true :=
  Nat.isDigit_of_mem_toDigits (by decide) (by decide) h

theorem ne_of_isDigit {c d : Char} (hc : c.isDigit = true) (hd : d.isDigit = false) : c ≠ d := by
  intro h
  rw [h, hd] at hc
  cases hc

theorem isSpace_of_isDigit {c : Char} (h : c.isDigit = true) : isSpace c = false := by
  simp only [Char.isDigit, Bool.and_eq_true, decide_eq_true_eq] at h
  have h1 : 48 ≤ c.toNat := h.1
  simp only [isSpace, Bool.or_eq_false_iff, Bool.and_eq_false_iff, beq_eq_false_iff_ne,
    decide_eq_false_iff_not]
  omega

theorem extractDigits_append {n : Nat} (taken : List Char) {tail : List Char}
    (htail : Closes tail) :
    readWhile Char.isDigit ⟨taken, decimal n ++ tail⟩ =
      some (decimal n, ⟨(decimal n).reverse ++ taken, tail⟩) := by
  apply readWhile_append taken
  · intro c hc
    exact isDigit_of_mem_decimal hc
  · cases tail with
    | nil => simp
    | cons c tail => simpa [Closes] using htail

theorem readWhile_none {p : Char → Bool} {c : Char} (taken rest : List Char) (h : p c = false) :
    readWhile p ⟨taken, c :: rest⟩ = some ([], ⟨taken, c :: rest⟩) := by
  have hread : readWhile p ⟨taken, [] ++ c :: rest⟩ =
      some ([], ⟨[].reverse ++ taken, c :: rest⟩) :=
    readWhile_append taken (by simp) (by simpa using h)
  simpa using hread

/-- A word is the whole of a text without whitespace. -/
theorem reads_word {word : List Char} (h : ∀ c ∈ word, isSpace c = false) (hne : word ≠ []) :
    Reads AtEnd extractWord word word := by
  intro taken tail htail
  cases htail
  cases word with
  | nil => exact absurd rfl hne
  | cons c word =>
      have hskip := readWhile_none (p := isSpace) taken (word ++ []) (h c List.mem_cons_self)
      have hread : readWhile (fun c => !isSpace c) ⟨taken, c :: word ++ []⟩ =
          some (c :: word, ⟨(c :: word).reverse ++ taken, []⟩) :=
        readWhile_append taken (fun d hd => by simp [h d hd]) (by simp)
      rw [List.cons_append] at hread
      simp only [extractWord, bind_apply, List.cons_append, hskip, Option.bind_some, hread,
        if_neg hne, pure_apply]

theorem readSign_digit {c : Char} (taken rest : List Char) (h : c.isDigit = true) :
    readSign ⟨taken, c :: rest⟩ = some (false, ⟨taken, c :: rest⟩) := by
  unfold readSign
  split
  · rename_i hc
    cases hc
    cases h
  · rename_i hc
    cases hc
    cases h
  · rfl

theorem reads_number (n : Nat) : Reads Closes extractNumber (decimal n) (false, n) := by
  intro taken tail htail
  cases hd : decimal n with
  | nil => exact absurd hd (decimal_ne_nil n)
  | cons c digits =>
      have hc : c.isDigit = true := by
        apply isDigit_of_mem_decimal (n := n)
        rw [hd]
        exact List.mem_cons_self
      have hread := extractDigits_append (n := n) taken htail
      rw [hd, List.cons_append] at hread
      simp only [extractNumber, bind_apply, List.cons_append,
        readWhile_none taken _ (isSpace_of_isDigit hc), Option.bind_some,
        readSign_digit taken _ hc, hread]
      rw [← hd, if_neg (decimal_ne_nil n), decimal, Nat.ofDigitChars_ten_toDigits]
      rfl

theorem reads_negative (n : Nat) : Reads Closes extractNumber ('-' :: decimal n) (true, n) := by
  intro taken tail htail
  have hread := extractDigits_append (n := n) ('-' :: taken) htail
  have hsign : readSign ⟨taken, '-' :: (decimal n ++ tail)⟩ =
      some (true, ⟨'-' :: taken, decimal n ++ tail⟩) := rfl
  simp only [extractNumber, bind_apply, List.cons_append, readWhile_none taken _
    (show isSpace '-' = false by decide), Option.bind_some, hsign, hread]
  rw [if_neg (decimal_ne_nil n), decimal, Nat.ofDigitChars_ten_toDigits]
  simp [pure_apply]

theorem reads_unsigned {width n : Nat} (h : n < 2 ^ width) :
    Reads Closes (extractUnsigned width) (decimal n) n := by
  intro taken tail htail
  simp [extractUnsigned, bind_apply, reads_number n taken tail htail, h, pure_apply]

theorem reads_signed {width : Nat} {z : Int} (hlow : -(2 ^ width : Int) ≤ z)
    (hhigh : z < 2 ^ width) : Reads Closes (extractSigned width) (signedDecimal z) z := by
  intro taken tail htail
  have hcast : ((2 ^ width : Nat) : Int) = 2 ^ width := by simp
  by_cases hz : z < 0
  · have habs : z.natAbs ≤ 2 ^ width := by omega
    have hneg : -((z.natAbs : Nat) : Int) = z := by omega
    simp only [signedDecimal, hz, if_true]
    simp only [extractSigned, bind_apply, reads_negative z.natAbs taken tail htail,
      Option.bind_some, if_true, habs, hneg, pure_apply]
  · have habs : z.natAbs < 2 ^ width := by omega
    have hpos : ((z.natAbs : Nat) : Int) = z := by omega
    simp only [signedDecimal, hz, if_false]
    simp only [extractSigned, bind_apply, reads_number z.natAbs taken tail htail,
      Option.bind_some, Bool.false_eq_true, if_false, habs, if_true, hpos, pure_apply]

end Reads

section Ensures

variable {α β : Type}

/-- Every result the reader has on a stream over `text` satisfies `P`. -/
def Ensures (text : List Char) (r : Reader α) (P : α → Prop) : Prop :=
  ∀ s, s.whole = text → ∀ a s', r s = some (a, s') → s'.whole = text ∧ P a

theorem Ensures.parse {text : List Char} {r : Reader α} {P : α → Prop} {a : α}
    (h : Ensures text r P) (ha : parse r text = some a) : P a := by
  cases Option.map_eq_some_iff.mp ha with
  | intro out hout =>
      have hread : r (.start text) = some (a, out.2) := by rw [hout.1, ← hout.2]
      exact (h (.start text) rfl a out.2 hread).2

theorem Ensures.mono {text : List Char} {r : Reader α} {P Q : α → Prop} (h : Ensures text r P)
    (hPQ : ∀ a, P a → Q a) : Ensures text r Q := by
  intro s hs a s' hr
  have hout := h s hs a s' hr
  exact ⟨hout.1, hPQ a hout.2⟩

theorem Ensures.pure {text : List Char} {P : α → Prop} {a : α} (h : P a) :
    Ensures text (pure a) P := by
  intro s hs b s' hr
  cases hr
  exact ⟨hs, h⟩

theorem Ensures.fail {text : List Char} {P : α → Prop} : Ensures text (fail : Reader α) P := by
  intro s _ a s' hr
  cases hr

theorem Ensures.bind {text : List Char} {r : Reader α} {k : α → Reader β} {P : α → Prop}
    {Q : β → Prop} (h : Ensures text r P) (hk : ∀ a, P a → Ensures text (k a) Q) :
    Ensures text (r >>= k) Q := by
  intro s hs b s' hr
  rw [bind_apply] at hr
  cases hout : r s with
  | none =>
      rw [hout] at hr
      cases hr
  | some out =>
      rw [hout] at hr
      have hmid := h s hs out.1 out.2 hout
      exact hk out.1 hmid.2 out.2 hmid.1 b s' hr

theorem Ensures.ite {text : List Char} {r r' : Reader α} {c : Prop} [Decidable c] {P : α → Prop}
    (h : c → Ensures text r P) (h' : ¬ c → Ensures text r' P) :
    Ensures text (if c then r else r') P := by
  by_cases hc : c
  · rw [if_pos hc]
    exact h hc
  · rw [if_neg hc]
    exact h' hc

theorem ensures_readWhile (text : List Char) (p : Char → Bool) :
    Ensures text (readWhile p) fun word => ∀ c ∈ word, p c = true ∧ c ∈ text := by
  intro s hs word s' hr
  cases hr
  refine ⟨by simpa using hs, ?_⟩
  intro c hc
  have hin := List.mem_takeWhile_imp hc
  exact ⟨hin, hs ▸ s.mem_whole_of_mem_rest ((List.takeWhile_prefix p).subset hc)⟩

theorem ensures_ignoreTo (text : List Char) (delim : Char) :
    Ensures text (ignoreTo delim) fun _ => True := by
  intro s hs _ s' hr
  cases hr
  exact ⟨by simpa using hs, trivial⟩

theorem ensures_getline (text : List Char) (delim : Char) :
    Ensures text (getline delim) fun line => ∀ c ∈ line, c ≠ delim ∧ c ∈ text := by
  intro s hs line s' hr
  simp only [getline] at hr
  split at hr
  · cases hr
  · cases hr
    refine ⟨by simpa using hs, ?_⟩
    intro c hc
    have hin := List.mem_takeWhile_imp (p := fun c => c != delim) hc
    exact ⟨by simpa using hin,
      hs ▸ s.mem_whole_of_mem_rest ((List.takeWhile_prefix _).subset hc)⟩

theorem ensures_unget (text : List Char) : Ensures text unget fun _ => True := by
  intro s hs _ s' hr
  cases s with
  | mk taken rest =>
      cases taken with
      | nil => cases hr
      | cons c taken =>
          cases hr
          exact ⟨by simpa [Istream.whole] using hs, trivial⟩

theorem ensures_readSign (text : List Char) : Ensures text readSign fun _ => True := by
  intro s hs _ s' hr
  simp only [readSign] at hr
  split at hr <;> cases hr
  · exact ⟨by simpa using hs, trivial⟩
  · exact ⟨by simpa using hs, trivial⟩
  · exact ⟨hs, trivial⟩

theorem ensures_extractWord (text : List Char) :
    Ensures text extractWord fun word => ∀ c ∈ word, isSpace c = false ∧ c ∈ text := by
  apply (ensures_readWhile text isSpace).bind
  intro _ _
  apply (ensures_readWhile text fun c => !isSpace c).bind
  intro word hword
  apply Ensures.ite
  · exact fun _ => Ensures.fail
  · intro _
    apply Ensures.pure
    intro c hc
    simpa using hword c hc

theorem ensures_extractNumber (text : List Char) : Ensures text extractNumber fun _ => True := by
  apply (ensures_readWhile text isSpace).bind
  intro _ _
  apply (ensures_readSign text).bind
  intro _ _
  apply (ensures_readWhile text Char.isDigit).bind
  intro digits _
  exact Ensures.ite (fun _ => Ensures.fail) fun _ => Ensures.pure trivial

theorem ensures_extractUnsigned (text : List Char) (width : Nat) :
    Ensures text (extractUnsigned width) fun n => n < 2 ^ width := by
  apply (ensures_extractNumber text).bind
  intro number _
  apply Ensures.ite
  · intro h
    apply Ensures.pure
    split
    · exact Nat.mod_lt _ (Nat.two_pow_pos width)
    · exact h
  · exact fun _ => Ensures.fail

theorem ensures_extractSigned (text : List Char) (width : Nat) :
    Ensures text (extractSigned width) fun _ => True := by
  apply (ensures_extractNumber text).bind
  intro number _
  apply Ensures.ite
  · intro _
    exact Ensures.ite (fun _ => Ensures.pure trivial) fun _ => Ensures.fail
  · intro _
    exact Ensures.ite (fun _ => Ensures.pure trivial) fun _ => Ensures.fail

end Ensures
end TextStream
