/-
# How documents are spelled

The same object can be written in many ways: with blanks between its parts, with characters of a
string escaped or not, with numerals that have a fraction or an exponent. What is written is a
`Scalar`, which knows the parts of its text, and an object is a list of named scalars.
`Scalar.Spells` and `Members` relate them to texts and know nothing of how texts are read.

Containers may stand in each other, to any depth. `Contents` is about the entries of one container,
whose values are any texts, and `ValueText` about texts that are values: scalars, and containers
whose entries have values.

Not every text has a value. A numeral may name a number that is too large, and a string may name
half of a surrogate pair. Both are well formed all the same.
-/

import GraphAnalytics.Json.Reader

namespace GraphAnalytics.Json

/-! ### Strings -/

/-- A part of a string: a character that stands for itself, a backslash with a character that says
what is meant, or a backslash with the letter `u` and four hexadecimal digits. -/
inductive Piece where
  | plain (c : Char)
  | escaped (mark : Char)
  | numbered (digits : List Char)
  deriving DecidableEq

/-- The character that is meant by a character behind a backslash. -/
def meantBy? : Char → Option Char
  | '"' => some '"'
  | '\\' => some '\\'
  | '/' => some '/'
  | 'b' => some '\x08'
  | 'f' => some '\x0c'
  | 'n' => some '\n'
  | 'r' => some '\r'
  | 't' => some '\t'
  | _ => none

def unitOf (digits : List Char) : Nat :=
  digits.foldl (fun n c => n * 16 + (hexValue? c).getD 0) 0

/-- The character beyond `U+FFFF` that two surrogates name. -/
def paired (high low : Nat) : Char :=
  Char.ofNat ((high - 0xD800) * 0x400 + (low - 0xDC00) + 0x10000)

namespace Piece

def text : Piece → List Char
  | plain c => [c]
  | escaped mark => ['\\', mark]
  | numbered digits => '\\' :: 'u' :: digits

/-- Quotes, backslashes and control characters do not stand for themselves, other characters are
not escaped by name, and an escape by number has four digits. -/
def WellFormed : Piece → Prop
  | plain c => 0x20 ≤ c.toNat ∧ c ≠ '"' ∧ c ≠ '\\'
  | escaped mark => (meantBy? mark).isSome
  | numbered digits => digits.length = 4 ∧ ∀ c ∈ digits, (hexValue? c).isSome

def texts (pieces : List Piece) : List Char := pieces.flatMap text

/-- What the parts of a string mean together. A high surrogate has to be followed by a low one, and
no low one may stand elsewhere. -/
def meaning? : List Piece → Option (List Char)
  | [] => some []
  | plain c :: rest => (meaning? rest).map (c :: ·)
  | escaped mark :: rest => (meantBy? mark).bind fun c => (meaning? rest).map (c :: ·)
  | numbered digits :: rest =>
      if isLow (unitOf digits) then none
      else if isHigh (unitOf digits) then
        match rest with
        | numbered low :: rest =>
            if isLow (unitOf low) then
              (meaning? rest).map (paired (unitOf digits) (unitOf low) :: ·)
            else none
        | _ => none
      else (meaning? rest).map (Char.ofNat (unitOf digits) :: ·)

end Piece

def plainly (name : String) : List Piece := name.toList.map .plain

def Plain (name : String) : Prop := ∀ c ∈ name.toList, (Piece.plain c).WellFormed

instance (name : String) : Decidable (Plain name) :=
  decidable_of_iff (name.toList.all fun c => 0x20 ≤ c.toNat ∧ c ≠ '"' ∧ c ≠ '\\')
    (by simp [Plain, Piece.WellFormed])

theorem texts_plainly (name : String) : Piece.texts (plainly name) = name.toList := by
  unfold Piece.texts plainly
  rw [List.flatMap_map]
  exact List.flatMap_singleton' _

theorem meaning_plainly (name : String) : Piece.meaning? (plainly name) = some name.toList := by
  unfold plainly
  induction name.toList with
  | nil => rfl
  | cons c cs ih => rw [List.map_cons, Piece.meaning?, ih, Option.map_some]

theorem wellFormed_plainly {name : String} (plain : Plain name) :
    ∀ piece ∈ plainly name, piece.WellFormed := by
  intro piece member
  obtain ⟨c, inside, rfl⟩ := List.mem_map.mp member
  exact plain c inside

/-! ### Numerals -/

def Digits (cs : List Char) : Prop := cs ≠ [] ∧ ∀ c ∈ cs, c.isDigit

inductive ExponentText : Option (Bool × List Char) → List Char → Prop
  | none : ExponentText none []
  | unsigned {mark : Char} {digits : List Char} (isMark : mark = 'e' ∨ mark = 'E') :
      ExponentText (some (true, digits)) (mark :: digits)
  | positive {mark : Char} {digits : List Char} (isMark : mark = 'e' ∨ mark = 'E') :
      ExponentText (some (true, digits)) (mark :: '+' :: digits)
  | negative {mark : Char} {digits : List Char} (isMark : mark = 'e' ∨ mark = 'E') :
      ExponentText (some (false, digits)) (mark :: '-' :: digits)

namespace Numeral

/-- Every part has digits, and the whole part begins with zero only if that is all of it. -/
structure WellFormed (numeral : Numeral) : Prop where
  whole : Digits numeral.whole
  leading : numeral.whole.head? = some '0' → numeral.whole.length = 1
  fraction : ∀ digits ∈ numeral.fraction, Digits digits
  exponent : ∀ positive digits, numeral.exponent = some (positive, digits) → Digits digits

def fractionText : Option (List Char) → List Char
  | none => []
  | some digits => '.' :: digits

def Spells (numeral : Numeral) (text : List Char) : Prop :=
  ∃ exponent, ExponentText numeral.exponent exponent ∧
    text = numeral.whole ++ (fractionText numeral.fraction ++ exponent)

end Numeral

/-! ### Scalars -/

/-- A value that is no container, as it is written. -/
inductive Scalar where
  | null
  | truth (b : Bool)
  | number (negative : Bool) (numeral : Numeral)
  | text (pieces : List Piece)

namespace Scalar

def truthText : Bool → List Char
  | true => ['t', 'r', 'u', 'e']
  | false => ['f', 'a', 'l', 's', 'e']

def signText : Bool → List Char
  | true => ['-']
  | false => []

inductive Spells : Scalar → List Char → Prop
  | null : Spells null ['n', 'u', 'l', 'l']
  | truth (b : Bool) : Spells (truth b) (truthText b)
  | number (negative : Bool) {numeral : Numeral} {text : List Char}
      (wellFormed : numeral.WellFormed) (spells : numeral.Spells text) :
      Spells (number negative numeral) (signText negative ++ text)
  | text {pieces : List Piece} (wellFormed : ∀ piece ∈ pieces, piece.WellFormed) :
      Spells (text pieces) ('"' :: (Piece.texts pieces ++ ['"']))

def value : Scalar → Except Flaw Value
  | null => .ok .null
  | truth b => .ok (.truth b)
  | number negative numeral => (numeral.value negative).map .number
  | text pieces =>
      match Piece.meaning? pieces with
      | some cs => .ok (.text (String.ofList cs))
      | none => .error .malformed

/-- The scalar has a value: it is not a number that is too large or half of a surrogate pair. -/
def HasValue (scalar : Scalar) : Prop := scalar.value.isOk = true

instance (scalar : Scalar) : Decidable scalar.HasValue :=
  inferInstanceAs (Decidable (scalar.value.isOk = true))

def ofNat (n : Nat) : Scalar := number false ⟨Nat.toDigits 10 n, none, none⟩

end Scalar

/-! ### Objects -/

/-- Characters between the parts of a document. -/
def Blank (cs : List Char) : Prop := ∀ c ∈ cs, isBlank c

theorem blank_nil : Blank [] := nofun

/-- What separates an entry of a container from the one before it. -/
inductive Separator : (first : Bool) → List Char → Prop
  | first : Separator true []
  | later {blank : List Char} (isBlank : Blank blank) : Separator false (',' :: blank)

/-- The text writes entries of an object up to its closing brace. -/
inductive Members : (first : Bool) → List (String × Scalar) → List Char → Prop
  | close {first : Bool} {before : List Char} (isBlank : Blank before) :
      Members first [] (before ++ ['\x7d'])
  | entry {first : Bool} {name : String} {scalar : Scalar} {entries : List (String × Scalar)}
      {before separator gap lead spelling rest : List Char} {pieces : List Piece}
      (blankBefore : Blank before) (separates : Separator first separator)
      (wellFormed : ∀ piece ∈ pieces, piece.WellFormed)
      (meaning : Piece.meaning? pieces = some name.toList) (blankGap : Blank gap)
      (blankLead : Blank lead) (spells : scalar.Spells spelling)
      (others : Members false entries rest) :
      Members first ((name, scalar) :: entries)
        (before ++ (separator ++ ('"' :: (Piece.texts pieces ++
          ('"' :: (gap ++ (':' :: (lead ++ (spelling ++ rest)))))))))

/-- The text writes an object with the given entries. -/
inductive Writes : List (String × Scalar) → List Char → Prop
  | object {entries : List (String × Scalar)} {before body after : List Char}
      (blankBefore : Blank before) (members : Members true entries body)
      (blankAfter : Blank after) : Writes entries (before ++ ('\x7b' :: (body ++ after)))

def comma : (first : Bool) → List Char
  | true => []
  | false => [',']

theorem separator_comma (first : Bool) : Separator first (comma first) := by
  cases first with
  | true => exact .first
  | false => exact .later blank_nil

/-- An entry without blanks whose name stands for itself. -/
theorem Members.compact (first : Bool) {name : String} (plain : Plain name) {scalar : Scalar}
    {spelling : List Char} (spells : scalar.Spells spelling) {entries : List (String × Scalar)}
    {rest : List Char} (others : Members false entries rest) :
    Members first ((name, scalar) :: entries)
      (comma first ++ ('"' :: (name.toList ++ ('"' :: (':' :: (spelling ++ rest)))))) := by
  rw [← texts_plainly name]
  exact .entry blank_nil (separator_comma first) (wellFormed_plainly plain) (meaning_plainly name)
    blank_nil blank_nil spells others

theorem Members.compactClose (first : Bool) : Members first [] ['\x7d'] := .close blank_nil

theorem Writes.compact {entries : List (String × Scalar)} {body : List Char}
    (members : Members true entries body) : Writes entries ('\x7b' :: body) := by
  rw [← List.append_nil body]
  exact .object blank_nil members blank_nil

theorem Scalar.spells_plainly {name : String} (plain : Plain name) :
    (Scalar.text (plainly name)).Spells ('"' :: (name.toList ++ ['"'])) := by
  rw [← texts_plainly name]
  exact .text (wellFormed_plainly plain)

/-! ### Containers -/

def Bracket.opening : Bracket → Char
  | array => '['
  | object => '\x7b'

/-- The text stands in front of the value of an entry: the name and a colon in an object, and
nothing in an array. -/
inductive NameText : Bracket → List Piece → List Char → Prop
  | element : NameText .array [] []
  | name {pieces : List Piece} {gap : List Char} (wellFormed : ∀ piece ∈ pieces, piece.WellFormed)
      (blankGap : Blank gap) :
      NameText .object pieces ('"' :: (Piece.texts pieces ++ ('"' :: (gap ++ [':']))))

/-- The text writes entries of a container up to its closing bracket. An entry is the parts of its
name and the text of its value. -/
inductive Contents (bracket : Bracket) :
    (first : Bool) → List (List Piece × List Char) → List Char → Prop
  | close {first : Bool} {before : List Char} (isBlank : Blank before) :
      Contents bracket first [] (before ++ [bracket.closing])
  | entry {first : Bool} {pieces : List Piece} {value : List Char}
      {entries : List (List Piece × List Char)} {before separator name lead rest : List Char}
      (blankBefore : Blank before) (separates : Separator first separator)
      (named : NameText bracket pieces name) (blankLead : Blank lead)
      (others : Contents bracket false entries rest) :
      Contents bracket first ((pieces, value) :: entries)
        (before ++ (separator ++ (name ++ (lead ++ (value ++ rest)))))

/-- The text is a well-formed value: a scalar, or a container whose entries have well-formed values.
Names need not be different, and neither they nor scalars need to mean anything. -/
inductive ValueText : List Char → Prop
  | scalar {scalar : Scalar} {text : List Char} (spells : scalar.Spells text) : ValueText text
  | container {bracket : Bracket} {entries : List (List Piece × List Char)} {body : List Char}
      (contents : Contents bracket true entries body)
      (values : ∀ entry ∈ entries, ValueText entry.2) : ValueText (bracket.opening :: body)

/-- An entry of an object without blanks whose name stands for itself. -/
theorem Contents.compact (first : Bool) {name : String} (plain : Plain name) (value : List Char)
    {entries : List (List Piece × List Char)} {rest : List Char}
    (others : Contents .object false entries rest) :
    Contents .object first ((plainly name, value) :: entries)
      (comma first ++ ('"' :: (name.toList ++ ('"' :: (':' :: (value ++ rest)))))) := by
  have entry : Contents .object first ((plainly name, value) :: entries) _ :=
    .entry blank_nil (separator_comma first) (.name (wellFormed_plainly plain) blank_nil) blank_nil
      others
  simpa only [texts_plainly, List.nil_append, List.cons_append, List.append_assoc] using entry

theorem Contents.compactClose (bracket : Bracket) (first : Bool) :
    Contents bracket first [] [bracket.closing] := .close blank_nil

end GraphAnalytics.Json
