/-
# Readers read what is spelled

Whatever way a string, a numeral or a scalar is written, a reader takes exactly its text off the
head of what it is given, as long as no more of the same follows. Where the value is needed it
answers the value or, if there is none, that the text is malformed (`scalar?_exact`). Where it is
not needed the text is passed over in any case (`scalar?_skim`).
-/

import GraphAnalytics.Proofs.Json.Spelling
import Mathlib.Data.List.TakeDrop

namespace GraphAnalytics.Json

/-! ### Strings -/

theorem length_le_utf8ByteSize (cs : List Char) : cs.length ≤ (String.ofList cs).utf8ByteSize := by
  induction cs with
  | nil => exact Nat.zero_le _
  | cons c cs ih =>
      have split : String.ofList (c :: cs) = String.singleton c ++ String.ofList cs := by
        rw [String.singleton_eq_ofList, ← String.ofList_append]
        rfl
      have positive := c.utf8Size_pos
      rw [split, String.utf8ByteSize_append, String.utf8ByteSize_singleton, List.length_cons]
      omega

/-- Hexadecimal digits have values, and these are what the number is made of. -/
theorem mapM_hexValue {digits : List Char} (hex : ∀ c ∈ digits, (hexValue? c).isSome) :
    digits.mapM hexValue? = some (digits.map fun c => (hexValue? c).getD 0) := by
  induction digits with
  | nil => rfl
  | cons c digits ih =>
      obtain ⟨value, known⟩ := Option.isSome_iff_exists.mp (hex c List.mem_cons_self)
      rw [List.mapM_cons, known, ih fun d member => hex d (List.mem_cons_of_mem c member),
        List.map_cons, known]
      rfl

theorem hexUnit_append {digits : List Char} (four : digits.length = 4)
    (hex : ∀ c ∈ digits, (hexValue? c).isSome) (rest : List Char) :
    hexUnit (digits ++ rest) = .ok (unitOf digits, rest) := by
  have taken : (digits ++ rest).take 4 = digits := by rw [← four, List.take_left']; rfl
  have dropped : (digits ++ rest).drop 4 = rest := by rw [← four, List.drop_left']; rfl
  have bytes := length_le_utf8ByteSize digits
  unfold hexUnit
  rw [taken, dropped, if_neg (by omega), mapM_hexValue hex]
  simp only [List.length_map, four, if_true, List.foldl_map]
  rfl

theorem escapeSequence_mark (care : Care) {mark c : Char} (meant : meantBy? mark = some c)
    (rest : List Char) : escapeSequence care (mark :: rest) = .ok (c, rest) := by
  unfold meantBy? at meant
  split at meant <;> cases meant <;> rfl

theorem texts_plain (c : Char) (others : List Piece) (rest : List Char) :
    Piece.texts (.plain c :: others) ++ rest = c :: (Piece.texts others ++ rest) := rfl

theorem texts_escaped (mark : Char) (others : List Piece) (rest : List Char) :
    Piece.texts (.escaped mark :: others) ++ rest =
      '\\' :: mark :: (Piece.texts others ++ rest) := rfl

theorem texts_numbered (digits : List Char) (others : List Piece) (rest : List Char) :
    Piece.texts (.numbered digits :: others) ++ rest =
      '\\' :: 'u' :: (digits ++ (Piece.texts others ++ rest)) := by
  simp [Piece.texts, Piece.text]

/-- What begins with a part of a string or with the quote behind it is no low surrogate, unless the
part is one. -/
theorem lowUnit_texts {pieces : List Piece} (wellFormed : ∀ piece ∈ pieces, piece.WellFormed)
    (rest : List Char) :
    lowUnit (Piece.texts pieces ++ '"' :: rest) =
      match pieces with
      | .numbered digits :: others =>
          if isLow (unitOf digits) then .ok (unitOf digits, Piece.texts others ++ '"' :: rest)
          else .error .malformed
      | _ => .error .malformed := by
  cases pieces with
  | nil => rfl
  | cons piece others =>
      have formed := wellFormed piece List.mem_cons_self
      cases piece with
      | plain c =>
          obtain ⟨-, -, unescaped⟩ := formed
          simp only [Piece.texts, List.flatMap_cons, Piece.text, List.cons_append, List.nil_append]
          unfold lowUnit
          split <;> simp_all
      | escaped mark =>
          have unnumbered : mark ≠ 'u' := by
            rintro rfl
            simp [Piece.WellFormed, meantBy?] at formed
          simp only [Piece.texts, List.flatMap_cons, Piece.text, List.cons_append, List.nil_append]
          unfold lowUnit
          split <;> simp_all
      | numbered digits =>
          simp only [Piece.texts, List.flatMap_cons, Piece.text, List.cons_append,
            List.append_assoc, lowUnit, hexUnit_append formed.1 formed.2]
          rfl

theorem charactersWithin_plain (care : Care) {c : Char} (formed : (Piece.plain c).WellFormed)
    (x : Char) (fuel taken cs : List Char) :
    charactersWithin care (x :: fuel) taken (c :: cs) =
      charactersWithin care fuel (c :: taken) cs := by
  obtain ⟨printable, unquoted, unescaped⟩ := formed
  rw [charactersWithin, if_neg (by omega)]
  · exact fun quoted => unquoted quoted
  · exact fun escaped => unescaped escaped

theorem charactersWithin_escape (care : Care) (x : Char) (fuel taken cs : List Char) :
    charactersWithin care (x :: fuel) taken ('\\' :: cs) =
      (escapeSequence care cs).bind fun read =>
        charactersWithin care fuel (read.1 :: taken) read.2 := rfl

theorem charactersWithin_escaped (care : Care) {mark c : Char} (meant : meantBy? mark = some c)
    (x : Char) (fuel taken : List Char) (others : List Piece) (rest : List Char) :
    charactersWithin care (x :: fuel) taken (Piece.texts (.escaped mark :: others) ++ rest) =
      charactersWithin care fuel (c :: taken) (Piece.texts others ++ rest) := by
  rw [texts_escaped, charactersWithin_escape, escapeSequence_mark care meant]
  rfl

/-- The reading of an escape by number whose digits have been read. -/
def readUnit (care : Care) (unit : Nat) (cs : List Char) : Except Flaw (Char × List Char) :=
  match care with
  | .skim => .ok (Char.ofNat unit, cs)
  | .exact =>
      if isLow unit then .error .malformed
      else if isHigh unit then (lowUnit cs).map fun read => (paired unit read.1, read.2)
      else .ok (Char.ofNat unit, cs)

theorem escapeSequence_numbered (care : Care) {digits : List Char}
    (formed : (Piece.numbered digits).WellFormed) (cs : List Char) :
    escapeSequence care ('u' :: (digits ++ cs)) = readUnit care (unitOf digits) cs := by
  rw [escapeSequence, numberedEscape, hexUnit_append formed.1 formed.2]
  cases care with
  | skim => rfl
  | exact =>
      simp only [readUnit, bind, Except.bind]
      split
      · rfl
      · split
        · cases lowUnit cs <;> rfl
        · rfl

theorem charactersWithin_numbered (care : Care) {digits : List Char}
    (formed : (Piece.numbered digits).WellFormed) (x : Char) (fuel taken : List Char)
    (others : List Piece) (rest : List Char) :
    charactersWithin care (x :: fuel) taken (Piece.texts (.numbered digits :: others) ++ rest) =
      (readUnit care (unitOf digits) (Piece.texts others ++ rest)).bind fun read =>
        charactersWithin care fuel (read.1 :: taken) read.2 := by
  rw [texts_numbered, charactersWithin_escape, escapeSequence_numbered care formed]

/-- A string is read as what it means, if it means anything. -/
theorem charactersWithin_exact {pieces : List Piece} (fuel taken rest : List Char)
    (wellFormed : ∀ piece ∈ pieces, piece.WellFormed) (enough : pieces.length < fuel.length) :
    charactersWithin .exact fuel taken (Piece.texts pieces ++ '"' :: rest) =
      match Piece.meaning? pieces with
      | some cs => .ok (taken.reverse ++ cs, rest)
      | none => .error .malformed := by
  fun_induction Piece.meaning? pieces generalizing fuel taken
  all_goals
    obtain ⟨x, fuel, rfl⟩ := List.exists_cons_of_length_pos (Nat.zero_lt_of_lt enough)
    simp only [List.length_cons, Nat.add_lt_add_iff_right] at enough
  case case1 => simp [Piece.texts, charactersWithin]
  case case2 c others ih =>
    obtain ⟨formed, wellFormed⟩ := List.forall_mem_cons.mp wellFormed
    rw [texts_plain, charactersWithin_plain .exact formed, ih _ _ wellFormed enough]
    cases Piece.meaning? others <;> simp
  case case3 mark others ih =>
    obtain ⟨formed, wellFormed⟩ := List.forall_mem_cons.mp wellFormed
    obtain ⟨c, meant⟩ := Option.isSome_iff_exists.mp formed
    rw [charactersWithin_escaped .exact meant, ih _ _ wellFormed enough, meant, Option.bind_some]
    cases Piece.meaning? others <;> simp
  case case4 digits others low =>
    -- a low surrogate that follows no high one
    obtain ⟨formed, -⟩ := List.forall_mem_cons.mp wellFormed
    rw [charactersWithin_numbered .exact formed]
    simp only [readUnit, if_pos low, Except.bind]
  case case5 digits notLow high low others isLow ih =>
    -- two surrogates are read in one step, so the induction skips the second
    obtain ⟨formed, wellFormed⟩ := List.forall_mem_cons.mp wellFormed
    rw [charactersWithin_numbered .exact formed]
    simp only [readUnit, if_neg notLow, if_pos high, lowUnit_texts wellFormed, if_pos isLow,
      Except.map, Except.bind]
    rw [ih _ _ (List.forall_mem_cons.mp wellFormed).2 (by omega)]
    cases Piece.meaning? others <;> simp
  case case6 digits notLow high low others notLow' =>
    obtain ⟨formed, wellFormed⟩ := List.forall_mem_cons.mp wellFormed
    rw [charactersWithin_numbered .exact formed]
    simp only [readUnit, if_neg notLow, if_pos high, lowUnit_texts wellFormed, if_neg notLow',
      Except.map, Except.bind]
  case case7 digits others notLow high unpaired =>
    obtain ⟨formed, wellFormed⟩ := List.forall_mem_cons.mp wellFormed
    rw [charactersWithin_numbered .exact formed]
    simp only [readUnit, if_neg notLow, if_pos high, lowUnit_texts wellFormed]
    split
    · exact absurd rfl (unpaired _ _)
    · rfl
  case case8 digits others notLow notHigh ih =>
    obtain ⟨formed, wellFormed⟩ := List.forall_mem_cons.mp wellFormed
    rw [charactersWithin_numbered .exact formed]
    simp only [readUnit, if_neg notLow, if_neg notHigh, Except.bind, ih _ _ wellFormed enough]
    cases Piece.meaning? others <;> simp

/-- A string can be passed over whether it means anything or not. -/
theorem charactersWithin_skim {pieces : List Piece} (fuel taken rest : List Char)
    (wellFormed : ∀ piece ∈ pieces, piece.WellFormed) (enough : pieces.length < fuel.length) :
    ∃ cs, charactersWithin .skim fuel taken (Piece.texts pieces ++ '"' :: rest) =
      .ok (cs, rest) := by
  induction pieces generalizing fuel taken
  all_goals
    obtain ⟨x, fuel, rfl⟩ := List.exists_cons_of_length_pos (Nat.zero_lt_of_lt enough)
    simp only [List.length_cons, Nat.add_lt_add_iff_right] at enough
  case nil => exact ⟨_, rfl⟩
  case cons piece others ih =>
    obtain ⟨formed, wellFormed⟩ := List.forall_mem_cons.mp wellFormed
    have onward (taken : List Char) := ih fuel taken wellFormed enough
    cases piece with
    | plain c =>
        rw [texts_plain, charactersWithin_plain .skim formed]
        exact onward _
    | escaped mark =>
        obtain ⟨c, meant⟩ := Option.isSome_iff_exists.mp formed
        rw [charactersWithin_escaped .skim meant]
        exact onward _
    | numbered digits =>
        rw [charactersWithin_numbered .skim formed]
        exact onward _

/-- Every part of a string has a text, so that the text is fuel enough to read it. -/
theorem length_lt_texts (pieces : List Piece) (rest : List Char) :
    pieces.length < (Piece.texts pieces ++ '"' :: rest).length := by
  induction pieces with
  | nil => exact Nat.zero_lt_succ _
  | cons piece others ih =>
      have positive : 0 < piece.text.length := by cases piece <;> exact Nat.zero_lt_succ _
      simp only [Piece.texts, List.flatMap_cons, List.length_append, List.length_cons] at ih ⊢
      omega

theorem string_exact {pieces : List Piece} (wellFormed : ∀ piece ∈ pieces, piece.WellFormed)
    (rest : List Char) :
    string .exact (Piece.texts pieces ++ '"' :: rest) =
      match Piece.meaning? pieces with
      | some cs => .ok (String.ofList cs, rest)
      | none => .error .malformed := by
  rw [string, charactersWithin_exact _ _ _ wellFormed (length_lt_texts pieces rest)]
  cases Piece.meaning? pieces <;> rfl

theorem string_skim {pieces : List Piece} (wellFormed : ∀ piece ∈ pieces, piece.WellFormed)
    (rest : List Char) :
    ∃ s, string .skim (Piece.texts pieces ++ '"' :: rest) = .ok (s, rest) := by
  obtain ⟨cs, read⟩ :=
    charactersWithin_skim _ [] rest wellFormed (length_lt_texts pieces rest)
  exact ⟨String.ofList cs, by rw [string, read]; rfl⟩

/-! ### Numerals -/

/-- The text does not go on with a character that satisfies `p`. -/
def Stops (p : Char → Prop) (rest : List Char) : Prop := ∀ c ∈ rest.head?, ¬ p c

/-- The character may stand inside a numeral, behind its first digit. -/
def Numeric (c : Char) : Prop := c.isDigit ∨ c = '.' ∨ c = 'e' ∨ c = 'E'

theorem spanDigits_append {digits rest : List Char} (all : ∀ c ∈ digits, c.isDigit)
    (stops : Stops (fun c => c.isDigit) rest) : spanDigits (digits ++ rest) = (digits, rest) := by
  rw [spanDigits, List.span_eq_takeWhile_dropWhile, List.takeWhile_append_of_pos all,
    List.dropWhile_append_of_pos all]
  cases rest with
  | nil => simp
  | cons c cs => simp [stops c rfl]

theorem someDigits_append (atEnd : Flaw) {digits rest : List Char} (some : Digits digits)
    (stops : Stops (fun c => c.isDigit) rest) :
    someDigits atEnd (digits ++ rest) = .ok (digits, rest) := by
  obtain ⟨first, others, rfl⟩ := List.exists_cons_of_ne_nil some.1
  rw [someDigits, spanDigits_append some.2 stops]

theorem takeFraction_text (atEnd : Flaw) {fraction : Option (List Char)}
    (wellFormed : ∀ digits ∈ fraction, Digits digits) {rest : List Char}
    (stops : Stops (fun c => c.isDigit ∨ c = '.') rest) :
    takeFraction atEnd (Numeral.fractionText fraction ++ rest) = .ok (fraction, rest) := by
  cases fraction with
  | none =>
      change takeFraction atEnd rest = _
      rw [takeFraction]
      · rfl
      · rintro cs rfl
        exact stops '.' rfl (.inr rfl)
  | some digits =>
      have read := someDigits_append atEnd (wellFormed digits rfl) fun c first digit =>
        stops c first (.inl digit)
      simp only [Numeral.fractionText, List.cons_append, takeFraction, read]
      rfl

theorem exponentSign_append {digits : List Char} (some : Digits digits) (rest : List Char) :
    exponentSign (digits ++ rest) = (true, digits ++ rest) := by
  obtain ⟨first, others, rfl⟩ := List.exists_cons_of_ne_nil some.1
  have digit := some.2 first List.mem_cons_self
  rw [List.cons_append, exponentSign]
  · rintro rest ⟨rfl, -⟩; simp at digit
  · rintro rest ⟨rfl, -⟩; simp at digit

theorem takeExponent_mark (atEnd : Flaw) {mark : Char} (isMark : mark = 'e' ∨ mark = 'E')
    {cs digits rest : List Char} {positive : Bool}
    (signed : exponentSign cs = (positive, digits ++ rest)) (some : Digits digits)
    (stops : Stops Numeric rest) :
    takeExponent atEnd (mark :: cs) = .ok (.some (positive, digits), rest) := by
  have read := someDigits_append atEnd some fun c first digit => stops c first (.inl digit)
  obtain rfl | rfl := isMark <;> simp only [takeExponent, signed, read] <;> rfl

theorem takeExponent_text (atEnd : Flaw) {exponent : Option (Bool × List Char)} {text : List Char}
    (spells : ExponentText exponent text)
    (wellFormed : ∀ positive digits, exponent = some (positive, digits) → Digits digits)
    {rest : List Char} (stops : Stops Numeric rest) :
    takeExponent atEnd (text ++ rest) = .ok (exponent, rest) := by
  cases spells with
  | none =>
      change takeExponent atEnd rest = _
      rw [takeExponent]
      · rfl
      · rintro cs rfl
        exact stops 'e' rfl (by simp [Numeric])
      · rintro cs rfl
        exact stops 'E' rfl (by simp [Numeric])
  | unsigned isMark =>
      have some := wellFormed _ _ rfl
      exact takeExponent_mark atEnd isMark (exponentSign_append some rest) some stops
  | positive isMark => exact takeExponent_mark atEnd isMark rfl (wellFormed _ _ rfl) stops
  | negative isMark => exact takeExponent_mark atEnd isMark rfl (wellFormed _ _ rfl) stops

theorem stops_exponent {exponent : Option (Bool × List Char)} {text : List Char}
    (spells : ExponentText exponent text) {rest : List Char} (stops : Stops Numeric rest) :
    Stops (fun c => c.isDigit ∨ c = '.') (text ++ rest) := by
  have marked {mark : Char} (isMark : mark = 'e' ∨ mark = 'E') (cs : List Char) :
      Stops (fun c => c.isDigit ∨ c = '.') (mark :: cs) := by
    rintro c ⟨⟩
    obtain rfl | rfl := isMark <;> decide
  cases spells with
  | none => exact fun c first inside => stops c first (inside.imp_right .inl)
  | unsigned isMark => exact marked isMark _
  | positive isMark => exact marked isMark _
  | negative isMark => exact marked isMark _

/-- A numeral is read up to where it ends. -/
theorem split_append (atEnd : Flaw) {numeral : Numeral} (wellFormed : numeral.WellFormed)
    {text : List Char} (spells : numeral.Spells text) {rest : List Char}
    (stops : Stops Numeric rest) :
    Numeral.split atEnd (text ++ rest) = .ok (numeral, rest) := by
  obtain ⟨exponent, spelled, rfl⟩ := spells
  have stopsFraction := stops_exponent spelled stops
  have stopsWhole : Stops (fun c => c.isDigit)
      (Numeral.fractionText numeral.fraction ++ (exponent ++ rest)) := by
    cases numeral.fraction with
    | none => exact fun c first digit => stopsFraction c first (.inl digit)
    | some digits => rintro c ⟨⟩; decide
  rw [List.append_assoc, List.append_assoc, Numeral.split,
    someDigits_append atEnd wellFormed.whole stopsWhole]
  simp only [bind, Except.bind]
  rw [if_neg fun zero => zero.2 (wellFormed.leading zero.1),
    takeFraction_text atEnd wellFormed.fraction stopsFraction]
  simp only [takeExponent_text atEnd spelled wellFormed.exponent stops]
  rfl

theorem exists_digit_of_spells {numeral : Numeral} (wellFormed : numeral.WellFormed)
    {text : List Char} (spells : numeral.Spells text) :
    ∃ c cs, text = c :: cs ∧ c.isDigit := by
  obtain ⟨exponent, -, rfl⟩ := spells
  obtain ⟨c, cs, whole⟩ := List.exists_cons_of_ne_nil wellFormed.whole.1
  refine ⟨c, _, by rw [whole, List.cons_append], wellFormed.whole.2 c ?_⟩
  rw [whole]
  exact List.mem_cons_self

theorem takeSign_append (negative : Bool) {c : Char} (digit : c.isDigit) (cs : List Char) :
    takeSign (Scalar.signText negative ++ c :: cs) = (negative, c :: cs) := by
  cases negative with
  | true => rfl
  | false =>
      change takeSign (c :: cs) = _
      rw [takeSign]
      rintro rest ⟨rfl, -⟩
      exact absurd digit (by decide)

theorem number_append (negative : Bool) {numeral : Numeral} (wellFormed : numeral.WellFormed)
    {text : List Char} (spells : numeral.Spells text) {rest : List Char}
    (stops : Stops Numeric rest) :
    number (Scalar.signText negative ++ (text ++ rest)) =
      (numeral.value negative).map fun n => (n, rest) := by
  have read := split_append .truncated wellFormed spells stops
  obtain ⟨c, cs, rfl, digit⟩ := exists_digit_of_spells wellFormed spells
  rw [List.cons_append] at *
  simp only [number, takeSign_append negative digit, read, bind, Except.bind]
  cases numeral.value negative <;> rfl

theorem skipNumber_append (negative : Bool) {numeral : Numeral} (wellFormed : numeral.WellFormed)
    {text : List Char} (spells : numeral.Spells text) {rest : List Char}
    (stops : Stops Numeric rest) :
    skipNumber (Scalar.signText negative ++ (text ++ rest)) = .ok rest := by
  have read := split_append .malformed wellFormed spells stops
  obtain ⟨c, cs, rfl, digit⟩ := exists_digit_of_spells wellFormed spells
  rw [List.cons_append] at *
  simp only [skipNumber, takeSign_append negative digit, read]
  rfl

/-! ### Integers -/

theorem head?_toDigits {n : Nat} (positive : 0 < n) : (Nat.toDigits 10 n).head? ≠ some '0' := by
  induction n using Nat.strongRecOn with
  | ind n ih =>
      by_cases small : n < 10
      · rw [Nat.toDigits_of_lt_base small]
        have digits : ∀ d < 10, 0 < d → d.digitChar ≠ '0' := by decide
        simpa using digits n small positive
      · rw [Nat.toDigits_of_base_le (by decide) (by omega),
          List.head?_append, Option.or_of_isSome (List.isSome_head?.mpr Nat.toDigits_ne_nil)]
        exact ih (n / 10) (by omega) (by omega)

theorem wellFormed_toDigits (n : Nat) : Numeral.WellFormed ⟨Nat.toDigits 10 n, none, none⟩ where
  whole := ⟨Nat.toDigits_ne_nil, fun _ inside =>
    Nat.isDigit_of_mem_toDigits (by decide) (by decide) inside⟩
  leading := by
    intro zero
    cases n with
    | zero => rw [Nat.toDigits_zero]; rfl
    | succ n => exact absurd zero (head?_toDigits n.succ_pos)
  fraction := by rintro digits ⟨⟩
  exponent := by rintro positive digits ⟨⟩

theorem le_ofDigitChars (digits : List Char) (n : Nat) : n ≤ Nat.ofDigitChars 10 digits n := by
  induction digits generalizing n with
  | nil => exact Nat.le_refl n
  | cons c cs ih =>
      rw [Nat.ofDigitChars_cons]
      exact Nat.le_trans (by omega) (ih _)

/-- Digits are taken into a number as long as it stays below the limit. -/
theorem absorb_eq {limit n : Nat} {digits : List Char}
    (fits : Nat.ofDigitChars 10 digits n ≤ limit) :
    absorb limit n digits = (Nat.ofDigitChars 10 digits n, []) := by
  induction digits generalizing n with
  | nil => rfl
  | cons c cs ih =>
      have next : n * 10 + digitValue c = 10 * n + (c.toNat - '0'.toNat) := by
        rw [Nat.mul_comm, digitValue]
      rw [Nat.ofDigitChars_cons] at fits ⊢
      rw [absorb, next, if_pos (Nat.le_trans (le_ofDigitChars cs _) fits), ih fits]

theorem value_ofNat {n : Nat} (fits : n ≤ Word.top) :
    Numeral.value false ⟨Nat.toDigits 10 n, none, none⟩ = .ok (.natural n) := by
  have back : Nat.ofDigitChars 10 (Nat.toDigits 10 n) 0 = n :=
    Nat.ofDigitChars_toDigits (by decide) (by decide)
  have absorbed : absorb Word.top 0 (Nat.toDigits 10 n) = _ := absorb_eq (by rwa [back])
  rw [back] at absorbed
  simp only [Numeral.value, Numeral.integer?, absorbed]

theorem spells_ofNat (n : Nat) : (Scalar.ofNat n).Spells (Nat.toDigits 10 n) := by
  have spells : Numeral.Spells ⟨Nat.toDigits 10 n, none, none⟩ (Nat.toDigits 10 n) :=
    ⟨[], .none, (List.append_nil _).symm⟩
  exact .number false (wellFormed_toDigits n) spells

theorem number_ofNat {n : Nat} (fits : n ≤ Word.top) {spelling : List Char}
    (spells : (Scalar.ofNat n).Spells spelling) {rest : List Char} (stops : Stops Numeric rest) :
    number (spelling ++ rest) = .ok (.natural n, rest) := by
  cases spells with
  | number negative wellFormed spells =>
      rw [List.append_assoc, number_append false wellFormed spells stops, value_ofNat fits]
      rfl

/-! ### Scalars -/

theorem scalar?_of_beginsNumeral (care : Care) {c : Char} (begins : beginsNumeral c)
    (cs : List Char) : scalar? care (c :: cs) = some (numeral care (c :: cs)) := by
  rw [scalar?, if_pos begins]
  all_goals
    rintro rfl
    exact absurd begins (by decide)

theorem scalar?_number (care : Care) (negative : Bool) {numeral : Numeral}
    (wellFormed : numeral.WellFormed) {text : List Char} (spells : numeral.Spells text)
    (rest : List Char) :
    scalar? care (Scalar.signText negative ++ (text ++ rest)) =
      some (Json.numeral care (Scalar.signText negative ++ (text ++ rest))) := by
  obtain ⟨c, cs, rfl, digit⟩ := exists_digit_of_spells wellFormed spells
  cases negative with
  | true => exact scalar?_of_beginsNumeral care (by decide) _
  | false => exact scalar?_of_beginsNumeral care (by simp [beginsNumeral, digit]) _

theorem scaled_eq_error {n : Nat} {e : Int} {flaw : Flaw} (failed : scaled n e = .error flaw) :
    flaw = .malformed := by
  unfold scaled at failed
  dsimp only at failed
  repeat' split at failed
  all_goals cases failed
  all_goals rfl

theorem magnitude_eq_error {numeral : Numeral} {flaw : Flaw}
    (failed : numeral.magnitude = .error flaw) : flaw = .malformed := by
  unfold Numeral.magnitude at failed
  dsimp only at failed
  repeat' split at failed
  all_goals first
    | exact scaled_eq_error failed
    | cases failed <;> rfl

theorem numeralValue_eq_error {negative : Bool} {numeral : Numeral} {flaw : Flaw}
    (failed : numeral.value negative = .error flaw) : flaw = .malformed := by
  cases outcome : numeral.magnitude with
  | error reason =>
      obtain rfl := magnitude_eq_error outcome
      unfold Numeral.value at failed
      rw [outcome] at failed
      repeat' split at failed
      all_goals cases failed <;> rfl
  | ok x =>
      unfold Numeral.value at failed
      rw [outcome] at failed
      repeat' split at failed
      all_goals cases failed

theorem value_eq_error {scalar : Scalar} {flaw : Flaw} (failed : scalar.value = .error flaw) :
    flaw = .malformed := by
  cases scalar with
  | null => cases failed
  | truth b => cases failed
  | number negative numeral =>
      rw [Scalar.value] at failed
      cases outcome : numeral.value negative with
      | error reason =>
          rw [outcome] at failed
          cases failed
          exact numeralValue_eq_error outcome
      | ok n =>
          rw [outcome] at failed
          cases failed
  | text pieces =>
      rw [Scalar.value] at failed
      split at failed <;> cases failed
      rfl

theorem scalar?_exact {scalar : Scalar} {spelling : List Char} (spells : scalar.Spells spelling)
    {rest : List Char} (stops : Stops Numeric rest) :
    scalar? .exact (spelling ++ rest) = some (scalar.value.map fun value => (value, rest)) := by
  cases spells with
  | null => rfl
  | truth b => cases b <;> rfl
  | number negative wellFormed spells =>
      rw [List.append_assoc, scalar?_number .exact negative wellFormed spells,
        numeral, number_append negative wellFormed spells stops, Scalar.value]
      cases Numeral.value negative _ <;> rfl
  | @text pieces wellFormed =>
      simp only [List.cons_append, List.append_assoc, List.nil_append, scalar?, Scalar.value]
      rw [string_exact wellFormed]
      cases Piece.meaning? pieces <;> rfl

theorem scalar?_skim {scalar : Scalar} {spelling : List Char} (spells : scalar.Spells spelling)
    {rest : List Char} (stops : Stops Numeric rest) :
    ∃ value, scalar? .skim (spelling ++ rest) = some (.ok (value, rest)) := by
  cases spells with
  | null => exact ⟨.null, rfl⟩
  | truth b => exact ⟨.truth b, by cases b <;> rfl⟩
  | number negative wellFormed spells =>
      refine ⟨.null, ?_⟩
      rw [List.append_assoc, scalar?_number .skim negative wellFormed spells,
        numeral, skipNumber_append negative wellFormed spells stops]
      rfl
  | text wellFormed =>
      obtain ⟨s, read⟩ := string_skim wellFormed rest
      refine ⟨.text s, ?_⟩
      simp only [List.cons_append, List.append_assoc, List.nil_append, scalar?]
      rw [read]
      rfl

end GraphAnalytics.Json
