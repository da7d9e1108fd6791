/-
# Readers of objects

What readers answer at the head of a text that begins with a scalar, behind blanks or not, and how
an object is read entry by entry. `Gathers field gather item entry` says that a reader of fields
does to what was gathered what `gather` does with the item, however the entry is written, and
`Takes` says it of an entry as it stands in a text. A text that writes an object is then read by
gathering its items, first to last (`run_openObject_contents`, and `run_openObject` if all values
are scalars).
-/

import GraphAnalytics.Proofs.Json.Reading

namespace GraphAnalytics.Json

/-! ### Blanks -/

theorem dropBlank_append {blank : List Char} (blanks : Blank blank) {c : Char}
    (solid : isBlank c = false) (cs : List Char) : dropBlank (blank ++ c :: cs) = c :: cs := by
  rw [dropBlank, List.dropWhile_append_of_pos blanks, List.dropWhile_cons_of_neg (by simp [solid])]

theorem dropBlank_of_blank {blank : List Char} (blanks : Blank blank) : dropBlank blank = [] := by
  rw [dropBlank, ← List.append_nil blank, List.dropWhile_append_of_pos blanks]
  rfl

theorem colon_append {gap : List Char} (blankGap : Blank gap) (rest : List Char) :
    colon (gap ++ ':' :: rest) = .ok rest := by
  rw [colon, dropBlank_append blankGap rfl]
  rfl

theorem begins_number {negative : Bool} {numeral : Numeral} {spelling : List Char}
    (spells : (Scalar.number negative numeral).Spells spelling) :
    ∃ c cs, spelling = c :: cs ∧ beginsNumeral c := by
  cases spells with
  | number negative wellFormed spells =>
      obtain ⟨c, cs, rfl, digit⟩ := exists_digit_of_spells wellFormed spells
      cases negative with
      | true => exact ⟨'-', _, rfl, rfl⟩
      | false => exact ⟨c, cs, rfl, by simp [beginsNumeral, digit]⟩

structure Leads (c : Char) : Prop where
  solid : isBlank c = false
  noArray : c ≠ '['
  noObject : c ≠ '\x7b'

theorem leads_of_beginsNumeral {c : Char} (begins : beginsNumeral c) : Leads c where
  solid := by
    by_contra blank
    simp only [isBlank, Bool.not_eq_false, Bool.or_eq_true, beq_iff_eq] at blank
    obtain ((rfl | rfl) | rfl) | rfl := blank <;> exact absurd begins (by decide)
  noArray := by rintro rfl; exact absurd begins (by decide)
  noObject := by rintro rfl; exact absurd begins (by decide)

/-- A scalar begins with a character that is neither a blank nor a bracket. -/
theorem exists_leads {scalar : Scalar} {spelling : List Char} (spells : scalar.Spells spelling) :
    ∃ c cs, spelling = c :: cs ∧ Leads c := by
  cases scalar with
  | number negative numeral =>
      obtain ⟨c, cs, rfl, begins⟩ := begins_number spells
      exact ⟨c, cs, rfl, leads_of_beginsNumeral begins⟩
  | null => cases spells; exact ⟨'n', _, rfl, by decide, by decide, by decide⟩
  | text pieces => cases spells; exact ⟨'"', _, rfl, by decide, by decide, by decide⟩
  | truth b =>
      cases spells
      cases b
      · exact ⟨'f', _, rfl, by decide, by decide, by decide⟩
      · exact ⟨'t', _, rfl, by decide, by decide, by decide⟩

theorem head_append (care : Care) {scalar : Scalar} {lead spelling rest : List Char}
    (blankLead : Blank lead) (spells : scalar.Spells spelling)
    {read : Except Flaw (Value × List Char)} (reads : scalar? care (spelling ++ rest) = some read) :
    head care (lead ++ (spelling ++ rest)) = read.map fun read => (.scalar read.1, read.2) := by
  obtain ⟨c, cs, rfl, leads⟩ := exists_leads spells
  rw [List.cons_append] at *
  rw [head, dropBlank_append blankLead leads.solid]
  split
  · contradiction
  · next same =>
      cases same
      exact absurd rfl leads.noArray
  · next same =>
      cases same
      exact absurd rfl leads.noObject
  · rw [reads]
    cases read <;> rfl

namespace Reader

variable {α σ : Type}

theorem run_ofFunction (f : List Char → Except Flaw (α × List Char)) (cs : List Char) :
    (ofFunction f).run cs = f cs := rfl

theorem run_moving (f : List Char → Except Flaw (List Char)) (cs : List Char) :
    (moving f).run cs = (f cs).map fun rest => ((), rest) := by
  change (do return ((), ← f cs) : Except Flaw (Unit × List Char)) = _
  cases f cs <;> rfl

theorem run_peek {blank : List Char} (blanks : Blank blank) {c : Char}
    (solid : isBlank c = false) (cs : List Char) :
    peek.run (blank ++ c :: cs) = .ok (c, c :: cs) := by
  rw [peek, run_ofFunction, dropBlank_append blanks solid]

theorem run_field (reader : Reader α) {gap : List Char} (blankGap : Blank gap) (rest : List Char) :
    (field reader).run (gap ++ ':' :: rest) = reader.run rest := by
  rw [field, StateT.run_bind, run_moving, colon_append blankGap]
  rfl

theorem run_value (depth : Nat) {scalar : Scalar} {lead spelling rest : List Char}
    (blankLead : Blank lead) (spells : scalar.Spells spelling) (stops : Stops Numeric rest) :
    (value depth).run (lead ++ (spelling ++ rest)) =
      scalar.value.map fun value => (value, rest) := by
  have read := head_append .exact blankLead spells (scalar?_exact spells stops)
  rw [value, run_ofFunction, read]
  cases scalar.value <;> rfl

theorem run_skip {scalar : Scalar} {lead spelling rest : List Char}
    (blankLead : Blank lead) (spells : scalar.Spells spelling) (stops : Stops Numeric rest) :
    skip.run (lead ++ (spelling ++ rest)) = .ok ((), rest) := by
  obtain ⟨value, skimmed⟩ := scalar?_skim spells stops
  have read := head_append .skim blankLead spells skimmed
  rw [skip, run_moving, read]
  rfl

theorem run_natural {n : Nat} (fits : n ≤ Word.top) {lead spelling rest : List Char}
    (blankLead : Blank lead) (spells : (Scalar.ofNat n).Spells spelling)
    (stops : Stops Numeric rest) :
    natural.run (lead ++ (spelling ++ rest)) = .ok (n, rest) := by
  have read := number_ofNat fits spells stops
  obtain ⟨c, cs, rfl, begins⟩ := begins_number spells
  rw [List.cons_append] at *
  rw [natural, StateT.run_bind, run_peek blankLead (leads_of_beginsNumeral begins).solid]
  change (if beginsNumeral c then _ else _ : Reader Nat).run _ = _
  rw [if_pos begins, StateT.run_bind, run_ofFunction, read]
  rfl

theorem run_truth {b : Bool} {lead spelling : List Char}
    (blankLead : Blank lead) (spells : (Scalar.truth b).Spells spelling) (rest : List Char) :
    truth.run (lead ++ (spelling ++ rest)) = .ok (b, rest) := by
  cases spells
  cases b with
  | true =>
      rw [truth, StateT.run_bind]
      change (peek.run (lead ++ 't' :: 'r' :: 'u' :: 'e' :: rest) >>= _) = _
      rw [run_peek blankLead (by decide)]
      rfl
  | false =>
      rw [truth, StateT.run_bind]
      change (peek.run (lead ++ 'f' :: 'a' :: 'l' :: 's' :: 'e' :: rest) >>= _) = _
      rw [run_peek blankLead (by decide)]
      rfl

theorem run_choice {named? : String → Option α} {chosen : α} {name : String} {pieces : List Piece}
    (meaning : Piece.meaning? pieces = some name.toList) (named : named? name = some chosen)
    {lead spelling : List Char} (blankLead : Blank lead)
    (spells : (Scalar.text pieces).Spells spelling) (rest : List Char) :
    (choice named?).run (lead ++ (spelling ++ rest)) = .ok (chosen, rest) := by
  cases spells with
  | text wellFormed =>
      have read := string_exact wellFormed rest
      simp only [meaning, String.ofList_toList] at read
      rw [choice, StateT.run_bind]
      simp only [List.cons_append, List.append_assoc, List.nil_append]
      rw [run_peek blankLead (by decide)]
      change (StateT.run (ofFunction (key .exact) >>= choice.named named?) _) = _
      rw [StateT.run_bind, run_ofFunction, key, read]
      change (choice.named named? name).run rest = _
      rw [choice.named, named]
      rfl

/-- A reader that also takes `null` reads everything else as before. -/
theorem run_optional {reader : Reader α} {scalar : Scalar} {answer : α}
    {lead spelling rest : List Char} (blankLead : Blank lead) (spells : scalar.Spells spelling)
    (given : scalar ≠ .null)
    (reads : ∀ lead, Blank lead → reader.run (lead ++ (spelling ++ rest)) = .ok (answer, rest)) :
    (optional reader).run (lead ++ (spelling ++ rest)) = .ok (some answer, rest) := by
  have reads : reader.run (spelling ++ rest) = .ok (answer, rest) := reads [] nofun
  obtain ⟨c, cs, rfl, leads⟩ := exists_leads spells
  have notNull : c ≠ 'n' := by
    rintro rfl
    cases scalar with
    | null => contradiction
    | truth b => cases b <;> cases spells
    | number negative numeral =>
        obtain ⟨c, cs, same, begins⟩ := begins_number spells
        cases same
        exact absurd begins (by decide)
    | text pieces => cases spells
  rw [List.cons_append] at *
  rw [optional, StateT.run_bind, run_peek blankLead leads.solid]
  simp only [bind, Except.bind]
  rw [StateT.run_map, reads]
  rfl

/-! ### Entries -/

theorem not_numeric_of_blank {c : Char} (blank : isBlank c) : ¬ Numeric c := by
  simp only [isBlank, Bool.or_eq_true, beq_iff_eq] at blank
  obtain ((rfl | rfl) | rfl) | rfl := blank <;> simp [Numeric]

/-- The field reader does to what was gathered what `gather` does with the item, however the item is
written as an entry. -/
def Gathers {ι : Type} (field : σ → String → Reader σ) (gather : σ → ι → Except Flaw σ) (item : ι)
    (entry : String × Scalar) : Prop :=
  ∀ (gathered : σ) {gap lead spelling rest : List Char}, Blank gap → Blank lead →
    entry.2.Spells spelling → Stops Numeric rest →
    (field gathered entry.1).run (gap ++ ':' :: (lead ++ (spelling ++ rest))) =
      (gather gathered item).map fun gathered => (gathered, rest)

/-- The same of an entry as it stands in a text, with the parts of its name and the text of its
value. -/
def Takes {ι : Type} (field : σ → String → Reader σ) (gather : σ → ι → Except Flaw σ) (item : ι)
    (entry : List Piece × List Char) : Prop :=
  ∃ name : String, Piece.meaning? entry.1 = some name.toList ∧
    ∀ (gathered : σ) {gap lead rest : List Char}, Blank gap → Blank lead → Stops Numeric rest →
      (field gathered name).run (gap ++ ':' :: (lead ++ (entry.2 ++ rest))) =
        (gather gathered item).map fun gathered => (gathered, rest)

theorem takes_of_members {ι : Type} {field : σ → String → Reader σ}
    {gather : σ → ι → Except Flaw σ} {first : Bool} {items : List ι}
    {entries : List (String × Scalar)} {body : List Char} (members : Members first entries body)
    (gathers : List.Forall₂ (Gathers field gather) items entries) :
    ∃ written, Contents .object first written body ∧
      List.Forall₂ (Takes field gather) items written := by
  induction members generalizing items with
  | close blanks =>
      cases gathers
      exact ⟨[], .close blanks, .nil⟩
  | @entry first name scalar entries before separator gap lead spelling rest pieces blankBefore
      separates wellFormed meaning blankGap blankLead spells others ih =>
      cases gathers with
      | cons gathersFirst gathersOthers =>
      obtain ⟨written, contents, takesOthers⟩ := ih gathersOthers
      have entry : Contents .object first ((pieces, spelling) :: written) _ :=
        .entry blankBefore separates (.name wellFormed blankGap) blankLead contents
      refine ⟨(pieces, spelling) :: written, ?_, .cons ⟨name, meaning, ?_⟩ takesOthers⟩
      · simpa only [List.cons_append, List.append_assoc, List.nil_append] using entry
      · intro gathered gap lead rest blankGap blankLead stops
        exact gathersFirst gathered blankGap blankLead spells stops

theorem stops_append {blank : List Char} (blanks : Blank blank) {c : Char} (other : ¬ Numeric c)
    (cs : List Char) : Stops Numeric (blank ++ c :: cs) := by
  cases blank with
  | nil => rintro c ⟨⟩; exact other
  | cons b bs => rintro c ⟨⟩; exact not_numeric_of_blank (blanks b List.mem_cons_self)

theorem stops_contents {bracket : Bracket} {entries : List (List Piece × List Char)}
    {body : List Char} (contents : Contents bracket false entries body) (after : List Char) :
    Stops Numeric (body ++ after) := by
  cases contents with
  | close blanks =>
      rw [List.append_assoc]
      exact stops_append blanks (by cases bracket <;> simp [Numeric, Bracket.closing]) _
  | entry blankBefore separates =>
      cases separates
      simp only [List.append_assoc, List.cons_append]
      exact stops_append blankBefore (by simp [Numeric]) _

theorem length_lt_contents {first : Bool} {entries : List (List Piece × List Char)}
    {body : List Char} (contents : Contents .object first entries body) :
    entries.length < body.length := by
  induction contents with
  | close => simp
  | entry _ _ named _ _ ih =>
      cases named
      simp only [List.length_append, List.length_cons] at ih ⊢
      omega

theorem run_entries_of_ne (field : σ → String → Reader σ) (x : Char) (fuel : List Char)
    (first : Bool) (gathered : σ) {before : List Char} (blankBefore : Blank before) {c : Char}
    (solid : isBlank c = false) (inside : c ≠ '\x7d') (cs : List Char) :
    (Reader.entries field (x :: fuel) first gathered).run (before ++ c :: cs) =
      (do
        moving (separator first)
        let name ← ofFunction (key .exact)
        let gathered ← field gathered name
        Reader.entries field fuel false gathered : Reader σ).run (c :: cs) := by
  rw [Reader.entries, StateT.run_bind, run_peek blankBefore solid]
  simp only [bind, Except.bind]

theorem run_entries_name (field : σ → String → Reader σ) (x : Char) (fuel : List Char)
    {first : Bool} (gathered : σ) {before separator : List Char} {pieces : List Piece}
    {name : String} (blankBefore : Blank before) (separates : Separator first separator)
    (wellFormed : ∀ piece ∈ pieces, piece.WellFormed)
    (meaning : Piece.meaning? pieces = some name.toList) (cs : List Char) :
    (Reader.entries field (x :: fuel) first gathered).run
        (before ++ (separator ++ ('"' :: (Piece.texts pieces ++ ('"' :: cs))))) =
      (field gathered name >>= Reader.entries field fuel false).run cs := by
  have keyed : key .exact ('"' :: (Piece.texts pieces ++ ('"' :: cs))) = .ok (name, cs) := by
    rw [key, string_exact wellFormed, meaning]
    simp only [String.ofList_toList]
  have onward : (do
        let name ← ofFunction (key .exact)
        let gathered ← field gathered name
        Reader.entries field fuel false gathered : Reader σ).run
          ('"' :: (Piece.texts pieces ++ ('"' :: cs))) =
      (field gathered name >>= Reader.entries field fuel false).run cs := by
    rw [StateT.run_bind, run_ofFunction, keyed]
    rfl
  cases separates with
  | first =>
      rw [List.nil_append, run_entries_of_ne _ _ _ _ _ blankBefore rfl (by decide)]
      exact onward
  | later blanks =>
      rw [List.cons_append, run_entries_of_ne _ _ _ _ _ blankBefore rfl (by decide),
        StateT.run_bind, run_moving, separator, if_neg Bool.false_ne_true]
      simp only [dropBlank_append blanks (show isBlank '"' = false from rfl)]
      exact onward

theorem run_entries {ι : Type} {field : σ → String → Reader σ} {gather : σ → ι → Except Flaw σ}
    {first : Bool} {items : List ι} {entries : List (List Piece × List Char)} {body : List Char}
    (contents : Contents .object first entries body)
    (takes : List.Forall₂ (Takes field gather) items entries)
    (fuel : List Char) (enough : entries.length < fuel.length) (gathered : σ) (after : List Char) :
    (Reader.entries field fuel first gathered).run (body ++ after) =
      (items.foldlM gather gathered).map fun gathered => (gathered, '\x7d' :: after) := by
  induction contents generalizing items fuel gathered with
  | close blanks =>
      obtain ⟨x, fuel, rfl⟩ := List.exists_cons_of_length_pos (Nat.zero_lt_of_lt enough)
      cases takes
      rw [Reader.entries, StateT.run_bind, List.append_assoc, List.singleton_append,
        Bracket.closing, run_peek blanks rfl]
      rfl
  | @entry first pieces value entries before separator _ lead rest blankBefore separates named
      blankLead others ih =>
      obtain ⟨x, fuel, rfl⟩ := List.exists_cons_of_length_pos (Nat.zero_lt_of_lt enough)
      cases named with
      | @name pieces gap wellFormed blankGap =>
      cases takes with
      | @cons item _ items _ takesFirst takesOthers =>
      obtain ⟨name, meaning, reads⟩ := takesFirst
      have read := reads gathered blankGap blankLead (stops_contents others after)
      simp only [List.append_assoc, List.cons_append, List.nil_append]
      rw [run_entries_name field x fuel gathered blankBefore separates wellFormed meaning,
        StateT.run_bind, read, List.foldlM_cons]
      cases gather gathered item with
      | error flaw => rfl
      | ok gathered => exact ih takesOthers fuel (by simpa using enough) gathered

/-! ### Whole documents -/

theorem run_openObject_contents {ι : Type} {field : σ → String → Reader σ}
    {gather : σ → ι → Except Flaw σ} {items : List ι} {entries : List (List Piece × List Char)}
    {body : List Char} (contents : Contents .object true entries body)
    (takes : List.Forall₂ (Takes field gather) items entries) (start : σ) (after : List Char) :
    (openObject field start).run ('\x7b' :: (body ++ after)) =
      (items.foldlM gather start).map fun gathered => (gathered, '\x7d' :: after) := by
  have enough : entries.length < (body ++ after).length := by
    have := length_lt_contents contents
    rw [List.length_append]
    omega
  exact run_entries contents takes _ enough start after

theorem run_openObject {ι : Type} {field : σ → String → Reader σ} {gather : σ → ι → Except Flaw σ}
    {items : List ι} {entries : List (String × Scalar)} {body : List Char}
    (members : Members true entries body)
    (gathers : List.Forall₂ (Gathers field gather) items entries) (start : σ) (after : List Char) :
    (openObject field start).run ('\x7b' :: (body ++ after)) =
      (items.foldlM gather start).map fun gathered => (gathered, '\x7d' :: after) := by
  obtain ⟨written, contents, takes⟩ := takes_of_members members gathers
  exact run_openObject_contents contents takes start after

theorem whole_eq {reader : Reader α} {text : String} {answer : Except Flaw α} {after : List Char}
    (blankAfter : Blank after)
    (reads : reader.run text.toList = answer.map fun answer => (answer, after)) :
    whole reader text = answer := by
  rw [whole, StateT.run'_eq, StateT.run_bind, reads]
  cases answer with
  | error flaw => rfl
  | ok answer =>
      change Prod.fst <$> ((do atEnd; return answer : Reader α).run after) = _
      rw [StateT.run_bind, atEnd, run_moving, dropBlank_of_blank blankAfter]
      rfl

end Reader

end GraphAnalytics.Json
