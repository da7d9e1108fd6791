/-
# Any value can be skipped

A value that is skipped may hold containers in containers to any depth. The reader keeps the open
ones on a stack of its own, so what it does with one container depends on the others only in that it
returns to them: `Passed` says so of a value, and `skipWithin_contents` of the rest of a container.
Both are proved together, by induction on the value (`ValueText.passed`).

A list of characters is the fuel. Every text that is passed pays for its own steps: what is left of
the fuel is shorter by no more than the text is long.
-/

import GraphAnalytics.Proofs.Json.Objects

namespace GraphAnalytics.Json

/-! ### The beginning of a value -/

theorem ne_close_of_scalar {scalar : Scalar} {c : Char} {cs : List Char}
    (spells : scalar.Spells (c :: cs)) : c ≠ ']' := by
  rintro rfl
  have stops : Stops Numeric [] := nofun
  obtain ⟨value, skimmed⟩ := scalar?_skim spells stops
  exact absurd skimmed nofun

/-- A value begins with a character that is neither a blank nor the end of an array. -/
theorem ValueText.begins {text : List Char} (value : ValueText text) :
    ∃ c cs, text = c :: cs ∧ isBlank c = false ∧ c ≠ ']' := by
  cases value with
  | scalar spells =>
      obtain ⟨c, cs, rfl, leads⟩ := exists_leads spells
      exact ⟨c, cs, rfl, leads.solid, ne_close_of_scalar spells⟩
  | @container bracket entries body =>
      refine ⟨_, _, rfl, ?_⟩
      cases bracket <;> decide

theorem head_opening (care : Care) {lead : List Char} (blankLead : Blank lead) (bracket : Bracket)
    (rest : List Char) :
    head care (lead ++ bracket.opening :: rest) = .ok (.opening bracket, rest) := by
  rw [head, dropBlank_append blankLead (by cases bracket <;> decide)]
  cases bracket <;> rfl

/-! ### Passing over values -/

/-- Skipping goes on behind the head of a value. -/
def skipOnward (fuel : List Char) (entered : List Bracket) :
    Head → List Char → Except Flaw (List Char)
  | .scalar _, cs => skipWithin fuel entered false cs
  | .opening bracket, cs => skipWithin fuel (bracket :: entered) true cs

/-- Wherever the text stands as a value, skipping it leads behind it. The step that takes its head
is paid for by the text, but has been made already. -/
def Passed (text : List Char) : Prop :=
  ∀ {lead rest : List Char}, Blank lead → Stops Numeric rest →
    ∃ begun cs, head .skim (lead ++ (text ++ rest)) = .ok (begun, cs) ∧
      ∀ (fuel : List Char) (entered : List Bracket), text.length ≤ fuel.length + 1 →
        ∃ left, fuel.length + 1 ≤ left.length + text.length ∧
          skipOnward fuel entered begun cs = skipWithin left entered false rest

theorem skipWithin_close (x : Char) (fuel : List Char) (bracket : Bracket) (entered : List Bracket)
    (first : Bool) {before : List Char} (blankBefore : Blank before) (rest : List Char) :
    skipWithin (x :: fuel) (bracket :: entered) first (before ++ bracket.closing :: rest) =
      skipWithin fuel entered false rest := by
  rw [skipWithin, dropBlank_append blankBefore (by cases bracket <;> decide)]
  exact if_pos rfl

theorem skipWithin_entry (x : Char) (fuel : List Char) {bracket : Bracket}
    (entered : List Bracket) {first : Bool} {cs text rest : List Char} {c : Char}
    (solid : dropBlank text = c :: cs) (inside : c ≠ bracket.closing) {name : String} {begun : Head}
    (entry : nextEntry .skim bracket first (c :: cs) = .ok (name, begun, rest)) :
    skipWithin (x :: fuel) (bracket :: entered) first text =
      skipOnward fuel (bracket :: entered) begun rest := by
  simp only [skipWithin, solid, if_neg inside, entry]
  cases begun <;> rfl

theorem entryName_append {bracket : Bracket} {pieces : List Piece} {name : List Char}
    (named : NameText bracket pieces name) {blank lead value : List Char} (blanks : Blank blank)
    (blankLead : Blank lead) (isValue : ValueText value) (rest : List Char) :
    ∃ c cs, dropBlank (blank ++ (name ++ (lead ++ (value ++ rest)))) = c :: cs ∧
      c ≠ bracket.closing ∧
      ∃ s gap, Blank gap ∧ entryName .skim bracket (c :: cs) = .ok (s, gap ++ (value ++ rest)) := by
  cases named with
  | element =>
      obtain ⟨c, cs, rfl, solid, noEnd⟩ := isValue.begins
      have together : Blank (blank ++ lead) := List.forall_mem_append.mpr ⟨blanks, blankLead⟩
      refine ⟨c, cs ++ rest, ?_, noEnd, "", [], blank_nil, rfl⟩
      rw [List.nil_append, ← List.append_assoc, List.cons_append, dropBlank_append together solid]
  | @name pieces gap wellFormed blankGap =>
      obtain ⟨s, read⟩ := string_skim wellFormed (gap ++ ':' :: (lead ++ (value ++ rest)))
      simp only [List.cons_append, List.append_assoc, List.nil_append]
      refine ⟨'"', _, dropBlank_append blanks rfl _, by decide, s, lead, blankLead, ?_⟩
      simp only [entryName, key, read, bind, Except.bind, colon_append blankGap]
      rfl

/-- Coming to the next entry of a container leads to the head of its value. -/
theorem nextEntry_append {bracket : Bracket} {first : Bool} {pieces : List Piece}
    {before separator name lead value : List Char} (blankBefore : Blank before)
    (separates : Separator first separator) (named : NameText bracket pieces name)
    (blankLead : Blank lead) (isValue : ValueText value) (rest : List Char) :
    ∃ c cs, dropBlank (before ++ (separator ++ (name ++ (lead ++ (value ++ rest))))) = c :: cs ∧
      c ≠ bracket.closing ∧
      ∃ s gap, Blank gap ∧ nextEntry .skim bracket first (c :: cs) =
        (head .skim (gap ++ (value ++ rest))).map fun read => (s, read.1, read.2) := by
  cases separates with
  | first =>
      obtain ⟨c, cs, solid, inside, s, gap, blankGap, read⟩ :=
        entryName_append named blankBefore blankLead isValue rest
      refine ⟨c, cs, solid, inside, s, gap, blankGap, ?_⟩
      simp only [nextEntry, separator, if_true, bind, Except.bind, read]
      cases head .skim (gap ++ (value ++ rest)) <;> rfl
  | @later blank blanks =>
      obtain ⟨c, cs, solid, -, s, gap, blankGap, read⟩ :=
        entryName_append named blanks blankLead isValue rest
      refine ⟨',', blank ++ (name ++ (lead ++ (value ++ rest))), dropBlank_append blankBefore rfl _,
        by cases bracket <;> decide, s, gap, blankGap, ?_⟩
      simp only [nextEntry, separator, Bool.false_eq_true, if_false, bind, Except.bind, solid, read]
      cases head .skim (gap ++ (value ++ rest)) <;> rfl

/-- The rest of a container is skipped, and the one around it is next. -/
theorem skipWithin_contents {bracket : Bracket} {first : Bool}
    {entries : List (List Piece × List Char)} {body : List Char}
    (contents : Contents bracket first entries body)
    (values : ∀ entry ∈ entries, ValueText entry.2) (passed : ∀ entry ∈ entries, Passed entry.2)
    (fuel : List Char) (enough : body.length ≤ fuel.length) (entered : List Bracket)
    (after : List Char) :
    ∃ left, fuel.length ≤ left.length + body.length ∧
      skipWithin fuel (bracket :: entered) first (body ++ after) =
        skipWithin left entered false after := by
  induction contents generalizing fuel with
  | @close first before blankBefore =>
      rw [List.length_append, List.length_singleton] at enough ⊢
      obtain ⟨x, fuel, rfl⟩ := List.exists_cons_of_length_pos (show 0 < fuel.length by omega)
      refine ⟨fuel, by rw [List.length_cons]; omega, ?_⟩
      rw [List.append_assoc, List.singleton_append, skipWithin_close x fuel bracket entered first
        blankBefore]
  | @entry first pieces value entries before separator name lead rest blankBefore separates named
      blankLead others ih =>
      obtain ⟨isValue, otherValues⟩ := List.forall_mem_cons.mp values
      obtain ⟨passes, othersPassed⟩ := List.forall_mem_cons.mp passed
      simp only [List.length_append] at enough ⊢
      obtain ⟨v, vs, rfl, -⟩ := isValue.begins
      rw [List.length_cons] at enough ⊢
      obtain ⟨x, fuel, rfl⟩ := List.exists_cons_of_length_pos (show 0 < fuel.length by omega)
      rw [List.length_cons] at enough ⊢
      simp only [List.append_assoc]
      obtain ⟨c, cs, solid, inside, s, gap, blankGap, next⟩ :=
        nextEntry_append blankBefore separates named blankLead isValue (rest ++ after)
      obtain ⟨begun, cs', begins, onward⟩ := passes blankGap (Reader.stops_contents others after)
      rw [begins] at next
      obtain ⟨left, paid, behind⟩ :=
        onward fuel (bracket :: entered) (by rw [List.length_cons]; omega)
      rw [List.length_cons] at paid
      obtain ⟨left', paid', ends⟩ := ih otherValues othersPassed left (by omega)
      refine ⟨left', by omega, ?_⟩
      rw [skipWithin_entry x fuel entered solid inside next, behind, ends]

theorem ValueText.passed {text : List Char} (value : ValueText text) : Passed text := by
  induction value with
  | scalar spells =>
      intro lead rest blankLead stops
      obtain ⟨value, skimmed⟩ := scalar?_skim spells stops
      refine ⟨.scalar value, rest, ?_, fun fuel entered _ => ⟨fuel, ?_, rfl⟩⟩
      · rw [head_append .skim blankLead spells skimmed]
        rfl
      · obtain ⟨c, cs, rfl, -⟩ := exists_leads spells
        rw [List.length_cons]
        omega
  | @container bracket entries body contents values passed =>
      intro lead rest blankLead stops
      refine ⟨.opening bracket, body ++ rest, head_opening .skim blankLead bracket _, ?_⟩
      intro fuel entered enough
      rw [List.length_cons] at enough ⊢
      obtain ⟨left, paid, ends⟩ :=
        skipWithin_contents contents values passed fuel (by omega) entered rest
      exact ⟨left, by omega, ends⟩

namespace Reader

/-- Where no value is needed, any well-formed value is passed over, however deep. -/
theorem run_skip_value {lead text rest : List Char} (blankLead : Blank lead)
    (value : ValueText text) (stops : Stops Numeric rest) :
    skip.run (lead ++ (text ++ rest)) = .ok ((), rest) := by
  cases value with
  | scalar spells => exact run_skip blankLead spells stops
  | @container bracket entries body contents values =>
      have enough : body.length ≤ (body ++ rest).length := by
        rw [List.length_append]
        omega
      obtain ⟨left, -, ends⟩ := skipWithin_contents contents values
        (fun entry member => (values entry member).passed) _ enough [] rest
      rw [skip, run_moving, List.cons_append, head_opening .skim blankLead]
      simp only [bind, Except.bind, ends]
      rw [skipWithin]
      rfl

end Reader

end GraphAnalytics.Json
