/-
# What documents of partitions say

A document of a partition is an object that gives the first node and the number of nodes, once each
and in either order. Between them entries of other names may stand, with any well-formed values
(`DocumentOf`). Names are read, so each of them has to mean a string; the values of other names are
skipped and need not mean anything. What the document describes is the span of the two numbers, if
that is a span that a partition may have, and otherwise the document is refused for the same reason
as the span.

No other way leads to a partition either: whatever a text is, a partition that is read from it is
valid.
-/

import GraphAnalytics.Partition.Document
import GraphAnalytics.Proofs.Json.Skipping
import Mathlib.Data.List.Forall2

namespace GraphAnalytics.Partition

open Json

/-! ### Entries -/

/-- An entry of a document of a partition: one of the two numbers, or anything of another name. -/
inductive Entry where
  | start (n : Nat)
  | count (n : Nat)
  | other

namespace Entry

def gives : Entry → Bool
  | start _ => true
  | count _ => true
  | other => false

/-- The entry is written with these parts of a name and this text of a value. -/
inductive WrittenAs : Entry → List Piece × List Char → Prop
  | start {n : Nat} {pieces : List Piece} {value : List Char} (fits : n ≤ Word.top)
      (named : Piece.meaning? pieces = some "startNode".toList)
      (spells : (Scalar.ofNat n).Spells value) : WrittenAs (start n) (pieces, value)
  | count {n : Nat} {pieces : List Piece} {value : List Char} (fits : n ≤ Word.top)
      (named : Piece.meaning? pieces = some "nodeCount".toList)
      (spells : (Scalar.ofNat n).Spells value) : WrittenAs (count n) (pieces, value)
  | other {name : String} {pieces : List Piece} {value : List Char}
      (named : Piece.meaning? pieces = some name.toList) (noStart : name ≠ "startNode")
      (noCount : name ≠ "nodeCount") (isValue : ValueText value) : WrittenAs other (pieces, value)

/-- What is noted of an entry. A number that has been given before is not taken again. -/
def note (draft : Draft) : Entry → Except Flaw Draft
  | start n => if draft.start.isSome then .error .mistyped else .ok { draft with start := some n }
  | count n => if draft.count.isSome then .error .mistyped else .ok { draft with count := some n }
  | other => .ok draft

theorem run_number {n : Nat} (fits : n ≤ Word.top) {value : List Char}
    (spells : (Scalar.ofNat n).Spells value) (keep : Nat → Draft) {gap lead rest : List Char}
    (blankGap : Blank gap) (blankLead : Blank lead) (stops : Stops Numeric rest) :
    (do return keep (← Reader.field Reader.natural) : Reader Draft).run
        (gap ++ ':' :: (lead ++ (value ++ rest))) = .ok (keep n, rest) := by
  rw [StateT.run_bind, Reader.run_field _ blankGap,
    Reader.run_natural fits blankLead spells stops]
  rfl

theorem takes_readEntry {entry : Entry} {written : List Piece × List Char}
    (writtenAs : entry.WrittenAs written) : Reader.Takes Draft.readEntry note entry written := by
  cases writtenAs with
  | start fits named spells =>
      refine ⟨_, named, fun draft gap lead rest blankGap blankLead stops => ?_⟩
      simp only [Draft.readEntry, note]
      split
      · rfl
      · exact run_number fits spells _ blankGap blankLead stops
  | count fits named spells =>
      refine ⟨_, named, fun draft gap lead rest blankGap blankLead stops => ?_⟩
      simp only [Draft.readEntry, note]
      split
      · rfl
      · exact run_number fits spells _ blankGap blankLead stops
  | other named noStart noCount isValue =>
      refine ⟨_, named, fun draft gap lead rest blankGap blankLead stops => ?_⟩
      rw [Draft.readEntry, StateT.run_bind, Reader.run_field _ blankGap,
        Reader.run_skip_value blankLead isValue stops]
      · rfl
      · exact noStart
      · exact noCount

/-- Only entries that give a number leave anything to note. -/
theorem foldlM_note (entries : List Entry) (draft : Draft) :
    entries.foldlM note draft = (entries.filter gives).foldlM note draft := by
  rw [List.foldlM_filter]
  congr
  funext draft entry
  cases entry <;> rfl

end Entry

/-! ### Documents -/

/-- The text is an object that gives the two numbers, once each and in either order. -/
inductive DocumentOf (start count : Nat) : List Char → Prop
  | object {entries : List Entry} {written : List (List Piece × List Char)}
      {before body after : List Char} (blankBefore : Blank before)
      (contents : Contents .object true written body) (blankAfter : Blank after)
      (writtenAs : List.Forall₂ Entry.WrittenAs entries written)
      (given : entries.filter Entry.gives = [.start start, .count count] ∨
        entries.filter Entry.gives = [.count count, .start start]) :
      DocumentOf start count (before ++ '\x7b' :: (body ++ after))

variable {start count : Nat}

theorem run_read_of_documentOf {cs : List Char} (document : DocumentOf start count cs) :
    ∃ after, Blank after ∧ Draft.read.run cs = .ok ((start, count), after) := by
  cases document with
  | @object entries written before body after blankBefore contents blankAfter writtenAs given =>
      have takes := writtenAs.imp fun _ _ => Entry.takes_readEntry
      have noted : entries.foldlM Entry.note {} = .ok ⟨some start, some count⟩ := by
        rw [Entry.foldlM_note]
        rcases given with given | given <;> rw [given] <;> rfl
      refine ⟨after, blankAfter, ?_⟩
      rw [Draft.read, StateT.run_bind, Reader.run_peek blankBefore rfl]
      change (do
        let draft ← Reader.openObject Draft.readEntry {}
        let span ← (Draft.complete draft : Except Flaw _)
        Reader.closeObject
        return span : Reader (Nat × Nat)).run _ = _
      rw [StateT.run_bind, Reader.run_openObject_contents contents takes, noted]
      rfl

/-- A document describes the span of its numbers, and is refused if the span is. -/
theorem ofDocument_eq {text : String} (document : DocumentOf start count text.toList) :
    ofDocument text = (ofSpan start count).mapError .fault := by
  obtain ⟨after, blankAfter, read⟩ := run_read_of_documentOf document
  rw [ofDocument, read]
  cases span : ofSpan start count with
  | error fault =>
      simp only [Except.mapError, bind, Except.bind, span]
  | ok p =>
      simp only [Except.mapError, bind, Except.bind, span, Reader.atEnd, Reader.run_moving,
        dropBlank_of_blank blankAfter]
      rfl

theorem ofSpan_eq_ok_iff {p : Partition} :
    ofSpan start count = .ok p ↔ p = ⟨start, count⟩ ∧ p.Valid := by
  unfold ofSpan
  split
  · next valid =>
      rw [Except.ok.injEq]
      exact ⟨by rintro rfl; exact ⟨rfl, valid⟩, fun same => same.1.symm⟩
  · next refused => exact ⟨nofun, by rintro ⟨rfl, valid⟩; exact absurd valid refused⟩

theorem message_of_ofSpan {fault : Fault} (refused : ofSpan start count = .error fault) :
    fault.message = s!"invalid partition starting at {start} with {count} nodes" := by
  unfold ofSpan at refused
  split at refused
  · cases refused
  · cases refused
    rfl

theorem valid_of_ofDocument {text : String} {p : Partition} (read : ofDocument text = .ok p) :
    p.Valid := by
  unfold ofDocument at read
  cases outcome : Draft.read.run text.toList with
  | error flaw =>
      rw [outcome] at read
      cases read
  | ok taken =>
      obtain ⟨⟨start, count⟩, rest⟩ := taken
      rw [outcome] at read
      cases span : ofSpan start count with
      | error fault =>
          simp only [Except.mapError, bind, Except.bind, span] at read
          cases read
      | ok p' =>
          simp only [Except.mapError, bind, Except.bind, span] at read
          split at read
          · cases read
          · cases read
            exact (ofSpan_eq_ok_iff.mp span).2

/-! ### Partitions that are written -/

theorem documentOf_document (p : Partition) (valid : p.Valid) :
    DocumentOf p.start p.count p.document.toList := by
  obtain ⟨-, -, fits⟩ := valid
  have contents := Contents.compact true (by decide : Plain "startNode") (Nat.toDigits 10 p.start)
    (Contents.compact false (by decide : Plain "nodeCount") (Nat.toDigits 10 p.count)
      (.compactClose .object false))
  have writtenAs : List.Forall₂ Entry.WrittenAs [.start p.start, .count p.count] _ :=
    .cons (.start (by omega) (meaning_plainly _) (spells_ofNat _))
      (.cons (.count (by omega) (meaning_plainly _) (spells_ofNat _)) .nil)
  have document := DocumentOf.object blank_nil contents blank_nil writtenAs (.inl rfl)
  have text : p.document = "\x7b\"startNode\":" ++ toString p.start ++ ",\"nodeCount\":" ++
      toString p.count ++ "\x7d" := rfl
  rw [text]
  simpa only [String.toList_append, Nat.toString_eq_repr, Nat.toList_repr, comma,
    String.reduceToList, List.append_assoc, List.cons_append, List.nil_append, List.append_nil,
    Bracket.closing] using document

/-! ### Documents of partitions -/

/-- A partition that is written and read again is the same. Whatever a text is, a partition that is
read from it is not empty, not too long, and ends at or before the last word. And a document that
gives both numbers is refused exactly if the span is, for the same reason and in the same words. -/
theorem documents_give_partitions :
    (∀ (start count : Nat) (p : Partition), ofSpan start count = .ok p →
      ofDocument p.document = .ok p) ∧
    (∀ (text : String) (p : Partition), ofDocument text = .ok p →
      1 ≤ p.count ∧ p.count ≤ maxNodeCount ∧ p.start + p.count ≤ 0xFFFFFFFFFFFFFFFF) ∧
    ∀ (start count : Nat) (text : String), DocumentOf start count text.toList →
      (∀ p, ofDocument text = .ok p ↔ ofSpan start count = .ok p) ∧
      ∀ error, ofDocument text = .error error ↔
        ∃ fault, ofSpan start count = .error fault ∧ error = .fault fault ∧
          fault.message = s!"invalid partition starting at {start} with {count} nodes" := by
  refine ⟨fun start count p accepted => ?_, fun text p read => ?_,
    fun start count text document => ⟨fun p => ?_, fun error => ?_⟩⟩
  · obtain ⟨rfl, valid⟩ := ofSpan_eq_ok_iff.mp accepted
    rw [ofDocument_eq (documentOf_document _ valid), accepted]
    rfl
  · exact valid_of_ofDocument read
  · rw [ofDocument_eq document]
    cases ofSpan start count <;> simp [Except.mapError]
  · rw [ofDocument_eq document]
    constructor
    · intro refused
      cases span : ofSpan start count with
      | ok p =>
          rw [span] at refused
          cases refused
      | error fault =>
          rw [span] at refused
          cases refused
          exact ⟨fault, rfl, rfl, message_of_ofSpan span⟩
    · rintro ⟨fault, span, rfl, -⟩
      rw [span]
      rfl

/-- A document with the number of nodes first, and an entry whose value has the name of the other
number inside. -/
def nestedDocument (start count : Nat) : String :=
  "\x7b\"nodeCount\":" ++ toString count ++ ",\"more\":[\x7b\"startNode\":[]\x7d]" ++
    ",\"startNode\":" ++ toString start ++ "\x7d"

theorem valueText_nested : ValueText "[\x7b\"startNode\":[]\x7d]".toList := by
  have empty : ValueText ['[', ']'] := .container (.compactClose .array true) nofun
  have entry := Contents.compact true (by decide : Plain "startNode") ['[', ']']
    (.compactClose .object false)
  have object : ValueText "\x7b\"startNode\":[]\x7d".toList :=
    .container entry (List.forall_mem_singleton.mpr empty)
  exact .container (.entry blank_nil .first .element blank_nil (.compactClose .array false))
    (List.forall_mem_singleton.mpr object)

theorem documentOf_nested {start count : Nat} (fitsStart : start ≤ Word.top)
    (fitsCount : count ≤ Word.top) :
    DocumentOf start count (nestedDocument start count).toList := by
  have contents := Contents.compact true (by decide : Plain "nodeCount") (Nat.toDigits 10 count)
    (Contents.compact false (by decide : Plain "more") "[\x7b\"startNode\":[]\x7d]".toList
      (Contents.compact false (by decide : Plain "startNode") (Nat.toDigits 10 start)
        (.compactClose .object false)))
  have writtenAs : List.Forall₂ Entry.WrittenAs [.count count, .other, .start start] _ :=
    .cons (.count fitsCount (meaning_plainly _) (spells_ofNat _))
      (.cons (.other (meaning_plainly "more") (by decide) (by decide) valueText_nested)
        (.cons (.start fitsStart (meaning_plainly _) (spells_ofNat _)) .nil))
  have document := DocumentOf.object blank_nil contents blank_nil writtenAs (.inr rfl)
  rw [List.append_nil] at document
  unfold nestedDocument
  simp only [String.toList_append, Nat.toString_eq_repr, Nat.toList_repr, List.append_assoc]
  exact document

/-- Two documents of one form. The span of the second would end past the last word. -/
theorem documents_give_partitions_nested :
    ofDocument (nestedDocument 4 2) = .ok ⟨4, 2⟩ ∧
      ofDocument (nestedDocument Word.top 2) = .error (.fault (.invalidPartition Word.top 2)) ∧
      ofDocument (document ⟨4, 2⟩) = .ok ⟨4, 2⟩ := by
  obtain ⟨again, -, decided⟩ := documents_give_partitions
  have accepted : ofSpan 4 2 = .ok ⟨4, 2⟩ := by decide
  have refused : ofSpan Word.top 2 = .error (.invalidPartition Word.top 2) := by decide
  obtain ⟨reads, -⟩ := decided 4 2 _ (documentOf_nested (by decide) (by decide))
  obtain ⟨-, fails⟩ := decided Word.top 2 _ (documentOf_nested (by decide) (by decide))
  exact ⟨(reads _).mpr accepted, (fails _).mpr ⟨_, refused, rfl, rfl⟩, again 4 2 _ accepted⟩

end GraphAnalytics.Partition
