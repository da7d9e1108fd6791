/-
# What documents say

A document of settings says what its entries say: the settings are the defaults with what is given
put over them, and they are refused if there are no workers or batches hold no nodes. The same holds
for a document that settings were written as, which therefore gives these settings again.

The two kinds of documents differ in one respect, which is by design. The value of an unknown key is
skipped in settings of a search for components, and may be anything that is well formed. In settings
of a sort it is read, and makes the document malformed if it cannot be held
(`unheld_value_refused`).
-/

import GraphAnalytics.Proofs.Settings.Entries
import Mathlib.Data.List.Forall2

namespace GraphAnalytics

open Json

/-- The answer, unless the settings are refused. A concurrency of zero is reported before a batch
size of zero. -/
def Settings.judge {α : Type} (settings : Settings) (answer : α) : Except DocumentError α :=
  if settings.concurrency = 0 then .error (.fault (.invalidConfig "concurrency must be > 0"))
  else if settings.minBatch = 0 then .error (.fault (.invalidConfig "minBatchSize must be > 0"))
  else .ok answer

theorem Settings.judge_eq {α : Type} (settings : Settings) (answer : α) :
    settings.judge answer = (settings.validate.mapError .fault).map fun _ => answer := by
  unfold judge validate
  split
  · rfl
  · split <;> rfl

theorem Settings.judge_of_valid {α : Type} {settings : Settings}
    (valid : settings.validate = .ok ()) (answer : α) : settings.judge answer = .ok answer := by
  rw [judge_eq, valid]
  rfl

/-! ### Documents for a search for components -/

namespace Settings

/-- The text is a document of the entries, of which no two give the same setting. -/
structure DocumentOf (entries : List Entry) (text : String) : Prop where
  written : ∃ written, List.Forall₂ Entry.WrittenAs entries written ∧ Writes written text.toList
  once : (entries.filterMap Entry.key?).Nodup

theorem draft_of_documentOf {entries : List Entry} {text : String}
    (document : DocumentOf entries text) :
    Draft.ofComponentsDocument text = .ok (entries.foldl Entry.give {}) := by
  obtain ⟨written, writtenAs, writes⟩ := document.written
  obtain ⟨progress, noted, draft, -⟩ := Entry.foldlM_note document.once
  generalize body : text.toList = chars at writes
  cases writes with
  | object blankBefore members blankAfter =>
      refine Reader.whole_eq blankAfter ?_
      have gathers := writtenAs.imp fun _ _ => Entry.gathers_readEntry
      rw [body, Draft.read, StateT.run_bind, Reader.run_peek blankBefore rfl]
      change (do
        let progress ← Reader.openObject (Draft.readEntry Reader.optional) {}
        Reader.closeObject
        return progress.draft : Reader Draft).run _ = _
      rw [StateT.run_bind, Reader.run_openObject members gathers, noted, ← draft]
      rfl

theorem resolve_foldl_give (defaults : Settings) (entries : List Entry) :
    (entries.foldl Entry.give {}).resolve defaults = entries.foldl Entry.overlay defaults :=
  (List.foldl_hom (Draft.resolve defaults) fun draft entry =>
    (entry.resolve_give defaults draft).symm).symm

theorem ofComponentsDocument_eq {entries : List Entry} {text : String}
    (document : DocumentOf entries text) (cores : Nat) :
    ofComponentsDocument cores text =
      (entries.foldl Entry.overlay (componentsDefault cores)).judge
        (entries.foldl Entry.overlay (componentsDefault cores)) := by
  rw [ofComponentsDocument, draft_of_documentOf document, judge_eq, ← resolve_foldl_give]
  rfl

end Settings

/-! ### Documents for a sort -/

namespace SortSettings

structure DocumentOf (entries : List Entry) (text : String) : Prop where
  written : ∃ written, List.Forall₂ Entry.WrittenAs entries written ∧ Writes written text.toList
  once : (entries.filterMap Entry.key?).Nodup

theorem DocumentOf.written_mem {entries : List Entry} {text : String}
    (document : DocumentOf entries text) :
    ∀ entry ∈ entries, ∃ written, entry.WrittenAs written := by
  obtain ⟨written, writtenAs, -⟩ := document.written
  clear document
  induction writtenAs with
  | nil => nofun
  | cons first _ ih => exact List.forall_mem_cons.mpr ⟨⟨_, first⟩, ih⟩

/-- A document is read by gathering all entries first, and interpreting them afterwards. -/
theorem draft_of_documentOf {entries : List Entry} {text : String}
    (document : DocumentOf entries text) :
    Draft.ofDocument text = do
      let gathered ← entries.foldlM Entry.gather {}
      let common ← Settings.Draft.ofEntries gathered.others.toList
      return ⟨common, gathered.longestPaths⟩ := by
  obtain ⟨written, writtenAs, writes⟩ := document.written
  generalize body : text.toList = chars at writes
  cases writes with
  | object blankBefore members blankAfter =>
      refine Reader.whole_eq blankAfter ?_
      have gathers := writtenAs.imp fun _ _ => Entry.gathers_readEntry
      rw [body, Draft.read, StateT.run_bind, Reader.run_peek blankBefore rfl]
      change (do
        let gathered ← Reader.openObject Draft.readEntry {}
        let common ← (Settings.Draft.ofEntries gathered.others.toList : Except Flaw _)
        Reader.closeObject
        return ⟨common, gathered.longestPaths⟩ : Reader Draft).run _ = _
      rw [StateT.run_bind, Reader.run_openObject members gathers]
      cases entries.foldlM Entry.gather {} with
      | error flaw => rfl
      | ok gathered =>
          simp only [Except.map, bind, Except.bind, StateT.run, StateT.bind]
          cases Settings.Draft.ofEntries gathered.others.toList <;> rfl

theorem resolve_foldl_give (cores : Nat) (entries : List Entry) :
    (entries.foldl Entry.give {}).resolve cores =
      entries.foldl Entry.overlay { concurrency := cores } :=
  (List.foldl_hom (Draft.resolve cores) fun draft entry =>
    (entry.resolve_give cores draft).symm).symm

/-- A document for a sort whose values can be held gives its settings. -/
theorem ofDocument_eq {entries : List Entry} {text : String} (document : DocumentOf entries text)
    (valued : ∀ entry ∈ entries, entry.HasValue) (cores : Nat) :
    ofDocument cores text =
      (entries.foldl Entry.overlay { concurrency := cores }).judge
        (entries.foldl Entry.overlay { concurrency := cores }) := by
  obtain ⟨gathered, gathers, progress, collected⟩ :=
    Entry.foldlM_gather document.once document.written_mem valued
  have draft : Draft.ofDocument text = .ok (entries.foldl Entry.give {}) := by
    rw [draft_of_documentOf document, gathers, ← collected.draft]
    simp only [bind, Except.bind, Settings.Draft.ofEntries, collected.interpreted]
    rfl
  rw [ofDocument, draft, Settings.judge_eq, ← resolve_foldl_give]
  rfl

/-- A document for a sort with a value that cannot be held is malformed. -/
theorem ofDocument_of_not {entries : List Entry} {text : String}
    (document : DocumentOf entries text) (unvalued : ¬ ∀ entry ∈ entries, entry.HasValue)
    (cores : Nat) : ofDocument cores text = .error (.flaw .malformed) := by
  rw [ofDocument, draft_of_documentOf document,
    Entry.foldlM_gather_of_not document.once document.written_mem unvalued]
  rfl

end SortSettings

/-! ### Settings that are written -/

namespace Settings

theorem members_entries (settings : Settings) {others : List (String × Scalar)} {rest : List Char}
    (members : Members false others rest) :
    Members true (("concurrency", .ofNat settings.concurrency) ::
      ("minBatchSize", .ofNat settings.minBatch) ::
      ("partitioning", .text (plainly settings.policy.name)) :: others)
      (settings.entries.toList ++ rest) := by
  have text : settings.entries = "\"concurrency\":" ++ toString settings.concurrency ++
      ",\"minBatchSize\":" ++ toString settings.minBatch ++
      ",\"partitioning\":\"" ++ settings.policy.name ++ "\"" := rfl
  have plain : Plain settings.policy.name := by cases settings.policy <;> decide
  have policy := Members.compact false (by decide : Plain "partitioning")
    (Scalar.spells_plainly plain) members
  have minBatch := Members.compact false (by decide : Plain "minBatchSize")
    (spells_ofNat settings.minBatch) policy
  have concurrency := Members.compact true (by decide : Plain "concurrency")
    (spells_ofNat settings.concurrency) minBatch
  rw [text]
  simpa only [String.toList_append, Nat.toString_eq_repr, Nat.toList_repr, comma,
    String.reduceToList, List.append_assoc, List.cons_append, List.nil_append] using concurrency

def given (settings : Settings) : List Entry :=
  [.concurrency settings.concurrency, .minBatch settings.minBatch, .policy settings.policy]

/-- The numbers fit the words they are kept in. -/
structure Fits (settings : Settings) : Prop where
  concurrency : settings.concurrency ≤ Word.top
  minBatch : settings.minBatch ≤ Word.top

theorem writtenAs_given {settings : Settings} (fits : settings.Fits) :
    List.Forall₂ Entry.WrittenAs settings.given
      [("concurrency", .ofNat settings.concurrency), ("minBatchSize", .ofNat settings.minBatch),
        ("partitioning", .text (plainly settings.policy.name))] :=
  .cons (.concurrency fits.concurrency) (.cons (.minBatch fits.minBatch)
    (.cons (.policy (meaning_plainly _)) .nil))

theorem documentOf_document {settings : Settings} (fits : settings.Fits) :
    DocumentOf settings.given settings.document where
  written := by
    have text : settings.document = "\x7b" ++ settings.entries ++ "\x7d" := rfl
    refine ⟨_, writtenAs_given fits, ?_⟩
    rw [text]
    simpa only [String.toList_append, String.reduceToList, List.cons_append, List.nil_append]
      using Writes.compact (settings.members_entries (.compactClose false))
  once := by simp [given, Entry.key?]

theorem foldl_given (settings defaults : Settings) :
    settings.given.foldl Entry.overlay defaults = settings := rfl

end Settings

namespace SortSettings

def given (settings : SortSettings) : List Entry :=
  settings.toSettings.given.map .common ++ [.longestPaths settings.longestPaths]

theorem writtenAs_given {settings : SortSettings} (fits : settings.Fits) :
    List.Forall₂ Entry.WrittenAs settings.given
      [("concurrency", .ofNat settings.concurrency), ("minBatchSize", .ofNat settings.minBatch),
        ("partitioning", .text (plainly settings.policy.name)),
        ("computeLongestPathDistances", .truth settings.longestPaths)] :=
  .cons (.common (.concurrency fits.concurrency) (by simp))
    (.cons (.common (.minBatch fits.minBatch) (by simp))
      (.cons (.common (.policy (meaning_plainly _)) (by simp)) (.cons (.longestPaths _) .nil)))

theorem documentOf_document {settings : SortSettings} (fits : settings.Fits) :
    DocumentOf settings.given settings.document where
  written := by
    have text : settings.document = "\x7b" ++ settings.entries ++
      ",\"computeLongestPathDistances\":" ++ toString settings.longestPaths ++ "\x7d" := rfl
    have spelled : (toString settings.longestPaths).toList =
        Scalar.truthText settings.longestPaths := by
      cases settings.longestPaths <;> decide
    have longestPaths := Members.compact false (by decide : Plain "computeLongestPathDistances")
      (.truth settings.longestPaths) (.compactClose false)
    refine ⟨_, writtenAs_given fits, ?_⟩
    rw [text]
    simpa only [String.toList_append, spelled, comma, String.reduceToList, List.append_assoc,
      List.cons_append, List.nil_append]
      using Writes.compact (settings.members_entries longestPaths)
  once := by simp [given, Settings.given, Entry.key?, Settings.Entry.key?]

theorem hasValue_given (settings : SortSettings) : ∀ entry ∈ settings.given, entry.HasValue := by
  simp [given, Settings.given, Entry.HasValue, Settings.Entry.HasValue]

theorem foldl_given (settings defaults : SortSettings) :
    settings.given.foldl Entry.overlay defaults = settings := rfl

end SortSettings

/-! ### Documents of settings -/

/-- A document gives the defaults with its entries put over them, and these settings are answered
unless they are refused. For a sort all values of unknown keys have to be such as can be held.
Settings that are written and read again are the same. -/
theorem documents_give_settings (cores : Nat) :
    (∀ (entries : List SortSettings.Entry) (text : String), SortSettings.DocumentOf entries text →
      let settings := entries.foldl SortSettings.Entry.overlay
        { concurrency := cores, minBatch := 10000, policy := .range, longestPaths := false }
      ((∀ entry ∈ entries, entry.HasValue) →
        SortSettings.ofDocument cores text = settings.judge settings) ∧
      ((¬ ∀ entry ∈ entries, entry.HasValue) →
        SortSettings.ofDocument cores text = .error (.flaw .malformed))) ∧
    (∀ (entries : List Settings.Entry) (text : String), Settings.DocumentOf entries text →
      let settings := entries.foldl Settings.Entry.overlay
        { concurrency := cores, minBatch := 10000, policy := .degree }
      Settings.ofComponentsDocument cores text = settings.judge settings) ∧
    (∀ settings : SortSettings, settings.Fits → settings.validate = .ok () →
      SortSettings.ofDocument cores settings.document = .ok settings) ∧
    ∀ settings : Settings, settings.Fits → settings.validate = .ok () →
      Settings.ofComponentsDocument cores settings.document = .ok settings := by
  refine ⟨fun entries text document => ⟨fun valued => ?_, fun unvalued => ?_⟩,
    fun entries text document => ?_, fun settings fits valid => ?_, fun settings fits valid => ?_⟩
  · exact SortSettings.ofDocument_eq document valued cores
  · exact SortSettings.ofDocument_of_not document unvalued cores
  · exact Settings.ofComponentsDocument_eq document cores
  · have read := SortSettings.ofDocument_eq (SortSettings.documentOf_document fits)
      (SortSettings.hasValue_given settings) cores
    rwa [SortSettings.foldl_given, Settings.judge_of_valid valid] at read
  · have read := Settings.ofComponentsDocument_eq (Settings.documentOf_document fits) cores
    rwa [Settings.foldl_given, Settings.judge_of_valid valid] at read

/-- A numeral with ten digits of exponent, which is no floating-point number. -/
def unheld : Scalar := .number false ⟨['1'], none, some (true, List.replicate 10 '9')⟩

theorem spells_unheld :
    unheld.Spells ['1', 'e', '9', '9', '9', '9', '9', '9', '9', '9', '9', '9'] := by
  have one : Digits ['1'] := ⟨nofun, List.forall_mem_singleton.mpr rfl⟩
  have nines : Digits (List.replicate 10 '9') :=
    ⟨nofun, fun _ inside => (List.eq_of_mem_replicate inside).symm ▸ rfl⟩
  refine .number false ⟨one, nofun, nofun, ?_⟩ ⟨_, .unsigned (.inl rfl), rfl⟩
  rintro positive digits ⟨⟩
  exact nines

/-- A document that gives a concurrency, and has a value that cannot be held. -/
def unheldDocument : String := "\x7b\"concurrency\":3,\"x\":1e9999999999\x7d"

theorem not_held_unheld : ¬ ∀ entry ∈ ([.common (.concurrency 3), .common (.other "x" unheld)] :
    List SortSettings.Entry), entry.HasValue := by
  intro all
  have held : unheld.HasValue := all (.common (.other "x" unheld)) (by simp)
  exact absurd held (by decide)

theorem writes_unheldDocument :
    Writes [("concurrency", .ofNat 3), ("x", unheld)] unheldDocument.toList :=
  Writes.compact (Members.compact true (by decide : Plain "concurrency") (spells_ofNat 3)
    (Members.compact false (by decide : Plain "x") spells_unheld (.compactClose false)))

theorem Settings.documentOf_unheld :
    Settings.DocumentOf [.concurrency 3, .other "x" unheld] unheldDocument where
  written := ⟨_, .cons (.concurrency (by decide)) (.cons (.other rfl) .nil), writes_unheldDocument⟩
  once := by decide

theorem SortSettings.documentOf_unheld :
    SortSettings.DocumentOf [.common (.concurrency 3), .common (.other "x" unheld)]
      unheldDocument where
  written := ⟨_, .cons (.common (.concurrency (by decide)) (by simp))
    (.cons (.common (.other rfl) (by simp)) .nil), writes_unheldDocument⟩
  once := by decide

def mixedDocument : String :=
  "\x7b\"minBatchSize\":5,\"x\":null,\"computeLongestPathDistances\":true\x7d"

theorem SortSettings.documentOf_mixed :
    SortSettings.DocumentOf
      [.common (.minBatch 5), .common (.other "x" .null), .longestPaths true] mixedDocument where
  written := ⟨_, .cons (.common (.minBatch (by decide)) (by simp))
    (.cons (.common (.other rfl) (by simp)) (.cons (.longestPaths true) .nil)),
    Writes.compact (Members.compact true (by decide : Plain "minBatchSize") (spells_ofNat 5)
      (Members.compact false (by decide : Plain "x") .null
        (Members.compact false (by decide : Plain "computeLongestPathDistances") (.truth true)
          (.compactClose false))))⟩
  once := by decide

theorem documents_give_settings_mixed :
    SortSettings.ofDocument 8 mixedDocument = .ok ⟨⟨8, 5, .range⟩, true⟩ ∧
    SortSettings.ofDocument 8 unheldDocument = .error (.flaw .malformed) ∧
    Settings.ofComponentsDocument 8 unheldDocument = .ok ⟨3, 10000, .degree⟩ ∧
    SortSettings.ofDocument 8 (SortSettings.document ⟨⟨3, 7, .degree⟩, true⟩) =
      .ok ⟨⟨3, 7, .degree⟩, true⟩ ∧
    Settings.ofComponentsDocument 8 (Settings.document ⟨3, 7, .range⟩) = .ok ⟨3, 7, .range⟩ := by
  obtain ⟨sort, components, sortAgain, componentsAgain⟩ := documents_give_settings 8
  have held : ∀ entry ∈ ([.common (.minBatch 5), .common (.other "x" .null), .longestPaths true] :
      List SortSettings.Entry), entry.HasValue := by
    simp [SortSettings.Entry.HasValue, Settings.Entry.HasValue, Scalar.HasValue, Scalar.value,
      Except.isOk, Except.toBool]
  exact ⟨(sort _ _ SortSettings.documentOf_mixed).1 held,
    (sort _ _ SortSettings.documentOf_unheld).2 not_held_unheld,
    components _ _ Settings.documentOf_unheld,
    sortAgain _ ⟨by decide, by decide⟩ rfl, componentsAgain _ ⟨by decide, by decide⟩ rfl⟩

/-- A value that cannot be held makes a document for a sort malformed, where it is none of the
sort's business, and where a search for components takes the same document. -/
theorem unheld_value_refused :
    SortSettings.DocumentOf [.common (.concurrency 3), .common (.other "x" unheld)]
        unheldDocument ∧
      Settings.DocumentOf [.concurrency 3, .other "x" unheld] unheldDocument ∧
      SortSettings.ofDocument 4 unheldDocument = .error (.flaw .malformed) ∧
      SortSettings.ofDocument 4 unheldDocument ≠ .ok ⟨⟨3, 10000, .range⟩, false⟩ ∧
      Settings.ofComponentsDocument 4 unheldDocument = .ok ⟨3, 10000, .degree⟩ := by
  have refused : SortSettings.ofDocument 4 unheldDocument = .error (.flaw .malformed) :=
    SortSettings.ofDocument_of_not SortSettings.documentOf_unheld not_held_unheld 4
  refine ⟨SortSettings.documentOf_unheld, Settings.documentOf_unheld, refused, ?_, ?_⟩
  · rw [refused]
    nofun
  · exact Settings.ofComponentsDocument_eq Settings.documentOf_unheld 4

end GraphAnalytics
