/-
# Entries of documents of settings

A document of settings is an object whose entries give some of the settings, in any order and with
entries of other names between them. `Settings.Entry` and `SortSettings.Entry` are such entries:
`WrittenAs` says how they are written, and `overlay` what they mean, which is the settings with the
one given replaced.

There are two ways of reading them. For a search for components every entry is interpreted as it is
met (`Settings.Entry.note`). For a sort all entries that are not its own are read as values first
(`SortSettings.Entry.gather`), and interpreted when the last has been read. Interpreting what was
gathered notes the same (`interpret_reading`), so both ways give the same settings.

A value that cannot be held stops the second way, and only that.
-/

import GraphAnalytics.Proofs.Json.Objects
import GraphAnalytics.Proofs.Refusals
import GraphAnalytics.Settings.Document

namespace GraphAnalytics

open Json

namespace Settings

/-- An entry of a document of settings: one of the settings, or anything of another name. -/
inductive Entry where
  | concurrency (n : Nat)
  | minBatch (n : Nat)
  | policy (p : PartitionPolicy)
  | other (name : String) (value : Scalar)

namespace Entry

def key? : Entry → Option Key
  | concurrency _ => some .concurrency
  | minBatch _ => some .minBatch
  | policy _ => some .policy
  | other _ _ => none

def overlay (settings : Settings) : Entry → Settings
  | concurrency n => { settings with concurrency := n }
  | minBatch n => { settings with minBatch := n }
  | policy p => { settings with policy := p }
  | other _ _ => settings

inductive WrittenAs : Entry → String × Scalar → Prop
  | concurrency {n : Nat} (fits : n ≤ Word.top) :
      WrittenAs (concurrency n) ("concurrency", .ofNat n)
  | minBatch {n : Nat} (fits : n ≤ Word.top) : WrittenAs (minBatch n) ("minBatchSize", .ofNat n)
  | policy {p : PartitionPolicy} {pieces : List Piece}
      (meaning : Piece.meaning? pieces = some p.name.toList) :
      WrittenAs (policy p) ("partitioning", .text pieces)
  | other {name : String} {value : Scalar} (unknown : Key.named? name = none) :
      WrittenAs (other name value) (name, value)

def HasValue : Entry → Prop
  | other _ value => value.HasValue
  | _ => True

def give (draft : Draft) : Entry → Draft
  | concurrency n => { draft with concurrency := some n }
  | minBatch n => { draft with minBatch := some n }
  | policy p => { draft with policy := some p }
  | other _ _ => draft

theorem resolve_give (defaults : Settings) (draft : Draft) (entry : Entry) :
    (entry.give draft).resolve defaults = entry.overlay (draft.resolve defaults) := by
  cases entry <;> rfl

def note (progress : Draft.Progress) (entry : Entry) : Except Flaw Draft.Progress :=
  match entry.key? with
  | none => .ok progress
  | some key =>
      if key ∈ progress.met then .error .mistyped
      else .ok ⟨entry.give progress.draft, key :: progress.met⟩

theorem note_of_fresh {progress : Draft.Progress} {entry : Entry}
    (fresh : ∀ key ∈ entry.key?, key ∉ progress.met) :
    entry.note progress =
      .ok ⟨entry.give progress.draft, entry.key?.toList ++ progress.met⟩ := by
  cases entry with
  | other name value => rfl
  | concurrency n => exact if_neg (fresh _ rfl)
  | minBatch n => exact if_neg (fresh _ rfl)
  | policy p => exact if_neg (fresh _ rfl)

/-- What was noted of some entries. -/
structure Noted (done : List Entry) (progress : Draft.Progress) : Prop where
  draft : progress.draft = done.foldl give {}
  met : ∀ key ∈ progress.met, key ∈ done.filterMap key?

theorem Noted.note {done : List Entry} {progress : Draft.Progress} (noted : Noted done progress)
    {entry : Entry} (fresh : ∀ key ∈ entry.key?, key ∉ done.filterMap key?) :
    ∃ next, entry.note progress = .ok next ∧ Noted (done ++ [entry]) next := by
  refine ⟨_, note_of_fresh fun key given before => fresh key given (noted.met key before), ?_, ?_⟩
  · rw [List.foldl_append, ← noted.draft]
    rfl
  · intro key met
    rw [List.filterMap_append, List.mem_append]
    obtain given | before := List.mem_append.mp met
    · exact .inr (List.mem_filterMap.mpr ⟨entry, List.mem_singleton_self entry,
        Option.mem_toList.mp given⟩)
    · exact .inl (noted.met key before)

/-- Entries that give no setting twice are noted one after the other. -/
theorem foldlM_note {entries : List Entry} (once : (entries.filterMap key?).Nodup) :
    ∃ progress, entries.foldlM note {} = .ok progress ∧ Noted entries progress :=
  exists_foldlM_of_nodup Noted (fun _ _ _ _ noted fresh => noted.note fresh)
    (by rwa [List.nil_append]) ⟨rfl, fun _ met => absurd met List.not_mem_nil⟩

theorem named_name (policy : PartitionPolicy) :
    PartitionPolicy.named? policy.name = some policy := by
  cases policy <;> rfl

/-! ### Entries interpreted as they are met -/

theorem run_known {name : String} {key : Key} (named : Key.named? name = some key) {entry : Entry}
    (gives : entry.key? = some key) (progress : Draft.Progress)
    {gap lead spelling rest : List Char} (blankGap : Blank gap)
    (reads : (Draft.readValue Reader.optional progress.draft key).run
      (lead ++ (spelling ++ rest)) = .ok (entry.give progress.draft, rest)) :
    (Draft.readEntry Reader.optional progress name).run
        (gap ++ ':' :: (lead ++ (spelling ++ rest))) =
      (entry.note progress).map fun progress => (progress, rest) := by
  rw [Draft.readEntry, named, note, gives]
  by_cases before : key ∈ progress.met
  · simp only [if_pos before]
    rfl
  · simp only [if_neg before]
    rw [StateT.run_bind, Reader.run_field _ blankGap, reads]
    rfl

theorem gathers_readEntry {entry : Entry} {written : String × Scalar}
    (writtenAs : entry.WrittenAs written) :
    Reader.Gathers (Draft.readEntry Reader.optional) note entry written := by
  intro progress gap lead spelling rest blankGap blankLead spells stops
  cases writtenAs with
  | concurrency fits =>
      refine run_known rfl rfl progress blankGap ?_
      rw [Draft.readValue, StateT.run_bind, Reader.run_optional blankLead spells nofun
        fun _ blank => Reader.run_natural fits blank spells stops]
      rfl
  | minBatch fits =>
      refine run_known rfl rfl progress blankGap ?_
      rw [Draft.readValue, StateT.run_bind, Reader.run_optional blankLead spells nofun
        fun _ blank => Reader.run_natural fits blank spells stops]
      rfl
  | policy meaning =>
      refine run_known rfl rfl progress blankGap ?_
      rw [Draft.readValue, StateT.run_bind, Reader.run_optional blankLead spells nofun
        fun _ blank => Reader.run_choice meaning (named_name _) blank spells rest]
      rfl
  | other unknown =>
      rw [Draft.readEntry, unknown]
      simp only [StateT.run_bind, Reader.run_field _ blankGap,
        Reader.run_skip blankLead spells stops]
      rfl

/-! ### Entries read as values -/

def reading : Entry → Except Flaw (String × Value)
  | concurrency n => .ok ("concurrency", .number (.natural n))
  | minBatch n => .ok ("minBatchSize", .number (.natural n))
  | policy p => .ok ("partitioning", .text p.name)
  | other name value => value.value.map fun value => (name, value)

theorem reading_eq {entry : Entry} {written : String × Scalar}
    (writtenAs : entry.WrittenAs written) :
    entry.reading = written.2.value.map fun value => (written.1, value) := by
  cases writtenAs with
  | concurrency fits | minBatch fits =>
      rw [reading, Scalar.ofNat, Scalar.value, value_ofNat fits]
      rfl
  | policy meaning =>
      rw [reading, Scalar.value]
      simp only [meaning, String.ofList_toList]
      rfl
  | other unknown => rfl

/-- An entry that was read as a value is interpreted as what it is noted as. -/
theorem interpret_reading {entry : Entry} {written : String × Scalar}
    (writtenAs : entry.WrittenAs written) {read : String × Value} (reads : entry.reading = .ok read)
    (progress : Draft.Progress) :
    Draft.interpret progress read = entry.note progress := by
  cases writtenAs with
  | concurrency fits | minBatch fits =>
      cases reads
      simp only [Draft.interpret, Key.named?, note, key?]
      split <;> rfl
  | @policy p pieces meaning =>
      cases reads
      simp only [Draft.interpret, Key.named?, note, key?, Draft.policyOf,
        named_name]
      split <;> rfl
  | @other name value unknown =>
      rw [reading] at reads
      cases outcome : value.value with
      | error flaw =>
          rw [outcome] at reads
          cases reads
      | ok value =>
          rw [outcome] at reads
          cases reads
          simp only [Draft.interpret, unknown]
          rfl

/-- An entry has a value exactly if it can be read. Otherwise it is malformed. -/
theorem reading_cases (entry : Entry) :
    (entry.HasValue ∧ ∃ read, entry.reading = .ok read) ∨
      (¬ entry.HasValue ∧ entry.reading = .error .malformed) := by
  cases entry with
  | concurrency n | minBatch n | policy p => exact .inl ⟨trivial, _, rfl⟩
  | other name value =>
      rw [reading, HasValue, Scalar.HasValue]
      cases outcome : value.value with
      | error flaw =>
          obtain rfl := value_eq_error outcome
          exact .inr ⟨nofun, rfl⟩
      | ok value => exact .inl ⟨rfl, _, rfl⟩

end Entry

end Settings

/-! ### Entries of documents for a sort -/

namespace SortSettings

inductive Key where
  | common (key : Settings.Key)
  | longestPaths
  deriving DecidableEq

/-- An entry of a document for a sort: one that every document of settings may have, or the sort's
own. -/
inductive Entry where
  | common (entry : Settings.Entry)
  | longestPaths (wanted : Bool)

namespace Entry

def key? : Entry → Option Key
  | common entry => entry.key?.map .common
  | longestPaths _ => some .longestPaths

def overlay (settings : SortSettings) : Entry → SortSettings
  | common entry => { settings with toSettings := entry.overlay settings.toSettings }
  | longestPaths wanted => { settings with longestPaths := wanted }

inductive WrittenAs : Entry → String × Scalar → Prop
  | common {entry : Settings.Entry} {written : String × Scalar}
      (writtenAs : entry.WrittenAs written) (other : written.1 ≠ "computeLongestPathDistances") :
      WrittenAs (common entry) written
  | longestPaths (wanted : Bool) :
      WrittenAs (longestPaths wanted) ("computeLongestPathDistances", .truth wanted)

def HasValue : Entry → Prop
  | common entry => entry.HasValue
  | longestPaths _ => True

def give (draft : Draft) : Entry → Draft
  | common entry => { draft with common := entry.give draft.common }
  | longestPaths wanted => { draft with longestPaths := some wanted }

theorem resolve_give (cores : Nat) (draft : Draft) (entry : Entry) :
    (entry.give draft).resolve cores = entry.overlay (draft.resolve cores) := by
  cases entry with
  | common entry =>
      simp only [give, overlay, Draft.resolve, Settings.Entry.resolve_give]
  | longestPaths wanted => rfl

def gather (gathered : Gathered) : Entry → Except Flaw Gathered
  | common entry => entry.reading.map fun read =>
      { gathered with others := gathered.others.push read }
  | longestPaths wanted =>
      if gathered.longestPaths.isSome then .error .mistyped
      else .ok { gathered with longestPaths := some wanted }

theorem gathers_readEntry {entry : Entry} {written : String × Scalar}
    (writtenAs : entry.WrittenAs written) :
    Reader.Gathers Draft.readEntry gather entry written := by
  intro gathered gap lead spelling rest blankGap blankLead spells stops
  cases writtenAs with
  | common writtenAs other =>
      rw [Draft.readEntry, if_neg other, StateT.run_bind, Reader.run_field _ blankGap,
        Reader.run_value _ blankLead spells stops, gather, Settings.Entry.reading_eq writtenAs]
      cases written.2.value <;> rfl
  | longestPaths wanted =>
      rw [Draft.readEntry, if_pos rfl, gather]
      by_cases before : gathered.longestPaths.isSome = true
      · rw [if_pos before, if_pos before]
        rfl
      · rw [if_neg before, if_neg before, StateT.run_bind, Reader.run_field _ blankGap,
          Reader.run_truth blankLead spells]
        rfl

/-- What was gathered of some entries. Interpreting it gives what the entries give. -/
structure Collected (done : List Entry) (gathered : Gathered) (progress : Settings.Draft.Progress) :
    Prop where
  interpreted : gathered.others.toList.foldlM Settings.Draft.interpret {} = .ok progress
  draft : ⟨progress.draft, gathered.longestPaths⟩ = done.foldl give {}
  met : ∀ key ∈ progress.met, .common key ∈ done.filterMap key?
  wanted : gathered.longestPaths.isSome → .longestPaths ∈ done.filterMap key?

theorem mem_keys_concat {done : List Entry} {entry : Entry} {key : Key} :
    key ∈ (done ++ [entry]).filterMap key? ↔ key ∈ done.filterMap key? ∨ key ∈ entry.key? := by
  rw [List.filterMap_append, List.mem_append, List.mem_filterMap (l := [entry])]
  simp

theorem Collected.gather {done : List Entry} {gathered : Gathered}
    {progress : Settings.Draft.Progress} (collected : Collected done gathered progress)
    {entry : Entry} (written : ∃ written, entry.WrittenAs written) (valued : entry.HasValue)
    (fresh : ∀ key ∈ entry.key?, key ∉ done.filterMap key?) :
    ∃ next, entry.gather gathered = .ok next ∧
      ∃ progress, Collected (done ++ [entry]) next progress := by
  obtain ⟨written, writtenAs⟩ := written
  have given : (done ++ [entry]).foldl give {} =
      entry.give ⟨progress.draft, gathered.longestPaths⟩ := by
    rw [collected.draft, List.foldl_append]
    rfl
  cases writtenAs with
  | @common entry written writtenAs other =>
      obtain ⟨-, read, reads⟩ | ⟨unvalued, -⟩ := entry.reading_cases
      · have noted : entry.note progress =
            .ok ⟨entry.give progress.draft, entry.key?.toList ++ progress.met⟩ :=
          Settings.Entry.note_of_fresh fun key gives met =>
            fresh (.common key) (Option.map_eq_some_iff.mpr ⟨key, gives, rfl⟩)
              (collected.met key met)
        refine ⟨{ gathered with others := gathered.others.push read },
          by rw [Entry.gather, reads]; rfl,
          ⟨entry.give progress.draft, entry.key?.toList ++ progress.met⟩,
          ?_, given.symm, fun key met => ?_, fun some => ?_⟩
        · rw [Array.toList_push, List.foldlM_append, collected.interpreted]
          change [read].foldlM Settings.Draft.interpret progress = _
          rw [List.foldlM_cons, Settings.Entry.interpret_reading writtenAs reads, noted]
          rfl
        · refine mem_keys_concat.mpr ((List.mem_append.mp met).symm.imp (collected.met key) ?_)
          exact fun gives => Option.map_eq_some_iff.mpr ⟨key, Option.mem_toList.mp gives, rfl⟩
        · exact mem_keys_concat.mpr (.inl (collected.wanted some))
      · contradiction
  | longestPaths wanted =>
      have unmet : ¬ gathered.longestPaths.isSome = true := fun some =>
        fresh .longestPaths rfl (collected.wanted some)
      refine ⟨_, if_neg unmet, progress, collected.interpreted, given.symm, fun key met => ?_,
        fun _ => ?_⟩
      · exact mem_keys_concat.mpr (.inl (collected.met key met))
      · exact mem_keys_concat.mpr (.inr rfl)

/-- Entries that give no setting twice are gathered if all values can be held. -/
theorem foldlM_gather {entries : List Entry} (once : (entries.filterMap key?).Nodup)
    (written : ∀ entry ∈ entries, ∃ written, entry.WrittenAs written)
    (valued : ∀ entry ∈ entries, entry.HasValue) :
    ∃ gathered, entries.foldlM gather {} = .ok gathered ∧
      ∃ progress, Collected entries gathered progress := by
  refine exists_foldlM_of_nodup (fun done gathered => ∃ progress, Collected done gathered progress)
    ?_ (by rwa [List.nil_append]) ?_
  · rintro done entry member gathered ⟨progress, collected⟩ fresh
    exact collected.gather (written entry member) (valued entry member) fresh
  · exact ⟨{}, rfl, rfl, fun _ met => absurd met List.not_mem_nil, nofun⟩

/-- The first value that cannot be held makes the document malformed. -/
theorem foldlM_gather_of_not {entries : List Entry} (once : (entries.filterMap key?).Nodup)
    (written : ∀ entry ∈ entries, ∃ written, entry.WrittenAs written)
    (unvalued : ¬ ∀ entry ∈ entries, entry.HasValue) :
    entries.foldlM gather {} = .error .malformed := by
  have refused : ∃ entry ∈ entries, ∃ _ : Unit, ¬ entry.HasValue := by simpa using unvalued
  obtain ⟨_, before, entry, after, rfl, valued, unheld⟩ := exists_firstRefused.mpr refused
  have onceBefore := once.sublist ((List.sublist_append_left before _).filterMap key?)
  obtain ⟨gathered, gathers, -⟩ := foldlM_gather onceBefore
    (fun entry member => written entry (List.mem_append_left _ member))
    (fun entry member => not_not.mp (valued entry member ()))
  rw [List.foldlM_append, gathers]
  change (entry :: after).foldlM gather gathered = _
  cases entry with
  | common entry =>
      obtain ⟨held, -⟩ | ⟨-, unread⟩ := entry.reading_cases
      · exact absurd held unheld
      · rw [List.foldlM_cons, gather, unread]
        rfl
  | longestPaths wanted => exact absurd trivial unheld

end Entry

end SortSettings

end GraphAnalytics
