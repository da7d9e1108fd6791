/-
# File trees by their paths

A file system does not promise an order in which it lists a directory. What it promises is that the
entries of one directory have different names, and that a name is not empty and has no slash in it.
In a tree that keeps this promise (`Named`) a path leads to one entry at most, wherever that stands
in its directory, so trees that differ in the order of entries only have the same files at the end
of the same paths; and a path that is written with slashes can be read off again.
-/

import GraphAnalytics.Report.CommandLine
import Mathlib.Data.List.Nodup

namespace GraphAnalytics.Report

/-! ### Names -/

/-- What an entry of a directory can be called. -/
def IsName (name : String) : Prop := name ≠ "" ∧ '/' ∉ name.toList

theorem pathText_injective {path other : List String} (names : ∀ name ∈ path, IsName name)
    (names' : ∀ name ∈ other, IsName name) (same : pathText path = pathText other) :
    path = other := by
  have parts {path : List String} (names : ∀ name ∈ path, IsName name) :
      ((pathText path).split '/').toList.map (·.copy) = if path = [] then [""] else path :=
    String.toList_split_intercalate fun name member => (names name member).2
  -- A path of one empty name would be written as the empty path is.
  have nonempty {path : List String} (names : ∀ name ∈ path, IsName name) : path ≠ [""] := by
    rintro rfl
    exact (names "" (List.mem_singleton_self "")).1 rfl
  have texts := (parts names).symm.trans (same ▸ parts names')
  split at texts <;> split at texts
  · next first second => rw [first, second]
  · exact absurd texts.symm (nonempty names')
  · exact absurd texts (nonempty names)
  · exact texts

namespace Tree

/-! ### Entries by name -/

/-- In every directory of the tree the entries have names of their own. -/
inductive Named : Tree → Prop
  | file (text : String) : Named (.file text)
  | directory {entries : List (String × Tree)} (distinct : (entries.map Prod.fst).Nodup)
      (names : ∀ entry ∈ entries, IsName entry.1) (below : ∀ entry ∈ entries, Named entry.2) :
      Named (.directory entries)

theorem child?_eq_some_iff {entries : List (String × Tree)}
    (distinct : (entries.map Prod.fst).Nodup) {name : String} {tree : Tree} :
    (directory entries).child? name = some tree ↔ (name, tree) ∈ entries := by
  rw [child?]
  induction entries with
  | nil => simp
  | cons entry entries ih =>
      obtain ⟨own, sub⟩ := entry
      obtain ⟨fresh, others⟩ := List.nodup_cons.mp distinct
      rw [List.find?_cons, List.mem_cons, Prod.mk.injEq]
      by_cases here : own = name
      · subst here
        have gone : (own, tree) ∉ entries := fun member =>
          fresh (List.mem_map.mpr ⟨(own, tree), member, rfl⟩)
        simp [gone, eq_comm]
      · rw [decide_eq_false here]
        simp only [ih others, Ne.symm here, false_and, false_or]

theorem find?_append (path more : List String) (tree : Tree) :
    tree.find? (path ++ more) = (tree.find? path).bind (find? more) := by
  induction path generalizing tree with
  | nil => rfl
  | cons name path ih =>
      rw [List.cons_append, find?, find?]
      cases tree.child? name with
      | none => rfl
      | some sub => exact ih sub

theorem Named.isName {tree sub : Tree} (named : tree.Named) {path : List String}
    (found : tree.find? path = some sub) : ∀ name ∈ path, IsName name := by
  induction path generalizing tree with
  | nil => exact fun _ member => absurd member List.not_mem_nil
  | cons name path ih =>
      rw [find?] at found
      obtain ⟨child, here, below⟩ := Option.bind_eq_some_iff.mp found
      cases named with
      | file text => cases here
      | directory distinct names named =>
          have member := (child?_eq_some_iff distinct).mp here
          exact List.forall_mem_cons.mpr ⟨names _ member, ih (named _ member) below⟩

/-! ### Files by path -/

def SameFiles (tree other : Tree) : Prop := ∀ path, tree.text? path = other.text? path

theorem text?_append (path more : List String) (tree : Tree) :
    tree.text? (path ++ more) = (tree.find? path).bind (text? more) := by
  rw [text?, find?_append]
  cases tree.find? path <;> rfl

theorem text?_cons (name : String) (path : List String) (tree : Tree) :
    tree.text? (name :: path) = (tree.child? name).bind (text? path) := by
  rw [text?, find?]
  cases tree.child? name <;> rfl

/-- The entries of some directories of a tree in another order. -/
inductive Rearranged : Tree → Tree → Prop
  | refl (tree : Tree) : Rearranged tree tree
  | perm {entries entries' : List (String × Tree)} (perm : entries.Perm entries') :
      Rearranged (.directory entries) (.directory entries')
  | inside {before after : List (String × Tree)} {name : String} {tree tree' : Tree}
      (rearranged : Rearranged tree tree') :
      Rearranged (.directory (before ++ (name, tree) :: after))
        (.directory (before ++ (name, tree') :: after))
  | trans {first second third : Tree} (one : Rearranged first second)
      (two : Rearranged second third) : Rearranged first third

namespace Rearranged

variable {tree other : Tree}

theorem named (rearranged : tree.Rearranged other) (named : tree.Named) : other.Named := by
  induction rearranged with
  | refl => exact named
  | perm perm =>
      cases named with
      | directory distinct names below =>
          exact .directory ((perm.map Prod.fst).nodup_iff.mp distinct)
            (fun entry member => names entry (perm.mem_iff.mpr member))
            (fun entry member => below entry (perm.mem_iff.mpr member))
  | inside _ ih =>
      cases named with
      | directory distinct names below =>
          refine .directory (by simpa using distinct) ?_ ?_
          · simpa [or_imp, forall_and] using names
          · simp only [List.mem_append, List.mem_cons, or_imp, forall_and, forall_eq] at below ⊢
            exact ⟨below.1, ih below.2.1, below.2.2⟩
  | trans _ _ first second => exact second (first named)

/-- The order of entries does not matter to paths. -/
theorem sameFiles (rearranged : tree.Rearranged other) (named : tree.Named) :
    tree.SameFiles other := by
  induction rearranged with
  | refl => exact fun _ => rfl
  | @perm entries entries' perm =>
      rintro (_ | ⟨name, path⟩)
      · rfl
      · cases named with
        | directory distinct _ _ =>
            have distinct' := (perm.map Prod.fst).nodup_iff.mp distinct
            have same : (Tree.directory entries).child? name =
                (Tree.directory entries').child? name := by
              ext sub
              rw [child?_eq_some_iff distinct, child?_eq_some_iff distinct', perm.mem_iff]
            rw [text?_cons, text?_cons, same]
  | @inside before after name tree tree' _ ih =>
      rintro (_ | ⟨wanted, path⟩)
      · rfl
      · cases named with
        | directory _ _ below =>
            have deeper := ih (below (name, tree) (by simp)) path
            rw [text?_cons, text?_cons, child?, child?, List.find?_append, List.find?_append]
            cases before.find? fun entry => entry.1 = wanted with
            | some entry => rfl
            | none =>
                by_cases here : name = wanted
                · simpa [here] using deeper
                · simp [here]
  | trans one _ first second =>
      exact fun path => (first named path).trans (second (one.named named) path)

end Rearranged

/-! ### Writing -/

/-- Something is in the way of a file at the end of a path: a file where the path needs a directory,
or a directory where the file goes. -/
def Blocked (path : List String) (tree : Tree) : Prop :=
  (∃ before name after text, path = before ++ name :: after ∧
      tree.find? before = some (.file text)) ∨
    ∃ entries, tree.find? path = some (.directory entries)

/-- In a directory something is in the way if it is so in the entry to which the path leads. -/
theorem blocked_cons {name : String} {path : List String} {entries : List (String × Tree)} :
    (directory entries).Blocked (name :: path) ↔
      ∃ tree, (directory entries).child? name = some tree ∧ tree.Blocked path := by
  constructor
  · rintro (⟨_ | ⟨own, before⟩, next, after, text, split, found⟩ | ⟨below, found⟩)
    · cases found
    · obtain ⟨rfl, rfl⟩ := List.cons_eq_cons.mp split
      obtain ⟨tree, here, found⟩ := Option.bind_eq_some_iff.mp found
      exact ⟨tree, here, .inl ⟨before, next, after, text, rfl, found⟩⟩
    · obtain ⟨tree, here, found⟩ := Option.bind_eq_some_iff.mp found
      exact ⟨tree, here, .inr ⟨below, found⟩⟩
  · rintro ⟨tree, here, ⟨before, next, after, text, rfl, found⟩ | ⟨below, found⟩⟩
    · refine .inl ⟨name :: before, next, after, text, rfl, ?_⟩
      rw [find?, here]
      exact found
    · refine .inr ⟨below, ?_⟩
      rw [find?, here]
      exact found

theorem not_blocked_fresh (path : List String) :
    ¬ Blocked path (if path.isEmpty then file "" else empty) := by
  cases path with
  | nil => simp [Blocked, find?]
  | cons name path =>
      intro blocked
      obtain ⟨tree, here, -⟩ := blocked_cons.mp blocked
      cases here

theorem child?_put (name : String) (tree : Tree) (entries : List (String × Tree)) :
    (directory (put name tree entries)).child? name = some tree := by
  rw [child?]
  induction entries with
  | nil => simp [put]
  | cons entry entries ih =>
      rw [put]
      split
      · simp
      · next other => simpa [other] using ih

theorem text?_write? {text : String} {path : List String} {tree after : Tree}
    (written : tree.write? text path = some after) : after.text? path = some text := by
  induction path generalizing tree after with
  | nil =>
      cases tree with
      | file old =>
          obtain rfl := Option.some.inj written
          rfl
      | directory entries => cases written
  | cons name path ih =>
      cases tree with
      | file old => cases written
      | directory entries =>
          rw [write?] at written
          obtain ⟨entry, inner, rfl⟩ := Option.map_eq_some_iff.mp written
          rw [text?_cons, child?_put]
          exact ih inner

/-- A file cannot be written if something is in its way, and else it can. -/
theorem write?_eq_none_iff {text : String} {path : List String} {tree : Tree} :
    tree.write? text path = none ↔ tree.Blocked path := by
  induction path generalizing tree with
  | nil =>
      cases tree with
      | file old => simp [write?, Blocked, find?]
      | directory entries => simp [write?, Blocked, find?]
  | cons name path ih =>
      cases tree with
      | file old => exact iff_of_true rfl (.inl ⟨[], name, path, old, rfl, rfl⟩)
      | directory entries =>
          rw [write?, Option.map_eq_none_iff, ih, blocked_cons]
          cases here : (directory entries).child? name with
          | none => exact iff_of_false (not_blocked_fresh path) (by simp)
          | some sub => simp

end Tree

end GraphAnalytics.Report
