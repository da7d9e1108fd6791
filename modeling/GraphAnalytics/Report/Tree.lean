/-
# File trees

The files a report is made from and the file it is written to, as a tree. A directory lists its
entries in whatever order they are met.
-/

namespace GraphAnalytics.Report

/-- A file with its text, or a directory with what is in it, by name. -/
inductive Tree where
  | file (text : String)
  | directory (entries : List (String × Tree))

namespace Tree

def empty : Tree := directory []

def child? (name : String) : Tree → Option Tree
  | directory entries => (entries.find? fun entry => entry.1 = name).map Prod.snd
  | file _ => none

def find? : List String → Tree → Option Tree
  | [], tree => some tree
  | name :: path, tree => (tree.child? name).bind (find? path)

def text? (path : List String) (tree : Tree) : Option String :=
  match tree.find? path with
  | some (file text) => some text
  | _ => none

/-- Put an entry in place of the one with its name, or behind all others if there is none. -/
def put (name : String) (entry : Tree) : List (String × Tree) → List (String × Tree)
  | [] => [(name, entry)]
  | other :: entries =>
      if other.1 = name then (name, entry) :: entries else other :: put name entry entries

/-- Write a file at the end of a path, with the directories that lead to it. There is no result if a
file is in the way of a directory, or a directory in the way of the file. -/
def write? (text : String) : List String → Tree → Option Tree
  | [], file _ => some (file text)
  | [], directory _ => none
  | _ :: _, file _ => none
  | name :: path, directory entries =>
      let existing := ((directory entries).child? name).getD
        (if path.isEmpty then file "" else empty)
      (write? text path existing).map fun entry => directory (put name entry entries)

end Tree

end GraphAnalytics.Report
