/-
# Bit sets

A set of indices below a fixed bound, packed sixty-four to a word. Setting a bit is one atomic
access to one word and answers whether the bit was clear, so of any number of calls for one index
exactly the first is told so.
-/

import GraphAnalytics.Fault
import GraphAnalytics.Word

namespace GraphAnalytics

/-- A set of indices below `bits`, kept in words of sixty-four bits, lowest index first. -/
structure BitSet where
  bits : Nat
  words : Array Nat
  size_words : words.size = Word.ceilDiv bits 64

namespace BitSet

def empty (bits : Nat) : BitSet where
  bits
  words := Array.replicate (Word.ceilDiv bits 64) 0
  size_words := by simp

def wordOf (bit : Nat) : Nat := bit >>> 6

def maskOf (bit : Nat) : Nat := 1 <<< (bit &&& 63)

/-- The word with this number; words that do not exist are zero. -/
def word (set : BitSet) (number : Nat) : Nat := (set.words[number]?).getD 0

def test (set : BitSet) (bit : Nat) : Bool := set.word (wordOf bit) &&& maskOf bit != 0

def insert (set : BitSet) (bit : Nat) : BitSet where
  bits := set.bits
  words := set.words.modify (wordOf bit) (· ||| maskOf bit)
  size_words := by rw [Array.size_modify]; exact set.size_words

def clear (set : BitSet) : BitSet := empty set.bits

def ones (word : Nat) : Nat := (List.range 64).countP word.testBit

def count (set : BitSet) : Nat := set.words.toList.foldr (fun word total => ones word + total) 0

def contains (bit : Nat) (set : BitSet) : Except Violation Bool :=
  if bit < set.bits then .ok (set.test bit) else .error (.indexOutOfBounds bit set.bits)

/-- Put an index into the set and answer whether it was new, in one access. -/
def testAndSet (bit : Nat) : Guarded Violation BitSet Bool :=
  .ofFunction fun set =>
    if bit < set.bits then
      let fresh := !set.test bit
      (.ok fresh, set.insert bit)
    else (.error (.indexOutOfBounds bit set.bits), set)

end BitSet

end GraphAnalytics
