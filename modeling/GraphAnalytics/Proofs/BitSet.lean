/-
# Membership in bit sets

An index is one bit of one word, so inserting it changes the answer for that index and for no other,
whether or not they share a word.
-/

import GraphAnalytics.BitSet
import Mathlib.Data.Nat.Bitwise

namespace GraphAnalytics.BitSet

theorem wordOf_eq (index : Nat) : wordOf index = index / 64 := Nat.shiftRight_eq_div_pow index 6

theorem maskOf_eq (index : Nat) : maskOf index = 2 ^ (index % 64) := by
  have place : index &&& 63 = index % 64 := Nat.and_two_pow_sub_one_eq_mod index 6
  rw [maskOf, place, Nat.one_shiftLeft]

theorem test_eq_testBit (set : BitSet) (index : Nat) :
    set.test index = (set.word (index / 64)).testBit (index % 64) := by
  rw [test, wordOf_eq, maskOf_eq, Nat.and_two_pow]
  cases (set.word (index / 64)).testBit (index % 64) with
  | false => simp
  | true => simp

@[simp] theorem test_empty (bits index : Nat) : (empty bits).test index = false := by
  have clear : (empty bits).word (index / 64) = 0 := by
    rw [word, empty]
    by_cases inside : index / 64 < Word.ceilDiv bits 64
    · simp [inside]
    · simp [inside]
  rw [test_eq_testBit, clear, Nat.zero_testBit]

theorem test_insert (set : BitSet) {index : Nat} (h : index < set.bits) (other : Nat) :
    (set.insert index).test other = (decide (index = other) || set.test other) := by
  have room : index / 64 < set.words.size := by
    rw [set.size_words, Word.ceilDiv]
    omega
  have words : (set.insert index).word (other / 64) =
      if index / 64 = other / 64 then set.word (other / 64) ||| 2 ^ (index % 64)
      else set.word (other / 64) := by
    rw [word, word]
    simp only [insert, wordOf_eq, maskOf_eq, Array.getElem?_modify]
    split
    · next same => rw [← same, Array.getElem?_eq_getElem room]; rfl
    · rfl
  rw [test_eq_testBit, words, test_eq_testBit, Bool.or_comm]
  by_cases same : index / 64 = other / 64
  · rw [if_pos same, Nat.testBit_or, Nat.testBit_two_pow]
    congr 1
    exact decide_eq_decide.mpr (by omega)
  · rw [if_neg same, decide_eq_false (by rintro rfl; exact same rfl), Bool.or_false]

@[simp] theorem bits_insert (set : BitSet) (index : Nat) : (set.insert index).bits = set.bits := rfl

theorem contains_of_lt (set : BitSet) {index : Nat} (h : index < set.bits) :
    set.contains index = .ok (set.test index) := if_pos h

end GraphAnalytics.BitSet
