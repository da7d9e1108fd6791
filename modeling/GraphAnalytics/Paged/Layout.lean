/-
# Splitting an index into page and offset

All pages but the last hold exactly `pageSize` elements, and the last holds what remains, so the
pages cover the capacity exactly. An index names its page by a shift and its place in the page by a
mask. The lemmas say that this pair always names an existing slot and that the slot determines the
index.
-/

import GraphAnalytics.Memory.Geometry

namespace GraphAnalytics.Paged

open Memory Word

@[inline] def pageOf (width index : Nat) : Nat := index >>> pageShift width

@[inline] def offsetOf (width index : Nat) : Nat := index &&& (pageSize width - 1)

/-- A place in a paged array: a page, and a place within the page. -/
structure Slot where
  page : Nat
  offset : Nat
  deriving DecidableEq, Repr

/-- The slot of element `index`. -/
@[inline] def slotOf (width index : Nat) : Slot := ⟨pageOf width index, offsetOf width index⟩

def pageStart (width page : Nat) : Nat := page <<< pageShift width

def Slot.index (width : Nat) (slot : Slot) : Nat := pageStart width slot.page + slot.offset

/-- The number of elements in a page of an array of `capacity` elements. -/
def pageLength (capacity width page : Nat) : Nat :=
  min (capacity - pageStart width page) (pageSize width)

theorem pageOf_eq (width index : Nat) : pageOf width index = index / pageSize width := by
  rw [pageSize, Nat.one_shiftLeft]
  exact Nat.shiftRight_eq_div_pow _ _

theorem offsetOf_eq (width index : Nat) : offsetOf width index = index % pageSize width := by
  rw [offsetOf, pageSize, Nat.one_shiftLeft]
  exact Nat.and_two_pow_sub_one_eq_mod _ _

theorem pageStart_eq (width page : Nat) : pageStart width page = page * pageSize width := by
  rw [pageSize, Nat.one_shiftLeft]
  exact Nat.shiftLeft_eq _ _

theorem pageStart_add_offsetOf (width index : Nat) :
    pageStart width (pageOf width index) + offsetOf width index = index := by
  rw [pageStart_eq, pageOf_eq, offsetOf_eq]
  exact Nat.div_add_mod' index (pageSize width)

theorem pageOf_lt {capacity width index : Nat} (h : index < capacity) :
    pageOf width index < pageCount capacity width := by
  have pos := pageSize_pos width
  rw [pageOf_eq, pageCount, ceilDiv, Nat.div_lt_iff_lt_mul pos]
  have := Nat.lt_div_mul_add (a := capacity + pageSize width - 1) pos
  omega

theorem offsetOf_lt {capacity width index : Nat} (h : index < capacity) :
    offsetOf width index < pageLength capacity width (pageOf width index) := by
  have split := pageStart_add_offsetOf width index
  have small : offsetOf width index < pageSize width := by
    rw [offsetOf_eq]; exact Nat.mod_lt _ (pageSize_pos width)
  unfold pageLength
  omega

theorem pageStart_add_lt {capacity width page offset : Nat}
    (h : offset < pageLength capacity width page) : pageStart width page + offset < capacity := by
  unfold pageLength at h
  omega

end GraphAnalytics.Paged
