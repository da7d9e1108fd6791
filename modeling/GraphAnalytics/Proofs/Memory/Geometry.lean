/-
# Byte estimates of paged arrays are exact

The page size is the largest power of two of elements that fits a page. It is found as a logarithm
of a quotient that was rounded down, which loses nothing: a power of two is below the quotient
exactly if so many elements fit.

The estimate is three saturating steps, and they clip the exact number of bytes once. So the
estimate grows with the capacity and with the width, although wider elements have smaller pages:
they have more of them. The pages that are counted are those that are allocated, unless the table of
pages could not be addressed; then nothing is allocated, although there is an estimate.
-/

import GraphAnalytics.Paged.Cells
import GraphAnalytics.Proofs.Word
import Mathlib.Order.Bounds.Basic

namespace GraphAnalytics.Memory

open Word

/-- The powers of two of elements that fit a page. Elements without width count as one byte wide,
and a single element is always taken to fit. -/
def pageSizes (width : Nat) : Set Nat :=
  {size | size.isPowerOfTwo ∧ (size = 1 ∨ size * max width 1 ≤ pageBytes)}

variable {capacity larger width wider : Nat}

/-! ### The page size -/

theorem pageSize_eq (width : Nat) : pageSize width = 2 ^ pageShift width := Nat.one_shiftLeft _

theorem isGreatest_pageSizes (width : Nat) :
    IsGreatest (pageSizes width) (2 ^ pageShift width) := by
  have positive : 0 < max width 1 := Nat.lt_of_lt_of_le Nat.one_pos (Nat.le_max_right _ _)
  have fits (size : Nat) : size * max width 1 ≤ pageBytes ↔ size ≤ pageBytes / max width 1 :=
    (Nat.le_div_iff_mul_le positive).symm
  constructor
  · refine ⟨⟨_, rfl⟩, ?_⟩
    by_cases wide : pageBytes / max width 1 = 0
    · left
      rw [pageShift, wide]
      rfl
    · exact .inr ((fits _).mpr (Nat.log2_self_le wide))
  · rintro _ ⟨⟨exponent, rfl⟩, single | several⟩
    · rw [single]
      exact Nat.two_pow_pos _
    · have quotient := (fits _).mp several
      have some : pageBytes / max width 1 ≠ 0 := by
        have := Nat.two_pow_pos exponent
        omega
      exact Nat.pow_le_pow_right Nat.two_pos ((Nat.le_log2 some).mpr quotient)

theorem pageSize_anti (widths : width ≤ wider) : pageSize wider ≤ pageSize width := by
  rw [pageSize_eq, pageSize_eq]
  obtain ⟨power, fits⟩ := (isGreatest_pageSizes wider).1
  refine (isGreatest_pageSizes width).2 ⟨power, fits.imp_right fun several => ?_⟩
  have narrower : max width 1 ≤ max wider 1 := by omega
  exact Nat.le_trans (Nat.mul_le_mul_left _ narrower) several

/-! ### The number of pages -/

theorem pageCount_mono (capacities : capacity ≤ larger) (widths : width ≤ wider) :
    pageCount capacity width ≤ pageCount larger wider :=
  ceilDiv_le_ceilDiv capacities (pageSize_pos wider) (pageSize_anti widths)

/-- The table of pages of any number of cells can be addressed. -/
theorem addressable_pageCount_eight (word : capacity ≤ top) :
    Addressable (pageCount capacity 8) pagePointerBytes := by
  have few : pageCount capacity 8 ≤ 0x10000000000000 := by
    rw [pageCount, ceilDiv_le_iff (pageSize_pos 8)]
    exact Nat.le_trans word (by decide)
  unfold Addressable pagePointerBytes
  omega

/-! ### The estimate -/

theorem arrayBytes_eq (capacity width : Nat) :
    arrayBytes capacity width =
      clip (arrayHeaderBytes + pageCount capacity width * pagePointerBytes + capacity * width) := by
  have header : arrayHeaderBytes = clip arrayHeaderBytes := rfl
  rw [arrayBytes, header, satMul, satMul, satAdd_clip, satAdd_clip]
  rfl

theorem arrayBytes_mono (capacities : capacity ≤ larger) (widths : width ≤ wider) :
    arrayBytes capacity width ≤ arrayBytes larger wider := by
  have pages := Nat.mul_le_mul_right pagePointerBytes (pageCount_mono capacities widths)
  have elements := Nat.mul_le_mul capacities widths
  rw [arrayBytes_eq, arrayBytes_eq]
  exact clip_mono (by omega)

/-! ### Allocated pages -/

variable {α : Type}

/-- An array is allocated with the pages that were counted, unless their table could not be
addressed. -/
theorem allocate_pageTotal (capacity width : Nat) (value : α) :
    if Addressable (pageCount capacity width) pagePointerBytes then
      ∃ array : PagedArray width α, PagedArray.allocate capacity value = .ok array ∧
        array.pageTotal = pageCount capacity width
    else (PagedArray.allocate capacity value : Except Violation (PagedArray width α)) =
      .error .capacityOverflow := by
  split
  · next room => exact ⟨.replicate capacity value, if_pos room, PagedArray.size_pages _⟩
  · next full => exact if_neg full

/-- For all capacities and widths the page size is the largest power of two of elements that fits a
page; as many pages are allocated as are counted, if their table can be addressed, as it always can
for cells; and the estimate is the exact number of bytes clipped to a word, so that it grows with
the capacity and with the width. -/
theorem estimates_exact (word : capacity ≤ top) (width : Nat) :
    IsGreatest (pageSizes width) (2 ^ pageShift width) ∧
    (∀ (α : Type) (value : α),
      if Addressable (pageCount capacity width) pagePointerBytes then
        ∃ array : PagedArray width α, PagedArray.allocate capacity value = .ok array ∧
          array.pageTotal = pageCount capacity width
      else (PagedArray.allocate capacity value : Except Violation (PagedArray width α)) =
        .error .capacityOverflow) ∧
    (∀ value : Int, ∃ cells : Cells, PagedArray.allocate capacity value = .ok cells ∧
      cells.pageTotal = pageCount capacity 8) ∧
    arrayBytes capacity width =
      min (arrayHeaderBytes + pageCount capacity width * pagePointerBytes + capacity * width)
        top ∧
    ∀ larger wider, capacity ≤ larger → width ≤ wider →
      arrayBytes capacity width ≤ arrayBytes larger wider := by
  refine ⟨isGreatest_pageSizes width, fun α value => allocate_pageTotal capacity width value,
    fun value => ?_, arrayBytes_eq capacity width,
    fun larger wider capacities widths => arrayBytes_mono capacities widths⟩
  have cells := allocate_pageTotal capacity 8 value
  rwa [if_pos (addressable_pageCount_eight word)] at cells

/-- Twelve full pages of three words each and a page with one element. -/
theorem estimates_exact_triples :
    12289 ≤ top ∧ Addressable (pageCount 12289 24) pagePointerBytes ∧
    IsGreatest (pageSizes 24) 1024 ∧
    (∃ array : PagedArray 24 Nat, PagedArray.allocate 12289 7 = .ok array ∧
      array.pageTotal = 13) ∧
    (∃ cells : Cells, PagedArray.allocate 12289 (-1) = .ok cells ∧ cells.pageTotal = 4) ∧
    arrayBytes 12289 24 = 48 + 13 * 16 + 12289 * 24 ∧
    arrayBytes 12289 24 ≤ arrayBytes 20000 30000 := by
  have word : 12289 ≤ top := by decide
  have room : Addressable (pageCount 12289 24) pagePointerBytes := by decide
  obtain ⟨greatest, paged, atomic, exact, grows⟩ := estimates_exact word 24
  have allocated := paged Nat 7
  rw [if_pos room] at allocated
  exact ⟨word, room, greatest, allocated, atomic (-1), exact,
    grows 20000 30000 (by decide) (by decide)⟩

/-- So many elements of more than a page each that the table of their pages cannot be addressed: the
pages are counted and none is allocated. -/
theorem counted_not_allocated :
    0x800000000000000 ≤ top ∧ pageCount 0x800000000000000 40000 = 0x800000000000000 ∧
    ¬ ∃ array : PagedArray 40000 Nat, PagedArray.allocate 0x800000000000000 0 = .ok array ∧
      array.pageTotal = pageCount 0x800000000000000 40000 := by
  have counted : pageCount 0x800000000000000 40000 = 0x800000000000000 := by decide
  have full : ¬ Addressable (pageCount 0x800000000000000 40000) pagePointerBytes := by
    rw [counted]
    decide
  refine ⟨by decide, counted, ?_⟩
  rintro ⟨array, allocated, -⟩
  rw [PagedArray.allocate, if_neg full] at allocated
  cases allocated

end GraphAnalytics.Memory
