/-
# Page geometry and byte estimates

A paged array keeps its elements in pages of at most `pageBytes` bytes. A page holds a power of
two of elements, so that an index splits into a page and an offset by a shift and a mask; the shift
depends on the element width alone. The estimates below are pure functions of capacity and width:
nothing is allocated to find out how much would be.
-/

import GraphAnalytics.Word

namespace GraphAnalytics.Memory

open Word

/-- No page is larger than this many bytes, unless a single element is. -/
def pageBytes : Nat := 32768

def arrayHeaderBytes : Nat := 48

def pagePointerBytes : Nat := 16

/-- The exponent of the page size: the largest power of two of elements of `width` bytes that fits
a page. Elements without width count as one byte wide, and an element wider than a page gets a
page of its own. -/
def pageShift (width : Nat) : Nat := (pageBytes / max width 1).log2

def pageSize (width : Nat) : Nat := 1 <<< pageShift width

def pageCount (capacity width : Nat) : Nat := ceilDiv capacity (pageSize width)

/-- The bytes of a paged array: header, one pointer per page, and the elements. -/
def arrayBytes (capacity width : Nat) : Nat :=
  satAdd (satAdd arrayHeaderBytes (satMul (pageCount capacity width) pagePointerBytes))
    (satMul capacity width)

/-- The buckets of a hash table for `entries` entries: a power of two of which at most seven
eighths are filled. -/
def tableBuckets (entries : Nat) : Nat :=
  if entries < 4 then 4
  else if entries < 8 then 8
  else ceilPower (satMul entries 8 / 7)

/-- The bytes of a hash table: per bucket an entry and a control byte, and a trailing group. An
empty table owns nothing. The control byte is added before anything saturates, so entries as wide as
the largest word lose their width. -/
def tableBytes (entries entryWidth : Nat) : Nat :=
  if entries = 0 then 0
  else satAdd (satMul (tableBuckets entries) (wrap (entryWidth + 1))) 16

/-- The bytes of a bit set of `bits` bits: whole words of eight bytes. -/
def bitSetBytes (bits : Nat) : Nat := ceilDiv bits 64 * 8

/-- A list of `entries` entries of `entryBytes` bytes each can be addressed: offsets into it stay
below `2 ^ 63`. -/
def Addressable (entries entryBytes : Nat) : Prop := entries * entryBytes < 0x8000000000000000

instance (entries entryBytes : Nat) : Decidable (Addressable entries entryBytes) :=
  inferInstanceAs (Decidable (_ < _))

theorem pageSize_pos (width : Nat) : 0 < pageSize width := by
  rw [pageSize, Nat.one_shiftLeft]
  exact Nat.two_pow_pos _

theorem arrayBytes_le_top (capacity width : Nat) : arrayBytes capacity width ≤ top :=
  clip_le _

end GraphAnalytics.Memory
