/-
# Byte estimates of hash tables

A table has a power of two of buckets, at least four. Its entries fill no more than seven eighths of
them, and of fewer than eight buckets one stays free. The number of buckets is found from eight
sevenths of the entries, rounded down. That is enough, because eight divides the number of buckets:
what is rounded off is no whole entry.

The product is clipped before it is divided, and eight entries for each seven of the largest word
are held by `2 ^ 62` buckets. Tables that need more buckets are taken for tables of that many, so
the bytes of their entries are understated (`tableBytes_suffices_iff`), unless entries are so wide
that the estimate is the largest word either way.
-/

import GraphAnalytics.Memory.Geometry
import GraphAnalytics.Proofs.Word
import Mathlib.Order.Bounds.Basic

namespace GraphAnalytics.Memory

open Word

/-- A table of so many buckets is not too full with so many entries. -/
def Holds (buckets entries : Nat) : Prop :=
  if buckets < 8 then entries ≤ buckets - 1 else 8 * entries ≤ 7 * buckets

/-- The numbers of buckets that a table for so many entries can have. -/
def tableSizes (entries : Nat) : Set Nat :=
  {buckets | buckets.isPowerOfTwo ∧ 4 ≤ buckets ∧ Holds buckets entries}

/-- The buckets that a table needs, without clipping. -/
def neededBuckets (entries : Nat) : Nat :=
  if entries < 4 then 4 else if entries < 8 then 8 else ceilPower (entries * 8 / 7)

variable {entries more buckets : Nat}

/-! ### The least table -/

theorem eight_dvd_or_le_four (power : buckets.isPowerOfTwo) : 8 ∣ buckets ∨ buckets ≤ 4 := by
  obtain ⟨exponent, rfl⟩ := power
  by_cases large : 3 ≤ exponent
  · exact .inl (Nat.pow_dvd_pow 2 large)
  · exact .inr (Nat.pow_le_pow_right Nat.two_pos (show exponent ≤ 2 by omega))

/-- From eight entries on a table is large enough exactly if it has eight sevenths of the entries,
rounded down. -/
theorem holds_iff (large : 8 ≤ entries) (power : buckets.isPowerOfTwo) :
    Holds buckets entries ↔ entries * 8 / 7 ≤ buckets := by
  unfold Holds
  obtain ⟨eighth, rfl⟩ | small := eight_dvd_or_le_four power
  · split <;> omega
  · rw [if_pos (by omega)]
    omega

theorem isLeast_neededBuckets (entries : Nat) :
    IsLeast (tableSizes entries) (neededBuckets entries) := by
  unfold neededBuckets
  split
  · next few =>
      refine ⟨⟨⟨2, rfl⟩, Nat.le_refl 4, ?_⟩, fun buckets size => size.2.1⟩
      exact Nat.le_of_lt_succ few
  split
  · next many few =>
      refine ⟨⟨⟨3, rfl⟩, by decide, ?_⟩, fun buckets size => ?_⟩
      · show 8 * entries ≤ 7 * 8
        omega
      · obtain ⟨power, four, holds⟩ := size
        unfold Holds at holds
        obtain eighth | small := eight_dvd_or_le_four power
        · omega
        · rw [if_pos (by omega)] at holds
          omega
  · next many =>
      have large : 8 ≤ entries := Nat.le_of_not_lt many
      have enough := le_ceilPower (entries * 8 / 7)
      have power := isPowerOfTwo_ceilPower (entries * 8 / 7)
      refine ⟨⟨power, by omega, (holds_iff large power).mpr enough⟩, fun buckets size => ?_⟩
      obtain ⟨power, -, holds⟩ := size
      have least := (holds_iff large power).mp holds
      obtain ⟨exponent, rfl⟩ := power
      exact ceilPower_le_iff.mpr least

theorem tableSizes_anti (le : entries ≤ more) : tableSizes more ⊆ tableSizes entries := by
  rintro buckets ⟨power, four, holds⟩
  refine ⟨power, four, ?_⟩
  unfold Holds at holds ⊢
  split at holds
  · next small =>
      rw [if_pos small]
      omega
  · next large =>
      rw [if_neg large]
      omega

theorem neededBuckets_mono (le : entries ≤ more) : neededBuckets entries ≤ neededBuckets more :=
  (isLeast_neededBuckets entries).2 (tableSizes_anti le (isLeast_neededBuckets more).1)

/-- Tables of up to `2 ^ 62` buckets are those for up to seven eighths of as many entries. -/
theorem neededBuckets_le_iff : neededBuckets entries ≤ 2 ^ 62 ↔ entries ≤ 7 * 2 ^ 59 := by
  have least := isLeast_neededBuckets entries
  constructor
  · intro small
    obtain ⟨-, -, holds⟩ := least.1
    unfold Holds at holds
    split at holds <;> omega
  · intro few
    exact least.2 ⟨⟨62, rfl⟩, by decide, by
      show 8 * entries ≤ 7 * 2 ^ 62
      omega⟩

/-! ### The table that is counted -/

theorem tableBuckets_eq (entries : Nat) :
    tableBuckets entries = min (neededBuckets entries) (2 ^ 62) := by
  have highest : ceilPower (top / 7) = 2 ^ 62 := by decide
  unfold tableBuckets neededBuckets
  split
  · rfl
  split
  · rfl
  · rw [satMul_div, ceilPower_mono.map_min, highest]

/-- The bytes of entries that are narrower than the largest word are exact up to the clipping. -/
theorem tableBytes_eq (some : 0 < entries) {width : Nat} (narrow : width < top) :
    tableBytes entries width = clip (min (neededBuckets entries) (2 ^ 62) * (width + 1) + 16) := by
  have group : 16 = clip 16 := rfl
  rw [tableBytes, if_neg (Nat.ne_of_gt some), tableBuckets_eq, satMul, group, satAdd_clip,
    wrap_eq_self_iff.mpr narrow]
  rfl

theorem tableBytes_mono {width wider : Nat} (le : entries ≤ more) (widths : width ≤ wider)
    (narrow : wider < top) : tableBytes entries width ≤ tableBytes more wider := by
  rcases Nat.eq_zero_or_pos entries with rfl | some
  · exact Nat.zero_le _
  · rw [tableBytes_eq some (Nat.lt_of_le_of_lt widths narrow),
      tableBytes_eq (Nat.lt_of_lt_of_le some le) narrow]
    have buckets : min (neededBuckets entries) (2 ^ 62) ≤ min (neededBuckets more) (2 ^ 62) :=
      Nat.le_min.mpr ⟨Nat.le_trans (Nat.min_le_left _ _) (neededBuckets_mono le),
        Nat.min_le_right _ _⟩
    have bytes := Nat.mul_le_mul buckets (Nat.succ_le_succ widths)
    exact clip_mono (Nat.add_le_add_right bytes 16)

/-- For every number of entries there is a least table that holds them. Its bytes are never
overstated, and they are not understated if and only if it needs no more than `2 ^ 62` buckets or
its entries have at least three bytes. The estimate grows with the entries and with their width, as
long as an entry and its control byte together are no wider than the largest word. -/
theorem tableBytes_suffices_iff (some : 0 < entries) {width : Nat} (narrow : width < top) :
    ∃ buckets, IsLeast (tableSizes entries) buckets ∧
      tableBytes entries width ≤ clip (buckets * (width + 1) + 16) ∧
      (clip (buckets * (width + 1) + 16) ≤ tableBytes entries width ↔
        entries ≤ 7 * 2 ^ 59 ∨ 3 ≤ width) ∧
      ∀ more wider, entries ≤ more → width ≤ wider → wider < top →
        tableBytes entries width ≤ tableBytes more wider := by
  have least := isLeast_neededBuckets entries
  refine ⟨_, least, ?_, ?_, fun more wider => tableBytes_mono⟩
  · rw [tableBytes_eq some narrow]
    have fewer : min (neededBuckets entries) (2 ^ 62) ≤ neededBuckets entries := Nat.min_le_left _ _
    have bytes := Nat.mul_le_mul_right (width + 1) fewer
    exact clip_mono (Nat.add_le_add_right bytes 16)
  · rw [tableBytes_eq some narrow, ← neededBuckets_le_iff]
    by_cases few : neededBuckets entries ≤ 2 ^ 62
    · rw [Nat.min_eq_left few]
      exact iff_of_true (Nat.le_refl _) (.inl few)
    · have many : 2 ^ 62 + 1 ≤ neededBuckets entries := Nat.lt_of_not_le few
      have bytes := Nat.mul_le_mul_right (width + 1) many
      rw [Nat.min_eq_right (Nat.le_of_not_le few)]
      simp only [clip, top, few, false_or]
      omega

/-- Fourteen entries fill sixteen buckets as far as they may be filled. -/
theorem tableBytes_suffices_iff_full :
    0 < 14 ∧ 16 < top ∧ IsLeast (tableSizes 14) 16 ∧ tableBytes 14 16 ≤ clip (16 * (16 + 1) + 16) ∧
      clip (16 * (16 + 1) + 16) ≤ tableBytes 14 16 ∧ tableBytes 14 16 ≤ tableBytes 15 24 := by
  have some : 0 < 14 := by decide
  have narrow : 16 < top := by decide
  have needed : neededBuckets 14 = 16 := by decide
  obtain ⟨buckets, least, within, suffices_iff, grows⟩ := tableBytes_suffices_iff some narrow
  obtain rfl : buckets = 16 := least.unique (needed ▸ isLeast_neededBuckets 14)
  exact ⟨some, narrow, least, within, suffices_iff.mpr (.inl (by decide)),
    grows 15 24 (by decide) (by decide) (by decide)⟩

/-- As many entries without width as `2 ^ 62` buckets would be filled with: they need twice as many
buckets, each with its control byte. -/
theorem tableBytes_understated :
    IsLeast (tableSizes (2 ^ 62)) (2 ^ 63) ∧ tableBytes (2 ^ 62) 0 = 2 ^ 62 + 16 ∧
      tableBytes (2 ^ 62) 0 < clip (2 ^ 63 * (0 + 1) + 16) := by
  have needed : neededBuckets (2 ^ 62) = 2 ^ 63 := by decide
  exact ⟨needed ▸ isLeast_neededBuckets (2 ^ 62), by decide, by decide⟩

end GraphAnalytics.Memory
