/-
# Words and exact numbers

What a saturating step clips on the way is clipped in the end, so a chain of sums and products of
words is the exact result clipped once. Quotients and powers of two are rounded up to the least that
are enough.

`add?`, `sub?` and `ceilDiv?` know nothing but words: they have no result where the exact one is not
a word. That a computation neither overflows nor underflows means that it comes to its end when its
steps are these.
-/

import GraphAnalytics.Word
import Mathlib.Algebra.Group.Nat.Defs
import Mathlib.Order.MinMax

namespace GraphAnalytics.Word

/-! ### Clipped results -/

/-- Clipping two numbers before they are added makes no difference to the clipped sum. -/
theorem satAdd_clip (a b : Nat) : satAdd (clip a) (clip b) = clip (a + b) := by
  unfold satAdd clip
  omega

theorem satMul_div (a b volume : Nat) :
    satMul a b / volume = min (a * b / volume) (top / volume) := by
  have monotone : Monotone fun n => n / volume := fun _ _ le => Nat.div_le_div_right le
  exact monotone.map_min

/-! ### Quotients rounded up -/

/-- A quotient rounded up is within a bound exactly if so many divisors are enough. -/
theorem ceilDiv_le_iff {n d bound : Nat} (pos : 0 < d) : ceilDiv n d ≤ bound ↔ n ≤ bound * d := by
  rw [ceilDiv, Nat.div_le_iff_le_mul_add_pred pos, Nat.mul_comm d]
  omega

theorem le_ceilDiv_mul {n d : Nat} (pos : 0 < d) : n ≤ ceilDiv n d * d :=
  (ceilDiv_le_iff pos).mp (Nat.le_refl _)

theorem mul_lt_of_lt_ceilDiv {n d number : Nat} (pos : 0 < d) (less : number < ceilDiv n d) :
    number * d < n :=
  Nat.lt_of_not_le fun le => Nat.not_lt.mpr ((ceilDiv_le_iff pos).mpr le) less

/-- A larger number has a larger quotient, and so it has by a smaller divisor. -/
theorem ceilDiv_le_ceilDiv {n m c d : Nat} (le : n ≤ m) (pos : 0 < d) (finer : d ≤ c) :
    ceilDiv n c ≤ ceilDiv m d := by
  rw [ceilDiv_le_iff (Nat.lt_of_lt_of_le pos finer)]
  calc n
      ≤ m := le
    _ ≤ ceilDiv m d * d := le_ceilDiv_mul pos
    _ ≤ ceilDiv m d * c := Nat.mul_le_mul_left _ finer

theorem ceilDiv_le_top {n d : Nat} (pos : 0 < d) (word : n ≤ top) : ceilDiv n d ≤ top := by
  rw [ceilDiv_le_iff pos]
  exact Nat.le_trans word (Nat.le_mul_of_pos_right _ pos)

/-! ### Powers of two -/

theorem isPowerOfTwo_ceilPower (n : Nat) : (ceilPower n).isPowerOfTwo := by
  unfold ceilPower
  split
  · exact ⟨0, rfl⟩
  · exact ⟨_, Nat.one_shiftLeft _⟩

/-- A power of two is no smaller than `ceilPower n` exactly if it is no smaller than `n`. -/
theorem ceilPower_le_iff {n k : Nat} : ceilPower n ≤ 2 ^ k ↔ n ≤ 2 ^ k := by
  have positive : 0 < 2 ^ k := Nat.two_pow_pos k
  unfold ceilPower
  split
  · next small => exact iff_of_true positive (Nat.le_trans small positive)
  · next large =>
      rw [Nat.one_shiftLeft, Nat.pow_le_pow_iff_right (by decide), Nat.succ_le_iff,
        Nat.log2_lt (by omega)]
      omega

theorem le_ceilPower (n : Nat) : n ≤ ceilPower n := by
  obtain ⟨exponent, power⟩ := isPowerOfTwo_ceilPower n
  exact power ▸ ceilPower_le_iff.mp (Nat.le_of_eq power)

theorem ceilPower_mono : Monotone ceilPower := by
  intro n m le
  obtain ⟨exponent, power⟩ := isPowerOfTwo_ceilPower m
  rw [power, ceilPower_le_iff]
  calc n
      ≤ m := le
    _ ≤ ceilPower m := le_ceilPower m
    _ = 2 ^ exponent := power

/-! ### Steps that stay in a word -/

def add? (a b : Nat) : Option Nat := if a + b ≤ top then some (a + b) else none

def sub? (a b : Nat) : Option Nat := if b ≤ a then some (a - b) else none

/-- The quotient rounded up, found by adding one to the quotient if something remains. -/
def ceilDiv? (n d : Nat) : Option Nat := if n % d = 0 then some (n / d) else add? (n / d) 1

theorem ceilDiv_eq {n d : Nat} (pos : 0 < d) :
    ceilDiv n d = n / d + if n % d = 0 then 0 else 1 := by
  have split := Nat.div_add_mod' n d
  have less := Nat.mod_lt n pos
  refine Nat.div_eq_of_lt_le ?_ ?_
  · rw [Nat.add_mul]
    split <;> omega
  · rw [Nat.succ_mul, Nat.add_mul]
    split <;> omega

theorem ceilDiv?_eq {n d : Nat} (pos : 0 < d) (word : n ≤ top) :
    ceilDiv? n d = some (ceilDiv n d) := by
  have fits := ceilDiv_le_top pos word
  rw [ceilDiv_eq pos] at fits ⊢
  unfold ceilDiv?
  split
  · rfl
  · next rest =>
      rw [if_neg rest] at fits
      exact if_pos fits

end GraphAnalytics.Word
