/-
# Sixty-four-bit words

Byte counts, node ids and totals are words of sixty-four bits. They are held as natural numbers,
and the two ways of keeping a sum or product inside the word are named here: *saturating* stops at
the largest word, *wrapping* drops what does not fit, as every sum does that nothing guards. Signed
cells are integers that wrap into `[-2 ^ 63, 2 ^ 63)`.

Everything saturating is a clipped exact value, so chains of saturating steps can be compared with
exact arithmetic clipped once at the end.
-/

namespace GraphAnalytics.Word

def modulus : Nat := 0x10000000000000000

def top : Nat := 0xFFFFFFFFFFFFFFFF

/-- The nearest word below or at `n`. -/
def clip (n : Nat) : Nat := min n top

def satAdd (a b : Nat) : Nat := clip (a + b)

def satMul (a b : Nat) : Nat := clip (a * b)

/-- The low sixty-four bits of `n`. -/
def wrap (n : Nat) : Nat := n % modulus

/-- The signed word that agrees with `x` modulo the number of words. -/
def wrapSigned (x : Int) : Int := x.bmod modulus

/-- The unsigned word with the bits of the signed word `x`. -/
def ofSigned (x : Int) : Nat := if 0 ≤ x then x.toNat else (x + modulus).toNat

def ceilDiv (n d : Nat) : Nat := (n + d - 1) / d

/-- The least power of two that is no smaller than `n`. -/
def ceilPower (n : Nat) : Nat := if n ≤ 1 then 1 else 1 <<< ((n - 1).log2 + 1)

theorem clip_le (n : Nat) : clip n ≤ top := Nat.min_le_right _ _

theorem clip_mono {a b : Nat} (h : a ≤ b) : clip a ≤ clip b := by
  unfold clip; omega

theorem satAdd_mono {a b c d : Nat} (hac : a ≤ c) (hbd : b ≤ d) : satAdd a b ≤ satAdd c d :=
  clip_mono (Nat.add_le_add hac hbd)

theorem satMul_mono {a b c d : Nat} (hac : a ≤ c) (hbd : b ≤ d) : satMul a b ≤ satMul c d :=
  clip_mono (Nat.mul_le_mul hac hbd)

theorem le_satAdd {a b : Nat} (h : a ≤ top) : a ≤ satAdd a b := by
  unfold satAdd clip; omega

theorem wrap_eq_self_iff {n : Nat} : wrap n = n ↔ n ≤ top := by
  unfold wrap modulus top
  omega

theorem ofSigned_of_nonneg {x : Int} (h : 0 ≤ x) : ofSigned x = x.toNat := if_pos h

end GraphAnalytics.Word
