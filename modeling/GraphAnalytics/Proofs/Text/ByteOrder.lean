/-
# Order by bytes

Texts are compared character by character. Files and other programs compare them byte by byte, in
the encoding in which a character takes one byte up to four. The two orders are the same: whichever
character is the greater one, its encoding is the greater one already at a byte that both have, so
what follows does not matter.
-/

namespace GraphAnalytics

def bytes (text : String) : List UInt8 := text.toByteArray.data.toList

theorem bytes_eq_flatMap (text : String) :
    bytes text = text.toList.flatMap String.utf8EncodeChar := by
  rw [bytes, ← String.ofList_toList (s := text), String.toByteArray_ofList, String.toList_ofList,
    List.utf8Encode, List.data_toByteArray]

/-- Of two characters the greater has the greater bytes, whatever follows. -/
theorem utf8EncodeChar_append_lt {c d : Char} (less : c < d) (rest rest' : List UInt8) :
    String.utf8EncodeChar c ++ rest < String.utf8EncodeChar d ++ rest' := by
  have less : c.val.toNat < d.val.toNat := less
  have bounded : d.val.toNat < 0x110000 := by
    have := d.valid
    omega
  -- Number by number: greater in front, or equal in front and greater behind.
  have compare (n m : Nat) (tail tail' : List UInt8) :
      UInt8.ofNat n :: tail < UInt8.ofNat m :: tail' ↔
        n % 256 < m % 256 ∨ n % 256 = m % 256 ∧ tail < tail' := by
    rw [List.cons_lt_cons_iff, UInt8.lt_iff_toNat_lt, ← UInt8.toNat_inj, UInt8.toNat_ofNat',
      UInt8.toNat_ofNat']
  -- Six bits at a time, each quotient from the one before.
  have twice (n : Nat) : n / 4096 = n / 64 / 64 := (Nat.div_div_eq_div_mul n 64 64).symm
  have thrice (n : Nat) : n / 262144 = n / 64 / 64 / 64 := by rw [← twice, Nat.div_div_eq_div_mul]
  simp only [String.utf8EncodeChar, twice, thrice]
  repeat' split
  all_goals simp only [List.cons_append, List.nil_append, compare]; omega

/-- The order of texts is the order of their bytes. -/
theorem bytes_lt_of_lt {first second : String} (less : first < second) :
    bytes first < bytes second := by
  rw [String.lt_iff] at less
  rw [bytes_eq_flatMap, bytes_eq_flatMap]
  generalize first.toList = cs, second.toList = ds at less
  induction less with
  | @nil d ds =>
      rw [List.flatMap_cons]
      obtain ⟨byte, more, encoded⟩ := List.exists_cons_of_ne_nil (@String.utf8EncodeChar_ne_nil d)
      rw [encoded]
      exact List.Lex.nil
  | rel less =>
      rw [List.flatMap_cons, List.flatMap_cons]
      exact utf8EncodeChar_append_lt less _ _
  | cons less ih =>
      rw [List.flatMap_cons, List.flatMap_cons]
      exact List.append_left_lt ih

end GraphAnalytics
