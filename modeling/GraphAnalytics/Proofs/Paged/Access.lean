/-
# Reading back what was written

The laws of a paged array as its users need them: what an index holds after the array was made and
after one element was changed. The same laws follow for atomic cells, where an index without a cell
reads as zero and writing to it does nothing.
-/

import GraphAnalytics.Paged.Cells

namespace GraphAnalytics

namespace PagedArray

variable {width : Nat} {α : Type}

theorem get?_of_lt (array : PagedArray width α) {index : Nat} (h : index < array.capacity) :
    array.get? index = some (array.get index h) := dif_pos h

theorem get?_of_le (array : PagedArray width α) {index : Nat} (h : array.capacity ≤ index) :
    array.get? index = none := dif_neg (Nat.not_lt.mpr h)

theorem get?_ofFn (capacity : Nat) (f : (index : Nat) → index < capacity → α) (index : Nat) :
    (ofFn capacity f : PagedArray width α).get? index =
      if h : index < capacity then some (f index h) else none := by
  by_cases inside : index < capacity
  · have built : index < (ofFn capacity f : PagedArray width α).capacity := inside
    rw [get?_of_lt _ built, get_ofFn, dif_pos inside]
  · rw [get?_of_le _ (Nat.le_of_not_lt inside), dif_neg inside]

theorem get?_replicate (capacity : Nat) (value : α) {index : Nat} (h : index < capacity) :
    (replicate capacity value : PagedArray width α).get? index = some value := by
  rw [replicate, get?_ofFn, dif_pos h]

theorem get?_modify (array : PagedArray width α) (target index : Nat) (f : α → α) :
    (array.modify target f).get? index =
      if target = index then (array.get? index).map f else array.get? index := by
  by_cases inside : index < array.capacity
  · have modified : index < (array.modify target f).capacity := inside
    rw [get?_of_lt _ modified, get_modify, array.get?_of_lt inside]
    split <;> rfl
  · have outside := Nat.le_of_not_lt inside
    rw [get?_of_le _ (by exact outside), array.get?_of_le outside]
    split <;> rfl

theorem get?_set (array : PagedArray width α) (target index : Nat) (value : α) :
    (array.set target value).get? index =
      if target = index ∧ index < array.capacity then some value else array.get? index := by
  rw [set, get?_modify]
  by_cases same : target = index
  · by_cases inside : index < array.capacity
    · simp [same, inside, array.get?_of_lt inside]
    · simp [same, inside, array.get?_of_le (Nat.le_of_not_lt inside)]
  · simp [same]

end PagedArray

namespace Cells

theorem value_replicate (capacity : Nat) (x : Int) {index : Nat} (h : index < capacity) :
    value (.replicate capacity x) index = x := by
  rw [value, PagedArray.get?_replicate capacity x h, Option.getD_some]

theorem value_set (cells : Cells) (target index : Nat) (x : Int) :
    value (cells.set target x) index =
      if target = index ∧ index < cells.capacity then x else cells.value index := by
  rw [value, PagedArray.get?_set]
  split <;> rfl

theorem value_set_self (cells : Cells) {index : Nat} (x : Int) (h : index < cells.capacity) :
    value (cells.set index x) index = x := by
  rw [value_set, if_pos ⟨rfl, h⟩]

theorem value_set_of_ne (cells : Cells) {target index : Nat} (x : Int) (h : target ≠ index) :
    value (cells.set target x) index = cells.value index := by
  rw [value_set, if_neg fun both => h both.1]

theorem read_of_lt {ε : Type} (refuse : Nat → Nat → ε) (cells : Cells) {index : Nat}
    (h : index < cells.capacity) : cells.read refuse index = .ok (cells.value index) := by
  rw [PagedArray.read, dif_pos h, value, cells.get?_of_lt h, Option.getD_some]

@[simp] theorem fetchAdd_fst (cells : Cells) (index : Nat) (delta : Int) :
    (cells.fetchAdd index delta).1 = cells.value index := rfl

@[simp] theorem fetchAdd_snd (cells : Cells) (index : Nat) (delta : Int) :
    (cells.fetchAdd index delta).2 =
      cells.set index (Word.wrapSigned (cells.value index + delta)) := rfl

@[simp] theorem compareExchange_fst (cells : Cells) (index : Nat) (expected next : Int) :
    (cells.compareExchange index expected next).1 = cells.value index := by
  simp only [compareExchange]
  split <;> rfl

theorem compareExchange_snd (cells : Cells) (index : Nat) (expected next : Int) :
    (cells.compareExchange index expected next).2 =
      if cells.value index = expected then cells.set index next else cells := by
  simp only [compareExchange]
  split <;> rfl

end Cells

end GraphAnalytics
