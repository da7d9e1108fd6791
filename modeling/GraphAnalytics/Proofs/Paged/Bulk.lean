/-
# Whole arrays at once

Filling an array, sending a generator through it and refilling its pages in parallel all go from
slot to slot, page after page. The slots are those of the indexes `0`, `1`, … in turn, each of them
once, so what comes of it can be said without pages: every element is replaced by the answer for its
index, and a generator is asked in index order. Where the answer depends on nothing but the index,
the slots may come in any order.
-/

import GraphAnalytics.Proofs.Paged.Elements

namespace GraphAnalytics

namespace Paged

@[simp] theorem index_slotOf (width index : Nat) : (slotOf width index).index width = index :=
  pageStart_add_offsetOf width index

theorem slotOf_injective (width : Nat) : Function.Injective (slotOf width) :=
  Function.LeftInverse.injective (index_slotOf width)

theorem slotOf_index {width : Nat} {slot : Slot} (h : slot.offset < Memory.pageSize width) :
    slotOf width (slot.index width) = slot := by
  rw [slotOf, Slot.index, pageOf_add h, offsetOf_add h]

end Paged

namespace PagedArray

open Paged

variable {width : Nat} {α σ : Type}

theorem slots_eq_flatMap (array : PagedArray width α) :
    array.slots = (List.range (Memory.pageCount array.capacity width)).flatMap fun page =>
      (List.range (pageLength array.capacity width page)).map (Slot.mk page) := by
  have pages : array.pages.toList.zipIdx.map (fun numbered =>
        (List.range numbered.1.size).map (Slot.mk numbered.2)) =
      (List.range (Memory.pageCount array.capacity width)).map fun page =>
        (List.range (pageLength array.capacity width page)).map (Slot.mk page) := by
    refine List.ext_getElem (by simp [array.size_pages]) fun page inside _ => ?_
    simp [array.size_page]
  rw [slots, List.flatMap_def, List.flatMap_def, ← pages]

theorem map_index_slots (array : PagedArray width α) :
    array.slots.map (Slot.index width) = List.range array.capacity := by
  have page_eq (page : Nat) : ((List.range (pageLength array.capacity width page)).map
      (Slot.mk page)).map (Slot.index width) =
        List.range' (pageStart width page) (pageLength array.capacity width page) := by
    rw [List.map_map, List.range'_eq_map_range]
    rfl
  simp only [slots_eq_flatMap, List.map_flatMap, page_eq, flatMap_pages,
    Nat.min_eq_left (le_pageStart_pageCount array.capacity width)]

/-- The slots are those of the indexes below the capacity, in order. -/
theorem slots_eq (array : PagedArray width α) :
    array.slots = (List.range array.capacity).map (slotOf width) := by
  have own : ∀ slot ∈ array.slots, slotOf width (slot.index width) = slot := by
    intro slot member
    simp only [slots_eq_flatMap, List.mem_flatMap, List.mem_map, List.mem_range] at member
    obtain ⟨page, -, offset, inside, rfl⟩ := member
    exact slotOf_index (Nat.lt_of_lt_of_le inside (Nat.min_le_right _ _))
  rw [← map_index_slots, List.map_map]
  exact ((List.map_congr_left (g := id) own).trans (List.map_id _)).symm

/-! ### The same value everywhere -/

theorem get?_fill (array : PagedArray width α) (value : α) (index : Nat) :
    (array.fill value).get? index = if index < array.capacity then some value else none := by
  by_cases inside : index < array.capacity
  · have filled : index < (array.fill value).capacity := inside
    rw [if_pos inside, get?_of_lt _ filled]
    simp only [get, fill, Array.getElem_map]
  · have outside : (array.fill value).capacity ≤ index := Nat.le_of_not_lt inside
    rw [if_neg inside, get?_of_le _ outside]

/-! ### A function of the index -/

@[simp] theorem capacity_refill (array : PagedArray width α) (f : Nat → α) (slots : List Slot) :
    (array.refill f slots).capacity = array.capacity := by
  induction slots generalizing array with
  | nil => rfl
  | cons slot slots ih => exact ih (array.modifySlot slot fun _ => f (slot.index width))

/-- Refilling the slots of some indexes, in any order and possibly more than once, replaces the
elements at these indexes and no others. -/
theorem get?_refill (array : PagedArray width α) (f : Nat → α) (indexes : List Nat) (index : Nat) :
    (array.refill f (indexes.map (slotOf width))).get? index =
      if index ∈ indexes ∧ index < array.capacity then some (f index) else array.get? index := by
  induction indexes generalizing array with
  | nil => simp [refill]
  | cons first indexes ih =>
      have step : array.refill f ((first :: indexes).map (slotOf width)) =
          (array.set first (f first)).refill f (indexes.map (slotOf width)) := by
        simp only [refill, List.map_cons, List.foldl_cons, index_slotOf]
        rfl
      rw [step, ih, capacity_set, get?_set]
      by_cases same : first = index
      · subst same
        grind
      · grind

/-- Whatever the order in which the workers come to the slots, the array is refilled. -/
theorem refill_eq_ofFn (array : PagedArray width α) (f : Nat → α) {order : List Slot}
    (all : order.Perm array.slots) :
    array.refill f order = ofFn array.capacity fun index _ => f index := by
  -- In any order the slots are those of the valid indexes and no others.
  obtain ⟨indexes, rfl, each⟩ : ∃ indexes : List Nat, indexes.map (slotOf width) = order ∧
      ∀ index, index ∈ indexes ↔ index < array.capacity := by
    refine ⟨order.map (Slot.index width), ?_, fun index => ?_⟩
    · have own : ∀ slot ∈ order, slotOf width (slot.index width) = slot := by
        intro slot member
        rw [all.mem_iff, slots_eq, List.mem_map] at member
        obtain ⟨index, -, rfl⟩ := member
        rw [index_slotOf]
      rw [List.map_map]
      exact (List.map_congr_left (g := id) own).trans (List.map_id _)
    · rw [(all.map _).mem_iff, map_index_slots, List.mem_range]
  refine ext_get? (capacity_refill _ _ _) fun index => ?_
  rw [get?_refill, get?_ofFn]
  by_cases inside : index < array.capacity
  · rw [if_pos ⟨(each index).mpr inside, inside⟩, dif_pos inside]
  · rw [if_neg fun both => inside both.2, dif_neg inside,
      array.get?_of_le (Nat.le_of_not_lt inside)]

theorem setEach_eq_ofFn (array : PagedArray width α) (f : Nat → α) :
    array.setEach f = ofFn array.capacity fun index _ => f index :=
  array.refill_eq_ofFn f (List.Perm.refl _)

/-! ### A generator that carries a state -/

/-- The answers of a generator that carries a state, called for `0`, `1`, … in turn. -/
def answers (generator : σ → Nat → α × σ) (count : Nat) (state : σ) : Array α × σ :=
  count.fold (fun index _ (values, state) =>
    let (value, state) := generator state index
    (values.push value, state)) (#[], state)

/-- A generator that has answered for `0, …, count` has answered for `0, …, count - 1` before. -/
theorem answers_succ (generator : σ → Nat → α × σ) (count : Nat) (state : σ) :
    answers generator (count + 1) state =
      (((answers generator count state).1.push
          (generator (answers generator count state).2 count).1),
        (generator (answers generator count state).2 count).2) := by
  simp only [answers, Nat.fold_succ]

theorem size_answers (generator : σ → Nat → α × σ) (count : Nat) (state : σ) :
    (answers generator count state).1.size = count := by
  induction count with
  | zero => rfl
  | succ count ih => rw [answers_succ, Array.size_push, ih]

/-- The answer for an index is given in the state that the answers before it have left. -/
theorem getElem?_answers (generator : σ → Nat → α × σ) (state : σ) {count index : Nat}
    (h : index < count) :
    (answers generator count state).1[index]? =
      some (generator (answers generator index state).2 index).1 := by
  induction count with
  | zero => omega
  | succ count ih =>
      rw [answers_succ, Array.getElem?_push, size_answers]
      split
      · next last => rw [last]
      · next other => exact ih (by omega)

/-- Setting every element to a generator's answer is done index by index. -/
theorem setAll_eq_foldl (array : PagedArray width α) (generator : σ → Nat → α × σ) (state : σ) :
    array.setAll generator state = (List.range array.capacity).foldl (fun (array, state) index =>
      (array.set index (generator state index).1, (generator state index).2)) (array, state) := by
  simp only [setAll, slots_eq, List.foldl_map, index_slotOf]
  rfl

/-- After its first answers a generator has replaced the first elements. -/
theorem setAll_first (array : PagedArray width α) (generator : σ → Nat → α × σ) (state : σ)
    (count : Nat) :
    ∃ after : PagedArray width α, (List.range count).foldl (fun (array, state) index =>
        (array.set index (generator state index).1, (generator state index).2)) (array, state) =
          (after, (answers generator count state).2) ∧
      after.capacity = array.capacity ∧
      ∀ index, after.get? index = if index < count ∧ index < array.capacity then
        some (generator (answers generator index state).2 index).1 else array.get? index := by
  -- The indexes that have not been asked for yet still hold what they held.
  induction count with
  | zero => exact ⟨array, rfl, rfl, fun index => by simp⟩
  | succ count ih =>
      obtain ⟨before, run, capacity, holds⟩ := ih
      refine ⟨before.set count (generator (answers generator count state).2 count).1, ?_, capacity,
        fun index => ?_⟩
      · rw [List.range_succ, List.foldl_append, run, answers_succ]
        rfl
      · rw [get?_set, holds, capacity]
        by_cases last : count = index
        · subst last
          grind
        · grind

/-- A generator that goes through an array leaves nothing of it but its capacity. -/
theorem setAll_eq (array : PagedArray width α) (generator : σ → Nat → α × σ) (state : σ) :
    array.setAll generator state =
      (ofFn array.capacity fun index _ => (generator (answers generator index state).2 index).1,
        (answers generator array.capacity state).2) := by
  obtain ⟨after, run, capacity, holds⟩ := array.setAll_first generator state array.capacity
  rw [setAll_eq_foldl, run]
  refine Prod.ext (ext_get? capacity fun index => ?_) rfl
  rw [holds, get?_ofFn]
  by_cases inside : index < array.capacity
  · rw [if_pos ⟨inside, inside⟩, dif_pos inside]
  · rw [if_neg fun both => inside both.1, dif_neg inside,
      array.get?_of_le (Nat.le_of_not_lt inside)]

@[simp] theorem capacity_setAll (array : PagedArray width α) (generator : σ → Nat → α × σ)
    (state : σ) : (array.setAll generator state).1.capacity = array.capacity := by
  rw [setAll_eq]
  rfl

/-- After a generator has gone through an array, each index holds its answer for that index. -/
theorem get?_setAll (array : PagedArray width α) (generator : σ → Nat → α × σ) (state : σ)
    {index : Nat} (h : index < array.capacity) :
    (array.setAll generator state).1.get? index =
      some (generator (answers generator index state).2 index).1 := by
  rw [setAll_eq, get?_ofFn, dif_pos h]

end PagedArray

end GraphAnalytics
