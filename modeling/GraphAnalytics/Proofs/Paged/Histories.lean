/-
# Paged arrays are flat lists

Whatever is asked of a paged array, one operation after the other, each answer is that of a flat
list of as many elements, and what the array holds in the end is what the list holds. This takes
the layout of the pages to be right for every element width and every capacity, so it is part of
the statement (`LaidOut`); the proofs about operations rest on the laws of reading and writing and
never come back to pages. Atomic cells have the same operations, and those that read and write one
cell in one access.

A list of operations is carried out on either side by `inTurn`, which is also how a generator is
asked for a list of indexes. So that a generator is asked once for each index, in order, is part of
what it means to set all of a flat list.
-/

import GraphAnalytics.Proofs.Paged.Bulk
import Mathlib.Algebra.Ring.Nat

namespace GraphAnalytics

/-- The answers to each item in turn, and the state in the end. -/
def inTurn {κ ι ρ : Type} (ask : κ → ι → ρ × κ) : List ι → κ → List ρ × κ
  | [], state => ([], state)
  | item :: items, state =>
      let (answer, state) := ask state item
      let (answers, state) := inTurn ask items state
      (answer :: answers, state)

theorem inTurn_concat {κ ι ρ : Type} (ask : κ → ι → ρ × κ) (items : List ι) (item : ι)
    (state : κ) :
    inTurn ask (items ++ [item]) state =
      ((inTurn ask items state).1 ++ [(ask (inTurn ask items state).2 item).1],
        (ask (inTurn ask items state).2 item).2) := by
  induction items generalizing state with
  | nil => rfl
  | cons first items ih => simp only [List.cons_append, inTurn, ih]

/-- If every answer can be given from a view of the state, so can all answers in turn. -/
theorem inTurn_view {κ ν ι ρ : Type} {ask : κ → ι → ρ × κ} {askView : ν → ι → ρ × ν}
    (view : κ → ν)
    (agrees : ∀ state item,
      askView (view state) item = ((ask state item).1, view (ask state item).2))
    (items : List ι) (state : κ) :
    inTurn askView items (view state) =
      ((inTurn ask items state).1, view (inTurn ask items state).2) := by
  induction items generalizing state with
  | nil => rfl
  | cons item items ih => simp only [inTurn, agrees, ih]

/-! ### Flat lists -/

namespace Flat

variable {α β ε : Type}

/-- The element at an index of a list; an index out of bounds is answered with
`refuse index length`. -/
def read (refuse : Nat → Nat → ε) (index : Nat) (list : List α) : Except ε α :=
  match list[index]? with
  | some value => .ok value
  | none => .error (refuse index list.length)

def update (refuse : Nat → Nat → ε) (index : Nat) (f : α → β × α) (list : List α) :
    Except ε β × List α :=
  match list[index]? with
  | some value => (.ok (f value).1, list.set index (f value).2)
  | none => (.error (refuse index list.length), list)

end Flat

namespace PagedArray

open Paged

variable {width : Nat} {α β ε σ : Type}

/-! ### Operations and what they owe -/

/-- Something that is asked of a paged array. The trying operations fail on an index that is out of
bounds, and an update hands the element out to be changed in place. A generator carries a state from
one answer to the next. -/
inductive Operation (σ α β : Type) where
  | get (index : Nat)
  | tryGet (index : Nat)
  | set (index : Nat) (value : α)
  | trySet (index : Nat) (value : α)
  | update (index : Nat) (f : α → β × α)
  | fill (value : α)
  | setAll (generator : σ → Nat → α × σ) (state : σ)
  | setEach (f : Nat → α)
  | elements

inductive Reply (σ α β : Type) where
  | element (value : α)
  | answer (answer : β)
  | elements (all : List α)
  | state (left : σ)
  | done

/-- What comes of an operation: a broken precondition, a fault, or a reply. -/
abbrev Response (σ α β : Type) := Except Violation (Except Fault (Reply σ α β))

namespace Operation

def perform (array : PagedArray width α) :
    Operation σ α β → Response σ α β × PagedArray width α
  | .get index => ((array.read .indexOutOfBounds index).map (.ok ∘ .element), array)
  | .tryGet index => (.ok ((array.read .indexOutOfBounds index).map .element), array)
  | .set index value =>
      let (answer, array) := (PagedArray.write .indexOutOfBounds index value).perform array
      (answer.map fun _ => .ok .done, array)
  | .trySet index value =>
      let (answer, array) := (PagedArray.write .indexOutOfBounds index value).perform array
      (.ok (answer.map fun _ => .done), array)
  | .update index f =>
      let (answer, array) := (PagedArray.update .indexOutOfBounds index f).perform array
      (answer.map (.ok ∘ .answer), array)
  | .fill value => (.ok (.ok .done), array.fill value)
  | .setAll generator state =>
      let (array, left) := array.setAll generator state
      (.ok (.ok (.state left)), array)
  | .setEach f => (.ok (.ok .done), array.setEach f)
  | .elements => (.ok (.ok (.elements array.toList)), array)

/-- Do what is asked of a flat list. -/
def onList (list : List α) : Operation σ α β → Response σ α β × List α
  | .get index => ((Flat.read .indexOutOfBounds index list).map (.ok ∘ .element), list)
  | .tryGet index => (.ok ((Flat.read .indexOutOfBounds index list).map .element), list)
  | .set index value =>
      let (answer, list) := Flat.update .indexOutOfBounds index (fun _ => ((), value)) list
      (answer.map fun _ => .ok .done, list)
  | .trySet index value =>
      let (answer, list) := Flat.update .indexOutOfBounds index (fun _ => ((), value)) list
      (.ok (answer.map fun _ => .done), list)
  | .update index f =>
      let (answer, list) := Flat.update .indexOutOfBounds index f list
      (answer.map (.ok ∘ .answer), list)
  | .fill value => (.ok (.ok .done), list.map fun _ => value)
  | .setAll generator state =>
      let (list, left) := inTurn generator (List.range list.length) state
      (.ok (.ok (.state left)), list)
  | .setEach f => (.ok (.ok .done), (List.range list.length).map f)
  | .elements => (.ok (.ok (.elements list)), list)

def index? : Operation σ α β → Option Nat
  | .get index | .tryGet index | .set index _ | .trySet index _ | .update index _ => some index
  | .fill _ | .setAll _ _ | .setEach _ | .elements => none

/-- How an operation says that an index is out of bounds: the trying ones fail, the others break a
precondition. -/
def refusal (index capacity : Nat) : Operation σ α β → Response σ α β
  | .tryGet _ | .trySet _ _ => .ok (.error (.indexOutOfBounds index capacity))
  | _ => .error (.indexOutOfBounds index capacity)

end Operation

/-! ### Single elements -/

theorem read_of_le (refuse : Nat → Nat → ε) (array : PagedArray width α) {index : Nat}
    (h : array.capacity ≤ index) :
    array.read refuse index = .error (refuse index array.capacity) := dif_neg (Nat.not_lt.mpr h)

theorem perform_update_of_le (refuse : Nat → Nat → ε) (f : α → β × α) (array : PagedArray width α)
    {index : Nat} (h : array.capacity ≤ index) :
    (update refuse index f).perform array = (.error (refuse index array.capacity), array) :=
  dif_neg (Nat.not_lt.mpr h)

theorem perform_update_of_lt (refuse : Nat → Nat → ε) (f : α → β × α) (array : PagedArray width α)
    {index : Nat} (h : index < array.capacity) :
    (update refuse index f).perform array =
      (.ok (f (array.get index h)).1, array.set index (f (array.get index h)).2) :=
  dif_pos h

theorem read_toList (refuse : Nat → Nat → ε) (array : PagedArray width α) (index : Nat) :
    Flat.read refuse index array.toList = array.read refuse index := by
  rw [Flat.read, getElem?_toList, length_toList]
  by_cases inside : index < array.capacity
  · rw [array.get?_of_lt inside, PagedArray.read, dif_pos inside]
  · have outside := Nat.le_of_not_lt inside
    rw [array.get?_of_le outside, array.read_of_le refuse outside]

/-- Changing an element of an array is changing it in the list of its elements. -/
theorem update_toList (refuse : Nat → Nat → ε) (f : α → β × α) (array : PagedArray width α)
    (index : Nat) :
    Flat.update refuse index f array.toList =
      (((update refuse index f).perform array).1,
        ((update refuse index f).perform array).2.toList) := by
  rw [Flat.update, getElem?_toList, length_toList]
  by_cases inside : index < array.capacity
  · rw [array.get?_of_lt inside, perform_update_of_lt refuse f array inside, toList_set]
  · have outside := Nat.le_of_not_lt inside
    rw [array.get?_of_le outside, perform_update_of_le refuse f array outside]

/-! ### All elements -/

theorem toList_fill (array : PagedArray width α) (value : α) :
    (array.fill value).toList = array.toList.map fun _ => value := by
  refine (toList_eq_iff _ _).mpr fun index => ?_
  rw [get?_fill, List.getElem?_map, getElem?_toList]
  by_cases inside : index < array.capacity
  · rw [if_pos inside, array.get?_of_lt inside, Option.map_some]
  · rw [if_neg inside, array.get?_of_le (Nat.le_of_not_lt inside), Option.map_none]

theorem toList_setEach (array : PagedArray width α) (f : Nat → α) :
    (array.setEach f).toList = (List.range array.toList.length).map f := by
  refine (toList_eq_iff _ _).mpr fun index => ?_
  rw [setEach_eq_ofFn, get?_ofFn, List.getElem?_map, length_toList]
  by_cases inside : index < array.capacity
  · rw [dif_pos inside, List.getElem?_range inside, Option.map_some]
  · rw [dif_neg inside, List.getElem?_eq_none (by simpa using inside), Option.map_none]

/-- Asking a generator for `0`, `1`, … is asking it for these indexes in turn. -/
theorem answers_eq_inTurn (generator : σ → Nat → α × σ) (count : Nat) (state : σ) :
    inTurn generator (List.range count) state =
      ((answers generator count state).1.toList, (answers generator count state).2) := by
  induction count with
  | zero => rfl
  | succ count ih => rw [List.range_succ, inTurn_concat, ih, answers_succ, Array.toList_push]

theorem toList_setAll (array : PagedArray width α) (generator : σ → Nat → α × σ) (state : σ) :
    inTurn generator (List.range array.toList.length) state =
      ((array.setAll generator state).1.toList, (array.setAll generator state).2) := by
  have elements : (array.setAll generator state).1.toList =
      (answers generator array.capacity state).1.toList := by
    refine (toList_eq_iff _ _).mpr fun index => ?_
    rw [Array.getElem?_toList]
    by_cases inside : index < array.capacity
    · rw [get?_setAll _ _ _ inside, getElem?_answers _ _ inside]
    · rw [get?_of_le _ (by simpa using inside), Array.getElem?_eq_none (by
        simpa [size_answers] using inside)]
  rw [answers_eq_inTurn, length_toList, elements, setAll_eq]

/-! ### Whole histories -/

/-- One operation does to an array what it does to the list of its elements. -/
theorem Operation.onList_toList (array : PagedArray width α) (operation : Operation σ α β) :
    operation.onList array.toList =
      ((operation.perform array).1, (operation.perform array).2.toList) := by
  cases operation with
  | get index => simp only [onList, perform, read_toList]
  | tryGet index => simp only [onList, perform, read_toList]
  | set index value => simp only [onList, perform, write, update_toList]
  | trySet index value => simp only [onList, perform, write, update_toList]
  | update index f => simp only [onList, perform, update_toList]
  | fill value => simp only [onList, perform, toList_fill]
  | setAll generator state => simp only [onList, perform, toList_setAll]
  | setEach f => simp only [onList, perform, toList_setEach]
  | elements => rfl

/-- An operation that names an index out of bounds is refused and leaves the array as it was. -/
theorem Operation.perform_of_le (array : PagedArray width α) (operation : Operation σ α β)
    {index : Nat} (names : operation.index? = some index) (h : array.capacity ≤ index) :
    operation.perform array = (operation.refusal index array.capacity, array) := by
  cases operation with
  | get _ | tryGet _ =>
      obtain rfl := Option.some.inj names
      simp only [perform, read_of_le _ array h]
      rfl
  | set _ _ | trySet _ _ | update _ _ =>
      obtain rfl := Option.some.inj names
      simp only [perform, write, perform_update_of_le _ _ array h]
      rfl
  | fill _ | setAll _ _ | setEach _ | elements => cases names

/-- The pages of an array fit the way in which an index is split: valid indexes name places in
allocated pages, no two of them the same, and all pages together are as long as the capacity. -/
structure LaidOut (array : PagedArray width α) : Prop where
  within : ∀ index < array.capacity, ∃ page, array.pages[(slotOf width index).page]? = some page ∧
    (slotOf width index).offset < page.size
  distinct : ∀ p q, p ≠ q → slotOf width p ≠ slotOf width q
  lengths : (array.pages.toList.map Array.size).sum = array.capacity

theorem laidOut (array : PagedArray width α) : array.LaidOut where
  within index h := by
    have allocated := array.pageOf_lt_size h
    refine ⟨_, Array.getElem?_eq_getElem allocated, ?_⟩
    rw [array.size_page]
    exact offsetOf_lt h
  distinct p q different same := different (slotOf_injective width same)
  lengths := by
    rw [← length_toList, toList, List.length_flatMap]
    rfl

def recording (generator : σ → Nat → α × σ) (state : σ × List Nat) (index : Nat) :
    α × σ × List Nat :=
  let (value, next) := generator state.1 index
  (value, next, state.2 ++ [index])

theorem inTurn_recording (generator : σ → Nat → α × σ) (indexes : List Nat) (state : σ)
    (before : List Nat) :
    (inTurn (recording generator) indexes (state, before)).2 =
      ((inTurn generator indexes state).2, before ++ indexes) := by
  induction indexes generalizing state before with
  | nil => simp [inTurn]
  | cons index indexes ih => simp [inTurn, recording, ih]

/-- The generator is asked once for each index, in index order. -/
theorem asked_setAll (array : PagedArray width α) (generator : σ → Nat → α × σ) (state : σ) :
    (array.setAll (recording generator) (state, [])).2 =
      ((array.setAll generator state).2, List.range array.capacity) := by
  have plain := congrArg Prod.snd (array.toList_setAll generator state)
  have recorded := congrArg Prod.snd (array.toList_setAll (recording generator) (state, []))
  rw [inTurn_recording] at recorded
  rw [← plain, ← recorded, length_toList, List.nil_append]

end PagedArray

end GraphAnalytics
