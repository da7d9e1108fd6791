/-
# Atomic cells are flat lists

One after the other, adding to a cell, exchanging it and raising it change one element and answer
from what it held, so each of them is `PagedArray.update` with a function of its own
(`add_eq_update` and its siblings). From there cells are flat lists of signed words for the same
reason as paged arrays are flat lists of anything, and the last theorem says both.
-/

import GraphAnalytics.Proofs.Paged.Histories

namespace GraphAnalytics

namespace Cells

variable {β σ : Type}

/-- Something that is asked of atomic cells: what may be asked of any paged array, one of the
operations that read a cell and write it in one call, or a plain copy of all cells. -/
inductive Operation (σ : Type) where
  | plain (operation : PagedArray.Operation σ Int Bool)
  | add (index : Nat) (delta : Int)
  | exchange (index : Nat) (expected next : Int)
  | raise (index : Nat) (candidate : Int)
  | snapshot

abbrev Response (σ : Type) := PagedArray.Response σ Int Bool

namespace Operation

def perform (cells : Cells) : Operation σ → Response σ × Cells
  | .plain operation => operation.perform cells
  | .add index delta =>
      let (answer, cells) := (Cells.add index delta).perform cells
      (answer.map (.ok ∘ .element), cells)
  | .exchange index expected next =>
      let (answer, cells) := (Cells.exchange index expected next).perform cells
      (answer.map (.ok ∘ .element), cells)
  | .raise index candidate =>
      let (answer, cells) := (Cells.raiseTo index candidate).perform cells
      (answer.map (.ok ∘ .answer), cells)
  | .snapshot => (.ok (.ok (.elements cells.snapshot.toList)), cells)

/-- Do what is asked of a flat list of signed words. -/
def onList (list : List Int) : Operation σ → Response σ × List Int
  | .plain operation => operation.onList list
  | .add index delta =>
      let (answer, list) := Flat.update .indexOutOfBounds index
        (fun old => (old, Word.wrapSigned (old + delta))) list
      (answer.map (.ok ∘ .element), list)
  | .exchange index expected next =>
      let (answer, list) := Flat.update .indexOutOfBounds index
        (fun old => (old, if old = expected then next else old)) list
      (answer.map (.ok ∘ .element), list)
  | .raise index candidate =>
      let (answer, list) := Flat.update .indexOutOfBounds index
        (fun old => (decide (old < candidate), max old candidate)) list
      (answer.map (.ok ∘ .answer), list)
  | .snapshot => (.ok (.ok (.elements list)), list)

def index? : Operation σ → Option Nat
  | .plain operation => operation.index?
  | .add index _ | .exchange index _ _ | .raise index _ => some index
  | .snapshot => none

def refusal (index capacity : Nat) : Operation σ → Response σ
  | .plain operation => operation.refusal index capacity
  | _ => .error (.indexOutOfBounds index capacity)

end Operation

/-! ### One access is one update -/

theorem value_eq_get (cells : Cells) {index : Nat} (h : index < cells.capacity) :
    cells.value index = cells.get index h := by
  rw [value, cells.get?_of_lt h, Option.getD_some]

theorem set_value (cells : Cells) (index : Nat) : cells.set index (cells.value index) = cells := by
  refine PagedArray.ext_get? rfl fun other => ?_
  rw [PagedArray.get?_set]
  by_cases same : index = other ∧ other < cells.capacity
  · rw [if_pos same, same.1, value_eq_get cells same.2, cells.get?_of_lt same.2]
  · rw [if_neg same]

/-- An access that answers and writes as `f` says is an update by `f`. -/
theorem guarded_eq_update {index : Nat} {access : Cells → β × Cells} {f : Int → β × Int}
    (acts : ∀ cells : Cells,
      access cells = ((f (cells.value index)).1, cells.set index (f (cells.value index)).2)) :
    guarded index access = PagedArray.update .indexOutOfBounds index f := by
  refine funext fun cells => ?_
  by_cases inside : index < cells.capacity
  · refine Eq.trans ?_ (PagedArray.perform_update_of_lt _ f cells inside).symm
    rw [← value_eq_get cells inside]
    exact (if_pos inside).trans (by rw [acts])
  · refine Eq.trans ?_ (PagedArray.perform_update_of_le _ f cells (Nat.le_of_not_lt inside)).symm
    exact if_neg inside

theorem add_eq_update (index : Nat) (delta : Int) :
    add index delta = PagedArray.update .indexOutOfBounds index
      fun old => (old, Word.wrapSigned (old + delta)) :=
  guarded_eq_update fun _ => rfl

theorem exchange_eq_update (index : Nat) (expected next : Int) :
    exchange index expected next = PagedArray.update .indexOutOfBounds index
      fun old => (old, if old = expected then next else old) := by
  refine guarded_eq_update fun cells => ?_
  by_cases same : cells.value index = expected
  · simp only [compareExchange, if_pos same]
  · simp only [compareExchange, if_neg same, set_value]

theorem raiseTo_eq_update (index : Nat) (candidate : Int) :
    raiseTo index candidate = PagedArray.update .indexOutOfBounds index
      fun old => (decide (old < candidate), max old candidate) := by
  refine guarded_eq_update fun cells => ?_
  by_cases smaller : cells.value index < candidate
  · have higher : max (cells.value index) candidate = candidate :=
      Int.max_eq_right (Int.le_of_lt smaller)
    simp only [raise, if_pos smaller, decide_eq_true smaller, higher]
  · have same : max (cells.value index) candidate = cells.value index :=
      Int.max_eq_left (Int.not_lt.mp smaller)
    simp only [raise, if_neg smaller, decide_eq_false smaller, same, set_value]

theorem snapshot_eq (cells : Cells) : cells.snapshot = cells := by
  refine PagedArray.ext_get? (by simp [snapshot, PagedArray.setEach]) fun index => ?_
  rw [snapshot, PagedArray.setEach_eq_ofFn, PagedArray.get?_ofFn, PagedArray.capacity_replicate]
  by_cases inside : index < cells.capacity
  · rw [dif_pos inside, value_eq_get cells inside, cells.get?_of_lt inside]
  · rw [dif_neg inside, cells.get?_of_le (Nat.le_of_not_lt inside)]

/-! ### Whole histories -/

/-- One operation does to cells what it does to the list of their values. -/
theorem Operation.onList_toList (cells : Cells) (operation : Operation σ) :
    operation.onList cells.toList =
      ((operation.perform cells).1, (operation.perform cells).2.toList) := by
  cases operation with
  | plain operation => exact operation.onList_toList cells
  | add index delta => simp only [onList, perform, add_eq_update, PagedArray.update_toList]
  | exchange index expected next =>
      simp only [onList, perform, exchange_eq_update, PagedArray.update_toList]
  | raise index candidate =>
      simp only [onList, perform, raiseTo_eq_update, PagedArray.update_toList]
  | snapshot => simp only [onList, perform, snapshot_eq]

/-- An operation that names an index out of bounds is refused and leaves the cells as they were. -/
theorem Operation.perform_of_le (cells : Cells) (operation : Operation σ) {index : Nat}
    (names : operation.index? = some index) (h : cells.capacity ≤ index) :
    operation.perform cells = (operation.refusal index cells.capacity, cells) := by
  cases operation with
  | plain operation => exact operation.perform_of_le cells names h
  | add _ _ | exchange _ _ _ | raise _ _ =>
      obtain rfl := Option.some.inj names
      simp only [perform, add_eq_update, exchange_eq_update, raiseTo_eq_update,
        PagedArray.perform_update_of_le _ _ cells h]
      rfl
  | snapshot => cases names

end Cells

namespace PagedArray

/-- For every element width and every capacity, a paged array is laid out so that indexes name
slots, and whatever is asked of it is answered as by a flat list, with the same elements in the end;
an index out of bounds is refused by name and changes nothing. A generator is asked for each index
once and in order, and refilling may take the slots in any order. The same holds for atomic cells,
including the operations that read and write a cell in one access. -/
theorem flat_histories (σ : Type) :
    (∀ (width : Nat) (α β : Type) (array : PagedArray width α),
      array.LaidOut ∧
      (∀ history : List (Operation σ α β), inTurn Operation.onList history array.toList =
        ((inTurn Operation.perform history array).1,
          (inTurn Operation.perform history array).2.toList)) ∧
      (∀ (operation : Operation σ α β) (index : Nat), operation.index? = some index →
        array.capacity ≤ index →
          operation.perform array = (operation.refusal index array.capacity, array)) ∧
      (∀ (generator : σ → Nat → α × σ) (state : σ),
        (array.setAll (recording generator) (state, [])).2 =
          ((array.setAll generator state).2, List.range array.capacity)) ∧
      (∀ (f : Nat → α) (order : List Paged.Slot), order.Perm array.slots →
        array.refill f order = array.setEach f)) ∧
    (∀ (width : Nat) (α : Type) (capacity : Nat) (value : α),
      (replicate capacity value : PagedArray width α).toList = List.replicate capacity value) ∧
    ∀ cells : Cells,
      (∀ history : List (Cells.Operation σ), inTurn Cells.Operation.onList history cells.toList =
        ((inTurn Cells.Operation.perform history cells).1,
          (inTurn Cells.Operation.perform history cells).2.toList)) ∧
      ∀ (operation : Cells.Operation σ) (index : Nat), operation.index? = some index →
        cells.capacity ≤ index →
          operation.perform cells = (operation.refusal index cells.capacity, cells) := by
  refine ⟨fun width α β array => ⟨array.laidOut, fun history => ?_,
      fun operation index names outside => operation.perform_of_le array names outside,
      array.asked_setAll, fun f order all => ?_⟩,
    fun width α => toList_replicate, fun cells => ⟨fun history => ?_,
      fun operation index names outside => operation.perform_of_le cells names outside⟩⟩
  · exact inTurn_view toList (fun array operation => operation.onList_toList array) history array
  · rw [array.refill_eq_ofFn f all, setEach_eq_ofFn]
  · exact inTurn_view toList (fun cells operation => operation.onList_toList cells) history cells

end PagedArray

end GraphAnalytics
