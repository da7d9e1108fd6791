/-
# Paged arrays

A fixed number of elements in pages. The shape of the pages is part of the type: their number and
lengths are those of the layout, so a valid index always names a slot and nothing has to be checked
twice. What an array holds is its list of elements, `toList`; pages never show in it.

The element width is a parameter of the type and not a property of the element type, because it is
the width that decides the layout and the byte count.
-/

import GraphAnalytics.Memory.Gauge
import GraphAnalytics.Paged.Layout

namespace GraphAnalytics

open Paged Memory

/-- Elements of `width` bytes each, in pages that are listed in index order. There are as many pages
as the capacity needs, and each has the length that the layout gives it. -/
structure PagedArray (width : Nat) (α : Type) where
  capacity : Nat
  pages : Array (Array α)
  size_pages : pages.size = pageCount capacity width
  size_page : ∀ (page : Nat) (h : page < pages.size),
    pages[page].size = pageLength capacity width page

namespace PagedArray

variable {width : Nat} {α ε σ : Type}

def ofFn (capacity : Nat) (f : (index : Nat) → index < capacity → α) : PagedArray width α where
  capacity
  pages := Array.ofFn fun page : Fin (pageCount capacity width) =>
    Array.ofFn fun offset : Fin (pageLength capacity width page) =>
      f (pageStart width page + offset) (pageStart_add_lt offset.isLt)
  size_pages := by simp
  size_page := by intro page h; simp

def replicate (capacity : Nat) (value : α) : PagedArray width α := ofFn capacity fun _ _ => value

/-- The array with `value` everywhere, provided that its table of pages can be addressed. -/
def allocate (capacity : Nat) (value : α) : Except Violation (PagedArray width α) :=
  if Addressable (pageCount capacity width) pagePointerBytes then .ok (replicate capacity value)
  else .error .capacityOverflow

def allocateIn (capacity : Nat) (value : α) : Fallible Gauge (PagedArray width α) := do
  let _ ← Fallible.ofGuarded (Gauge.reserve (arrayBytes capacity width))
  ExceptT.lift (Guarded.inspect fun _ => allocate capacity value)

/-- What becomes of a new array once its bytes are reserved or refused. -/
def grant (capacity : Nat) (value : α) :
    Except Fault Nat → Except Violation (Except Fault (PagedArray width α))
  | .ok _ => (allocate capacity value).map .ok
  | .error fault => .ok (.error fault)

abbrev Creation (width : Nat) (α : Type) :=
  Machine Bool Gauge Reservation (Except Violation (Except Fault (PagedArray width α)))

/-- Creating an array out of a shared budget, one access to the budget at a time. The pages belong to
nobody else, so allocating them is no access: it comes with the one that reserves the bytes. -/
def creation (capacity : Nat) (value : α) : Creation width α :=
  (Gauge.reservation (arrayBytes capacity width)).map (grant capacity value)

/-- A creation that nobody disturbs has the effect of `allocateIn` after at most two accesses. -/
theorem creation_alone (capacity : Nat) (value : α) (gauge : Gauge) :
    (creation capacity value : Creation width α).alone true 2 gauge .observe =
      (((allocateIn capacity value : Fallible Gauge (PagedArray width α)).perform gauge).2,
        some ((allocateIn capacity value : Fallible Gauge (PagedArray width α)).perform
          gauge).1) := by
  rw [creation, Machine.alone_map, Gauge.reservation_alone]
  have reserved := Fallible.perform_ofGuarded (Gauge.reserve (arrayBytes capacity width)) gauge
  cases taken : (Gauge.reserve (arrayBytes capacity width)).perform gauge with
  | mk answer left =>
      rw [taken] at reserved
      cases answer with
      | ok remaining =>
          rw [allocateIn, Fallible.perform_bind_of_ok reserved, Fallible.perform_lift]
          rfl
      | error fault =>
          rw [allocateIn, Fallible.perform_bind_of_fault reserved]
          rfl

def toList (array : PagedArray width α) : List α := array.pages.toList.flatMap Array.toList

def pageTotal (array : PagedArray width α) : Nat := array.pages.size

/-- The estimated bytes that the array occupies, and that dropping it frees. -/
def bytes (array : PagedArray width α) : Nat := arrayBytes array.capacity width

theorem pageOf_lt_size (array : PagedArray width α) {index : Nat} (h : index < array.capacity) :
    pageOf width index < array.pages.size := by
  rw [array.size_pages]; exact pageOf_lt h

@[inline] def get (array : PagedArray width α) (index : Nat) (h : index < array.capacity) : α :=
  have page_lt := array.pageOf_lt_size h
  have offset_lt : offsetOf width index < array.pages[pageOf width index].size := by
    rw [array.size_page]; exact offsetOf_lt h
  array.pages[pageOf width index][offsetOf width index]

def get? (array : PagedArray width α) (index : Nat) : Option α :=
  if h : index < array.capacity then some (array.get index h) else none

def modifySlot (array : PagedArray width α) (slot : Slot) (f : α → α) : PagedArray width α where
  capacity := array.capacity
  pages := array.pages.modify slot.page fun page => page.modify slot.offset f
  size_pages := by rw [Array.size_modify]; exact array.size_pages
  size_page := by
    intro page h
    rw [Array.getElem_modify]
    rw [Array.size_modify] at h
    split
    · rw [Array.size_modify]; exact array.size_page page h
    · exact array.size_page page h

/-- Apply `f` to the element at an index. An index that names no slot is left alone. -/
def modify (array : PagedArray width α) (index : Nat) (f : α → α) : PagedArray width α :=
  array.modifySlot (slotOf width index) f

def set (array : PagedArray width α) (index : Nat) (value : α) : PagedArray width α :=
  array.modify index fun _ => value

def fill (array : PagedArray width α) (value : α) : PagedArray width α where
  capacity := array.capacity
  pages := array.pages.map fun page => page.map fun _ => value
  size_pages := by rw [Array.size_map]; exact array.size_pages
  size_page := by
    intro page h
    rw [Array.getElem_map, Array.size_map]
    rw [Array.size_map] at h
    exact array.size_page page h

def slots (array : PagedArray width α) : List Slot :=
  array.pages.toList.zipIdx.flatMap fun numbered =>
    (List.range numbered.1.size).map (Slot.mk numbered.2)

/-- Replace what the given slots hold by a function of their indexes, one after the other. -/
def refill (array : PagedArray width α) (f : Nat → α) (slots : List Slot) : PagedArray width α :=
  slots.foldl (fun array slot => array.modifySlot slot fun _ => f (slot.index width)) array

/-- Replace every element by a function of its index. Every page is refilled on its own, so the
slots may come in any order that suits the workers; here one page comes after the other. -/
def setEach (array : PagedArray width α) (f : Nat → α) : PagedArray width α :=
  array.refill f array.slots

/-- Replace every element by the generator's answer for its index, asking page after page and
within a page from its first slot to its last. -/
def setAll (array : PagedArray width α) (generator : σ → Nat → α × σ) (state : σ) :
    PagedArray width α × σ :=
  array.slots.foldl (fun (array, state) slot =>
    let (value, state) := generator state (slot.index width)
    (array.modifySlot slot fun _ => value, state)) (array, state)

/-- The element at an index; an index out of bounds is answered with `refuse index capacity`. -/
@[inline] def read (refuse : Nat → Nat → ε) (index : Nat) (array : PagedArray width α) : Except ε α :=
  if h : index < array.capacity then .ok (array.get index h)
  else .error (refuse index array.capacity)

/-- Hand out the element at an index to be changed in place: `f` says what is answered and what the
element becomes. -/
@[inline] def update {β : Type} (refuse : Nat → Nat → ε) (index : Nat) (f : α → β × α) :
    Guarded ε (PagedArray width α) β :=
  .ofFunction fun array =>
    if h : index < array.capacity then
      let (answer, value) := f (array.get index h)
      (.ok answer, array.set index value)
    else (.error (refuse index array.capacity), array)

def swap (refuse : Nat → Nat → ε) (index : Nat) (value : α) : Guarded ε (PagedArray width α) α :=
  update refuse index fun old => (old, value)

def write (refuse : Nat → Nat → ε) (index : Nat) (value : α) :
    Guarded ε (PagedArray width α) Unit :=
  update refuse index fun _ => ((), value)

def describe (array : PagedArray width α) : String :=
  s!"PagedArray \x7b capacity: {array.capacity}, pages: {array.pageTotal}, " ++
    s!"page_size: {pageSize width} \x7d"

@[simp] theorem capacity_ofFn (capacity : Nat) (f : (index : Nat) → index < capacity → α) :
    (ofFn capacity f : PagedArray width α).capacity = capacity := rfl

@[simp] theorem capacity_modify (array : PagedArray width α) (index : Nat) (f : α → α) :
    (array.modify index f).capacity = array.capacity := rfl

@[simp] theorem capacity_set (array : PagedArray width α) (index : Nat) (value : α) :
    (array.set index value).capacity = array.capacity := rfl

@[simp] theorem capacity_replicate (capacity : Nat) (value : α) :
    (replicate capacity value : PagedArray width α).capacity = capacity := rfl

@[simp] theorem get_ofFn (capacity : Nat) (f : (index : Nat) → index < capacity → α) (index : Nat)
    (h : index < (ofFn capacity f : PagedArray width α).capacity) :
    (ofFn capacity f : PagedArray width α).get index h = f index h := by
  simp only [get, ofFn, Array.getElem_ofFn]
  congr 1
  exact pageStart_add_offsetOf width index

theorem get_modify (array : PagedArray width α) (target index : Nat) (f : α → α)
    (h : index < (array.modify target f).capacity) :
    (array.modify target f).get index h =
      if target = index then f (array.get index h) else array.get index h := by
  simp only [get, modify, modifySlot, slotOf, Array.getElem_modify]
  by_cases same : target = index
  · subst same; simp [Array.getElem_modify]
  · rw [if_neg same]
    split
    · rename_i samePage
      rw [Array.getElem_modify, if_neg]
      intro sameOffset
      apply same
      rw [← pageStart_add_offsetOf width target, ← pageStart_add_offsetOf width index,
        samePage, sameOffset]
    · rfl

end PagedArray

end GraphAnalytics
