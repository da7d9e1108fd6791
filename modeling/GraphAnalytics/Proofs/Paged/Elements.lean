/-
# The elements of a paged array

Pages never show in what an array holds: page by page its elements are the answers for `0`, `1`, …
in turn. So an array is determined by its capacity and its answers, although it is made of pages.
-/

import GraphAnalytics.Proofs.Paged.Access

namespace GraphAnalytics

namespace Paged

theorem pageOf_add {width page offset : Nat} (h : offset < Memory.pageSize width) :
    pageOf width (pageStart width page + offset) = page := by
  rw [pageOf_eq, pageStart_eq, Nat.mul_comm, Nat.mul_add_div (Memory.pageSize_pos width),
    Nat.div_eq_of_lt h, Nat.add_zero]

theorem offsetOf_add {width page offset : Nat} (h : offset < Memory.pageSize width) :
    offsetOf width (pageStart width page + offset) = offset := by
  rw [offsetOf_eq, pageStart_eq, Nat.mul_comm, Nat.mul_add_mod, Nat.mod_eq_of_lt h]

theorem flatMap_pages (capacity width count : Nat) :
    (List.range count).flatMap (fun page =>
        List.range' (pageStart width page) (pageLength capacity width page)) =
      List.range (min capacity (pageStart width count)) := by
  induction count with
  | zero => simp [pageStart_eq]
  | succ count ih =>
      have next : pageStart width (count + 1) = pageStart width count + Memory.pageSize width := by
        rw [pageStart_eq, pageStart_eq, Nat.succ_mul]
      rw [List.range_succ, List.flatMap_append, ih, List.flatMap_singleton, next, pageLength,
        List.range_eq_range', List.range_eq_range']
      rcases Nat.le_total capacity (pageStart width count) with full | room
      · rw [Nat.min_eq_left full, Nat.sub_eq_zero_of_le full, Nat.zero_min, List.range'_zero,
          List.append_nil, Nat.min_eq_left (Nat.le_add_right_of_le full)]
      · have start : List.range' (pageStart width count) (min (capacity - pageStart width count)
            (Memory.pageSize width)) = List.range' (0 + pageStart width count)
              (min (capacity - pageStart width count) (Memory.pageSize width)) := by
          rw [Nat.zero_add]
        rw [Nat.min_eq_right room, start, List.range'_append_1]
        congr 1
        omega

theorem le_pageStart_pageCount (capacity width : Nat) :
    capacity ≤ pageStart width (Memory.pageCount capacity width) := by
  refine Nat.le_of_not_lt fun beyond => ?_
  have inside : pageOf width (pageStart width (Memory.pageCount capacity width)) < _ :=
    pageOf_lt beyond
  rw [pageOf_eq, pageStart_eq, Nat.mul_div_cancel _ (Memory.pageSize_pos width)] at inside
  exact Nat.lt_irrefl _ inside

end Paged

namespace PagedArray

open Paged

variable {width : Nat} {α : Type}

/-- A slot of a page holds the element whose index the layout gives it. -/
theorem getElem_pages (array : PagedArray width α) {page offset : Nat}
    (h : page < array.pages.size) (h' : offset < array.pages[page].size) :
    some array.pages[page][offset] = array.get? (pageStart width page + offset) := by
  rw [array.size_page page h] at h'
  have small : offset < Memory.pageSize width := Nat.lt_of_lt_of_le h' (Nat.min_le_right _ _)
  rw [array.get?_of_lt (pageStart_add_lt h')]
  simp only [get, pageOf_add small, offsetOf_add small]

theorem ext_get? {first second : PagedArray width α} (capacity : first.capacity = second.capacity)
    (answers : ∀ index, first.get? index = second.get? index) : first = second := by
  have pages : first.pages = second.pages := by
    have count : first.pages.size = second.pages.size := by
      rw [first.size_pages, second.size_pages, capacity]
    refine Array.ext count fun page h h' => ?_
    have length : first.pages[page].size = second.pages[page].size := by
      rw [first.size_page page h, second.size_page page h', capacity]
    refine Array.ext length fun offset inside inside' => ?_
    rw [← Option.some_inj, first.getElem_pages h inside, second.getElem_pages h' inside', answers]
  obtain ⟨_, _, _, _⟩ := first
  obtain ⟨_, _, _, _⟩ := second
  cases capacity
  cases pages
  rfl

theorem map_some_toList (array : PagedArray width α) :
    array.toList.map some = (List.range array.capacity).map array.get? := by
  have page_eq (page : Nat) (h : page < array.pages.size) : array.pages[page].toList.map some =
      (List.range' (pageStart width page) (pageLength array.capacity width page)).map
        array.get? := by
    refine List.ext_getElem (by simp [array.size_page]) fun offset inside _ => ?_
    simp only [List.length_map, Array.length_toList] at inside
    simp [array.getElem_pages h inside]
  have pages : array.pages.toList.map (fun page => page.toList.map some) =
      (List.range array.pages.size).map fun page =>
        (List.range' (pageStart width page) (pageLength array.capacity width page)).map
          array.get? := by
    refine List.ext_getElem (by simp) fun page inside _ => ?_
    simp only [List.length_map, Array.length_toList] at inside
    simpa using page_eq page inside
  have all : min array.capacity (pageStart width array.pages.size) = array.capacity := by
    rw [array.size_pages]
    exact Nat.min_eq_left (le_pageStart_pageCount _ _)
  calc array.toList.map some
      = (array.pages.toList.map fun page => page.toList.map some).flatten := by
        rw [toList, List.map_flatMap, List.flatMap_def]
    _ = ((List.range array.pages.size).flatMap fun page => List.range' (pageStart width page)
          (pageLength array.capacity width page)).map array.get? := by
        rw [pages, List.map_flatMap, List.flatMap_def]
    _ = (List.range array.capacity).map array.get? := by rw [flatMap_pages, all]

@[simp] theorem length_toList (array : PagedArray width α) :
    array.toList.length = array.capacity := by
  simpa using congrArg List.length array.map_some_toList

theorem getElem?_toList (array : PagedArray width α) (index : Nat) :
    array.toList[index]? = array.get? index := by
  by_cases inside : index < array.capacity
  · have answer : (array.toList.map some)[index]? = some (array.get? index) := by
      rw [map_some_toList, List.getElem?_map, List.getElem?_range inside, Option.map_some]
    rw [List.getElem?_map] at answer
    obtain ⟨value, here, same⟩ := Option.map_eq_some_iff.mp answer
    rw [here, same]
  · have outside := Nat.le_of_not_lt inside
    rw [array.get?_of_le outside, List.getElem?_eq_none (by rwa [length_toList])]

theorem toList_eq_iff (array : PagedArray width α) (list : List α) :
    array.toList = list ↔ ∀ index, array.get? index = list[index]? := by
  simp only [← getElem?_toList]
  exact ⟨fun same index => by rw [same], fun answers => List.ext_getElem? answers⟩

theorem toList_replicate (capacity : Nat) (value : α) :
    (replicate capacity value : PagedArray width α).toList = List.replicate capacity value := by
  refine (toList_eq_iff _ _).mpr fun index => ?_
  rw [replicate, get?_ofFn, List.getElem?_replicate]
  rfl

theorem toList_set (array : PagedArray width α) (target : Nat) (value : α) :
    (array.set target value).toList = array.toList.set target value := by
  refine (toList_eq_iff _ _).mpr fun index => ?_
  rw [get?_set, List.getElem?_set, length_toList, getElem?_toList]
  by_cases same : target = index
  · subst same
    by_cases inside : target < array.capacity
    · simp [inside]
    · simp [inside, array.get?_of_le (Nat.le_of_not_lt inside)]
  · simp [same]

end PagedArray

end GraphAnalytics
