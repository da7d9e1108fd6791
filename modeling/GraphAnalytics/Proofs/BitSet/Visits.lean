/-
# Visiting the indexes of a bit set from many sides

Any number of calls ask whether an index is in the set or put one there, each in a single access to
a single word, and their accesses interleave in any order. Beside the words stands the finite set of
indexes that calls have put there so far, read off the calls alone (`taken`). Every answer is the
one that this set gives, and of the calls that put the same index there the first is told that it
was new and no other.

The ones are counted word by word. They are as many as the set has elements because the bits behind
the last index stay zero: a set that was just cleared has none, and an index out of bounds is
refused before a word is touched.
-/

import GraphAnalytics.Proofs.BitSet
import GraphAnalytics.Proofs.Interleaving
import Mathlib.Data.Finset.Card
import Mathlib.Data.List.Nodup

namespace GraphAnalytics

variable {α β : Type}

/-- What is collected from a list after one item that gave nothing was replaced. -/
theorem perm_filterMap_set {f : α → Option β} {list : List α} {place : Nat} {old : α}
    (here : list[place]? = some old) (blank : f old = none) (new : α) :
    ((list.set place new).filterMap f).Perm ((f new).toList ++ list.filterMap f) := by
  induction list generalizing place with
  | nil => cases here
  | cons first rest ih =>
      cases place with
      | zero =>
          obtain rfl := Option.some.inj here
          rw [List.set_cons_zero, List.filterMap_cons_none blank, List.filterMap_cons]
          cases f new <;> exact .refl _
      | succ place =>
          rw [List.set_cons_succ, List.filterMap_cons, List.filterMap_cons]
          have perm := ih here
          cases f first with
          | none => exact perm
          | some result => exact (perm.cons result).trans List.perm_middle.symm

namespace BitSet

/-! ### Counting ones -/

/-- The ones of some words are the places at which the word that holds the place has a one. -/
theorem foldr_ones (words : List Nat) :
    words.foldr (fun word total => ones word + total) 0 =
      (List.range (64 * words.length)).countP fun place =>
        (words[place / 64]?.getD 0).testBit (place % 64) := by
  induction words with
  | nil => rfl
  | cons word words ih =>
      have first : ones word = (List.range 64).countP fun place =>
          ((word :: words)[place / 64]?.getD 0).testBit (place % 64) := by
        refine List.countP_congr fun place member => ?_
        have small := List.mem_range.mp member
        rw [Nat.div_eq_of_lt small, Nat.mod_eq_of_lt small]
        rfl
      rw [List.foldr_cons, ih, first, List.length_cons, Nat.mul_succ, Nat.add_comm (64 * _),
        List.range_add, List.countP_append, List.countP_map]
      congr 1
      refine List.countP_congr fun place _ => ?_
      rw [Function.comp_apply, Nat.add_div_left _ (by decide), List.getElem?_cons_succ,
        Nat.add_mod_left]

/-- The ones of a bit set are just the elements of a finite set of indexes below its bound. -/
structure Holds (bits : Nat) (members : Finset Nat) (set : BitSet) : Prop where
  bits_eq : set.bits = bits
  test_eq : ∀ index, set.test index = decide (index ∈ members)
  lt_bits : ∀ index ∈ members, index < bits

variable {bits : Nat} {members : Finset Nat} {set : BitSet}

theorem holds_empty (bits : Nat) : Holds bits ∅ (empty bits) where
  bits_eq := rfl
  test_eq index := test_empty bits index
  lt_bits _ member := absurd member (Finset.notMem_empty _)

/-- There are as many ones as elements: no word has a one behind the last index. -/
theorem Holds.count_eq (holds : Holds bits members set) : set.count = members.card := by
  have places : set.count = (List.range (64 * set.words.size)).countP set.test := by
    rw [count, foldr_ones, Array.length_toList]
    refine List.countP_congr fun place _ => ?_
    rw [test_eq_testBit, word, Array.getElem?_toList]
  have same : ((List.range (64 * set.words.size)).filter set.test).toFinset = members := by
    ext index
    have room : index ∈ members → index < 64 * set.words.size := by
      intro member
      have less := holds.lt_bits index member
      rw [set.size_words, holds.bits_eq, Word.ceilDiv]
      omega
    rw [List.mem_toFinset, List.mem_filter, List.mem_range, holds.test_eq, decide_eq_true_iff]
    exact ⟨And.right, fun member => ⟨room member, member⟩⟩
  rw [places, List.countP_eq_length_filter, ← same,
    List.toFinset_card_of_nodup (List.nodup_range.filter _)]

/-! ### Requests -/

/-- What is asked of a bit set in one access: whether an index is in the set, or to put it there and
to tell whether it was new. -/
inductive Request where
  | contains (index : Nat)
  | testAndSet (index : Nat)

namespace Request

def index : Request → Nat
  | .contains index | .testAndSet index => index

def perform (set : BitSet) : Request → Except Violation Bool × BitSet
  | .contains index => (set.contains index, set)
  | .testAndSet index => (BitSet.testAndSet index).perform set

/-- What a finite set of indexes below a bound answers. -/
def answer (bits : Nat) (members : Finset Nat) (request : Request) : Except Violation Bool :=
  if request.index < bits then
    match request with
    | .contains index => .ok (decide (index ∈ members))
    | .testAndSet index => .ok (decide (index ∉ members))
  else .error (.indexOutOfBounds request.index bits)

/-- The index that a request puts into a set with the given bound. -/
def put? (bits : Nat) : Request → Option Nat
  | .contains _ => none
  | .testAndSet index => if index < bits then some index else none

/-- What becomes of a finite set of indexes below a bound. -/
def grow (bits : Nat) (members : Finset Nat) (request : Request) : Finset Nat :=
  match request.put? bits with
  | some index => members ∪ {index}
  | none => members

theorem mem_grow (bits : Nat) (members : Finset Nat) (request : Request) (index : Nat) :
    index ∈ request.grow bits members ↔ request.put? bits = some index ∨ index ∈ members := by
  rw [grow]
  cases request.put? bits with
  | none => simp
  | some own => simp [eq_comm]

end Request

/-- A bit set answers a request as the finite set of its elements does. -/
theorem Holds.answer_eq (holds : Holds bits members set) (request : Request) :
    (request.perform set).1 = request.answer bits members := by
  cases request with
  | contains index =>
      rw [Request.perform, contains, holds.bits_eq, holds.test_eq]
      rfl
  | testAndSet index =>
      simp only [Request.perform, testAndSet, Guarded.perform_ofFunction, Request.answer,
        Request.index, holds.bits_eq, holds.test_eq, decide_not]
      split <;> rfl

/-- After a request a bit set has the elements that the finite set has then. -/
theorem Holds.perform (holds : Holds bits members set) (request : Request) :
    Holds bits (request.grow bits members) (request.perform set).2 := by
  cases request with
  | contains index => exact holds
  | testAndSet index =>
      have next : ((Request.testAndSet index).perform set).2 =
          if index < set.bits then set.insert index else set := by
        rw [Request.perform, testAndSet, Guarded.perform_ofFunction]
        split <;> rfl
      rw [next, Request.grow, Request.put?, holds.bits_eq]
      by_cases inside : index < bits
      · rw [if_pos inside, if_pos inside]
        refine ⟨holds.bits_eq, fun other => ?_, fun other member => ?_⟩
        · rw [test_insert set (holds.bits_eq ▸ inside), holds.test_eq, ← Bool.decide_or]
          exact decide_eq_decide.mpr (by simp [eq_comm])
        · rcases Finset.mem_union.mp member with old | new
          · exact holds.lt_bits other old
          · exact Finset.mem_singleton.mp new ▸ inside
      · rw [if_neg inside, if_neg inside]
        exact holds

/-- To put an index into a bit set does not change the answer for another, whether or not they share
a word. -/
theorem Holds.contains_testAndSet (holds : Holds bits members set) {index other : Nat}
    (differs : other ≠ index) :
    ((Request.testAndSet index).perform set).2.contains other = set.contains other := by
  have unmoved : other ∈ (Request.testAndSet index).grow bits members ↔ other ∈ members := by
    rw [Request.mem_grow]
    refine or_iff_right fun put => differs ?_
    rw [Request.put?, Option.ite_none_right_eq_some, Option.some.injEq] at put
    exact put.2.symm
  calc ((Request.testAndSet index).perform set).2.contains other
      = (Request.contains other).answer bits ((Request.testAndSet index).grow bits members) :=
        (holds.perform (.testAndSet index)).answer_eq (.contains other)
    _ = (Request.contains other).answer bits members := by
        simp only [Request.answer, unmoved]
    _ = set.contains other := (holds.answer_eq (.contains other)).symm

theorem Request.perform_of_le {request : Request} (beyond : set.bits ≤ request.index) :
    request.perform set = (.error (.indexOutOfBounds request.index set.bits), set) := by
  cases request with
  | contains index =>
      have outside : ¬index < set.bits := Nat.not_lt.mpr beyond
      rw [perform, BitSet.contains, if_neg outside, Request.index]
  | testAndSet index =>
      have outside : ¬index < set.bits := Nat.not_lt.mpr beyond
      rw [perform, BitSet.testAndSet, Guarded.perform_ofFunction, if_neg outside, Request.index]

/-! ### Calls -/

/-- What a call leaves behind when it returns: what it was asked, and what it answered. -/
abbrev Reply := Request × Except Violation Bool

abbrev Visit := Turn Request Reply

def visits : Machine Unit BitSet Request Reply where
  step _ set request := ((request.perform set).2, .done (request, (request.perform set).1))

abbrev Visits := List (Pool.Activity Request Unit)

def visited (start : BitSet) (history : Visits) : Pool BitSet Request Reply :=
  Pool.after visits id start history

/-- The call has returned, and this is what it was asked and what it answered. -/
def Returned (pool : Pool BitSet Request Reply) (call : Nat) (request : Request)
    (answer : Except Violation Bool) : Prop :=
  pool.calls[call]? = some (.done (request, answer))

/-- The index that a call was to put into the set, once it is there. -/
def Visit.settled? : Visit → Option Nat
  | .done (.testAndSet index, .ok _) => some index
  | _ => none

/-- The index that a call has put into the set and that was new. -/
def Visit.won? : Visit → Option Nat
  | .done (.testAndSet index, .ok true) => some index
  | _ => none

/-- The indexes that calls have put into the set. -/
def taken (calls : List Visit) : Finset Nat := (calls.filterMap Visit.settled?).toFinset

/-- The indexes that calls have put into the set after a history. -/
def elements (start : BitSet) (history : Visits) : Finset Nat := taken (visited start history).calls

theorem Visit.settled?_answer (bits : Nat) (members : Finset Nat) (request : Request) :
    Visit.settled? (.done (request, request.answer bits members)) = request.put? bits := by
  cases request with
  | contains index => rfl
  | testAndSet index =>
      rw [Request.answer, Request.put?, Request.index]
      split <;> rfl

theorem Visit.won?_answer (bits : Nat) (members : Finset Nat) (request : Request) :
    Visit.won? (.done (request, request.answer bits members)) =
      (request.put? bits).filter (· ∉ members) := by
  cases request with
  | contains index => rfl
  | testAndSet index =>
      rw [Request.answer, Request.put?, Request.index]
      split
      · by_cases old : index ∈ members <;> simp [Visit.won?, Option.filter, old]
      · rfl

theorem Visit.won?_eq_some {visit : Visit} {index : Nat} :
    visit.won? = some index ↔ visit = .done (.testAndSet index, .ok true) := by
  refine ⟨fun wins => ?_, fun returned => returned ▸ rfl⟩
  unfold won? at wins
  split at wins
  · rw [Option.some.inj wins]
  · cases wins

/-- The elements of the set are those that calls have put there, and each was new to one call. -/
structure Sound (bits : Nat) (pool : Pool BitSet Request Reply) : Prop where
  holds : Holds bits (taken pool.calls) pool.shared
  won_nodup : (pool.calls.filterMap Visit.won?).Nodup
  mem_won_iff : ∀ index, index ∈ pool.calls.filterMap Visit.won? ↔ index ∈ taken pool.calls

namespace Sound

variable {pool : Pool BitSet Request Reply} {call : Nat} {request : Request}

/-- The call that makes its access returns what the finite set answers. -/
theorem apply_access (sound : Sound bits pool)
    (running : pool.calls[call]? = some (.more request)) (luck : Unit) :
    pool.apply visits (.access call luck) =
      ⟨(request.perform pool.shared).2,
        pool.calls.set call (.done (request, request.answer bits (taken pool.calls)))⟩ := by
  rw [Pool.apply_access _ luck running, ← sound.holds.answer_eq]
  rfl

/-- The call that makes its access adds what it was to put into the set. -/
theorem taken_set (running : pool.calls[call]? = some (.more request)) :
    taken (pool.calls.set call (.done (request, request.answer bits (taken pool.calls)))) =
      request.grow bits (taken pool.calls) := by
  ext index
  rw [Request.mem_grow, taken, List.mem_toFinset, (perm_filterMap_set running rfl _).mem_iff,
    List.mem_append, Option.mem_toList, Visit.settled?_answer]
  exact or_congr Iff.rfl List.mem_toFinset.symm

theorem ask (sound : Sound bits pool) (request : Request) :
    Sound bits ⟨pool.shared, pool.calls ++ [Turn.more request]⟩ := by
  have settled : (pool.calls ++ [Turn.more request]).filterMap Visit.settled? =
      pool.calls.filterMap Visit.settled? := by simp [Visit.settled?]
  have won : (pool.calls ++ [Turn.more request]).filterMap Visit.won? =
      pool.calls.filterMap Visit.won? := by simp [Visit.won?]
  constructor
  · simpa only [taken, settled] using sound.holds
  · simpa only [won] using sound.won_nodup
  · simpa only [taken, settled, won] using sound.mem_won_iff

/-- An index that a call puts into the set was new to this call just if it is there now and was not
before. -/
theorem access (sound : Sound bits pool) (running : pool.calls[call]? = some (.more request))
    (luck : Unit) : Sound bits (pool.apply visits (.access call luck)) := by
  rw [sound.apply_access running]
  have perm := perm_filterMap_set running (f := Visit.won?) rfl
    (.done (request, request.answer bits (taken pool.calls)))
  rw [Visit.won?_answer] at perm
  refine ⟨?_, ?_, fun index => ?_⟩
  · rw [taken_set running]
    exact sound.holds.perform request
  · rw [perm.nodup_iff, List.nodup_append]
    refine ⟨Option.toList_nodup _, sound.won_nodup, ?_⟩
    rintro index new _ old rfl
    rw [Option.mem_toList, Option.filter_eq_some_iff] at new
    exact of_decide_eq_true new.2 ((sound.mem_won_iff index).mp old)
  · rw [taken_set running, perm.mem_iff, List.mem_append, sound.mem_won_iff, Request.mem_grow,
      Option.mem_toList, Option.filter_eq_some_iff, decide_eq_true_iff]
    by_cases old : index ∈ taken pool.calls <;> simp [old]

theorem apply (sound : Sound bits pool) (activity : Pool.Activity Request Unit) :
    Sound bits (pool.apply visits (activity.move id)) := by
  cases activity with
  | ask request => exact sound.ask request
  | access call luck =>
      rw [Pool.Activity.move]
      by_cases running : ∃ request, pool.calls[call]? = some (.more request)
      · obtain ⟨request, running⟩ := running
        exact sound.access running luck
      · rw [Pool.apply_resting visits luck fun request here => running ⟨request, here⟩]
        exact sound

theorem existsUnique_won (sound : Sound bits pool) {index : Nat}
    (member : index ∈ taken pool.calls) :
    ∃! call, Returned pool call (.testAndSet index) (.ok true) := by
  obtain ⟨visit, visits, wins⟩ := List.mem_filterMap.mp ((sound.mem_won_iff index).mpr member)
  rw [Visit.won?_eq_some] at wins
  obtain ⟨call, here⟩ := List.mem_iff_getElem?.mp (wins ▸ visits)
  refine ⟨call, here, fun other there => ?_⟩
  have apart := List.pairwise_iff_getElem.mp (List.pairwise_filterMap.mp sound.won_nodup)
  obtain ⟨begun, here⟩ := List.getElem?_eq_some_iff.mp here
  obtain ⟨began, there⟩ := List.getElem?_eq_some_iff.mp there
  rcases Nat.lt_trichotomy other call with before | same | behind
  · exact absurd rfl (apart other call began begun before index (there ▸ rfl) index (here ▸ rfl))
  · exact same
  · exact absurd rfl (apart call other begun began behind index (here ▸ rfl) index (there ▸ rfl))

theorem card_taken (sound : Sound bits pool) :
    (taken pool.calls).card = pool.calls.countP fun visit => (Visit.won? visit).isSome := by
  rw [← List.length_filterMap_eq_countP, ← List.toFinset_card_of_nodup sound.won_nodup]
  congr 1
  ext index
  rw [List.mem_toFinset, sound.mem_won_iff]

end Sound

theorem sound_visited (set : BitSet) (history : Visits) :
    Sound set.bits (visited set.clear history) := by
  induction history using List.reverseRecOn with
  | nil => exact ⟨holds_empty set.bits, .nil, fun _ => Iff.rfl⟩
  | append_singleton history activity ih =>
      rw [visited, Pool.after_concat]
      exact ih.apply activity

/-- After a history of requests that began with a set without elements, the set is the finite set of
the indexes that calls have put there: every access, every call that has returned and whoever asks
now is answered by it. Each index in it was new to exactly one call, so that there are as many ones
as such calls. To put an index there changes no other answer, and an index out of bounds is
refused. -/
structure Behaves (start : BitSet) (history : Visits) : Prop where
  access : ∀ before call luck request,
    history = before ++ [.access call luck] →
    (visited start before).calls[call]? = some (.more request) →
      Returned (visited start history) call request
          (request.answer start.bits (elements start before)) ∧
        elements start history = request.grow start.bits (elements start before)
  returned : ∀ call request answer,
    Returned (visited start history) call request answer →
      ∃ before luck later, history = before ++ .access call luck :: later ∧
        answer = request.answer start.bits (elements start before)
  answer_eq : ∀ request : Request, (request.perform (visited start history).shared).1 =
    request.answer start.bits (elements start history)
  lt_bits : ∀ index ∈ elements start history, index < start.bits
  existsUnique_won : ∀ index ∈ elements start history,
    ∃! call, Returned (visited start history) call (.testAndSet index) (.ok true)
  count_eq_card : (visited start history).shared.count = (elements start history).card
  count_eq_countP : (visited start history).shared.count =
    (visited start history).calls.countP fun visit => (Visit.won? visit).isSome
  others : ∀ index other, other ≠ index →
    ((Request.testAndSet index).perform (visited start history).shared).2.contains other =
      (visited start history).shared.contains other
  refused : ∀ request : Request, start.bits ≤ request.index →
    request.perform (visited start history).shared =
      (.error (.indexOutOfBounds request.index start.bits), (visited start history).shared)

/-- In every interleaving of requests since a bit set was made or cleared, it behaves as the finite
set of the indexes that were put into it. -/
theorem interleaved_visits_behave (set : BitSet) (history : Visits) :
    Behaves set.clear history := by
  have sound := sound_visited set history
  constructor
  case access =>
    rintro before call luck request rfl running
    have earlier := sound_visited set before
    have state : visited set.clear (before ++ [.access call luck]) = _ :=
      (Pool.after_concat ..).trans (earlier.apply_access running luck)
    rw [Returned, elements, elements, state]
    exact ⟨List.getElem?_set_self (List.getElem?_eq_some_iff.mp running).1,
      Sound.taken_set running⟩
  case returned =>
    intro call request answer returned
    obtain ⟨before, luck, later, point, split, -, last⟩ :=
      Pool.exists_return visits id set.clear returned
    obtain ⟨rfl, rfl⟩ := Prod.mk.inj (Turn.done.inj last)
    exact ⟨before, luck, later, split, (sound_visited set before).holds.answer_eq point⟩
  case answer_eq => exact sound.holds.answer_eq
  case lt_bits => exact sound.holds.lt_bits
  case existsUnique_won => exact fun index => sound.existsUnique_won
  case count_eq_card => exact sound.holds.count_eq
  case count_eq_countP => exact sound.holds.count_eq.trans sound.card_taken
  case others => exact fun index other differs => sound.holds.contains_testAndSet differs
  case refused =>
    intro request beyond
    have bits_eq : (visited set.clear history).shared.bits = set.bits := sound.holds.bits_eq
    rw [request.perform_of_le (bits_eq ▸ beyond), bits_eq]
    rfl

-- A set that was just made is one that was cleared.
example (bits : Nat) : (empty bits).clear = empty bits := rfl

-- Two calls put the last index of a set there, and the one that came later is faster.
example : (visited (empty 65) [.ask (.testAndSet 64), .ask (.testAndSet 64), .access 1 (),
    .access 0 ()]).calls.map Visit.won? = [none, some 64] := by decide

end BitSet

end GraphAnalytics
