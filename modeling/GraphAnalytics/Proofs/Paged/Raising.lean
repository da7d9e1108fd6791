/-
# Raising one cell from many sides

Any number of calls raise the same cell, each to a candidate of its own, and their accesses
interleave in any order. A call reads the cell once and then exchanges it until it wins an exchange
or meets a value that is no smaller than its candidate. What it saw may be stale, but it never
exchanges a value that is not below its candidate, so every exchange that takes place raises the
cell.

`writes` lists the exchanges that took place. It is read off the pool alone and not off the answers
of the calls: that the two agree is part of what is proved (`interleaved_raises`).
-/

import GraphAnalytics.Proofs.Interleaving
import GraphAnalytics.Proofs.Paged.Access
import Mathlib.Algebra.Group.Nat.Defs
import Mathlib.Data.List.Nodup
import Mathlib.Order.Bounds.Basic
import Mathlib.Order.Monotone.Basic

namespace GraphAnalytics

variable {ρ χ σ ℓ α : Type}

/-- Calls of a family of machines on one store. A call keeps the member of the family with which it
began. -/
def Machine.family (member : ρ → Machine χ σ ℓ α) : Machine χ σ (ρ × ℓ) α where
  step luck store point :=
    match (member point.1).step luck store point.2 with
    | (store, .more next) => (store, .more (point.1, next))
    | (store, .done answer) => (store, .done answer)

namespace Cells

def raises (index : Nat) : Machine Unit Cells (Int × Raising) Bool := .family (raising index)

def offer (candidate : Int) : Int × Raising := (candidate, .observe)

/-- A list of what callers do with the cell, in the order in which it happens. -/
abbrev Offers := List (Pool.Activity Int Unit)

/-- The cells and the calls after a history of offers for one cell. -/
def offered (index : Nat) (start : Cells) (history : Offers) : Pool Cells (Int × Raising) Bool :=
  Pool.after (raises index) offer start history

/-- The call has returned and answered. -/
def Answered (pool : Pool Cells (Int × Raising) Bool) (call : Nat) (answer : Bool) : Prop :=
  pool.calls[call]? = some (.done answer)

/-- The call and the candidate of the exchange that an activity carries out, if it does. An exchange
is carried out if the cell holds what the call saw in it last. -/
def write? (index : Nat) (pool : Pool Cells (Int × Raising) Bool) :
    Pool.Activity Int Unit → Option (Nat × Int)
  | .ask _ => none
  | .access call _ =>
      match pool.calls[call]? with
      | some (.more (candidate, .exchange observed)) =>
          if pool.shared.value index = observed then some (call, candidate) else none
      | _ => none

/-- The exchanges that a history carries out from a given pool on. -/
def writesFrom (index : Nat) : Pool Cells (Int × Raising) Bool → Offers → List (Nat × Int)
  | _, [] => []
  | pool, activity :: history =>
      (write? index pool activity).toList ++
        writesFrom index (pool.apply (raises index) (activity.move offer)) history

/-- The exchanges that a history carries out, first to last. -/
def writes (index : Nat) (start : Cells) (history : Offers) : List (Nat × Int) :=
  writesFrom index ⟨start, []⟩ history

/-! ### Single accesses -/

section Steps

variable {cells : Cells} {index : Nat} {candidate observed : Int}

def decided (candidate observed : Int) : Turn (Int × Raising) Bool :=
  if observed < candidate then .more (candidate, .exchange observed) else .done false

theorem raises_observe (luck : Unit) :
    (raises index).step luck cells (candidate, .observe) =
      (cells, decided candidate (cells.value index)) := by
  by_cases smaller : cells.value index < candidate <;>
    simp [raises, Machine.family, raising, decideRaise, decided, smaller]

theorem raises_exchange_of_eq (luck : Unit) (same : cells.value index = observed) :
    (raises index).step luck cells (candidate, .exchange observed) =
      (cells.set index candidate, .done true) := by
  simp [raises, Machine.family, raising, compareExchange, same]

theorem raises_exchange_of_ne (luck : Unit) (other : cells.value index ≠ observed) :
    (raises index).step luck cells (candidate, .exchange observed) =
      (cells, decided candidate (cells.value index)) := by
  by_cases smaller : cells.value index < candidate <;>
    simp [raises, Machine.family, raising, compareExchange, decideRaise, decided, other, smaller]

end Steps

/-! ### What calls promise each other -/

/-- One state of the cells turns into another by calls that raise a cell: that cell holds no less,
and no other has changed. -/
structure Raised (index : Nat) (before after : Cells) : Prop where
  capacity : after.capacity = before.capacity
  rises : before.value index ≤ after.value index
  others : ∀ other, other ≠ index → after.value other = before.value other

namespace Raised

variable {index : Nat} {before between after : Cells}

theorem refl (index : Nat) (cells : Cells) : Raised index cells cells :=
  ⟨rfl, Int.le_refl _, fun _ _ => rfl⟩

theorem trans (first : Raised index before between) (second : Raised index between after) :
    Raised index before after where
  capacity := second.capacity.trans first.capacity
  rises := Int.le_trans first.rises second.rises
  others other differs := (second.others other differs).trans (first.others other differs)

theorem set {cells : Cells} (inside : index < cells.capacity) {candidate : Int}
    (larger : cells.value index < candidate) : Raised index cells (cells.set index candidate) where
  capacity := rfl
  rises := by
    rw [value_set_self _ _ inside]
    exact Int.le_of_lt larger
  others other differs := value_set_of_ne _ _ differs.symm

end Raised

/-- What a call that offers a candidate has established: it only ever tries to exchange a value
below the candidate, and when it has returned the cell holds no less than that. -/
def Established (index : Nat) (candidate : Int) (cells : Cells) : Turn (Int × Raising) Bool → Prop
  | .more (own, .observe) => own = candidate
  | .more (own, .exchange observed) => own = candidate ∧ observed < candidate
  | .done _ => candidate ≤ cells.value index

theorem established_decided (index : Nat) (candidate : Int) (cells : Cells) :
    Established index candidate cells (decided candidate (cells.value index)) := by
  unfold decided
  split
  · next smaller => exact ⟨rfl, smaller⟩
  · next larger => exact Int.not_lt.mp larger

/-- An access of a call raises the cell at most, and the call has established what it should. -/
theorem raises_step {index : Nat} {cells : Cells} (inside : index < cells.capacity)
    {candidate : Int} {point : Int × Raising} (luck : Unit)
    (established : Established index candidate cells (.more point)) :
    Raised index cells ((raises index).step luck cells point).1 ∧
      Established index candidate ((raises index).step luck cells point).1
        ((raises index).step luck cells point).2 := by
  obtain ⟨own, point⟩ := point
  cases point with
  | observe =>
      obtain rfl : own = candidate := established
      rw [raises_observe]
      exact ⟨.refl index cells, established_decided index own cells⟩
  | exchange observed =>
      obtain ⟨rfl, smaller⟩ := established
      by_cases same : cells.value index = observed
      · rw [raises_exchange_of_eq luck same]
        refine ⟨.set inside (same ▸ smaller), ?_⟩
        exact Int.le_of_eq (value_set_self _ _ inside).symm
      · rw [raises_exchange_of_ne luck same]
        exact ⟨.refl index cells, established_decided index own cells⟩

theorem le_of_decided_false {candidate observed : Int}
    (gaveUp : decided candidate observed = .done false) : candidate ≤ observed := by
  unfold decided at gaveUp
  split at gaveUp
  · cases gaveUp
  · next larger => exact Int.not_lt.mp larger

/-- A call that gives up has just seen a value no smaller than its candidate. -/
theorem le_of_step_false {index : Nat} {cells : Cells} {candidate : Int} {point : Int × Raising}
    {luck : Unit} (established : Established index candidate cells (.more point))
    (last : ((raises index).step luck cells point).2 = .done false) :
    candidate ≤ cells.value index := by
  obtain ⟨own, point⟩ := point
  cases point with
  | observe =>
      obtain rfl : own = candidate := established
      rw [raises_observe] at last
      exact le_of_decided_false last
  | exchange observed =>
      obtain ⟨rfl, -⟩ := established
      by_cases same : cells.value index = observed
      · rw [raises_exchange_of_eq luck same] at last
        cases last
      · rw [raises_exchange_of_ne luck same] at last
        exact le_of_decided_false last

def raisingDiscipline (index : Nat) :
    Pool.Discipline (raises index) offer fun _ _ => (0 : Nat) where
  Allowed _ := True
  Sound cells := index < cells.capacity
  Evolves := Raised index
  Serves candidate _ cells turn := Established index candidate cells turn
  evolves_refl _ := .refl index _
  evolves_trans := .trans
  enter _ _ := rfl
  step luck _ inside established := by
    obtain ⟨raised, next⟩ := raises_step inside luck established
    exact ⟨raised.capacity ▸ inside, raised, next⟩
  stable {candidate _ before after turn} _ _ _ raised established := by
    cases turn with
    | done answer => exact Int.le_trans established raised.rises
    | more point =>
        obtain ⟨own, point⟩ := point
        cases point <;> exact established

section Histories

variable {index : Nat} {start : Cells} (inside : index < start.capacity)

include inside

theorem raised_between (before later : Offers) :
    Raised index (offered index start before).shared
      (offered index start (before ++ later)).shared :=
  Pool.Discipline.evolves (d := raisingDiscipline index) inside fun _ _ => trivial

theorem established_of_asked {history : Offers} {call : Nat} {candidate : Int}
    {turn : Turn (Int × Raising) Bool} (asks : (Pool.asked history)[call]? = some candidate)
    (here : (offered index start history).calls[call]? = some turn) :
    Established index candidate (offered index start history).shared turn :=
  (Pool.Discipline.kept (d := raisingDiscipline index) inside fun _ _ => trivial).served call
    candidate turn asks here

end Histories

/-! ### Exchanges that take place -/

section Writes

variable {index : Nat} {pool : Pool Cells (Int × Raising) Bool} {activity : Pool.Activity Int Unit}

/-- An exchange that takes place writes the candidate, and its call returns. -/
theorem apply_of_write {call : Nat} {candidate : Int}
    (wins : write? index pool activity = some (call, candidate)) :
    call < pool.calls.length ∧
      (∃ luck observed, activity = .access call luck ∧
        pool.calls[call]? = some (.more (candidate, .exchange observed)) ∧
        pool.shared.value index = observed) ∧
      pool.apply (raises index) (activity.move offer) =
        ⟨pool.shared.set index candidate, pool.calls.set call (.done true)⟩ := by
  cases activity with
  | ask request => cases wins
  | access mover luck =>
      simp only [write?] at wins
      split at wins
      · next own observed running =>
          split at wins
          · next same =>
              cases wins
              refine ⟨(List.getElem?_eq_some_iff.mp running).1,
                ⟨luck, observed, rfl, running, same⟩, ?_⟩
              rw [Pool.Activity.move, Pool.apply_access _ luck running,
                raises_exchange_of_eq luck same]
          · cases wins
      · cases wins

theorem decided_ne_true (candidate observed : Int) : decided candidate observed ≠ .done true := by
  unfold decided
  split <;> nofun

/-- Moving a call that has not returned on to anything but the answer that it wrote. -/
theorem answered_set {turn : Turn (Int × Raising) Bool} (other : turn ≠ .done true) {mover : Nat}
    {point : Int × Raising} (running : pool.calls[mover]? = some (.more point)) (call : Nat)
    (shared : Cells) :
    Answered ⟨shared, pool.calls.set mover turn⟩ call true ↔ Answered pool call true := by
  unfold Answered
  by_cases same : mover = call
  · subst same
    rw [List.getElem?_set_self (List.getElem?_eq_some_iff.mp running).1, running]
    simp [other]
  · rw [List.getElem?_set_ne same]

/-- Where no exchange takes place nothing is written, and no call answers that it wrote. -/
theorem apply_of_no_write (idle : write? index pool activity = none) :
    (pool.apply (raises index) (activity.move offer)).shared = pool.shared ∧
      ∀ call, Answered (pool.apply (raises index) (activity.move offer)) call true ↔
        Answered pool call true := by
  cases activity with
  | ask request =>
      refine ⟨rfl, fun call => ?_⟩
      simp only [Answered, Pool.apply, Pool.Activity.move, List.getElem?_append]
      split
      · rfl
      · next beyond =>
          rw [List.getElem?_eq_none (Nat.le_of_not_lt beyond), List.getElem?_singleton]
          split <;> simp
  | access mover luck =>
      rw [Pool.Activity.move]
      by_cases running : ∃ point, pool.calls[mover]? = some (.more point)
      · obtain ⟨⟨own, point⟩, running⟩ := running
        have step : (raises index).step luck pool.shared (own, point) =
            (pool.shared, decided own (pool.shared.value index)) := by
          cases point with
          | observe => exact raises_observe luck
          | exchange observed =>
              refine raises_exchange_of_ne luck fun same => ?_
              simp [write?, running, same] at idle
        rw [Pool.apply_access _ luck running, step]
        exact ⟨rfl, fun call => answered_set (decided_ne_true _ _) running call _⟩
      · rw [Pool.apply_resting _ luck fun point here => running ⟨point, here⟩]
        exact ⟨rfl, fun _ => Iff.rfl⟩

theorem writesFrom_concat (pool : Pool Cells (Int × Raising) Bool) (history : Offers)
    (activity : Pool.Activity Int Unit) :
    writesFrom index pool (history ++ [activity]) =
      writesFrom index pool history ++
        (write? index (pool.replay (raises index) (history.map (Pool.Activity.move offer)))
          activity).toList := by
  induction history generalizing pool with
  | nil => simp [writesFrom]
  | cons first history ih =>
      simp only [List.cons_append, writesFrom, ih, List.map_cons, Pool.replay_cons,
        List.append_assoc]

theorem writes_concat (start : Cells) (history : Offers) (activity : Pool.Activity Int Unit) :
    writes index start (history ++ [activity]) =
      writes index start history ++
        (write? index (offered index start history) activity).toList :=
  writesFrom_concat ⟨start, []⟩ history activity

end Writes

section Histories

variable {index : Nat} {start : Cells} {history : Offers} (inside : index < start.capacity)

theorem offered_concat (history : Offers) (activity : Pool.Activity Int Unit) :
    offered index start (history ++ [activity]) =
      (offered index start history).apply (raises index) (activity.move offer) :=
  Pool.after_concat _ _ _ _ _

theorem opened_of_answered {call : Nat} {answer : Bool}
    (answered : Answered (offered index start history) call answer) :
    call < (Pool.asked history).length := by
  rw [← Pool.length_calls (raises index) offer start history]
  exact (List.getElem?_eq_some_iff.mp answered).1

include inside

/-- The call of an exchange that takes place was asked for the candidate that it writes, and that is
above what the cell holds. -/
theorem asked_of_write {activity : Pool.Activity Int Unit} {call : Nat} {candidate : Int}
    (wins : write? index (offered index start history) activity = some (call, candidate)) :
    (Pool.asked history)[call]? = some candidate ∧
      (offered index start history).shared.value index < candidate := by
  obtain ⟨opened, ⟨luck, observed, -, running, same⟩, -⟩ := apply_of_write wins
  have begun : call < (Pool.asked history).length := by
    rwa [← Pool.length_calls (raises index) offer start history]
  have asks := List.getElem?_eq_getElem begun
  obtain ⟨rfl, smaller⟩ := established_of_asked inside asks running
  exact ⟨asks, same ▸ smaller⟩

/-- The calls that have answered that they wrote are those whose exchanges took place. -/
theorem mem_writes_iff {call : Nat} {candidate : Int} :
    (call, candidate) ∈ writes index start history ↔
      (Pool.asked history)[call]? = some candidate ∧
        Answered (offered index start history) call true := by
  induction history using List.reverseRecOn with
  | nil => simp [writes, writesFrom, Answered, offered]
  | append_singleton history activity ih =>
      rw [writes_concat, List.mem_append, ih, Pool.asked_append, offered_concat]
      cases outcome : write? index (offered index start history) activity with
      | none =>
          rw [(apply_of_no_write outcome).2]
          simp only [Option.toList_none, List.not_mem_nil, or_false]
          refine and_congr_left fun answered => ?_
          rw [List.getElem?_append_left (opened_of_answered answered)]
      | some write =>
          obtain ⟨winner, value⟩ := write
          obtain ⟨opened, ⟨luck, observed, rfl, running, -⟩, next⟩ := apply_of_write outcome
          have asks := (asked_of_write inside outcome).1
          have unanswered : ¬ Answered (offered index start history) winner true := by
            rw [Answered, running]
            nofun
          rw [next, Pool.asked_access, List.append_nil, Option.toList_some, List.mem_singleton,
            Prod.mk.injEq]
          by_cases same : call = winner
          · subst same
            have wrote : Answered ⟨(offered index start history).shared.set index value,
                (offered index start history).calls.set call (.done true)⟩ call true :=
              List.getElem?_set_self opened
            simp [unanswered, wrote, asks, eq_comm]
          · simp [same, Answered, List.getElem?_set_ne (Ne.symm same)]

/-- What an activity leaves in the cell: the candidate of an exchange that it carries out, or what
the cell held before. -/
theorem value_concat (activity : Pool.Activity Int Unit) :
    (offered index start (history ++ [activity])).shared.value index =
      ((write? index (offered index start history) activity).map Prod.snd).getD
        ((offered index start history).shared.value index) := by
  have within : index < (offered index start history).shared.capacity :=
    (raised_between inside [] history).capacity ▸ inside
  rw [offered_concat]
  cases outcome : write? index (offered index start history) activity with
  | none =>
      rw [(apply_of_no_write outcome).1]
      rfl
  | some write =>
      rw [(apply_of_write outcome).2.2]
      exact value_set_self _ _ within

/-- The candidates that were written rise from one exchange to the next, and the cell holds none
smaller. -/
theorem pairwise_writes :
    ((writes index start history).map Prod.snd).Pairwise (· < ·) ∧
      ∀ candidate ∈ (writes index start history).map Prod.snd,
        candidate ≤ (offered index start history).shared.value index := by
  induction history using List.reverseRecOn with
  | nil => exact ⟨.nil, nofun⟩
  | append_singleton history activity ih =>
      obtain ⟨rising, below⟩ := ih
      rw [writes_concat, value_concat inside, List.map_append]
      cases outcome : write? index (offered index start history) activity with
      | none =>
          rw [Option.toList_none, List.map_nil, List.append_nil]
          exact ⟨rising, below⟩
      | some write =>
          have larger := (asked_of_write inside outcome).2
          have above : ∀ earlier ∈ (writes index start history).map Prod.snd, earlier < write.2 :=
            fun earlier member => Int.lt_of_le_of_lt (below earlier member) larger
          rw [Option.toList_some, List.map_singleton]
          refine ⟨?_, List.forall_mem_append.mpr ⟨?_, ?_⟩⟩
          · refine List.pairwise_append.mpr ⟨rising, List.pairwise_singleton _ _, ?_⟩
            intro earlier member
            exact List.forall_mem_singleton.mpr (above earlier member)
          · exact fun earlier member => Int.le_of_lt (above earlier member)
          · exact List.forall_mem_singleton.mpr (Int.le_refl _)

theorem value_mem :
    (offered index start history).shared.value index ∈
      start.value index :: Pool.asked history := by
  induction history using List.reverseRecOn with
  | nil => exact List.mem_cons_self
  | append_singleton history activity ih =>
      rw [value_concat inside, Pool.asked_append, ← List.cons_append]
      refine List.mem_append_left _ ?_
      cases outcome : write? index (offered index start history) activity with
      | none => exact ih
      | some write =>
          exact List.mem_cons_of_mem _ (List.mem_of_getElem? (asked_of_write inside outcome).1)

end Histories

/-- What is true of a cell and the calls that raise it, after a history that began with the cells
`start` and no calls. The cell never holds less than before, changes only by the exchanges that take
place, and in the end holds the largest of its first value and all candidates. A call answers that
it wrote if and only if an exchange of its own has taken place, and that it did not only if at some
moment at which it was under way the cell held no less than its candidate. The candidates were
written in increasing order, so no two calls wrote the same. -/
structure Coherent (index : Nat) (start : Cells) (history : Offers) : Prop where
  rises : ∀ before later, history = before ++ later →
    Raised index (offered index start before).shared (offered index start history).shared
  changes : ∀ before activity later, history = before ++ activity :: later →
    (offered index start (before ++ [activity])).shared.value index =
      ((write? index (offered index start before) activity).map Prod.snd).getD
        ((offered index start before).shared.value index)
  maximum : (∀ call < (Pool.asked history).length,
      ∃ answer, Answered (offered index start history) call answer) →
    IsGreatest {value | value ∈ start.value index :: Pool.asked history}
      ((offered index start history).shared.value index)
  won : ∀ call candidate, (Pool.asked history)[call]? = some candidate →
    (Answered (offered index start history) call true ↔
      (call, candidate) ∈ writes index start history)
  lost : ∀ call candidate, (Pool.asked history)[call]? = some candidate →
    Answered (offered index start history) call false →
      ∃ before later point, history = before ++ later ∧
        (offered index start before).calls[call]? = some (.more point) ∧
        candidate ≤ (offered index start before).shared.value index
  rising : ((writes index start history).map Prod.snd).Pairwise (· < ·)
  distinct : ∀ first second candidate, (Pool.asked history)[first]? = some candidate →
    (Pool.asked history)[second]? = some candidate →
      Answered (offered index start history) first true →
        Answered (offered index start history) second true → first = second

/-- Whatever candidates any number of calls offer for one cell and however their accesses
interleave, the cell and the calls are coherent in every state. -/
theorem interleaved_raises_coherent {index : Nat} {start : Cells} (inside : index < start.capacity)
    (history : Offers) : Coherent index start history := by
  constructor
  case rises =>
    rintro before later rfl
    exact raised_between inside before later
  case changes =>
    intro before activity later _
    exact value_concat inside activity
  case maximum =>
    intro returned
    refine ⟨value_mem inside, ?_⟩
    rintro value (_ | ⟨_, member⟩)
    · exact (raised_between inside [] history).rises
    · obtain ⟨call, opened, rfl⟩ := List.mem_iff_getElem.mp member
      obtain ⟨answer, answered⟩ := returned call opened
      exact established_of_asked inside (List.getElem?_eq_getElem opened) answered
  case won =>
    intro call candidate asks
    exact ⟨fun wrote => (mem_writes_iff inside).mpr ⟨asks, wrote⟩,
      fun member => ((mem_writes_iff inside).mp member).2⟩
  case lost =>
    intro call candidate asks answered
    obtain ⟨before, luck, later, point, rfl, running, last⟩ :=
      Pool.exists_return (raises index) offer start answered
    have opened : call < (Pool.asked before).length := by
      rw [← Pool.length_calls (raises index) offer start before]
      exact (List.getElem?_eq_some_iff.mp running).1
    rw [Pool.asked_append, List.getElem?_append_left opened] at asks
    exact ⟨before, _, point, rfl, running,
      le_of_step_false (established_of_asked inside asks running) last⟩
  case rising => exact (pairwise_writes inside).1
  case distinct =>
    intro first second candidate asksFirst asksSecond wroteFirst wroteSecond
    have once : ((writes index start history).map Prod.snd).Nodup :=
      (pairwise_writes inside).1.imp Int.ne_of_lt
    have same := List.inj_on_of_nodup_map once
      ((mem_writes_iff inside).mpr ⟨asksFirst, wroteFirst⟩)
      ((mem_writes_iff inside).mpr ⟨asksSecond, wroteSecond⟩) rfl
    exact congrArg Prod.fst same

/-- Three calls see the same value at first. The one with the smallest candidate wins, and of the
two others, which offer the same, one wins in its second attempt and the other gives up. -/
def contest : Offers :=
  [.ask 5, .ask (-2), .ask 5, .access 0 (), .access 1 (), .access 2 (), .access 1 (), .access 0 (),
    .access 2 (), .access 2 (), .access 0 ()]

theorem contest_coherent :
    3 < PagedArray.capacity (.replicate 10 (-7) : Cells) ∧
      writes 3 (.replicate 10 (-7)) contest = [(1, -2), (2, 5)] ∧
      (offered 3 (.replicate 10 (-7)) contest).shared.value 3 = 5 ∧
      Answered (offered 3 (.replicate 10 (-7)) contest) 2 true ∧
      Coherent 3 (.replicate 10 (-7)) contest := by
  have inside : 3 < PagedArray.capacity (.replicate 10 (-7) : Cells) := by decide
  have wrote : writes 3 (.replicate 10 (-7)) contest = [(1, -2), (2, 5)] := by decide +kernel
  have coherent := interleaved_raises_coherent inside contest
  refine ⟨inside, wrote, by decide +kernel, ?_, coherent⟩
  exact (coherent.won 2 5 rfl).mpr (wrote ▸ by decide)

end Cells

end GraphAnalytics
