/-
# Percentages that a task logs

While amounts are logged in a task of known volume, the percentage that was logged last is a
multiple of the step. It is logged when it changes and at no other time, so the percentages of a
task only rise.

What a task has reached is found from a product that stops at the largest word. The quotient is
therefore the exact percentage or, if that is smaller, the quotient of the largest word by the
volume (`Word.satMul_div`). A task of a very large volume never comes to a hundred percent. The
percentages are the exact ones, whatever amounts are logged, if and only if the volume times the
last multiple of the step up to a hundred fits a word (`logged_percentages`).
-/

import GraphAnalytics.Proofs.Progress.Frames
import GraphAnalytics.Proofs.Word
import Mathlib.Order.Bounds.Basic

namespace GraphAnalytics

def Event.percent? : Event → Option Nat
  | .taskReached _ percent => some percent
  | _ => none

namespace Progress

/-! ### Multiples of the step -/

def multiples (step bound : Nat) : Set Nat := {percent | step ∣ percent ∧ percent ≤ bound}

/-- How much of a volume has been processed, in whole percent and at most a hundred. -/
def exactPercent (processed volume : Nat) : Nat := min 100 (100 * processed / volume)

theorem sub_mod_eq_mul_div (bound step : Nat) : bound - bound % step = step * (bound / step) := by
  have := Nat.div_add_mod bound step
  omega

theorem isGreatest_multiples {step : Nat} (pos : 0 < step) (bound : Nat) :
    IsGreatest (multiples step bound) (step * (bound / step)) := by
  refine ⟨⟨Nat.dvd_mul_right _ _, Nat.mul_div_le bound step⟩, ?_⟩
  rintro _ ⟨⟨factor, rfl⟩, le⟩
  refine Nat.mul_le_mul_left step ((Nat.le_div_iff_mul_le pos).mpr ?_)
  rwa [Nat.mul_comm]

/-- The percentage to log is the largest multiple of the step up to the exact percentage or the
quotient of the largest word, whichever is smaller. -/
theorem Tracker.percentAt_eq (step processed volume : Nat) :
    percentAt step processed volume =
      step * (min (exactPercent processed volume) (Word.top / volume) / step) := by
  have clipped : min (Word.satMul processed 100 / volume) 100 =
      min (exactPercent processed volume) (Word.top / volume) := by
    rw [Word.satMul_div, exactPercent, Nat.mul_comm processed]
    omega
  rw [percentAt, clipped, sub_mod_eq_mul_div]

/-- The quotient of the largest word makes no difference to a task that is complete if and only if
the last multiple of the step up to a hundred is below it. -/
theorem min_div_eq_div_iff {step : Nat} (pos : 0 < step) (limit : Nat) :
    min 100 limit / step = 100 / step ↔ step * (100 / step) ≤ limit := by
  have monotone : Monotone fun n => n / step := fun _ _ le => Nat.div_le_div_right le
  have quotient : min 100 limit / step = min (100 / step) (limit / step) := monotone.map_min
  rw [quotient, min_eq_left_iff, Nat.le_div_iff_mul_le pos, Nat.mul_comm]

/-! ### Amounts in one task -/

/-- What is logged of a list of announcements. -/
def Tracker.events (tracker : Tracker) : List Announcement → List Event
  | [] => []
  | announcement :: history =>
      (announcement.perform tracker).2 ++ (announcement.perform tracker).1.events history

def Tracker.percentages (tracker : Tracker) (history : List Announcement) : List Nat :=
  (tracker.events history).filterMap Event.percent?

def logs (amounts : List Nat) : List Announcement := amounts.map .log

namespace Frame

def countAll (amounts : List Nat) (frame : Frame) : Frame :=
  { frame with amounts := amounts.reverse ++ frame.amounts }

@[simp] theorem processed_count (amount : Nat) (frame : Frame) :
    (frame.count amount).processed = amount + frame.processed := List.sum_cons

theorem countAll_cons (amount : Nat) (amounts : List Nat) (frame : Frame) :
    frame.countAll (amount :: amounts) = (frame.count amount).countAll amounts := by
  simp [countAll, count]

theorem processed_countAll (amounts : List Nat) (frame : Frame) :
    (frame.countAll amounts).processed = amounts.sum + frame.processed := by
  simp [processed, countAll]

end Frame

namespace Tracker

variable {tracker : Tracker} {frame : Frame} {amounts : List Nat}

/-- Of an amount that fits a percentage is logged exactly if it is another one than the last. -/
theorem events_log {amount : Nat} (same : tracker.counters = frame.counters tracker.step)
    (fits : (frame.count amount).processed ≤ Word.top) :
    (tracker.log amount).2 =
      if (tracker.log amount).1.counters.percent = tracker.counters.percent then []
      else [.taskReached tracker.path (tracker.log amount).1.counters.percent] := by
  have risen := frame.percent_le_count tracker.step amount
  rw [log_of_counters same fits, same]
  change (if frame.percent tracker.step < (frame.count amount).percent tracker.step then _ else _) =
    if (frame.count amount).percent tracker.step = frame.percent tracker.step then _ else _
  split
  · next reached => exact (if_neg (Nat.ne_of_gt reached)).symm
  · next kept => exact (if_pos (Nat.le_antisymm (Nat.le_of_not_lt kept) risen)).symm

/-- What is left of some amounts that fit when the first has been logged. -/
theorem rest_fits {amount : Nat} (fits : (amount :: amounts).sum + frame.processed ≤ Word.top) :
    amounts.sum + (frame.count amount).processed ≤ Word.top := by
  rw [List.sum_cons] at fits
  rw [Frame.processed_count]
  omega

/-- Amounts that fit are counted for the task whose counters the tracker has. -/
theorem after_logs (same : tracker.counters = frame.counters tracker.step)
    (fits : amounts.sum + frame.processed ≤ Word.top) :
    tracker.after (logs amounts) =
      { tracker with counters := (frame.countAll amounts).counters tracker.step } := by
  induction amounts generalizing tracker frame with
  | nil =>
      obtain ⟨name, step, tasks, counters⟩ := tracker
      exact congrArg (Tracker.mk name step tasks) same
  | cons amount amounts ih =>
      have rest := rest_fits fits
      have logged : tracker.log amount = _ := log_of_counters same (by omega)
      rw [Frame.countAll_cons]
      change (tracker.log amount).1.after (logs amounts) = _
      rw [logged]
      exact ih rfl rest

/-- The percentages that are logged lie above the last one, and each above the one before it. -/
theorem percentages_logs (same : tracker.counters = frame.counters tracker.step)
    (fits : amounts.sum + frame.processed ≤ Word.top) :
    (∀ percent ∈ tracker.percentages (logs amounts), frame.percent tracker.step < percent) ∧
      (tracker.percentages (logs amounts)).Pairwise (· < ·) := by
  induction amounts generalizing tracker frame with
  | nil => exact ⟨nofun, .nil⟩
  | cons amount amounts ih =>
      have rest := rest_fits fits
      have logged : tracker.log amount = _ := log_of_counters same (by omega)
      have risen := frame.percent_le_count tracker.step amount
      have split : tracker.percentages (logs (amount :: amounts)) =
          (tracker.log amount).2.filterMap Event.percent? ++
            (tracker.log amount).1.percentages (logs amounts) := List.filterMap_append
      rw [split, logged]
      obtain ⟨above, rising⟩ : (∀ percent ∈ percentages { tracker with
          counters := (frame.count amount).counters tracker.step } (logs amounts),
            (frame.count amount).percent tracker.step < percent) ∧ _ := ih rfl rest
      have aboveAll := fun percent member => Nat.lt_of_le_of_lt risen (above percent member)
      dsimp only
      split
      · next reached =>
          exact ⟨List.forall_mem_cons.mpr ⟨reached, aboveAll⟩,
            List.pairwise_cons.mpr ⟨above, rising⟩⟩
      · exact ⟨aboveAll, rising⟩

theorem step_perform (announcement : Announcement) (tracker : Tracker) :
    (announcement.perform tracker).1.step = tracker.step := by
  cases announcement with
  | enter name => rfl
  | enterSized name volume => rfl
  | leave name =>
      simp only [Announcement.perform, Sink.leave, leave]
      split
      · split <;> rfl
      · rfl
  | log amount =>
      obtain ⟨counters, logged⟩ := perform_log amount tracker
      rw [logged]

theorem step_after (tracker : Tracker) (history : List Announcement) :
    (tracker.after history).step = tracker.step := by
  induction history generalizing tracker with
  | nil => rfl
  | cons announcement history ih => rw [after_cons, ih, step_perform]

end Tracker

/-- The percentage of a task of known volume is the largest multiple of the step up to what has been
processed, whether exactly or up to the quotient of the largest word. -/
theorem Frame.percent_eq {frame : Frame} (sized : 0 < frame.volume) (step : Nat) :
    frame.percent step = step *
      (min (exactPercent frame.processed frame.volume) (Word.top / frame.volume) / step) := by
  rw [percent, if_neg (Nat.ne_of_gt sized), Tracker.percentAt_eq]

/-- The quotient of the largest word never makes a difference to a volume if it makes none to a
complete task. -/
theorem forall_exact_iff {step volume : Nat} (pos : 0 < step) (sized : 0 < volume)
    (word : volume ≤ Word.top) :
    (∀ processed ≤ Word.top,
      min (exactPercent processed volume) (Word.top / volume) / step =
        exactPercent processed volume / step) ↔
      volume * (100 - 100 % step) ≤ Word.top := by
  rw [sub_mod_eq_mul_div, Nat.mul_comm, ← Nat.le_div_iff_mul_le sized, ← min_div_eq_div_iff pos]
  have complete : exactPercent volume volume = 100 := by
    rw [exactPercent, Nat.mul_div_cancel _ sized, Nat.min_self]
  refine ⟨fun exact => ?_, fun last processed _ => ?_⟩
  · have whole := exact volume word
    rwa [complete] at whole
  · have monotone : Monotone fun n => n / step := fun _ _ le => Nat.div_le_div_right le
    have below : exactPercent processed volume / step ≤ 100 / step :=
      monotone (Nat.min_le_left _ _)
    have limit : 100 / step ≤ Word.top / volume / step :=
      last ▸ monotone (Nat.min_le_right 100 (Word.top / volume))
    have quotient := monotone.map_min (a := exactPercent processed volume) (b := Word.top / volume)
    exact quotient.trans (min_eq_left (Nat.le_trans below limit))

namespace Tracker

variable {tracker : Tracker} {volume : Nat} {amounts : List Nat}

/-- A task that was just entered has the counters of a frame that was told nothing. -/
theorem counters_entered (tracker : Tracker) (earlier : List Announcement) (name : String)
    (volume : Nat) :
    (tracker.after (earlier ++ [.enterSized name volume])).counters = { volume } := by
  rw [after_append]
  rfl

theorem step_withStep {step : Nat} (low : 1 ≤ step) (high : step ≤ 100) (name : String) :
    (withStep name step).step = step := by
  change min (max step 1) 100 = step
  omega

/-- After amounts in a task that was just entered the tracker has the counters of their frame. -/
theorem after_logs_of_fresh (fresh : tracker.counters = { volume })
    (fits : amounts.sum ≤ Word.top) :
    tracker.after (logs amounts) =
      { tracker with counters :=
          (Frame.countAll amounts ⟨"", volume, []⟩).counters tracker.step } :=
  after_logs (fresh.trans (Frame.counters_fresh tracker.step "" volume).symm) fits

/-- The last percentage after amounts in a task that was just entered. -/
theorem percent_after_logs (sized : 0 < volume) (fresh : tracker.counters = { volume })
    (fits : amounts.sum ≤ Word.top) :
    (tracker.after (logs amounts)).counters.percent =
      tracker.step *
        (min (exactPercent amounts.sum volume) (Word.top / volume) / tracker.step) := by
  have total := Frame.processed_countAll amounts ⟨"", volume, []⟩
  rw [after_logs_of_fresh fresh fits]
  change (Frame.countAll amounts ⟨"", volume, []⟩).percent tracker.step = _
  rw [Frame.percent_eq sized, total]
  rfl

/-- Of the next amount a percentage is logged exactly if it is another one than the last. -/
theorem log_after_logs {amount : Nat} (fresh : tracker.counters = { volume })
    (fits : (amounts ++ [amount]).sum ≤ Word.top) :
    ((tracker.after (logs amounts)).log amount).2 =
      if (tracker.after (logs (amounts ++ [amount]))).counters.percent =
          (tracker.after (logs amounts)).counters.percent then []
      else [.taskReached tracker.path
        (tracker.after (logs (amounts ++ [amount]))).counters.percent] := by
  have last : tracker.after (logs (amounts ++ [amount])) =
      ((tracker.after (logs amounts)).log amount).1 := by
    rw [logs, List.map_append, after_append]
    rfl
  have total := Frame.processed_countAll amounts ⟨"", volume, []⟩
  rw [List.sum_append, List.sum_singleton] at fits
  have before : tracker.after (logs amounts) = _ := after_logs_of_fresh fresh (by omega)
  rw [last, before]
  refine events_log rfl ?_
  rw [Frame.processed_count, total, Nat.add_comm amount]
  exact fits

end Tracker

/-- In a task of known volume, whatever was announced before it was entered, the last percentage is
after every amount the largest multiple of the step up to the exact percentage or the quotient of
the largest word by the volume; it is logged when it changes and at no other time, so that the
logged percentages rise. It is the largest multiple up to the exact percentage, whatever amounts are
logged, if and only if the volume times the last multiple of the step up to a hundred fits a
word. -/
theorem logged_percentages (base name : String) {step volume : Nat} (low : 1 ≤ step)
    (high : step ≤ 100) (sized : 0 < volume) (word : volume ≤ Word.top)
    (earlier : List Announcement) :
    let task := (Tracker.withStep base step).after (earlier ++ [.enterSized name volume])
    let last := fun amounts => (task.after (logs amounts)).counters.percent
    (∀ amounts, amounts.sum ≤ Word.top →
      IsGreatest (multiples step
        (min (exactPercent amounts.sum volume) (Word.top / volume))) (last amounts) ∧
      (task.percentages (logs amounts)).Pairwise (· < ·)) ∧
    (∀ amounts amount, (amounts ++ [amount]).sum ≤ Word.top →
      ((Announcement.log amount).perform (task.after (logs amounts))).2 =
        if last (amounts ++ [amount]) = last amounts then []
        else [.taskReached task.path (last (amounts ++ [amount]))]) ∧
    ((∀ amounts, amounts.sum ≤ Word.top →
        IsGreatest (multiples step (exactPercent amounts.sum volume)) (last amounts)) ↔
      volume * (100 - 100 % step) ≤ Word.top) := by
  intro task last
  have stepped : task.step = step :=
    (Tracker.step_after _ _).trans (Tracker.step_withStep low high base)
  have fresh : task.counters = { volume } := Tracker.counters_entered _ earlier name volume
  have reached {amounts : List Nat} (fits : amounts.sum ≤ Word.top) :
      last amounts =
        step * (min (exactPercent amounts.sum volume) (Word.top / volume) / step) :=
    stepped ▸ Tracker.percent_after_logs sized fresh fits
  refine ⟨fun amounts fits => ⟨?_, ?_⟩, fun amounts amount fits => ?_, ?_⟩
  · rw [reached fits]
    exact isGreatest_multiples low _
  · exact (Tracker.percentages_logs
      (fresh.trans (Frame.counters_fresh task.step name volume).symm) fits).2
  · exact Tracker.log_after_logs fresh fits
  · rw [← forall_exact_iff low sized word]
    refine ⟨fun greatest processed fits => ?_, fun exact amounts fits => ?_⟩
    · have alone : last [processed] = _ := reached fits
      have exact := (greatest [processed] fits).unique (isGreatest_multiples low _)
      exact Nat.eq_of_mul_eq_mul_left low (alone.symm.trans exact)
    · rw [reached fits, exact _ fits]
      exact isGreatest_multiples low _

theorem logged_percentages_quarters :
    let task := (Tracker.withStep "job" 25).after [.enterSized "phase" 200]
    (1 ≤ 25 ∧ 25 ≤ 100 ∧ 0 < 200 ∧ 200 ≤ Word.top) ∧
    IsGreatest (multiples 25 (exactPercent 70 200)) 25 ∧
    (task.after (logs [10, 60])).counters.percent = 25 ∧
    task.percentages (logs [10, 60, 500]) = [25, 100] ∧ [25, 100].Pairwise (· < ·) ∧
    ((Announcement.log 500).perform (task.after (logs [10, 60]))).2 =
      [.taskReached task.path 100] := by
  obtain ⟨each, next, exact⟩ := logged_percentages "job" "phase" (by decide : 1 ≤ 25)
    (by decide) (by decide : 0 < 200) (by decide) []
  have greatest := exact.mpr (by decide) [10, 60] (by decide)
  have rising := (each [10, 60, 500] (by decide)).2
  have reached := next [10, 60] 500 (by decide)
  exact ⟨by decide, greatest, rfl, rfl, rising, reached⟩

/-- A task of half the largest volume that is complete, although no percentage has been logged. -/
theorem complete_unlogged :
    let task := (Tracker.withStep "job" 10).after [.enterSized "phase" 0x8000000000000000]
    let amounts := [0x8000000000000000]
    amounts.sum ≤ Word.top ∧ exactPercent amounts.sum 0x8000000000000000 = 100 ∧
      (task.after (logs amounts)).counters.percent = 0 ∧
      task.percentages (logs amounts) = [] ∧
      ¬ IsGreatest (multiples 10 (exactPercent amounts.sum 0x8000000000000000))
        (task.after (logs amounts)).counters.percent := by
  intro task amounts
  have complete : exactPercent amounts.sum 0x8000000000000000 = 100 := by decide
  refine ⟨by decide, complete, rfl, rfl, ?_⟩
  rw [complete]
  intro greatest
  exact absurd (greatest.2 ⟨by decide, Nat.le_refl 100⟩) (by decide)

end Progress

end GraphAnalytics
