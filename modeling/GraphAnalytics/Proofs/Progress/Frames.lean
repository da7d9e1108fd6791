/-
# A tracker is a stack of frames

The tracker keeps the counters of the innermost task and, with every open task, those of the task
around it. Seen from outside there is one frame for every open task, over a frame of the tracker's
own, and each frame has its own volume and the amounts that were logged while it was the innermost.
How much a frame has processed and the last percentage it logged follow from these alone.

`Frames.toTracker` is the tracker that keeps the counters of given frames. Whatever is announced,
one announcement after the other, the tracker is that of its frames and logs what they log, as long
as what a frame was told fits a word (`frames_after`). A block that closes all that it opens leaves
the tracker as it was, whether its amounts fit or not.
-/

import GraphAnalytics.Progress.Tracker
import Mathlib.Algebra.GroupWithZero.Nat
import Mathlib.Data.List.Infix

namespace GraphAnalytics.Progress

/-- Something that is announced to a tracker: a task of unknown or of known volume is entered, a
task is left, or more elements were processed. -/
inductive Announcement where
  | enter (name : String)
  | enterSized (name : String) (volume : Nat)
  | leave (name : String)
  | log (amount : Nat)
  deriving DecidableEq

/-- What the tracker makes of an announcement, and what it logs then. -/
def Announcement.perform : Announcement → Tracker → Tracker × List Event
  | .enter name => Sink.enter name
  | .enterSized name volume => Sink.enterSized name volume
  | .leave name => Sink.leave name
  | .log amount => Sink.log amount

/-- The name and the volume of the task that an announcement opens. -/
def Announcement.opened? : Announcement → Option (String × Nat)
  | .enter name => some (name, 0)
  | .enterSized name volume => some (name, volume)
  | _ => none

def Tracker.after (tracker : Tracker) (history : List Announcement) : Tracker :=
  history.foldl (fun tracker announcement => (announcement.perform tracker).1) tracker

/-! ### Frames -/

/-- A task as it is seen from outside, with the amounts that were logged while it was the innermost,
last first. Its volume is zero if that is not known. -/
structure Frame where
  name : String
  volume : Nat := 0
  amounts : List Nat := []
  deriving DecidableEq

namespace Frame

def processed (frame : Frame) : Nat := frame.amounts.sum

def percent (step : Nat) (frame : Frame) : Nat :=
  if frame.volume = 0 then 0 else Tracker.percentAt step frame.processed frame.volume

def counters (step : Nat) (frame : Frame) : Counters :=
  ⟨frame.volume, frame.processed, frame.percent step⟩

def count (amount : Nat) (frame : Frame) : Frame :=
  { frame with amounts := amount :: frame.amounts }

end Frame

/-- The frames of a tracker: its own, and those of the open tasks, innermost first. -/
structure Frames where
  base : Frame
  opened : List Frame := []
  deriving DecidableEq

namespace Frames

def innermostOf (base : Frame) : List Frame → Frame
  | [] => base
  | frame :: _ => frame

def innermost (frames : Frames) : Frame := innermostOf frames.base frames.opened

def path (frames : Frames) : String :=
  frames.opened.foldr (fun frame path => path ++ " :: " ++ frame.name) frames.base.name

/-- What an announcement does to the frames. Entering a task puts a fresh frame on top, only the
frame on top is told of amounts, and only the task on top can be left. -/
def perform : Announcement → Frames → Frames
  | .enter name, ⟨base, opened⟩ => ⟨base, ⟨name, 0, []⟩ :: opened⟩
  | .enterSized name volume, ⟨base, opened⟩ => ⟨base, ⟨name, volume, []⟩ :: opened⟩
  | .leave name, ⟨base, frame :: opened⟩ =>
      if frame.name = name then ⟨base, opened⟩ else ⟨base, frame :: opened⟩
  | .leave _, ⟨base, []⟩ => ⟨base, []⟩
  | .log amount, ⟨base, frame :: opened⟩ => ⟨base, frame.count amount :: opened⟩
  | .log amount, ⟨base, []⟩ => ⟨base.count amount, []⟩

/-- The frames after a list of announcements. -/
def after (frames : Frames) (history : List Announcement) : Frames :=
  history.foldl (fun frames announcement => frames.perform announcement) frames

def logs (step : Nat) (frames : Frames) : Announcement → List Event
  | .enter name => [.taskStarted (frames.path ++ " :: " ++ name) 0]
  | .enterSized name volume => [.taskStarted (frames.path ++ " :: " ++ name) volume]
  | .leave name =>
      let unbalanced := if frames.opened.head?.map Frame.name = some name then []
        else [Event.unbalancedEnd frames.path name]
      unbalanced ++ [.taskFinished frames.path frames.innermost.processed]
  | .log amount =>
      let reached := (frames.innermost.count amount).percent step
      if frames.innermost.percent step < reached then [.taskReached frames.path reached] else []

/-- What any frame is told while it is the innermost fits a word. -/
def Modest (frames : Frames) (history : List Announcement) : Prop :=
  ∀ earlier, earlier <+: history → (frames.after earlier).innermost.processed ≤ Word.top

def tasksOf (step : Nat) (base : Frame) : List Frame → List OpenTask
  | [] => []
  | frame :: opened =>
      ⟨frame.name, (innermostOf base opened).counters step⟩ :: tasksOf step base opened

/-- The tracker that keeps the counters of the frames. -/
def toTracker (step : Nat) (frames : Frames) : Tracker where
  name := frames.base.name
  step
  tasks := tasksOf step frames.base frames.opened
  counters := frames.innermost.counters step

end Frames

/-! ### Percentages -/

/-- Who has processed more has reached the same percentage or a higher one. -/
theorem Tracker.percentAt_mono (step volume : Nat) {processed more : Nat} (le : processed ≤ more) :
    percentAt step processed volume ≤ percentAt step more volume := by
  have multiple (percent : Nat) : percent - percent % step = step * (percent / step) := by
    have whole := Nat.div_add_mod percent step
    omega
  have raised : min (Word.satMul processed 100 / volume) 100 ≤
      min (Word.satMul more 100 / volume) 100 := by
    have quotients := Nat.div_le_div_right (c := volume)
      (Word.satMul_mono le (Nat.le_refl 100))
    omega
  unfold percentAt
  simp only [multiple]
  exact Nat.mul_le_mul_left step (Nat.div_le_div_right raised)

theorem Frame.percent_le_count (step amount : Nat) (frame : Frame) :
    frame.percent step ≤ (frame.count amount).percent step := by
  have more : frame.processed ≤ (frame.count amount).processed := by
    simp only [processed, count, List.sum_cons]
    omega
  unfold percent
  split
  · exact Nat.zero_le _
  · next sized =>
      rw [if_neg (show (frame.count amount).volume ≠ 0 from sized)]
      exact Tracker.percentAt_mono step _ more

/-- A frame that was told nothing has the counters of a task that was just entered. -/
theorem Frame.counters_fresh (step : Nat) (name : String) (volume : Nat) :
    counters step ⟨name, volume, []⟩ = { volume } := by
  have none : Tracker.percentAt step 0 volume = 0 := by
    simp [Tracker.percentAt, Word.satMul, Word.clip]
  simp [counters, percent, processed, none]

/-- An amount that fits is counted for the task whose counters the tracker has, and the percentage
is logged if it has risen. -/
theorem Tracker.log_of_counters {tracker : Tracker} {frame : Frame} {amount : Nat}
    (same : tracker.counters = frame.counters tracker.step)
    (fits : (frame.count amount).processed ≤ Word.top) :
    tracker.log amount =
      ({ tracker with counters := (frame.count amount).counters tracker.step },
        if frame.percent tracker.step < (frame.count amount).percent tracker.step then
          [.taskReached tracker.path ((frame.count amount).percent tracker.step)]
        else []) := by
  obtain ⟨name, step, tasks, counters⟩ := tracker
  dsimp only at same ⊢
  subst same
  have total : Word.wrap (frame.processed + amount) = (frame.count amount).processed := by
    have sum : (frame.count amount).processed = frame.processed + amount := by
      simp only [Frame.processed, Frame.count, List.sum_cons, Nat.add_comm]
    rw [← sum]
    exact Nat.mod_eq_of_lt (Nat.lt_succ_of_le fits)
  have risen := frame.percent_le_count step amount
  simp only [Tracker.log, Frame.counters, total]
  split
  · next unsized =>
      have silent : (frame.count amount).volume = 0 := unsized
      simp [Frame.percent, silent, unsized]
  · next sized =>
      have reached : Tracker.percentAt step (frame.count amount).processed frame.volume =
          (frame.count amount).percent step := (if_neg sized).symm
      rw [reached]
      split
      · rfl
      · next unchanged =>
          have same : frame.percent step = (frame.count amount).percent step := by omega
          rw [same]
          rfl

/-! ### The tracker of given frames -/

namespace Frames

variable (step : Nat) {frames : Frames}

theorem path_toTracker (frames : Frames) : (frames.toTracker step).path = frames.path := by
  obtain ⟨base, opened⟩ := frames
  unfold Tracker.path path toTracker
  dsimp only
  induction opened with
  | nil => rfl
  | cons frame opened ih => rw [tasksOf, List.foldr_cons, List.foldr_cons, ih]

theorem enterSized_toTracker (name : String) (volume : Nat) (frames : Frames) :
    (frames.toTracker step).enterSized name volume =
      ((frames.perform (.enterSized name volume)).toTracker step,
        frames.logs step (.enterSized name volume)) := by
  have opened : ({ frames.toTracker step with
      tasks := ⟨name, (frames.toTracker step).counters⟩ :: (frames.toTracker step).tasks
      counters := { volume } } : Tracker) =
        (frames.perform (.enterSized name volume)).toTracker step := by
    rw [← Frame.counters_fresh step name volume]
    rfl
  have longer : (frames.perform (.enterSized name volume)).path =
      frames.path ++ " :: " ++ name := rfl
  unfold Tracker.enterSized
  simp only [opened, path_toTracker, longer, logs]

/-- Leaving the task on top brings back the counters of the frame below it. -/
theorem leave_toTracker (name : String) (frames : Frames) :
    (frames.toTracker step).leave name =
      ((frames.perform (.leave name)).toTracker step, frames.logs step (.leave name)) := by
  have told := path_toTracker step frames
  obtain ⟨base, opened⟩ := frames
  unfold Tracker.leave
  rw [told]
  cases opened with
  | nil => rfl
  | cons frame opened =>
      simp only [toTracker, tasksOf, perform, logs, List.head?_cons, Option.map_some,
        Option.some.injEq]
      split <;> rfl

theorem log_toTracker {amount : Nat} (frames : Frames)
    (fits : (frames.perform (.log amount)).innermost.processed ≤ Word.top) :
    (frames.toTracker step).log amount =
      ((frames.perform (.log amount)).toTracker step, frames.logs step (.log amount)) := by
  have counted : (frames.perform (.log amount)).innermost = frames.innermost.count amount := by
    obtain ⟨base, _ | ⟨frame, opened⟩⟩ := frames <;> rfl
  have kept : (frames.perform (.log amount)).toTracker step =
      { frames.toTracker step with counters := (frames.innermost.count amount).counters step } := by
    rw [← counted]
    obtain ⟨base, _ | ⟨frame, opened⟩⟩ := frames <;> rfl
  rw [counted] at fits
  rw [Tracker.log_of_counters rfl fits, kept, path_toTracker]
  rfl

/-- Whatever is announced, the tracker of the frames does what the frames do. -/
theorem perform_toTracker (announcement : Announcement) (frames : Frames)
    (fits : (frames.perform announcement).innermost.processed ≤ Word.top) :
    announcement.perform (frames.toTracker step) =
      ((frames.perform announcement).toTracker step, frames.logs step announcement) := by
  cases announcement with
  | enter name => exact enterSized_toTracker step name 0 frames
  | enterSized name volume => exact enterSized_toTracker step name volume frames
  | leave name => exact leave_toTracker step name frames
  | log amount => exact log_toTracker step frames fits

theorem Modest.rest {announcement : Announcement} {history : List Announcement}
    (modest : frames.Modest (announcement :: history)) :
    (frames.perform announcement).Modest history :=
  fun earlier before => modest (announcement :: earlier) (List.cons_prefix_cons.mpr ⟨rfl, before⟩)

theorem after_toTracker {history : List Announcement} (modest : frames.Modest history) :
    (frames.toTracker step).after history = (frames.after history).toTracker step := by
  induction history generalizing frames with
  | nil => rfl
  | cons announcement history ih =>
      have fits : (frames.perform announcement).innermost.processed ≤ Word.top :=
        modest [announcement] (List.cons_prefix_cons.mpr ⟨rfl, List.nil_prefix⟩)
      have first := perform_toTracker step announcement frames fits
      rw [Tracker.after, List.foldl_cons, first]
      exact ih modest.rest

end Frames

/-! ### Balanced blocks -/

/-- Announcements within an open task called `name` that do not close it. Tasks that they open they
also close, and ends of other tasks, which are out of place, may stand anywhere. -/
inductive Within : (name : String) → List Announcement → Prop
  | nil {name : String} : Within name []
  | log {name : String} {history : List Announcement} (amount : Nat) (rest : Within name history) :
      Within name (.log amount :: history)
  | stray {name other : String} {history : List Announcement} (differs : other ≠ name)
      (rest : Within name history) : Within name (.leave other :: history)
  | block {name inner : String} {volume : Nat} {first : Announcement}
      {body history : List Announcement} (opens : first.opened? = some (inner, volume))
      (within : Within inner body) (rest : Within name history) :
      Within name (first :: (body ++ .leave inner :: history))

/-- Announcements that close all tasks that they open, and log amounts within these only. -/
inductive Balanced : List Announcement → Prop
  | nil : Balanced []
  | block {name : String} {volume : Nat} {first : Announcement} {body history : List Announcement}
      (opens : first.opened? = some (name, volume)) (within : Within name body)
      (rest : Balanced history) : Balanced (first :: (body ++ .leave name :: history))

namespace Tracker

theorem after_cons (tracker : Tracker) (announcement : Announcement)
    (history : List Announcement) :
    tracker.after (announcement :: history) = (announcement.perform tracker).1.after history := rfl

theorem after_append (tracker : Tracker) (earlier later : List Announcement) :
    tracker.after (earlier ++ later) = (tracker.after earlier).after later :=
  List.foldl_append

theorem perform_of_opened {first : Announcement} {name : String} {volume : Nat}
    (opens : first.opened? = some (name, volume)) (tracker : Tracker) :
    (first.perform tracker).1 = { tracker with
      tasks := ⟨name, tracker.counters⟩ :: tracker.tasks, counters := { volume } } := by
  cases first with
  | leave | log => cases opens
  | enter | enterSized =>
      obtain ⟨rfl, rfl⟩ := Prod.mk.inj (Option.some.inj opens)
      rfl

theorem perform_log (amount : Nat) (tracker : Tracker) :
    ∃ counters, ((Announcement.log amount).perform tracker).1 = { tracker with counters } := by
  obtain ⟨name, step, tasks, ⟨volume, processed, percent⟩⟩ := tracker
  simp only [Announcement.perform, Sink.log, log]
  split
  · exact ⟨_, rfl⟩
  · split <;> exact ⟨_, rfl⟩

theorem perform_leave_of_ne {name other : String} (differs : other ≠ name) {tracker : Tracker}
    {outer : Counters} {tasks : List OpenTask} (opened : tracker.tasks = ⟨name, outer⟩ :: tasks) :
    ((Announcement.leave other).perform tracker).1 = tracker := by
  simp only [Announcement.perform, Sink.leave, leave, opened]
  rw [if_neg (Ne.symm differs)]

theorem perform_leave {name : String} {tracker : Tracker} {outer : Counters}
    {tasks : List OpenTask} (opened : tracker.tasks = ⟨name, outer⟩ :: tasks) :
    ((Announcement.leave name).perform tracker).1 =
      { tracker with tasks, counters := outer } := by
  simp only [Announcement.perform, Sink.leave, leave, opened, if_true]

/-- What is announced within a task changes the counters of that task at most. -/
theorem after_within {name : String} {history : List Announcement} (within : Within name history)
    {tracker : Tracker} {outer : Counters} {tasks : List OpenTask}
    (opened : tracker.tasks = ⟨name, outer⟩ :: tasks) :
    ∃ counters, tracker.after history = { tracker with counters } := by
  induction within generalizing tracker outer tasks with
  | nil => exact ⟨_, rfl⟩
  | log amount rest ih =>
      obtain ⟨counters, logged⟩ := perform_log amount tracker
      rw [after_cons, logged]
      exact ih opened
  | stray differs rest ih =>
      rw [after_cons, perform_leave_of_ne differs opened]
      exact ih opened
  | @block name inner volume first body history opens within rest ihWithin ihRest =>
      have entered := congrArg Tracker.tasks (perform_of_opened opens tracker)
      obtain ⟨counters, inside⟩ := ihWithin entered
      rw [after_cons, after_append, inside, after_cons, perform_of_opened opens,
        perform_leave rfl]
      exact ihRest opened

/-- A balanced block leaves the tracker as it was. -/
theorem after_balanced {history : List Announcement} (balanced : Balanced history)
    (tracker : Tracker) : tracker.after history = tracker := by
  induction balanced with
  | nil => rfl
  | @block name volume first body history opens within rest ih =>
      have entered := congrArg Tracker.tasks (perform_of_opened opens tracker)
      obtain ⟨counters, inside⟩ := after_within within entered
      rw [after_cons, after_append, inside, after_cons, perform_of_opened opens,
        perform_leave rfl]
      exact ih

end Tracker

/-- After any announcements whose amounts fit the frames they are told to, a tracker is that of its
frames, shows their path, and logs of the next announcement what the frames log. A balanced block
leaves every tracker as it was. -/
theorem frames_after (name : String) (step : Nat) :
    (∀ history, Frames.Modest ⟨{ name }, []⟩ history →
      let frames := Frames.after ⟨{ name }, []⟩ history
      let tracker := (Tracker.withStep name step).after history
      tracker = frames.toTracker (min (max step 1) 100) ∧ tracker.path = frames.path ∧
        ∀ next : Announcement, (frames.perform next).innermost.processed ≤ Word.top →
          (next.perform tracker).2 = frames.logs (min (max step 1) 100) next) ∧
    ∀ block, Balanced block → ∀ tracker : Tracker, tracker.after block = tracker := by
  have new : Tracker.withStep name step =
      Frames.toTracker (min (max step 1) 100) ⟨{ name }, []⟩ := by
    simp only [Frames.toTracker, Frames.innermost, Frames.innermostOf, Frame.counters_fresh]
    rfl
  refine ⟨fun history modest => ?_, fun block balanced => Tracker.after_balanced balanced⟩
  have shown := Frames.after_toTracker (min (max step 1) 100) modest
  rw [← new] at shown
  refine ⟨shown, ?_, fun next fits => ?_⟩
  · rw [shown, Frames.path_toTracker]
  · rw [shown, Frames.perform_toTracker _ next _ fits]

/-- A task within another, and the end of the outer one in its place. The outer task goes on from
its own counters when the inner one is over. -/
def nested : List Announcement :=
  [.enterSized "outer" 100, .log 30, .enterSized "inner" 10, .log 10, .leave "outer",
    .leave "inner", .log 20]

theorem balanced_inner : Balanced [.enterSized "inner" 10, .log 10, .leave "outer",
    .leave "inner"] := by
  have within : Within "inner" [.log 10, .leave "outer"] := .log 10 (.stray (by decide) .nil)
  exact .block rfl within .nil

theorem frames_after_nested :
    Frames.Modest ⟨{ name := "job" }, []⟩ nested ∧
    (Tracker.withStep "job" 10).after nested =
      ⟨"job", 10, [⟨"outer", ⟨0, 0, 0⟩⟩], ⟨100, 50, 50⟩⟩ ∧
    Balanced [.enterSized "inner" 10, .log 10, .leave "outer", .leave "inner"] ∧
    (Tracker.withStep "job" 10).after [.enterSized "inner" 10, .log 10, .leave "outer",
      .leave "inner"] = Tracker.withStep "job" 10 := by
  have modest : Frames.Modest ⟨{ name := "job" }, []⟩ nested := by
    have each : ∀ earlier ∈ nested.inits,
        (Frames.after ⟨{ name := "job" }, []⟩ earlier).innermost.processed ≤ Word.top := by decide
    exact fun earlier before => each earlier ((List.mem_inits _ _).mpr before)
  obtain ⟨shown, balance⟩ := frames_after "job" 10
  refine ⟨modest, ?_, balanced_inner, balance _ balanced_inner _⟩
  rw [(shown nested modest).1]
  decide

end GraphAnalytics.Progress
