/-
# Which measurements a tree holds

A directory at the end of a path counts as a level of the workload at the end of the path before it.
It is accepted (`Tree.Accepted`) if it is none of those that only keep comparisons and the mean time
that its estimates give is positive. The walk through a tree finds the accepted directories and no
others, at any depth (`lists_measurements`), provided that the topmost directory has no estimates:
it is no level of any workload.

What is accepted is a matter of the files at the end of paths, and no directory has two rates. So
whoever knows the measurements, in whatever order, can tell the rate of a workload at a level.
-/

import GraphAnalytics.Proofs.Report.Trees
import Mathlib.Data.Option.Basic

namespace GraphAnalytics.Report

namespace Tree

/-- The directory of a workload with the name of a level is accepted, with so many elements per
second. A run has as many elements as the benchmark has declared, or one. -/
def Accepted (tree : Tree) (workload : List String) (level : String) (rate : Float) : Prop :=
  level ∉ ["report", "new", "base"] ∧ ∃ estimates time,
    tree.text? (workload ++ [level, "estimates.json"]) = some estimates ∧
      numberAt "mean" "point_estimate" estimates = some time ∧ time > 0 ∧
      rate = ((tree.text? (workload ++ [level, "benchmark.json"])).bind
        (numberAt "throughput" "Elements")).getD 1 * 1e9 / time

variable {tree other : Tree} {workload : List String} {level : String} {rate rate' : Float}

theorem Accepted.unique (accepted : tree.Accepted workload level rate)
    (accepted' : tree.Accepted workload level rate') : rate = rate' := by
  obtain ⟨-, estimates, time, found, read, -, rfl⟩ := accepted
  obtain ⟨-, estimates', time', found', read', -, rfl⟩ := accepted'
  obtain rfl := Option.some.inj (found.symm.trans found')
  obtain rfl := Option.some.inj (read.symm.trans read')
  rfl

/-- What is accepted depends on nothing but the files. -/
theorem SameFiles.accepted_iff (same : tree.SameFiles other) :
    tree.Accepted workload level rate ↔ other.Accepted workload level rate := by
  rw [Accepted, Accepted, same, same]

theorem Accepted.isName (accepted : tree.Accepted workload level rate) (named : tree.Named) :
    ∀ name ∈ workload, IsName name := by
  obtain ⟨-, estimates, time, found, -⟩ := accepted
  rw [text?_append] at found
  obtain ⟨directory, here, -⟩ := Option.bind_eq_some_iff.mp found
  exact named.isName here

end Tree

theorem isBaseline_eq_false_iff {name : String} :
    isBaseline name = false ↔ name ∉ ["report", "new", "base"] := by
  simp [isBaseline, and_assoc]

theorem rate?_eq_some_iff {directory : Tree} {rate : Float} :
    rate? directory = some rate ↔ ∃ estimates time,
      directory.text? ["estimates.json"] = some estimates ∧
        numberAt "mean" "point_estimate" estimates = some time ∧ time > 0 ∧
        rate = ((directory.text? ["benchmark.json"]).bind
          (numberAt "throughput" "Elements")).getD 1 * 1e9 / time := by
  simp only [rate?, bind, Option.bind_eq_some_iff, guard, pure]
  constructor
  · rintro ⟨estimates, found, time, read, _, passed, same⟩
    split at passed
    · next positive => exact ⟨estimates, time, found, read, positive, (Option.some.inj same).symm⟩
    · cases passed
  · rintro ⟨estimates, time, found, read, positive, rfl⟩
    exact ⟨estimates, found, time, read, (), if_pos positive, rfl⟩

/-- A directory is accepted if its name is that of a level and it gives a rate. -/
theorem Tree.accepted_iff {tree : Tree} {workload : List String} {level : String} {rate : Float} :
    tree.Accepted workload level rate ↔ isBaseline level = false ∧
      ∃ directory, tree.find? (workload ++ [level]) = some directory ∧
        rate? directory = some rate := by
  have split (file : String) : tree.text? (workload ++ [level, file]) =
      (tree.find? (workload ++ [level])).bind (text? [file]) := by
    rw [← text?_append, List.append_assoc]
    rfl
  rw [Accepted, isBaseline_eq_false_iff, split, split]
  refine and_congr_right fun _ => ?_
  cases tree.find? (workload ++ [level]) with
  | none => simp
  | some directory => simp [rate?_eq_some_iff]

/-- A measurement comes from a directory that is not topmost, or from one without a level's name. -/
theorem measurementIn_eq_some_iff {top level : String} {trail : List String} {directory : Tree}
    {found : Measurement} :
    measurementIn top (level :: trail) directory = some found ↔ isBaseline level = false ∧
      ∃ rate, rate? directory = some rate ∧ found = ⟨pathText trail.reverse, level, rate⟩ := by
  simp only [measurementIn, bind, Option.bind_eq_some_iff, guard, pure]
  cases isBaseline level with
  | true => simp
  | false => simp [eq_comm, pathText]

theorem measurementsBelow_eq_flatMap (top : String) (trail : List String)
    (entries : List (String × Tree)) :
    measurementsBelow top trail entries =
      entries.flatMap fun entry => measurements top (entry.1 :: trail) entry.2 := by
  induction entries with
  | nil => rw [measurementsBelow, List.flatMap_nil]
  | cons entry entries ih =>
      obtain ⟨name, tree⟩ := entry
      rw [measurementsBelow, ih, List.flatMap_cons]

/-- The walk finds the measurements in all directories to which a path leads. -/
theorem mem_measurements_iff {top : String} {trail : List String} {tree : Tree}
    (named : tree.Named) {found : Measurement} :
    found ∈ measurements top trail tree ↔ ∃ path directory, tree.find? path = some directory ∧
      measurementIn top (path.reverse ++ trail) directory = some found := by
  have nothing (trail : List String) (text : String) :
      measurementIn top trail (.file text) = none := by
    cases trail <;> simp [measurementIn, rate?, Tree.text?, Tree.find?, Tree.child?]
  induction named generalizing trail with
  | file text =>
      rw [measurements]
      refine iff_of_false List.not_mem_nil ?_
      rintro ⟨_ | ⟨name, path⟩, directory, here, some⟩
      · obtain rfl := Option.some.inj here
        rw [nothing] at some
        cases some
      · cases here
  | @directory entries distinct names below ih =>
      rw [measurements, List.mem_append, Option.mem_toList, measurementsBelow_eq_flatMap,
        List.mem_flatMap]
      constructor
      · rintro (here | ⟨⟨name, tree⟩, member, further⟩)
        · exact ⟨[], _, rfl, here⟩
        · obtain ⟨path, directory, there, some⟩ := (ih _ member).mp further
          refine ⟨name :: path, directory, ?_, ?_⟩
          · rw [Tree.find?, (Tree.child?_eq_some_iff distinct).mpr member]
            exact there
          · rwa [List.reverse_cons, List.append_assoc]
      · rintro ⟨_ | ⟨name, path⟩, directory, there, some⟩
        · obtain rfl := Option.some.inj there
          exact .inl some
        · obtain ⟨tree, here, there⟩ := Option.bind_eq_some_iff.mp there
          have member := (Tree.child?_eq_some_iff distinct).mp here
          refine .inr ⟨(name, tree), member, (ih _ member).mpr ⟨path, directory, there, ?_⟩⟩
          rwa [List.reverse_cons, List.append_assoc] at some

/-- The measurements are those of the accepted directories of a tree, in some order. -/
def Lists (tree : Tree) (found : List Measurement) : Prop :=
  ∀ measurement, measurement ∈ found ↔ ∃ workload,
    tree.Accepted workload measurement.level measurement.rate ∧
      measurement.workload = pathText workload

theorem lists_measurements (top : String) {tree : Tree} (named : tree.Named)
    (bare : tree.text? ["estimates.json"] = none) : Lists tree (measurements top [] tree) := by
  intro found
  have noRate : rate? tree = none := by
    simp [rate?, bare]
  rw [mem_measurements_iff named]
  constructor
  · rintro ⟨path, directory, here, some⟩
    rw [List.append_nil] at some
    rcases path.eq_nil_or_concat with rfl | ⟨workload, level, rfl⟩
    · obtain rfl := Option.some.inj here
      simp [measurementIn, noRate] at some
    · rw [List.concat_eq_append] at here some
      rw [List.reverse_append, List.reverse_singleton, List.singleton_append,
        measurementIn_eq_some_iff] at some
      obtain ⟨ordinary, rate, measured, rfl⟩ := some
      rw [List.reverse_reverse]
      exact ⟨workload, Tree.accepted_iff.mpr ⟨ordinary, directory, here, measured⟩, rfl⟩
  · rintro ⟨workload, accepted, same⟩
    obtain ⟨ordinary, directory, here, measured⟩ := Tree.accepted_iff.mp accepted
    refine ⟨workload ++ [found.level], directory, here, ?_⟩
    rw [List.append_nil, List.reverse_append, List.reverse_singleton, List.singleton_append,
      measurementIn_eq_some_iff, List.reverse_reverse]
    refine ⟨ordinary, found.rate, measured, ?_⟩
    rw [← same]

namespace Lists

variable {tree : Tree} {found found' : List Measurement}

theorem perm (lists : Lists tree found) (perm : found'.Perm found) : Lists tree found' :=
  fun measurement => perm.mem_iff.trans (lists measurement)

/-- The rate of a workload at a level is known if its directory was accepted, and not otherwise. -/
theorem rateAt_eq_some_iff (lists : Lists tree found) (named : tree.Named) {workload : List String}
    (names : ∀ name ∈ workload, IsName name) {level : Nat} {rate : Float} :
    rateAt found (pathText workload) level = some rate ↔
      tree.Accepted workload (levelName level) rate := by
  -- A measurement that is met first is one of this workload and level, so it is the one accepted.
  have known {measurement : Measurement} (first : (found.reverse.find? fun m =>
      m.workload = pathText workload ∧ m.level = levelName level) = some measurement) :
      tree.Accepted workload (levelName level) measurement.rate := by
    have member := List.mem_reverse.mp (List.mem_of_find?_eq_some first)
    obtain ⟨own, there⟩ : measurement.workload = pathText workload ∧
        measurement.level = levelName level := by simpa using List.find?_some first
    obtain ⟨path, accepted, same⟩ := (lists measurement).mp member
    obtain rfl := pathText_injective names (accepted.isName named) (own.symm.trans same)
    exact there ▸ accepted
  rw [rateAt, Option.map_eq_some_iff]
  constructor
  · rintro ⟨measurement, first, rfl⟩
    exact known first
  · intro accepted
    have listed : (⟨pathText workload, levelName level, rate⟩ : Measurement) ∈ found.reverse :=
      List.mem_reverse.mpr ((lists _).mpr ⟨workload, accepted, rfl⟩)
    have some : (found.reverse.find? fun m =>
        m.workload = pathText workload ∧ m.level = levelName level).isSome :=
      List.find?_isSome.mpr ⟨_, listed, by simp⟩
    obtain ⟨measurement, first⟩ := Option.isSome_iff_exists.mp some
    exact ⟨measurement, first, (known first).unique accepted⟩

end Lists

end GraphAnalytics.Report
