/-
# What the report shows

The report is a page with one row per workload for which anything was accepted (`Tabulates`), in the
order of the bytes of their paths, and with one group of cells per level in every row: the rate and
how it compares with the rate at the first level, or that there is none. This leaves nothing open,
so two pages that show the same files are equal, whatever the order in which directories list their
entries and the walk meets them.

A line of the page has its cells between bars. Neither a rate nor a ratio is written with a bar, so
a row has as many cells as the line of headings, unless a directory has a bar in its name.
-/

import GraphAnalytics.Proofs.Report.Measured
import GraphAnalytics.Proofs.Text.ByteOrder
import Mathlib.Data.List.Forall2
import Mathlib.Tactic.Choose

namespace GraphAnalytics.Report

/-! ### Ascending lists -/

section Ascending

variable {α : Type} [DecidableEq α]

theorem mem_eraseReps_loop {x a : α} {as acc : List α} :
    x ∈ List.eraseRepsBy.loop (· == ·) a as acc ↔ x ∈ acc ∨ x = a ∨ x ∈ as := by
  induction as generalizing a acc with
  | nil => simp [List.eraseRepsBy.loop, or_comm]
  | cons b as ih =>
      rw [List.eraseRepsBy.loop]
      split
      · next same =>
          obtain rfl := eq_of_beq same
          rw [ih, List.mem_cons]
          tauto
      · rw [ih, List.mem_cons, List.mem_cons]
        tauto

theorem mem_eraseReps {x : α} {xs : List α} : x ∈ xs.eraseReps ↔ x ∈ xs := by
  cases xs with
  | nil => rfl
  | cons a as =>
      rw [List.mem_cons]
      exact mem_eraseReps_loop.trans (by simp)

variable [LE α] [LT α] [Std.IsLinearOrder α] [Std.LawfulOrderLT α]

theorem pairwise_eraseReps_loop {a : α} {as acc : List α} (sorted : (a :: as).Pairwise (· ≤ ·))
    (done : (a :: acc).Pairwise (· > ·)) :
    (List.eraseRepsBy.loop (· == ·) a as acc).Pairwise (· < ·) := by
  induction as generalizing a acc with
  | nil =>
      rw [List.eraseRepsBy.loop]
      exact List.pairwise_reverse.mpr done
  | cons b as ih =>
      obtain ⟨least, rest⟩ := List.pairwise_cons.mp sorted
      rw [List.eraseRepsBy.loop]
      split
      · next same =>
          obtain rfl := eq_of_beq same
          exact ih rest done
      · next differs =>
          have less : a < b :=
            Std.lt_of_le_of_ne (least b List.mem_cons_self) (by simpa using differs)
          refine ih rest (List.pairwise_cons.mpr ⟨fun x member => ?_, done⟩)
          rcases List.mem_cons.mp member with rfl | earlier
          · exact less
          · exact Std.lt_trans ((List.pairwise_cons.mp done).1 x earlier) less

/-- A list in order ascends strictly once it has lost its repetitions. -/
theorem pairwise_lt_eraseReps {xs : List α} (sorted : xs.Pairwise (· ≤ ·)) :
    xs.eraseReps.Pairwise (· < ·) := by
  cases xs with
  | nil => exact .nil
  | cons a as => exact pairwise_eraseReps_loop sorted (List.pairwise_singleton _ _)

end Ascending

theorem mem_workloads_iff {found : List Measurement} {workload : String} :
    workload ∈ workloads found ↔ ∃ measurement ∈ found, measurement.workload = workload := by
  rw [workloads, mem_eraseReps, List.mem_mergeSort, List.mem_map]

theorem pairwise_workloads (found : List Measurement) :
    (workloads found).Pairwise fun first second => bytes first < bytes second := by
  refine (pairwise_lt_eraseReps ?_).imp bytes_lt_of_lt
  refine (List.pairwise_mergeSort (fun a b c => ?_) (fun a b => ?_) _).imp of_decide_eq_true
  · simpa using String.le_trans
  · simpa using String.le_total a b

/-! ### Cells between bars -/

/-- The bars in a text. -/
def bars (text : String) : Nat := text.toList.count '|'

theorem bars_append (text more : String) : bars (text ++ more) = bars text + bars more := by
  rw [bars, String.toList_append, List.count_append]
  rfl

theorem bars_join {α : Type} {cells : α → String} {each : Nat}
    (same : ∀ item, bars (cells item) = each) (items : List α) :
    bars (String.join (items.map cells)) = items.length * each := by
  induction items with
  | nil => simp [bars]
  | cons item items ih =>
      rw [List.map_cons, String.join_cons, bars_append, same, ih, List.length_cons, Nat.succ_mul,
        Nat.add_comm]

theorem not_mem_toDigits (n : Nat) : '|' ∉ Nat.toDigits 10 n := fun member =>
  absurd (Nat.isDigit_of_mem_toDigits (by decide) (by decide) member) (by decide)

@[simp] theorem bars_toString (n : Nat) : bars (toString n) = 0 := by
  rw [bars, Nat.toString_eq_repr, Nat.toList_repr]
  exact List.count_eq_zero.mpr (not_mem_toDigits n)

theorem bars_unitsText (places units : Nat) : bars (Decimal.unitsText places units) = 0 := by
  have digits {c : Char} (member : c ∈ List.replicate (places + 1 - (Nat.toDigits 10 units).length)
      '0' ++ Nat.toDigits 10 units) : c ≠ '|' := by
    rintro rfl
    rcases List.mem_append.mp member with zero | digit
    · exact absurd (List.eq_of_mem_replicate zero) (by decide)
    · exact not_mem_toDigits units digit
  refine List.count_eq_zero.mpr fun member => ?_
  simp only [Decimal.unitsText] at member
  split at member <;> rw [String.toList_ofList] at member
  · exact digits (List.mem_of_mem_take member) rfl
  · rcases List.mem_append.mp member with whole | member
    · exact digits (List.mem_of_mem_take whole) rfl
    · rcases List.mem_cons.mp member with point | rest
      · exact absurd point (by decide)
      · exact digits (List.mem_of_mem_drop rest) rfl

@[simp] theorem bars_fixed (places : Nat) (x : Float) : bars (Decimal.fixed places x) = 0 := by
  have sign (negative : Prop) [Decidable negative] : bars (if negative then "" else "-") = 0 := by
    split <;> rfl
  simp only [Decimal.fixed]
  split
  · rfl
  · split
    · rw [bars_append, sign]
      rfl
    · rw [bars_append, sign, bars_unitsText]

@[simp] theorem bars_rateText (rate : Float) : bars (rateText rate) = 0 := by
  rw [rateText]
  split
  · rw [bars_append, bars_fixed]
    rfl
  · split
    · rw [bars_append, bars_fixed]
      rfl
    · exact bars_fixed 0 rate

/-! ### Rows -/

/-- A row of the table: a workload and, for every level, the rate and how it compares. -/
structure Row where
  workload : List String
  groups : List (Option (Float × Float))

def groupText : Option (Float × Float) → String
  | some (rate, ratio) => s!" {rateText rate} | **{Decimal.fixed 2 ratio}x** |"
  | none => " N/A | - |"

def Row.text (row : Row) : String :=
  s!"| {pathText row.workload} |" ++ String.join (row.groups.map groupText) ++ "\n"

def page (levels : List Nat) (rows : List Row) : String :=
  "# Substrate Scaling Report\n\n" ++ header levels ++ rule levels ++
    String.join (rows.map Row.text)

theorem bars_groupText (group : Option (Float × Float)) : bars (groupText group) = 2 := by
  cases group with
  | none => rfl
  | some group =>
      simp only [groupText, bars_append, toString, bars_rateText, bars_fixed]
      rfl

theorem bars_header (levels : List Nat) : bars (header levels) = 2 + levels.length * 2 := by
  have each (level : Nat) : bars s!" c={level} (ops/s) | vs c={levels.headD 0} |" = 2 := by
    simp only [bars_append, bars_toString]
    rfl
  rw [header, bars_append, bars_append, bars_join each]
  rfl

/-- The line below the headings has as many cells as they have. -/
theorem bars_rule (levels : List Nat) : bars (rule levels) = bars (header levels) := by
  have each (_ : Nat) : bars "---|---|" = 2 := rfl
  rw [bars_header, rule, bars_append, bars_append, bars_join each]
  rfl

/-- A row has as many cells as the headings if there is a group for every level. Bars in the name of
the workload come on top. -/
theorem Row.bars_text {row : Row} {levels : List Nat} (width : row.groups.length = levels.length) :
    bars row.text = bars (header levels) + bars (pathText row.workload) := by
  have marks : bars "| " = 1 ∧ bars " |" = 1 ∧ bars "\n" = 0 := ⟨rfl, rfl, rfl⟩
  rw [bars_header, Row.text, bars_append, bars_append, bars_join bars_groupText, width]
  simp only [bars_append, toString, marks]
  omega

/-! ### What a row shows -/

namespace Tree

/-- How a rate compares with the one at the first level: their quotient, or zero if nothing was
accepted there or the rate is not positive. -/
def Compares (tree : Tree) (workload : List String) (first : Nat) (rate ratio : Float) : Prop :=
  (∃ base, tree.Accepted workload (levelName first) base ∧ base > 0 ∧ ratio = rate / base) ∨
    (∀ base, tree.Accepted workload (levelName first) base → ¬ base > 0) ∧ ratio = 0

/-- What the cells of a workload show for a level. -/
def Shows (tree : Tree) (workload : List String) (first level : Nat) :
    Option (Float × Float) → Prop
  | some (rate, ratio) =>
      tree.Accepted workload (levelName level) rate ∧ tree.Compares workload first rate ratio
  | none => ∀ rate, ¬ tree.Accepted workload (levelName level) rate

variable {tree : Tree} {workload : List String} {first level : Nat}

theorem Compares.unique {rate ratio ratio' : Float}
    (compares : tree.Compares workload first rate ratio)
    (compares' : tree.Compares workload first rate ratio') : ratio = ratio' := by
  rcases compares with ⟨base, accepted, positive, rfl⟩ | ⟨none, rfl⟩
  · rcases compares' with ⟨base', accepted', -, rfl⟩ | ⟨none, -⟩
    · rw [accepted.unique accepted']
    · exact absurd positive (none base accepted)
  · rcases compares' with ⟨base, accepted, positive, -⟩ | ⟨-, rfl⟩
    · exact absurd positive (none base accepted)
    · rfl

theorem Shows.unique {group group' : Option (Float × Float)}
    (shows : tree.Shows workload first level group)
    (shows' : tree.Shows workload first level group') : group = group' := by
  rcases group with _ | ⟨rate, ratio⟩ <;> rcases group' with _ | ⟨rate', ratio'⟩
  · rfl
  · exact absurd shows'.1 (shows rate')
  · exact absurd shows.1 (shows' rate)
  · obtain ⟨accepted, compares⟩ := shows
    obtain ⟨accepted', compares'⟩ := shows'
    obtain rfl := accepted.unique accepted'
    rw [compares.unique compares']

end Tree

/-- The rows tabulate what a tree holds. A workload has a row if a directory of it was accepted, at
whatever level, and the row shows what was accepted at each level. Rows stand in the order of the
bytes of their workloads, so no workload has two. -/
structure Tabulates (tree : Tree) (levels : List Nat) (rows : List Row) : Prop where
  mem_iff : ∀ workload, (∃ row ∈ rows, row.workload = workload) ↔
    ∃ level rate, tree.Accepted workload level rate
  ascending : rows.Pairwise fun row later =>
    bytes (pathText row.workload) < bytes (pathText later.workload)
  groups : ∀ row ∈ rows,
    List.Forall₂ (tree.Shows row.workload (levels.headD 0)) levels row.groups

namespace Tabulates

variable {tree other : Tree} {levels : List Nat} {rows rows' : List Row}

theorem of_sameFiles (tabulates : Tabulates other levels rows) (same : tree.SameFiles other) :
    Tabulates tree levels rows := by
  have shows : tree.Shows = other.Shows := by
    funext workload first level group
    rcases group with _ | ⟨rate, ratio⟩ <;>
      simp only [Tree.Shows, Tree.Compares, same.accepted_iff]
  constructor
  case mem_iff =>
    intro workload
    simp only [tabulates.mem_iff, same.accepted_iff]
  case ascending => exact tabulates.ascending
  case groups => exact shows ▸ tabulates.groups

theorem groups_unique (groups : ∀ row ∈ rows,
      List.Forall₂ (tree.Shows row.workload (levels.headD 0)) levels row.groups)
    (groups' : ∀ row ∈ rows',
      List.Forall₂ (tree.Shows row.workload (levels.headD 0)) levels row.groups)
    (same : rows.map Row.workload = rows'.map Row.workload) : rows = rows' := by
  induction rows generalizing rows' with
  | nil => exact (List.map_eq_nil_iff.mp same.symm).symm
  | cons row rows ih =>
      obtain ⟨⟨workload, cells⟩, rest, rfl, rfl, others⟩ := List.map_eq_cons_iff.mp same.symm
      obtain ⟨first, further⟩ := List.forall_mem_cons.mp groups
      obtain ⟨first', further'⟩ := List.forall_mem_cons.mp groups'
      have single : Relator.RightUnique (tree.Shows row.workload (levels.headD 0)) :=
        fun _ _ _ shows shows' => shows.unique shows'
      have equal : row.groups = cells := List.right_unique_forall₂' single first first'
      rw [ih further further' others.symm, ← equal]

theorem unique (tabulates : Tabulates tree levels rows) (tabulates' : Tabulates tree levels rows') :
    rows = rows' := by
  let Before (first second : List String) : Prop := bytes (pathText first) < bytes (pathText second)
  have ascending : (rows.map Row.workload).Pairwise Before :=
    List.pairwise_map.mpr tabulates.ascending
  have ascending' : (rows'.map Row.workload).Pairwise Before :=
    List.pairwise_map.mpr tabulates'.ascending
  have apart {workloads : List (List String)} (ascending : workloads.Pairwise Before) :
      workloads.Nodup := by
    refine ascending.imp fun less same => ?_
    subst same
    exact List.lt_irrefl _ less
  have listed : (rows.map Row.workload).Perm (rows'.map Row.workload) := by
    refine (List.perm_ext_iff_of_nodup (apart ascending) (apart ascending')).mpr fun workload => ?_
    rw [List.mem_map, List.mem_map, tabulates.mem_iff, tabulates'.mem_iff]
  refine groups_unique tabulates.groups tabulates'.groups
    (listed.eq_of_pairwise (fun _ _ _ _ less more => ?_) ascending ascending')
  exact absurd (List.lt_trans less more) (List.lt_irrefl _)

end Tabulates

/-! ### The report -/

def rowOf (found : List Measurement) (levels : List Nat) (workload : List String) : Row where
  workload
  groups := levels.map fun level =>
    (rateAt found (pathText workload) level).map fun rate =>
      let first := (levels.head?.bind (rateAt found (pathText workload))).getD 0
      (rate, if first > 0 then rate / first else 0)

theorem text_rowOf (found : List Measurement) (levels : List Nat) (workload : List String) :
    (rowOf found levels workload).text = row found levels (pathText workload) := by
  rw [Row.text, rowOf, row, List.map_map]
  congr 4
  funext level
  rw [Function.comp_apply]
  cases rateAt found (pathText workload) level <;> rfl

namespace Lists

variable {tree : Tree} {found : List Measurement} {levels : List Nat}

theorem shows_rowOf (lists : Lists tree found) (named : tree.Named) {workload : List String}
    (names : ∀ name ∈ workload, IsName name) :
    List.Forall₂ (tree.Shows workload (levels.headD 0)) levels
      (rowOf found levels workload).groups := by
  have rate_iff {level : Nat} {rate : Float} : rateAt found (pathText workload) level = some rate ↔
      tree.Accepted workload (levelName level) rate := lists.rateAt_eq_some_iff named names
  refine List.forall₂_map_right_iff.mpr (List.forall₂_same.mpr fun level member => ?_)
  have head : levels.head? = some (levels.headD 0) := by
    cases levels with
    | nil => cases member
    | cons first levels => rfl
  cases measured : rateAt found (pathText workload) level with
  | none => exact fun rate accepted => nomatch measured.symm.trans (rate_iff.mpr accepted)
  | some rate =>
      refine ⟨rate_iff.mp measured, ?_⟩
      rw [head, Option.bind_some]
      cases first : rateAt found (pathText workload) (levels.headD 0) with
      | none =>
          refine .inr ⟨fun base accepted => ?_, if_neg (by decide)⟩
          exact nomatch first.symm.trans (rate_iff.mpr accepted)
      | some base =>
          have accepted := rate_iff.mp first
          by_cases positive : base > 0
          · exact .inl ⟨base, accepted, positive, if_pos positive⟩
          · refine .inr ⟨fun other accepted' => ?_, if_neg positive⟩
            rwa [← accepted.unique accepted']

/-- The report on the measurements in a tree tabulates the tree. -/
theorem exists_tabulates (lists : Lists tree found) (named : tree.Named) (levels : List Nat) :
    ∃ rows, Tabulates tree levels rows ∧ text found levels = page levels rows := by
  have reached : ∀ text ∈ workloads found, ∃ workload,
      (∃ level rate, tree.Accepted workload level rate) ∧ text = pathText workload := by
    intro text member
    obtain ⟨measurement, listed, rfl⟩ := mem_workloads_iff.mp member
    obtain ⟨workload, accepted, same⟩ := (lists measurement).mp listed
    exact ⟨workload, ⟨_, _, accepted⟩, same⟩
  choose! path accepted written using reached
  refine ⟨(workloads found).map fun text => rowOf found levels (path text), ?_, ?_⟩
  · constructor
    case mem_iff =>
      intro workload
      constructor
      · rintro ⟨row, member, rfl⟩
        obtain ⟨text, listed, rfl⟩ := List.mem_map.mp member
        exact accepted text listed
      · rintro ⟨level, rate, own⟩
        have listed : pathText workload ∈ workloads found :=
          mem_workloads_iff.mpr ⟨⟨_, level, rate⟩, (lists _).mpr ⟨workload, own, rfl⟩, rfl⟩
        obtain ⟨level', rate', own'⟩ := accepted _ listed
        refine ⟨_, List.mem_map_of_mem listed, ?_⟩
        exact (pathText_injective (own.isName named) (own'.isName named) (written _ listed)).symm
    case ascending =>
      refine List.pairwise_map.mpr ((pairwise_workloads found).imp_of_mem ?_)
      intro first second here there less
      rw [rowOf, rowOf, ← written first here, ← written second there]
      exact less
    case groups =>
      intro row member
      obtain ⟨text, listed, rfl⟩ := List.mem_map.mp member
      obtain ⟨level, rate, own⟩ := accepted text listed
      exact lists.shows_rowOf named (own.isName named)
  · have rows : (workloads found).map (row found levels) =
        (workloads found).map (Row.text ∘ fun text => rowOf found levels (path text)) := by
      refine List.map_congr_left fun text listed => ?_
      rw [Function.comp_apply, text_rowOf, ← written text listed]
    unfold text page
    rw [List.map_map, rows]

end Lists

/-- A report is written if measurements are there and nothing is in the way. -/
theorem generate_eq (levels : List Nat) {files tree : Tree}
    (measured : files.find? measurementsPath = some tree) (free : ¬ files.Blocked reportPath) :
    (generate levels files).code = 0 ∧
      (generate levels files).files.text? reportPath =
        some (text (measurements (measurementsPath.getLastD "") [] tree) levels) := by
  rw [generate, measured]
  cases written : files.write? (text (measurements (measurementsPath.getLastD "") [] tree) levels)
      reportPath with
  | none => exact absurd (Tree.write?_eq_none_iff.mp written) free
  | some after =>
      simp only [written]
      exact ⟨trivial, Tree.text?_write? written⟩

/-- The report on some levels in a working directory shows rows that tabulate the measurements, and
these leave nothing open. The page is written, unless something is in the way, on every command line
that asks for the report alone and for these levels. A row has a group for every level, and so as
many cells as there are headings. It makes no difference in what order the walk meets the
measurements, or directories list their entries. -/
structure Reports (levels : List Nat) (files tree : Tree) (rows : List Row) : Prop where
  tabulates : Tabulates tree levels rows
  unique : ∀ rows', Tabulates tree levels rows' → rows' = rows
  written : ¬ files.Blocked reportPath → (generate levels files).code = 0 ∧
    (generate levels files).files.text? reportPath = some (page levels rows)
  width : ∀ row ∈ rows, row.groups.length = levels.length ∧
    bars row.text = bars (header levels) + bars (pathText row.workload)
  met : ∀ found, found.Perm (measurements (measurementsPath.getLastD "") [] tree) →
    text found levels = page levels rows
  rearranged : ∀ files' tree' : Tree, files'.find? measurementsPath = some tree' →
    tree.Rearranged tree' → ¬ files'.Blocked reportPath →
      (generate levels files').files.text? reportPath = some (page levels rows)
  asked : ∀ arguments request, Request.ofArguments arguments = .ok request →
    request.reportOnly = true → request.levelsOrDefault = levels →
      run arguments files = generate levels files

/-- Whatever measurements are in the working directory, the report tabulates what is accepted of
them. -/
theorem report_tabulates (levels : List Nat) {files tree : Tree}
    (measured : files.find? measurementsPath = some tree) (named : tree.Named)
    (bare : tree.text? ["estimates.json"] = none) : ∃ rows, Reports levels files tree rows := by
  have lists := lists_measurements (measurementsPath.getLastD "") named bare
  obtain ⟨rows, tabulates, shown⟩ := lists.exists_tabulates named levels
  refine ⟨rows, tabulates, fun rows' other => other.unique tabulates, ?written, ?width, ?met,
    ?rearranged, ?asked⟩
  case written =>
    intro free
    rw [← shown]
    exact generate_eq levels measured free
  case width =>
    intro row member
    have width := (tabulates.groups row member).length_eq.symm
    exact ⟨width, Row.bars_text width⟩
  case met =>
    intro found perm
    obtain ⟨rows', other, same⟩ := (lists.perm perm).exists_tabulates named levels
    rw [same, other.unique tabulates]
  case rearranged =>
    intro files' tree' measured' rearranged free'
    have same := rearranged.sameFiles named
    have named' := rearranged.named named
    have lists' := lists_measurements (measurementsPath.getLastD "") named'
      ((same _).symm.trans bare)
    obtain ⟨rows', other, shown'⟩ := lists'.exists_tabulates named' levels
    rw [(generate_eq levels measured' free').2, shown', (other.of_sameFiles same).unique tabulates]
  case asked =>
    rintro arguments request asked only rfl
    rw [run, asked]
    exact if_pos only

def sampleLevel (mean : String) : Tree :=
  .directory [("estimates.json",
    .file ("\x7b\"mean\":\x7b\"point_estimate\":" ++ mean ++ "\x7d\x7d"))]

/-- A benchmark that has run at two levels, and what it has kept for the next time. -/
def sampleWorkload : Tree :=
  .directory [("c2", sampleLevel "500"), ("new", sampleLevel "500"), ("c1", sampleLevel "1000")]

def sampleMeasurements : Tree := .directory [("sum", sampleWorkload)]

def sampleFiles : Tree := .directory [("target", .directory [("criterion", sampleMeasurements)])]

theorem sampleMeasurements_accepted :
    sampleMeasurements.Accepted ["sum"] (levelName 1) 1000000 ∧
      sampleMeasurements.Accepted ["sum"] (levelName 2) 2000000 :=
  ⟨⟨by decide, _, 1000, rfl, by decide +kernel, by decide, by decide +kernel⟩,
    ⟨by decide, _, 500, rfl, by decide +kernel, by decide, by decide +kernel⟩⟩

theorem sampleMeasurements_named : sampleMeasurements.Named := by
  have level (mean : String) : (sampleLevel mean).Named :=
    .directory (List.nodup_singleton _) (by simp [IsName]) (by simpa using .file _)
  have workload : sampleWorkload.Named :=
    .directory (by decide) (by simp [IsName]) (by simp [level])
  exact .directory (List.nodup_singleton _) (by simp [IsName]) (by simpa using workload)

/-- There is no report in the working directory yet, nor anything in its place. -/
theorem not_blocked_sampleFiles : ¬ sampleFiles.Blocked reportPath := fun blocked =>
  Option.some_ne_none _ (Tree.write?_eq_none_iff.mpr blocked : sampleFiles.write? "" reportPath = _)

/-- The report is written, and says that the benchmark is twice as fast at the second level. -/
theorem report_tabulates_sample :
    sampleFiles.find? measurementsPath = some sampleMeasurements ∧ sampleMeasurements.Named ∧
      sampleMeasurements.text? ["estimates.json"] = none ∧
      ∃ rows, Reports [1, 2] sampleFiles sampleMeasurements rows ∧
        ⟨["sum"], [some (1000000, 1), some (2000000, 2)]⟩ ∈ rows ∧
        (generate [1, 2] sampleFiles).files.text? reportPath = some (page [1, 2] rows) := by
  obtain ⟨first, second⟩ := sampleMeasurements_accepted
  have compares {rate ratio : Float} (quotient : ratio = rate / 1000000) :
      sampleMeasurements.Compares ["sum"] 1 rate ratio :=
    .inl ⟨1000000, first, by decide, quotient⟩
  have shown : List.Forall₂ (sampleMeasurements.Shows ["sum"] 1) [1, 2]
      [some (1000000, 1), some (2000000, 2)] :=
    .cons ⟨first, compares (by decide +kernel)⟩
      (.cons ⟨second, compares (by decide +kernel)⟩ .nil)
  obtain ⟨rows, reports⟩ : ∃ rows, Reports [1, 2] sampleFiles sampleMeasurements rows :=
    report_tabulates [1, 2] rfl sampleMeasurements_named rfl
  obtain ⟨⟨_, groups⟩, member, rfl⟩ := (reports.tabulates.mem_iff ["sum"]).mpr ⟨_, _, first⟩
  obtain rfl := List.right_unique_forall₂' (fun _ _ _ one other => one.unique other)
    (reports.tabulates.groups _ member) shown
  exact ⟨rfl, sampleMeasurements_named, rfl, rows, reports, member,
    (reports.written not_blocked_sampleFiles).2⟩

end GraphAnalytics.Report
