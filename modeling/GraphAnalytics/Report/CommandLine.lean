/-
# The report command

`bench --report-only` makes a report from the measurements that earlier runs have left in the
working directory. The options are `--quick`, which only matters when something is measured, and
`--concurrency` with the levels to report on, separated by commas and given as often as one likes.
Flags are given at most once and take no value.

Arguments are taken in order. The first one that asks for help, or that is no argument of the
command, decides what happens; those behind it are not looked at.
-/

import GraphAnalytics.Report.Table
import GraphAnalytics.Word

namespace GraphAnalytics.Report

/-- What the command is asked to do: to measure quickly, to report on what is there and measure
nothing, and on which levels, in order, if any were given. -/
structure Request where
  quick : Bool := false
  reportOnly : Bool := false
  levels : List Nat := []
  deriving DecidableEq, Repr

/-- Read a number: decimal digits behind an optional plus sign, fitting sixty-four bits. -/
def level? (text : String) : Option Nat :=
  let digits := match text.toList with
    | '+' :: digits => digits
    | digits => digits
  if digits.isEmpty ∨ digits.any (!·.isDigit) then none
  else
    let n := digits.foldl (fun n c => n * 10 + (c.toNat - '0'.toNat)) 0
    if n ≤ Word.top then some n else none

def levels? (text : String) : Option (List Nat) :=
  (text.splitOn ",").mapM level?

/-- The value of an option written with its value in one argument. -/
def attached? (name argument : String) : Option String :=
  if argument.startsWith (name ++ "=") then some (argument.drop (name.length + 1)).toString else none

/-- Why a command line asks for no report: it asks how the program or its command is used, which a
page tells, or it cannot be understood. -/
inductive Diversion where
  | help (page : String)
  | misuse
  deriving DecidableEq, Repr

def programHelp : String := "\n".intercalate [
  "pagegraph workspace automation",
  "",
  "Usage: xtask <COMMAND>",
  "",
  "Commands:",
  "  bench  Run the substrate benchmarks at several concurrency levels",
  "  help   Print this message or the help of the given subcommand(s)",
  "",
  "Options:",
  "  -h, --help  Print help",
  ""]

def commandHelp : String := "\n".intercalate [
  "Run the substrate benchmarks at several concurrency levels",
  "",
  "Usage: xtask bench [OPTIONS]",
  "",
  "Options:",
  "      --quick                      Run quickly (lower sample size/time)",
  "      --report-only                Generate report only (skip running benchmarks)",
  "      --concurrency <CONCURRENCY>  Concurrency levels to measure [default: 1 2 4 8]",
  "  -h, --help                       Print help",
  ""]

def helpHelp : String := "\n".intercalate [
  "Print this message or the help of the given subcommand(s)",
  "",
  "Usage: xtask help [COMMAND]...",
  "",
  "Arguments:",
  "  [COMMAND]...  Print help for the subcommand(s)",
  ""]

/-- The argument asks for help: in full, or as the first of some letters. -/
def asksForHelp (argument : String) : Bool := argument == "--help" || argument.startsWith "-h"

namespace Request

def addLevels (request : Request) (text : String) : Except Diversion Request :=
  match levels? text with
  | some levels => .ok { request with levels := request.levels ++ levels }
  | none => .error .misuse

/-- Read the options of the command. -/
def ofOptions (request : Request) : List String → Except Diversion Request
  | [] => .ok request
  | ["--"] => .ok request
  | "--quick" :: rest =>
      if request.quick then .error .misuse else ofOptions { request with quick := true } rest
  | "--report-only" :: rest =>
      if request.reportOnly then .error .misuse
      else ofOptions { request with reportOnly := true } rest
  | "--concurrency" :: value :: rest => do
      ofOptions (← request.addLevels value) rest
  | argument :: rest =>
      if asksForHelp argument then .error (.help commandHelp)
      else
        match attached? "--concurrency" argument with
        | some value => do ofOptions (← request.addLevels value) rest
        | none => .error .misuse

def ofArguments : List String → Except Diversion Request
  | "bench" :: options => ofOptions {} options
  | ["help"] => .error (.help programHelp)
  | ["help", "bench"] => .error (.help commandHelp)
  | ["help", "help"] => .error (.help helpHelp)
  | argument :: _ => .error (if asksForHelp argument then .help programHelp else .misuse)
  | [] => .error .misuse

/-- The levels to report on: the ones asked for, or a few powers of two. -/
def levelsOrDefault (request : Request) : List Nat :=
  if request.levels.isEmpty then [1, 2, 4, 8] else request.levels

end Request

/-- What the command leaves behind: its exit code, what it wrote, and the working directory. -/
structure Outcome where
  code : Nat
  out : String := ""
  err : String := ""
  files : Tree

def measurementsPath : List String := ["target", "criterion"]

def reportPath : List String := ["benchmark_results", "report.md"]

def pathText (path : List String) : String := "/".intercalate path

def generate (levels : List Nat) (files : Tree) : Outcome :=
  let begun := "\n>>> Generating Report...\n"
  match files.find? measurementsPath with
  | none =>
      { code := 0
        out := begun
        err := s!"No criterion output found at {pathText measurementsPath}\n"
        files }
  | some tree =>
      let report := text (measurements (measurementsPath.getLastD "") [] tree) levels
      match files.write? report reportPath with
      | some files =>
          { code := 0, out := begun ++ s!"Report written to {pathText reportPath}\n", files }
      | none =>
          { code := 1, out := begun, err := s!"Cannot write {pathText reportPath}\n", files }

/-- What is said about a command line that cannot be understood. -/
def refusal : String := "Usage: xtask bench [OPTIONS]\n\nFor more information, try '--help'.\n"

/-- Run a command line in a working directory. Nothing is measured here, so one that does not ask
for the report alone is refused too. -/
def run (arguments : List String) (files : Tree) : Outcome :=
  match Request.ofArguments arguments with
  | .ok request =>
      if request.reportOnly then generate request.levelsOrDefault files
      else { code := 2, err := refusal, files }
  | .error (.help page) => { code := 0, out := page, files }
  | .error .misuse => { code := 2, err := refusal, files }

end GraphAnalytics.Report
