import RocmTests.Shell.Strict
import RocmTests.Shell.Words
import RocmTests.Text.Find
import RocmTests.Text.Numeral

/-!
# Results of the RCCL benchmarks

`run_perf` runs a benchmark and reads a latency and a bandwidth from its output,
the last line first.  `correctness_ok` looks at the output alone.
-/

namespace RocmTests
namespace Rocm
namespace Rccl

open Markers (strip)
open Shell (quote)
open Text

/-- What `executor.run` returns. -/
structure ExecutionResult where
  exitCode : Int
  stdout : Txt

def ExecutionResult.ok (result : ExecutionResult) : Bool := result.exitCode == 0

structure RcclResult where
  operation : Txt
  sizeMb : Int
  nGpus : Int
  bandwidthGbps : PyFloat
  latencyUs : PyFloat
  passed : Bool
  rawOutput : Txt

/-! ## The parser -/

def isPositive : PyFloat → Bool
  | .nan => false
  | .inf negative => !negative
  | .finite q => decide (0 < q)

section

-- the rounding of a decimal to a binary64 number
variable (round : PyFloat → PyFloat)

/-- The loop over the lines: the latency and the bandwidth it ends with.  The
latency is assigned before the bandwidth column is read. -/
def scan : List Txt → (latency bw : PyFloat) → PyFloat × PyFloat
  | [], latency, bw => (latency, bw)
  | line :: rest, latency, bw =>
    let line := strip line
    if line = [] ∨ line.head? = some '#' then scan rest latency bw
    else
      let parts := splitSpace line
      if 8 ≤ parts.length then
        match (PyFloat.parse (parts.getD 5 [])).map round with
        | none => scan rest latency bw
        | some latency =>
          match (PyFloat.parse (parts.getD 7 [])).map round with
          | none => scan rest latency bw
          | some bw => (latency, bw)
      else scan rest latency bw

def parseRcclOutput (operation : Txt) (sizeMb nGpus : Int) (stdout : Txt) (ok : Bool) :
    RcclResult :=
  let metrics := scan round (splitlines stdout).reverse (.finite 0) (.finite 0)
  { operation := operation
    sizeMb := sizeMb
    nGpus := nGpus
    bandwidthGbps := metrics.2
    latencyUs := metrics.1
    passed := ok && isPositive metrics.2
    rawOutput := stdout }

end

/-! ## The runner -/

/-- The keyword arguments of `run_perf`. -/
structure PerfArgs where
  nGpus : Int := 2
  extraArgs : Txt := []
  env : List (Txt × Txt) := []
  launcher : Txt := []
  operation : Txt := "perf".toList
  sizeMb : Int := 0
  timeout : ℚ := 300

def perfCommand (binary : Txt) (args : PerfArgs) : Txt :=
  let cmd := binary ++ " -g ".toList ++ showInt args.nGpus
  let cmd := if args.launcher = [] then cmd else args.launcher ++ ' ' :: cmd
  let cmd := if args.extraArgs = [] then cmd else cmd ++ ' ' :: args.extraArgs
  if args.env = [] then cmd
  else "env ".toList ++
    [' '].intercalate (args.env.map fun (k, v) => k ++ '=' :: quote v) ++ ' ' :: cmd

def runPerf (round : PyFloat → PyFloat) (run : Txt → ℚ → ExecutionResult) (binary : Txt)
    (args : PerfArgs) : RcclResult :=
  let result := run (perfCommand binary args) args.timeout
  parseRcclOutput round args.operation args.sizeMb args.nGpus result.stdout result.ok

/-- The characters `str.lower` gives for one, as far as ASCII goes: these two are
the only ones outside of it that turn into a letter of it. -/
def lowerChar (c : Char) : Txt :=
  if c = '\u0130' then ['i', '\u0307'] else if c = '\u212a' then ['k'] else [c.toLower]

def failureMarkers : List Txt :=
  ["aborted".toList, "test failure".toList, "segmentation fault".toList, "out of memory".toList]

def correctnessOk (result : RcclResult) : Bool :=
  let out := result.rawOutput
  let low := out.flatMap lowerChar
  if failureMarkers.any fun marker => decide (marker <:+: low) then false
  else if "FAILED".toList <:+: out then false
  else decide ("OK".toList <:+: out)

/-! ## What a line says -/

/-- The columns of a line that is no comment and has enough of them. -/
def columns (line : Txt) : Option (List Txt) :=
  let line := strip line
  if line = [] ∨ line.head? = some '#' then none
  else if 8 ≤ (splitSpace line).length then some (splitSpace line) else none

section

variable (round : PyFloat → PyFloat)

def latencyOf (line : Txt) : Option PyFloat :=
  (columns line).bind fun parts => (PyFloat.parse (parts.getD 5 [])).map round

def bandwidthOf (line : Txt) : Option PyFloat :=
  (columns line).bind fun parts => (PyFloat.parse (parts.getD 7 [])).map round

/-- The pair of a line whose two columns are numbers. -/
def numbers (line : Txt) : Option (PyFloat × PyFloat) :=
  (latencyOf round line).bind fun x => (bandwidthOf round line).map (x, ·)

/-- The latency of a line whose bandwidth is no number. -/
def halfNumber (line : Txt) : Option PyFloat :=
  if (bandwidthOf round line).isSome then none else latencyOf round line

theorem scan_cons (line : Txt) (rest : List Txt) (latency bw : PyFloat) :
    scan round (line :: rest) latency bw =
      match numbers round line with
      | some pair => pair
      | none => scan round rest ((halfNumber round line).getD latency) bw := by
  unfold numbers halfNumber latencyOf bandwidthOf columns
  rw [scan]
  by_cases hcomment : strip line = [] ∨ (strip line).head? = some '#'
  · simp only [if_pos hcomment]
    rfl
  · simp only [if_neg hcomment]
    by_cases hlen : 8 ≤ (splitSpace (strip line)).length
    · simp only [if_pos hlen, Option.bind_some]
      cases hlatency : (PyFloat.parse ((splitSpace (strip line)).getD 5 [])).map round with
      | none => cases (PyFloat.parse ((splitSpace (strip line)).getD 7 [])).map round <;> rfl
      | some x => cases (PyFloat.parse ((splitSpace (strip line)).getD 7 [])).map round <;> rfl
    · simp only [if_neg hlen]
      rfl

/-- The scan ends with the first full line, or else with the last of the halves. -/
theorem scan_eq (lines : List Txt) : ∀ latency bw : PyFloat,
    scan round lines latency bw = (lines.findSome? (numbers round)).getD
      ((lines.reverse.findSome? (halfNumber round)).getD latency, bw) := by
  induction lines with
  | nil => intro latency bw; rfl
  | cons line rest ih =>
    intro latency bw
    rw [scan_cons, List.findSome?_cons]
    cases hfull : numbers round line with
    | some pair => rfl
    | none =>
      have hhalves : (line :: rest).reverse.findSome? (halfNumber round) =
          (rest.reverse.findSome? (halfNumber round)).or (halfNumber round line) := by
        rw [List.reverse_cons, List.findSome?_append, List.findSome?_singleton]
      simp only
      rw [ih, hhalves]
      cases rest.reverse.findSome? (halfNumber round) <;> rfl

/-! ## One line and one clean run -/

/-- The pair that a result should carry: that of the last full line. -/
def lastNumbers (stdout : Txt) : PyFloat × PyFloat :=
  ((splitlines stdout).reverse.findSome? (numbers round)).getD (.finite 0, .finite 0)

/-- A failed run or check has left its mark in the output. -/
def Marked (stdout : Txt) : Prop :=
  (∃ marker ∈ failureMarkers, marker <:+: stdout.flatMap lowerChar) ∨ "FAILED".toList <:+: stdout

structure Sound (execution : ExecutionResult) (result : RcclResult) : Prop where
  pair : (result.latencyUs, result.bandwidthGbps) = lastNumbers round execution.stdout
  clean : correctnessOk result = true → execution.exitCode = 0 ∧ ¬ Marked execution.stdout

/-- Some line is full, or the first half of a line is about no time at all. -/
def Unmixed (stdout : Txt) : Prop :=
  (∃ line ∈ splitlines stdout, (numbers round line).isSome) ∨
    ∀ x, (splitlines stdout).findSome? (halfNumber round) = some x → x = .finite 0

/-- The exit status does not matter: it is clean, or the output shows the failure. -/
def Told (execution : ExecutionResult) : Prop :=
  execution.exitCode = 0 ∨ Marked execution.stdout ∨ ¬ "OK".toList <:+: execution.stdout

theorem correctnessOk_iff (result : RcclResult) :
    correctnessOk result = true ↔
      ¬ Marked result.rawOutput ∧ "OK".toList <:+: result.rawOutput := by
  have hmarkers : (failureMarkers.any fun marker =>
      decide (marker <:+: result.rawOutput.flatMap lowerChar)) = true ↔
        ∃ marker ∈ failureMarkers, marker <:+: result.rawOutput.flatMap lowerChar := by
    simp only [List.any_eq_true, decide_eq_true_iff]
  unfold correctnessOk Marked
  by_cases hlow : ∃ marker ∈ failureMarkers, marker <:+: result.rawOutput.flatMap lowerChar
  · simp only [if_pos (hmarkers.mpr hlow), hlow, true_or, not_true, false_and, Bool.false_eq_true]
  · rw [if_neg (hmarkers.not.mpr hlow)]
    by_cases hfailed : "FAILED".toList <:+: result.rawOutput
    · rw [if_pos hfailed]
      exact iff_of_false Bool.false_ne_true fun h => h.1 (Or.inr hfailed)
    · rw [if_neg hfailed, decide_eq_true_iff]
      exact ⟨fun hok => ⟨fun hmarked => hmarked.elim hlow hfailed, hok⟩, fun h => h.2⟩

theorem metrics_runPerf (stdout : Txt) :
    scan round (splitlines stdout).reverse (.finite 0) (.finite 0) = lastNumbers round stdout ↔
      Unmixed round stdout := by
  unfold lastNumbers Unmixed
  rw [scan_eq, List.reverse_reverse]
  cases hfull : (splitlines stdout).reverse.findSome? (numbers round) with
  | some pair =>
    obtain ⟨line, hmem, hline⟩ := List.exists_of_findSome?_eq_some hfull
    have hsome : (numbers round line).isSome = true := by
      rw [hline]
      rfl
    exact iff_of_true rfl (Or.inl ⟨line, List.mem_reverse.mp hmem, hsome⟩)
  | none =>
    have hnone : ¬ ∃ line ∈ splitlines stdout, (numbers round line).isSome = true := by
      rintro ⟨line, hmem, hsome⟩
      rw [List.findSome?_eq_none_iff.mp hfull line (List.mem_reverse.mpr hmem)] at hsome
      cases hsome
    simp only [Option.getD_none, hnone, false_or]
    cases (splitlines stdout).findSome? (halfNumber round) with
    | none =>
      refine iff_of_true rfl fun x hx => ?_
      cases hx
    | some x => simp only [Option.getD_some, Prod.mk.injEq, and_true, Option.some.injEq, forall_eq']

theorem sound_iff (run : Txt → ℚ → ExecutionResult) (binary : Txt) (args : PerfArgs) :
    Sound round (run (perfCommand binary args) args.timeout) (runPerf round run binary args) ↔
      Unmixed round (run (perfCommand binary args) args.timeout).stdout ∧
        Told (run (perfCommand binary args) args.timeout) := by
  set execution := run (perfCommand binary args) args.timeout with hexecution
  have hraw : (runPerf round run binary args).rawOutput = execution.stdout := rfl
  have hpair : ((runPerf round run binary args).latencyUs,
      (runPerf round run binary args).bandwidthGbps) =
      scan round (splitlines execution.stdout).reverse (.finite 0) (.finite 0) := rfl
  have hclean : (correctnessOk (runPerf round run binary args) = true →
      execution.exitCode = 0 ∧ ¬ Marked execution.stdout) ↔ Told execution := by
    rw [correctnessOk_iff, hraw]
    unfold Told
    tauto
  constructor
  · intro hsound
    exact ⟨(metrics_runPerf round _).mp (hpair ▸ hsound.pair), hclean.mp hsound.clean⟩
  · intro hcond
    exact ⟨hpair.trans ((metrics_runPerf round _).mpr hcond.1), hclean.mpr hcond.2⟩

end

/-- A benchmark that was killed after its rows, the last of which is cut short. -/
def killed (_ : Txt) (_ : ℚ) : ExecutionResult where
  exitCode := 137
  stdout := "8 2 float sum -1 12.5 0.1 N/A\n# Out of bounds values : 0 OK\n".toList

theorem not_sound_killed : ¬ Sound id (killed (perfCommand "all_reduce_perf".toList {}) 300)
    (runPerf id killed "all_reduce_perf".toList {}) := by
  intro hsound
  have hok : correctnessOk (runPerf id killed "all_reduce_perf".toList {}) = true := by
    decide +kernel
  have hexit : (137 : Int) = 0 := (hsound.clean hok).1
  omega

/-! ## The command -/

section

open Shell

variable {args : PerfArgs} {front extra : List Piece}

/-- What is started: the launcher, if there is one, and the binary with its arguments. -/
def perfPieces (binary : Piece) (args : PerfArgs) (front extra : List Piece) : List Piece :=
  front ++ (binary :: .bare "-g".toList (unspecial_of_all (List.cons_ne_nil _ _) (by decide)) ::
    .bare (showInt args.nGpus) (unspecial_showInt _) :: extra)

theorem perfCommand_eq (binary : Piece) (hlauncher : args.launcher = line front)
    (hextra : args.extraArgs = line extra) :
    perfCommand binary.text args =
      withEnv args.env (line (perfPieces binary args front extra)) := by
  have hg : Unspecial "-g".toList := unspecial_of_all (List.cons_ne_nil _ _) (by decide)
  have hmiddle : line [binary, .bare "-g".toList hg,
    .bare (showInt args.nGpus) (unspecial_showInt _)] =
      binary.text ++ " -g ".toList ++ showInt args.nGpus := by
    rw [line, List.map_cons, List.map_cons, List.map_singleton,
      List.intercalate_cons_of_ne_nil (List.cons_ne_nil _ _),
      List.intercalate_cons_of_ne_nil (List.cons_ne_nil _ _), List.intercalate_singleton]
    simp [List.append_assoc]
  have hne : [binary, .bare "-g".toList hg, .bare (showInt args.nGpus) (unspecial_showInt _)] ≠
      [] :=
    List.cons_ne_nil _ _
  have hlaunched : line (front ++ [binary, .bare "-g".toList hg,
      .bare (showInt args.nGpus) (unspecial_showInt _)]) =
      if args.launcher = [] then binary.text ++ " -g ".toList ++ showInt args.nGpus
      else args.launcher ++ ' ' :: (binary.text ++ " -g ".toList ++ showInt args.nGpus) := by
    rw [← hmiddle, hlauncher]
    by_cases hnil : front = []
    · rw [hnil, List.nil_append, if_pos (show line [] = [] from rfl)]
    · rw [if_neg (line_ne_nil hnil), line_append hnil hne]
  have hall : line (perfPieces binary args front extra) =
      if args.extraArgs = [] then line (front ++ [binary, .bare "-g".toList hg,
        .bare (showInt args.nGpus) (unspecial_showInt _)])
      else line (front ++ [binary, .bare "-g".toList hg,
        .bare (showInt args.nGpus) (unspecial_showInt _)]) ++ ' ' :: args.extraArgs := by
    have hsplit : perfPieces binary args front extra = front ++ [binary, .bare "-g".toList hg,
        .bare (showInt args.nGpus) (unspecial_showInt _)] ++ extra := by
      rw [List.append_assoc]
      rfl
    rw [hsplit, hextra]
    by_cases hnil : extra = []
    · rw [hnil, List.append_nil, if_pos (show line [] = [] from rfl)]
    · rw [if_neg (line_ne_nil hnil),
        line_append (List.append_ne_nil_of_right_ne_nil front hne) hnil]
  rw [hall, hlaunched]
  rfl

/-- A shell that reads the command starts the launcher, or the binary where there is none, with the
arguments and the variables that were given, and nothing else. -/
theorem perfCommand_starts {kept : Txt → Prop} {M : Machine} {W : World} (hbash : Bash kept M W)
    (s : State) {binary : Txt} (hbinary : Unspecial binary) (args : PerfArgs)
    {front extra : List Piece} (hlauncher : args.launcher = line front)
    (hextra : args.extraArgs = line extra)
    (hstart : Startable M ((front.map Piece.arg ++ [binary]).headD []))
    (hnames : ∀ p ∈ args.env, isName p.1 = true) :
    (M.run W s (perfCommand binary args)).programs = [started s args.env (front.map Piece.arg ++
      (binary :: "-g".toList :: showInt args.nGpus :: extra.map Piece.arg))] := by
  have hpieces : perfPieces (.bare binary hbinary) args front extra ≠ [] :=
    List.append_ne_nil_of_right_ne_nil front (List.cons_ne_nil _ _)
  obtain ⟨ps, -, htext, hargs⟩ := exists_withEnv hnames hpieces
  have hcommand : perfCommand binary args = line ps :=
    (perfCommand_eq (.bare binary hbinary) hlauncher hextra).trans htext
  have hargv : (perfPieces (.bare binary hbinary) args front extra).map Piece.arg =
      front.map Piece.arg ++
      (binary :: "-g".toList :: showInt args.nGpus :: extra.map Piece.arg) := by
    rw [perfPieces, List.map_append, List.map_cons, List.map_cons, List.map_cons, Piece.arg_bare,
      Piece.arg_bare, Piece.arg_bare]
  rw [hargv] at hargs
  rw [hcommand]
  cases front with
  | nil => exact hbash.run_prefixed hnames hstart hargs s
  | cons p front => exact hbash.run_prefixed hnames hstart hargs s

/-- Two processes, and a value with a blank. -/
theorem perfCommand_starts_mpirun :
    let args : PerfArgs :=
      { launcher := "mpirun -np 2".toList, extraArgs := "-b 16 -e 1G".toList,
        env := [("LD_LIBRARY_PATH".toList, "/opt/my rocm/lib".toList),
          ("NCCL_ALGO".toList, "PAT".toList)] }
    let s := fresh (fun _ => none) []
    (posix.run .strict s (perfCommand "./all_reduce_perf".toList args)).programs =
      [started s args.env (["mpirun", "-np", "2", "./all_reduce_perf", "-g", "2", "-b", "16", "-e",
        "1G"].map String.toList)] := by
  intro args s
  have hlauncher : args.launcher =
    line [.bare "mpirun".toList (unspecial_of_all (by decide) (by decide)),
      .bare "-np".toList (unspecial_of_all (by decide) (by decide)),
      .bare "2".toList (unspecial_of_all (by decide) (by decide))] := rfl
  have hextra : args.extraArgs = line [.bare "-b".toList (unspecial_of_all (by decide) (by decide)),
      .bare "16".toList (unspecial_of_all (by decide) (by decide)),
      .bare "-e".toList (unspecial_of_all (by decide) (by decide)),
      .bare "1G".toList (unspecial_of_all (by decide) (by decide))] := rfl
  have hstart : Startable posix "mpirun".toList := ⟨⟨by decide, by decide⟩, by decide, by decide⟩
  exact perfCommand_starts (bash_strict fun _ => False) s (unspecial_of_all (by decide) (by decide))
    args
    hlauncher hextra hstart (by decide)

end

end Rccl
end Rocm
end RocmTests
