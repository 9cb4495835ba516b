import RocmTests.Conc.History
import RocmTests.Text.Lines
import RocmTests.Text.Numeral

/-!
# The per-test log

Every `TestLogger` puts its handlers on one base logger and logs through it, so a record
reaches the files and consoles of all loggers that are open.  A run is a sequence of
calls in one process.  A path is the file it names, and per-test files and the console
can be written.
-/

namespace RocmTests
namespace Logging

open Text

abbrev Path := Txt

/-- The arguments of `TestLogger`.  `none` is also an empty path. -/
structure Config where
  testId : Txt
  nodeLabel : Txt
  gpuLabel : Txt
  logPath : Option Path
  sessionLogPath : Option Path

inductive Target where
  | file (p : Path)
  | console
  | stderr
deriving DecidableEq

/-- A handler of the logger that was created as number `owner`. -/
structure Handler where
  owner : Nat
  target : Target
deriving DecidableEq

/-- The loggers created so far, and the handlers of the base logger. -/
structure State where
  loggers : List Config
  handlers : List Handler

def State.start : State := { loggers := [], handlers := [] }

/-! ## A record -/

structure Record where
  logger : Nat
  warning : Bool
  asctime : Txt
  text : Txt

structure Delivery where
  target : Target
  text : Txt

def Target.format (r : Record) : Target → Txt
  | .console => '[' :: r.asctime ++ "] ".toList ++ r.text
  | _ => r.text

/-- Each handler writes the record.  Where there is none, warnings go to `stderr`. -/
def deliver (handlers : List Handler) (r : Record) : List Delivery :=
  match handlers with
  | [] => if r.warning then [⟨.stderr, Target.format r .stderr⟩] else []
  | hs => hs.map fun h => ⟨h.target, h.target.format r⟩

/-! ## The calls -/

/-- What the clock and the session log answer to the reads and writes of one call, each
by its number.  An error of the session log is given by its text. -/
structure Env where
  ts : Nat → Txt
  asctime : Nat → Txt
  appendError : Nat → Option Txt

inductive Call where
  | cmdStart (cmd : Txt)
  | cmdEnd (stdout stderr : Txt) (exitCode : Int)
  | info (msg : Txt)
  | warning (msg : Txt)
  | event (kind detail : Txt)

/-- A step of a call: a record, or a line of the session log. -/
inductive Act where
  | log (warning : Bool) (asctime text : Txt)
  | append (p : Path) (line : Txt)

def sessionIdWidth : Nat := 30

def sessionOutputCap : Nat := 3800

def cmdLogMax : Nat := 300

/-- `{t:<n}`. -/
def padRight (n : Nat) (t : Txt) : Txt := t ++ List.replicate (n - t.length) ' '

def rstrip (t : Txt) : Txt := t.rdropWhile Markers.isSpace

section

variable (cfg : Config) (env : Env)

def sessionId : Txt := padRight sessionIdWidth (cfg.testId.take sessionIdWidth)

/-- `_session_append`, the `n`th of the call. -/
def sessionAppend (n : Nat) (line : Txt) : List Act :=
  match cfg.sessionLogPath with
  | none => []
  | some p =>
    match env.appendError n with
    | none => [.append p line]
    | some e =>
      [.log true (env.asctime (n + 2)) ("TestLogger: session_log write error: ".toList ++ e)]

def sessionAppendOutput (n : Nat) (kind text : Txt) : List Act :=
  if cfg.sessionLogPath = none ∨ text = [] then []
  else
    let truncated :=
      if sessionOutputCap < text.length then
        "\n  [+".toList ++ showNat (text.length - sessionOutputCap) ++ " chars omitted]".toList
      else []
    let indented := ['\n'].intercalate
      ((splitlines (text.take sessionOutputCap)).map fun ln => "  ".toList ++ ln)
    sessionAppend cfg env n
      (padRight 6 kind ++ env.ts n ++ ' ' :: sessionId cfg ++ '\n' :: indented ++ truncated ++
        ['\n'])

def displayCmd (cmd : Txt) : Txt :=
  if cmd.length ≤ cmdLogMax then cmd
  else
    cmd.take cmdLogMax ++ "… <".toList ++ showNat (cmd.length - cmdLogMax) ++
      " chars truncated>".toList

def Call.acts : Call → List Act
  | .cmdStart cmd =>
    .log false (env.asctime 0) (">> [".toList ++ env.ts 0 ++ "] ".toList ++ cfg.nodeLabel ++
        " | ".toList ++ cfg.gpuLabel ++ " | $ ".toList ++ displayCmd cmd) ::
      sessionAppend cfg env 0 ("CMD   ".toList ++ env.ts 0 ++ ' ' :: sessionId cfg ++
        ' ' :: cfg.nodeLabel ++ " $ ".toList ++ cmd ++ ['\n'])
  | .cmdEnd stdout stderr exitCode =>
    let out := rstrip stdout
    let err := rstrip stderr
    (if out = [] then [] else [.log false (env.asctime 0) out]) ++
      (if err = [] then [] else [.log true (env.asctime 1) err]) ++
      sessionAppend cfg env 0 ("END   ".toList ++ env.ts 0 ++ ' ' :: sessionId cfg ++
        " exit=".toList ++ showInt exitCode ++ ['\n']) ++
      sessionAppendOutput cfg env 1 "OUT".toList out ++
      sessionAppendOutput cfg env 2 "ERR".toList err
  | .info msg => [.log false (env.asctime 0) msg]
  | .warning msg => [.log true (env.asctime 0) msg]
  | .event kind detail =>
    sessionAppend cfg env 0
      (padRight 6 kind ++ env.ts 0 ++ ' ' :: sessionId cfg ++ ' ' :: detail ++ ['\n'])

end

/-! ## Steps -/

inductive Op where
  | create (cfg : Config) (started : Txt)
  | call (logger : Nat) (c : Call) (env : Env)
  | close (logger : Nat)

inductive Effect where
  | truncated (p : Path)
  | header (p : Path) (line : Txt)
  | record (r : Record) (deliveries : List Delivery)
  | appended (p : Path) (line : Txt)

def headerLine (cfg : Config) (started : Txt) : Txt :=
  "# test=".toList ++ cfg.testId ++ " node=".toList ++ cfg.nodeLabel ++ " gpu=".toList ++
    cfg.gpuLabel ++ " started=".toList ++ started ++ ['\n']

namespace State

/-- `TestLogger.__init__`. -/
def create (s : State) (cfg : Config) : State :=
  let n := s.loggers.length
  { loggers := s.loggers ++ [cfg]
    handlers := s.handlers ++
      (cfg.logPath.elim [] fun p => [⟨n, .file p⟩]) ++ [⟨n, .console⟩] }

def close (s : State) (i : Nat) : State :=
  { s with handlers := s.handlers.filter (·.owner ≠ i) }

def perform (s : State) (i : Nat) : Act → Effect
  | .log warning asctime text =>
    .record ⟨i, warning, asctime, text⟩ (deliver s.handlers ⟨i, warning, asctime, text⟩)
  | .append p line => .appended p line

end State

/-- A logger that does not exist cannot be called. -/
def step (op : Op) (s : State) : State :=
  match op with
  | .create cfg _ => s.create cfg
  | .call _ _ _ => s
  | .close i => s.close i

def effects (s : State) : Op → List Effect
  | .create cfg started =>
    cfg.logPath.elim [] fun p => [.truncated p, .header p (headerLine cfg started)]
  | .call i c env => s.loggers[i]?.elim [] fun cfg => (c.acts cfg env).map (s.perform i)
  | .close _ => []

/-! ## Isolation -/

def State.logPath (s : State) (i : Nat) : Option Path := s.loggers[i]?.bind Config.logPath

/-- The record reaches its logger's file once, no other file, and the console once. -/
structure RecordIsolated (s : State) (r : Record) (ds : List Delivery) : Prop where
  own : ∀ p, s.logPath r.logger = some p → ds.countP (·.target = .file p) = 1
  others : ∀ d ∈ ds, ∀ p, d.target = .file p → s.logPath r.logger = some p
  console : ds.countP (·.target = .console) = 1

/-- No file has handlers of two loggers. -/
def NoSharedFile (s : State) : Prop :=
  ∀ h ∈ s.handlers, ∀ h' ∈ s.handlers, ∀ p, h.target = .file p → h'.target = .file p →
    h.owner = h'.owner

structure StepIsolated (s : State) (op : Op) : Prop where
  records : ∀ r ds, .record r ds ∈ effects s op → RecordIsolated s r ds
  truncates : ∀ p, .truncated p ∈ effects s op → ∀ h ∈ s.handlers, h.target ≠ .file p
  shared : NoSharedFile (step op s)

def Isolated (ops : List Op) : Prop := Conc.Steps step StepIsolated State.start ops

/-! ### The condition -/

/-- The loggers that are open: each has its handler for the console. -/
def State.opened (s : State) : List Nat :=
  (s.handlers.filter (·.target = .console)).map Handler.owner

/-- The call issues a record: it writes more than lines of the session log. -/
def Issues (cfg : Config) (c : Call) (env : Env) : Prop :=
  ∃ warning asctime text, .log warning asctime text ∈ c.acts cfg env

/-- A record is issued while one logger is open and that one writes to the file of the
record's own logger; a logger is created on a path that no open one writes to. -/
def Alone (s : State) : Op → Prop
  | .create cfg _ => ∀ j ∈ s.opened, s.logPath j = none ∨ s.logPath j ≠ cfg.logPath
  | .call i c env => ∀ cfg ∈ s.loggers[i]?, Issues cfg c env →
      ∃ j, s.opened = [j] ∧ s.logPath j = s.logPath i
  | .close _ => True

/-! ## The handlers are those of the open loggers -/

def State.handlersOf (s : State) (i : Nat) : List Handler :=
  (s.logPath i).elim [] (fun p => [⟨i, .file p⟩]) ++ [⟨i, .console⟩]

structure Inv (s : State) : Prop where
  handlers_eq : s.handlers = s.opened.flatMap s.handlersOf
  nodup : s.opened.Nodup
  bound : ∀ i ∈ s.opened, i < s.loggers.length
  shared : NoSharedFile s

theorem mem_handlersOf {s : State} {i : Nat} {h : Handler} : h ∈ s.handlersOf i ↔
    h.owner = i ∧ ((∃ p, s.logPath i = some p ∧ h.target = .file p) ∨ h.target = .console) := by
  obtain ⟨owner, target⟩ := h
  unfold State.handlersOf
  cases hpath : s.logPath i with
  | none => simp
  | some p =>
    simp only [Option.elim_some, List.cons_append, List.nil_append, List.mem_cons,
      Handler.mk.injEq, List.not_mem_nil, or_false, Option.some.injEq,
      exists_eq_left', ← and_or_left]

theorem filter_console_handlersOf (s : State) (i : Nat) :
    (s.handlersOf i).filter (·.target = .console) = [⟨i, .console⟩] := by
  unfold State.handlersOf
  cases s.logPath i <;> rfl

/-- The open loggers are read off the consoles. -/
theorem map_owner_flatMap (s : State) (os : List Nat) :
    ((os.flatMap s.handlersOf).filter (·.target = .console)).map Handler.owner = os := by
  induction os with
  | nil => rfl
  | cons i os ih =>
    rw [List.flatMap_cons, List.filter_append, List.map_append, ih, filter_console_handlersOf]
    rfl

theorem opened_of_eq {s t : State} {os : List Nat} (h : t.handlers = os.flatMap s.handlersOf) :
    t.opened = os := by
  unfold State.opened
  rw [h, map_owner_flatMap]

theorem handlersOf_congr {s t : State} {os : List Nat} (h : ∀ i ∈ os, t.logPath i = s.logPath i) :
    os.flatMap t.handlersOf = os.flatMap s.handlersOf := by
  apply List.flatMap_congr
  intro i hi
  unfold State.handlersOf
  rw [h i hi]

theorem Inv.start : Inv State.start where
  handlers_eq := rfl
  nodup := List.nodup_nil
  bound := fun _ hi => nomatch hi
  shared := fun _ hh => nomatch hh

theorem logPath_create_of_lt {s : State} (cfg : Config) {i : Nat} (hi : i < s.loggers.length) :
    (s.create cfg).logPath i = s.logPath i := by
  unfold State.logPath State.create
  rw [List.getElem?_append_left hi]

theorem logPath_create_self (s : State) (cfg : Config) :
    (s.create cfg).logPath s.loggers.length = cfg.logPath := by
  unfold State.logPath State.create
  rw [List.getElem?_concat_length]
  rfl

theorem handlers_create {s : State} (cfg : Config) (h : Inv s) :
    (s.create cfg).handlers =
      (s.opened ++ [s.loggers.length]).flatMap (s.create cfg).handlersOf := by
  rw [List.flatMap_append, List.flatMap_singleton,
    handlersOf_congr fun i hi => logPath_create_of_lt cfg (h.bound i hi), ← h.handlers_eq]
  unfold State.handlersOf
  rw [logPath_create_self, ← List.append_assoc]
  rfl

theorem handlers_close {s : State} (i : Nat) (h : Inv s) :
    (s.close i).handlers = (s.opened.filter (· ≠ i)).flatMap s.handlersOf := by
  show s.handlers.filter (·.owner ≠ i) = _
  rw [h.handlers_eq]
  generalize s.opened = os
  induction os with
  | nil => rfl
  | cons j os ih =>
    rw [List.flatMap_cons, List.filter_append, ih]
    by_cases hj : j = i
    · have hnone : (s.handlersOf j).filter (·.owner ≠ i) = [] := by
        rw [List.filter_eq_nil_iff]
        intro k hk
        simp [(mem_handlersOf.mp hk).1, hj]
      rw [hnone, List.filter_cons_of_neg (by simp [hj]), List.nil_append]
    · have hall : (s.handlersOf j).filter (·.owner ≠ i) = s.handlersOf j := by
        rw [List.filter_eq_self]
        intro k hk
        simp [(mem_handlersOf.mp hk).1, hj]
      rw [hall, List.filter_cons_of_pos (by simp [hj]), List.flatMap_cons]

theorem opened_create {s : State} (cfg : Config) (h : Inv s) :
    (s.create cfg).opened = s.opened ++ [s.loggers.length] :=
  opened_of_eq (handlers_create cfg h)

theorem opened_close {s : State} (i : Nat) (h : Inv s) :
    (s.close i).opened = s.opened.filter (· ≠ i) :=
  opened_of_eq (s := s) (handlers_close i h)

/-- A handler of a file belongs to an open logger with that path. -/
theorem Inv.of_file {s : State} (h : Inv s) {k : Handler} {p : Path} (hk : k ∈ s.handlers)
    (hp : k.target = .file p) : k.owner ∈ s.opened ∧ s.logPath k.owner = some p := by
  rw [h.handlers_eq] at hk
  obtain ⟨i, hi, hk⟩ := List.mem_flatMap.mp hk
  obtain ⟨rfl, ⟨q, hq, htarget⟩ | htarget⟩ := mem_handlersOf.mp hk
  · rw [htarget] at hp
    cases hp
    exact ⟨hi, hq⟩
  · rw [htarget] at hp
    cases hp

theorem Inv.file_mem {s : State} (h : Inv s) {i : Nat} {p : Path} (hi : i ∈ s.opened)
    (hp : s.logPath i = some p) : ⟨i, .file p⟩ ∈ s.handlers := by
  rw [h.handlers_eq]
  exact List.mem_flatMap.mpr ⟨i, hi, mem_handlersOf.mpr ⟨rfl, Or.inl ⟨p, hp, rfl⟩⟩⟩

theorem noSharedFile_create {s : State} {cfg : Config} (h : Inv s)
    (hpath : ∀ j ∈ s.opened, s.logPath j = none ∨ s.logPath j ≠ cfg.logPath) :
    NoSharedFile (s.create cfg) := by
  intro k hk k' hk' p hp hp'
  -- a handler of the new state is an old one, or the new logger's
  have hcases : ∀ k ∈ (s.create cfg).handlers, k.target = .file p →
      k ∈ s.handlers ∨ k.owner = s.loggers.length ∧ cfg.logPath = some p := by
    intro k hk hp
    rw [handlers_create cfg h] at hk
    obtain ⟨i, hi, hk⟩ := List.mem_flatMap.mp hk
    obtain ⟨rfl, ⟨q, hq, htarget⟩ | htarget⟩ := mem_handlersOf.mp hk
    · rw [htarget] at hp
      cases hp
      rcases List.mem_append.mp hi with hold | hnew
      · rw [logPath_create_of_lt cfg (h.bound _ hold)] at hq
        have hmem := h.file_mem hold hq
        rw [← htarget] at hmem
        exact Or.inl hmem
      · rw [List.mem_singleton.mp hnew, logPath_create_self] at hq
        exact Or.inr ⟨List.mem_singleton.mp hnew, hq⟩
    · rw [htarget] at hp
      cases hp
  have hdistinct : ∀ k ∈ s.handlers, k.target = .file p → cfg.logPath ≠ some p := by
    intro k hk hp hcfg
    obtain ⟨hopen, hlog⟩ := h.of_file hk hp
    rcases hpath k.owner hopen with hnone | hne
    · rw [hlog] at hnone
      cases hnone
    · exact hne (hlog.trans hcfg.symm)
  rcases hcases k hk hp with hold | ⟨hnew, hcfg⟩
  · rcases hcases k' hk' hp' with hold' | ⟨_, hcfg'⟩
    · exact h.shared k hold k' hold' p hp hp'
    · exact absurd hcfg' (hdistinct k hold hp)
  · rcases hcases k' hk' hp' with hold' | ⟨hnew', _⟩
    · exact absurd hcfg (hdistinct k' hold' hp')
    · rw [hnew, hnew']

theorem Inv.create {s : State} {cfg : Config} (h : Inv s)
    (hpath : ∀ j ∈ s.opened, s.logPath j = none ∨ s.logPath j ≠ cfg.logPath) :
    Inv (s.create cfg) := by
  have hlength : (s.create cfg).loggers.length = s.loggers.length + 1 := List.length_append
  constructor
  · rw [opened_create cfg h]
    exact handlers_create cfg h
  · rw [opened_create cfg h]
    refine List.nodup_append.mpr ⟨h.nodup, List.nodup_singleton _, ?_⟩
    intro i hi j hj heq
    rw [List.mem_singleton.mp hj] at heq
    exact absurd (h.bound i hi) (by omega)
  · rw [opened_create cfg h, hlength]
    intro i hi
    rcases List.mem_append.mp hi with hold | hnew
    · exact Nat.lt_succ_of_lt (h.bound i hold)
    · rw [List.mem_singleton.mp hnew]
      exact Nat.lt_succ_self _
  · exact noSharedFile_create h hpath

theorem Inv.close {s : State} (i : Nat) (h : Inv s) : Inv (s.close i) := by
  constructor
  · rw [opened_close i h]
    exact handlers_close i h
  · rw [opened_close i h]
    exact h.nodup.filter _
  · rw [opened_close i h]
    intro j hj
    exact h.bound j (List.mem_of_mem_filter hj)
  · intro k hk k' hk' p hp hp'
    exact h.shared k (List.mem_of_mem_filter hk) k' (List.mem_of_mem_filter hk') p hp hp'

theorem Inv.step {s : State} (h : Inv s) (op : Op) (halone : Alone s op) : Inv (step op s) := by
  cases op with
  | create cfg started => exact h.create halone
  | call i c env => exact h
  | close i => exact h.close i

/-! ## One record -/

theorem countP_console (s : State) (r : Record) :
    (deliver s.handlers r).countP (·.target = .console) = s.opened.length := by
  unfold State.opened
  rw [List.length_map, ← List.countP_eq_length_filter]
  cases s.handlers with
  | nil =>
    unfold deliver
    cases r.warning <;> rfl
  | cons k ks =>
    unfold deliver
    rw [List.countP_map]
    rfl

theorem deliver_single {s : State} (h : Inv s) {j : Nat} (hopen : s.opened = [j]) (r : Record) :
    deliver s.handlers r = (s.handlersOf j).map fun k => ⟨k.target, k.target.format r⟩ := by
  have hhandlers : s.handlers = s.handlersOf j := by
    rw [h.handlers_eq, hopen, List.flatMap_singleton]
  rw [hhandlers]
  unfold State.handlersOf
  cases s.logPath j <;> rfl

/-- A record is isolated exactly when one logger is open, on the path of the record's. -/
theorem recordIsolated_iff {s : State} (h : Inv s) (r : Record) :
    RecordIsolated s r (deliver s.handlers r) ↔
      ∃ j, s.opened = [j] ∧ s.logPath j = s.logPath r.logger := by
  constructor
  · intro hiso
    have hlength := hiso.console
    rw [countP_console s r] at hlength
    obtain ⟨j, hopen⟩ := List.length_eq_one_iff.mp hlength
    refine ⟨j, hopen, ?_⟩
    have hown := hiso.own
    have hothers := hiso.others
    rw [deliver_single h hopen] at hown hothers
    unfold State.handlersOf at hown hothers
    cases hj : s.logPath j with
    | none =>
      cases hi : s.logPath r.logger with
      | none => rfl
      | some p =>
        have hcount := hown p hi
        rw [hj] at hcount
        cases hcount
    | some q =>
      rw [hj] at hothers
      exact (hothers _ List.mem_cons_self q rfl).symm
  · intro ⟨j, hopen, hpath⟩
    have hconsole := countP_console s r
    rw [hopen] at hconsole
    rw [deliver_single h hopen] at hconsole ⊢
    refine ⟨?_, ?_, hconsole⟩
    · intro p hp
      unfold State.handlersOf
      rw [hpath, hp]
      simp
    · intro d hd p hp
      obtain ⟨k, hk, rfl⟩ := List.mem_map.mp hd
      obtain ⟨_, ⟨q, hq, htarget⟩ | htarget⟩ := mem_handlersOf.mp hk
      · rw [← hpath, hq, ← htarget.symm.trans hp |> Target.file.inj]
      · cases htarget.symm.trans hp

/-! ## Runs -/

theorem mem_effects_create {s : State} {cfg : Config} {started : Txt} {e : Effect} :
    e ∈ effects s (.create cfg started) ↔
      ∃ p, cfg.logPath = some p ∧ (e = .truncated p ∨ e = .header p (headerLine cfg started)) := by
  show e ∈ cfg.logPath.elim [] _ ↔ _
  cases cfg.logPath with
  | none => simp
  | some p => simp

theorem mem_effects_call {s : State} {i : Nat} {c : Call} {env : Env} {e : Effect} :
    e ∈ effects s (.call i c env) ↔
      ∃ cfg, s.loggers[i]? = some cfg ∧ ∃ act ∈ c.acts cfg env, s.perform i act = e := by
  show e ∈ s.loggers[i]?.elim [] _ ↔ _
  cases s.loggers[i]? with
  | none => simp
  | some cfg => simp

theorem stepIsolated_create {s : State} (h : Inv s) (cfg : Config) (started : Txt) :
    StepIsolated s (.create cfg started) ↔ Alone s (.create cfg started) := by
  constructor
  · intro hiso j hj
    cases hpath : s.logPath j with
    | none => exact Or.inl rfl
    | some q =>
      refine Or.inr fun hcfg => ?_
      have htruncated : .truncated q ∈ effects s (.create cfg started) :=
        mem_effects_create.mpr ⟨q, hcfg.symm, Or.inl rfl⟩
      exact hiso.truncates q htruncated _ (h.file_mem hj hpath) rfl
  · intro halone
    refine ⟨?_, ?_, (h.step _ halone).shared⟩
    · intro r ds hmem
      obtain ⟨p, _, heq | heq⟩ := mem_effects_create.mp hmem <;> cases heq
    · intro p hmem k hk hp
      obtain ⟨q, hcfg, heq | heq⟩ := mem_effects_create.mp hmem
      · cases heq
        obtain ⟨hopen, hlog⟩ := h.of_file hk hp
        rcases halone k.owner hopen with hnone | hne
        · rw [hlog] at hnone
          cases hnone
        · exact hne (hlog.trans hcfg.symm)
      · cases heq

theorem stepIsolated_call {s : State} (h : Inv s) (i : Nat) (c : Call) (env : Env) :
    StepIsolated s (.call i c env) ↔ Alone s (.call i c env) := by
  constructor
  · intro hiso cfg hcfg ⟨warning, asctime, text, hact⟩
    exact (recordIsolated_iff h _).mp
      (hiso.records _ _ (mem_effects_call.mpr ⟨cfg, hcfg, _, hact, rfl⟩))
  · intro halone
    refine ⟨?_, ?_, h.shared⟩
    · intro r ds hmem
      obtain ⟨cfg, hcfg, act, hact, heq⟩ := mem_effects_call.mp hmem
      cases act with
      | append p line => cases heq
      | log warning asctime text =>
        cases heq
        exact (recordIsolated_iff h _).mpr (halone cfg hcfg ⟨_, _, _, hact⟩)
    · intro p hmem
      obtain ⟨cfg, _, act, _, heq⟩ := mem_effects_call.mp hmem
      cases act <;> cases heq

theorem stepIsolated_iff (s : State) (op : Op) (h : Inv s) :
    StepIsolated s op ↔ Alone s op := by
  cases op with
  | create cfg started => exact stepIsolated_create h cfg started
  | call i c env => exact stepIsolated_call h i c env
  | close i =>
    constructor
    · intro _
      trivial
    · intro _
      refine ⟨?_, ?_, (h.close i).shared⟩
      · intro r ds hmem
        cases hmem
      · intro p hmem
        cases hmem

/-- The logs of a run are isolated exactly when each record is issued while one logger is
open, the record's own or one on its path, and no two open loggers share a path. -/
theorem isolated_iff (ops : List Op) :
    Isolated ops ↔ Conc.Steps step Alone State.start ops :=
  Conc.steps_congr stepIsolated_iff (fun _ op h halone => h.step op halone) ops Inv.start

/-! ### Two executors of one test -/

section

def executorConfig (node : Txt) : Config where
  testId := "test_rccl".toList
  nodeLabel := node
  gpuLabel := "GPU-0".toList
  logPath := some "logs/test_rccl.log".toList
  sessionLogPath := none

def twoExecutors : List Op :=
  [.create (executorConfig "node1".toList) [], .create (executorConfig "node2".toList) []]

theorem twoExecutors_truncate : ¬ Isolated twoExecutors := by
  intro h
  have htruncates := h.2.1.truncates "logs/test_rccl.log".toList List.mem_cons_self
    ⟨0, .file "logs/test_rccl.log".toList⟩ List.mem_cons_self
  exact htruncates rfl

end

end Logging
end RocmTests
