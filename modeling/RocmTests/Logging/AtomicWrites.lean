import RocmTests.Collections.Terminated
import RocmTests.Logging.TestLogger
import RocmTests.Text.Utf8

/-!
# Writes that stay in one piece

Workers append to one session log, each line or block by a write of its own.  Up to 4096 bytes
such a write is not split.  The caps count characters, and not every part of a line has one.
-/

namespace RocmTests
namespace Logging

open Text

/-- The bytes of a text in UTF-8. -/
def size (t : Txt) : Nat := (Utf8.encode t).length

/-- What `O_APPEND` writes in one piece. -/
def atomicSize : Nat := 4096

/-- Every write that the call makes to the session log is in one piece. -/
def Atomic (cfg : Config) (env : Env) (c : Call) : Prop :=
  ∀ p line, .append p line ∈ c.acts cfg env → size line ≤ atomicSize

/-! ## The condition -/

section

variable (cfg : Config) (env : Env)

/-- The session log is there and takes the `n`th write. -/
def Takes (n : Nat) : Prop := cfg.sessionLogPath ≠ none ∧ env.appendError n = none

/-- The column of the test id. -/
def idSize : Nat := size (cfg.testId.take sessionIdWidth) + (sessionIdWidth - cfg.testId.length)

/-- What is shown of an output: two characters and a line end go to each line. -/
def shownSize (text : Txt) : Nat :=
  ((splitlines (text.take sessionOutputCap)).map fun ln => size ln + 3).sum +
    if sessionOutputCap < text.length then
      (showNat (text.length - sessionOutputCap)).length + 20
    else 0

def OutputFits (n : Nat) (text : Txt) : Prop :=
  text ≠ [] → Takes cfg env n → size (env.ts n) + idSize cfg + shownSize text ≤ 4088

/-- The parts of a line that have no cap, or one in characters, leave room for the others. -/
def Fits : Call → Prop
  | .cmdStart cmd =>
    Takes cfg env 0 → size (env.ts 0) + idSize cfg + size cfg.nodeLabel + size cmd ≤ 4084
  | .cmdEnd stdout stderr exitCode =>
    (Takes cfg env 0 → size (env.ts 0) + idSize cfg + (showInt exitCode).length ≤ 4082) ∧
      OutputFits cfg env 1 (rstrip stdout) ∧ OutputFits cfg env 2 (rstrip stderr)
  | .info _ | .warning _ => True
  | .event kind detail =>
    Takes cfg env 0 →
      size kind + (6 - kind.length) + size (env.ts 0) + idSize cfg + size detail ≤ 4093

end

/-! ## Sizes -/

@[simp] theorem size_nil : size [] = 0 := rfl

@[simp] theorem size_append (a b : Txt) : size (a ++ b) = size a + size b := by
  simp [size, Utf8.encode]

theorem size_cons (c : Char) (t : Txt) : size (c :: t) = size [c] + size t :=
  size_append [c] t

theorem size_space (t : Txt) : size (' ' :: t) = 1 + size t := size_cons ' ' t

theorem size_newline (t : Txt) : size ('\n' :: t) = 1 + size t := size_cons '\n' t

theorem size_replicate (n : Nat) (c : Char) : size (List.replicate n c) = n * size [c] := by
  induction n with
  | zero => rw [Nat.zero_mul]; rfl
  | succ n ih => rw [List.replicate_succ, size_cons, ih, Nat.succ_mul, Nat.add_comm]

theorem size_padRight (n : Nat) (t : Txt) : size (padRight n t) = size t + (n - t.length) := by
  have hspaces : Utf8.IsAscii (List.replicate (n - t.length) ' ') := by
    intro c hc
    rw [List.eq_of_mem_replicate hc]
    decide
  rw [padRight, size_append, size, size, Utf8.length_encode_ascii hspaces, List.length_replicate]

theorem size_sessionId (cfg : Config) : size (sessionId cfg) = idSize cfg := by
  unfold sessionId idSize
  rw [size_padRight, List.length_take]
  omega

theorem ascii_showNat (n : Nat) : Utf8.IsAscii (showNat n) := by
  intro c hc
  have hdigit := isDigit_of_mem_showNat hc
  unfold Char.isDigit at hdigit
  simp only [Bool.and_eq_true, decide_eq_true_eq, UInt32.le_iff_toNat_le] at hdigit
  exact Nat.lt_of_le_of_lt hdigit.2 (by decide)

theorem size_showInt (i : Int) : size (showInt i) = (showInt i).length := by
  apply Utf8.length_encode_ascii
  cases i with
  | ofNat n => exact ascii_showNat n
  | negSucc n =>
    intro c hc
    rcases List.mem_cons.mp hc with rfl | hc
    · decide
    · exact ascii_showNat (n + 1) c hc

theorem splitlinesFrom_ne_nil (t : Txt) : ∀ cur, t ≠ [] ∨ cur ≠ [] → splitlinesFrom t cur ≠ [] := by
  intro cur
  fun_induction splitlinesFrom t cur with
  | case1 => simp
  | case2 => simp
  | case3 => simp
  | case4 => simp
  | case5 c cs cur _ _ ih => exact fun _ => ih (Or.inr (List.cons_ne_nil c cur))

/-- Two spaces before each line, and a line end between two. -/
theorem size_indented {ls : List Txt} (h : ls ≠ []) :
    size (['\n'].intercalate (ls.map fun ln => "  ".toList ++ ln)) + 1 =
      (ls.map fun ln => size ln + 3).sum := by
  induction ls with
  | nil => exact absurd rfl h
  | cons l ls ih =>
    have hline : size ("  ".toList ++ l) = size l + 2 := by
      rw [size_append, Nat.add_comm]
      rfl
    by_cases hnil : ls = []
    · subst hnil
      rw [List.map_singleton, List.map_singleton, List.intercalate_singleton, hline,
        List.sum_singleton]
    · have hmap : (ls.map fun ln => "  ".toList ++ ln) ≠ [] := mt List.map_eq_nil_iff.mp hnil
      rw [List.map_cons, List.map_cons, Collections.intercalate_cons '\n' _ hmap, size_append,
        size_newline, hline, List.sum_cons, ← ih hnil]
      omega

/-! ## The writes -/

section

variable {cfg : Config} {env : Env}

theorem append_iff {n : Nat} {line : Txt} :
    (∀ p l, .append p l ∈ sessionAppend cfg env n line → size l ≤ atomicSize) ↔
      (Takes cfg env n → size line ≤ atomicSize) := by
  unfold sessionAppend Takes
  cases hpath : cfg.sessionLogPath with
  | none => simp
  | some p =>
    cases herr : env.appendError n with
    | none => simp
    | some e => simp

/-- The lines that are written for an output. -/
theorem output_iff {n : Nat} {kind text : Txt} (hkind : size kind + (6 - kind.length) = 6) :
    (∀ p l, .append p l ∈ sessionAppendOutput cfg env n kind text → size l ≤ atomicSize) ↔
      OutputFits cfg env n text := by
  unfold sessionAppendOutput OutputFits
  by_cases hnil : text = []
  · rw [if_pos (Or.inr hnil)]
    simp [hnil]
  · by_cases hpath : cfg.sessionLogPath = none
    · rw [if_pos (Or.inl hpath)]
      simp [Takes, hpath]
    · rw [if_neg (not_or.mpr ⟨hpath, hnil⟩)]
      have hlines : splitlines (text.take sessionOutputCap) ≠ [] := by
        refine splitlinesFrom_ne_nil _ [] (Or.inl fun h => ?_)
        rw [List.take_eq_nil_iff] at h
        exact h.elim (by decide) hnil
      have hindented := size_indented hlines
      have hcut : size (if sessionOutputCap < text.length then
          "\n  [+".toList ++ showNat (text.length - sessionOutputCap) ++ " chars omitted]".toList
        else []) = if sessionOutputCap < text.length then
          (showNat (text.length - sessionOutputCap)).length + 20 else 0 := by
        split
        · have hfirst : size "\n  [+".toList = 5 := by decide
          have hlast : size " chars omitted]".toList = 15 := by decide
          rw [size_append, size_append, hfirst, hlast, size,
            Utf8.length_encode_ascii (ascii_showNat _)]
          omega
        · rfl
      rw [append_iff, imp_iff_right hnil]
      refine imp_congr_right fun _ => ?_
      unfold shownSize atomicSize
      rw [← hindented]
      simp only [size_append, size_padRight, hkind, size_space, size_newline, size_sessionId, hcut,
        size_nil]
      omega

theorem atomic_cmdStart {cmd : Txt} :
    Atomic cfg env (.cmdStart cmd) ↔ Fits cfg env (.cmdStart cmd) := by
  unfold Atomic
  have hcmd : size "CMD   ".toList = 6 := by decide
  have hdollar : size " $ ".toList = 3 := by decide
  simp only [Call.acts, List.mem_cons, reduceCtorEq, false_or, append_iff, Fits]
  refine imp_congr_right fun _ => ?_
  simp only [size_append, size_space, size_newline, size_sessionId, hcmd, hdollar, size_nil,
    atomicSize]
  omega

theorem atomic_cmdEnd {stdout stderr : Txt} {exitCode : Int} :
    Atomic cfg env (.cmdEnd stdout stderr exitCode) ↔
      Fits cfg env (.cmdEnd stdout stderr exitCode) := by
  unfold Atomic
  have hend : size "END   ".toList = 6 := by decide
  have hexit : size " exit=".toList = 6 := by decide
  simp only [Call.acts, List.mem_append, or_imp, forall_and, append_iff, Fits]
  rw [output_iff (by decide), output_iff (by decide)]
  have hrecord (t : Txt) (act : Act) (hact : ∀ p line, act ≠ .append p line) :
      ∀ p line, .append p line ∈ (if t = [] then [] else [act]) → size line ≤ atomicSize := by
    intro p line h
    split at h
    · cases h
    · exact absurd (List.mem_singleton.mp h).symm (hact p line)
  have hend_iff : size ("END   ".toList ++ env.ts 0 ++ ' ' :: sessionId cfg ++
      " exit=".toList ++ showInt exitCode ++ ['\n']) ≤ atomicSize ↔
        size (env.ts 0) + idSize cfg + (showInt exitCode).length ≤ 4082 := by
    simp only [size_append, size_space, size_newline, size_sessionId, size_showInt, hend, hexit,
      size_nil, atomicSize]
    omega
  rw [hend_iff]
  constructor
  · exact fun h => ⟨h.1.1.2, h.1.2, h.2⟩
  · exact fun h => ⟨⟨⟨⟨hrecord _ _ fun _ _ => Act.noConfusion,
      hrecord _ _ fun _ _ => Act.noConfusion⟩, h.1⟩, h.2.1⟩, h.2.2⟩

theorem atomic_event {kind detail : Txt} :
    Atomic cfg env (.event kind detail) ↔ Fits cfg env (.event kind detail) := by
  unfold Atomic
  simp only [Call.acts, append_iff, Fits]
  refine imp_congr_right fun _ => ?_
  simp only [size_append, size_padRight, size_space, size_newline, size_sessionId, size_nil,
    atomicSize]
  omega

/-- A call writes in one piece exactly when the parts of its lines leave room for each other. -/
theorem atomic_iff (cfg : Config) (env : Env) (c : Call) :
    Atomic cfg env c ↔ Fits cfg env c := by
  cases c with
  | cmdStart cmd => exact atomic_cmdStart
  | cmdEnd stdout stderr exitCode => exact atomic_cmdEnd
  | info msg => simp [Atomic, Call.acts, Fits]
  | warning msg => simp [Atomic, Call.acts, Fits]
  | event kind detail => exact atomic_event

end

/-- A command of 4096 letters, and an output of 3800 characters of three bytes each. -/
theorem not_atomic_long :
    let cfg : Config := ⟨"t".toList, "n".toList, "g".toList, none, some "session.log".toList⟩
    let env : Env := ⟨fun _ => "12:00:00.000".toList, fun _ => [], fun _ => none⟩
    ¬ Atomic cfg env (.cmdStart (List.replicate 4096 'x')) ∧
      ¬ Atomic cfg env (.cmdEnd (List.replicate 3800 '→') [] 0) := by
  intro cfg env
  have htakes (n : Nat) : Takes cfg env n := ⟨Option.some_ne_none _, rfl⟩
  have hx : size ['x'] = 1 := by decide
  have harrow : size ['→'] = 3 := by decide
  constructor
  · intro h
    have hsize := atomic_cmdStart.mp h (htakes 0)
    rw [size_replicate, hx] at hsize
    omega
  · intro h
    have hstrip : rstrip (List.replicate 3800 '→') = List.replicate 3800 '→' := by
      rw [rstrip, List.rdropWhile_eq_self_iff]
      intro hne
      rw [List.eq_of_mem_replicate (List.getLast_mem hne)]
      decide
    have hline : IsLine (List.replicate 3800 '→') := by
      intro c hc
      rw [List.eq_of_mem_replicate hc]
      decide
    have hne : List.replicate 3800 '→' ≠ [] := by
      apply List.ne_nil_of_length_pos
      rw [List.length_replicate]
      omega
    have hout := (atomic_cmdEnd.mp h).2.1
    rw [hstrip] at hout
    have hsize := hout hne (htakes 1)
    rw [shownSize, List.take_of_length_le (by rw [List.length_replicate]; exact Nat.le_refl _),
      splitlines_line hline hne, List.map_singleton, List.sum_singleton, size_replicate,
      harrow] at hsize
    omega

end Logging
end RocmTests
