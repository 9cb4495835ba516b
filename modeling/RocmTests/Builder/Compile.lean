import RocmTests.Conc.History

/-!
# `BinaryBuilder.compile` on one output path

Workers take turns on a source file and the binary made from it; between their
calls the source and the headers may be edited.  A call looks at two
modification times and either returns at once or runs the compiler.  The clock
never goes back, and a file that is written carries the time of the write.

The lock is held for the whole of a call, so calls do not overlap.  What the
compiler prints is left out, and so is the remote path, which compiles every
time.
-/

namespace RocmTests
namespace Builder
namespace Compile

open Conc

structure File (α : Type) where
  content : α
  mtime : Nat
deriving DecidableEq

/-- What a compiler run left at the output path.  `whole` is whether the run
ended with success. -/
structure Binary (Source Headers : Type) where
  source : Source
  headers : Headers
  cmd : List String
  whole : Bool
deriving DecidableEq

/-- The files and the clock. -/
structure World (Source Headers : Type) where
  clock : Nat
  source : File Source
  headers : Headers
  binary : Option (File (Binary Source Headers))

/-- The arguments of a call. -/
structure Call where
  hipcc : Option String := none
  rocmDir : Option String := none
  std : String := "c++17"
  opt : String := "-O2"
  arch : Option String := none
  includeDirs : Option (List String) := none
  extraFlags : Option (List String) := none

inductive CompileError where
  | lockTimeout
  | noCompiler
  | twoCompilers
  | typeError
  | timedOut
  | stalled
  | failed (rc : Int)
  | interrupted
deriving DecidableEq, Repr

/-- How the compiler process ended. -/
inductive Exit where
  | exited (rc : Int)
  | timedOut
  | stalled
  | interrupted
deriving DecidableEq, Repr

/-- What a run that did not succeed did to the output file. -/
inductive Effect where
  | kept
  | removed
  | wrote
deriving DecidableEq, Repr

/-- The choices of the environment in one call. -/
structure Env where
  locked : Bool := true
  exit : Exit := .exited 0
  effect : Effect := .kept
  duration : Nat := 1

/-- How a call returned. -/
inductive Returned where
  | upToDate
  | compiled
deriving DecidableEq, Repr

variable {Source Headers : Type}

/-- `os.path.join(dir, "bin", "hipcc")`. -/
def hipccIn (dir : String) : String :=
  if dir = "" ∨ dir.endsWith "/" then dir ++ "bin/hipcc" else dir ++ "/bin/hipcc"

/-- `_build_cmd`.  An empty `hipcc` counts as absent only after the two checks. -/
def buildCmd (src output : String) (c : Call) : Except CompileError (List String) :=
  let cmd (hipcc : String) : List String :=
    [hipcc, src, "-std=" ++ c.std, c.opt] ++
      (c.includeDirs.getD []).flatMap (fun d => ["-I", d]) ++
      (match c.arch with
      | some arch => if arch = "" then [] else ["--offload-arch=" ++ arch]
      | none => []) ++
      c.extraFlags.getD [] ++ ["-o", output]
  match c.hipcc, c.rocmDir with
  | none, none => .error .noCompiler
  | some _, some _ => .error .twoCompilers
  | some hipcc, none => if hipcc = "" then .error .typeError else .ok (cmd hipcc)
  | none, some rocmDir => .ok (cmd (hipccIn rocmDir))

/-- `_is_up_to_date`. -/
def isUpToDate (w : World Source Headers) : Bool :=
  match w.binary with
  | none => false
  | some b => w.source.mtime < b.mtime

def exitError : Exit → Option CompileError
  | .exited rc => if rc = 0 then none else some (.failed rc)
  | .timedOut => some .timedOut
  | .stalled => some .stalled
  | .interrupted => some .interrupted

/-- `_stream_compile`: the compiler reads the source and headers as they are, and
what it writes carries the time at which it ends. -/
def streamCompile (cmd : List String) (e : Env) (w : World Source Headers) :
    Except CompileError Returned × World Source Headers :=
  let now := w.clock + e.duration
  let written (whole : Bool) : Option (File (Binary Source Headers)) :=
    some ⟨⟨w.source.content, w.headers, cmd, whole⟩, now⟩
  match exitError e.exit with
  | none => (.ok .compiled, { w with clock := now, binary := written true })
  | some error =>
    (.error error, { w with
      clock := now
      binary := match e.effect with
        | .kept => w.binary
        | .removed => none
        | .wrote => written false })

/-- `BinaryBuilder.compile`. -/
def compile (src output : String) (c : Call) (e : Env) (w : World Source Headers) :
    Except CompileError Returned × World Source Headers :=
  if e.locked then
    if isUpToDate w then (.ok .upToDate, w)
    else
      match buildCmd src output c with
      | .error error => (.error error, w)
      | .ok cmd => streamCompile cmd e w
  else (.error .lockTimeout, w)

/-! ## Histories -/

/-- What happens to the files, each after a delay. -/
inductive Event (Source Headers : Type) where
  | edit (content : Source)
  | editHeaders (headers : Headers)
  | call (c : Call) (e : Env)

def apply (src output : String) (l : Nat × Event Source Headers) (w : World Source Headers) :
    World Source Headers :=
  let w := { w with clock := w.clock + l.1 }
  match l.2 with
  | .edit content => { w with source := ⟨content, w.clock⟩ }
  | .editHeaders headers => { w with headers }
  | .call c e => (compile src output c e w).2

/-- Before the first call there is a source and no binary. -/
def World.start (source : Source) (headers : Headers) : World Source Headers :=
  ⟨0, ⟨source, 0⟩, headers, none⟩

/-- Nothing is newer than the clock, and a binary newer than the source was made
from it. -/
structure Consistent (w : World Source Headers) : Prop where
  source_le : w.source.mtime ≤ w.clock
  binary_le : ∀ b, w.binary = some b → b.mtime ≤ w.clock
  made : ∀ b, w.binary = some b → w.source.mtime < b.mtime → b.content.source = w.source.content

theorem Consistent.wait {w : World Source Headers} (h : Consistent w) (n : Nat) :
    Consistent { w with clock := w.clock + n } where
  source_le := Nat.le_add_right_of_le h.source_le
  binary_le b hb := Nat.le_add_right_of_le (h.binary_le b hb)
  made := h.made

/-- An edit makes the source at least as new as any binary. -/
theorem Consistent.edit {w : World Source Headers} (h : Consistent w) (content : Source) :
    Consistent { w with source := ⟨content, w.clock⟩ } where
  source_le := Nat.le_refl _
  binary_le := h.binary_le
  made b hb hlt := by
    have hle := h.binary_le b hb
    have hlt' : w.clock < b.mtime := hlt
    omega

theorem Consistent.streamCompile {w : World Source Headers} (h : Consistent w) (cmd : List String)
    (e : Env) : Consistent (streamCompile cmd e w).2 := by
  have hwait := h.wait e.duration
  unfold Compile.streamCompile
  cases exitError e.exit with
  | none =>
    refine ⟨hwait.source_le, fun b hb => ?_, fun b hb _ => ?_⟩
    · cases hb
      exact Nat.le_refl _
    · cases hb
      rfl
  | some error =>
    cases he : e.effect with
    | kept => exact hwait
    | removed =>
      refine ⟨hwait.source_le, fun b hb => ?_, fun b hb _ => ?_⟩
      · cases hb
      · cases hb
    | wrote =>
      refine ⟨hwait.source_le, fun b hb => ?_, fun b hb _ => ?_⟩
      · cases hb
        exact Nat.le_refl _
      · cases hb
        rfl

theorem Consistent.compile {w : World Source Headers} (h : Consistent w) (src output : String)
    (c : Call) (e : Env) : Consistent (compile src output c e w).2 := by
  unfold Compile.compile
  split
  · split
    · exact h
    · split
      · exact h
      · exact h.streamCompile _ e
  · exact h

theorem consistent_reached {src output : String} {source : Source} {headers : Headers}
    {w : World Source Headers}
    (h : Reached (apply src output) (fun _ _ => True) (World.start source headers) w) :
    Consistent w := by
  refine h.invariant (I := Consistent) ?_ ?_
  · refine ⟨Nat.le_refl _, fun b hb => ?_, fun b hb => ?_⟩
    · cases hb
    · cases hb
  · intro w l hw _
    have hwait := hw.wait l.1
    obtain ⟨n, event⟩ := l
    cases event with
    | edit content => exact hwait.edit content
    | editHeaders headers => exact ⟨hwait.source_le, hwait.binary_le, hwait.made⟩
    | call c e => exact hwait.compile src output c e

/-- A compiler run that fails and writes the output all the same. -/
def Event.Spoils : Event Source Headers → Prop
  | .call _ e => exitError e.exit ≠ none ∧ e.effect = .wrote
  | _ => False

/-- The binary is from a run that succeeded. -/
def Whole (w : World Source Headers) : Prop := ∀ b, w.binary = some b → b.content.whole = true

theorem Whole.streamCompile {w : World Source Headers} (h : Whole w) (cmd : List String) {e : Env}
    (hnot : ¬ (exitError e.exit ≠ none ∧ e.effect = .wrote)) :
    Whole (streamCompile cmd e w).2 := by
  unfold Compile.streamCompile
  cases hexit : exitError e.exit with
  | none =>
    intro b hb
    cases hb
    rfl
  | some error =>
    have hne : exitError e.exit ≠ none := by
      rw [hexit]
      exact Option.some_ne_none error
    cases he : e.effect with
    | kept => exact h
    | removed =>
      intro b hb
      cases hb
    | wrote => exact absurd ⟨hne, he⟩ hnot

theorem whole_reached {src output : String} {source : Source} {headers : Headers}
    {w : World Source Headers}
    (h : Reached (apply src output) (fun _ l => ¬ l.2.Spoils) (World.start source headers) w) :
    Whole w := by
  refine h.invariant (I := Whole) (fun b hb => by cases hb) ?_
  intro w l hw hnot
  obtain ⟨n, event⟩ := l
  cases event with
  | edit content => exact hw
  | editHeaders headers => exact hw
  | call c e =>
    have hwait : Whole { w with clock := w.clock + n } := hw
    show Whole (compile src output c e { w with clock := w.clock + n }).2
    unfold compile
    split
    · split
      · exact hwait
      · split
        · exact hwait
        · exact hwait.streamCompile _ hnot
    · exact hwait

/-- In every history, a call that returns leaves a binary made from the current
source: by its own run, with its own command, or by an earlier one when the call
found the binary newer than the source and left it alone.  The earlier run succeeded,
unless one that failed has written the output. -/
theorem compile_leaves_current_source {src output : String} {source : Source} {headers : Headers}
    {w : World Source Headers}
    (h : Reached (apply src output) (fun _ _ => True) (World.start source headers) w)
    (c : Call) (e : Env) (kind : Returned) (hret : (compile src output c e w).1 = .ok kind) :
    (compile src output c e w).2.source = w.source ∧
      ∃ b, (compile src output c e w).2.binary = some b ∧ b.content.source = w.source.content ∧
        (kind = .compiled → buildCmd src output c = .ok b.content.cmd ∧
          b.content.headers = w.headers ∧ b.content.whole = true) ∧
        (kind = .upToDate → w.binary = some b ∧ w.source.mtime < b.mtime) ∧
        (Reached (apply src output) (fun _ l => ¬ l.2.Spoils) (World.start source headers) w →
          b.content.whole = true) := by
  have hw := consistent_reached h
  unfold compile at hret ⊢
  cases hlocked : e.locked with
  | false =>
    rw [hlocked] at hret
    cases hret
  | true =>
    rw [hlocked, if_pos rfl] at hret
    rw [if_pos rfl]
    by_cases hnew : isUpToDate w = true
    · rw [if_pos hnew] at hret ⊢
      cases hret
      unfold isUpToDate at hnew
      cases hb : w.binary with
      | none =>
        rw [hb] at hnew
        cases hnew
      | some b =>
        rw [hb] at hnew
        have hlt : w.source.mtime < b.mtime := of_decide_eq_true hnew
        refine ⟨rfl, b, rfl, hw.made b hb hlt, ?_, fun _ => ⟨rfl, hlt⟩,
          fun hreached => whole_reached hreached b hb⟩
        intro hk
        cases hk
    · rw [if_neg hnew] at hret ⊢
      cases hcmd : buildCmd src output c with
      | error error =>
        rw [hcmd] at hret
        cases hret
      | ok cmd =>
        rw [hcmd] at hret
        simp only at hret ⊢
        unfold streamCompile at hret ⊢
        cases hexit : exitError e.exit with
        | some error =>
          rw [hexit] at hret
          cases hret
        | none =>
          rw [hexit] at hret
          cases hret
          refine ⟨rfl, _, rfl, rfl, fun _ => ⟨rfl, rfl, rfl⟩, ?_, fun _ => rfl⟩
          intro hk
          cases hk

/-! ## A call with other flags -/

def rocmCall (std : String) : Call := { rocmDir := some "/opt/rocm", std }

/-- The world after a first call. -/
def afterFirstCall : World String Unit :=
  apply "a.cpp" "a.out" (1, .call (rocmCall "c++17") {}) (World.start "int main() { return 0; }" ())

theorem compile_leaves_current_source_second_call :
    (compile "a.cpp" "a.out" (rocmCall "c++20") {} afterFirstCall).2.source =
        afterFirstCall.source ∧
      ∃ b, (compile "a.cpp" "a.out" (rocmCall "c++20") {} afterFirstCall).2.binary = some b ∧
        b.content.source = afterFirstCall.source.content ∧
        (Returned.upToDate = .compiled → buildCmd "a.cpp" "a.out" (rocmCall "c++20") =
          .ok b.content.cmd ∧ b.content.headers = afterFirstCall.headers ∧
            b.content.whole = true) ∧
        (Returned.upToDate = .upToDate → afterFirstCall.binary = some b ∧
          afterFirstCall.source.mtime < b.mtime) ∧
        (Reached (apply "a.cpp" "a.out") (fun _ l => ¬ l.2.Spoils)
          (World.start "int main() { return 0; }" ()) afterFirstCall → b.content.whole = true) :=
  compile_leaves_current_source (.step .start trivial) (rocmCall "c++20") {} .upToDate rfl

/-- The second call asks for another standard and returns the binary of the
first. -/
theorem compile_keeps_other_flags :
    Reached (apply "a.cpp" "a.out") (fun _ _ => True) (World.start "int main() { return 0; }" ())
        afterFirstCall ∧
      (compile "a.cpp" "a.out" (rocmCall "c++20") {} afterFirstCall).1 = .ok .upToDate ∧
      ∃ b, (compile "a.cpp" "a.out" (rocmCall "c++20") {} afterFirstCall).2.binary = some b ∧
        buildCmd "a.cpp" "a.out" (rocmCall "c++20") ≠ .ok b.content.cmd := by
  refine ⟨.step .start trivial, rfl, _, rfl, ?_⟩
  intro h
  have hcmd : buildCmd "a.cpp" "a.out" (rocmCall "c++20") =
      buildCmd "a.cpp" "a.out" (rocmCall "c++17") := h
  simp [buildCmd, rocmCall] at hcmd

end Compile
end Builder
end RocmTests
