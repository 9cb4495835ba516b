import RocmTests.Text.Numeral

/-!
# `env` and `timeout`

Both programs are given a command among their arguments, change something about the
process and become that command.  `resolve` is what running an argument list comes to
in the end: the changes to the environment in the order they are made, the limit on
the running time, and the arguments of the program that is left.

An invocation that is not of the form read here, such as one with other options or
without a command, is a program like any other.
-/

namespace RocmTests
namespace Shell

open Text

/-- A variable and its value, or nothing for a variable that is taken away. -/
abbrev Change := Txt × Option Txt

abbrev Env := Txt → Option Txt

namespace Env

def apply (e : Env) (changes : List Change) : Env :=
  changes.foldl (fun e p => Function.update e p.1 p.2) e

@[simp] theorem apply_nil (e : Env) : e.apply [] = e := rfl

@[simp] theorem apply_cons (e : Env) (p : Change) (changes : List Change) :
    e.apply (p :: changes) = apply (Function.update e p.1 p.2) changes := rfl

@[simp] theorem apply_append (e : Env) (changes changes' : List Change) :
    e.apply (changes ++ changes') = (e.apply changes).apply changes' :=
  List.foldl_append ..

/-- The environment without the variables `vs`. -/
def without (vs : List Txt) (e : Env) : Env := fun v => if v ∈ vs then none else e v

@[simp] theorem without_of_mem {vs : List Txt} {v : Txt} (h : v ∈ vs) (e : Env) :
    e.without vs v = none := if_pos h

theorem without_update (vs : List Txt) (e : Env) (v : Txt) (x : Option Txt) :
    without vs (Function.update e v x) =
      without vs (Function.update (e.without vs) v x) := by
  funext u
  by_cases hu : u ∈ vs
  · rw [without_of_mem hu, without_of_mem hu]
  · simp only [without, if_neg hu, Function.update_apply]

/-- What changes leave outside `vs` depends only on what was there outside `vs`. -/
theorem without_apply (vs : List Txt) (changes : List Change) : ∀ e : Env,
    without vs (e.apply changes) = without vs ((e.without vs).apply changes) := by
  induction changes with
  | nil =>
    intro e
    funext u
    by_cases hu : u ∈ vs <;> simp [without, hu]
  | cons p changes ih =>
    intro e
    rw [apply_cons, apply_cons, ih, without_update, ← ih]

end Env

/-! ## One wrapper -/

/-- An operand of `env` that assigns a variable. -/
def assignment (w : Txt) : Change :=
  (w.takeWhile (· ≠ '='), some (w.dropWhile (· ≠ '=')).tail)

def envName : Txt := ['e', 'n', 'v']

def timeoutName : Txt := ['t', 'i', 'm', 'e', 'o', 'u', 't']

def unsetOption : Txt := ['-', 'u']

/-- The options `-u NAME` of `env`, and what follows them. -/
def envOptions : List Txt → List Change × List Txt
  | w :: v :: ws =>
    if w = unsetOption then ((v, none) :: (envOptions ws).1, (envOptions ws).2)
    else ([], w :: v :: ws)
  | ws => ([], ws)

/-- The operands of `env` that assign variables, and what follows them. -/
def envAssignments : List Txt → List Change × List Txt
  | [] => ([], [])
  | w :: ws =>
    if '=' ∈ w then (assignment w :: (envAssignments ws).1, (envAssignments ws).2)
    else ([], w :: ws)

def isOption (w : Txt) : Bool := w.head? = some '-'

/-- The limit that `timeout` is given.  Zero is none. -/
def durationLimit (n : Txt) : Option Nat :=
  match Markers.parseDigits n 0 false with
  | some 0 => none
  | limit => limit

/-- One wrapper taken away: what it changes, its limit and the command it becomes. -/
def peel : List Txt → Option (List Change × Option Nat × List Txt)
  | [] => none
  | w :: ws =>
    if w = envName then
      let (unset, rest) := envOptions ws
      if rest.head?.any isOption then none
      else
        let (set, command) := envAssignments rest
        if command = [] then none else some (unset ++ set, none, command)
    else if w = timeoutName then
      match ws with
      | n :: command =>
        if n ≠ [] ∧ n.all Char.isDigit ∧ command ≠ [] then
          some ([], durationLimit n, command)
        else none
      | [] => none
    else none

theorem length_envOptions (ws : List Txt) : (envOptions ws).2.length ≤ ws.length := by
  fun_induction envOptions ws with
  | case1 v ws ih => exact ih.trans (by simp only [List.length_cons]; omega)
  | case2 w v ws h => exact Nat.le_refl _
  | case3 ws h => exact Nat.le_refl _

theorem length_envAssignments (ws : List Txt) : (envAssignments ws).2.length ≤ ws.length := by
  fun_induction envAssignments ws with
  | case1 => exact Nat.le_refl _
  | case2 w ws h ih => exact ih.trans (Nat.le_succ _)
  | case3 w ws h => exact Nat.le_refl _

theorem length_peel {argv command : List Txt} {changes : List Change} {limit : Option Nat}
    (h : peel argv = some (changes, limit, command)) : command.length < argv.length := by
  cases argv with
  | nil => cases h
  | cons w ws =>
    simp only [peel] at h
    split_ifs at h with henv hoption hcommand htimeout
    · simp only [Option.some.injEq, Prod.mk.injEq] at h
      rw [← h.2.2]
      have hle := (length_envAssignments (envOptions ws).2).trans (length_envOptions ws)
      exact Nat.lt_succ_of_le hle
    · cases ws with
      | nil => cases h
      | cons n rest =>
        simp only at h
        split_ifs at h
        simp only [Option.some.injEq, Prod.mk.injEq] at h
        rw [← h.2.2]
        simp

theorem envAssignments_append {ws : List Txt} (h : ∀ w ∈ ws, '=' ∈ w) (rest : List Txt) :
    envAssignments (ws ++ rest) =
      (ws.map assignment ++ (envAssignments rest).1, (envAssignments rest).2) := by
  induction ws with
  | nil => rfl
  | cons w ws ih =>
    rw [List.cons_append, envAssignments, if_pos (h w (.head _)), ih fun v hv => h v (.tail _ hv)]
    rfl

theorem envAssignments_of_command {w : Txt} (hw : '=' ∉ w) (ws : List Txt) :
    envAssignments (w :: ws) = ([], w :: ws) := if_neg hw

theorem envOptions_of_command {rest : List Txt} (h : rest.head?.any isOption = false) :
    envOptions rest = ([], rest) := by
  match rest with
  | [] => rfl
  | [w] => rfl
  | w :: v :: ws =>
    rw [envOptions, if_neg]
    rintro rfl
    cases h

/-- `env` with assignments and a command that is neither an option nor an assignment. -/
theorem peel_env {ws command : List Txt} {unset : List Change} {rest : List Txt}
    (hunset : envOptions ws = (unset, rest)) (hoption : rest.head?.any isOption = false)
    {sets : List Change} (hsets : envAssignments rest = (sets, command)) (hne : command ≠ []) :
    peel (envName :: ws) = some (unset ++ sets, none, command) := by
  simp only [peel, if_true, hunset, hoption, hsets, if_neg hne, Bool.false_eq_true, if_false]

theorem peel_timeout {n : Txt} (hn : n ≠ []) (hdigits : n.all Char.isDigit = true)
    {command : List Txt} (hne : command ≠ []) :
    peel (timeoutName :: n :: command) = some ([], durationLimit n, command) := by
  have hname : timeoutName ≠ envName := by decide
  simp only [peel, if_neg hname, if_true, hn, hdigits, hne, ne_eq, not_false_eq_true, and_self]

theorem peel_of_program {w : Txt} (henv : w ≠ envName) (htimeout : w ≠ timeoutName)
    (ws : List Txt) : peel (w :: ws) = none := by
  simp only [peel, if_neg henv, if_neg htimeout]

/-! ## All of them -/

structure Launch where
  changes : List Change
  limit : Option Nat
  argv : List Txt
deriving DecidableEq

/-- The tighter of two limits. -/
def tighter : Option Nat → Option Nat → Option Nat
  | none, b => b
  | a, none => a
  | some a, some b => some (min a b)

@[simp] theorem tighter_none_left (b : Option Nat) : tighter none b = b := by cases b <;> rfl

def resolveWithin : Nat → List Txt → Launch
  | 0, argv => ⟨[], none, argv⟩
  | fuel + 1, argv =>
    match peel argv with
    | none => ⟨[], none, argv⟩
    | some (changes, limit, command) =>
      let l := resolveWithin fuel command
      ⟨changes ++ l.changes, tighter limit l.limit, l.argv⟩

/-- Every wrapper takes an argument, so that there are no more of them than arguments. -/
def resolve (argv : List Txt) : Launch := resolveWithin argv.length argv

theorem resolveWithin_eq {fuel fuel' : Nat} {argv : List Txt} (h : argv.length ≤ fuel)
    (h' : argv.length ≤ fuel') : resolveWithin fuel argv = resolveWithin fuel' argv := by
  induction fuel generalizing fuel' argv with
  | zero =>
    rw [List.length_eq_zero_iff.mp (Nat.le_zero.mp h)]
    cases fuel' <;> rfl
  | succ fuel ih =>
    cases fuel' with
    | zero =>
      rw [List.length_eq_zero_iff.mp (Nat.le_zero.mp h')]
      rfl
    | succ fuel' =>
      rw [resolveWithin, resolveWithin]
      cases hpeel : peel argv with
      | none => rfl
      | some p =>
        have hlt : p.2.2.length < argv.length := length_peel hpeel
        simp only [ih (Nat.le_of_lt_succ (hlt.trans_le h)) (Nat.le_of_lt_succ (hlt.trans_le h'))]

theorem resolve_of_peel {argv command : List Txt} {changes : List Change} {limit : Option Nat}
    (h : peel argv = some (changes, limit, command)) :
    resolve argv = ⟨changes ++ (resolve command).changes, tighter limit (resolve command).limit,
      (resolve command).argv⟩ := by
  have hlt := length_peel h
  obtain ⟨fuel, hfuel⟩ : ∃ fuel, argv.length = fuel + 1 := ⟨argv.length - 1, by omega⟩
  rw [resolve, hfuel, resolveWithin, h]
  simp only [resolveWithin_eq (Nat.le_of_lt_succ (hfuel ▸ hlt)) (Nat.le_refl _)]
  rfl

theorem resolve_of_not_peel {argv : List Txt} (h : peel argv = none) :
    resolve argv = ⟨[], none, argv⟩ := by
  cases argv with
  | nil => rfl
  | cons w ws => rw [resolve, List.length_cons, resolveWithin, h]

theorem length_resolve_le (argv : List Txt) : (resolve argv).argv.length ≤ argv.length := by
  induction hn : argv.length using Nat.strongRecOn generalizing argv with
  | ind n ih =>
    cases hpeel : peel argv with
    | none => rw [resolve_of_not_peel hpeel, hn]
    | some p =>
      obtain ⟨changes, limit, command⟩ := p
      have hlt := length_peel hpeel
      rw [resolve_of_peel hpeel]
      exact (ih _ (hn ▸ hlt) _ rfl).trans (hn ▸ hlt.le)

end Shell
end RocmTests
