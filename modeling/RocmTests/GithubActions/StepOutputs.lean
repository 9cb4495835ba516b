import RocmTests.Text.Lines

/-!
# The outputs of a step

`gha_set_output` appends a line `name=value` for each output.  The runner reads the file
by rules of its own, which also know values of several lines.
-/

namespace RocmTests
namespace GithubActions

open Text

/-- Names and values, each name of which has the value it was given last. -/
abbrev Outputs := List (Txt × Txt)

def Outputs.value (vars : Outputs) (name : Txt) : Option Txt := vars.reverse.lookup name

/-! ## Writing -/

def outputLine (k v : Txt) : Txt := k ++ '=' :: v

/-- What `gha_set_output` appends. -/
def outputText (vars : Outputs) : Txt := unlines (vars.map fun p => outputLine p.1 p.2)

/-- `gha_set_output`: the file that `$GITHUB_OUTPUT` names, afterwards. -/
def ghaSetOutput (vars : Outputs) (stepOutputFile : Option Txt) : Option Txt :=
  stepOutputFile.map (· ++ outputText vars)

/-! ## Reading -/

inductive Statement where
  | assign (name value : Txt)
  | heredoc (name delimiter : Txt)
  | bad

/-- Before the first `<<`, and after it. -/
def cutHeredoc : Txt → Option (Txt × Txt)
  | '<' :: '<' :: delimiter => some ([], delimiter)
  | c :: cs => (cutHeredoc cs).map fun p => (c :: p.1, p.2)
  | [] => none

/-- `name=value`, or `name<<delimiter` when `<<` comes before any `=`. -/
def statement (line : Txt) : Statement :=
  let name := line.takeWhile (· ≠ '=')
  match cutHeredoc name with
  | some (n, d) =>
    let delimiter := d ++ line.drop name.length
    if n = [] ∨ delimiter = [] then .bad else .heredoc n delimiter
  | none => if name = [] ∨ name = line then .bad else .assign name (line.drop (name.length + 1))

/-- The lines of a value so far, under the name and up to the delimiter. -/
structure Heredoc where
  name : Txt
  delimiter : Txt
  body : List Txt

/-- What the lines give, or nothing when one of them is an error. -/
def readLines : Option Heredoc → List Txt → Option Outputs
  | none, [] => some []
  | some _, [] => none
  | none, line :: ls =>
    match statement line with
    | .assign name value => (readLines none ls).map ((name, value) :: ·)
    | .heredoc name delimiter => readLines (some ⟨name, delimiter, []⟩) ls
    | .bad => none
  | some h, line :: ls =>
    if line = h.delimiter then (readLines none ls).map ((h.name, joinLines h.body) :: ·)
    else readLines (some { h with body := h.body ++ [line] }) ls

def readOutputs (text : Txt) : Option Outputs := readLines none (fileLines text)

example : (readOutputs "a=1\nb<<END\nx=\n<<\nEND\na=\n".toList).map (·.value "b".toList) =
    some (some "x=\n<<".toList) := by decide

example : readOutputs "a=1\nb\n".toList = none := by decide

/-- The text reads back as the outputs. -/
def ReadsBack (text : Txt) (vars : Outputs) : Prop :=
  ∃ found, readOutputs text = some found ∧ found.value = vars.value

/-! ## Lines -/

/-- How much of the file the lines take. -/
def cost (ls : List Txt) : Nat := (ls.map fun l => l.length + 1).sum

theorem cost_cons (l : Txt) (ls : List Txt) : cost (l :: ls) = l.length + 1 + cost ls := rfl

theorem cost_append (ls ls' : List Txt) : cost (ls ++ ls') = cost ls + cost ls' := by
  rw [cost, List.map_append, List.sum_append, cost, cost]

theorem length_joinLines_le (ls : List Txt) : (joinLines ls).length ≤ cost ls := by
  induction ls with
  | nil => exact Nat.zero_le _
  | cons l ls ih =>
    cases ls with
    | nil => exact Nat.le_add_right _ _
    | cons l' ls =>
      have hjoin : joinLines (l :: l' :: ls) = l ++ '\n' :: joinLines (l' :: ls) := rfl
      rw [hjoin, List.length_append, List.length_cons, cost_cons]
      omega

theorem cost_splitOn (t : Txt) : cost (t.splitOn '\n') = t.length + 1 := by
  induction t with
  | nil => rfl
  | cons c t ih =>
    rw [List.splitOn_cons_eq_if_modifyHead]
    by_cases hc : c = '\n'
    · rw [if_pos (beq_iff_eq.2 hc), cost_cons, ih]
      simp only [List.length_nil, List.length_cons]
      omega
    · rw [if_neg (by simpa using hc)]
      cases hsplit : t.splitOn '\n' with
      | nil => exact absurd hsplit (List.splitOn_ne_nil _ _)
      | cons l ls =>
        rw [hsplit, cost_cons] at ih
        rw [List.modifyHead_cons, cost_cons]
        simp only [List.length_cons]
        omega

/-- A file that ends in a newline is taken up by its lines. -/
theorem fileLines_spec (t : Txt) :
    cost (fileLines (t ++ ['\n'])) = t.length + 1 ∧ ∀ l ∈ fileLines (t ++ ['\n']), '\n' ∉ l := by
  have hsplit : (t ++ ['\n']).splitOn '\n' = t.splitOn '\n' ++ [[]] := by
    rw [List.splitOn_append_cons_self]
    rfl
  have hlines : fileLines (t ++ ['\n']) = t.splitOn '\n' := by
    rw [fileLines, hsplit]
    simp
  rw [hlines]
  exact ⟨cost_splitOn t, Collections.not_mem_of_mem_splitOn t⟩

/-! ## Statements -/

/-- As every identifier is. -/
def PlainName (k : Txt) : Prop := k ≠ [] ∧ '=' ∉ k ∧ '<' ∉ k ∧ '\n' ∉ k

instance (k : Txt) : Decidable (PlainName k) :=
  inferInstanceAs (Decidable (k ≠ [] ∧ '=' ∉ k ∧ '<' ∉ k ∧ '\n' ∉ k))

theorem cutHeredoc_eq_none {t : Txt} (h : '<' ∉ t) : cutHeredoc t = none := by
  induction t with
  | nil => rfl
  | cons c t ih =>
    have hc : c ≠ '<' := fun e => h (e ▸ List.mem_cons_self)
    unfold cutHeredoc
    split
    · next heq => exact absurd (List.cons.inj heq).1 hc
    · next heq =>
      obtain ⟨rfl, rfl⟩ := List.cons.inj heq
      rw [ih fun hmem => h (List.mem_cons_of_mem _ hmem), Option.map_none]
    · next heq => cases heq

theorem cutHeredoc_eq_some {t n d : Txt} (h : cutHeredoc t = some (n, d)) :
    t = n ++ '<' :: '<' :: d := by
  induction t generalizing n with
  | nil => cases h
  | cons c t ih =>
    unfold cutHeredoc at h
    split at h
    · next heq =>
      cases h
      exact heq
    · next heq =>
      obtain ⟨rfl, rfl⟩ := List.cons.inj heq
      obtain ⟨⟨n', d'⟩, hcut, hpair⟩ := Option.map_eq_some_iff.1 h
      cases hpair
      rw [List.cons_append, ← ih hcut]
    · next heq => cases heq

theorem takeWhile_name {k : Txt} (hk : '=' ∉ k) (v : Txt) :
    (k ++ '=' :: v).takeWhile (fun c => decide (c ≠ '=')) = k := by
  have hpass : ∀ c ∈ k, decide (c ≠ '=') = true := by
    rintro c hc
    exact decide_eq_true fun e => hk (e ▸ hc)
  rw [List.takeWhile_append_of_pos hpass]
  simp

theorem statement_outputLine {k : Txt} (hk : PlainName k) (v : Txt) :
    statement (outputLine k v) = .assign k v := by
  obtain ⟨hne, heq, hlt, -⟩ := hk
  have hline : k ≠ k ++ '=' :: v := fun e => by
    have := congrArg List.length e
    rw [List.length_append, List.length_cons] at this
    omega
  unfold statement outputLine
  rw [takeWhile_name heq]
  simp only [cutHeredoc_eq_none hlt, hne, hline, or_self, if_false]
  rw [List.drop_length_add_append]
  rfl

/-- The text before the first `=`, if there is one. -/
theorem name_cut (line : Txt) : ∃ name rest,
    line.takeWhile (fun c => decide (c ≠ '=')) = name ∧ line = name ++ rest ∧
      (rest = [] ∨ ∃ v, rest = '=' :: v) := by
  induction line with
  | nil => exact ⟨[], [], rfl, rfl, Or.inl rfl⟩
  | cons c line ih =>
    by_cases hc : c = '='
    · exact ⟨[], c :: line, by simp [hc], rfl, Or.inr ⟨line, by rw [hc]⟩⟩
    · obtain ⟨name, rest, hname, hline, hrest⟩ := ih
      refine ⟨c :: name, rest, ?_, by rw [hline, List.cons_append], hrest⟩
      rw [List.takeWhile_cons, if_pos (decide_eq_true hc), hname]

theorem statement_assign {line n v : Txt} (h : statement line = .assign n v) :
    line = n ++ '=' :: v := by
  obtain ⟨name, rest, hname, hline, hrest⟩ := name_cut line
  unfold statement at h
  simp only [hname] at h
  split at h
  · split_ifs at h
  · split_ifs at h with hbad
    cases h
    rcases hrest with rfl | ⟨v, rfl⟩
    · exact absurd (Or.inr (by rw [hline, List.append_nil])) hbad
    · rw [hline, List.drop_length_add_append]
      rfl

theorem statement_heredoc {line n d : Txt} (h : statement line = .heredoc n d) :
    line = n ++ '<' :: '<' :: d := by
  obtain ⟨name, rest, hname, hline, -⟩ := name_cut line
  unfold statement at h
  simp only [hname] at h
  split at h
  · next n' d' hcut =>
    split_ifs at h
    cases h
    have hdrop : line.drop name.length = rest := by rw [hline, List.drop_left]
    rw [hdrop, hline, cutHeredoc_eq_some hcut, List.append_assoc]
    rfl
  · split_ifs at h

/-! ## How much is read -/

def weight (p : Txt × Txt) : Nat := p.1.length + p.2.length + 2

/-- Reading gives no more than is in the file, and less as soon as some value has several
lines: its delimiter takes room as well. -/
theorem readLines_weight {ls : List Txt} (hls : ∀ l ∈ ls, '\n' ∉ l) :
    (∀ found, readLines none ls = some found →
      (found.map weight).sum ≤ cost ls ∧
        ((∃ p ∈ found, '\n' ∈ p.2) → (found.map weight).sum < cost ls)) ∧
    ∀ h found, readLines (some h) ls = some found →
      (found.map weight).sum ≤ h.name.length + cost h.body + cost ls + 1 := by
  induction ls with
  | nil =>
    constructor
    · intro found hfound
      cases hfound
      exact ⟨Nat.le_refl _, by simp⟩
    · intro h found hfound
      cases hfound
  | cons line ls ih =>
    obtain ⟨hnone, hsome⟩ := ih fun l hl => hls l (List.mem_cons_of_mem _ hl)
    have hline : '\n' ∉ line := hls line List.mem_cons_self
    constructor
    · intro found hfound
      rw [readLines] at hfound
      cases hstatement : statement line with
      | assign name value =>
        simp only [hstatement] at hfound
        obtain ⟨found', hread, rfl⟩ := Option.map_eq_some_iff.1 hfound
        obtain ⟨hle, hlt⟩ := hnone found' hread
        have heq := statement_assign hstatement
        have hweight : weight (name, value) = line.length + 1 := by
          have hpair : weight (name, value) = name.length + value.length + 2 := rfl
          rw [hpair, heq, List.length_append, List.length_cons]
          omega
        have hvalue : '\n' ∉ value := fun hmem => hline (by simp [heq, hmem])
        rw [List.map_cons, List.sum_cons, hweight, cost_cons]
        refine ⟨by omega, ?_⟩
        rintro ⟨p, hp, hnl⟩
        rcases List.mem_cons.1 hp with rfl | hp
        · exact absurd hnl hvalue
        · have := hlt ⟨p, hp, hnl⟩
          omega
      | heredoc name delimiter =>
        simp only [hstatement] at hfound
        have hle := hsome _ _ hfound
        have hlen : line.length = name.length + 2 + delimiter.length := by
          rw [statement_heredoc hstatement, List.length_append, List.length_cons,
            List.length_cons]
          omega
        have hbody : cost ([] : List Txt) = 0 := rfl
        simp only [hbody] at hle
        rw [cost_cons]
        exact ⟨by omega, fun _ => by omega⟩
      | bad =>
        simp only [hstatement] at hfound
        cases hfound
    · intro h found hfound
      rw [readLines] at hfound
      by_cases hend : line = h.delimiter
      · rw [if_pos hend] at hfound
        obtain ⟨found', hread, rfl⟩ := Option.map_eq_some_iff.1 hfound
        have hle := (hnone found' hread).1
        have hbody := length_joinLines_le h.body
        have hpair : weight (h.name, joinLines h.body) =
            h.name.length + (joinLines h.body).length + 2 := rfl
        rw [List.map_cons, List.sum_cons, hpair, cost_cons]
        omega
      · rw [if_neg hend] at hfound
        have hle := hsome _ _ hfound
        simp only [cost_append] at hle
        have hone : cost [line] = line.length + 1 := rfl
        rw [cost_cons]
        omega

/-! ## Names and values -/

theorem mem_of_value {vars : Outputs} {k v : Txt} (h : vars.value k = some v) : (k, v) ∈ vars := by
  obtain ⟨l₁, l₂, heq, -⟩ := List.lookup_eq_some_iff.1 h
  rw [← List.mem_reverse, heq]
  simp

theorem value_of_mem {vars : Outputs} (hkeys : (vars.map Prod.fst).Nodup) {k v : Txt}
    (h : (k, v) ∈ vars) : vars.value k = some v := by
  obtain ⟨l₁, l₂, heq⟩ := List.append_of_mem (List.mem_reverse.2 h)
  refine List.lookup_eq_some_iff.2 ⟨l₁, l₂, heq, fun p hp => ?_⟩
  have hrev : ((l₁ ++ (k, v) :: l₂).map Prod.fst).Nodup := by
    rw [← heq, List.map_reverse]
    exact List.nodup_reverse.2 hkeys
  rw [List.map_append, List.map_cons] at hrev
  have hdisjoint := List.disjoint_of_nodup_append hrev
  rw [bne_iff_ne]
  rintro rfl
  exact hdisjoint (List.mem_map_of_mem hp) List.mem_cons_self

/-! ## Reading back -/

theorem readLines_outputLines {vars : Outputs} (hnames : ∀ p ∈ vars, PlainName p.1) :
    readLines none (vars.map fun p => outputLine p.1 p.2) = some vars := by
  induction vars with
  | nil => rfl
  | cons p vars ih =>
    have hp : PlainName p.1 := hnames p List.mem_cons_self
    rw [List.map_cons, readLines, statement_outputLine hp]
    simp only
    rw [ih fun q hq => hnames q (List.mem_cons_of_mem p hq), Option.map_some]

theorem outputText_eq (vars : Outputs) (h : vars ≠ []) : ∃ t, outputText vars = t ++ ['\n'] :=
  ⟨_, (joinLines_newline (by simpa using h)).symm⟩

theorem length_outputText (vars : Outputs) : (outputText vars).length = (vars.map weight).sum := by
  induction vars with
  | nil => rfl
  | cons p vars ih =>
    have hcons : outputText (p :: vars) = (outputLine p.1 p.2 ++ ['\n']) ++ outputText vars := by
      rw [outputText, List.map_cons, unlines, List.flatMap_cons]
      rfl
    rw [hcons, List.length_append, ih, List.map_cons, List.sum_cons, weight, outputLine]
    simp only [List.length_append, List.length_cons, List.length_nil]
    omega

theorem readsBack_of_newline_free {vars : Outputs} (hnames : ∀ p ∈ vars, PlainName p.1)
    (hvalues : ∀ p ∈ vars, '\n' ∉ p.2) : ReadsBack (outputText vars) vars := by
  have hlines : ∀ l ∈ vars.map (fun p => outputLine p.1 p.2), '\n' ∉ l := by
    intro l hl hmem
    obtain ⟨p, hp, rfl⟩ := List.mem_map.1 hl
    rcases List.mem_append.1 hmem with hmem | hmem
    · exact (hnames p hp).2.2.2 hmem
    · rcases List.mem_cons.1 hmem with hmem | hmem
      · exact absurd hmem (by decide)
      · exact hvalues p hp hmem
  refine ⟨vars, ?_, rfl⟩
  rw [readOutputs, outputText, fileLines_unlines hlines, readLines_outputLines hnames]

theorem newline_free_of_readsBack {vars : Outputs} (hkeys : (vars.map Prod.fst).Nodup)
    (h : ReadsBack (outputText vars) vars) : ∀ p ∈ vars, '\n' ∉ p.2 := by
  intro p hp hnl
  obtain ⟨found, hfound, hvalue⟩ := h
  obtain ⟨t, ht⟩ := outputText_eq vars (List.ne_nil_of_mem hp)
  have hlength := length_outputText vars
  rw [readOutputs, ht] at hfound
  rw [ht, List.length_append, List.length_singleton] at hlength
  obtain ⟨hcost, hlines⟩ := fileLines_spec t
  have hsub : vars ⊆ found := by
    rintro ⟨k, v⟩ hmem
    refine mem_of_value ?_
    rw [hvalue, value_of_mem hkeys hmem]
  -- all outputs are found, at different places
  have hperm : vars.Subperm found := (List.Nodup.of_map Prod.fst hkeys).subperm hsub
  obtain ⟨l, hl, hsublist⟩ := hperm
  have hle : (vars.map weight).sum ≤ (found.map weight).sum := by
    rw [← (hl.map weight).sum_eq]
    exact (hsublist.map weight).sum_le_sum fun _ _ => Nat.zero_le _
  have hlt := ((readLines_weight hlines).1 found hfound).2 ⟨p, hsub hp, hnl⟩
  omega

/-- The outputs read back exactly when each of their values is one line. -/
theorem ghaSetOutput_readsBack_iff (vars : Outputs) (hnames : ∀ p ∈ vars, PlainName p.1)
    (hkeys : (vars.map Prod.fst).Nodup) (before : Txt) :
    (∃ appended, ghaSetOutput vars (some before) = some (before ++ appended) ∧
      ReadsBack appended vars) ↔ ∀ p ∈ vars, '\n' ∉ p.2 := by
  constructor
  · rintro ⟨appended, hfile, hreads⟩
    rw [ghaSetOutput, Option.map_some, Option.some_inj, List.append_cancel_left_eq] at hfile
    rw [← hfile] at hreads
    exact newline_free_of_readsBack hkeys hreads
  · exact fun hvalues => ⟨outputText vars, rfl, readsBack_of_newline_free hnames hvalues⟩

/-- A report of each kind. -/
def twoReports : Outputs :=
  [("sarif_path".toList, "trivy-report.sarif".toList),
    ("non_sarif_paths".toList, "trivy-report.json".toList)]

theorem ghaSetOutput_readsBack_sarif :
    (∃ appended, ghaSetOutput twoReports (some []) = some ([] ++ appended) ∧
      ReadsBack appended twoReports) ↔ ∀ p ∈ twoReports, '\n' ∉ p.2 :=
  ghaSetOutput_readsBack_iff twoReports (by decide) (by decide +kernel) []

end GithubActions
end RocmTests
