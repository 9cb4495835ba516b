import Mathlib.Data.Finset.Basic
import Mathlib.Tactic.Linarith
import Mathlib.Tactic.Positivity
import RocmTests.Collections.Dict
import RocmTests.Collections.Paging
import RocmTests.Rocm.Rccl

/-!
# Which runners are there

`check_runners.py` decides before the nightly tests which targets of the matrix have a runner.
Runners that come and go with their jobs are taken for granted; for the others the API is polled
until each label was seen or the time is up.

A label is looked for among those still wanted, and the pages end early when all of them were seen.
A target goes by its own label all the same.
-/

namespace RocmTests
namespace GithubActions
namespace RunnerCheck

open Text Markers

structure Runner where
  status : Option Txt
  labels : List Txt
deriving DecidableEq

/-- The answers of one endpoint to its pages in turn.  An `HTTPError` or `URLError` is refused;
raised is any other exception: a read that times out, a body that is cut or no JSON, JSON without
the fields. -/
abbrev Answers := List (Paging.Answer Runner)

def Runner.registered (r : Runner) : Bool :=
  r.status = some "online".toList ∨ r.status = some "in_use".toList

def addLabels (wanted : Finset Txt) (found : Finset Txt) (labels : List Txt) : Finset Txt :=
  labels.foldl (fun found lbl => if lbl ∈ wanted then insert lbl found else found) found

def addRunners (wanted : Finset Txt) (found : Finset Txt) (runners : List Runner) : Finset Txt :=
  runners.foldl (fun found r => if r.registered then addLabels wanted found r.labels else found)
    found

/-- The pages of one endpoint; `none` is an exception. -/
def readPages (wanted : Finset Txt) : Answers → Finset Txt → Option (Finset Txt)
  | [], found => some found
  | .refused :: _, found => some found
  | .raised :: _, _ => none
  | .page runners :: rest, found =>
    if runners = [] then some found
    else
      let found := addRunners wanted found runners
      if runners.length < 100 ∨ wanted ⊆ found then some found else readPages wanted rest found

def readEndpoints (wanted : Finset Txt) : List Answers → Finset Txt → Option (Finset Txt)
  | [], found => some found
  | answers :: endpoints, found =>
    if wanted ⊆ found then some found
    else (readPages wanted answers found).bind (readEndpoints wanted endpoints)

def getRegisteredLabels (wanted : Finset Txt) (endpoints : List Answers) : Option (Finset Txt) :=
  readEndpoints wanted endpoints ∅

/-! ## The targets -/

structure Target where
  name : Txt
  runsOn : Option Txt := none
  targetAvailable : Option Txt := none
deriving DecidableEq

def lower (t : Txt) : Txt := t.flatMap Rocm.Rccl.lowerChar

def isArc (label : Txt) : Bool := "ossci".toList <:+: lower label

def Target.label (t : Target) : Txt := t.runsOn.getD []

/-- `target_available=false` in the plan. -/
def Target.declined (t : Target) : Bool :=
  lower (strip (t.targetAvailable.getD "true".toList)) = "false".toList

structure Classes where
  resolved : Dict Txt Bool
  toPoll : List Target

def classify (targets : List Target) : Classes :=
  targets.foldl
    (fun c t =>
      if t.declined then { c with resolved := c.resolved.assign t.name false }
      else if isArc t.label then { c with resolved := c.resolved.assign t.name true }
      else if t.label = [] then { c with resolved := c.resolved.assign t.name true }
      else { c with toPoll := c.toPoll ++ [t] })
    ⟨.empty, []⟩

/-- One poll: what the endpoints answer, and the clock after it. -/
structure Turn where
  endpoints : List Answers
  clock : ℚ

structure Polling where
  resolved : Dict Txt Bool
  wanted : Finset Txt
  pending : List Target

def settle (registered : Finset Txt) (p : Polling) (t : Target) : Polling :=
  if t.label ∈ registered then
    { p with resolved := p.resolved.assign t.name true, wanted := p.wanted.erase t.label }
  else { p with pending := p.pending ++ [t] }

def giveUp (resolved : Dict Txt Bool) (pending : List Target) : Dict Txt Bool :=
  pending.foldl (fun d t => d.assign t.name false) resolved

/-- Why there is no result: the script raised, or the turns do not get that far. -/
inductive Stop where
  | raised
  | unfinished
deriving DecidableEq

/-- The polls until nothing is pending or the deadline has passed. -/
def poll (deadline : ℚ) : List Turn → Polling → Except Stop (Dict Txt Bool)
  | [], _ => .error .unfinished
  | turn :: turns, p =>
    match getRegisteredLabels p.wanted turn.endpoints with
    | none => .error .raised
    | some registered =>
      let q := p.pending.foldl (settle registered) { p with pending := [] }
      if q.pending = [] then .ok q.resolved
      else if deadline - turn.clock ≤ 0 then .ok (giveUp q.resolved q.pending)
      else poll deadline turns q

structure Settings where
  maxWait : ℚ := 120
  interval : ℚ := 15

def resolve (x : Settings) (start : ℚ) (turns : List Turn) (targets : List Target) :
    Except Stop (Dict Txt Bool) :=
  let c := classify targets
  if c.toPoll = [] then .ok c.resolved
  else poll (start + x.maxWait) turns
    ⟨c.resolved, (c.toPoll.map Target.label).toFinset, c.toPoll⟩

def available (resolved : Dict Txt Bool) (t : Target) : Bool := (resolved.get t.name).getD true

/-- The matrix that is written, and the names of those that are skipped. -/
structure Outputs where
  targets : List Target
  skippedTargets : List Txt
deriving DecidableEq

/-- `{**t, "target_available": str(avail).lower()}`. -/
def Target.decided (t : Target) (avail : Bool) : Target :=
  { t with targetAvailable := some (if avail then "true".toList else "false".toList) }

def outputs (targets : List Target) (resolved : Dict Txt Bool) : Outputs where
  targets := targets.map fun t => t.decided (available resolved t)
  skippedTargets := (targets.filter fun t => !available resolved t).map Target.name

/-- What is written; nothing, where the script raises. -/
def checkRunners (x : Settings) (start : ℚ) (turns : List Turn) (targets : List Target) :
    Except Stop Outputs :=
  (resolve x start turns targets).map (outputs targets)

/-!
## The verdict on each target

What the polls find for a label does not depend on the other labels that are wanted, although the
wanted set decides how many pages are read.  So a target runs exactly when its own label was seen in
a poll that was still made.
-/

/-! ### The labels of one poll -/

def Carried (runners : List Runner) (label : Txt) : Prop :=
  ∃ r ∈ runners, r.registered = true ∧ label ∈ r.labels

instance (runners : List Runner) (label : Txt) : Decidable (Carried runners label) :=
  inferInstanceAs (Decidable (∃ r ∈ runners, _))

variable {wanted found : Finset Txt}

theorem addLabels_eq (wanted : Finset Txt) (labels : List Txt) : ∀ found : Finset Txt,
    addLabels wanted found labels = found ∪ wanted.filter (· ∈ labels) := by
  induction labels with
  | nil =>
    intro found
    simp [addLabels]
  | cons lbl labels ih =>
    intro found
    show addLabels wanted (if lbl ∈ wanted then insert lbl found else found) labels = _
    rw [ih]
    ext l
    simp only [Finset.mem_union, Finset.mem_filter, List.mem_cons]
    by_cases hlbl : lbl ∈ wanted
    · rw [if_pos hlbl, Finset.mem_insert]
      constructor
      · rintro ((rfl | hl) | ⟨hw, hl⟩)
        · exact Or.inr ⟨hlbl, Or.inl rfl⟩
        · exact Or.inl hl
        · exact Or.inr ⟨hw, Or.inr hl⟩
      · rintro (hl | ⟨hw, rfl | hl⟩)
        · exact Or.inl (Or.inr hl)
        · exact Or.inl (Or.inl rfl)
        · exact Or.inr ⟨hw, hl⟩
    · rw [if_neg hlbl]
      refine or_congr_right (and_congr_right fun hw => ?_)
      exact (or_iff_right fun h : l = lbl => hlbl (h ▸ hw)).symm

theorem addRunners_eq (wanted : Finset Txt) (runners : List Runner) : ∀ found : Finset Txt,
    addRunners wanted found runners = found ∪ wanted.filter (Carried runners) := by
  induction runners with
  | nil =>
    intro found
    have hnone : wanted.filter (Carried []) = ∅ := by
      refine Finset.filter_eq_empty_iff.mpr fun l _ h => ?_
      obtain ⟨r, hr, -⟩ := h
      cases hr
    rw [hnone, Finset.union_empty]
    rfl
  | cons r runners ih =>
    intro found
    show addRunners wanted (if r.registered then addLabels wanted found r.labels else found)
      runners = _
    rw [ih]
    have hcons (l : Txt) : Carried (r :: runners) l ↔
        (r.registered = true ∧ l ∈ r.labels) ∨ Carried runners l := List.exists_mem_cons_iff ..
    ext l
    simp only [Finset.mem_union, Finset.mem_filter, hcons]
    by_cases hr : r.registered = true
    · rw [if_pos hr, addLabels_eq, Finset.mem_union, Finset.mem_filter, or_assoc, ← and_or_left]
      simp only [hr, true_and]
    · rw [if_neg hr]
      simp only [hr, Bool.false_eq_true, false_and, false_or]

theorem addRunners_append (wanted found : Finset Txt) (rs rs' : List Runner) :
    addRunners wanted found (rs ++ rs') = addRunners wanted (addRunners wanted found rs) rs' :=
  List.foldl_append ..

theorem addRunners_of_subset (h : wanted ⊆ found) (runners : List Runner) :
    addRunners wanted found runners = found := by
  rw [addRunners_eq]
  exact Finset.union_eq_left.mpr ((Finset.filter_subset _ _).trans h)

theorem readPages_eq (hfound : ¬ wanted ⊆ found) (answers : Answers) :
    readPages wanted answers found =
      if Paging.fails 100 answers = true ∧
          ¬ wanted ⊆ addRunners wanted found (Paging.visible 100 answers) then none
      else some (addRunners wanted found (Paging.visible 100 answers)) := by
  have hdone : ∀ (found : Finset Txt) (runners : List Runner), decide (wanted ⊆ found) = true →
      addRunners wanted found runners = found :=
    fun found runners h => addRunners_of_subset (of_decide_eq_true h) runners
  have hscan := @Paging.scan_eq Runner (Finset Txt) 100 _ (fun found => decide (wanted ⊆ found))
    (fun _ => rfl) (addRunners_append wanted) hdone answers found (decide_eq_false hfound)
  simp only [decide_eq_false_iff_not] at hscan
  rw [← hscan]
  clear hscan hfound
  induction answers generalizing found with
  | nil => rfl
  | cons answer rest ih =>
    cases answer with
    | refused => rfl
    | raised => rfl
    | page runners =>
      rw [readPages, Paging.scan]
      by_cases hnil : runners = []
      · rw [if_pos hnil, hnil, if_pos (Or.inl (by decide))]
        rfl
      · rw [if_neg hnil]
        simp only [ih, decide_eq_true_eq]

/-- An endpoint raises before everything wanted was seen. -/
def Stuck (wanted found : Finset Txt) (endpoints : List Answers) : Prop :=
  ∃ before answers after, endpoints = before ++ answers :: after ∧
    Paging.fails 100 answers = true ∧
      ¬ wanted ⊆ addRunners wanted found ((before ++ [answers]).flatMap (Paging.visible 100))

theorem stuck_cons (answers : Answers) (endpoints : List Answers) :
    Stuck wanted found (answers :: endpoints) ↔
      (Paging.fails 100 answers = true ∧
        ¬ wanted ⊆ addRunners wanted found (Paging.visible 100 answers)) ∨
          Stuck wanted (addRunners wanted found (Paging.visible 100 answers)) endpoints := by
  constructor
  · rintro ⟨before, answers', after, heq, hfails, hsub⟩
    cases before with
    | nil =>
      cases heq
      exact Or.inl ⟨hfails, by simpa using hsub⟩
    | cons first before =>
      cases heq
      refine Or.inr ⟨before, answers', after, rfl, hfails, ?_⟩
      rw [List.cons_append, List.flatMap_cons, addRunners_append] at hsub
      exact hsub
  · rintro (⟨hfails, hsub⟩ | ⟨before, answers', after, rfl, hfails, hsub⟩)
    · exact ⟨[], answers, endpoints, rfl, hfails, by simpa using hsub⟩
    · refine ⟨answers :: before, answers', after, rfl, hfails, ?_⟩
      rw [List.cons_append, List.flatMap_cons, addRunners_append]
      exact hsub

theorem not_stuck_of_subset (h : wanted ⊆ found) (endpoints : List Answers) :
    ¬ Stuck wanted found endpoints := by
  rintro ⟨before, answers, after, -, -, hsub⟩
  rw [addRunners_of_subset h] at hsub
  exact hsub h

theorem readEndpoints_eq (wanted : Finset Txt) (endpoints : List Answers) : ∀ found : Finset Txt,
    (readEndpoints wanted endpoints found = none ↔ Stuck wanted found endpoints) ∧
      ∀ labels, readEndpoints wanted endpoints found = some labels →
        labels = addRunners wanted found (endpoints.flatMap (Paging.visible 100)) := by
  induction endpoints with
  | nil =>
    intro found
    refine ⟨iff_of_false (fun h => by cases h) ?_, fun labels h => (Option.some.inj h).symm⟩
    rintro ⟨before, answers, after, heq, -⟩
    cases before <;> cases heq
  | cons answers endpoints ih =>
    intro found
    rw [readEndpoints, List.flatMap_cons, addRunners_append]
    by_cases hdone : wanted ⊆ found
    · rw [if_pos hdone, addRunners_of_subset hdone, addRunners_of_subset hdone]
      exact ⟨iff_of_false (fun h => by cases h) (not_stuck_of_subset hdone _),
        fun labels h => (Option.some.inj h).symm⟩
    rw [if_neg hdone, readPages_eq hdone, stuck_cons]
    by_cases hfails : Paging.fails 100 answers = true ∧
        ¬ wanted ⊆ addRunners wanted found (Paging.visible 100 answers)
    · rw [if_pos hfails]
      exact ⟨iff_of_true rfl (Or.inl hfails), fun labels h => by cases h⟩
    · rw [if_neg hfails, Option.bind_some, or_iff_right hfails]
      exact ih _

theorem addRunners_empty (wanted : Finset Txt) (runners : List Runner) :
    addRunners wanted ∅ runners = wanted.filter (Carried runners) := by
  rw [addRunners_eq, Finset.empty_union]

theorem subset_filter_iff {p : Txt → Prop} [DecidablePred p] :
    wanted ⊆ wanted.filter p ↔ ∀ label ∈ wanted, p label := by
  constructor
  · exact fun h label hlabel => (Finset.mem_filter.mp (h hlabel)).2
  · exact fun h label hlabel => Finset.mem_filter.mpr ⟨hlabel, h label hlabel⟩

theorem registered_eq {endpoints : List Answers} {labels : Finset Txt}
    (h : getRegisteredLabels wanted endpoints = some labels) :
    labels = wanted.filter (Carried (endpoints.flatMap (Paging.visible 100))) :=
  ((readEndpoints_eq wanted endpoints ∅).2 labels h).trans (addRunners_empty _ _)

theorem registered_eq_none_iff {endpoints : List Answers} :
    getRegisteredLabels wanted endpoints = none ↔ Stuck wanted ∅ endpoints :=
  (readEndpoints_eq wanted endpoints ∅).1

/-- It raises exactly if a response raises that comes before everything wanted was seen.
Otherwise to stop early gives what reading all pages of all endpoints gives; where no request
fails, these are the fleets. -/
theorem getRegisteredLabels_eq (wanted : Finset Txt) (endpoints : List Answers) :
    (getRegisteredLabels wanted endpoints = none ↔
      ∃ before answers after, endpoints = before ++ answers :: after ∧
        Paging.fails 100 answers = true ∧ ∃ label ∈ wanted,
          ¬ Carried ((before ++ [answers]).flatMap (Paging.visible 100)) label) ∧
    (∀ labels, getRegisteredLabels wanted endpoints = some labels →
      labels = wanted.filter (Carried (endpoints.flatMap (Paging.visible 100)))) ∧
    ∀ fleets : List (List Runner × List (List Runner)), (∀ f ∈ fleets, Paging.Served 100 f.1 f.2) →
      getRegisteredLabels wanted (fleets.map fun f => f.2.map .page) =
        some (wanted.filter (Carried (fleets.flatMap Prod.fst))) := by
  refine ⟨?_, fun labels h => registered_eq h, fun fleets hfleets => ?_⟩
  · rw [registered_eq_none_iff, Stuck]
    simp only [addRunners_empty, subset_filter_iff, not_forall, exists_prop]
  · have hvisible : (fleets.map fun f => f.2.map .page).flatMap (Paging.visible 100) =
        fleets.flatMap Prod.fst := by
      rw [List.flatMap_map]
      exact List.flatMap_congr fun f hf => (Paging.visible_served (hfleets f hf)).1
    cases hread : getRegisteredLabels wanted (fleets.map fun f => f.2.map .page) with
    | none =>
      obtain ⟨before, answers, after, heq, hfails, -⟩ := registered_eq_none_iff.mp hread
      have hmem : answers ∈ fleets.map fun f => f.2.map .page := by
        rw [heq]
        exact List.mem_append_right _ List.mem_cons_self
      obtain ⟨f, hf, rfl⟩ := List.mem_map.mp hmem
      rw [(Paging.visible_served (hfleets f hf)).2] at hfails
      cases hfails
    | some labels => rw [registered_eq hread, hvisible]

/-! ### Before the polls -/

/-- A target whose runner has to be seen. -/
def Target.persistent (t : Target) : Bool := !t.declined && !isArc t.label && decide (t.label ≠ [])

theorem classify_append (ts : List Target) (t : Target) :
    classify (ts ++ [t]) =
      if t.persistent then ⟨(classify ts).resolved, (classify ts).toPoll ++ [t]⟩
      else ⟨(classify ts).resolved.assign t.name !t.declined, (classify ts).toPoll⟩ := by
  unfold classify Target.persistent
  rw [List.foldl_append, List.foldl_cons, List.foldl_nil]
  cases hdeclined : t.declined with
  | true => rfl
  | false =>
    cases harc : isArc t.label with
    | true => rfl
    | false =>
      by_cases hnil : t.label = []
      · simp [hnil]
      · simp [hnil]

theorem classify_toPoll (targets : List Target) :
    (classify targets).toPoll = targets.filter Target.persistent := by
  induction targets using List.reverseRecOn with
  | nil => rfl
  | append_singleton ts t ih =>
    rw [classify_append, List.filter_append, ← ih]
    cases ht : t.persistent with
    | true => simp [ht]
    | false => simp [ht]

/-- The verdict on a target that is not polled for. -/
theorem classify_resolved {targets : List Target} (hnames : (targets.map Target.name).Nodup)
    {t : Target} (ht : t ∈ targets) (hpersistent : t.persistent = false) :
    (classify targets).resolved.get t.name = some !t.declined := by
  induction targets using List.reverseRecOn with
  | nil => cases ht
  | append_singleton ts u ih =>
    rw [List.map_append, List.map_singleton, List.nodup_append] at hnames
    rw [classify_append]
    rcases List.mem_append.mp ht with ht | ht
    · have hne : u.name ≠ t.name := fun h =>
        hnames.2.2 _ (List.mem_map_of_mem ht) _ (List.mem_singleton_self _) h.symm
      have hts := ih hnames.1 ht
      cases hu : u.persistent with
      | true => exact hts
      | false =>
        show ((classify ts).resolved.assign u.name _).get t.name = _
        rw [Dict.get_assign, if_neg hne, hts]
    · cases List.mem_singleton.mp ht
      rw [hpersistent]
      show ((classify ts).resolved.assign t.name _).get t.name = _
      rw [Dict.get_assign, if_pos rfl]

/-! ### One poll -/

variable {registered : Finset Txt}

theorem settle_append (p : Polling) (ts : List Target) (t : Target) :
    (ts ++ [t]).foldl (settle registered) p =
      settle registered (ts.foldl (settle registered) p) t := by
  rw [List.foldl_append, List.foldl_cons, List.foldl_nil]

theorem settle_pending (p : Polling) (ts : List Target) :
    (ts.foldl (settle registered) { p with pending := [] }).pending =
      ts.filter fun t => decide (t.label ∉ registered) := by
  induction ts using List.reverseRecOn with
  | nil => rfl
  | append_singleton ts t ih =>
    rw [settle_append, List.filter_append, ← ih, settle]
    by_cases ht : t.label ∈ registered
    · rw [if_pos ht]
      simp [ht]
    · rw [if_neg ht]
      simp [ht]

theorem settle_resolved (p : Polling) (ts : List Target) (name : Txt) :
    (ts.foldl (settle registered) { p with pending := [] }).resolved.get name =
      if ∃ t ∈ ts, t.label ∈ registered ∧ t.name = name then some true
      else p.resolved.get name := by
  induction ts using List.reverseRecOn with
  | nil => simp
  | append_singleton ts t ih =>
    rw [settle_append, settle]
    have hsplit : (∃ u ∈ ts ++ [t], u.label ∈ registered ∧ u.name = name) ↔
        (∃ u ∈ ts, u.label ∈ registered ∧ u.name = name) ∨
          (t.label ∈ registered ∧ t.name = name) := by
      simp only [List.mem_append, List.mem_singleton, or_and_right, exists_or, exists_eq_left]
    rw [if_congr hsplit rfl rfl]
    by_cases ht : t.label ∈ registered
    · rw [if_pos ht]
      show (Dict.assign _ t.name true).get name = _
      rw [Dict.get_assign, ih]
      by_cases hname : t.name = name
      · rw [if_pos hname, if_pos (Or.inr ⟨ht, hname⟩)]
      · rw [if_neg hname, if_congr (or_iff_left fun h => hname h.2) rfl rfl]
    · rw [if_neg ht, if_congr (or_iff_left fun h => ht h.1) rfl rfl]
      exact ih

/-- A label that was not seen stays wanted. -/
theorem settle_wanted (p : Polling) (ts : List Target) {label : Txt} (hwanted : label ∈ p.wanted)
    (hlabel : label ∉ registered) :
    label ∈ (ts.foldl (settle registered) { p with pending := [] }).wanted := by
  induction ts using List.reverseRecOn with
  | nil => exact hwanted
  | append_singleton ts t ih =>
    rw [settle_append, settle]
    by_cases ht : t.label ∈ registered
    · rw [if_pos ht]
      exact Finset.mem_erase.mpr ⟨fun h => hlabel (h ▸ ht), ih⟩
    · rw [if_neg ht]
      exact ih

theorem giveUp_get (pending : List Target) (d : Dict Txt Bool) (name : Txt) :
    (giveUp d pending).get name =
      if name ∈ pending.map Target.name then some false else d.get name := by
  induction pending using List.reverseRecOn with
  | nil => simp [giveUp]
  | append_singleton ts t ih =>
    have hstep : giveUp d (ts ++ [t]) = (giveUp d ts).assign t.name false := by
      unfold giveUp
      rw [List.foldl_append, List.foldl_cons, List.foldl_nil]
    have hmem : name ∈ (ts ++ [t]).map Target.name ↔ name ∈ ts.map Target.name ∨ name = t.name := by
      rw [List.map_append, List.map_singleton, List.mem_append, List.mem_singleton]
    rw [hstep, Dict.get_assign, ih, if_congr hmem rfl rfl]
    by_cases hname : t.name = name
    · rw [if_pos hname, if_pos (Or.inr hname.symm)]
    · rw [if_neg hname, if_congr (or_iff_left (Ne.symm hname)) rfl rfl]

/-! ### All polls -/

/-- A runner with the label is there in a poll, and the polls before it left time for another. -/
def Seen (deadline : ℚ) : List Turn → Txt → Prop
  | [], _ => False
  | turn :: turns, label => Carried (turn.endpoints.flatMap (Paging.visible 100)) label ∨
      turn.clock < deadline ∧ Seen deadline turns label

instance decidableSeen (deadline : ℚ) : (turns : List Turn) → (label : Txt) →
    Decidable (Seen deadline turns label)
  | [], _ => inferInstanceAs (Decidable False)
  | _ :: turns, label =>
    have := decidableSeen deadline turns label
    inferInstanceAs (Decidable (_ ∨ _ ∧ _))

theorem name_injOn {ts : List Target} (hnames : (ts.map Target.name).Nodup) {t u : Target}
    (ht : t ∈ ts) (hu : u ∈ ts) (h : t.name = u.name) : t = u :=
  List.inj_on_of_nodup_map hnames ht hu h

/-- What one poll leaves: those whose label was not registered go on waiting, and nothing becomes
of a name that is not waited for. -/
structure Polled (registered : Finset Txt) (p q : Polling) : Prop where
  names : (q.pending.map Target.name).Nodup
  wanted : ∀ t ∈ q.pending, t.label ∈ q.wanted
  still : ∀ t ∈ q.pending, t ∈ p.pending ∧ t.label ∉ registered
  waiting : ∀ t ∈ p.pending, t.label ∉ registered → t ∈ q.pending
  settled : ∀ t ∈ p.pending, t.label ∈ registered →
    t.name ∉ q.pending.map Target.name ∧ q.resolved.get t.name = some true
  other : ∀ name ∉ p.pending.map Target.name,
    name ∉ q.pending.map Target.name ∧ q.resolved.get name = p.resolved.get name

theorem polled (registered : Finset Txt) {p : Polling}
    (hnames : (p.pending.map Target.name).Nodup) (hwanted : ∀ t ∈ p.pending, t.label ∈ p.wanted) :
    Polled registered p (p.pending.foldl (settle registered) { p with pending := [] }) := by
  have hpending := @settle_pending registered p p.pending
  have hresolved := @settle_resolved registered p p.pending
  have hkept := @settle_wanted registered p p.pending
  generalize p.pending.foldl (settle registered) { p with pending := [] } = q at *
  have hstill : ∀ t ∈ q.pending, t ∈ p.pending ∧ t.label ∉ registered := by
    intro t ht
    rw [hpending, List.mem_filter, decide_eq_true_eq] at ht
    exact ht
  constructor
  case names =>
    rw [hpending]
    exact hnames.sublist (List.filter_sublist.map Target.name)
  case wanted => exact fun t ht => hkept (hwanted t (hstill t ht).1) (hstill t ht).2
  case still => exact hstill
  case waiting =>
    intro t ht hlabel
    rw [hpending, List.mem_filter, decide_eq_true_eq]
    exact ⟨ht, hlabel⟩
  case settled =>
    intro t ht hlabel
    constructor
    · intro hmem
      obtain ⟨u, hu, hname⟩ := List.mem_map.mp hmem
      have heq := name_injOn hnames (hstill u hu).1 ht hname
      exact (hstill u hu).2 (heq ▸ hlabel)
    · rw [hresolved, if_pos ⟨t, ht, hlabel, rfl⟩]
  case other =>
    intro name hname
    constructor
    · intro hmem
      obtain ⟨u, hu, rfl⟩ := List.mem_map.mp hmem
      exact hname (List.mem_map_of_mem (hstill u hu).1)
    · rw [hresolved, if_neg]
      rintro ⟨t, ht, -, rfl⟩
      exact hname (List.mem_map_of_mem ht)

/-- What the polls make of the targets that wait for them, and that they leave the others alone. -/
theorem poll_get {deadline : ℚ} {turns : List Turn} : ∀ {p : Polling} {d : Dict Txt Bool},
    poll deadline turns p = .ok d → (p.pending.map Target.name).Nodup →
      (∀ t ∈ p.pending, t.label ∈ p.wanted) →
        (∀ t ∈ p.pending, d.get t.name = some (decide (Seen deadline turns t.label))) ∧
          ∀ name ∉ p.pending.map Target.name, d.get name = p.resolved.get name := by
  induction turns with
  | nil =>
    intro p d h
    cases h
  | cons turn turns ih =>
    intro p d h hnames hwanted
    unfold poll at h
    cases hread : getRegisteredLabels p.wanted turn.endpoints with
    | none =>
      rw [hread] at h
      cases h
    | some registered =>
      rw [hread] at h
      simp only at h
      have hpolled := polled registered hnames hwanted
      have hregistered : ∀ t ∈ p.pending, t.label ∈ registered ↔
          Carried (turn.endpoints.flatMap (Paging.visible 100)) t.label := by
        intro t ht
        rw [registered_eq hread, Finset.mem_filter, and_iff_right (hwanted t ht)]
      generalize p.pending.foldl (settle registered) { p with pending := [] } = q at *
      -- it is enough to know what becomes of those that are still waiting
      suffices hrest : (∀ t ∈ q.pending,
          d.get t.name = some (decide (Seen deadline (turn :: turns) t.label))) ∧
            ∀ name ∉ q.pending.map Target.name, d.get name = q.resolved.get name by
        refine ⟨fun t ht => ?_, fun name hname => ?_⟩
        · by_cases hlabel : t.label ∈ registered
          · have hseen : Seen deadline (turn :: turns) t.label :=
              Or.inl ((hregistered t ht).mp hlabel)
            obtain ⟨hgone, hfound⟩ := hpolled.settled t ht hlabel
            rw [hrest.2 _ hgone, hfound, decide_eq_true hseen]
          · exact hrest.1 t (hpolled.waiting t ht hlabel)
        · obtain ⟨hgone, hsame⟩ := hpolled.other name hname
          rw [hrest.2 _ hgone, hsame]
      have hunseen : ∀ t ∈ q.pending, Seen deadline (turn :: turns) t.label ↔
          turn.clock < deadline ∧ Seen deadline turns t.label := by
        intro t ht
        obtain ⟨hpending, hlabel⟩ := hpolled.still t ht
        exact or_iff_right (mt (hregistered t hpending).mpr hlabel)
      by_cases hnil : q.pending = []
      · rw [if_pos hnil, Except.ok.injEq] at h
        rw [hnil, ← h]
        exact ⟨fun t ht => absurd ht List.not_mem_nil, fun _ _ => rfl⟩
      rw [if_neg hnil] at h
      by_cases hlate : deadline - turn.clock ≤ 0
      · rw [if_pos hlate, Except.ok.injEq] at h
        have hclock : ¬ turn.clock < deadline := by linarith
        subst h
        refine ⟨fun t ht => ?_, fun name hname => ?_⟩
        · rw [giveUp_get, if_pos (List.mem_map_of_mem ht),
            decide_eq_false fun hseen => hclock ((hunseen t ht).mp hseen).1]
        · rw [giveUp_get, if_neg hname]
      · rw [if_neg hlate] at h
        have hclock : turn.clock < deadline := by linarith
        obtain ⟨hpend, hkept⟩ := ih h hpolled.names hpolled.wanted
        refine ⟨fun t ht => ?_, hkept⟩
        rw [hpend t ht, decide_eq_decide.mpr ((hunseen t ht).trans (and_iff_right hclock))]

/-! ### The time that the polls take -/

/-- Between two polls `time.sleep` lets at least that time pass. -/
def Paced (x : Settings) (deadline : ℚ) (turns : List Turn) : Prop :=
  turns.IsChain fun t t' => t.clock + min x.interval (deadline - t.clock) ≤ t'.clock

/-- After a poll one more interval is gone, or all the time. -/
theorem left_next {x : Settings} {deadline : ℚ} {m : Nat} {t t' : Turn}
    (hleft : deadline - t.clock ≤ (m + 1 : Nat) * x.interval) (hclock : 0 < deadline - t.clock)
    (hstep : t.clock + min x.interval (deadline - t.clock) ≤ t'.clock) :
    deadline - t'.clock ≤ m * x.interval := by
  push_cast at hleft
  rcases min_cases x.interval (deadline - t.clock) with ⟨hmin, -⟩ | ⟨hmin, hlt⟩
  · rw [hmin] at hstep
    linarith
  · rw [hmin] at hstep
    have hpos : 0 ≤ x.interval := by linarith
    have hprod : 0 ≤ (m : ℚ) * x.interval := by positivity
    linarith

theorem poll_finished {deadline : ℚ} {turn : Turn} {turns : List Turn} {p : Polling}
    (h : deadline - turn.clock ≤ 0 ∨ ∀ q, poll deadline turns q ≠ .error .unfinished) :
    poll deadline (turn :: turns) p ≠ .error .unfinished := by
  unfold poll
  cases getRegisteredLabels p.wanted turn.endpoints with
  | none => exact fun h => by cases h
  | some registered =>
    simp only
    split_ifs with hnil hlate
    · exact fun h => by cases h
    · exact fun h => by cases h
    · exact h.resolve_left hlate _

theorem poll_ends {x : Settings} {deadline : ℚ} {m : Nat} : ∀ {t : Turn} {ts : List Turn},
    deadline - t.clock ≤ m * x.interval → Paced x deadline (t :: ts) → m ≤ ts.length →
      ∀ p, poll deadline (t :: ts) p ≠ .error .unfinished := by
  induction m with
  | zero =>
    intro t ts hleft _ _ p
    exact poll_finished (Or.inl (by simpa using hleft))
  | succ m ih =>
    intro t ts hleft hpaced hlen p
    cases ts with
    | nil => simp at hlen
    | cons t' ts =>
      apply poll_finished
      obtain ⟨hstep, hpaced'⟩ := List.isChain_cons_cons.mp hpaced
      by_cases hlate : deadline - t.clock ≤ 0
      · exact Or.inl hlate
      · have hleft' := left_next hleft (lt_of_not_ge hlate) hstep
        exact Or.inr (ih hleft' hpaced' (by simpa using hlen))

/-- A response of some poll raises. -/
def Raises (turns : List Turn) : Prop :=
  ∃ turn ∈ turns, ∃ answers ∈ turn.endpoints, Paging.fails 100 answers = true

theorem raises_of_poll {deadline : ℚ} {turns : List Turn} : ∀ {p : Polling},
    poll deadline turns p = .error .raised → Raises turns := by
  induction turns with
  | nil => exact fun h => by cases h
  | cons turn turns ih =>
    intro p h
    unfold poll at h
    cases hread : getRegisteredLabels p.wanted turn.endpoints with
    | none =>
      obtain ⟨before, answers, after, heq, hfails, -⟩ := registered_eq_none_iff.mp hread
      refine ⟨turn, List.mem_cons_self, answers, ?_, hfails⟩
      rw [heq]
      exact List.mem_append_right _ List.mem_cons_self
    | some registered =>
      rw [hread] at h
      simp only at h
      -- only the last branch can end in an error
      split_ifs at h
      obtain ⟨turn', hturn', hraises⟩ := ih h
      exact ⟨turn', List.mem_cons_of_mem _ hturn', hraises⟩

/-! ### The matrix -/

/-- A target runs: the plan has it, and its runner comes by itself, or none is named, or one was
seen. -/
def Runs (x : Settings) (start : ℚ) (turns : List Turn) (t : Target) : Prop :=
  t.declined = false ∧
    (isArc t.label = true ∨ t.label = [] ∨ Seen (start + x.maxWait) turns t.label)

instance (x : Settings) (start : ℚ) (turns : List Turn) (t : Target) :
    Decidable (Runs x start turns t) :=
  inferInstanceAs (Decidable (_ ∧ (_ ∨ _ ∨ _)))

section Matrix

variable {x : Settings} {start : ℚ} {turns : List Turn} {targets : List Target} {d : Dict Txt Bool}

theorem runs_of_persistent {t : Target} (ht : t.persistent = true) :
    Runs x start turns t ↔ Seen (start + x.maxWait) turns t.label := by
  simp only [Target.persistent, Bool.and_eq_true, Bool.not_eq_true', decide_eq_true_eq] at ht
  obtain ⟨⟨hdeclined, harc⟩, hlabel⟩ := ht
  rw [Runs, and_iff_right hdeclined, or_iff_right (by rw [harc]; exact Bool.false_ne_true),
    or_iff_right hlabel]

theorem runs_of_not_persistent {t : Target} (ht : t.persistent = false) :
    Runs x start turns t ↔ t.declined = false := by
  refine and_iff_left_of_imp fun hdeclined => ?_
  by_contra hnot
  obtain ⟨harc, hrest⟩ := not_or.mp hnot
  obtain ⟨hlabel, -⟩ := not_or.mp hrest
  have htrue : t.persistent = true := by
    simp [Target.persistent, hdeclined, harc, hlabel]
  rw [ht] at htrue
  cases htrue

theorem available_iff (hnames : (targets.map Target.name).Nodup)
    (h : resolve x start turns targets = .ok d) {t : Target} (ht : t ∈ targets) :
    available d t = decide (Runs x start turns t) := by
  have hpoll : (classify targets).toPoll = targets.filter Target.persistent :=
    classify_toPoll targets
  have hsub : ∀ u ∈ (classify targets).toPoll, u ∈ targets ∧ u.persistent = true := by
    intro u hu
    rw [hpoll] at hu
    exact List.mem_filter.mp hu
  have hplain (hpersistent : t.persistent = false) :
      t.name ∉ (classify targets).toPoll.map Target.name ∧
      (classify targets).resolved.get t.name = some (decide (Runs x start turns t)) := by
    constructor
    · intro hmem
      obtain ⟨u, hu, hname⟩ := List.mem_map.mp hmem
      have heq := name_injOn hnames (hsub u hu).1 ht hname
      have htrue := (hsub u hu).2
      rw [heq, hpersistent] at htrue
      cases htrue
    · rw [classify_resolved hnames ht hpersistent,
        decide_eq_decide.mpr (runs_of_not_persistent hpersistent)]
      have hbool (b : Bool) : (!b) = decide (b = false) := by cases b <;> rfl
      exact congrArg some (hbool t.declined)
  have hmem (hpersistent : t.persistent = true) : t ∈ (classify targets).toPoll := by
    rw [hpoll]
    exact List.mem_filter.mpr ⟨ht, hpersistent⟩
  unfold available
  rw [resolve] at h
  by_cases hnil : (classify targets).toPoll = []
  · rw [if_pos hnil, Except.ok.injEq] at h
    cases hpersistent : t.persistent with
    | true => exact absurd (hmem hpersistent) (by rw [hnil]; exact List.not_mem_nil)
    | false => rw [← h, (hplain hpersistent).2, Option.getD_some]
  · rw [if_neg hnil] at h
    have hnodup : ((classify targets).toPoll.map Target.name).Nodup := by
      rw [hpoll]
      exact hnames.sublist (List.filter_sublist.map Target.name)
    obtain ⟨hpending, hkept⟩ := poll_get h hnodup fun u hu =>
      List.mem_toFinset.mpr (List.mem_map_of_mem hu)
    cases hpersistent : t.persistent with
    | true =>
      rw [hpending t (hmem hpersistent), Option.getD_some]
      exact decide_eq_decide.mpr (runs_of_persistent hpersistent).symm
    | false => rw [hkept _ (hplain hpersistent).1, (hplain hpersistent).2, Option.getD_some]

/-- The check ends with one more poll at most than there are intervals in its budget.  It raises
only where a response does; otherwise each target is kept or skipped for its own sake. -/
theorem checkRunners_decides (hnames : (targets.map Target.name).Nodup) {m : Nat} {turn : Turn}
    (hbudget : x.maxWait ≤ m * x.interval) (hstart : start ≤ turn.clock)
    (hpaced : Paced x (start + x.maxWait) (turn :: turns)) (hlen : m ≤ turns.length) :
    (checkRunners x start (turn :: turns) targets = .error .raised ∧ Raises (turn :: turns)) ∨
    ∃ out, checkRunners x start (turn :: turns) targets = .ok out ∧
      out.targets = targets.map (fun t => t.decided (decide (Runs x start (turn :: turns) t))) ∧
      out.skippedTargets =
        (targets.filter fun t => ¬ Runs x start (turn :: turns) t).map Target.name := by
  unfold checkRunners
  cases hd : resolve x start (turn :: turns) targets with
  | error e =>
    left
    rw [resolve] at hd
    split_ifs at hd
    cases e with
    | raised => exact ⟨rfl, raises_of_poll hd⟩
    | unfinished => exact absurd hd (poll_ends (x := x) (by linarith) hpaced hlen _)
  | ok d =>
    right
    have havailable : ∀ t ∈ targets, available d t = decide (Runs x start (turn :: turns) t) :=
      fun t ht => available_iff hnames hd ht
    refine ⟨outputs targets d, rfl, ?_, ?_⟩
    · refine List.map_congr_left fun t ht => ?_
      rw [havailable t ht]
    · refine congrArg (List.map Target.name) (List.filter_congr fun t ht => ?_)
      rw [havailable t ht, decide_not]

end Matrix

/-- A runner that comes with the second poll. -/
def lateRunner : List Turn :=
  [⟨[[.page []], [.refused]], 15⟩,
    ⟨[[.page [⟨some "online".toList, ["gfx942".toList]⟩]], []], 30⟩]

theorem checkRunners_decides_late :
    let targets : List Target := [⟨"a".toList, some "gfx942".toList, none⟩,
      ⟨"b".toList, some "gfx90a".toList, none⟩, ⟨"c".toList, some "linux-ossci".toList, none⟩]
    (checkRunners ⟨15, 15⟩ 0 lateRunner targets = .error .raised ∧ Raises lateRunner) ∨
    ∃ out, checkRunners ⟨15, 15⟩ 0 lateRunner targets = .ok out ∧
      out.targets = targets.map (fun t => t.decided (decide (Runs ⟨15, 15⟩ 0 lateRunner t))) ∧
      out.skippedTargets =
        (targets.filter fun t => ¬ Runs ⟨15, 15⟩ 0 lateRunner t).map Target.name := by
  intro targets
  refine checkRunners_decides (m := 1) (by decide) (by norm_num) (by norm_num) ?_ (by decide)
  refine List.isChain_cons_cons.mpr ⟨?_, List.isChain_singleton _⟩
  norm_num

end RunnerCheck
end GithubActions
end RocmTests
