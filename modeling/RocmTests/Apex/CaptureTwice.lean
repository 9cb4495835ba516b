import RocmTests.Apex.CleanSummary

/-!
# A log that is captured twice

A runner whose output is streamed and logged again gives the parser its text twice.  At the
seam a sub-test of the first copy may still be pending, so lines at the beginning of the
second may be taken for its outcome.  Its own header line comes again after them, and the
last header line of a sub-test decides.
-/

namespace RocmTests
namespace Apex

open Text
open Markers (strip)

/-! ## The dictionary -/

theorem isSome_lookup_iff {ps : Parsed} {name : Txt} :
    (ps.lookup name).isSome ↔ name ∈ ps.map Prod.fst := by
  induction ps with
  | nil => simp
  | cons p ps ih =>
    rw [lookup_cons_ite, List.map_cons, List.mem_cons, ← ih]
    by_cases h : name = p.1
    · simp [h]
    · simp [h]

/-- A dictionary is its names, in their order, and what it holds for them. -/
theorem parsed_ext {ps qs : Parsed} (hkeys : ps.map Prod.fst = qs.map Prod.fst)
    (hnodup : (ps.map Prod.fst).Nodup) (hlookup : ∀ name, ps.lookup name = qs.lookup name) :
    ps = qs := by
  induction ps generalizing qs with
  | nil => exact (List.map_eq_nil_iff.mp hkeys.symm).symm
  | cons p ps ih =>
    cases qs with
    | nil => cases hkeys
    | cons q qs =>
      obtain ⟨hname, hrest⟩ := List.cons.inj hkeys
      obtain ⟨hfresh, hnodup'⟩ := List.nodup_cons.mp hnodup
      have hp := hlookup p.1
      rw [lookup_cons_ite, lookup_cons_ite, if_pos rfl, if_pos hname, Option.some_inj] at hp
      have htail : ps = qs := by
        refine ih hrest hnodup' fun name => ?_
        by_cases h : name = p.1
        · have hps : (ps.lookup name).isSome = false := by
            rw [Bool.eq_false_iff, Ne, isSome_lookup_iff, h]
            exact hfresh
          have hqs : (qs.lookup name).isSome = false := by
            rw [Bool.eq_false_iff, Ne, isSome_lookup_iff, ← hrest, h]
            exact hfresh
          rw [Option.isSome_eq_false_iff, Option.isNone_iff_eq_none] at hps hqs
          rw [hps, hqs]
        · have hall := hlookup name
          rwa [lookup_cons_ite, lookup_cons_ite, if_neg h, if_neg (hname ▸ h)] at hall
      rw [htail, Prod.ext hname hp]

/-! ## What a run keeps -/

/-- The pending sub-test is in the dictionary. -/
def Entered (s : State) : Prop := ∀ name, s.pending = some name → name ∈ s.parsed.map Prod.fst

theorem mem_keys_assign {name other : Txt} {o : Option Bucket} {ps : Parsed} :
    other ∈ (assign name o ps).map Prod.fst ↔ other = name ∨ other ∈ ps.map Prod.fst := by
  rw [← isSome_lookup_iff, ← isSome_lookup_iff, lookup_assign]
  by_cases h : other = name
  · simp [h]
  · simp [h]

theorem keys_prefix_assign (name : Txt) (o : Option Bucket) (ps : Parsed) :
    ps.map Prod.fst <+: (assign name o ps).map Prod.fst := by
  rcases keys_assign name o ps with hkeys | ⟨-, hkeys⟩
  · rw [hkeys]
  · rw [hkeys]
    exact List.prefix_append _ _

/-- One line adds names at the end at most, and what is pending after it is entered. -/
theorem step_keys {s s' : State} {l : Txt} (h : step s l = some s') (hs : Entered s) :
    s.parsed.map Prod.fst <+: s'.parsed.map Prod.fst ∧ Entered s' := by
  have hnone : ∀ name, (none : Option Txt) ≠ some name := fun _ h => nomatch h
  rw [step_kind] at h
  cases hkind : kindOf l with
  | header m =>
    simp only [hkind] at h
    split_ifs at h <;> cases h <;> exact ⟨List.prefix_rfl, fun name h => absurd h (hnone name)⟩
  | ran m =>
    simp only [hkind] at h
    obtain ⟨n, -, rfl⟩ := Option.map_eq_some_iff.mp h
    exact ⟨List.prefix_rfl, fun name h => absurd h (hnone name)⟩
  | failed m =>
    simp only [hkind] at h
    obtain ⟨c, -, rfl⟩ := Option.map_eq_some_iff.mp h
    exact ⟨List.prefix_rfl, fun name h => absurd h (hnone name)⟩
  | started m =>
    simp only [hkind, Option.some.injEq] at h
    subst h
    refine ⟨keys_prefix_assign _ _ _, fun name hname => ?_⟩
    simp only [State.began] at hname ⊢
    split_ifs at hname
    cases hname
    exact mem_keys_assign.mpr (Or.inl rfl)
  | other =>
    simp only [hkind] at h
    split at h
    · split at h
      · cases h
        exact ⟨keys_prefix_assign _ _ _, fun name h => absurd h (hnone name)⟩
      · cases h
        exact ⟨List.prefix_rfl, hs⟩
    · cases h
      exact ⟨List.prefix_rfl, hs⟩

theorem run_keys {ls : List Txt} : ∀ {s s' : State}, ls.foldlM step s = some s' → Entered s →
    s.parsed.map Prod.fst <+: s'.parsed.map Prod.fst ∧ Entered s' := by
  induction ls with
  | nil =>
    intro s s' h hs
    cases h
    exact ⟨List.prefix_rfl, hs⟩
  | cons l ls ih =>
    intro s s' h hs
    rw [List.foldlM_cons] at h
    obtain ⟨s₁, hstep, hrun⟩ := Option.bind_eq_some_iff.mp h
    obtain ⟨hkeys, hs₁⟩ := step_keys hstep hs
    obtain ⟨hkeys', hs'⟩ := ih hrun hs₁
    exact ⟨hkeys.trans hkeys', hs'⟩

theorem kindOf_blank : kindOf [] = .other := by
  have hforms : headerLine (strip []) = none ∧ ranLine (strip []) = none ∧
      failedLine (strip []) = none ∧ startLine (strip []) = none := by decide
  obtain ⟨hheader, hran, hfailed, hstart⟩ := hforms
  unfold kindOf
  rw [hheader, hran, hfailed, hstart]

theorem step_blank (s : State) : step s [] = some s := by
  have hclassify : classifyContinuation (strip []) = none := by decide
  rw [step_kind, kindOf_blank]
  simp only [hclassify]
  split <;> rfl

/-! ## The second copy -/

/-- The lines of the second copy leave the dictionary as the first has made it. -/
theorem parsed_again {ls : List Txt} {s₁ s₂ : State} (h₁ : ls.foldlM step start = some s₁)
    (h₂ : ls.foldlM step s₁ = some s₂) : s₂.parsed = s₁.parsed := by
  have hstart : Entered start := fun name h => nomatch h
  have hread (name : Txt) : s₁.parsed.lookup name = lastRead name ls := by
    rw [foldlM_lookup ls name h₁]
    simp [start]
  obtain ⟨-, hentered⟩ := run_keys h₁ hstart
  obtain ⟨hkeys, -⟩ := run_keys h₂ hentered
  have hlookup (name : Txt) : s₂.parsed.lookup name = s₁.parsed.lookup name := by
    rw [foldlM_lookup ls name h₂, hread]
    cases hlast : lastRead name ls with
    | some o => rfl
    | none =>
      -- without a header line the name is not pending at the seam
      have hnot : s₁.pending ≠ some name := by
        intro hpending
        have hmem := isSome_lookup_iff.mpr (hentered name hpending)
        rw [hread, hlast] at hmem
        cases hmem
      simp [hnot]
  have hnodup₁ : (s₁.parsed.map Prod.fst).Nodup := (counted_start.run h₁).nodup
  have hnodup₂ : (s₂.parsed.map Prod.fst).Nodup :=
    ((counted_start.run h₁).run h₂).nodup
  have hsub : s₂.parsed.map Prod.fst ⊆ s₁.parsed.map Prod.fst := by
    intro name hname
    rw [← isSome_lookup_iff, ← hlookup, isSome_lookup_iff]
    exact hname
  have hlength : (s₂.parsed.map Prod.fst).length ≤ (s₁.parsed.map Prod.fst).length :=
    (hnodup₂.subperm hsub).length_le
  exact parsed_ext (hkeys.eq_of_length_le hlength).symm hnodup₂ hlookup

/-- The parts of a summary that a second copy of the log must not change. -/
structure Reading where
  passed : Int
  skipped : Int
  expectedFailures : Int
  unresolvedNames : List Txt
  isClean : Bool

def ApexRunSummary.reading (x : ApexRunSummary) : Reading :=
  { passed := x.passed, skipped := x.skipped, expectedFailures := x.expectedFailures,
    unresolvedNames := x.unresolvedNames, isClean := x.isClean }

theorem reading_aggregate {ls ls' : List Txt} {s s' : State} (h : Counted ls s)
    (h' : Counted ls' s') (hparsed : s'.parsed = s.parsed)
    (hsilent : (∀ l ∈ ls', Silent l) ↔ ∀ l ∈ ls, Silent l)
    (hran : (∀ l ∈ ls', RanNothing l) ↔ ∀ l ∈ ls, RanNothing l) :
    (aggregate s').reading = (aggregate s).reading := by
  obtain ⟨hpass, hskip, hxfail, hnames, -⟩ := aggregate_eq s
  obtain ⟨hpass', hskip', hxfail', hnames', -⟩ := aggregate_eq s'
  have hzero : s'.ranTotal ≠ 0 ↔ s.ranTotal ≠ 0 :=
    not_congr ((h'.ran_iff.trans hran).trans h.ran_iff.symm)
  have hclean : (aggregate s').isClean = (aggregate s).isClean := by
    rw [Bool.eq_iff_iff, isClean_iff h, isClean_iff h', h.counts_iff, h'.counts_iff, hzero, hparsed,
      hsilent]
  unfold ApexRunSummary.reading
  rw [hpass, hskip, hxfail, hnames, hpass', hskip', hxfail', hnames', hclean, hparsed]

/-- A text that is captured twice reads like the text. -/
theorem parse_captured_twice (text : Txt) :
    (parseUnittestOutput (text ++ '\n' :: text)).map ApexRunSummary.reading =
      (parseUnittestOutput text).map ApexRunSummary.reading := by
  have hlines : ∃ seam : List Txt, (seam = [] ∨ seam = [[]]) ∧
      splitlines (text ++ '\n' :: text) = splitlines text ++ (seam ++ splitlines text) := by
    rcases splitlines_newline text text with h | h
    · exact ⟨[], Or.inl rfl, h⟩
    · exact ⟨[[]], Or.inr rfl, h⟩
  obtain ⟨seam, hseam, hlines⟩ := hlines
  have hblank (s : State) : seam.foldlM step s = some s := by
    rcases hseam with rfl | rfl
    · rfl
    · rw [List.foldlM_cons, step_blank]
      rfl
  unfold parseUnittestOutput
  rw [hlines]
  generalize splitlines text = ls
  cases h₁ : ls.foldlM step start with
  | none => rw [List.foldlM_append, h₁]; rfl
  | some s₁ =>
    have hreadable : (ls.foldlM step s₁).isSome :=
      (foldlM_isSome_iff ls s₁).mpr ((foldlM_isSome_iff ls start).mp (by rw [h₁]; rfl))
    obtain ⟨s₂, h₂⟩ := Option.isSome_iff_exists.mp hreadable
    have hrun : (ls ++ (seam ++ ls)).foldlM step start = some s₂ := by
      rw [List.foldlM_append, h₁, Option.bind_eq_bind, Option.bind_some, List.foldlM_append, hblank,
        Option.bind_eq_bind, Option.bind_some, h₂]
    have hcounted₁ := counted_start.run h₁
    have hcounted₂ := counted_start.run hrun
    rw [List.nil_append] at hcounted₁ hcounted₂
    have hmem {p : Txt → Prop} (hp : p []) :
        (∀ l ∈ ls ++ (seam ++ ls), p l) ↔ ∀ l ∈ ls, p l := by
      have hp' : ∀ l ∈ seam, p l := by
        rcases hseam with rfl | rfl
        · simp
        · simpa using hp
      rw [List.forall_mem_append, List.forall_mem_append]
      exact ⟨fun h => h.1, fun h => ⟨h, hp', h⟩⟩
    have hsilent : Silent [] := fun m hm => by
      rw [kindOf_blank] at hm
      cases hm
    have hnothing : RanNothing [] := fun m hm => by
      rw [kindOf_blank] at hm
      cases hm
    rw [hrun, Option.map_some, Option.map_some, Option.map_some, Option.map_some,
      reading_aggregate hcounted₁ hcounted₂ (parsed_again h₁ h₂) (hmem hsilent) (hmem hnothing)]

end Apex
end RocmTests
