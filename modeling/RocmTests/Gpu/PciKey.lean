import RocmTests.Gpu.PciMap

/-!
# Whose key is detected

Behind the labels of `amd-smi` and `rocm-smi` the first device id is paired with the next revision,
of whichever GPU that is; a line of `lspci` or sysfs has both of one GPU.  A revision is taken with
the digits it has.
-/

namespace RocmTests
namespace Gpu
namespace PciMap

open Collections Text Text.Re
open Monitored (isHexDigit)
open Markers (isSpace)

namespace Layout

variable {l : Layout} {d : Device} {b after : Txt}

/-! ## The first match of an output -/

theorem output_cons (d : Device) (ds : List Device) :
    l.output (d :: ds) = l.record d ++ l.behind ds := by
  unfold output behind
  by_cases hds : ds = []
  · rw [hds, if_pos rfl, List.append_nil, List.map_singleton, List.intercalate_singleton]
  · rw [List.map_cons, intercalate_cons _ _ (mt List.map_eq_nil_iff.mp hds), if_neg hds]
    rfl

theorem head_behind (ds : List Device) : l.behind ds = [] ∨ ∃ t, l.behind ds = '\n' :: t := by
  unfold behind
  split
  · exact Or.inl rfl
  · exact Or.inr ⟨_, rfl⟩

theorem run_behind {r : Re} (hr : Inside r) (ds : List Device) :
    run noWord r ⟨b, l.behind ds⟩ = [] := by
  rcases l.head_behind ds with h | ⟨t, h⟩
  · rw [h]
    exact hr.ending b
  · rw [h, run_eq_nil_iff]
    exact hr.newline b t [] ['\n'] rfl (List.cons_ne_nil _ _)

/-- What follows a revision ends its digits. -/
theorem ends_rev (hw : l.Written d) (ds : List Device) (c : Char)
    (hc : (d.trail ++ l.behind ds).head? = some c) : isHexDigit c = false := by
  cases htrail : d.trail with
  | nil =>
    rw [htrail, List.nil_append] at hc
    rcases l.head_behind ds with h | ⟨t, h⟩
    · rw [h] at hc
      cases hc
    · rw [h] at hc
      obtain rfl := Option.some.inj hc
      decide
  | cons a t =>
    rw [htrail] at hc
    exact hw.ends c (by rw [htrail]; exact hc)

/-- A pattern that begins in no record begins nowhere. -/
theorem quiet_output {r : Re} (hr : Inside r) {ds : List Device}
    (hquiet : ∀ d ∈ ds, ∀ b after, l.Clear b d after → Quiet noWord r b (l.record d) after) :
    ∀ {b}, l.Legible b ds → Quiet noWord r b (l.output ds) [] := by
  induction ds with
  | nil =>
    intro b _ u w hu hw
    exact absurd (List.append_eq_nil_iff.mp hu.symm).2 hw
  | cons d ds ih =>
    intro b ⟨hclear, hrest⟩
    have hrecord := hquiet d List.mem_cons_self b _ hclear
    have htail := ih (fun e he => hquiet e (List.mem_cons_of_mem d he)) hrest
    rw [output_cons]
    refine Quiet.append (by rwa [List.append_nil]) ?_
    unfold behind
    split
    · intro u w hu hw
      exact absurd (List.append_eq_nil_iff.mp hu.symm).2 hw
    · exact (hr.newline _ _).append htail

theorem behind_cons (d : Device) (ds : List Device) : l.behind (d :: ds) =
    '\n' :: (d.lead ++ (l.idText d ++ (d.mid ++ (l.revText d ++ (d.trail ++ l.behind ds))))) := by
  rw [behind, if_neg (List.cons_ne_nil d ds), output_cons, record]
  simp only [List.append_assoc]

/-- The first revision of an output, seen from behind the id of the first record. -/
theorem exists_rev (hl : l.Headed) {r : Txt} (ds : List Device) :
    ∀ {d b}, l.Legible b (d :: ds) → (∀ e ∈ d :: ds, l.Written e) →
      (d :: ds).findSome? (·.rev) = some r → ∃ e ∈ d :: ds, r ∈ e.rev ∧ ∃ x y,
        d.mid ++ (l.revText d ++ (d.trail ++ l.behind ds)) = x ++ (l.revField e r ++ y) ∧
          Quiet noWord l.revPattern b (d.lead ++ (l.idText d ++ x)) (l.revField e r ++ y) ∧
            ∀ c, y.head? = some c → isHexDigit c = false := by
  induction ds with
  | nil =>
    intro d b ⟨hclear, _⟩ hw h
    have hrev : d.rev = some r := by
      rw [List.findSome?_cons] at h
      cases hrev : d.rev with
      | some r' =>
        rw [hrev] at h
        exact h
      | none =>
        rw [hrev] at h
        cases h
    refine ⟨d, List.mem_cons_self, hrev, _, d.trail ++ l.behind [], ?_, hclear.rev r hrev,
      ends_rev (hw d List.mem_cons_self) []⟩
    rw [revText, hrev, Option.elim_some]
  | cons d' ds ih =>
    intro d b ⟨hclear, hrest⟩ hw h
    rw [List.findSome?_cons] at h
    cases hrev : d.rev with
    | some r' =>
      rw [hrev] at h
      obtain rfl := Option.some.inj h
      refine ⟨d, List.mem_cons_self, hrev, _, d.trail ++ l.behind (d' :: ds), ?_,
        hclear.rev r' hrev, ends_rev (hw d List.mem_cons_self) _⟩
      rw [revText, hrev, Option.elim_some]
    | none =>
      rw [hrev] at h
      obtain ⟨e, he, hr, x, y, hout, hquiet, hends⟩ :=
        ih hrest (fun e he => hw e (List.mem_cons_of_mem d he)) h
      have hrec : l.record d = d.lead ++ (l.idText d ++ (d.mid ++ d.trail)) := by
        rw [record, revText, hrev, Option.elim_none, List.nil_append]
      have hbehind : l.behind (d' :: ds) =
          ('\n' :: (d'.lead ++ (l.idText d' ++ x))) ++ (l.revField e r ++ y) := by
        rw [behind_cons, hout]
        simp only [List.append_assoc, List.cons_append]
      refine ⟨e, List.mem_cons_of_mem d he, hr,
        d.mid ++ (d.trail ++ '\n' :: (d'.lead ++ (l.idText d' ++ x))), y, ?_, ?_, hends⟩
      · rw [hbehind, revText, hrev, Option.elim_none, List.nil_append]
        simp only [List.append_assoc]
      · have hrecord := hclear.noRev hrev
        rw [hrec, hbehind] at hrecord
        rw [hrec] at hquiet
        have hall := hrecord.append (((inside_rev hl).newline _ _).append hquiet)
        simp only [List.append_assoc] at hall ⊢
        exact hall

/-- What the loop makes of the first match. -/
def Reads (l : Layout) (defaultRevision b text : Txt) : Option (Txt × Txt) → Prop
  | none => iterFrom l.pattern 0 b text = []
  | some (i, r) => ∃ k ks, iterFrom l.pattern 0 b text = k :: ks ∧
      keyOfMatch defaultRevision k = some (keyOf i r)

variable {defaultRevision : Txt}

theorem reads_skip {ds : List Device} {o : Option (Txt × Txt)}
    (hstill : Still l.pattern b (l.record d) (l.behind ds))
    (hnewline : ∀ b v, Still l.pattern b ['\n'] v)
    (h : l.Reads defaultRevision ('\n' :: ((l.record d).reverse ++ b)) (l.output ds) o) :
    l.Reads defaultRevision b (l.output (d :: ds)) o := by
  have heq : iterFrom l.pattern 0 b (l.output (d :: ds)) =
      iterFrom l.pattern 0 ('\n' :: ((l.record d).reverse ++ b)) (l.output ds) := by
    rw [output_cons, iterFrom_still hstill]
    unfold behind
    split
    · rename_i hds
      rw [hds]
      rfl
    · exact iterFrom_still (hnewline _ _)
  unfold Reads at h ⊢
  rwa [heq]

theorem reads_of_head {t : Txt} {k : Found} {i r : Txt} (hne : t ≠ [])
    (hk : (l.pattern ⟨b, t⟩).head? = some k)
    (hkey : keyOfMatch defaultRevision k = some (keyOf i r)) :
    l.Reads defaultRevision b t (some (i, r)) := by
  obtain ⟨ks, hks⟩ := iterFrom_head hne hk
  exact ⟨k, ks, hks, hkey⟩

theorem reads_still {x t : Txt} {o : Option (Txt × Txt)} (hstill : Still l.pattern b x t)
    (h : l.Reads defaultRevision (x.reverse ++ b) t o) : l.Reads defaultRevision b (x ++ t) o := by
  unfold Reads at h ⊢
  rwa [iterFrom_still hstill]

theorem keyOfMatch_both {p : Pos} {i r : Txt} (hi : i ≠ []) (hr : r ≠ []) :
    keyOfMatch defaultRevision ⟨p, [(1, i), (2, r)]⟩ = some (keyOf i r) := by
  unfold keyOfMatch
  simp only [show (⟨p, [(1, i), (2, r)]⟩ : Found).group 1 = i from rfl,
    show (⟨p, [(1, i), (2, r)]⟩ : Found).group 2 = r from rfl, if_neg hr]
  rw [if_pos ⟨hi, hr⟩]

theorem keyOfMatch_default {p : Pos} {i : Txt} (hi : i ≠ []) (hr : defaultRevision ≠ []) :
    keyOfMatch defaultRevision ⟨p, [(1, i)]⟩ = some (keyOf i defaultRevision) := by
  unfold keyOfMatch
  simp only [show (⟨p, [(1, i)]⟩ : Found).group 1 = i from rfl,
    show (⟨p, [(1, i)]⟩ : Found).group 2 = [] from rfl, if_true]
  rw [if_pos ⟨hi, hr⟩]

theorem Written.id_ne_nil (hw : l.Written d) {i : Txt} (hi : i ∈ d.id) : i ≠ [] := by
  intro hnil
  have hlen := (hw.id i hi).1
  rw [hnil] at hlen
  cases hlen

theorem record_of_id {i : Txt} (hid : d.id = some i) :
    l.record d = d.lead ++ (l.idField d i ++ (d.mid ++ (l.revText d ++ d.trail))) := by
  rw [record, idText, hid, Option.elim_some]

theorem idField_ne_nil (hl : l.Headed) (d : Device) (i : Txt) : l.idField d i ≠ [] := by
  match l, hl with
  | labelled idLabel r, ⟨⟨c, cs, hs, _⟩, _⟩ =>
    show idLabel.toList ++ _ ≠ []
    rw [hs]
    exact List.cons_ne_nil _ _
  | bracketed, _ => exact List.cons_ne_nil _ _

theorem reading_skip (ds : List Device) (h : l.skips d = true) :
    l.reading defaultRevision (d :: ds) = l.reading defaultRevision ds := by
  rw [reading, if_pos h]

theorem reading_here {i : Txt} (hid : d.id = some i) (ds : List Device) (h : l.skips d = false) :
    l.reading defaultRevision (d :: ds) =
      (l.revision defaultRevision d ds).map fun r => (i, r) := by
  rw [reading, h, hid]
  rfl

/-- The labels pair the first id with the first revision behind it. -/
theorem reads_labelled {i r : String} (heq : l = labelled i r) (hl : l.Headed) (ds : List Device) :
    ∀ {b}, l.Legible b ds → (∀ d ∈ ds, l.Written d) →
      l.Reads defaultRevision b (l.output ds) (l.reading defaultRevision ds) := by
  have hpat : l.pattern = lazily noWord (fun _ => true) l.idPattern l.revPattern := by rw [heq]; rfl
  have hskips : ∀ e, l.skips e = e.id.isNone := by rw [heq]; exact fun _ => rfl
  induction ds with
  | nil => exact fun _ _ => rfl
  | cons d ds ih =>
    intro b hleg hw
    obtain ⟨hclear, hrest⟩ := id hleg
    have hd := hw d List.mem_cons_self
    cases hid : d.id with
    | none =>
      rw [reading_skip ds (by rw [hskips, hid]; rfl)]
      refine reads_skip ?_ (fun b v => ?_) (ih hrest fun e he => hw e (List.mem_cons_of_mem d he))
      · rw [hpat]
        exact still_lazily (hclear.noId hid)
      · rw [hpat]
        exact still_lazily ((inside_id hl).newline b v)
    | some i =>
      have hsome : l.reading defaultRevision (d :: ds) =
          ((d :: ds).findSome? (·.rev)).map fun v => (i, v) := by
        rw [reading_here hid ds (by rw [hskips, hid]; rfl), heq]
        rfl
      have htext : l.idText d = l.idField d i := by rw [idText, hid, Option.elim_some]
      rw [hsome]
      cases hrev : (d :: ds).findSome? (·.rev) with
      | none =>
        have hquiet : Quiet noWord l.revPattern b (l.output (d :: ds)) [] := by
          refine quiet_output (inside_rev hl) (fun e he b after hclear => ?_) hleg
          exact hclear.noRev (List.findSome?_eq_none_iff.mp hrev e he)
        show iterFrom _ 0 _ _ = []
        rw [hpat]
        exact iterFrom_eq_nil (still_of_second hquiet (inside_rev hl).ending)
      | some r =>
        obtain ⟨e, he, hr, x, y, hout, hquiet, hends⟩ := exists_rev hl ds hleg hw hrev
        have hfield := idField_ne_nil hl d i
        rw [output_cons, record_of_id hid]
        simp only [List.append_assoc]
        rw [hout]
        rw [htext] at hquiet
        have hmatch := lazily_takes (p := fun _ => true) (takes_idField hl hd hid)
          (takes_revField hl (hw e he) hr hends) (fun _ _ => rfl) hquiet.drop.drop
        rw [← hpat] at hmatch
        refine reads_still ?_ (reads_of_head (List.append_ne_nil_of_left_ne_nil hfield _) hmatch ?_)
        · rw [hpat, ← hout]
          exact still_lazily (hclear.id i hid)
        · exact keyOfMatch_both (hd.id_ne_nil hid) ((hw e he).rev r hr).1

/-- A line of `lspci` gives its own id and its own revision. -/
theorem reads_bracketed (heq : l = bracketed) (hdefault : defaultRevision ≠ []) (ds : List Device) :
    ∀ {b}, l.Legible b ds → (∀ d ∈ ds, l.Written d) →
      l.Reads defaultRevision b (l.output ds) (l.reading defaultRevision ds) := by
  have hpat : l.pattern = lazilyOpt noWord (fun c => c ≠ '\n') l.idPattern l.revPattern := by
    rw [heq]; rfl
  have hskips : ∀ e, l.skips e = e.id.isNone := by rw [heq]; exact fun _ => rfl
  have hl : l.Headed := by rw [heq]; trivial
  induction ds with
  | nil => exact fun _ _ => rfl
  | cons d ds ih =>
    intro b ⟨hclear, hrest⟩ hw
    have hd := hw d List.mem_cons_self
    have hline : '\n' ∉ d.mid ++ d.trail := by
      have haround := hd.around
      rw [heq] at haround
      exact haround.2.2
    cases hid : d.id with
    | none =>
      rw [reading_skip ds (by rw [hskips, hid]; rfl)]
      refine reads_skip ?_ (fun b v => ?_) (ih hrest fun e he => hw e (List.mem_cons_of_mem d he))
      · rw [hpat]
        exact still_lazilyOpt (hclear.noId hid)
      · rw [hpat]
        exact still_lazilyOpt ((inside_id hl).newline b v)
    | some i =>
      have hsome : l.reading defaultRevision (d :: ds) = some (i, d.rev.getD defaultRevision) := by
        rw [reading_here hid ds (by rw [hskips, hid]; rfl), heq]
        rfl
      have htext : l.idText d = l.idField d i := by rw [idText, hid, Option.elim_some]
      have hfield := idField_ne_nil hl d i
      have hstill : Still l.pattern b d.lead
          (l.idField d i ++ (d.mid ++ (l.revText d ++ (d.trail ++ l.behind ds)))) := by
        rw [hpat]
        exact still_lazilyOpt (hclear.id i hid)
      rw [hsome, output_cons, record_of_id hid]
      simp only [List.append_assoc]
      refine reads_still hstill ?_
      cases hrev : d.rev with
      | some r =>
        have hquiet := hclear.rev r hrev
        rw [htext] at hquiet
        rw [revText, hrev, Option.elim_some]
        have hgap : ∀ c ∈ d.mid, decide (c ≠ '\n') = true := fun c hc =>
          decide_eq_true fun h => hline (List.mem_append_left _ (h ▸ hc))
        have hmatch := lazilyOpt_takes (p := fun c => c ≠ '\n') (takes_idField hl hd hid)
          (takes_revField hl hd hrev (ends_rev hd ds)) hgap hquiet.drop.drop
        rw [← hpat] at hmatch
        exact reads_of_head (List.append_ne_nil_of_left_ne_nil hfield _) hmatch
          (keyOfMatch_both (hd.id_ne_nil hid) (hd.rev r hrev).1)
      | none =>
        have hquiet := hclear.noRev hrev
        rw [record, htext, revText, hrev, Option.elim_none, List.nil_append] at hquiet
        rw [revText, hrev, Option.elim_none, List.nil_append]
        have hgap : runLazy noWord (fun c => c ≠ '\n') l.revPattern
            ((l.idField d i).reverse ++ (d.lead.reverse ++ b))
              (d.mid ++ (d.trail ++ l.behind ds)) = [] := by
          rw [← List.append_assoc d.mid]
          refine runLazy_eq_nil hquiet.drop.drop (run_behind (inside_rev hl) ds) fun c hc => ?_
          rcases l.head_behind ds with h | ⟨t, h⟩
          · rw [h] at hc
            cases hc
          · rw [h] at hc
            obtain rfl := Option.some.inj hc
            rfl
        have hmatch := lazilyOpt_missing (takes_idField hl hd hid) hgap
        rw [← hpat] at hmatch
        exact reads_of_head (List.append_ne_nil_of_left_ne_nil hfield _) hmatch
          (keyOfMatch_default (hd.id_ne_nil hid) hdefault)

/-! ### Sysfs -/

theorem matches_hexFour {b m v : Txt} (h : Matches noWord hexFour b m v) :
    ∀ c ∈ m, isHexDigit c = true := by
  have hall := matches_classes.mp h
  have hlen : m.length = 4 := hall.length_eq.symm
  rw [← hlen, ← List.map_const', List.forall₂_map_left_iff] at hall
  exact List.forall₂_same.mp hall

theorem matches_hexOneOrTwo {b m v : Txt} (h : Matches noWord hexOneOrTwo b m v) :
    m ≠ [] ∧ ∀ c ∈ m, isHexDigit c = true := by
  obtain ⟨m₁, m₂, rfl, h₁, h₂⟩ := matches_seq.mp h
  obtain ⟨c, rfl, hc⟩ := matches_cls.mp h₁
  refine ⟨List.cons_ne_nil c m₂, fun d hd => ?_⟩
  rcases List.mem_cons.mp hd with rfl | hd
  · exact hc
  · rcases matches_alt.mp h₂ with h₂ | h₂
    · obtain ⟨e, rfl, he⟩ := matches_cls.mp h₂
      rwa [List.mem_singleton.mp hd]
    · rw [matches_eps.mp h₂] at hd
      cases hd

/-- A match is two numbers with an underscore between them. -/
theorem matches_underscored {b m v : Txt}
    (h : Matches noWord (seq underscored.idPattern underscored.revPattern) b m v) :
    ∃ i r : Txt, m = ('0' :: 'x' :: i) ++ '_' :: '0' :: 'x' :: r ∧ '\n' ∉ m := by
  obtain ⟨m₁, m₂, rfl, h₁, h₂⟩ := matches_seq.mp h
  obtain ⟨x, i, rfl, hx, hi⟩ := matches_cat_cons.mp h₁
  obtain ⟨y, r, rfl, hy, hr⟩ := matches_cat_cons.mp h₂
  obtain rfl := matches_lit.mp hx
  obtain rfl := matches_lit.mp hy
  refine ⟨i, r, rfl, fun hmem => ?_⟩
  have hhex : ∀ t : Txt, (∀ c ∈ t, isHexDigit c = true) → '\n' ∉ t := fun t ht hn =>
    absurd (ht _ hn) (by decide)
  have hi := hhex i (matches_hexFour (matches_group.mp hi))
  have hr := hhex r (matches_hexOneOrTwo (matches_group.mp hr)).2
  simp only [List.mem_append] at hmem
  rcases hmem with (h | h) | h | h
  · exact absurd h (by decide)
  · exact hi h
  · exact absurd h (by decide)
  · exact hr h

theorem record_underscored (hw : underscored.Written d) :
    underscored.record d = underscored.idText d ++ '_' :: underscored.revText d := by
  obtain ⟨hlead, hmid, htrail⟩ := hw.around
  rw [record, hlead, hmid, htrail, List.append_nil]
  rfl

theorem not_mem_number {t : Txt} (h : ∀ c ∈ t, isHexDigit c = true) : '_' ∉ "0x".toList ++ t := by
  intro hmem
  rcases List.mem_append.mp hmem with hmem | hmem
  · exact absurd hmem (by decide)
  · exact absurd (h _ hmem) (by decide)

theorem not_mem_fields (hw : underscored.Written d) :
    '_' ∉ underscored.idText d ∧ '_' ∉ underscored.revText d := by
  unfold idText revText
  constructor
  · cases hid : d.id with
    | none => exact List.not_mem_nil
    | some i => exact not_mem_number (hw.id i hid).2
  · cases hrev : d.rev with
    | none => exact List.not_mem_nil
    | some r => exact not_mem_number (hw.rev r hrev).2

/-- A text without a line end that begins in a record ends in it. -/
theorem exists_of_behind {m v w : Txt} {ds : List Device} (hm : '\n' ∉ m)
    (h : w ++ l.behind ds = m ++ v) : ∃ z, w = m ++ z := by
  rcases List.append_eq_append_iff.mp h with ⟨t, rfl, ht⟩ | ⟨t, hw, -⟩
  · cases t with
    | nil => exact ⟨[], by rw [List.append_nil, List.append_nil]⟩
    | cons c t =>
      rcases l.head_behind ds with hnil | ⟨z, hz⟩
      · rw [hnil] at ht
        cases ht
      · rw [hz, List.cons_append, List.cons.injEq] at ht
        exact absurd (List.mem_append_right w (ht.1 ▸ List.mem_cons_self)) hm
  · exact ⟨t, hw⟩

/-- A sysfs line without one of its numbers is passed over. -/
theorem still_underscored (hw : underscored.Written d) (hmissing : d.id = none ∨ d.rev = none)
    (ds : List Device) :
    Still underscored.pattern b (underscored.record d) (underscored.behind ds) := by
  refine still_run fun u w hu hne => ?_
  rw [matchAt_eq_none_iff]
  intro m v hm hmatch
  obtain ⟨i, r, hir, hline⟩ := matches_underscored hmatch
  obtain ⟨z, rfl⟩ := exists_of_behind hline hm
  obtain ⟨hid, hrev⟩ := not_mem_fields hw
  have hsplit : underscored.idText d ++ '_' :: underscored.revText d =
      (u ++ '0' :: 'x' :: i) ++ '_' :: ('0' :: 'x' :: r ++ z) := by
    rw [← record_underscored hw, hu, hir]
    simp only [List.append_assoc, List.cons_append]
  -- the line has one underscore, so both numbers are there
  obtain ⟨hleft, -, hright⟩ := (List.append_cons_inj_of_notMem hid hrev).mp hsplit
  rcases hmissing with hnone | hnone
  · rw [idText, hnone, Option.elim_none] at hleft
    exact absurd (List.append_eq_nil_iff.mp hleft.symm).2 (List.cons_ne_nil _ _)
  · rw [revText, hnone, Option.elim_none] at hright
    cases hright

theorem inside_underscored : Inside (seq underscored.idPattern underscored.revPattern) :=
  (inside_of_lit (s := "0x") rfl (by decide) _).seq _

theorem takes_underscored (hw : underscored.Written d) {i r : Txt} (hi : i ∈ d.id)
    (hr : r ∈ d.rev) (hafter : ∀ c, after.head? = some c → isHexDigit c = false) :
    Takes noWord (seq underscored.idPattern underscored.revPattern) b
      (("0x".toList ++ i) ++ ("_0x".toList ++ r)) after [(1, i), (2, r)] := by
  obtain ⟨hlen, hihex⟩ := hw.id i hi
  obtain ⟨hne, hrhex⟩ := hw.rev r hr
  have hid : Takes noWord underscored.idPattern b ("0x".toList ++ i)
      (("_0x".toList ++ r) ++ after) [(1, i)] :=
    (takes_lit "0x").cat_plain ((takes_hexFour hlen hihex).group 1)
  have hrev : ∀ b, Takes noWord underscored.revPattern b ("_0x".toList ++ r) after [(2, r)] :=
    fun b => (takes_lit "_0x").cat_plain
      ((takes_hexOneOrTwo hne (hw.narrow r hr) hrhex hafter).group 2)
  exact hid.seq (hrev _)

/-- A line of sysfs gives both of its numbers or none. -/
theorem reads_underscored (ds : List Device) :
    ∀ {b}, (∀ d ∈ ds, underscored.Written d) →
      underscored.Reads defaultRevision b (underscored.output ds)
        (underscored.reading defaultRevision ds) := by
  induction ds with
  | nil => exact fun _ => rfl
  | cons d ds ih =>
    intro b hw
    have hd := hw d List.mem_cons_self
    have hskip : d.id = none ∨ d.rev = none → underscored.Reads defaultRevision b
        (underscored.output (d :: ds)) (underscored.reading defaultRevision ds) := fun hnone =>
      reads_skip (still_underscored hd hnone ds)
        (fun b v => still_run (inside_underscored.newline b v))
        (ih fun e he => hw e (List.mem_cons_of_mem d he))
    cases hid : d.id with
    | none =>
      rw [reading_skip ds (by rw [skips, hid]; rfl)]
      exact hskip (Or.inl hid)
    | some i =>
      cases hrev : d.rev with
      | none =>
        rw [reading_skip ds (by rw [skips, hid, hrev]; rfl)]
        exact hskip (Or.inr hrev)
      | some r =>
        have hsome : underscored.reading defaultRevision (d :: ds) = some (i, r) := by
          rw [reading_here hid ds (by rw [skips, hid, hrev]; rfl), revision, hrev]
          rfl
        have htrail := hd.around.2.2
        have hends := ends_rev hd ds
        rw [htrail, List.nil_append] at hends
        have hout : underscored.output (d :: ds) =
            (("0x".toList ++ i) ++ ("_0x".toList ++ r)) ++ underscored.behind ds := by
          rw [output_cons, record_underscored hd, idText, revText, hid, hrev]
          rfl
        rw [hsome, hout]
        exact reads_of_head (List.cons_ne_nil _ _) (takes_underscored hd hid hrev hends)
          (keyOfMatch_both (hd.id_ne_nil hid) (hd.rev r hrev).1)

end Layout

/-! ## The methods -/

section

variable {m : Method} {ds : List Device}

/-- The labels are words, and only `lspci` has a default, which is one that can stand there. -/
theorem method_cases (hm : m ∈ detectionMethods) :
    (∃ i r, m.layout = .labelled i r ∧ m.layout.Headed) ∧ m.defaultRevision = [] ∨
      m.layout = .bracketed ∧ m.defaultRevision = "00".toList ∨
        m.layout = .underscored ∧ m.defaultRevision = [] := by
  have hamd : (Layout.labelled "DEVICE_ID:" "REV_ID:").Headed :=
    ⟨⟨'D', "EVICE_ID:".toList, rfl, by decide⟩, 'R', "EV_ID:".toList, rfl, by decide⟩
  have hrocm : (Layout.labelled "Device ID:" "Device Rev:").Headed :=
    ⟨⟨'D', "evice ID:".toList, rfl, by decide⟩, 'D', "evice Rev:".toList, rfl, by decide⟩
  simp only [detectionMethods, List.mem_cons, List.not_mem_nil, or_false] at hm
  rcases hm with rfl | rfl | rfl | rfl | rfl
  · exact Or.inl ⟨⟨_, _, rfl, hamd⟩, rfl⟩
  · exact Or.inl ⟨⟨_, _, rfl, hamd⟩, rfl⟩
  · exact Or.inl ⟨⟨_, _, rfl, hrocm⟩, rfl⟩
  · exact Or.inr (Or.inl ⟨rfl, rfl⟩)
  · exact Or.inr (Or.inr ⟨rfl, rfl⟩)

/-- What the code makes of the output that lists these GPUs. -/
def Method.key (m : Method) (ds : List Device) : Txt :=
  deviceRevisionFromOutput (m.layout.output ds) m.layout.pattern m.defaultRevision

/-- The code reads the first id and the revision that goes with it. -/
theorem key_eq (hm : m ∈ detectionMethods) (h : m.layout.Listing ds) :
    m.key ds = (m.layout.reading m.defaultRevision ds).elim [] fun p => keyOf p.1 p.2 := by
  have hreads : m.layout.Reads m.defaultRevision [] (m.layout.output ds)
      (m.layout.reading m.defaultRevision ds) := by
    rcases method_cases hm with ⟨⟨i, r, heq, hl⟩, -⟩ | ⟨heq, hdefault⟩ | ⟨heq, -⟩
    · have hleg := h.legible (by rw [heq]; exact Layout.noConfusion)
      exact Layout.reads_labelled heq hl ds hleg h.written
    · have hleg := h.legible (by rw [heq]; exact Layout.noConfusion)
      exact Layout.reads_bracketed heq (by rw [hdefault]; decide) ds hleg h.written
    · have hw := h.written
      rw [heq] at hw ⊢
      exact Layout.reads_underscored ds hw
  unfold Method.key deviceRevisionFromOutput finditer
  cases hread : m.layout.reading m.defaultRevision ds with
  | none =>
    rw [hread] at hreads
    rw [show iterFrom _ 0 _ _ = [] from hreads]
    rfl
  | some p =>
    rw [hread] at hreads
    obtain ⟨k, ks, hk, hkey⟩ := hreads
    rw [hk, List.findSome?_cons, hkey]
    rfl

/-- What the record says that the GPU is. -/
def Device.IsGpu (defaultRevision : Txt) (d : Device) (g : PciId) : Prop :=
  (∃ i ∈ d.id, hexValue i = g.device) ∧
    d.rev.getD defaultRevision ≠ [] ∧ hexValue (d.rev.getD defaultRevision) = g.revision

/-- The key is empty, or it has the form of a key and is that of one of the GPUs that are listed.
What the key of a GPU is does not depend on the method. -/
def Canonical (m : Method) (ds : List Device) : Prop :=
  m.key ds = [] ∨ IsKey (m.key ds) ∧
    ∃ d ∈ ds, ∃ g : PciId, d.IsGpu m.defaultRevision g ∧ m.key ds = g.key

/-- The revision that is taken for a GPU whose own is missing. -/
def Layout.borrowed : Layout → List Device → Option Txt
  | labelled _ _, post => post.findSome? (·.rev)
  | _, _ => none

/-- The GPU has the id `i` and the revision `r`, in whatever width. -/
def Device.Prints (d : Device) (i r : Txt) : Prop :=
  (∃ i' ∈ d.id, hexValue i' = hexValue i) ∧ ∃ r' ∈ d.rev, hexValue r' = hexValue r

/-- The first GPU of the list in whose record a match can begin shows a revision of two digits.  If
it shows none, so does the next one that shows any, and some GPU has this id and this revision. -/
def Settled (l : Layout) (ds : List Device) : Prop :=
  ∀ d post, ds.dropWhile l.skips = d :: post → (∀ r ∈ d.rev, r.length = 2) ∧
    (d.rev = none → ∀ i ∈ d.id, ∀ r ∈ l.borrowed post, r.length = 2 ∧ ∃ e ∈ ds, e.Prints i r)

theorem keyOf_eq {i r : Txt} (hi : i.length = 4 ∧ ∀ c ∈ i, isHexDigit c = true)
    (hr : r.length = 2 ∧ ∀ c ∈ r, isHexDigit c = true) :
    ∃ g : PciId, g.device = hexValue i ∧ g.revision = hexValue r ∧ keyOf i r = g.key := by
  obtain ⟨hid, hlt⟩ := hex_hexValue hi.2
  obtain ⟨hrev, hlt'⟩ := hex_hexValue hr.2
  rw [hi.1] at hid hlt
  rw [hr.1] at hrev hlt'
  refine ⟨⟨⟨hexValue i, hlt⟩, ⟨hexValue r, hlt'⟩⟩, rfl, rfl, ?_⟩
  rw [keyOf, ← hid, ← hrev]
  rfl

/-- A key is that of a GPU exactly when the revision has two digits. -/
theorem keyOf_iff {i r : Txt} (hi : i.length = 4 ∧ ∀ c ∈ i, isHexDigit c = true)
    (hr : ∀ c ∈ r, isHexDigit c = true) (g : PciId) :
    keyOf i r = g.key ↔
      r.length = 2 ∧ hexValue i = g.device ∧ hexValue r = g.revision := by
  constructor
  · intro h
    have hlen := congrArg List.length h
    rw [keyOf, PciId.key, List.length_append, List.length_append, List.length_cons,
      List.length_cons, length_hex, length_hex, lower, lower, List.length_map, List.length_map,
      hi.1] at hlen
    have htwo : r.length = 2 := by omega
    obtain ⟨g', hdev, hrev, hkey⟩ := keyOf_eq hi ⟨htwo, hr⟩
    have hsplit := List.append_inj (hkey.symm.trans h) (by rw [length_hex, length_hex])
    have hvalue := congrArg hexValue hsplit.1
    have hvalue' := congrArg hexValue (List.cons.inj hsplit.2).2
    rw [hexValue_hex 4 g'.device.isLt, hexValue_hex 4 g.device.isLt] at hvalue
    rw [hexValue_hex 2 g'.revision.isLt, hexValue_hex 2 g.revision.isLt] at hvalue'
    exact ⟨htwo, hdev ▸ hvalue, hrev ▸ hvalue'⟩
  · rintro ⟨htwo, hdev, hrev⟩
    obtain ⟨g', hdev', hrev', hkey⟩ := keyOf_eq hi ⟨htwo, hr⟩
    have hg : g' = g := by
      cases g'
      cases g
      simp only [PciId.mk.injEq]
      exact ⟨Fin.ext (hdev'.trans hdev), Fin.ext (hrev'.trans hrev)⟩
    rw [hkey, hg]

theorem reading_dropWhile (l : Layout) (defaultRevision : Txt) (ds : List Device) :
    l.reading defaultRevision ds = l.reading defaultRevision (ds.dropWhile l.skips) := by
  induction ds with
  | nil => rfl
  | cons d ds ih =>
    by_cases hd : l.skips d = true
    · rw [Layout.reading_skip ds hd, List.dropWhile_cons_of_pos hd, ih]
    · rw [List.dropWhile_cons_of_neg hd]

theorem skips_of_dropWhile {l : Layout} {d : Device} {post : List Device}
    (h : ds.dropWhile l.skips = d :: post) : l.skips d = false ∧ d ∈ ds ∧ ∀ e ∈ post, e ∈ ds := by
  have hsub := (List.dropWhile_suffix l.skips (l := ds)).subset
  rw [h] at hsub
  refine ⟨?_, hsub List.mem_cons_self, fun e he => hsub (List.mem_cons_of_mem d he)⟩
  have hhead := List.head?_dropWhile_not l.skips ds
  rw [h] at hhead
  exact hhead

theorem id_of_skips {l : Layout} {d : Device} (h : l.skips d = false) : ∃ i, d.id = some i := by
  apply Option.isSome_iff_exists.mp
  cases hid : d.id with
  | some i => rfl
  | none =>
    cases l <;> rw [Layout.skips, hid] at h <;> cases h

/-- Of what is read, the key is that of a GPU exactly when the revision has two digits and a record
holds both. -/
theorem canonical_iff_of_reading (hm : m ∈ detectionMethods) (h : m.layout.Listing ds) {i r : Txt}
    (hread : m.layout.reading m.defaultRevision ds = some (i, r))
    (hi : i.length = 4 ∧ ∀ c ∈ i, isHexDigit c = true) (hr : ∀ c ∈ r, isHexDigit c = true) :
    Canonical m ds ↔ r.length = 2 ∧ ∃ d ∈ ds, (∃ i' ∈ d.id, hexValue i' = hexValue i) ∧
      d.rev.getD m.defaultRevision ≠ [] ∧
        hexValue (d.rev.getD m.defaultRevision) = hexValue r := by
  have hkey : m.key ds = keyOf i r := by
    rw [key_eq hm h, hread]
    rfl
  unfold Canonical
  rw [hkey]
  constructor
  · intro hcan
    obtain ⟨-, d, hd, g, ⟨⟨i', hi', hdev⟩, hne, hrev⟩, heq⟩ :=
      hcan.resolve_left (List.append_ne_nil_of_right_ne_nil _ (List.cons_ne_nil _ _))
    obtain ⟨htwo, hi₂, hr₂⟩ := (keyOf_iff hi hr g).mp heq
    exact ⟨htwo, d, hd, ⟨i', hi', hdev.trans hi₂.symm⟩, hne, hrev.trans hr₂.symm⟩
  · intro ⟨htwo, d, hd, ⟨i', hi', hdev⟩, hne, hrev⟩
    obtain ⟨g, hg, hg', heq⟩ := keyOf_eq hi ⟨htwo, hr⟩
    right
    rw [heq]
    exact ⟨g.isKey, d, hd, g, ⟨⟨i', hi', hdev.trans hg.symm⟩, hne, hrev.trans hg'.symm⟩, rfl⟩

theorem canonical_of_reading_none (hm : m ∈ detectionMethods) (h : m.layout.Listing ds)
    (hread : m.layout.reading m.defaultRevision ds = none) : Canonical m ds := by
  left
  rw [key_eq hm h, hread]
  rfl

/-- The revision is the GPU's own. -/
theorem canonical_iff_of_own (hm : m ∈ detectionMethods) (h : m.layout.Listing ds) {d : Device}
    (hd : d ∈ ds) {i : Txt} (hid : d.id = some i)
    (hread : m.layout.reading m.defaultRevision ds = some (i, d.rev.getD m.defaultRevision))
    (hne : d.rev.getD m.defaultRevision ≠ [])
    (hr : ∀ c ∈ d.rev.getD m.defaultRevision, isHexDigit c = true) :
    Canonical m ds ↔ (d.rev.getD m.defaultRevision).length = 2 := by
  rw [canonical_iff_of_reading hm h hread ((h.written d hd).id i hid) hr]
  exact and_iff_left ⟨d, hd, ⟨i, hid, rfl⟩, hne, rfl⟩

theorem revision_own (l : Layout) (defaultRevision : Txt) {d : Device} {r : Txt}
    (h : d.rev = some r) (post : List Device) : l.revision defaultRevision d post = some r := by
  cases l with
  | labelled i r' => rw [Layout.revision, List.findSome?_cons, h]
  | bracketed => rw [Layout.revision, h, Option.getD_some]
  | underscored => rw [Layout.revision, h]

/-- Behind the labels, the revision of another GPU may be taken. -/
theorem canonical_iff_borrowed (hm : m ∈ detectionMethods) (h : m.layout.Listing ds) {d : Device}
    {post : List Device} (hd : d ∈ ds) (hpost : ∀ e ∈ post, e ∈ ds) {i : Txt} (hid : d.id = some i)
    (hdefault : m.defaultRevision = [])
    (hread : m.layout.reading m.defaultRevision ds =
      (post.findSome? (·.rev)).map fun r => (i, r)) :
    Canonical m ds ↔
      ∀ r ∈ post.findSome? (·.rev), r.length = 2 ∧ ∃ e ∈ ds, e.Prints i r := by
  cases hnext : post.findSome? (·.rev) with
  | none =>
    rw [hnext] at hread
    refine iff_of_true (canonical_of_reading_none hm h hread) fun r hr => ?_
    cases hr
  | some r =>
    rw [hnext] at hread
    obtain ⟨e, he, her⟩ := List.exists_of_findSome?_eq_some hnext
    have hr := ((h.written e (hpost e he)).rev r her).2
    rw [canonical_iff_of_reading hm h hread ((h.written d hd).id i hid) hr, hdefault]
    have hprints : ∀ e ∈ ds, e.Prints i r ↔ (∃ i' ∈ e.id, hexValue i' = hexValue i) ∧
        e.rev.getD [] ≠ [] ∧ hexValue (e.rev.getD []) = hexValue r := by
      intro e he
      refine and_congr_right fun _ => ?_
      cases hrev : e.rev with
      | none => exact iff_of_false (fun ⟨_, h, _⟩ => nomatch h) fun h => h.1 rfl
      | some r' =>
        have hne := ((h.written e he).rev r' hrev).1
        simp only [Option.mem_some_iff, exists_eq_left', Option.getD_some, ne_eq, hne,
          not_false_eq_true, true_and]
    constructor
    · intro ⟨htwo, e, he, hsame⟩ r' hr'
      obtain rfl := Option.some.inj hr'
      exact ⟨htwo, e, he, (hprints e he).mpr hsame⟩
    · intro hall
      obtain ⟨htwo, e, he, hsame⟩ := hall r rfl
      exact ⟨htwo, e, he, (hprints e he).mp hsame⟩

/-- The key is canonical exactly when the revision that is taken has two digits and is one of a GPU
with the id. -/
theorem canonical_iff (hm : m ∈ detectionMethods) (h : m.layout.Listing ds) :
    Canonical m ds ↔ Settled m.layout ds := by
  have hread := reading_dropWhile m.layout m.defaultRevision ds
  cases hdrop : ds.dropWhile m.layout.skips with
  | nil =>
    rw [hdrop] at hread
    refine iff_of_true (canonical_of_reading_none hm h hread) fun d post heq => ?_
    rw [hdrop] at heq
    cases heq
  | cons d post =>
    obtain ⟨hskips, hd, hpost⟩ := skips_of_dropWhile hdrop
    obtain ⟨i, hid⟩ := id_of_skips hskips
    have hw := h.written d hd
    have hsettled : Settled m.layout ds ↔ (∀ r ∈ d.rev, r.length = 2) ∧
        (d.rev = none → ∀ i ∈ d.id, ∀ r ∈ m.layout.borrowed post,
          r.length = 2 ∧ ∃ e ∈ ds, e.Prints i r) := by
      constructor
      · exact fun hs => hs d post hdrop
      · intro hs d' post' heq
        rw [hdrop] at heq
        obtain ⟨rfl, rfl⟩ := List.cons.inj heq
        exact hs
    rw [hdrop, Layout.reading_here hid post hskips] at hread
    rw [hsettled]
    cases hrev : d.rev with
    | some r =>
      rw [revision_own _ _ hrev] at hread
      have hgetD : d.rev.getD m.defaultRevision = r := by rw [hrev, Option.getD_some]
      obtain ⟨hne, hhex⟩ := hw.rev r hrev
      rw [canonical_iff_of_own hm h hd hid (by rw [hgetD]; exact hread) (by rwa [hgetD])
        (by rwa [hgetD]), hgetD]
      constructor
      · intro htwo
        refine ⟨fun r' hr' => ?_, fun hnone => nomatch hnone⟩
        obtain rfl := Option.some.inj hr'
        exact htwo
      · exact fun hs => hs.1 r rfl
    | none =>
      have hvacuous : ∀ r ∈ (none : Option Txt), r.length = 2 := fun r hr => nomatch hr
      rcases method_cases hm with ⟨⟨i', r', heq, -⟩, hdefault⟩ | ⟨heq, hdefault⟩ | ⟨heq, -⟩
      · have hrevision : m.layout.revision m.defaultRevision d post = post.findSome? (·.rev) := by
          rw [heq, Layout.revision, List.findSome?_cons, hrev]
        rw [hrevision] at hread
        rw [canonical_iff_borrowed hm h hd hpost hid hdefault hread, heq]
        constructor
        · intro hall
          refine ⟨hvacuous, fun _ i₂ hi₂ => ?_⟩
          obtain rfl := Option.some.inj (hid.symm.trans hi₂)
          exact hall
        · exact fun hs => hs.2 rfl i hid
      · have hgetD : d.rev.getD m.defaultRevision = "00".toList := by rw [hrev, hdefault]; rfl
        have hrevision : m.layout.revision m.defaultRevision d post =
            some (d.rev.getD m.defaultRevision) := by rw [heq]; rfl
        rw [hrevision] at hread
        have hzeros : ∀ c ∈ d.rev.getD m.defaultRevision, isHexDigit c = true := by
          intro c hc
          rw [hgetD] at hc
          obtain rfl : c = '0' := by simpa using hc
          rfl
        rw [canonical_iff_of_own hm h hd hid hread (by rw [hgetD]; decide) hzeros, hgetD, heq]
        exact iff_of_true rfl ⟨hvacuous, fun _ _ _ r hr => nomatch hr⟩
      · rw [heq, Layout.skips, hrev] at hskips
        simp at hskips

/-- What `amd-smi` prints of one GPU, with or without a revision. -/
def amdSmiRecord (r : Option Txt) : Device :=
  { lead := "GPU: 0\n".toList, idBlank := [' '], id := some "74A1".toList, mid := ['\n'],
    revBlank := [' '], rev := r }

theorem amdSmiRecord_clear (r : Option Txt) (before after : Txt) :
    (Layout.labelled "DEVICE_ID:" "REV_ID:").Clear before (amdSmiRecord r) after := by
  have hid : BeginsWith noWord (Layout.labelled "DEVICE_ID:" "REV_ID:").idPattern
      "DEVICE_ID:".toList := (beginsWith_lit "DEVICE_ID:").cat _
  have hrev : BeginsWith noWord (Layout.labelled "DEVICE_ID:" "REV_ID:").revPattern
      "REV_ID:".toList := (beginsWith_lit "REV_ID:").cat _
  refine ⟨?_, ?_, ?_, ?_⟩
  · intro i _
    apply BeginsWith.quiet_of_not_mem (c := 'D') (s := "EVICE_ID:".toList) hid
    show 'D' ∉ "GPU: 0\n".toList
    decide
  · exact fun h => nomatch h
  · intro r' _
    apply BeginsWith.quiet_of_not_mem (c := 'R') (s := "EV_ID:".toList) hrev
    show 'R' ∉ "GPU: 0\n".toList ++ ("DEVICE_ID: 0x74A1".toList ++ ['\n'])
    decide
  · intro hnone
    obtain rfl : r = none := hnone
    apply BeginsWith.quiet_of_not_mem (c := 'R') (s := "EV_ID:".toList) hrev
    show 'R' ∉ "GPU: 0\n".toList ++ ("DEVICE_ID: 0x74A1".toList ++ (['\n'] ++ ([] ++ [])))
    decide

theorem amdSmiRecord_written {r : Option Txt}
    (hr : ∀ v ∈ r, v ≠ [] ∧ v.length ≤ 2 ∧ ∀ c ∈ v, isHexDigit c = true) :
    (Layout.labelled "DEVICE_ID:" "REV_ID:").Written (amdSmiRecord r) := by
  refine ⟨?_, fun v hv => ⟨(hr v hv).1, (hr v hv).2.2⟩, fun v hv => (hr v hv).2.1, ?_,
    fun c hc => (nomatch hc), trivial⟩
  · intro i hi
    obtain rfl := Option.some.inj hi
    exact ⟨rfl, by simp [isHexDigit]⟩
  · show ∀ c ∈ [' ', ' '], isSpace c = true
    intro c hc
    obtain rfl : c = ' ' := by simpa using hc
    rfl

theorem amdSmiRecord_listing (rs : List (Option Txt))
    (hr : ∀ r ∈ rs, ∀ v ∈ r, v ≠ [] ∧ v.length ≤ 2 ∧ ∀ c ∈ v, isHexDigit c = true) :
    (Layout.labelled "DEVICE_ID:" "REV_ID:").Listing (rs.map amdSmiRecord) := by
  constructor
  · intro d hd
    obtain ⟨r, hmem, rfl⟩ := List.mem_map.mp hd
    exact amdSmiRecord_written (hr r hmem)
  · intro _
    have hlegible : ∀ before, (Layout.labelled "DEVICE_ID:" "REV_ID:").Legible before
        (rs.map amdSmiRecord) := by
      clear hr
      induction rs with
      | nil => exact fun _ => trivial
      | cons r rs ih => exact fun before => ⟨amdSmiRecord_clear r _ _, ih _⟩
    exact hlegible []

/-- Two GPUs, the first of which shows no revision. -/
theorem canonical_amdSmi :
    let m : Method := ⟨"amd-smi", "amd-smi static --asic 2>/dev/null",
      .labelled "DEVICE_ID:" "REV_ID:", []⟩
    Canonical m [amdSmiRecord none, amdSmiRecord (some ['0', '0'])] ↔
      Settled m.layout [amdSmiRecord none, amdSmiRecord (some ['0', '0'])] := by
  refine canonical_iff List.mem_cons_self
    (amdSmiRecord_listing [none, some ['0', '0']] fun r hr v hv => ?_)
  rcases List.mem_pair.mp hr with rfl | rfl
  · cases hv
  · obtain rfl := Option.some.inj hv
    exact ⟨by decide, by decide, by simp [isHexDigit]⟩

/-- A revision of one digit stays one. -/
theorem not_canonical_short :
    ¬ ∀ m ∈ detectionMethods, ∀ ds, m.layout.Listing ds → Canonical m ds := by
  intro h
  have hlisting : (Layout.labelled "DEVICE_ID:" "REV_ID:").Listing
      [amdSmiRecord (some ['0'])] := by
    refine amdSmiRecord_listing [some ['0']] fun r hr v hv => ?_
    rw [List.mem_singleton.mp hr] at hv
    obtain rfl := Option.some.inj hv
    exact ⟨by decide, by decide, by simp [isHexDigit]⟩
  have hkey := key_eq (m := ⟨"amd-smi", "amd-smi static --asic 2>/dev/null",
    .labelled "DEVICE_ID:" "REV_ID:", []⟩) List.mem_cons_self hlisting
  rcases h _ List.mem_cons_self _ hlisting with hnil | ⟨⟨d, r, heq, hd, hr, -⟩, -⟩
  · rw [hkey] at hnil
    exact absurd hnil (by decide)
  · have hlen := congrArg List.length (hkey.symm.trans heq)
    rw [List.length_append, List.length_cons, hd, hr] at hlen
    exact absurd hlen (by decide)

/-- What is detected is the key of a GPU that a method listed, if every output is one of listed
GPUs with a canonical key. -/
theorem detected {runDetection : String → Txt} {listed : Method → List Device}
    (hrun : ∀ m ∈ detectionMethods, runDetection m.command = m.layout.output (listed m))
    (hcan : ∀ m ∈ detectionMethods, Canonical m (listed m)) :
    detectDeviceRevision runDetection = [] ∨ ∃ m ∈ detectionMethods, ∃ d ∈ listed m, ∃ g : PciId,
      d.IsGpu m.defaultRevision g ∧ detectDeviceRevision runDetection = g.key := by
  unfold detectDeviceRevision
  simp only
  cases hfind : detectionMethods.findSome? _ with
  | none => exact Or.inl rfl
  | some key =>
    right
    obtain ⟨m, hm, hkey⟩ := List.exists_of_findSome?_eq_some hfind
    rw [hrun m hm] at hkey
    split at hkey
    · cases hkey
    · rename_i hne
      obtain rfl := Option.some.inj hkey
      obtain ⟨-, d, hd, g, hg, heq⟩ := (hcan m hm).resolve_left hne
      exact ⟨m, hm, d, hd, g, hg, heq⟩

end

end PciMap
end Gpu
end RocmTests
