import RocmTests.Text.RegexWhole

/-!
# What is captured, and that nothing is missed

`Captures r b m v gs` says that a match of the text `m` between `b`, held reversed, and
`v` can leave the groups `gs`.  The matches that `findall` gives cover every place where a
match can begin.
-/

namespace RocmTests
namespace Text
namespace Re

variable {isWord : Char → Bool} {b m v : Txt} {gs : List (Nat × Txt)}

def Captures (isWord : Char → Bool) (r : Re) (b m v : Txt) (gs : List (Nat × Txt)) : Prop :=
  (⟨⟨m.reverse ++ b, v⟩, gs⟩ : Found) ∈ run isWord r ⟨b, m ++ v⟩

theorem Captures.matches {r : Re} (h : Captures isWord r b m v gs) : Matches isWord r b m v :=
  ⟨_, h, rfl⟩

theorem Matches.captures {r : Re} (h : Matches isWord r b m v) :
    ∃ gs, Captures isWord r b m v gs := by
  obtain ⟨f, hf, hpos⟩ := h
  refine ⟨f.groups, ?_⟩
  unfold Captures
  rw [← hpos]
  exact hf

/-- Where a result of `run` ends, some text was taken. -/
theorem captures_of_mem {r : Re} {a : Txt} {f : Found} (h : f ∈ run isWord r ⟨b, a⟩) :
    ∃ m v, a = m ++ v ∧ f.pos = ⟨m.reverse ++ b, v⟩ ∧ Captures isWord r b m v f.groups := by
  have hspans : Spans isWord r ⟨b, a⟩ f.pos := ⟨f, h, rfl⟩
  obtain ⟨m, hm, hpos⟩ := hspans.split
  refine ⟨m, f.pos.after, hm, ?_, ?_⟩
  · rw [← hpos]
  · unfold Captures
    rw [← hpos, ← hm]
    exact h

theorem captures_seq {r s : Re} (h : Captures isWord (seq r s) b m v gs) :
    ∃ m₁ m₂ g₁ g₂, m = m₁ ++ m₂ ∧ gs = g₁ ++ g₂ ∧ Captures isWord r b m₁ (m₂ ++ v) g₁ ∧
      Captures isWord s (m₁.reverse ++ b) m₂ v g₂ := by
  unfold Captures at h
  rw [run, List.mem_flatMap] at h
  obtain ⟨f, hf, h⟩ := h
  obtain ⟨k, hk, heq⟩ := List.mem_map.mp h
  obtain ⟨hpos, hgroups⟩ := Found.mk.inj heq
  obtain ⟨m₁, v₁, hm, hfpos, hfirst⟩ := captures_of_mem hf
  rw [hfpos] at hk
  obtain ⟨m₂, v₂, hv₁, hkpos, hsecond⟩ := captures_of_mem hk
  rw [hkpos] at hpos
  obtain ⟨hbefore, rfl⟩ := Pos.mk.inj hpos
  rw [hv₁, ← List.append_assoc] at hm
  have hm' : m = m₁ ++ m₂ := List.append_cancel_right hm
  rw [hv₁] at hfirst
  exact ⟨m₁, m₂, f.groups, k.groups, hm', hgroups.symm, hfirst, hsecond⟩

theorem captures_group {n : Nat} {r : Re} (h : Captures isWord (group n r) b m v gs) :
    ∃ g, gs = (n, m) :: g ∧ Captures isWord r b m v g := by
  unfold Captures at h
  rw [run] at h
  obtain ⟨f, hf, heq⟩ := List.mem_map.mp h
  obtain ⟨hpos, hgroups⟩ := Found.mk.inj heq
  have hbetween : between ⟨b, m ++ v⟩ f.pos = m := by
    have hlen : (m.reverse ++ b).length - b.length = m.reverse.length := by
      rw [List.length_append]
      omega
    unfold between
    rw [hpos, hlen, List.take_left, List.reverse_reverse]
  refine ⟨f.groups, ?_, ?_⟩
  · rw [← hgroups, hbetween]
  · unfold Captures
    rw [← hpos]
    exact hf

/-- A pattern without groups leaves none. -/
theorem captures_plain {r : Re} (hr : groupBodies r = []) (h : Captures isWord r b m v gs) :
    gs = [] := by
  cases gs with
  | nil => rfl
  | cons x gs =>
    obtain ⟨body, hbody, -⟩ := mem_groups h x List.mem_cons_self
    rw [hr] at hbody
    cases hbody

theorem captures_cat_cons {r : Re} {rs : List Re} (h : Captures isWord (cat (r :: rs)) b m v gs) :
    ∃ m₁ m₂ g₁ g₂, m = m₁ ++ m₂ ∧ gs = g₁ ++ g₂ ∧ Captures isWord r b m₁ (m₂ ++ v) g₁ ∧
      Captures isWord (cat rs) (m₁.reverse ++ b) m₂ v g₂ := by
  cases rs with
  | nil =>
    refine ⟨m, [], gs, [], (List.append_nil m).symm, (List.append_nil gs).symm, h, ?_⟩
    exact List.mem_singleton_self _
  | cons s rs => exact captures_seq h

/-- A piece without groups. -/
theorem captures_piece {r : Re} {rs : List Re} (hr : groupBodies r = [])
    (h : Captures isWord (cat (r :: rs)) b m v gs) :
    ∃ m₁ m₂, m = m₁ ++ m₂ ∧ Matches isWord r b m₁ (m₂ ++ v) ∧
      Captures isWord (cat rs) (m₁.reverse ++ b) m₂ v gs := by
  obtain ⟨m₁, m₂, g₁, g₂, hm, hgs, hfirst, hrest⟩ := captures_cat_cons h
  rw [captures_plain hr hfirst, List.nil_append] at hgs
  rw [hgs]
  exact ⟨m₁, m₂, hm, hfirst.matches, hrest⟩

/-- A group around a pattern without groups. -/
theorem captures_group_piece {n : Nat} {r : Re} {rs : List Re} (hr : groupBodies r = [])
    (h : Captures isWord (cat (group n r :: rs)) b m v gs) :
    ∃ m₁ m₂ gs', m = m₁ ++ m₂ ∧ gs = (n, m₁) :: gs' ∧ Matches isWord r b m₁ (m₂ ++ v) ∧
      Captures isWord (cat rs) (m₁.reverse ++ b) m₂ v gs' := by
  obtain ⟨m₁, m₂, g₁, g₂, hm, hgs, hfirst, hrest⟩ := captures_cat_cons h
  obtain ⟨g, hg, hinner⟩ := captures_group hfirst
  rw [hg, captures_plain hr hinner] at hgs
  exact ⟨m₁, m₂, g₂, hm, hgs, hinner.matches, hrest⟩

/-! ## All matches -/

/-- A match in the list of `findall`, at its place in the text. -/
structure FoundAt (isWord : Char → Bool) (r : Re) (text : Txt) (f : Found) (b m v : Txt) :
    Prop where
  text_eq : text = b.reverse ++ (m ++ v)
  pos_eq : f.pos = ⟨m.reverse ++ b, v⟩
  captures : Captures isWord r b m v f.groups

theorem foundAt_of_mem {r : Re} {f : Found} : ∀ {a : Txt} {skip : Nat} {b : Txt},
    f ∈ findAllFrom isWord r skip b a →
      ∃ b' m v, FoundAt isWord r (b.reverse ++ a) f b' m v := by
  intro a
  induction a with
  | nil =>
    intro skip b hf
    cases skip <;> cases hf
  | cons c a ih =>
    intro skip b hf
    have hnext {skip' : Nat} (hf : f ∈ findAllFrom isWord r skip' (c :: b) a) :
        ∃ b' m v, FoundAt isWord r (b.reverse ++ c :: a) f b' m v := by
      have hrest := ih hf
      rw [List.reverse_cons, List.append_assoc] at hrest
      exact hrest
    cases skip with
    | succ skip => exact hnext hf
    | zero =>
      rw [findAllFrom] at hf
      cases hmatch : matchAt isWord r ⟨b, c :: a⟩ with
      | none =>
        rw [hmatch] at hf
        exact hnext hf
      | some k =>
        rw [hmatch] at hf
        rcases List.mem_cons.mp hf with rfl | hf
        · obtain ⟨m, v, hm, hpos, hcaptures⟩ := captures_of_mem (List.mem_of_mem_head? hmatch)
          exact ⟨b, m, v, by rw [hm], hpos, hcaptures⟩
        · exact hnext hf

theorem foundAt_of_mem_findAll {r : Re} {f : Found} {text : Txt}
    (hf : f ∈ findAll isWord r text) : ∃ b m v, FoundAt isWord r text f b m v :=
  foundAt_of_mem hf

/-- Where a match can begin, a match of the list begins or goes on. -/
theorem findAllFrom_covers {r : Re} (hr : ∀ b v, ¬ Matches isWord r b [] v) {d : Txt} :
    ∀ {c : Txt} {skip : Nat} {b : Txt}, skip ≤ c.length →
      (matchAt isWord r ⟨c.reverse ++ b, d⟩).isSome →
      ∃ f ∈ findAllFrom isWord r skip b (c ++ d), ∃ b' m v,
        FoundAt isWord r (b.reverse ++ (c ++ d)) f b' m v ∧
          b'.length ≤ b.length + c.length ∧ b.length + c.length < b'.length + m.length := by
  intro c
  induction c with
  | nil =>
    intro skip b hskip hsome
    obtain ⟨f, hf⟩ := Option.isSome_iff_exists.mp hsome
    rw [List.reverse_nil, List.nil_append] at hf
    obtain ⟨m, v, hm, hpos, hcaptures⟩ := captures_of_mem (List.mem_of_mem_head? hf)
    have hne : m ≠ [] := by
      rintro rfl
      exact hr b v hcaptures.matches
    have hlen : 0 < m.length := List.length_pos_iff.mpr hne
    have hzero : skip = 0 := Nat.le_zero.mp hskip
    rw [hzero, List.nil_append]
    cases d with
    | nil =>
      have hnil : m = [] := (List.append_eq_nil_iff.mp hm.symm).1
      exact absurd hnil hne
    | cons x d =>
      rw [findAllFrom, hf]
      exact ⟨f, .head _, b, m, v, ⟨by rw [hm], hpos, hcaptures⟩, Nat.le_add_right .., by
        rw [List.length_nil]
        omega⟩
  | cons x c ih =>
    intro skip b hskip hsome
    rw [List.reverse_cons, List.append_assoc] at hsome
    have hnext {skip' : Nat} (hskip' : skip' ≤ c.length) :
        ∃ f ∈ findAllFrom isWord r skip' (x :: b) (c ++ d), ∃ b' m v,
          FoundAt isWord r (b.reverse ++ (x :: c ++ d)) f b' m v ∧
            b'.length ≤ b.length + (x :: c).length ∧
            b.length + (x :: c).length < b'.length + m.length := by
      obtain ⟨f, hf, b', m, v, hfound, hle, hlt⟩ := ih hskip' hsome
      have htext : ([x] ++ b).reverse ++ (c ++ d) = b.reverse ++ (x :: c ++ d) := by simp
      rw [htext] at hfound
      simp only [List.length_append, List.length_cons, List.length_nil] at hle hlt ⊢
      exact ⟨f, hf, b', m, v, hfound, by omega, by omega⟩
    cases skip with
    | succ skip => exact hnext (Nat.le_of_succ_le_succ hskip)
    | zero =>
      rw [List.cons_append, findAllFrom]
      cases hmatch : matchAt isWord r ⟨b, x :: (c ++ d)⟩ with
      | none => exact hnext (Nat.zero_le _)
      | some f =>
        obtain ⟨m, v, hm, hpos, hcaptures⟩ := captures_of_mem (List.mem_of_mem_head? hmatch)
        have hlen : f.pos.before.length = m.length + b.length := by
          rw [hpos]
          simp
        by_cases hreach : m.length ≤ (x :: c).length
        · rw [List.length_cons] at hreach
          obtain ⟨f', hf', hrest⟩ := @hnext (f.pos.before.length - b.length - 1) (by omega)
          exact ⟨f', .tail _ hf', hrest⟩
        · exact ⟨f, .head _, b, m, v, ⟨by rw [hm], hpos, hcaptures⟩, Nat.le_add_right .., by omega⟩

theorem findAll_covers {r : Re} (hr : ∀ b v, ¬ Matches isWord r b [] v) {text : Txt}
    (htext : text = b.reverse ++ (m ++ v)) (h : Matches isWord r b m v) :
    ∃ f ∈ findAll isWord r text, ∃ b' m' v', FoundAt isWord r text f b' m' v' ∧
      b'.length ≤ b.length ∧ b.length < b'.length + m'.length := by
  have hsome : (matchAt isWord r ⟨b.reverse.reverse ++ [], m ++ v⟩).isSome := by
    rw [List.reverse_reverse, List.append_nil]
    exact matchAt_isSome_iff.mpr ⟨_, h⟩
  obtain ⟨f, hf, b', m', v', hfound, hle, hlt⟩ :=
    findAllFrom_covers hr (Nat.zero_le _ : 0 ≤ _) hsome
  rw [List.reverse_nil, List.nil_append, ← htext] at hfound
  rw [← htext] at hf
  rw [List.length_nil, Nat.zero_add, List.length_reverse] at hle hlt
  exact ⟨f, hf, b', m', v', hfound, hle, hlt⟩

end Re
end Text
end RocmTests
