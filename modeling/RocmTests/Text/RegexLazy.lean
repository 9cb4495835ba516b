import RocmTests.Text.RegexMatch

/-!
# Lazy repetition

`.*?` takes as little as it can, so the ways to match behind it come in the order of the places
where they begin.  A pattern whose parts are joined by it gives its ways as `run` does, and
`finditer` goes from match to match.
-/

namespace RocmTests
namespace Text
namespace Re

section

variable (isWord : Char → Bool)

/-- `p*?s`: the ways of `s`, those that begin first first. -/
def runLazy (p : Char → Bool) (s : Re) : Txt → Txt → List Found
  | before, [] => run isWord s ⟨before, []⟩
  | before, c :: after => run isWord s ⟨before, c :: after⟩ ++
      if p c then runLazy p s (c :: before) after else []

/-- What comes after one way to match the first part. -/
def behindOf (p : Char → Bool) (s : Re) (m : Found) : List Found :=
  (runLazy isWord p s m.pos.before m.pos.after).map fun n => ⟨n.pos, m.groups ++ n.groups⟩

/-- `rp*?s`. -/
def lazily (p : Char → Bool) (r s : Re) (q : Pos) : List Found :=
  (run isWord r q).flatMap (behindOf isWord p s)

/-- `r(?:p*?s)?`. -/
def lazilyOpt (p : Char → Bool) (r s : Re) (q : Pos) : List Found :=
  (run isWord r q).flatMap fun m => behindOf isWord p s m ++ [m]

end

/-- `finditer`, for a pattern that does not match the empty text.  `skip` counts the characters
that still belong to the match before. -/
def iterFrom (f : Pos → List Found) : Nat → Txt → Txt → List Found
  | _, _, [] => []
  | skip + 1, before, c :: after => iterFrom f skip (c :: before) after
  | 0, before, c :: after =>
    match (f ⟨before, c :: after⟩).head? with
    | some m => m :: iterFrom f (m.pos.before.length - before.length - 1) (c :: before) after
    | none => iterFrom f 0 (c :: before) after

def finditer (f : Pos → List Found) (text : Txt) : List Found := iterFrom f 0 [] text

section

variable {isWord : Char → Bool} {p : Char → Bool} {r s : Re} {b x m v : Txt}

theorem run_eq_nil_iff {q : Pos} : run isWord r q = [] ↔ matchAt isWord r q = none :=
  List.head?_eq_none_iff.symm

/-! ## The gap -/

/-- The gap ends where the pattern behind it first matches. -/
theorem runLazy_takes {gs : List (Nat × Txt)} (hm : Takes isWord s (x.reverse ++ b) m v gs)
    (hx : ∀ c ∈ x, p c = true) (hquiet : Quiet isWord s b x (m ++ v)) :
    (runLazy isWord p s b (x ++ (m ++ v))).head? =
      some ⟨⟨m.reverse ++ (x.reverse ++ b), v⟩, gs⟩ := by
  induction x generalizing b with
  | nil =>
    unfold Takes matchAt at hm
    rw [List.reverse_nil, List.nil_append] at hm ⊢
    rw [List.nil_append]
    cases ha : m ++ v with
    | nil =>
      rw [ha] at hm
      exact hm
    | cons c a =>
      rw [ha] at hm
      rw [runLazy, List.head?_append, hm]
      rfl
  | cons c x ih =>
    have hnone := hquiet [] (c :: x) rfl (List.cons_ne_nil c x)
    rw [← run_eq_nil_iff, List.cons_append, List.reverse_nil, List.nil_append] at hnone
    rw [List.reverse_cons, List.append_assoc, List.singleton_append] at hm ⊢
    rw [List.cons_append, runLazy, hnone, List.nil_append, if_pos (hx c List.mem_cons_self)]
    exact ih hm (fun d hd => hx d (List.mem_cons_of_mem c hd)) hquiet.tail

/-- Where the pattern matches nowhere up to the end of the gap, nothing is found. -/
theorem runLazy_eq_nil (hquiet : Quiet isWord s b x v)
    (hend : run isWord s ⟨x.reverse ++ b, v⟩ = [])
    (hv : ∀ c, v.head? = some c → p c = false) : runLazy isWord p s b (x ++ v) = [] := by
  induction x generalizing b with
  | nil =>
    rw [List.reverse_nil, List.nil_append] at hend
    rw [List.nil_append]
    cases v with
    | nil => exact hend
    | cons c v =>
      rw [runLazy, hend, hv c rfl]
      rfl
  | cons c x ih =>
    have hnone := hquiet [] (c :: x) rfl (List.cons_ne_nil c x)
    rw [← run_eq_nil_iff, List.cons_append, List.reverse_nil, List.nil_append] at hnone
    rw [List.reverse_cons, List.append_assoc, List.singleton_append] at hend
    rw [List.cons_append, runLazy, hnone, List.nil_append, ih hquiet.tail hend, ite_self]

theorem head_behindOf {gs gs' : List (Nat × Txt)} {y : Txt}
    (hs : Takes isWord s (y.reverse ++ b) m v gs') (hy : ∀ c ∈ y, p c = true)
    (hquiet : Quiet isWord s b y (m ++ v)) :
    (behindOf isWord p s ⟨⟨b, y ++ (m ++ v)⟩, gs⟩).head? =
      some ⟨⟨m.reverse ++ (y.reverse ++ b), v⟩, gs ++ gs'⟩ := by
  rw [behindOf, List.head?_map, runLazy_takes hs hy hquiet]
  rfl

theorem lazily_takes {gs gs' : List (Nat × Txt)} {y : Txt}
    (hr : Takes isWord r b x (y ++ (m ++ v)) gs)
    (hs : Takes isWord s (y.reverse ++ (x.reverse ++ b)) m v gs')
    (hy : ∀ c ∈ y, p c = true) (hquiet : Quiet isWord s (x.reverse ++ b) y (m ++ v)) :
    (lazily isWord p r s ⟨b, x ++ (y ++ (m ++ v))⟩).head? =
      some ⟨⟨m.reverse ++ (y.reverse ++ (x.reverse ++ b)), v⟩, gs ++ gs'⟩ := by
  unfold Takes matchAt at hr
  unfold lazily
  obtain ⟨ms, hms⟩ := List.head?_eq_some_iff.mp hr
  rw [hms, List.flatMap_cons, List.head?_append, head_behindOf hs hy hquiet]
  rfl

theorem lazilyOpt_takes {gs gs' : List (Nat × Txt)} {y : Txt}
    (hr : Takes isWord r b x (y ++ (m ++ v)) gs)
    (hs : Takes isWord s (y.reverse ++ (x.reverse ++ b)) m v gs')
    (hy : ∀ c ∈ y, p c = true) (hquiet : Quiet isWord s (x.reverse ++ b) y (m ++ v)) :
    (lazilyOpt isWord p r s ⟨b, x ++ (y ++ (m ++ v))⟩).head? =
      some ⟨⟨m.reverse ++ (y.reverse ++ (x.reverse ++ b)), v⟩, gs ++ gs'⟩ := by
  unfold Takes matchAt at hr
  unfold lazilyOpt
  obtain ⟨ms, hms⟩ := List.head?_eq_some_iff.mp hr
  rw [hms, List.flatMap_cons, List.append_assoc, List.head?_append, head_behindOf hs hy hquiet]
  rfl

/-- The second part may be missing. -/
theorem lazilyOpt_missing {gs : List (Nat × Txt)} (hr : Takes isWord r b x v gs)
    (hnil : runLazy isWord p s (x.reverse ++ b) v = []) :
    (lazilyOpt isWord p r s ⟨b, x ++ v⟩).head? = some ⟨⟨x.reverse ++ b, v⟩, gs⟩ := by
  unfold Takes matchAt at hr
  unfold lazilyOpt
  obtain ⟨ms, hms⟩ := List.head?_eq_some_iff.mp hr
  rw [hms, List.flatMap_cons, behindOf, hnil]
  rfl

/-! ## Where nothing is found -/

/-- No way to match begins in `x`. -/
def Still (f : Pos → List Found) (b x v : Txt) : Prop :=
  ∀ u w, x = u ++ w → w ≠ [] → f ⟨u.reverse ++ b, w ++ v⟩ = []

theorem Still.tail {f : Pos → List Found} {c : Char} (h : Still f b (c :: x) v) :
    Still f (c :: b) x v := by
  intro u w hx hw
  have hcons := h (c :: u) w (by rw [hx]; rfl) hw
  rw [List.reverse_cons, List.append_assoc] at hcons
  exact hcons

theorem still_run (h : Quiet isWord r b x v) : Still (run isWord r) b x v :=
  fun u w hx hw => run_eq_nil_iff.mpr (h u w hx hw)

theorem still_lazily (h : Quiet isWord r b x v) : Still (lazily isWord p r s) b x v := by
  intro u w hx hw
  rw [lazily, run_eq_nil_iff.mpr (h u w hx hw)]
  rfl

theorem still_lazilyOpt (h : Quiet isWord r b x v) : Still (lazilyOpt isWord p r s) b x v := by
  intro u w hx hw
  rw [lazilyOpt, run_eq_nil_iff.mpr (h u w hx hw)]
  rfl

theorem runLazy_of_quiet (hend : ∀ b, run isWord s ⟨b, []⟩ = []) (a : Txt) :
    ∀ b : Txt, Quiet isWord s b a [] → runLazy isWord p s b a = [] := by
  induction a with
  | nil => exact fun b _ => hend b
  | cons c a ih =>
    intro b hquiet
    have hnone := hquiet [] (c :: a) rfl (List.cons_ne_nil c a)
    rw [List.append_nil, List.reverse_nil, List.nil_append] at hnone
    rw [runLazy, run_eq_nil_iff.mpr hnone, List.nil_append, ih (c :: b) hquiet.tail, ite_self]

/-- Without the second part the first is of no use. -/
theorem still_of_second (h : Quiet isWord s b x [])
    (hend : ∀ b, run isWord s ⟨b, []⟩ = []) : Still (lazily isWord p r s) b x [] := by
  intro u w hx hw
  rw [lazily, List.append_nil, List.flatMap_eq_nil_iff]
  intro k hk
  have hspans : Spans isWord r ⟨u.reverse ++ b, w⟩ k.pos := ⟨k, hk, rfl⟩
  obtain ⟨y, hy, hbefore⟩ := hspans.split
  simp only at hy hbefore
  rw [behindOf, List.map_eq_nil_iff]
  refine runLazy_of_quiet hend _ _ fun u' w' hw' hne => ?_
  have hsplit : x = (u ++ (y ++ u')) ++ w' := by rw [hx, hy, hw']; simp only [List.append_assoc]
  have hquiet := h _ w' hsplit hne
  rw [List.reverse_append, List.reverse_append, List.append_assoc, List.append_assoc] at hquiet
  rw [hbefore]
  exact hquiet

/-! ## The matches of a text -/

variable {f : Pos → List Found}

theorem iterFrom_still (h : Still f b x v) :
    iterFrom f 0 b (x ++ v) = iterFrom f 0 (x.reverse ++ b) v := by
  induction x generalizing b with
  | nil => rfl
  | cons c x ih =>
    have hnone := h [] (c :: x) rfl (List.cons_ne_nil c x)
    rw [List.cons_append, List.reverse_nil, List.nil_append] at hnone
    rw [List.cons_append, iterFrom, hnone, List.head?_nil]
    show iterFrom f 0 (c :: b) (x ++ v) = _
    rw [ih h.tail, List.reverse_cons, List.append_assoc]
    rfl

theorem iterFrom_eq_nil (h : Still f b x []) : iterFrom f 0 b x = [] := by
  have heq := iterFrom_still h
  rw [List.append_nil] at heq
  rw [heq, iterFrom]

/-- The first match is where the pattern matches first. -/
theorem iterFrom_head {k : Found} (hne : x ≠ []) (h : (f ⟨b, x⟩).head? = some k) :
    ∃ ks, iterFrom f 0 b x = k :: ks := by
  cases x with
  | nil => exact absurd rfl hne
  | cons c x =>
    rw [iterFrom, h]
    exact ⟨_, rfl⟩

end

end Re
end Text
end RocmTests
