import RocmTests.Monitored.DmesgCategories
import RocmTests.Text.IgnoreCase
import RocmTests.Text.RegexWhole

/-!
# Other critical events on a RAS line

`ras_downgrade` first takes phrases such as `0 uncorrected errors` out of a line, then
drops the line when what is left speaks of corrected errors only.  The phrases stand
by themselves and share no word with the alternatives that do not name RAS, except
that `Oops:` may be followed by one.  The first step therefore hides nothing else;
the second drops the line whatever else it says.
-/

namespace RocmTests
namespace Monitored
namespace DmesgCategories

open Text Text.Re Markers

/-! ## The phrases that are taken out -/

/-- What stands between the words of a phrase. -/
def isSep (c : Char) : Bool := isSpace c || c = ':' || c = '='

/-- The neighbours in the words of a phrase. -/
def phrasePairs : List (Char × Char) :=
  ["no", "zero", "uncorrected", "uncorrectable", "fatal", "ecc", "errors", "r0", "s0"].flatMap
    fun w => w.toList.zip w.toList.tail

def Allowed (a b : Char) : Prop := isSep a = true ∨ isSep b = true ∨ (a, b) ∈ phrasePairs

instance : DecidableRel Allowed := fun a b => by
  unfold Allowed
  infer_instance

/-- All neighbours are allowed, and the ends are as given. -/
structure Fits (first last : Char → Prop) (l : Txt) : Prop where
  chain : l.IsChain Allowed
  head : ∃ c, l.head? = some c ∧ first c
  last : ∃ c, l.getLast? = some c ∧ last c

def Sep (c : Char) : Prop := isSep c = true

/-- A letter or a digit. -/
def Letter (c : Char) : Prop := c.toNat < 128 ∧ c.isAlphanum = true

instance : DecidablePred Letter := fun c => by
  unfold Letter
  infer_instance

theorem Fits.append {p q p' q' : Char → Prop} {l l' : Txt} (h : Fits p q l) (h' : Fits p' q' l')
    (hjoin : ∀ a b, q a → p' b → Allowed a b) : Fits p q' (l ++ l') := by
  obtain ⟨a, ha, hqa⟩ := h.last
  obtain ⟨b, hb, hpb⟩ := h'.head
  obtain ⟨c, hc, hpc⟩ := h.head
  obtain ⟨d, hd, hqd⟩ := h'.last
  refine ⟨?_, ⟨c, head_append hc, hpc⟩, ⟨d, ?_, hqd⟩⟩
  · rw [List.isChain_append]
    refine ⟨h.chain, h'.chain, fun x hx y hy => ?_⟩
    rw [ha] at hx
    rw [hb] at hy
    cases hx
    cases hy
    exact hjoin a b hqa hpb
  · rw [List.getLast?_append, hd]
    rfl

theorem Fits.imp {p q p' q' : Char → Prop} {l : Txt} (h : Fits p q l) (hp : ∀ c, p c → p' c)
    (hq : ∀ c, q c → q' c) : Fits p' q' l :=
  ⟨h.chain, h.head.imp fun c hc => ⟨hc.1, hp c hc.2⟩, h.last.imp fun c hc => ⟨hc.1, hq c hc.2⟩⟩

theorem allowed_sep_left (a b : Char) (h : Sep a) : Allowed a b := .inl h

theorem allowed_sep_right (a b : Char) (h : Sep b) : Allowed a b := .inr (.inl h)

theorem sep_foldCase {x : Char} (h : isSpace x = true) : isSep (foldCase x) = true := by
  have hall : ∀ n ∈ spaces, isSep (foldCase (Char.ofNat n)) = true := by decide
  have hx := hall x.toNat (of_decide_eq_true h)
  rwa [Char.ofNat_toNat] at hx

theorem fits_seps {l : Txt} (hne : l ≠ []) (h : ∀ c ∈ l, isSep c = true) : Fits Sep Sep l := by
  refine ⟨?_, ?_, ?_⟩
  · induction l with
    | nil => exact absurd rfl hne
    | cons a l ih =>
      cases l with
      | nil => exact .singleton a
      | cons b l =>
        rw [List.isChain_cons_cons]
        exact ⟨.inl (h a List.mem_cons_self), ih (List.cons_ne_nil b l)
          fun c hc => h c (List.mem_cons_of_mem a hc)⟩
  · exact ⟨l.head hne, List.head?_eq_some_head hne, h _ (List.head_mem hne)⟩
  · exact ⟨l.getLast hne, List.getLast?_eq_some_getLast hne, h _ (List.getLast_mem hne)⟩

theorem fits_spaces {m : Txt} (h : m ≠ [] ∧ ∀ c ∈ m, isSpace c = true) :
    Fits Sep Sep (m.map foldCase) := by
  refine fits_seps (by simpa using h.1) fun c hc => ?_
  obtain ⟨x, hx, rfl⟩ := List.mem_map.mp hc
  exact sep_foldCase (h.2 x hx)

/-- The words of the phrases but the last. -/
def phraseWords : List String :=
  ["no", "zero", "0", "uncorrected", "uncorrectable", "fatal", "ECC"]

theorem phraseWords_fit : ∀ s ∈ phraseWords, isAscii s = true ∧
    (s.toList.map Char.toLower).IsChain Allowed ∧
    (s.toList.map Char.toLower).head?.any (fun c => decide (Letter c)) = true ∧
    (s.toList.map Char.toLower).getLast?.any (fun c => decide (Letter c)) = true := by
  decide

theorem fits_word {s : String} (hs : s ∈ phraseWords) {m : Txt} (h : Letters s m) :
    Fits Letter Letter (m.map foldCase) := by
  obtain ⟨hascii, hchain, hhead, hlast⟩ := phraseWords_fit s hs
  rw [h.map_foldCase hascii]
  rw [Option.any_eq_true] at hhead hlast
  refine ⟨hchain, ?_, ?_⟩
  · exact hhead.imp fun c hc => ⟨hc.1, of_decide_eq_true hc.2⟩
  · exact hlast.imp fun c hc => ⟨hc.1, of_decide_eq_true hc.2⟩

section

variable {isWord : Char → Bool} {b m v : Txt}

/-- The last letter of `error` or `errors`. -/
def ErrorEnd (c : Char) : Prop := c = 'r' ∨ c = 's'

theorem letter_of_errorEnd (c : Char) (h : ErrorEnd c) : Letter c := by
  rcases h with rfl | rfl <;> decide

theorem fits_uncorrected (h : Matches isWord uncorrected b m v) :
    Fits Letter Letter (m.map foldCase) := by
  unfold uncorrected at h
  rw [matches_alts] at h
  obtain ⟨r, hr, hm⟩ := h
  simp only [List.mem_cons, List.not_mem_nil, or_false] at hr
  rcases hr with rfl | rfl | rfl
  · exact fits_word (by decide) (matches_ilit.mp hm)
  · exact fits_word (by decide) (matches_ilit.mp hm)
  · exact fits_word (by decide) (matches_ilit.mp hm)

theorem fits_opt_append {r : Re} {p q p' q' : Char → Prop} {l : Txt}
    (h : Matches isWord (opt r) b m v)
    (hr : Matches isWord r b m v → Fits p q (m.map foldCase)) (hl : Fits p' q' l)
    (hp : ∀ c, p' c → p c) (hjoin : ∀ a b, q a → p' b → Allowed a b) :
    Fits p q' (m.map foldCase ++ l) := by
  unfold opt at h
  rw [matches_alt, matches_eps] at h
  rcases h with h | rfl
  · exact (hr h).append hl hjoin
  · exact hl.imp hp fun _ h => h

theorem fits_error {l l' : Txt} (h : Letters "error" l)
    (h' : Matches isWord (opt (ilit "s")) b l' v) :
    Fits Letter ErrorEnd ((l ++ l').map foldCase) := by
  unfold opt at h'
  rw [matches_alt, matches_eps, matches_ilit] at h'
  rw [List.map_append, h.map_foldCase (by decide)]
  rcases h' with h' | rfl
  · rw [Letters.map_foldCase h' (by decide)]
    exact ⟨by decide, ⟨'e', by decide, by decide⟩, ⟨'s', by decide, .inr rfl⟩⟩
  · exact ⟨by decide, ⟨'e', by decide, by decide⟩, ⟨'r', by decide, .inl rfl⟩⟩

theorem fits_eccErrors (h : Matches isWord eccErrors b m v) :
    Fits Sep ErrorEnd (m.map foldCase) := by
  unfold eccErrors at h
  rw [matches_cat_cons] at h
  obtain ⟨ecc, rest, rfl, hecc, h⟩ := h
  rw [matches_cat_cons] at h
  obtain ⟨sp, rest, rfl, hsp, h⟩ := h
  rw [matches_cat_cons] at h
  obtain ⟨err, s, rfl, herr, hs⟩ := h
  have hspaces := fits_spaces (matches_plus.mp hsp)
  have herrors := fits_error (matches_ilit.mp herr) hs
  rw [List.map_append, List.map_append]
  have htail := hspaces.append herrors fun a b ha _ => allowed_sep_left a b ha
  have hword (hecc : Matches isWord (cat [plus isSpace, ilit "ECC"]) b ecc
    (sp ++ (err ++ s) ++ v)) :
      Fits Sep Letter (ecc.map foldCase) := by
    rw [matches_cat_cons] at hecc
    obtain ⟨sp', word, rfl, hsp', hword⟩ := hecc
    rw [List.map_append]
    exact (fits_spaces (matches_plus.mp hsp')).append
      (fits_word (by decide) (matches_ilit.mp hword)) fun a b ha _ => allowed_sep_left a b ha
  exact fits_opt_append hecc hword htail (fun _ h => h) fun a b _ hb => allowed_sep_right a b hb

/-- What may follow `errors`. -/
def ZeroStart (c : Char) : Prop := Sep c ∨ c = '0'

theorem allowed_errorEnd_zero (a b : Char) (ha : ErrorEnd a) (hb : ZeroStart b) :
    Allowed a b := by
  rcases hb with hb | rfl
  · exact allowed_sep_right a b hb
  · rcases ha with rfl | rfl <;> exact .inr (.inr (by decide))

theorem fits_seps_zero {l : Txt} (h : ∀ c ∈ l, isSep c = true) :
    Fits ZeroStart Letter (l ++ ['0']) := by
  have hzero : Fits ZeroStart Letter ['0'] :=
    ⟨.singleton _, ⟨'0', rfl, .inr rfl⟩, ⟨'0', rfl, by decide⟩⟩
  cases l with
  | nil => exact hzero
  | cons c l =>
    exact ((fits_seps (List.cons_ne_nil c l) h).append hzero
      fun a b ha _ => allowed_sep_left a b ha).imp (fun _ hc => .inl hc) fun _ hc => hc

theorem isSep_colon (h : Matches isWord (opt (alts [ilit ":", ilit "="])) b m v) :
    ∀ c ∈ m.map foldCase, isSep c = true := by
  unfold opt at h
  rw [matches_alt, matches_eps, matches_alts] at h
  rcases h with ⟨r, hr, hm⟩ | rfl
  · simp only [List.mem_cons, List.not_mem_nil, or_false] at hr
    rcases hr with rfl | rfl
    · rw [Letters.map_foldCase (matches_ilit.mp hm) (by decide)]
      exact List.all_eq_true.mp (by decide)
    · rw [Letters.map_foldCase (matches_ilit.mp hm) (by decide)]
      exact List.all_eq_true.mp (by decide)
  · simp

/-- `0 uncorrected errors`, without the boundaries. -/
theorem fits_zeroFirst (h : Matches isWord
    (cat [alts [ilit "no", ilit "zero", ilit "0"], plus isSpace, uncorrected, eccErrors]) b m v) :
    Fits Letter Letter (m.map foldCase) := by
  rw [matches_cat_cons] at h
  obtain ⟨zero, rest, rfl, hzero, h⟩ := h
  rw [matches_cat_cons] at h
  obtain ⟨sp, rest, rfl, hsp, h⟩ := h
  rw [matches_cat_cons] at h
  obtain ⟨u, e, rfl, hu, he⟩ := h
  have hz : Fits Letter Letter (zero.map foldCase) := by
    rw [matches_alts] at hzero
    obtain ⟨r, hr, hm⟩ := hzero
    simp only [List.mem_cons, List.not_mem_nil, or_false] at hr
    rcases hr with rfl | rfl | rfl
    · exact fits_word (by decide) (matches_ilit.mp hm)
    · exact fits_word (by decide) (matches_ilit.mp hm)
    · exact fits_word (by decide) (matches_ilit.mp hm)
  have htail := (fits_uncorrected hu).append (fits_eccErrors he)
    fun a b _ hb => allowed_sep_right a b hb
  have hspaced := (fits_spaces (matches_plus.mp hsp)).append htail
    fun a b ha _ => allowed_sep_left a b ha
  rw [List.map_append, List.map_append, List.map_append]
  exact (hz.append hspaced fun a b _ hb => allowed_sep_right a b hb).imp (fun _ h => h)
    letter_of_errorEnd

/-- `uncorrected errors: 0`, without the boundaries. -/
theorem fits_zeroLast (h : Matches isWord
    (cat [uncorrected, eccErrors, star isSpace, opt (alts [ilit ":", ilit "="]), star isSpace,
      ilit "0"]) b m v) : Fits Letter Letter (m.map foldCase) := by
  rw [matches_cat_cons] at h
  obtain ⟨u, rest, rfl, hu, h⟩ := h
  rw [matches_cat_cons] at h
  obtain ⟨e, rest, rfl, he, h⟩ := h
  rw [matches_cat_cons] at h
  obtain ⟨sp, rest, rfl, hsp, h⟩ := h
  rw [matches_cat_cons] at h
  obtain ⟨c, rest, rfl, hc, h⟩ := h
  rw [matches_cat_cons] at h
  obtain ⟨sp', zero, rfl, hsp', hzero⟩ := h
  have hz : zero.map foldCase = ['0'] :=
    Letters.map_foldCase (matches_ilit.mp hzero) (by decide)
  have hseps : ∀ x ∈ (sp ++ c ++ sp').map foldCase, isSep x = true := by
    intro x hx
    rw [List.map_append, List.map_append] at hx
    rcases List.mem_append.mp hx with hx | hx
    · rcases List.mem_append.mp hx with hx | hx
      · obtain ⟨y, hy, rfl⟩ := List.mem_map.mp hx
        exact sep_foldCase (matches_star.mp hsp y hy)
      · exact isSep_colon hc x hx
    · obtain ⟨y, hy, rfl⟩ := List.mem_map.mp hx
      exact sep_foldCase (matches_star.mp hsp' y hy)
  have htail := (fits_eccErrors he).append (fits_seps_zero hseps) allowed_errorEnd_zero
  have hall := (fits_uncorrected hu).append htail fun a b _ hb => allowed_sep_right a b hb
  rw [← hz, ← List.map_append, ← List.map_append, ← List.map_append] at hall
  simpa only [List.append_assoc] using hall

/-- A phrase, its ends and the two boundaries. -/
theorem phrase_fits (h : Matches isWord rasNonActionableUncorrectable b m v) :
    Fits Letter Letter (m.map foldCase) ∧ atBoundary isWord ⟨b, m ++ v⟩ = true ∧
      atBoundary isWord ⟨m.reverse ++ b, v⟩ = true := by
  unfold rasNonActionableUncorrectable at h
  rw [matches_alts] at h
  obtain ⟨r, hr, hm⟩ := h
  have hbounds (rs : List Re)
    (hmatch : Matches isWord (cat (wordBoundary :: (rs ++ [wordBoundary])))
      b m v) : Matches isWord (cat rs) b m v ∧ atBoundary isWord ⟨b, m ++ v⟩ = true ∧
        atBoundary isWord ⟨m.reverse ++ b, v⟩ = true := by
    have hleft := (matches_boundary_cat (c := true)).mp hmatch
    have hright := matches_cat_boundary.mp hleft.2
    exact ⟨hright.1, hleft.1 rfl, hright.2⟩
  simp only [List.mem_cons, List.not_mem_nil, or_false] at hr
  rcases hr with rfl | rfl
  · obtain ⟨hmatch, hends⟩ := hbounds [_, _, _, _] hm
    exact ⟨fits_zeroFirst hmatch, hends⟩
  · obtain ⟨hmatch, hends⟩ := hbounds [_, _, _, _, _, _] hm
    exact ⟨fits_zeroLast hmatch, hends⟩

end

/-! ## Words under `re.IGNORECASE` -/

/-- The letters beyond ASCII that `re.IGNORECASE` takes for ASCII ones are alphanumeric. -/
def FoldedLetters (alnum : Char → Bool) : Prop :=
  ∀ n ∈ [304, 305, 383, 8490], alnum (Char.ofNat n) = true

theorem isWordChar_ascii {alnum : Char → Bool} {c : Char} (h : c.toNat < 128) :
    isWordChar alnum c = (c.isAlphanum || c = '_') := by
  unfold isWordChar
  rw [decide_eq_false (by omega : ¬ 127 < c.toNat), Bool.false_and, Bool.or_false]

theorem isWordChar_foldCase {alnum : Char → Bool} (halnum : FoldedLetters alnum) (x : Char) :
    isWordChar alnum (foldCase x) = isWordChar alnum x := by
  by_cases hx : x.toNat < 128
  · have hall : ∀ n < 128, ((Char.ofNat n).toLower.isAlphanum || (Char.ofNat n).toLower = '_') =
        ((Char.ofNat n).isAlphanum || Char.ofNat n = '_') := by decide
    have h := hall x.toNat hx
    rw [Char.ofNat_toNat] at h
    rw [foldCase_ascii hx, isWordChar_ascii (toLower_ascii hx), isWordChar_ascii hx, h]
  · by_cases hn : x.toNat ∈ [304, 305, 383, 8490]
    · have hword : isWordChar alnum x = true := by
        have halx := halnum x.toNat hn
        rw [Char.ofNat_toNat] at halx
        unfold isWordChar
        rw [halx, decide_eq_true (by omega : 127 < x.toNat), Bool.and_self, Bool.or_true]
      rw [hword]
      unfold foldCase
      split_ifs
      · rfl
      · rfl
      · rfl
      · simp only [List.mem_cons, List.not_mem_nil, or_false] at hn
        omega
    · have hfold : foldCase x = x := by
        simp only [List.mem_cons, List.not_mem_nil, or_false] at hn
        unfold foldCase
        rw [if_neg (by omega), if_neg (by omega), if_neg (by omega),
          toLower_of_not_ascii (by omega)]
      rw [hfold]

theorem word_of_letter {alnum : Char → Bool} {c : Char} (h : Letter c) :
    isWordChar alnum c = true := by
  rw [isWordChar_ascii h.1, h.2, Bool.true_or]

/-- The phrases stand by themselves. -/
theorem delimits_phrase {alnum : Char → Bool} (halnum : FoldedLetters alnum) :
    Delimits (isWordChar alnum) rasNonActionableUncorrectable := by
  intro b m v h
  obtain ⟨hfits, hleft, hright⟩ := phrase_fits h
  have hfold := isWordChar_foldCase halnum
  have hhead : m.head?.any (isWordChar alnum) = true := by
    obtain ⟨c, hc, hletter⟩ := hfits.head
    rw [← any_map_foldCase hfold, ← List.head?_map, hc]
    exact word_of_letter hletter
  have hlast : m.reverse.head?.any (isWordChar alnum) = true := by
    obtain ⟨c, hc, hletter⟩ := hfits.last
    rw [List.head?_reverse, ← any_map_foldCase hfold, ← List.getLast?_map, hc]
    exact word_of_letter hletter
  have hne : m ≠ [] := by
    rintro rfl
    cases hhead
  unfold atBoundary at hleft hright
  rw [List.head?_append_of_ne_nil _ hne, hhead] at hleft
  rw [List.head?_append_of_ne_nil _ (by simpa using hne), hlast] at hright
  refine ⟨hhead, ?_, ?_⟩
  · rw [List.getLast?_reverse]
    simpa using hleft
  · simpa using hright

/-! ## The alternatives that do not name RAS -/

/-- Those but `Oops:`. -/
def steadyAlternatives : List Re :=
  [kernelPanic, panicWord, watchdogLockup, softLockup, hardLockup, bugColon, kernelBug,
    callTraceUpper, callTraceLower, blockedFor, hungTask, gpuReset, amdgpuReset, ringTimeout,
    gpuFault, iommuFault, dmarFault, segfault, segmentationFault]

def otherAlternatives : List Re := oops :: steadyAlternatives

def wordShape (s : String) : Shape := .one ⟨true, s, true⟩

/-- The same alternatives as literals. -/
def steadyShapes : List Shape :=
  [wordShape "Kernel panic", wordShape "panic",
    .two ⟨false, "watchdog:", false⟩ ⟨true, "BUG", true⟩,
    .two ⟨false, "watchdog:", false⟩ ⟨true, "soft lockup", true⟩,
    .two ⟨false, "watchdog:", false⟩ ⟨true, "hard lockup", true⟩,
    wordShape "soft lockup", wordShape "hard lockup", .one ⟨true, "BUG:", false⟩,
    wordShape "kernel BUG", wordShape "Call Trace", wordShape "call trace",
    wordShape "blocked for more than", wordShape "hung task", wordShape "gpu reset",
    .two ⟨true, "amdgpu", false⟩ ⟨false, "reset", true⟩,
    .two ⟨true, "ring ", false⟩ ⟨false, "timeout", true⟩, wordShape "GPU fault",
    .two ⟨true, "IOMMU", true⟩ ⟨true, "fault", true⟩,
    .two ⟨true, "DMAR", true⟩ ⟨true, "fault", true⟩, wordShape "segfault",
    wordShape "segmentation fault"]

/-- A word character of ASCII. -/
def asciiWord (c : Char) : Bool := c.isAlphanum || c = '_'

def checkPiece (p : Piece) : Bool :=
  let s := p.text.toList.map Char.toLower
  isAscii p.text && s.head?.any asciiWord && (!p.right || s.getLast?.any asciiWord) &&
    decide (Broken Allowed asciiWord s)

def checkShape : Shape → Bool
  | .one p => checkPiece p
  | .two p q => checkPiece p && checkPiece q

theorem steadyShapes_checked : steadyShapes.all checkShape = true := by decide

section

variable {alnum : Char → Bool}

theorem apart_of_checkPiece (halnum : FoldedLetters alnum) {p : Piece}
    (h : checkPiece p = true) :
    p.Apart (isWordChar alnum) rasNonActionableUncorrectable := by
  unfold checkPiece at h
  simp only [Bool.and_eq_true, decide_eq_true_eq, Bool.or_eq_true, Bool.not_eq_true'] at h
  obtain ⟨⟨⟨hascii, hhead⟩, hlast⟩, hbroken⟩ := h
  have hfold := isWordChar_foldCase halnum
  have hword : ∀ c ∈ p.text.toList.map Char.toLower, asciiWord c = isWordChar alnum c := by
    intro c hc
    obtain ⟨x, hx, rfl⟩ := List.mem_map.mp hc
    have hxascii : x.toNat < 128 := of_decide_eq_true (List.all_eq_true.mp hascii x hx)
    rw [isWordChar_ascii (toLower_ascii hxascii)]
    rfl
  refine ⟨fun t ht => ?_, fun hright t ht => ?_, fun t ht b m v hm => ?_⟩
  · rw [← any_map_foldCase hfold, ← List.head?_map, ht.map_foldCase hascii, ← hhead]
    exact (any_eq fun c hc => hword c (List.mem_of_mem_head? hc)).symm
  · rw [← any_map_foldCase hfold, ← List.getLast?_map, ht.map_foldCase hascii,
      ← hlast.resolve_left (by simp [hright])]
    exact (any_eq fun c hc => hword c (List.mem_of_getLast? hc)).symm
  · refine foreign_of_broken hfold (phrase_fits hm).1.chain ?_
    rw [ht.map_foldCase hascii]
    exact hbroken.congr hword

theorem apart_of_mem (halnum : FoldedLetters alnum) {s : Shape} (hs : s ∈ steadyShapes) :
    s.Apart (isWordChar alnum) rasNonActionableUncorrectable := by
  have hcheck := List.all_eq_true.mp steadyShapes_checked s hs
  cases s with
  | one p => exact apart_of_checkPiece halnum hcheck
  | two p q =>
    rw [checkShape, Bool.and_eq_true] at hcheck
    exact ⟨apart_of_checkPiece halnum hcheck.1, apart_of_checkPiece halnum hcheck.2⟩

theorem found_congr {r s : Re}
    (h : ∀ p q, Spans (isWordChar alnum) r p q ↔ Spans (isWordChar alnum) s p q) (text : Txt) :
    found alnum r text = true ↔ found alnum s text = true := by
  simp only [found, search_iff, h]

theorem found_watchdogLockup_iff (text : Txt) : found alnum watchdogLockup text = true ↔
    found alnum (Shape.two ⟨false, "watchdog:", false⟩ ⟨true, "BUG", true⟩).re text = true ∨
      found alnum (Shape.two ⟨false, "watchdog:", false⟩ ⟨true, "soft lockup", true⟩).re text =
        true ∨
      found alnum (Shape.two ⟨false, "watchdog:", false⟩ ⟨true, "hard lockup", true⟩).re text =
        true := by
  simp only [found, search_iff, watchdogLockup, Shape.re, Piece.re, cat, word, alts, spans_seq,
    spans_alt, or_and_right, and_or_left, exists_or, Bool.false_eq_true, if_false, if_true,
    List.nil_append, List.cons_append]

variable (alnum) in
/-- A pattern that begins with a boundary and a literal, as a shape. -/
theorem found_two_iff (s s' : String) (text : Txt) :
    found alnum (cat [wordBoundary, ilit s, dots, ilit s', wordBoundary]) text = true ↔
      found alnum (Shape.two ⟨true, s, false⟩ ⟨false, s', true⟩).re text = true :=
  found_congr (fun _ _ => spans_seq_assoc.symm) text

theorem found_steady_iff (text : Txt) :
    (∃ r ∈ steadyAlternatives, found alnum r text = true) ↔
      ∃ s ∈ steadyShapes, found alnum s.re text = true := by
  have hamdgpu := found_two_iff alnum "amdgpu" "reset" text
  have hring := found_two_iff alnum "ring " "timeout" text
  simp only [steadyAlternatives, steadyShapes, List.mem_cons, List.not_mem_nil, or_false,
    exists_eq_or_imp, exists_eq_left, found_watchdogLockup_iff, or_assoc, ← hamdgpu, ← hring]
  exact Iff.rfl

end

/-! ## What the downgrade hides -/

section

variable (alnum : Char → Bool)

/-- The line without the phrases. -/
def withoutPhrases (line : Txt) : Txt :=
  remove (isWordChar alnum) rasNonActionableUncorrectable line

/-- Corrected errors on a line that names no uncorrected ones. -/
def CorrectedOnly (line : Txt) : Prop :=
  found alnum rasCorrectedOnly line = true ∧ found alnum rasUncorrectable line = false

/-- The line has one of the events that have nothing to do with RAS. -/
def OtherEvent (line : Txt) : Prop := ∃ r ∈ otherAlternatives, found alnum r line = true

variable {alnum}

theorem lineMatches_iff (line : Txt) : lineMatches alnum .critical line = true ↔
    ¬ CorrectedOnly alnum (withoutPhrases alnum line) ∧
      found alnum dmesgCritical (withoutPhrases alnum line) = true := by
  rw [lineMatches_critical, rasDowngrade]
  show Option.any (found alnum dmesgCritical) (if found alnum rasCorrectedOnly
    (withoutPhrases alnum line) && !found alnum rasUncorrectable (withoutPhrases alnum line) then
      none else some (withoutPhrases alnum line)) = true ↔ _
  unfold CorrectedOnly
  split
  · rename_i hdrop
    rw [Bool.and_eq_true, Bool.not_eq_true'] at hdrop
    exact iff_of_false (by simp) fun h => h.1 hdrop
  · rename_i hkeep
    rw [Bool.and_eq_true, Bool.not_eq_true'] at hkeep
    exact ⟨fun h => ⟨hkeep, h⟩, fun h => h.2⟩

theorem critical_of_other {r : Re} (hr : r ∈ otherAlternatives) {line : Txt}
    (h : found alnum r line = true) : found alnum dmesgCritical line = true := by
  refine (found_alts_iff _ line).mpr ⟨r, ?_, h⟩
  simp only [otherAlternatives, steadyAlternatives, List.mem_cons, List.not_mem_nil,
    or_false] at hr ⊢
  rcases hr with rfl | rfl | rfl | rfl | rfl | rfl | rfl | rfl | rfl | rfl | rfl | rfl | rfl |
    rfl | rfl | rfl | rfl | rfl | rfl | rfl <;> simp

theorem not_critical_nil (alnum : Char → Bool) : found alnum dmesgCritical [] = false := rfl

/-- Taking the phrases out leaves every other event but an oops. -/
theorem critical_of_steady (halnum : FoldedLetters alnum) {line : Txt}
    (h : ∃ r ∈ steadyAlternatives, found alnum r line = true) :
    found alnum dmesgCritical (withoutPhrases alnum line) = true := by
  obtain ⟨s, hs, hfound⟩ := (found_steady_iff line).mp h
  have hleft := Shape.search_remove (delimits_phrase halnum) (apart_of_mem halnum hs) hfound
  obtain ⟨r, hr, hfound'⟩ := (found_steady_iff (withoutPhrases alnum line)).mpr ⟨s, hs, hleft⟩
  exact critical_of_other (List.mem_cons_of_mem _ hr) hfound'

/-- A line with another event counts exactly when, without the phrases, it does not
speak of corrected errors only, and the event is not an oops that went with a phrase. -/
theorem count_other_iff (halnum : FoldedLetters alnum) {line : Txt} (hline : IsLine line)
    (hother : OtherEvent alnum line) :
    countLinesMatching alnum line .critical = 1 ↔
      ¬ CorrectedOnly alnum (withoutPhrases alnum line) ∧
        ((∃ r ∈ steadyAlternatives, found alnum r line = true) ∨
          found alnum dmesgCritical (withoutPhrases alnum line) = true) := by
  have hne : line ≠ [] := by
    rintro rfl
    obtain ⟨r, hr, hfound⟩ := hother
    have hcritical := critical_of_other hr hfound
    rw [not_critical_nil] at hcritical
    cases hcritical
  rw [countLinesMatching_eq, splitlines_line hline hne, List.countP_singleton]
  have hcount : (if lineMatches alnum .critical line = true then 1 else 0) = 1 ↔
      lineMatches alnum .critical line = true := by
    by_cases hm : lineMatches alnum .critical line = true
    · simp [hm]
    · simp [hm]
  rw [hcount, lineMatches_iff]
  refine and_congr_right fun _ => ⟨.inr, fun h => ?_⟩
  rcases h with h | h
  · exact critical_of_steady halnum h
  · exact h

end

/-- Every letter beyond ASCII counts as alphanumeric. -/
def allAlnum : Char → Bool := fun _ => true

theorem foldedLetters_allAlnum : FoldedLetters allAlnum := fun _ _ => rfl

/-- A reset on a line that says no uncorrected errors. -/
theorem count_other_iff_reset :
    countLinesMatching allAlnum "RAS: 0 uncorrected errors, gpu reset".toList .critical = 1 :=
  (count_other_iff foldedLetters_allAlnum
    (forall_of_all (by decide)) ⟨gpuReset, by simp [otherAlternatives, steadyAlternatives],
      by decide⟩).mpr
    ⟨fun h => absurd h.1 (by decide), .inl ⟨gpuReset, by simp [steadyAlternatives],
      by decide⟩⟩

/-- A reset beside a corrected error is not counted, and an oops whose number begins a
phrase is not either. -/
theorem events_hidden :
    (found allAlnum gpuReset "RAS corrected error, gpu reset".toList = true ∧
        countLinesMatching allAlnum "RAS corrected error, gpu reset".toList .critical = 0) ∧
      found allAlnum oops "Oops: 0 fatal errors".toList = true ∧
        countLinesMatching allAlnum "Oops: 0 fatal errors".toList .critical = 0 := by
  decide

end DmesgCategories
end Monitored
end RocmTests
