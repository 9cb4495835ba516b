import RocmTests.Text.Utf8

/-!
# Decoding while the bytes arrive

The strict incremental decoder of UTF-8: it is given the bytes in chunks, keeps an
unfinished sequence for the next chunk and fails at the first chunk with a malformed one.
A line reader over it has the lines that are complete in what was decoded.
-/

namespace RocmTests
namespace Text
namespace Utf8

/-- More bytes may make the beginning of a sequence a character. -/
def unfinished : Bytes → Bool
  | [a] => 0xC2 ≤ a && a ≤ 0xF4
  | [a, b] => 0xE0 ≤ a && a ≤ 0xF4 && secondOk a b
  | [a, b, c] => 0xF0 ≤ a && a ≤ 0xF4 && secondOk a b && isCont c
  | _ => false

/-- The characters of a chunk and the unfinished sequence at its end; `none` is a
`UnicodeDecodeError`.  `fuel` bounds the number of characters. -/
def strictFrom : Nat → Bytes → Option (Txt × Bytes)
  | _, [] => some ([], [])
  | 0, bs => some ([], bs)
  | fuel + 1, a :: bs =>
    -- a replacement character that was not in the bytes stands for malformed ones
    if String.utf8EncodeChar (decodeOne a bs).1 ++ (decodeOne a bs).2 = a :: bs then
      (strictFrom fuel (decodeOne a bs).2).map fun r => ((decodeOne a bs).1 :: r.1, r.2)
    else if unfinished (a :: bs) then some ([], a :: bs)
    else none

def strict (bs : Bytes) : Option (Txt × Bytes) := strictFrom bs.length bs

/-- What is decoded of the chunks after `pending`, and whether the decoder fails then. -/
def decodeChunks (pending : Bytes) : List Bytes → Txt × Bool
  | [] => ([], pending ≠ [])
  | c :: cs =>
    match strict (pending ++ c) with
    | none => ([], true)
    | some (t, rest) => (t ++ (decodeChunks rest cs).1, (decodeChunks rest cs).2)

/-! ## The bytes of a character -/

theorem isCont_of_toNat {b : UInt8} {x : Nat} (hx : x < 64) (hb : b.toNat = 128 + x) :
    isCont b = true := by
  have h₁ : (128 : UInt8).toNat = 128 := rfl
  have h₂ : (191 : UInt8).toNat = 191 := rfl
  unfold isCont
  simp only [Bool.and_eq_true, decide_eq_true_eq, UInt8.le_iff_toNat_le, hb, h₁, h₂]
  omega

theorem low6_of_toNat {b : UInt8} {x : Nat} (hx : x < 64) (hb : b.toNat = 128 + x) :
    low6 b = x := by
  unfold low6
  omega

theorem ne_of_toNat {a k : UInt8} (h : a.toNat ≠ k.toNat) : (a != k) = true := by
  rw [bne_iff_ne]
  rintro rfl
  exact h rfl

/-- The second of three bytes: what may follow `E0` and `ED` keeps the value from 0x800
on and away from the surrogates. -/
theorem secondOk_three {a b : UInt8} {v : Nat} (hlow : 0x800 ≤ v) (hhigh : v < 0x10000)
    (hsurrogate : v < 0xD800 ∨ 0xDFFF < v) (ha : a.toNat = 224 + v / 4096)
    (hb : b.toNat = 128 + v / 64 % 64) : secondOk a b = true := by
  have hcont := isCont_of_toNat (Nat.mod_lt _ (by decide)) hb
  have hE0 : (a != 0xE0 || decide (0xA0 ≤ b)) = true := by
    by_cases h : a.toNat = (0xE0 : UInt8).toNat
    · have hge : (0xA0 : UInt8) ≤ b := by
        rw [UInt8.le_iff_toNat_le, hb]
        have h₁ : (0xE0 : UInt8).toNat = 224 := rfl
        have h₂ : (0xA0 : UInt8).toNat = 160 := rfl
        omega
      rw [decide_eq_true hge, Bool.or_true]
    · rw [ne_of_toNat h, Bool.true_or]
  have hED : (a != 0xED || decide (b ≤ 0x9F)) = true := by
    by_cases h : a.toNat = (0xED : UInt8).toNat
    · have hle : b ≤ (0x9F : UInt8) := by
        rw [UInt8.le_iff_toNat_le, hb]
        have h₁ : (0xED : UInt8).toNat = 237 := rfl
        have h₂ : (0x9F : UInt8).toNat = 159 := rfl
        omega
      rw [decide_eq_true hle, Bool.or_true]
    · rw [ne_of_toNat h, Bool.true_or]
  have hF0 : (a != 0xF0) = true := ne_of_toNat (by
    have h₁ : (0xF0 : UInt8).toNat = 240 := rfl
    omega)
  have hF4 : (a != 0xF4) = true := ne_of_toNat (by
    have h₁ : (0xF4 : UInt8).toNat = 244 := rfl
    omega)
  unfold secondOk
  rw [hcont, hE0, hED, hF0, hF4]
  rfl

theorem secondOk_four {a b : UInt8} {v : Nat} (hlow : 0x10000 ≤ v) (hhigh : v < 0x110000)
    (ha : a.toNat = 240 + v / 262144) (hb : b.toNat = 128 + v / 4096 % 64) :
    secondOk a b = true := by
  have hcont := isCont_of_toNat (Nat.mod_lt _ (by decide)) hb
  have hE0 : (a != 0xE0) = true := ne_of_toNat (by
    have h₁ : (0xE0 : UInt8).toNat = 224 := rfl
    omega)
  have hED : (a != 0xED) = true := ne_of_toNat (by
    have h₁ : (0xED : UInt8).toNat = 237 := rfl
    omega)
  have hF0 : (a != 0xF0 || decide (0x90 ≤ b)) = true := by
    by_cases h : a.toNat = (0xF0 : UInt8).toNat
    · have hge : (0x90 : UInt8) ≤ b := by
        rw [UInt8.le_iff_toNat_le, hb]
        have h₁ : (0xF0 : UInt8).toNat = 240 := rfl
        have h₂ : (0x90 : UInt8).toNat = 144 := rfl
        omega
      rw [decide_eq_true hge, Bool.or_true]
    · rw [ne_of_toNat h, Bool.true_or]
  have hF4 : (a != 0xF4 || decide (b ≤ 0x8F)) = true := by
    by_cases h : a.toNat = (0xF4 : UInt8).toNat
    · have hle : b ≤ (0x8F : UInt8) := by
        rw [UInt8.le_iff_toNat_le, hb]
        have h₁ : (0xF4 : UInt8).toNat = 244 := rfl
        have h₂ : (0x8F : UInt8).toNat = 143 := rfl
        omega
      rw [decide_eq_true hle, Bool.or_true]
    · rw [ne_of_toNat h, Bool.true_or]
  unfold secondOk
  rw [hcont, hE0, hED, hF0, hF4]
  rfl

/-- The bytes of a character of two, three or four. -/
inductive Sequence (v : Nat) : Bytes → Prop where
  | one (a : UInt8) : v < 0x80 → a.toNat = v → Sequence v [a]
  | two (a b : UInt8) : 0x80 ≤ v → v < 0x800 → a.toNat = 192 + v / 64 → b.toNat = 128 + v % 64 →
    Sequence v [a, b]
  | three (a b c : UInt8) : 0x800 ≤ v → v < 0x10000 → v < 0xD800 ∨ 0xDFFF < v →
    a.toNat = 224 + v / 4096 → b.toNat = 128 + v / 64 % 64 → c.toNat = 128 + v % 64 →
    Sequence v [a, b, c]
  | four (a b c d : UInt8) : 0x10000 ≤ v → v < 0x110000 → a.toNat = 240 + v / 262144 →
    b.toNat = 128 + v / 4096 % 64 → c.toNat = 128 + v / 64 % 64 → d.toNat = 128 + v % 64 →
    Sequence v [a, b, c, d]

theorem sequence_utf8EncodeChar (c : Char) : Sequence c.toNat (String.utf8EncodeChar c) := by
  have hvalid := c.valid
  have hv : c.val.toNat = c.toNat := rfl
  simp only [UInt32.isValidChar, Nat.isValidChar, hv] at hvalid
  unfold String.utf8EncodeChar
  simp only [hv]
  split_ifs with h₁ h₂ h₃
  · exact .one _ (by omega) (by rw [UInt8.toNat_ofNat']; omega)
  · exact .two _ _ (by omega) (by omega) (by rw [UInt8.toNat_ofNat']; omega)
      (by rw [UInt8.toNat_ofNat']; omega)
  · exact .three _ _ _ (by omega) (by omega) (by omega) (by rw [UInt8.toNat_ofNat']; omega)
      (by rw [UInt8.toNat_ofNat']; omega) (by rw [UInt8.toNat_ofNat']; omega)
  · exact .four _ _ _ _ (by omega) (by omega) (by rw [UInt8.toNat_ofNat']; omega)
      (by rw [UInt8.toNat_ofNat']; omega) (by rw [UInt8.toNat_ofNat']; omega)
      (by rw [UInt8.toNat_ofNat']; omega)

/-- A byte that a longer character begins with. -/
theorem lead_of_toNat {a : UInt8} (hlow : 194 ≤ a.toNat) (hhigh : a.toNat ≤ 244) :
    ¬ a < 0x80 ∧ ¬ (decide (a < 0xC2) || decide (0xF4 < a)) = true := by
  have h80 : (0x80 : UInt8).toNat = 128 := rfl
  have hC2 : (0xC2 : UInt8).toNat = 194 := rfl
  have hF4 : (0xF4 : UInt8).toNat = 244 := rfl
  simp only [Bool.or_eq_true, decide_eq_true_eq, UInt8.lt_iff_toNat_lt]
  omega

/-- The first bytes of a sequence, with what decides how it is read. -/
theorem decodeOne_sequence {v : Nat} {a : UInt8} {bs : Bytes} (h : Sequence v (a :: bs))
    (rest : Bytes) : decodeOne a (bs ++ rest) = (Char.ofNat v, rest) := by
  have h80 : (0x80 : UInt8).toNat = 128 := rfl
  have hE0 : (0xE0 : UInt8).toNat = 224 := rfl
  have hF0 : (0xF0 : UInt8).toNat = 240 := rfl
  have hmod (n : Nat) : n % 64 < 64 := Nat.mod_lt _ (by decide)
  unfold decodeOne
  cases h with
  | one _ hv ha =>
    have hascii : a < 0x80 := by
      rw [UInt8.lt_iff_toNat_lt]
      omega
    rw [if_pos hascii, ha]
    rfl
  | two _ b hlow hhigh ha hb =>
    obtain ⟨h₁, h₂⟩ := lead_of_toNat (a := a) (by omega) (by omega)
    have h₃ : a < 0xE0 := by
      rw [UInt8.lt_iff_toNat_lt]
      omega
    rw [if_neg h₁, if_neg h₂, if_pos h₃]
    simp only [List.cons_append, List.nil_append, isCont_of_toNat (hmod _) hb, if_true,
      low6_of_toNat (hmod _) hb]
    congr 2
    omega
  | three _ b c hlow hhigh hsurrogate ha hb hc =>
    obtain ⟨h₁, h₂⟩ := lead_of_toNat (a := a) (by omega) (by omega)
    have h₃ : ¬ a < 0xE0 := by
      rw [UInt8.lt_iff_toNat_lt]
      omega
    have h₄ : a < 0xF0 := by
      rw [UInt8.lt_iff_toNat_lt]
      omega
    rw [if_neg h₁, if_neg h₂, if_neg h₃, if_pos h₄]
    simp only [List.cons_append, List.nil_append, secondOk_three hlow hhigh hsurrogate ha hb,
      isCont_of_toNat (hmod _) hc, if_true, low6_of_toNat (hmod _) hb, low6_of_toNat (hmod _) hc]
    congr 2
    omega
  | four _ b c d hlow hhigh ha hb hc hd =>
    obtain ⟨h₁, h₂⟩ := lead_of_toNat (a := a) (by omega) (by omega)
    have h₃ : ¬ a < 0xE0 := by
      rw [UInt8.lt_iff_toNat_lt]
      omega
    have h₄ : ¬ a < 0xF0 := by
      rw [UInt8.lt_iff_toNat_lt]
      omega
    rw [if_neg h₁, if_neg h₂, if_neg h₃, if_neg h₄]
    simp only [List.cons_append, List.nil_append, secondOk_four hlow hhigh ha hb,
      isCont_of_toNat (hmod _) hc, isCont_of_toNat (hmod _) hd, if_true, low6_of_toNat (hmod _) hb,
      low6_of_toNat (hmod _) hc, low6_of_toNat (hmod _) hd]
    congr 2
    omega

/-- A sequence that is cut short is unfinished. -/
theorem unfinished_sequence {v : Nat} {bs p more : Bytes} (h : Sequence v bs) (hp : bs = p ++ more)
    (hne : p ≠ []) (hmore : more ≠ []) : unfinished p = true := by
  have hC2 : (0xC2 : UInt8).toNat = 194 := rfl
  have hE0 : (0xE0 : UInt8).toNat = 224 := rfl
  have hF0 : (0xF0 : UInt8).toNat = 240 := rfl
  have hF4 : (0xF4 : UInt8).toNat = 244 := rfl
  have hmod (n : Nat) : n % 64 < 64 := Nat.mod_lt _ (by decide)
  obtain ⟨x, p, rfl⟩ := List.exists_cons_of_ne_nil hne
  obtain ⟨y, more, rfl⟩ := List.exists_cons_of_ne_nil hmore
  cases h with
  | one a hv ha =>
    have hlen := congrArg List.length hp
    simp only [List.length_append, List.length_cons, List.length_nil] at hlen
    omega
  | two a b hlow hhigh ha hb =>
    have hlead : 0xC2 ≤ a ∧ a ≤ 0xF4 := by
      rw [UInt8.le_iff_toNat_le, UInt8.le_iff_toNat_le]
      omega
    obtain ⟨rfl, hp₁⟩ := List.cons.inj hp
    cases p with
    | nil => simp [unfinished, hlead]
    | cons z p =>
      have hlen := congrArg List.length hp
      simp only [List.length_append, List.length_cons, List.length_nil] at hlen
      omega
  | three a b c hlow hhigh hsurrogate ha hb hc =>
    have hlead : 0xC2 ≤ a ∧ 0xE0 ≤ a ∧ a ≤ 0xF4 := by
      simp only [UInt8.le_iff_toNat_le]
      omega
    obtain ⟨rfl, hp₁⟩ := List.cons.inj hp
    cases p with
    | nil => simp [unfinished, hlead]
    | cons z p =>
      obtain ⟨rfl, hp₂⟩ := List.cons.inj hp₁
      cases p with
      | nil => simp [unfinished, hlead, secondOk_three hlow hhigh hsurrogate ha hb]
      | cons w p =>
        have hlen := congrArg List.length hp
        simp only [List.length_append, List.length_cons, List.length_nil] at hlen
        omega
  | four a b c d hlow hhigh ha hb hc hd =>
    have hlead : 0xC2 ≤ a ∧ 0xE0 ≤ a ∧ 0xF0 ≤ a ∧ a ≤ 0xF4 := by
      simp only [UInt8.le_iff_toNat_le]
      omega
    obtain ⟨rfl, hp₁⟩ := List.cons.inj hp
    cases p with
    | nil => simp [unfinished, hlead]
    | cons z p =>
      obtain ⟨rfl, hp₂⟩ := List.cons.inj hp₁
      cases p with
      | nil => simp [unfinished, hlead, secondOk_four hlow hhigh ha hb]
      | cons w p =>
        obtain ⟨rfl, hp₃⟩ := List.cons.inj hp₂
        cases p with
        | nil =>
          simp [unfinished, hlead, secondOk_four hlow hhigh ha hb, isCont_of_toNat (hmod _) hc]
        | cons u p =>
          have hlen := congrArg List.length hp
          simp only [List.length_append, List.length_cons, List.length_nil] at hlen
          omega

/-! ## The decoder and the text -/

theorem encode_cons (c : Char) (t : Txt) :
    encode (c :: t) = String.utf8EncodeChar c ++ encode t := by
  unfold encode
  rw [List.flatMap_cons]

theorem decodeOne_encodeChar {c : Char} {rest : Bytes} {a : UInt8} {bs : Bytes}
    (h : String.utf8EncodeChar c ++ rest = a :: bs) : decodeOne a bs = (c, rest) := by
  have hsequence := sequence_utf8EncodeChar c
  cases hbytes : String.utf8EncodeChar c with
  | nil => exact absurd hbytes String.utf8EncodeChar_ne_nil
  | cons a' bs' =>
    rw [hbytes, List.cons_append] at h
    obtain ⟨rfl, rfl⟩ := List.cons.inj h
    rw [hbytes] at hsequence
    rw [decodeOne_sequence hsequence, Char.ofNat_toNat]

/-- An encoded text is decoded before whatever bytes follow it. -/
theorem decode_encode_append (t : Txt) (rest : Bytes) :
    decode (encode t ++ rest) = t ++ decode rest := by
  induction t with
  | nil => rfl
  | cons c t ih =>
    rw [encode_cons, List.append_assoc, List.cons_append, ← ih]
    cases hbytes : String.utf8EncodeChar c ++ (encode t ++ rest) with
    | nil => exact absurd (List.append_eq_nil_iff.mp hbytes).1 String.utf8EncodeChar_ne_nil
    | cons a bs => rw [decode_cons, decodeOne_encodeChar hbytes]

theorem strictFrom_sound (fuel : Nat) : ∀ {bs : Bytes} {t : Txt} {rest : Bytes},
    strictFrom fuel bs = some (t, rest) → bs = encode t ++ rest := by
  induction fuel with
  | zero =>
    intro bs t rest h
    cases bs with
    | nil =>
      cases h
      rfl
    | cons a bs =>
      cases h
      rfl
  | succ fuel ih =>
    intro bs t rest h
    cases bs with
    | nil =>
      cases h
      rfl
    | cons a bs =>
      rw [strictFrom] at h
      split_ifs at h with hchar hunfinished
      · obtain ⟨⟨t', rest'⟩, hr, heq⟩ := Option.map_eq_some_iff.mp h
        cases heq
        show a :: bs = encode ((decodeOne a bs).1 :: t') ++ rest'
        rw [← hchar, ih hr, ← List.append_assoc, encode_cons]
      · cases h
        rfl

/-- A file whose chunks all decode is the text that was decoded. -/
theorem decodeChunks_sound (cs : List Bytes) : ∀ {pending : Bytes} {t : Txt},
    decodeChunks pending cs = (t, false) → pending ++ cs.flatten = encode t := by
  induction cs with
  | nil =>
    intro pending t h
    simp only [decodeChunks, Prod.mk.injEq, decide_eq_false_iff_not, not_not] at h
    rw [← h.1, h.2]
    rfl
  | cons c cs ih =>
    intro pending t h
    rw [decodeChunks] at h
    cases hstrict : strict (pending ++ c) with
    | none =>
      rw [hstrict] at h
      cases h
    | some r =>
      obtain ⟨t', rest⟩ := r
      rw [hstrict] at h
      simp only [Prod.mk.injEq] at h
      have hrest := @ih rest (decodeChunks rest cs).1 (Prod.ext rfl h.2)
      rw [List.flatten_cons, ← List.append_assoc, strictFrom_sound _ hstrict, List.append_assoc,
        hrest, ← h.1]
      unfold encode
      rw [List.flatMap_append]

/-- Bytes that a text may begin with are not refused. -/
theorem strictFrom_complete (fuel : Nat) : ∀ {bs more : Bytes} {t : Txt}, bs ++ more = encode t →
    ∃ r, strictFrom fuel bs = some r := by
  induction fuel with
  | zero =>
    intro bs more t h
    cases bs with
    | nil => exact ⟨_, rfl⟩
    | cons a bs => exact ⟨_, rfl⟩
  | succ fuel ih =>
    intro bs more t h
    cases bs with
    | nil => exact ⟨_, rfl⟩
    | cons a bs =>
      cases t with
      | nil => cases h
      | cons c t =>
        rw [strictFrom]
        split_ifs with hchar hunfinished
        · -- the character is the first of the text
          have hfirst := decodeOne_encodeChar (h.trans (encode_cons c t)).symm
          have hagain := @decodeOne_encodeChar (decodeOne a bs).1
            ((decodeOne a bs).2 ++ more) a (bs ++ more)
            (by rw [← List.append_assoc, hchar]; rfl)
          have hrest := congrArg Prod.snd (hagain.symm.trans hfirst)
          obtain ⟨r, hr⟩ := ih hrest
          rw [hr]
          exact ⟨_, rfl⟩
        · exact ⟨_, rfl⟩
        · exfalso
          rw [encode_cons] at h
          rcases List.append_eq_append_iff.mp h with ⟨k, hk, hmore⟩ | ⟨k, hk, -⟩
          · -- the bytes end within the first character
            cases k with
            | nil =>
              rw [List.append_nil] at hk
              have hone := @decodeOne_encodeChar c [] _ _ (by rw [List.append_nil, hk])
              apply hchar
              rw [hone, List.append_nil, hk]
            | cons y k =>
              exact hunfinished (unfinished_sequence (sequence_utf8EncodeChar c) hk
                (List.cons_ne_nil _ _) (List.cons_ne_nil _ _))
          · have hone := decodeOne_encodeChar hk.symm
            apply hchar
            rw [hone, hk]

/-- What is kept for the next chunk does not begin with a character. -/
theorem strictFrom_rest (fuel : Nat) : ∀ {bs : Bytes} {t : Txt} {rest : Bytes}, bs.length ≤ fuel →
    strictFrom fuel bs = some (t, rest) → ∀ c k, rest ≠ String.utf8EncodeChar c ++ k := by
  have hnil (c : Char) (k : Bytes) : [] ≠ String.utf8EncodeChar c ++ k :=
    fun h => String.utf8EncodeChar_ne_nil (List.append_eq_nil_iff.mp h.symm).1
  induction fuel with
  | zero =>
    intro bs t rest hlen h
    rw [List.length_eq_zero_iff.mp (Nat.le_zero.mp hlen)] at h
    cases h
    exact hnil
  | succ fuel ih =>
    intro bs t rest hlen h
    cases bs with
    | nil =>
      cases h
      exact hnil
    | cons a bs =>
      rw [strictFrom] at h
      split_ifs at h with hchar hunfinished
      · obtain ⟨⟨t', rest'⟩, hr, heq⟩ := Option.map_eq_some_iff.mp h
        cases heq
        have hshort := length_decodeOne_le a bs
        rw [List.length_cons] at hlen
        exact ih (by omega) hr
      · cases h
        intro c k hk
        apply hchar
        rw [decodeOne_encodeChar hk.symm, hk]

theorem encode_prefix (t : Txt) : ∀ {t' : Txt} {z : Bytes}, encode t ++ z = encode t' →
    ∃ t'', z = encode t'' := by
  induction t with
  | nil =>
    intro t' z h
    exact ⟨t', h⟩
  | cons c t ih =>
    intro t' z h
    rw [encode_cons] at h
    cases t' with
    | nil =>
      have hnil := List.append_eq_nil_iff.mp (List.append_eq_nil_iff.mp h).1
      exact absurd hnil.1 String.utf8EncodeChar_ne_nil
    | cons c' t' =>
      rw [encode_cons, List.append_assoc] at h
      cases hbytes : String.utf8EncodeChar c' ++ encode t' with
      | nil => exact absurd (List.append_eq_nil_iff.mp hbytes).1 String.utf8EncodeChar_ne_nil
      | cons a bs =>
        have hfirst := decodeOne_encodeChar (h.trans hbytes)
        rw [decodeOne_encodeChar hbytes] at hfirst
        exact ih (congrArg Prod.snd hfirst).symm

theorem decodeChunks_complete (cs : List Bytes) : ∀ {pending : Bytes} {t : Txt},
    (∀ c k, pending ≠ String.utf8EncodeChar c ++ k) → pending ++ cs.flatten = encode t →
      (decodeChunks pending cs).2 = false := by
  induction cs with
  | nil =>
    intro pending t hpending h
    rw [List.flatten_nil, List.append_nil] at h
    cases t with
    | nil =>
      rw [h]
      rfl
    | cons c t => exact absurd (h.trans (encode_cons c t)) (hpending c (encode t))
  | cons c cs ih =>
    intro pending t hpending h
    rw [List.flatten_cons, ← List.append_assoc] at h
    obtain ⟨⟨t', rest⟩, hr⟩ := strictFrom_complete (pending ++ c).length h
    have hstrict : strict (pending ++ c) = some (t', rest) := hr
    rw [strictFrom_sound _ hr, List.append_assoc] at h
    obtain ⟨t'', hrest⟩ := encode_prefix t' h
    rw [decodeChunks, hstrict]
    exact ih (strictFrom_rest _ (Nat.le_refl _) hr) hrest

/-- The decoder does not fail exactly if the bytes are a text. -/
theorem decodeChunks_eq_false_iff (cs : List Bytes) :
    (decodeChunks [] cs).2 = false ↔ ∃ t, cs.flatten = encode t := by
  constructor
  · intro h
    exact ⟨_, decodeChunks_sound cs (Prod.ext rfl h)⟩
  · rintro ⟨t, h⟩
    refine decodeChunks_complete cs (fun c k hk => ?_) h
    exact String.utf8EncodeChar_ne_nil (List.append_eq_nil_iff.mp hk.symm).1

end Utf8
end Text
end RocmTests
