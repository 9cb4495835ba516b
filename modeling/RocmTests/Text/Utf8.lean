import RocmTests.Text.Lines

/-!
# Bytes and text

`bytes.decode(errors="replace")` and `str.encode` for UTF-8, and the translation
of line ends that `open` in text mode makes.  A malformed sequence becomes one
replacement character for each longest part that could still have become a
character.
-/

namespace RocmTests
namespace Text

abbrev Bytes := List UInt8

namespace Utf8

def replacement : Char := Char.ofNat 0xFFFD

def isCont (b : UInt8) : Bool := 0x80 ≤ b && b ≤ 0xBF

/-- Whether `b` may follow the first byte `a` of a sequence of three or four. -/
def secondOk (a b : UInt8) : Bool :=
  isCont b && (a != 0xE0 || 0xA0 ≤ b) && (a != 0xED || b ≤ 0x9F) && (a != 0xF0 || 0x90 ≤ b) &&
    (a != 0xF4 || b ≤ 0x8F)

def low6 (b : UInt8) : Nat := b.toNat % 64

/-- The first character of a text that starts with `a`, and the bytes after it. -/
def decodeOne (a : UInt8) (bs : Bytes) : Char × Bytes :=
  if a < 0x80 then (Char.ofNat a.toNat, bs)
  else if a < 0xC2 || 0xF4 < a then (replacement, bs)
  else if a < 0xE0 then
    match bs with
    | b :: rest =>
      if isCont b then (Char.ofNat (a.toNat % 32 * 64 + low6 b), rest) else (replacement, bs)
    | [] => (replacement, [])
  else if a < 0xF0 then
    match bs with
    | b :: c :: rest =>
      if secondOk a b then
        if isCont c then (Char.ofNat (a.toNat % 16 * 4096 + low6 b * 64 + low6 c), rest)
        else (replacement, c :: rest)
      else (replacement, b :: c :: rest)
    | [b] => (replacement, if secondOk a b then [] else [b])
    | [] => (replacement, [])
  else
    match bs with
    | b :: c :: d :: rest =>
      if secondOk a b then
        if isCont c then
          if isCont d then
            (Char.ofNat (a.toNat % 8 * 262144 + low6 b * 4096 + low6 c * 64 + low6 d), rest)
          else (replacement, d :: rest)
        else (replacement, c :: d :: rest)
      else (replacement, b :: c :: d :: rest)
    | [b, c] =>
      if secondOk a b then (replacement, if isCont c then [] else [c]) else (replacement, [b, c])
    | [b] => (replacement, if secondOk a b then [] else [b])
    | [] => (replacement, [])

/-- `fuel` bounds the number of characters; the number of bytes is enough. -/
def decodeFrom : Nat → Bytes → Txt
  | 0, _ => []
  | _, [] => []
  | fuel + 1, a :: bs => (decodeOne a bs).1 :: decodeFrom fuel (decodeOne a bs).2

def decode (bs : Bytes) : Txt := decodeFrom bs.length bs

def encode (t : Txt) : Bytes := t.flatMap String.utf8EncodeChar

example : decode [0xE2, 0x80, 0x94, 0xE2, 0x80, 0x41, 0xFF] =
    [Char.ofNat 0x2014, replacement, 'A', replacement] := by decide

theorem encode_injective {a b : Txt} (h : encode a = encode b) : a = b := by
  have hbytes : a.utf8Encode = b.utf8Encode := congrArg List.toByteArray h
  have hstring : String.ofList a = String.ofList b := by
    rw [← String.toByteArray_inj, String.toByteArray_ofList, String.toByteArray_ofList, hbytes]
  exact String.ofList_injective hstring

/-- Only the character NUL has a zero byte. -/
theorem zero_not_mem_utf8EncodeChar {c : Char} (hc : c ≠ Char.ofNat 0) :
    0 ∉ String.utf8EncodeChar c := by
  have hpos : c.val.toNat ≠ 0 := fun h => hc (Char.ext (UInt32.toNat_inj.mp h))
  rw [String.utf8EncodeChar]
  split
  · rw [List.mem_singleton, ← UInt8.toNat_inj, UInt8.toNat_ofNat', UInt8.toNat_zero]
    omega
  · split
    · simp [← UInt8.toNat_inj]
      omega
    · split
      · simp [← UInt8.toNat_inj]
        omega
      · simp [← UInt8.toNat_inj]
        omega

theorem zero_not_mem_encode {t : Txt} (h : Char.ofNat 0 ∉ t) : 0 ∉ encode t := by
  intro hmem
  obtain ⟨c, hc, hzero⟩ := List.mem_flatMap.mp hmem
  exact zero_not_mem_utf8EncodeChar (fun heq => h (heq ▸ hc)) hzero

end Utf8

/-- Text mode reads `\r\n` and `\r` as `\n`. -/
def universalNewlines : Txt → Txt
  | [] => []
  | '\r' :: '\n' :: cs => '\n' :: universalNewlines cs
  | '\r' :: cs => '\n' :: universalNewlines cs
  | c :: cs => c :: universalNewlines cs

theorem universalNewlines_cons {c : Char} (h : c ≠ '\r') (cs : Txt) :
    universalNewlines (c :: cs) = c :: universalNewlines cs := by
  rw [universalNewlines]
  · intro rest hc
    exact absurd hc h
  · exact h

theorem universalNewlines_of_not_mem {t : Txt} (h : '\r' ∉ t) : universalNewlines t = t := by
  induction t with
  | nil => rfl
  | cons c t ih =>
    rw [List.mem_cons, not_or] at h
    rw [universalNewlines_cons (Ne.symm h.1), ih h.2]

theorem universalNewlines_eq_nil {t : Txt} (h : universalNewlines t = []) : t = [] := by
  have hlen : t ≠ [] → 0 < (universalNewlines t).length := by
    fun_cases universalNewlines t with
    | case1 => simp
    | case2 cs => simp
    | case3 cs hne => simp
    | case4 c cs hr hrn => simp
  by_contra hne
  have hpos := hlen hne
  rw [h] at hpos
  exact absurd hpos (by decide)

theorem isPrefix_of_universalNewlines {s t : Txt} (h : s <+: universalNewlines t) (hn : '\n' ∉ s) :
    s <+: t := by
  fun_induction universalNewlines t generalizing s with
  | case1 => exact h
  | case2 cs ih =>
    rcases List.prefix_cons_iff.mp h with rfl | ⟨s', rfl, _⟩
    · exact List.nil_prefix
    · exact absurd List.mem_cons_self hn
  | case3 cs hne ih =>
    rcases List.prefix_cons_iff.mp h with rfl | ⟨s', rfl, _⟩
    · exact List.nil_prefix
    · exact absurd List.mem_cons_self hn
  | case4 c cs hr hrn ih =>
    rcases List.prefix_cons_iff.mp h with rfl | ⟨s', rfl, hs'⟩
    · exact List.nil_prefix
    · have htail : '\n' ∉ s' := fun hmem => hn (List.mem_cons_of_mem _ hmem)
      exact List.prefix_cons_iff.mpr (Or.inr ⟨s', rfl, ih hs' htail⟩)

/-- `path.read_text(errors="replace")`. -/
def readText (bs : Bytes) : Txt := universalNewlines (Utf8.decode bs)

/-!
## Decoding piece by piece

A byte of ASCII ends whatever comes before it, so a text may be decoded in two parts there.
-/

namespace Utf8

theorem isCont_of_ascii {b : UInt8} (hb : b < 0x80) : isCont b = false := by
  rw [isCont, Bool.and_eq_false_iff]
  left
  simpa using hb

theorem length_decodeOne_le (a : UInt8) (bs : Bytes) : (decodeOne a bs).2.length ≤ bs.length := by
  unfold decodeOne
  split_ifs
  · exact Nat.le_refl _
  · exact Nat.le_refl _
  · split
    · split_ifs <;> simp
    · simp
  · split
    · split_ifs <;> simp only [List.length_cons] <;> omega
    · split_ifs <;> simp
    · simp
  · split
    · split_ifs <;> simp only [List.length_cons] <;> omega
    · split_ifs <;> simp
    · split_ifs <;> simp
    · simp

theorem isCont_of_secondOk {a b : UInt8} (h : secondOk a b = true) : isCont b = true := by
  simp only [secondOk, Bool.and_eq_true] at h
  exact h.1.1.1.1

/-- The bytes that a character goes on with are tested one after the other.  The first that fails
its test, or the end, makes it a replacement. -/
def continued (char : Bytes → Char) : List (UInt8 → Bool) → Bytes → Bytes → Char × Bytes
  | [], seen, bs => (char seen, bs)
  | _ :: _, _, [] => (replacement, [])
  | test :: tests, seen, b :: bs =>
    if test b then continued char tests (seen ++ [b]) bs else (replacement, b :: bs)

/-- What a byte starts goes on with bytes of the middle of a character. -/
theorem decodeOne_eq_continued (a : UInt8) : ∃ char tests,
    (∀ test ∈ tests, ∀ b, test b = true → isCont b = true) ∧
    ∀ bs, decodeOne a bs = continued char tests [] bs := by
  have hsecond (b : UInt8) : secondOk a b = true → isCont b = true := isCont_of_secondOk
  by_cases hascii : a < 0x80
  · exact ⟨fun _ => Char.ofNat a.toNat, [], by simp, fun bs => by
      rw [decodeOne.eq_def, if_pos hascii, continued]⟩
  by_cases hbad : (decide (a < 0xC2) || decide (0xF4 < a)) = true
  · exact ⟨fun _ => replacement, [], by simp, fun bs => by
      rw [decodeOne.eq_def, if_neg hascii, if_pos hbad, continued]⟩
  by_cases htwo : a < 0xE0
  · refine ⟨fun seen => Char.ofNat (a.toNat % 32 * 64 + low6 (seen.getD 0 0)), [isCont], by simp,
      fun bs => ?_⟩
    rw [decodeOne.eq_def, if_neg hascii, if_neg hbad, if_pos htwo]
    rcases bs with _ | ⟨b, bs⟩ <;> rfl
  by_cases hthree : a < 0xF0
  · refine ⟨fun seen => Char.ofNat (a.toNat % 16 * 4096 + low6 (seen.getD 0 0) * 64 +
      low6 (seen.getD 1 0)), [secondOk a, isCont], by simpa using hsecond, fun bs => ?_⟩
    rw [decodeOne.eq_def, if_neg hascii, if_neg hbad, if_neg htwo, if_pos hthree]
    rcases bs with _ | ⟨b, _ | ⟨c, bs⟩⟩
    · rfl
    all_goals
      simp only [continued]
      split_ifs <;> rfl
  · refine ⟨fun seen => Char.ofNat (a.toNat % 8 * 262144 + low6 (seen.getD 0 0) * 4096 +
      low6 (seen.getD 1 0) * 64 + low6 (seen.getD 2 0)), [secondOk a, isCont, isCont],
      by simpa using hsecond, fun bs => ?_⟩
    rw [decodeOne.eq_def, if_neg hascii, if_neg hbad, if_neg htwo, if_neg hthree]
    rcases bs with _ | ⟨b, _ | ⟨c, _ | ⟨d, bs⟩⟩⟩
    · rfl
    all_goals
      simp only [continued]
      split_ifs <;> rfl

section Continued

variable {char : Bytes → Char} {tests : List (UInt8 → Bool)}

/-- Only bytes that have passed their tests are taken. -/
theorem continued_suffix (htests : ∀ test ∈ tests, ∀ b, test b = true → isCont b = true)
    (seen y : Bytes) : ∃ v, (∀ b ∈ v, isCont b = true) ∧
      y = v ++ (continued char tests seen y).2 := by
  induction tests generalizing seen y with
  | nil => exact ⟨[], by simp, rfl⟩
  | cons test tests ih =>
    cases y with
    | nil => exact ⟨[], by simp, rfl⟩
    | cons b y =>
      by_cases hb : test b = true
      · obtain ⟨v, hv, hy⟩ :=
          ih (fun t ht => htests t (List.mem_cons_of_mem test ht)) (seen ++ [b]) y
        refine ⟨b :: v, ?_, ?_⟩
        · exact List.forall_mem_cons.mpr ⟨htests test List.mem_cons_self b hb, hv⟩
        · rw [continued, if_pos hb, List.cons_append, ← hy]
      · exact ⟨[], by simp, by rw [continued, if_neg hb, List.nil_append]⟩

theorem continued_split (htests : ∀ test ∈ tests, ∀ b, test b = true → isCont b = true)
    (seen bs y : Bytes) :
    continued char tests seen (bs ++ y) =
        ((continued char tests seen bs).1, (continued char tests seen bs).2 ++ y) ∨
      ∃ v w, v ≠ [] ∧ y = v ++ w ∧ (∀ b ∈ v, isCont b = true) ∧
        continued char tests seen bs = (replacement, []) ∧
        (continued char tests seen (bs ++ y)).2 = w := by
  induction tests generalizing seen bs with
  | nil => exact Or.inl rfl
  | cons test tests ih =>
    have hlater := fun t ht => htests t (List.mem_cons_of_mem test ht)
    cases bs with
    | nil =>
      -- all of `bs` is read, and the next byte is the first of `y`
      cases y with
      | nil => exact Or.inl rfl
      | cons b y =>
        rw [List.nil_append, continued, continued]
        by_cases hb : test b = true
        · obtain ⟨v, hv, hy⟩ := @continued_suffix char tests hlater (seen ++ [b]) y
          rw [if_pos hb]
          refine Or.inr ⟨b :: v, _, List.cons_ne_nil b v, ?_, ?_, rfl, rfl⟩
          · rw [List.cons_append, ← hy]
          · exact List.forall_mem_cons.mpr ⟨htests test List.mem_cons_self b hb, hv⟩
        · exact Or.inl (by rw [if_neg hb, List.nil_append])
    | cons b bs =>
      rw [List.cons_append, continued, continued]
      by_cases hb : test b = true
      · rw [if_pos hb, if_pos hb]
        exact ih hlater (seen ++ [b]) bs
      · exact Or.inl (by rw [if_neg hb, if_neg hb, List.cons_append])

end Continued

/-- The first character has its bytes in `bs`, or is finished by the beginning of `y`. -/
theorem decodeOne_split (a : UInt8) (bs y : Bytes) :
    decodeOne a (bs ++ y) = ((decodeOne a bs).1, (decodeOne a bs).2 ++ y) ∨
      ∃ v w, v ≠ [] ∧ y = v ++ w ∧ (∀ b ∈ v, isCont b = true) ∧
        decodeOne a bs = (replacement, []) ∧ (decodeOne a (bs ++ y)).2 = w := by
  obtain ⟨char, tests, htests, hcontinued⟩ := decodeOne_eq_continued a
  rw [hcontinued, hcontinued]
  exact continued_split htests [] bs y

/-- A byte of ASCII finishes no character. -/
theorem decodeOne_append (a : UInt8) (bs : Bytes) {b : UInt8} (hb : b < 0x80) (ys : Bytes) :
    decodeOne a (bs ++ b :: ys) = ((decodeOne a bs).1, (decodeOne a bs).2 ++ b :: ys) := by
  rcases decodeOne_split a bs (b :: ys) with hsplit | ⟨v, w, hne, hv, hcont, -⟩
  · exact hsplit
  · cases v with
    | nil => exact absurd rfl hne
    | cons c v =>
      rw [List.cons_append, List.cons.injEq] at hv
      have hascii := hcont c List.mem_cons_self
      rw [← hv.1, isCont_of_ascii hb] at hascii
      cases hascii

theorem decodeFrom_of_le {fuel : Nat} {bs : Bytes} (h : bs.length ≤ fuel) :
    decodeFrom fuel bs = decode bs := by
  have main (fuel : Nat) : ∀ (bs : Bytes) (m : Nat), bs.length ≤ fuel → bs.length ≤ m →
      decodeFrom fuel bs = decodeFrom m bs := by
    induction fuel with
    | zero =>
      intro bs m hf hm
      cases List.length_eq_zero_iff.1 (Nat.le_zero.1 hf)
      cases m <;> rfl
    | succ fuel ih =>
      intro bs m hf hm
      cases bs with
      | nil => cases m <;> rfl
      | cons a bs =>
        cases m with
        | zero => simp at hm
        | succ m =>
          have hlen := length_decodeOne_le a bs
          simp only [List.length_cons, Nat.add_le_add_iff_right] at hf hm
          rw [decodeFrom, decodeFrom, ih _ m (hlen.trans hf) (hlen.trans hm)]
  exact main fuel bs bs.length h (Nat.le_refl _)

theorem decode_cons (a : UInt8) (bs : Bytes) :
    decode (a :: bs) = (decodeOne a bs).1 :: decode (decodeOne a bs).2 := by
  rw [decode, List.length_cons, decodeFrom, decodeFrom_of_le (length_decodeOne_le a bs)]

/-- Decoding may stop before a byte of ASCII and go on there. -/
theorem decode_append_ascii (xs : Bytes) {b : UInt8} (hb : b < 0x80) (ys : Bytes) :
    decode (xs ++ b :: ys) = decode xs ++ decode (b :: ys) := by
  induction hlen : xs.length using Nat.strong_induction_on generalizing xs with
  | _ n ih =>
    cases xs with
    | nil => rfl
    | cons a xs =>
      have hrest := length_decodeOne_le a xs
      rw [List.cons_append, decode_cons, decodeOne_append a xs hb, decode_cons a xs,
        List.cons_append, ih _ (by rw [List.length_cons] at hlen; omega) _ rfl]

theorem length_decode_le (bs : Bytes) : (decode bs).length ≤ bs.length := by
  induction hlen : bs.length using Nat.strong_induction_on generalizing bs with
  | _ n ih =>
    cases bs with
    | nil => exact Nat.zero_le _
    | cons a bs =>
      have hrest := length_decodeOne_le a bs
      rw [List.length_cons] at hlen
      have hih := ih _ (by omega) (decodeOne a bs).2 rfl
      rw [decode_cons, List.length_cons]
      omega

/-! ### ASCII text -/

def IsAscii (t : Txt) : Prop := ∀ c ∈ t, c.toNat < 128

theorem encode_ascii {c : Char} (hc : c.toNat < 128) :
    String.utf8EncodeChar c = [UInt8.ofNat c.toNat] := by
  have hle : c.val ≤ 0x7f := by
    rw [UInt32.le_iff_toNat_le]
    exact Nat.le_of_lt_succ hc
  rw [String.utf8EncodeChar_eq_utf8EncodeCharFast, String.utf8EncodeCharFast]
  simp only [if_pos hle]
  rfl

theorem decode_ascii_cons {c : Char} (hc : c.toNat < 128) (ys : Bytes) :
    decode (UInt8.ofNat c.toNat :: ys) = c :: decode ys := by
  have hval : (UInt8.ofNat c.toNat).toNat = c.toNat := by
    rw [UInt8.toNat_ofNat']
    omega
  have hlt : UInt8.ofNat c.toNat < 0x80 := by
    rw [UInt8.lt_iff_toNat_lt, hval]
    exact hc
  have hone : decodeOne (UInt8.ofNat c.toNat) ys = (c, ys) := by
    unfold decodeOne
    rw [if_pos hlt, hval, Char.ofNat_toNat]
  rw [decode_cons, hone]

theorem decode_encode_ascii_append {t : Txt} (ht : IsAscii t) (ys : Bytes) :
    decode (encode t ++ ys) = t ++ decode ys := by
  induction t with
  | nil => rfl
  | cons c t ih =>
    have hc : c.toNat < 128 := ht c List.mem_cons_self
    rw [encode, List.flatMap_cons, encode_ascii hc, List.append_assoc, List.singleton_append,
      decode_ascii_cons hc, List.cons_append]
    exact congrArg _ (ih fun d hd => ht d (List.mem_cons_of_mem c hd))

theorem length_encode_ascii {t : Txt} (ht : IsAscii t) : (encode t).length = t.length := by
  induction t with
  | nil => rfl
  | cons c t ih =>
    rw [encode, List.flatMap_cons, encode_ascii (ht c List.mem_cons_self), List.length_append,
      List.length_singleton, List.length_cons, Nat.add_comm]
    exact congrArg _ (ih fun d hd => ht d (List.mem_cons_of_mem c hd))

end Utf8
end Text
end RocmTests
