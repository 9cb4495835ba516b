import RocmTests.Text.Utf8

/-!
# Text decoded in pieces

Bytes that are decoded piece by piece give the text of the whole as long as no character is
cut.  A character that is cut becomes a replacement character in the piece where it begins,
and each of its bytes in the next pieces becomes one more.
-/

namespace RocmTests
namespace Text
namespace Utf8

/-- Whether `y` follows `x` between two characters.  `fuel` bounds the number of characters
in `x`. -/
def borderFrom : Nat → Bytes → Bytes → Bool
  | _, [], _ => true
  | 0, _, _ => true
  | fuel + 1, a :: bs, y =>
    let rest := (decodeOne a (bs ++ y)).2
    decide (y.length ≤ rest.length) && borderFrom fuel (rest.take (rest.length - y.length)) y

/-- No character of `x ++ y` has bytes on both sides. -/
def Border (x y : Bytes) : Prop := borderFrom x.length x y = true

instance (x y : Bytes) : Decidable (Border x y) := by
  unfold Border
  infer_instance

/-- A character of `x ++ y` is cut: it begins in `x`, where it is the last one, and `v` is the
rest of it. -/
structure Cut (x y : Bytes) (before : Txt) (c : Char) (v w : Bytes) : Prop where
  left : decode x = before ++ [replacement]
  right : y = v ++ w
  whole : decode (x ++ y) = before ++ c :: decode w
  nonempty : v ≠ []
  cont : ∀ b ∈ v, isCont b = true

theorem decode_conts {v : Bytes} (hv : ∀ b ∈ v, isCont b = true) (w : Bytes) :
    decode (v ++ w) = List.replicate v.length replacement ++ decode w := by
  induction v with
  | nil => rfl
  | cons b v ih =>
    have hb := hv b List.mem_cons_self
    have hone (bs : Bytes) : decodeOne b bs = (replacement, bs) := by
      simp only [isCont, Bool.and_eq_true, decide_eq_true_eq, UInt8.le_iff_toNat_le] at hb
      have h₁ : (0x80 : UInt8).toNat = 128 := rfl
      have h₂ : (0xBF : UInt8).toNat = 191 := rfl
      have h₃ : (0xC2 : UInt8).toNat = 194 := rfl
      have hhigh : ¬ b < 0x80 := by
        rw [UInt8.lt_iff_toNat_lt]
        omega
      have hlow : (decide (b < 0xC2) || decide (0xF4 < b)) = true := by
        simp only [Bool.or_eq_true, decide_eq_true_eq, UInt8.lt_iff_toNat_lt]
        omega
      unfold decodeOne
      rw [if_neg hhigh, if_pos hlow]
    rw [List.cons_append, decode_cons, hone, ih fun x hx => hv x (List.mem_cons_of_mem b hx)]
    rfl

theorem borderFrom_or_cut (y : Bytes) (fuel : Nat) : ∀ x : Bytes, x.length ≤ fuel →
    borderFrom fuel x y = true ∧ decode (x ++ y) = decode x ++ decode y ∨
      borderFrom fuel x y = false ∧ ∃ before c v w, Cut x y before c v w := by
  induction fuel with
  | zero =>
    intro x hx
    rw [List.length_eq_zero_iff.mp (Nat.le_zero.mp hx)]
    exact Or.inl ⟨rfl, rfl⟩
  | succ fuel ih =>
    intro x hx
    cases x with
    | nil => exact Or.inl ⟨rfl, rfl⟩
    | cons a bs =>
      rw [List.length_cons] at hx
      rcases decodeOne_split a bs y with hone | ⟨v, w, hne, rfl, hcont, hone, hrest⟩
      · have hshort := length_decodeOne_le a bs
        have hfrom : borderFrom (fuel + 1) (a :: bs) y =
            borderFrom fuel (decodeOne a bs).2 y := by
          rw [borderFrom, hone]
          simp
        have hwhole : decode (a :: bs ++ y) =
            (decodeOne a bs).1 :: decode ((decodeOne a bs).2 ++ y) := by
          rw [List.cons_append, decode_cons, hone]
        rw [hfrom, hwhole, decode_cons a bs]
        rcases ih (decodeOne a bs).2 (by omega) with ⟨hb, hd⟩ | ⟨hb, before, c, v, w, hcut⟩
        · exact Or.inl ⟨hb, by rw [hd, List.cons_append]⟩
        · refine Or.inr ⟨hb, (decodeOne a bs).1 :: before, c, v, w, ?_, hcut.right, ?_,
            hcut.nonempty, hcut.cont⟩
          · rw [decode_cons, hcut.left, List.cons_append]
          · rw [hwhole, hcut.whole, List.cons_append]
      · have hpos := List.length_pos_of_ne_nil hne
        refine Or.inr ⟨?_, [], (decodeOne a (bs ++ (v ++ w))).1, v, w, ?_, rfl, ?_, hne, hcont⟩
        · rw [borderFrom, hrest]
          simp only [List.length_append]
          rw [decide_eq_false (by omega), Bool.false_and]
        · rw [decode_cons, hone]
          rfl
        · rw [List.cons_append, decode_cons, hrest]
          rfl

theorem border_or_cut (x y : Bytes) :
    Border x y ∧ decode (x ++ y) = decode x ++ decode y ∨
      ¬ Border x y ∧ ∃ before c v w, Cut x y before c v w :=
  (borderFrom_or_cut y x.length x (Nat.le_refl _)).imp id
    fun ⟨hb, hcut⟩ => ⟨Bool.eq_false_iff.mp hb, hcut⟩

/-! ## All pieces -/

/-- A character is cut at the end of `p`, and from it on both texts are replacement characters
only: as many as the cuts add are missing with `rest`. -/
def Blurred (p : Bytes) (ps : List Bytes) (rest : Bytes) : Prop :=
  ¬ Border p (ps.flatten ++ rest) ∧
    ps.flatMap decode = List.replicate (ps.flatMap decode).length replacement ∧
    (decode (p ++ (ps.flatten ++ rest))).drop ((decode p).length - 1) =
      List.replicate ((ps.flatMap decode).length + 1) replacement

/-- The pieces are cut between characters and there is nothing more; or what goes wrong cannot
be seen. -/
def Kept : List Bytes → Bytes → Prop
  | [], rest => rest = []
  | p :: ps, rest => Border p (ps.flatten ++ rest) ∧ Kept ps rest ∨ Blurred p ps rest

section
variable {α : Type*} {r : α} {n : Nat}

/-- A list that goes on as it does after `n` copies of `r` is made of `r`. -/
theorem replicate_shift (hn : 0 < n) {A B B' : List α}
    (h : List.replicate n r ++ (A ++ B) = A ++ B') :
    A = List.replicate A.length r ∧ List.replicate n r ++ B = B' := by
  obtain ⟨k, rfl⟩ : ∃ k, n = k + 1 := ⟨n - 1, by omega⟩
  induction A with
  | nil => exact ⟨rfl, h⟩
  | cons a A ih =>
    rw [List.replicate_succ, List.cons_append, List.cons_append, List.cons_append,
      List.cons.injEq] at h
    obtain ⟨rfl, htail⟩ := h
    have hmove : List.replicate (k + 1) r ++ (A ++ B) = A ++ B' := by
      rw [← htail, List.replicate_succ', List.append_assoc]
      rfl
    obtain ⟨hA, hB⟩ := ih hmove
    exact ⟨by rw [List.length_cons, List.replicate_succ, ← hA], hB⟩

end

/-- A text that agrees with the whole after a cut is made of replacement characters. -/
theorem faded {ps : List Bytes} : ∀ {rest v w : Bytes} {m : Nat}, ps.flatten ++ rest = v ++ w →
    (∀ b ∈ v, isCont b = true) → 0 < m + v.length →
    List.replicate m replacement ++ ps.flatMap decode = decode w →
      ps.flatMap decode = List.replicate (ps.flatMap decode).length replacement := by
  induction ps with
  | nil => intros; rfl
  | cons p ps ih =>
    intro rest v w m hbytes hcont hpos htext
    have hjoin {k : Nat} {t : Txt} (ht : t = List.replicate t.length replacement) :
        List.replicate k replacement ++ t =
          List.replicate (List.replicate k replacement ++ t).length replacement := by
      rw [List.length_append, List.length_replicate, List.replicate_add, ← ht]
    rw [List.flatMap_cons] at htext ⊢
    rw [List.flatten_cons, List.append_assoc] at hbytes
    rcases List.append_eq_append_iff.mp hbytes with ⟨v', rfl, hrest⟩ | ⟨q, rfl, hw⟩
    · -- the piece has only bytes of the character that was cut
      have hp : decode p = List.replicate p.length replacement := by
        have hconts := decode_conts (fun b hb => hcont b (List.mem_append_left v' hb)) []
        rw [List.append_nil] at hconts
        rw [hconts]
        exact List.append_nil _
      rw [List.length_append] at hpos
      rw [hp, ← List.append_assoc, List.replicate_append_replicate] at htext
      rw [hp]
      exact hjoin (ih hrest (fun b hb => hcont b (List.mem_append_right p hb)) (by omega) htext)
    · rw [decode_conts hcont] at htext ⊢
      rw [List.append_assoc] at htext ⊢
      rw [← List.append_assoc, List.replicate_append_replicate, hw] at htext
      refine hjoin ?_
      rcases border_or_cut q (ps.flatten ++ rest) with ⟨-, hq⟩ | ⟨-, before, c, v', w', hcut⟩
      · rw [hq] at htext
        obtain ⟨hsame, hafter⟩ := replicate_shift hpos htext
        rw [hsame]
        exact hjoin (ih (v := []) rfl (fun b hb => absurd hb List.not_mem_nil) (by omega) hafter)
      · rw [hcut.whole, hcut.left, List.append_assoc] at htext
        obtain ⟨hsame, hafter⟩ := replicate_shift hpos htext
        have hmove : replacement :: (List.replicate (m + v.length) replacement ++
            ps.flatMap decode) = c :: decode w' := by
          rw [← hafter, ← List.cons_append, ← List.replicate_succ, List.replicate_succ',
            List.append_assoc]
        have hX := ih hcut.right hcut.cont (by omega) (List.cons.inj hmove).2
        rw [hcut.left, List.append_assoc, hsame]
        exact hjoin (hjoin (k := 1) hX)

/-- Pieces give the text of all the bytes exactly if they are cut between characters and
nothing is missing, or from the first cut on there is nothing to tell the texts apart. -/
theorem flatMap_decode_iff (ps : List Bytes) (rest : Bytes) :
    ps.flatMap decode = decode (ps.flatten ++ rest) ↔ Kept ps rest := by
  induction ps with
  | nil =>
    cases rest with
    | nil => exact Iff.intro (fun _ => rfl) (fun _ => rfl)
    | cons b rest =>
      have hne : decode ([].flatten ++ b :: rest) ≠ [] := by
        rw [List.flatten_nil, List.nil_append, decode_cons]
        exact List.cons_ne_nil _ _
      exact ⟨fun h => absurd h.symm hne, fun h => absurd h (List.cons_ne_nil _ _)⟩
  | cons p ps ih =>
    rw [Kept, List.flatMap_cons, List.flatten_cons, List.append_assoc, ← ih]
    rcases border_or_cut p (ps.flatten ++ rest) with ⟨hb, hwhole⟩ | ⟨hb, before, c, v, w, hcut⟩
    · rw [hwhole, List.append_cancel_left_eq]
      constructor
      · exact fun h => Or.inl ⟨hb, h⟩
      · intro h
        rcases h with ⟨-, h⟩ | ⟨hno, -⟩
        · exact h
        · exact absurd hb hno
    · have hlen : (decode p).length - 1 = before.length := by
        rw [hcut.left, List.length_append, List.length_singleton]
        exact Nat.add_sub_cancel _ _
      rw [Blurred, hlen, hcut.whole, List.drop_left, hcut.left, List.append_assoc,
        List.append_cancel_left_eq, List.singleton_append, List.cons.injEq]
      constructor
      · intro ⟨hc, htext⟩
        have hX := faded (m := 0) hcut.right hcut.cont
          (by have := List.length_pos_of_ne_nil hcut.nonempty; omega) htext
        refine Or.inr ⟨hb, hX, ?_⟩
        rw [← hc, ← htext, List.replicate_succ, ← hX]
      · intro h
        rcases h with ⟨hno, -⟩ | ⟨-, hX, htext⟩
        · exact absurd hno hb
        · rw [List.replicate_succ, List.cons.injEq, ← hX] at htext
          exact ⟨htext.1.symm, htext.2.symm⟩

end Utf8
end Text
end RocmTests
