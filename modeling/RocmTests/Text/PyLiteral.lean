import RocmTests.Text.JsonText

/-!
# String literals of Python

A literal in double quotes, and that the text `json.dumps` gives a string of ASCII is a literal of
that string.  `\N`, octal and the escapes by `\x` and `\U` are not read here.
-/

namespace RocmTests
namespace Text
namespace Py

def hexFour (a b c d : Char) : Option Nat := do
  let a ← Json.hexOf a
  let b ← Json.hexOf b
  let c ← Json.hexOf c
  let d ← Json.hexOf d
  some (16 * (16 * (16 * a + b) + c) + d)

/-- What a backslash and a character stand for.  Python keeps the backslash before a character that
it does not know. -/
def escapeOf (c : Char) : Option Txt :=
  if c = '\n' then some []
  else if c ∈ ['\\', '\'', '"'] then some [c]
  else if c = 'a' then some [Char.ofNat 7]
  else if c = 'b' then some [Char.ofNat 8]
  else if c = 'f' then some [Char.ofNat 12]
  else if c = 'n' then some ['\n']
  else if c = 'r' then some ['\r']
  else if c = 't' then some ['\t']
  else if c = 'v' then some [Char.ofNat 11]
  else if c ∈ ['x', 'u', 'U', 'N'] ∨ c.isDigit = true then none
  else some ['\\', c]

/-- A literal behind its opening quote: the string, and what follows the closing quote. -/
def literal : Txt → Option (Txt × Txt)
  | [] => none
  | c :: t =>
    if c = '\\' then
      match t with
      | 'u' :: a :: b :: c :: d :: t => do
        let n ← hexFour a b c d
        let p ← literal t
        if 0xd800 ≤ n ∧ n < 0xe000 then none else some (Char.ofNat n :: p.1, p.2)
      | e :: t => do
        let s ← escapeOf e
        let p ← literal t
        some (s ++ p.1, p.2)
      | [] => none
    else if c = '"' then some ([], t)
    else if c = '\n' then none
    else (literal t).map fun p => (c :: p.1, p.2)

theorem literal_plain {c : Char} (hslash : c ≠ '\\') (hquote : c ≠ '"') (hline : c ≠ '\n')
    (t : Txt) :
    literal (c :: t) = (literal t).map fun p => (c :: p.1, p.2) := by
  rw [literal.eq_def]
  simp only [hslash, hquote, hline, if_false]

theorem literal_quote (t : Txt) : literal ('"' :: t) = some ([], t) := by
  rw [literal.eq_def]
  rfl

theorem literal_escape {e d : Char} (he : e ≠ 'u') (h : escapeOf e = some [d]) (t : Txt) :
    literal ('\\' :: e :: t) = (literal t).map fun p => (d :: p.1, p.2) := by
  rw [literal.eq_def]
  dsimp only
  rw [if_pos rfl]
  split
  next heq => exact absurd (List.cons.inj heq).1 he
  next heq =>
    obtain ⟨rfl, rfl⟩ := List.cons.inj heq
    rw [h]
    cases literal t <;> rfl
  next heq => cases heq

theorem hexFour_fourHex {n : Nat} (hn : n < 65536) :
    hexFour (n / 4096 % 16).digitChar (n / 256 % 16).digitChar (n / 16 % 16).digitChar
      (n % 16).digitChar = some n := by
  have hdigit : ∀ d < 16, Json.hexOf d.digitChar = some d := by decide
  have hmod : ∀ k, Json.hexOf (k % 16).digitChar = some (k % 16) :=
    fun k => hdigit _ (Nat.mod_lt _ (by omega))
  unfold hexFour
  simp only [hmod, Option.bind_eq_bind, Option.bind_some, Option.some.injEq]
  omega

theorem literal_unicode {n : Nat} (hn : n < 128) (t : Txt) :
    literal (unicodeEscape n ++ t) = (literal t).map fun p => (Char.ofNat n :: p.1, p.2) := by
  show literal ('\\' :: 'u' :: _ :: _ :: _ :: _ :: t) = _
  rw [literal.eq_def]
  dsimp only
  rw [if_pos rfl]
  have hscalar : ¬ (0xd800 ≤ n ∧ n < 0xe000) := by omega
  split
  next heq =>
    simp only [List.cons.injEq, true_and] at heq
    obtain ⟨rfl, rfl, rfl, rfl, rfl⟩ := heq
    rw [hexFour_fourHex (by omega)]
    cases literal t with
    | none => rfl
    | some p => exact if_neg hscalar
  next hother heq =>
    obtain ⟨rfl, rfl⟩ := List.cons.inj heq
    exact (hother _ _ _ _ _ rfl rfl).elim
  next heq => cases heq

/-- One character of a string of ASCII. -/
theorem literal_jsonChar {c : Char} (hc : c.toNat < 128) (t : Txt) :
    literal (jsonChar c ++ t) = (literal t).map fun p => (c :: p.1, p.2) := by
  unfold jsonChar
  split_ifs with hself hn hr ht hf hb hprint hshort
  · rcases hself with rfl | rfl <;> exact literal_escape (by decide) rfl t
  · exact hn ▸ literal_escape (by decide) rfl t
  · exact hr ▸ literal_escape (by decide) rfl t
  · exact ht ▸ literal_escape (by decide) rfl t
  · rw [← Char.ofNat_toNat c, hf]
    exact literal_escape (by decide) rfl t
  · rw [← Char.ofNat_toNat c, hb]
    exact literal_escape (by decide) rfl t
  · rw [not_or] at hself
    exact literal_plain hself.2 hself.1 hn t
  · rw [literal_unicode hc, Char.ofNat_toNat]
  · omega

theorem literal_jsonString {s : Txt} (hs : ∀ c ∈ s, c.toNat < 128) (t : Txt) :
    literal (s.flatMap jsonChar ++ '"' :: t) = some (s, t) := by
  induction s with
  | nil => exact literal_quote t
  | cons c s ih =>
    obtain ⟨hc, hs⟩ := List.forall_mem_cons.mp hs
    rw [List.flatMap_cons, List.append_assoc, literal_jsonChar hc, ih hs]
    rfl

end Py
end Text
end RocmTests
