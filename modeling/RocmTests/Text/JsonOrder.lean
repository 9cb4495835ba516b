import RocmTests.Text.JsonRoundTrip

/-!
# Keys in order

Sorting the keys of all dicts of a value changes nothing but their order: the value is printed and
read back as before, and sorting again does nothing.  Two values are equal as values of Python when
they are the same after sorting.
-/

namespace RocmTests
namespace Text
namespace JsonValue

open Json

variable {v : JsonValue}

theorem sortedItems_eq (xs : List JsonValue) : sortedItems xs = xs.map sorted := by
  induction xs with
  | nil => rfl
  | cons v vs ih => rw [sortedItems, ih, List.map_cons]

theorem sortedMembers_eq (ms : List (Txt × JsonValue)) :
    sortedMembers ms = ms.map fun m => (m.1, m.2.sorted) := by
  induction ms with
  | nil => rfl
  | cons m ms ih =>
    obtain ⟨key, v⟩ := m
    rw [sortedMembers, ih, List.map_cons]

/-- The order of the members by their keys. -/
abbrev byKey (a b : Txt × JsonValue) : Bool := a.1 ≤ b.1

theorem sorted_arr (xs : List JsonValue) : (arr xs).sorted = arr (xs.map sorted) := by
  rw [sorted, sortedItems_eq]

theorem sorted_obj (ms : List (Txt × JsonValue)) :
    (obj ms).sorted = obj ((ms.map fun m => (m.1, m.2.sorted)).mergeSort byKey) := by
  rw [sorted, sortedMembers_eq]

theorem byKey_trans (a b c : Txt × JsonValue) (hab : byKey a b = true) (hbc : byKey b c = true) :
    byKey a c = true :=
  decide_eq_true (le_trans (of_decide_eq_true hab) (of_decide_eq_true hbc))

theorem byKey_total (a b : Txt × JsonValue) : (byKey a b || byKey b a) = true := by
  rw [Bool.or_eq_true, decide_eq_true_eq, decide_eq_true_eq]
  exact le_total _ _

theorem sorted_sorted (v : JsonValue) : v.sorted.sorted = v.sorted := by
  induction v using induct with
  | h v ih =>
    cases v with
    | arr xs =>
      rw [sorted_arr, sorted_arr, List.map_map]
      congr 1
      exact List.map_congr_left fun w hw => ih w hw
    | obj ms =>
      rw [sorted_obj, sorted_obj]
      congr 1
      generalize hms : (ms.map fun m => (m.1, m.2.sorted)).mergeSort byKey = ms'
      have hself : ms'.map (fun m => (m.1, m.2.sorted)) = ms' := by
        refine (List.map_congr_left fun m hm => ?_).trans (List.map_id ms')
        rw [← hms, List.mem_mergeSort] at hm
        obtain ⟨m', hm', rfl⟩ := List.mem_map.mp hm
        exact congrArg _ (ih m'.2 (List.mem_map_of_mem hm'))
      rw [hself, ← hms]
      exact List.mergeSort_of_pairwise (List.pairwise_mergeSort byKey_trans byKey_total _)
    | _ => rfl

/-! ## What sorting keeps -/

theorem children_sorted : v.sorted.children.Perm (v.children.map sorted) := by
  cases v with
  | arr xs =>
    rw [sorted_arr]
    exact List.Perm.refl _
  | obj ms =>
    rw [sorted_obj]
    have hperm := (List.mergeSort_perm (ms.map fun m => (m.1, m.2.sorted)) byKey).map (·.2)
    rw [List.map_map] at hperm
    show List.Perm _ ((ms.map (·.2)).map sorted)
    rw [List.map_map]
    exact hperm
  | _ => exact List.Perm.refl _

theorem every_sorted {p : JsonValue → Prop} (hp : ∀ v, p v → p v.sorted) :
    ∀ v : JsonValue, v.Every p → v.sorted.Every p := by
  intro v
  induction v using induct with
  | h v ih =>
    intro h
    obtain ⟨hhere, hbelow⟩ := every_iff.mp h
    refine every_iff.mpr ⟨hp v hhere, fun w hw => ?_⟩
    obtain ⟨u, hu, rfl⟩ := List.mem_map.mp (children_sorted.mem_iff.mp hw)
    exact ih u hu (hbelow u hu)

theorem printable_sorted {repr : ℚ → Txt} (v : JsonValue) (h : Printable repr v) :
    Printable repr v.sorted := by
  cases v with
  | obj ms =>
    rw [sorted_obj]
    have hperm := (List.mergeSort_perm (ms.map fun m => (m.1, m.2.sorted)) byKey).map (·.1)
    rw [List.map_map] at hperm
    exact hperm.nodup_iff.mpr h
  | _ => exact h

/-! ## Depth and digits -/

section

variable {ofInt : Int → Nat} {level n : Nat}

theorem mostItems_le {xs : List JsonValue} :
    mostItems ofInt level xs ≤ n ↔ ∀ v ∈ xs, v.most ofInt level ≤ n := by
  induction xs with
  | nil => exact iff_of_true (Nat.zero_le n) fun v hv => by cases hv
  | cons v vs ih => rw [mostItems, Nat.max_le, ih, List.forall_mem_cons]

theorem mostMembers_le {ms : List (Txt × JsonValue)} :
    mostMembers ofInt level ms ≤ n ↔ ∀ v ∈ ms.map (·.2), v.most ofInt level ≤ n := by
  induction ms with
  | nil => exact iff_of_true (Nat.zero_le n) fun v hv => by cases hv
  | cons m ms ih =>
    obtain ⟨key, v⟩ := m
    rw [mostMembers, Nat.max_le, ih, List.map_cons, List.forall_mem_cons]

theorem most_sorted (v : JsonValue) : v.sorted.most ofInt level = v.most ofInt level := by
  induction v using induct with
  | h v ih =>
    cases v with
    | arr xs =>
      have hparts : mostItems ofInt level (xs.map sorted) = mostItems ofInt level xs := by
        refine eq_of_forall_ge_iff fun n => ?_
        rw [mostItems_le, mostItems_le, List.forall_mem_map]
        exact forall₂_congr fun w hw => by rw [ih w hw]
      rw [sorted_arr, most, most, hparts]
    | obj ms =>
      have hperm : (((ms.map fun m => (m.1, m.2.sorted)).mergeSort byKey).map (·.2)).Perm
          ((ms.map (·.2)).map sorted) := by
        have hchildren := children_sorted (v := obj ms)
        rwa [sorted_obj] at hchildren
      have hparts : mostMembers ofInt level ((ms.map fun m => (m.1, m.2.sorted)).mergeSort byKey) =
          mostMembers ofInt level ms := by
        refine eq_of_forall_ge_iff fun n => ?_
        simp only [mostMembers_le, hperm.mem_iff]
        rw [List.forall_mem_map]
        exact forall₂_congr fun w hw => by rw [ih w hw]
      rw [sorted_obj, most, most, hparts]
    | _ => rfl

theorem depth_sorted (v : JsonValue) : v.sorted.depth = v.depth := most_sorted v

theorem digits_sorted (v : JsonValue) : v.sorted.digits = v.digits := most_sorted v

end

/-- The integers of a value are as short as the longest of them. -/
theorem every_short {v : JsonValue} (h : v.digits ≤ intMaxStrDigits) :
    v.Every fun w => ∀ n, w = int n → (showNat n.natAbs).length ≤ intMaxStrDigits := by
  induction v using induct with
  | h v ih =>
    refine every_iff.mpr ⟨fun n hn => ?_, fun w hw => ih w hw ?_⟩
    · rw [hn] at h
      exact h
    · cases v with
      | arr xs => exact mostItems_le.mp h w hw
      | obj ms => exact mostMembers_le.mp h w hw
      | _ => cases hw

end JsonValue

/-! ## Characters -/

/-- Printed characters of ASCII. -/
def Visible (t : Txt) : Prop := ∀ c ∈ t, 32 ≤ c.toNat ∧ c.toNat < 127

theorem Visible.append {t u : Txt} (ht : Visible t) (hu : Visible u) : Visible (t ++ u) := by
  intro c hc
  rcases List.mem_append.mp hc with hc | hc
  · exact ht c hc
  · exact hu c hc

theorem Visible.cons {c : Char} {t : Txt} (hc : 32 ≤ c.toNat ∧ c.toNat < 127) (ht : Visible t) :
    Visible (c :: t) := List.forall_mem_cons.mpr ⟨hc, ht⟩

theorem visible_fourHex (n : Nat) : Visible (fourHex n) := by
  have hdigit : ∀ d < 16, 32 ≤ d.digitChar.toNat ∧ d.digitChar.toNat < 127 := by decide
  have hmod : ∀ k, 32 ≤ (k % 16).digitChar.toNat ∧ (k % 16).digitChar.toNat < 127 :=
    fun k => hdigit _ (Nat.mod_lt _ (by omega))
  intro c hc
  simp only [fourHex, List.mem_cons, List.not_mem_nil, or_false] at hc
  rcases hc with rfl | rfl | rfl | rfl <;> exact hmod _

theorem visible_unicodeEscape (n : Nat) : Visible (unicodeEscape n) :=
  .cons (by decide) (.cons (by decide) (visible_fourHex n))

theorem visible_jsonChar (c : Char) : Visible (jsonChar c) := by
  have hescape : ∀ d : Char, 32 ≤ d.toNat ∧ d.toNat < 127 → Visible ['\\', d] :=
    fun d hd => .cons (by decide) (.cons hd fun _ h => by cases h)
  unfold jsonChar
  split_ifs with hself hn hr ht hf hb hprint hshort
  · rcases hself with rfl | rfl
    · exact hescape _ (by decide)
    · exact hescape _ (by decide)
  · exact hescape _ (by decide)
  · exact hescape _ (by decide)
  · exact hescape _ (by decide)
  · exact hescape _ (by decide)
  · exact hescape _ (by decide)
  · exact .cons hprint fun _ h => by cases h
  · exact visible_unicodeEscape _
  · exact (visible_unicodeEscape _).append (visible_unicodeEscape _)

theorem visible_jsonString (s : Txt) : Visible (jsonString s) := by
  have hchars : Visible (s.flatMap jsonChar) := by
    intro c hc
    obtain ⟨d, -, hd⟩ := List.mem_flatMap.mp hc
    exact visible_jsonChar d c hd
  exact .cons (by decide) (hchars.append (.cons (by decide) fun _ h => by cases h))

theorem visible_of_numberChars {t : Txt} (h : ∀ c ∈ t, Json.isNumberChar c = true) : Visible t := by
  intro c hc
  have hnumber := h c hc
  simp only [Json.isNumberChar, Bool.or_eq_true, decide_eq_true_eq, List.mem_cons, List.not_mem_nil,
    or_false] at hnumber
  rcases hnumber with hdigit | rfl | rfl | rfl | rfl | rfl
  · have hrange := toNat_of_isDigit hdigit
    omega
  all_goals decide

section

variable {repr : ℚ → Txt}

theorem visible_jsonItems {xs : List JsonValue} (h : ∀ v ∈ xs, Visible (jsonText repr v)) :
    Visible (jsonItems repr xs) := by
  induction xs with
  | nil => exact fun _ hc => by cases hc
  | cons v vs ih =>
    obtain ⟨hv, hvs⟩ := List.forall_mem_cons.mp h
    rw [jsonItems]
    refine hv.append ?_
    split
    · exact fun _ hc => by cases hc
    · exact .cons (by decide) (.cons (by decide) (ih hvs))

theorem visible_jsonMembers {ms : List (Txt × JsonValue)}
    (h : ∀ v ∈ ms.map (·.2), Visible (jsonText repr v)) : Visible (jsonMembers repr ms) := by
  induction ms with
  | nil => exact fun _ hc => by cases hc
  | cons m ms ih =>
    obtain ⟨key, v⟩ := m
    obtain ⟨hv, hvs⟩ := List.forall_mem_cons.mp h
    have hcolon : Visible (jsonString key ++ ": ".toList) :=
      (visible_jsonString key).append (.cons (by decide) (.cons (by decide) fun _ h => by cases h))
    rw [jsonMembers]
    refine (hcolon.append hv).append ?_
    split
    · exact fun _ hc => by cases hc
    · exact .cons (by decide) (.cons (by decide) (ih hvs))

/-- A text has no character beyond those that are printed. -/
theorem visible_jsonText (v : JsonValue) (h : v.Every (Json.Printable repr)) :
    Visible (jsonText repr v) := by
  induction v using JsonValue.induct with
  | h v ih =>
    obtain ⟨hhere, hbelow⟩ := JsonValue.every_iff.mp h
    have hparts : ∀ w ∈ v.children, Visible (jsonText repr w) := fun w hw => ih w hw (hbelow w hw)
    have hclose : ∀ c : Char, 32 ≤ c.toNat ∧ c.toNat < 127 → Visible [c] :=
      fun c hc => .cons hc fun _ h => by cases h
    cases v with
    | null => exact forall_of_all rfl
    | bool b => cases b <;> exact forall_of_all rfl
    | int n => exact visible_of_numberChars fun c hc => Json.isNumberChar_of_mem_showInt hc
    | float x =>
      obtain ⟨q, rfl, hq⟩ := hhere
      exact visible_of_numberChars hq.chars
    | str s => exact visible_jsonString s
    | arr xs => exact .cons (by decide) ((visible_jsonItems hparts).append (hclose _ (by decide)))
    | obj ms => exact .cons (by decide) ((visible_jsonMembers hparts).append (hclose _ (by decide)))

end

end Text
end RocmTests
