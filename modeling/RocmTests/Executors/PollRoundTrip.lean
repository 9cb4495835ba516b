import RocmTests.Executors.PollResponse
import RocmTests.Text.Utf8Chunks

/-!
# From the response back to its segments

The counts of a response are of bytes and `_parse` counts characters.  The segments come
back as they were put in as long as the two agree; data that is followed by nothing may
have fewer characters than bytes.
-/

namespace RocmTests
namespace Executors
namespace PollRoundTrip

open Text Text.Utf8
open Markers (isSpace)

/-- A segment of a response. -/
structure Frame where
  stream : Stream
  id : Txt
  size : Nat
  payload : Bytes
  addressable : payload.length < 2 ^ 63

namespace Frame

def marker (f : Frame) : Txt := f.stream.kind ++ ':' :: f.id

def header (f : Frame) : Txt := headerOf f.marker f.size f.payload.length

def output (f : Frame) : Bytes := encode f.header ++ f.payload

/-- What `_parse` is to give for it. -/
def parsed (f : Frame) : Txt × Int × Txt := (f.marker, f.size, decode f.payload)

/-- Its header is three words that `_parse` can read. -/
def Readable (f : Frame) : Prop :=
  (∀ c ∈ f.id, isSpace c = false) ∧ f.size < 10 ^ intMaxStrDigits

/-- There are as many characters as bytes. -/
def Even (f : Frame) : Prop := (decode f.payload).length = f.payload.length

end Frame

def response (fs : List Frame) : Bytes := fs.flatMap Frame.output

/-- `_parse`, with the limit of `int` on the digits of a number. -/
def parse (blob : Txt) : Option (List (Txt × Int × Txt)) :=
  parseFrom parseInt (blob.length + 2) blob 0

def RoundTrips (fs : List Frame) : Prop :=
  parse (decode (response fs)) = some (fs.map Frame.parsed)

instance (fs : List Frame) : Decidable (RoundTrips fs) := by
  unfold RoundTrips
  infer_instance

/-! ## The text of a response -/

def text (fs : List Frame) : Txt := fs.flatMap fun f => f.header ++ decode f.payload

theorem response_eq (f : Frame) (fs : List Frame) : ∃ bs, response (f :: fs) = 10 :: bs :=
  ⟨_, rfl⟩

theorem decode_response (fs : List Frame) : decode (response fs) = text fs := by
  induction fs with
  | nil => rfl
  | cons f fs ih =>
    have hbreak : decode (f.payload ++ response fs) = decode f.payload ++ decode (response fs) := by
      cases fs with
      | nil =>
        show decode (f.payload ++ []) = decode f.payload ++ []
        rw [List.append_nil, List.append_nil]
      | cons g fs =>
        obtain ⟨bs, hbs⟩ := response_eq g fs
        rw [hbs]
        exact decode_append_ascii _ (by decide) _
    show decode (f.output ++ response fs) = _
    rw [Frame.output, List.append_assoc, decode_encode_append, hbreak, ih, text, text,
      List.flatMap_cons, List.append_assoc]

theorem text_ne_nil (f : Frame) (fs : List Frame) : text (f :: fs) ≠ [] := List.cons_ne_nil _ _

/-! ## What `_parse` can give -/

theorem parseFrom_yields {fuel : Nat} {blob : Txt} : ∀ {pos : Int} {items},
    parseFrom parseInt fuel blob pos = some items →
      ∀ x ∈ items, (∀ c ∈ x.1, isSpace c = false) ∧ ∃ t, parseInt t = some x.2.1 := by
  induction fuel with
  | zero =>
    intro pos items h
    cases h
  | succ fuel ih =>
    intro pos items h
    rw [parseFrom] at h
    split at h
    · cases h
      exact fun x hx => absurd hx List.not_mem_nil
    split at h
    · cases h
      exact fun x hx => absurd hx List.not_mem_nil
    split at h
    · next marker sizeText nText hsplit =>
      split at h
      · next size n hsize hn =>
        obtain ⟨rest, hrest, rfl⟩ := Option.map_eq_some_iff.mp h
        intro x hx
        rcases List.mem_cons.mp hx with rfl | hx
        · have hmem : marker ∈ [marker, sizeText, nText] := List.mem_cons_self
          rw [← hsplit] at hmem
          exact ⟨isSpace_of_mem_splitOnP (List.mem_filter.mp hmem).1, sizeText, hsize⟩
        · exact ih hrest x hx
      · exact ih h
    · exact ih h

theorem readable_of_roundTrips {fs : List Frame} (h : RoundTrips fs) : ∀ f ∈ fs, f.Readable := by
  intro f hf
  obtain ⟨hword, t, ht⟩ := parseFrom_yields h f.parsed (List.mem_map_of_mem hf)
  exact ⟨fun c hc => hword c (List.mem_append_right _ (List.mem_cons_of_mem _ hc)),
    parseInt_natCast_lt ht⟩

/-! ## One segment after the other -/

variable {f : Frame} {fs : List Frame}

theorem word_marker (h : f.Readable) : f.marker ≠ [] ∧ ∀ c ∈ f.marker, isSpace c = false := by
  obtain ⟨hid, -⟩ := h
  have hkind : ∀ c ∈ f.stream.kind ++ [':'], isSpace c = false := by
    cases f.stream <;> exact forall_of_all (p := fun c => isSpace c = false) (by decide)
  constructor
  · unfold Frame.marker
    cases f.stream <;> exact List.cons_ne_nil _ _
  · intro c hc
    rw [Frame.marker, List.append_cons] at hc
    exact (List.mem_append.mp hc).elim (hkind c) (hid c)

theorem parseInt_length (f : Frame) :
    parseInt (showNat f.payload.length) = some (f.payload.length : Int) := by
  have hsmall := f.addressable
  exact parseInt_of_lt (n := f.payload.length) (by omega)

/-- The data that is read for a segment is its own exactly if the characters are as many as
the bytes, or nothing follows. -/
theorem take_iff (f : Frame) (rest : Txt) :
    (decode f.payload ++ rest).take f.payload.length = decode f.payload ↔ f.Even ∨ rest = [] := by
  have hle := length_decode_le f.payload
  constructor
  · intro h
    have hlen := congrArg List.length h
    rw [List.length_take, List.length_append] at hlen
    unfold Frame.Even
    rcases Nat.eq_zero_or_pos rest.length with hzero | hpos
    · exact Or.inr (List.length_eq_zero_iff.mp hzero)
    · exact Or.inl (by omega)
  · intro h
    rcases h with heven | hnil
    · unfold Frame.Even at heven
      rw [← heven, List.take_left]
    · rw [hnil, List.append_nil, List.take_of_length_le hle]

theorem parseFrom_text {fs : List Frame} (hfs : ∀ f ∈ fs, f.Readable) : ∀ (fuel : Nat) (pre : Txt),
    (text fs).length < fuel →
      (parseFrom parseInt fuel (pre ++ text fs) pre.length = some (fs.map Frame.parsed) ↔
        ∀ f ∈ fs.dropLast, f.Even) := by
  induction fs with
  | nil =>
    intro fuel pre hfuel
    obtain ⟨k, rfl⟩ : ∃ k, fuel = k + 1 := ⟨fuel - 1, by omega⟩
    have hend : (pre ++ text []).length ≤ pre.length := by
      show (pre ++ []).length ≤ pre.length
      rw [List.append_nil]
    exact ⟨fun _ f hf => absurd hf List.not_mem_nil, fun _ => parseFrom_end hend⟩
  | cons f fs ih =>
    intro fuel pre hfuel
    have hf := hfs f List.mem_cons_self
    have htext : text (f :: fs) = f.header ++ (decode f.payload ++ text fs) := by
      rw [text, text, List.flatMap_cons, List.append_assoc]
    have hlen : 0 < f.header.length := List.length_pos_of_ne_nil (List.cons_ne_nil _ _)
    rw [htext, List.length_append, List.length_append] at hfuel
    obtain ⟨k, rfl⟩ : ∃ k, fuel = k + 1 := ⟨fuel - 1, by omega⟩
    have hstep : parseFrom parseInt (k + 1)
        (pre ++ (f.header ++ (decode f.payload ++ text fs))) pre.length = _ :=
      parseFrom_header (word_marker hf) (parseInt_showNat_of_lt hf.2) (parseInt_length f) pre _
    have hheader : f.header = headerOf f.marker f.size f.payload.length := rfl
    rw [htext, hstep, ← hheader, List.map_cons]
    have hcons (items : Option (List (Txt × Int × Txt))) (data : Txt) :
        items.map ((f.marker, (f.size : Int), data) :: ·) = some (f.parsed :: fs.map Frame.parsed) ↔
          data = decode f.payload ∧ items = some (fs.map Frame.parsed) := by
      cases items with
      | none => simp
      | some items => simp [Frame.parsed]
    rw [hcons, take_iff]
    cases fs with
    | nil =>
      have hshort := length_decode_le f.payload
      have hend : (pre ++ (f.header ++ (decode f.payload ++ text []))).length ≤
          pre.length + f.header.length + f.payload.length := by
        have hnil : (text []).length = 0 := rfl
        simp only [List.length_append, hnil]
        omega
      obtain ⟨j, rfl⟩ : ∃ j, k = j + 1 := ⟨k - 1, by omega⟩
      rw [parseFrom_end hend]
      exact ⟨fun _ g hg => absurd hg List.not_mem_nil, fun _ => ⟨Or.inr rfl, rfl⟩⟩
    | cons g gs =>
      rw [List.dropLast_cons_of_ne_nil (List.cons_ne_nil g gs), List.forall_mem_cons,
        or_iff_left (text_ne_nil g gs)]
      refine and_congr_right fun heven => ?_
      have hrest := ih (fun x hx => hfs x (List.mem_cons_of_mem f hx)) k
        (pre ++ (f.header ++ decode f.payload)) (by omega)
      have hpos : (pre ++ (f.header ++ decode f.payload)).length =
          pre.length + f.header.length + f.payload.length := by
        rw [List.length_append, List.length_append, heven, Nat.add_assoc]
      have hblob : pre ++ (f.header ++ (decode f.payload ++ text (g :: gs))) =
          pre ++ (f.header ++ decode f.payload) ++ text (g :: gs) := by
        simp only [List.append_assoc]
      rw [hpos] at hrest
      rw [hblob, hrest]

/-- The segments come back exactly if every marker is a word, no size has more digits than
`int` takes, and all data but the last has as many characters as bytes. -/
theorem roundTrips_iff (fs : List Frame) :
    RoundTrips fs ↔ (∀ f ∈ fs, f.Readable) ∧ ∀ f ∈ fs.dropLast, f.Even := by
  have hparse : (∀ f ∈ fs, f.Readable) → (RoundTrips fs ↔ ∀ f ∈ fs.dropLast, f.Even) := by
    intro hfs
    unfold RoundTrips parse
    rw [decode_response]
    exact parseFrom_text hfs _ [] (by omega)
  constructor
  · intro h
    have hfs := readable_of_roundTrips h
    exact ⟨hfs, (hparse hfs).mp h⟩
  · rintro ⟨hfs, heven⟩
    exact (hparse hfs).mpr heven

/-- Two bytes that are one character take the first character of the next header along. -/
theorem twoByteCharacter_shifts :
    ¬ RoundTrips [⟨.o, "bg1".toList, 2, [0xC3, 0xA9], by decide⟩,
      ⟨.e, "bg1".toList, 1, [0x78], by decide⟩] := by decide +kernel

end PollRoundTrip
end Executors
end RocmTests
