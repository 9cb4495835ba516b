import RocmTests.Text.Find
import RocmTests.Text.Numeral
import RocmTests.Text.Utf8

/-!
# The response to a poll

One control command reads the new output of all streams.  For each stream the shell prints
a line with the marker, the size of the capture file and a count, and then that many bytes
from the end of the file.  `_parse` takes the decoded response apart again.  It counts
characters where the shell counted bytes.
-/

namespace RocmTests
namespace Executors

open Text Text.Utf8
open Markers (isSpace intOfText)

inductive Stream where
  | o
  | e
deriving DecidableEq

def Stream.kind : Stream → Txt
  | .o => ['O']
  | .e => ['E']

/-- `stream_id`. -/
def streamId (handle : Nat) : Txt := "bg".toList ++ showNat handle

def marker (handle : Nat) (stream : Stream) : Txt := stream.kind ++ ':' :: streamId handle

/-! ## What the shell prints -/

/-- `_segment_cmd`, with the arguments it is given. -/
structure Fragment where
  handle : Nat
  stream : Stream
  off : Int
deriving DecidableEq

/-- `n`, when `wc -c` gave `size`. -/
def Fragment.count (f : Fragment) (size : Nat) : Nat :=
  if f.off < size then (size - f.off).toNat else 0

/-- `tail -c n`. -/
def tailBytes (n : Nat) (content : Bytes) : Bytes := content.drop (content.length - n)

/-- A fragment, and what it has read. -/
structure Segment extends Fragment where
  size : Nat
  data : Bytes
  fits : data.length ≤ toFragment.count size
deriving DecidableEq

theorem length_tailBytes_le (n : Nat) (content : Bytes) : (tailBytes n content).length ≤ n := by
  rw [tailBytes, List.length_drop]
  omega

/-- `tail` reads the file `content`, which may have grown since `wc` gave `size`. -/
def Fragment.read (f : Fragment) (size : Nat) (content : Bytes) : Segment where
  toFragment := f
  size := size
  data := tailBytes (f.count size) content
  fits := length_tailBytes_le _ _

namespace Segment
variable (g : Segment)

/-- `n`. -/
def n : Nat := g.count g.size

def fields : Txt :=
  marker g.handle g.stream ++ ' ' :: (showNat g.size ++ ' ' :: showNat g.n)

def header : Txt := "\n@@".toList ++ (g.fields ++ ['\n'])

def output : Bytes := encode g.header ++ g.data

end Segment

/-! ## `_parse` -/

/-- `fuel` bounds the number of steps.  A response with more steps than places never ends:
a negative count has brought the loop back to a place where it has been. -/
def parseFrom (int : Txt → Option Int) : Nat → Txt → Int → Option (List (Txt × Int × Txt))
  | 0, _, _ => none
  | fuel + 1, blob, pos =>
    match find blob "@@".toList pos with
    | none => some []
    | some i =>
      match find blob ['\n'] i with
      | none => some []
      | some nl =>
        match splitSpace (slice blob (i + 2) nl) with
        | [marker, sizeText, nText] =>
          match int sizeText, int nText with
          | some size, some n =>
            let data := slice blob (nl + 1) (nl + 1 + n)
            (parseFrom int fuel blob (nl + 1 + n)).map ((marker, size, data) :: ·)
          | _, _ => parseFrom int fuel blob (nl + 1)
        | _ => parseFrom int fuel blob (nl + 1)

/-- The sizes of files and pieces of files have fewer digits than `int` refuses. -/
def parse (blob : Txt) : Option (List (Txt × Int × Txt)) :=
  parseFrom intOfText (blob.length + 2) blob 0

/-- What the loop of `_poll_once` does something for. -/
structure Item where
  handle : Nat
  stream : Stream
  size : Int
  data : Txt
deriving DecidableEq

/-- The handle that a marker names, if it is polled; any kind but `O` is taken for `E`. -/
def resolve (ids : List Nat) (x : Txt × Int × Txt) : Option Item :=
  let (kind, hid) := partition x.1 ':'
  (ids.find? fun h => streamId h = hid).map fun h =>
    { handle := h, stream := if kind = ['O'] then .o else .e, size := x.2.1, data := x.2.2 }

def itemsOf (ids : List Nat) (blob : Txt) : Option (List Item) :=
  (parse blob).map (List.filterMap (resolve ids))

/-! ## Headers -/

theorem word_showNat (n : Nat) : showNat n ≠ [] ∧ ∀ c ∈ showNat n, isSpace c = false :=
  ⟨showNat_ne_nil n, fun _ hc => isSpace_of_isDigit (isDigit_of_mem_showNat hc)⟩

theorem intOfText_showNat (n : Nat) : intOfText (showNat n) = some (n : Int) :=
  intOfText_showInt (n : Int)

theorem streamId_injective {h h' : Nat} (heq : streamId h = streamId h') : h = h' := by
  have hshow : showNat h = showNat h' := List.append_cancel_left heq
  have hint := congrArg intOfText hshow
  rw [intOfText_showNat, intOfText_showNat, Option.some_inj] at hint
  exact Int.ofNat_inj.1 hint

theorem mem_marker {handle : Nat} {stream : Stream} {c : Char}
    (hc : c ∈ marker handle stream) : c ∈ "OE:bg".toList ∨ c.isDigit = true := by
  rcases List.mem_append.1 hc with hc | hc
  · cases stream <;> cases List.mem_singleton.1 hc <;> exact Or.inl (by decide)
  rcases List.mem_cons.1 hc with rfl | hc
  · exact Or.inl (by decide)
  rcases List.mem_append.1 hc with hc | hc
  · exact Or.inl (List.mem_append_right "OE:".toList hc)
  · exact Or.inr (isDigit_of_mem_showNat hc)

theorem word_marker (handle : Nat) (stream : Stream) :
    marker handle stream ≠ [] ∧ ∀ c ∈ marker handle stream, isSpace c = false := by
  constructor
  · cases stream <;> exact List.cons_ne_nil _ _
  · intro c hc
    rcases mem_marker hc with hc | hc
    · exact forall_of_all (p := fun c => isSpace c = false) (by decide) c hc
    · exact isSpace_of_isDigit hc

theorem resolve_marker {ids : List Nat} {handle : Nat} (h : handle ∈ ids) (stream : Stream)
    (size : Int) (data : Txt) :
    resolve ids (marker handle stream, size, data) = some ⟨handle, stream, size, data⟩ := by
  have hkind : ':' ∉ stream.kind := by cases stream <;> decide
  have hfind : ids.find? (fun h' => decide (streamId h' = streamId handle)) = some handle := by
    induction ids with
    | nil => exact absurd h List.not_mem_nil
    | cons h' ids ih =>
      by_cases heq : h' = handle
      · rw [List.find?_cons_of_pos (by simp [heq]), heq]
      · have hne : ¬ streamId h' = streamId handle := fun e => heq (streamId_injective e)
        rw [List.find?_cons_of_neg (by simpa using hne)]
        exact ih ((List.mem_cons.1 h).resolve_left fun e => heq e.symm)
  unfold resolve
  rw [marker, partition_append_cons hkind]
  simp only [hfind, Option.map_some]
  cases stream <;> rfl

namespace Segment
variable (g : Segment)

theorem mem_fields {c : Char} (hc : c ∈ g.fields) : c ∈ "OE:bg ".toList ∨ c.isDigit = true := by
  have hblank : ' ' ∈ "OE:bg ".toList := by decide
  rcases List.mem_append.1 hc with hc | hc
  · exact (mem_marker hc).imp_left fun h => List.mem_append_left [' '] h
  rcases List.mem_cons.1 hc with rfl | hc
  · exact Or.inl hblank
  rcases List.mem_append.1 hc with hc | hc
  · exact Or.inr (isDigit_of_mem_showNat hc)
  rcases List.mem_cons.1 hc with rfl | hc
  · exact Or.inl hblank
  · exact Or.inr (isDigit_of_mem_showNat hc)

theorem newline_not_mem_fields : '\n' ∉ g.fields := by
  intro h
  rcases g.mem_fields h with h | h
  · exact absurd h (by decide)
  · exact absurd h (by decide)

theorem isAscii_header : IsAscii g.header := by
  intro c hc
  rcases List.mem_append.1 hc with hc | hc
  · exact forall_of_all (p := fun c => c.toNat < 128) (by decide) c hc
  rcases List.mem_append.1 hc with hc | hc
  · rcases g.mem_fields hc with hc | hc
    · exact forall_of_all (p := fun c => c.toNat < 128) (by decide) c hc
    · have := toNat_of_isDigit hc
      omega
  · cases List.mem_singleton.1 hc
    decide

end Segment

/-! ## Responses that are parsed as they were printed -/

/-- The bytes of a response of which the first `cut` arrive. -/
def responseOf (gs : List Segment) (cut : Nat) : Bytes := (gs.flatMap Segment.output).take cut

/-- The segments whose header arrives. -/
def arrived : List Segment → Nat → List Segment
  | [], _ => []
  | g :: gs, cut =>
    if cut < g.header.length then [] else g :: arrived gs (cut - g.output.length)

/-- No data is cut off, and what follows data finds as many characters before it as the
header counts. -/
def Aligned : List Segment → Nat → Prop
  | [], _ => True
  | g :: gs, cut =>
    cut < g.header.length ∨
    g.output.length ≤ cut ∧
      ((decode g.data).length = g.n ∨ gs = [] ∨ cut = g.output.length) ∧
      Aligned gs (cut - g.output.length)

variable {int : Txt → Option Int}

theorem parseFrom_end {fuel : Nat} {blob : Txt} {pos : Nat} (h : blob.length ≤ pos) :
    parseFrom int (fuel + 1) blob pos = some [] := by
  have hfind : find blob "@@".toList pos = none := by
    rw [find, position_natCast, Nat.min_eq_right h, List.drop_length]
    rfl
  rw [parseFrom, hfind]

/-- A header that is not complete is not read. -/
theorem parseFrom_partial {fuel : Nat} {pre part rest : Txt} (hpart : part <+: '\n' :: rest)
    (hrest : '\n' ∉ rest) : parseFrom int (fuel + 1) (pre ++ part) pre.length = some [] := by
  have hle : pre.length ≤ (pre ++ part).length := by
    rw [List.length_append]
    omega
  rw [parseFrom, find_natCast _ _ hle, List.drop_left]
  cases hindex : indexOf "@@".toList part with
  | none => rfl
  | some i =>
    have hat := indexOf_some_drop hindex
    have hi : i ≠ 0 := by
      rintro rfl
      have hhead : "@@".toList <+: '\n' :: rest := hat.trans hpart
      exact absurd (List.cons_prefix_cons.1 hhead).1 (by decide)
    have hlen : i ≤ part.length := by
      have := hat.length_le
      rw [List.length_drop] at this
      exact Nat.le_of_lt (Nat.lt_of_sub_pos (Nat.lt_of_lt_of_le (by decide) this))
    have hnl : '\n' ∉ part.drop i := by
      intro hmem
      obtain ⟨j, rfl⟩ : ∃ j, i = j + 1 := Nat.exists_eq_succ_of_ne_zero hi
      have hsub : part.drop (j + 1) <+: rest.drop j := hpart.drop (j + 1)
      exact hrest (List.mem_of_mem_drop (hsub.subset hmem))
    simp only [Option.map_some]
    rw [find_natCast _ _ (by rw [List.length_append]; omega), List.drop_append,
      List.drop_eq_nil_of_le (Nat.le_add_right _ _), List.nil_append, Nat.add_sub_cancel_left,
      indexOf_eq_none hnl]
    rfl

/-- The line before the data, for any marker and counts. -/
def headerOf (marker : Txt) (size n : Nat) : Txt :=
  "\n@@".toList ++ (marker ++ ' ' :: (showNat size ++ ' ' :: showNat n) ++ ['\n'])

/-- A complete header, followed by as many characters as it counts or by fewer up to the
end. -/
theorem parseFrom_header {fuel size n : Nat} {marker : Txt}
    (hmarker : marker ≠ [] ∧ ∀ c ∈ marker, isSpace c = false)
    (hsize : int (showNat size) = some (size : Int)) (hn : int (showNat n) = some (n : Int))
    (pre rest : Txt) :
    parseFrom int (fuel + 1) (pre ++ (headerOf marker size n ++ rest)) pre.length =
      (parseFrom int fuel (pre ++ (headerOf marker size n ++ rest))
        ((pre.length + (headerOf marker size n).length + n : Nat) : Int)).map
          ((marker, (size : Int), rest.take n) :: ·) := by
  obtain ⟨fields, hfieldsOf⟩ :
      ∃ fields, fields = marker ++ ' ' :: (showNat size ++ ' ' :: showNat n) := ⟨_, rfl⟩
  have hsplit : splitSpace fields = [marker, showNat size, showNat n] := by
    rw [hfieldsOf]
    exact splitSpace_three hmarker (word_showNat _) (word_showNat _)
  have hnl : '\n' ∉ '@' :: '@' :: fields := by
    have hshow (k : Nat) : '\n' ∉ showNat k :=
      fun h => absurd ((word_showNat k).2 _ h) (by decide)
    have hword : '\n' ∉ marker := fun h => absurd (hmarker.2 _ h) (by decide)
    rw [hfieldsOf]
    simp [hword, hshow]
  have hheader : headerOf marker size n = '\n' :: '@' :: '@' :: (fields ++ ['\n']) := by
    rw [hfieldsOf]
    rfl
  have hlen : (headerOf marker size n).length = fields.length + 4 := by
    rw [hheader]
    simp only [List.length_cons, List.length_append, List.length_nil]
  generalize hblob : pre ++ (headerOf marker size n ++ rest) = blob
  have hdrop : blob.drop pre.length = headerOf marker size n ++ rest := by
    rw [← hblob, List.drop_left]
  have hbloblen : blob.length = pre.length + ((headerOf marker size n).length + rest.length) := by
    rw [← hblob, List.length_append, List.length_append]
  have hfindAt : find blob "@@".toList pre.length = some (pre.length + 1) := by
    rw [find_natCast _ _ (by omega), hdrop, hheader]
    simp [indexOf]
  have hfindNl : find blob ['\n'] ((pre.length + 1 : Nat) : Int) =
      some (pre.length + 1 + (fields.length + 2)) := by
    have hafter : blob.drop (pre.length + 1) = ('@' :: '@' :: fields) ++ '\n' :: rest := by
      rw [← List.drop_drop, hdrop, hheader]
      simp
    rw [find_natCast _ _ (by omega), hafter, indexOf_append_cons hnl]
    rfl
  have hfields : slice blob ((pre.length + 3 : Nat) : Int)
      ((pre.length + 1 + (fields.length + 2) : Nat) : Int) = fields := by
    have hafter : blob.drop (pre.length + 3) = fields ++ '\n' :: rest := by
      rw [← List.drop_drop, hdrop, hheader]
      simp
    have hcount : pre.length + 1 + (fields.length + 2) - (pre.length + 3) = fields.length := by
      omega
    rw [slice_natCast, hafter, hcount, List.take_left]
  have hdata : slice blob ((pre.length + (headerOf marker size n).length : Nat) : Int)
      ((pre.length + (headerOf marker size n).length + n : Nat) : Int) = rest.take n := by
    have hafter : blob.drop (pre.length + (headerOf marker size n).length) = rest := by
      rw [← List.drop_drop, hdrop, List.drop_left]
    rw [slice_natCast, hafter, Nat.add_sub_cancel_left]
  have hstart : ((pre.length + 1 : Nat) : Int) + 2 = ((pre.length + 3 : Nat) : Int) := by omega
  have hnext : ((pre.length + 1 + (fields.length + 2) : Nat) : Int) + 1 =
      ((pre.length + (headerOf marker size n).length : Nat) : Int) := by omega
  have hend : ((pre.length + (headerOf marker size n).length : Nat) : Int) + (n : Int) =
      ((pre.length + (headerOf marker size n).length + n : Nat) : Int) := by omega
  rw [parseFrom, hfindAt]
  simp only [hfindNl, hstart, hfields, hsplit, hsize, hn, hnext, hend, hdata]

theorem parseFrom_segment {fuel : Nat} (g : Segment) (pre rest : Txt) :
    parseFrom intOfText (fuel + 1) (pre ++ (g.header ++ rest)) pre.length =
      (parseFrom intOfText fuel (pre ++ (g.header ++ rest))
        ((pre.length + g.header.length + g.n : Nat) : Int)).map
          ((marker g.handle g.stream, (g.size : Int), rest.take g.n) :: ·) :=
  parseFrom_header (word_marker _ _) (intOfText_showNat _) (intOfText_showNat _) pre rest

theorem Segment.output_eq (g : Segment) : ∃ bs, g.output = 10 :: bs := by
  refine ⟨encode ("@@".toList ++ (g.fields ++ ['\n'])) ++ g.data, ?_⟩
  have hheader : g.header = '\n' :: ("@@".toList ++ (g.fields ++ ['\n'])) := rfl
  rw [Segment.output, hheader, encode, List.flatMap_cons, encode_ascii (by decide)]
  rfl

/-- The text of a response: complete data and what comes after it stand apart. -/
theorem decode_output (g : Segment) (gs : List Segment) (cut : Nat) :
    decode (g.output ++ responseOf gs cut) =
      g.header ++ (decode g.data ++ decode (responseOf gs cut)) := by
  rw [Segment.output, List.append_assoc, decode_encode_ascii_append g.isAscii_header]
  congr 1
  cases hresponse : responseOf gs cut with
  | nil =>
    rw [List.append_nil]
    exact (List.append_nil _).symm
  | cons b bs =>
    have hb : b = 10 := by
      unfold responseOf at hresponse
      cases gs with
      | nil => simp at hresponse
      | cons g' gs =>
        obtain ⟨bs', hout⟩ := g'.output_eq
        cases cut with
        | zero => cases hresponse
        | succ cut =>
          rw [List.flatMap_cons, hout, List.cons_append, List.take_succ_cons] at hresponse
          exact (List.cons.inj hresponse).1.symm
    rw [hb]
    exact decode_append_ascii _ (by decide) _

theorem take_encode_ascii {t : Txt} (ht : IsAscii t) (n : Nat) :
    (encode t).take n = encode (t.take n) := by
  induction t generalizing n with
  | nil => simp [encode]
  | cons c t ih =>
    cases n with
    | zero => rfl
    | succ n =>
      have hih := ih (fun d hd => ht d (List.mem_cons_of_mem c hd)) n
      have hcons (u : Txt) : encode (c :: u) = UInt8.ofNat c.toNat :: encode u := by
        rw [encode, List.flatMap_cons, encode_ascii (ht c List.mem_cons_self)]
        rfl
      rw [List.take_succ_cons, hcons, hcons, List.take_succ_cons, hih]

/-- A response that breaks off within a header gives the beginning of the header. -/
theorem decode_responseOf_header {g : Segment} {cut : Nat} (h : cut < g.header.length)
    (gs : List Segment) : decode (responseOf (g :: gs) cut) = g.header.take cut := by
  have hlen := length_encode_ascii g.isAscii_header
  have htake : responseOf (g :: gs) cut = encode (g.header.take cut) := by
    rw [responseOf, List.flatMap_cons, Segment.output, List.append_assoc,
      List.take_append_of_le_length (by omega), take_encode_ascii g.isAscii_header]
  have hascii : IsAscii (g.header.take cut) :=
    fun c hc => g.isAscii_header c (List.mem_of_mem_take hc)
  have hdecode := decode_encode_ascii_append hascii []
  rw [List.append_nil] at hdecode
  rw [htake, hdecode]
  exact List.append_nil _

theorem responseOf_cons {g : Segment} {cut : Nat} (h : g.output.length ≤ cut)
    (gs : List Segment) :
    responseOf (g :: gs) cut = g.output ++ responseOf gs (cut - g.output.length) := by
  rw [responseOf, List.flatMap_cons, List.take_append, List.take_of_length_le h]
  rfl

theorem responseOf_eq_nil {gs : List Segment} {cut : Nat} (h : gs = [] ∨ cut = 0) :
    responseOf gs cut = [] ∧ arrived gs cut = [] := by
  rcases h with rfl | rfl
  · exact ⟨List.take_nil, rfl⟩
  · cases gs with
    | nil => exact ⟨rfl, rfl⟩
    | cons g gs =>
      refine ⟨rfl, ?_⟩
      rw [arrived, if_pos]
      exact List.length_pos_of_ne_nil (List.cons_ne_nil _ _)

theorem parseFrom_of_aligned (gs : List Segment) : ∀ (cut fuel : Nat) (pre : Txt),
    Aligned gs cut → (decode (responseOf gs cut)).length < fuel →
    parseFrom intOfText fuel (pre ++ decode (responseOf gs cut)) pre.length =
      some ((arrived gs cut).map fun g =>
        (marker g.handle g.stream, (g.size : Int), decode g.data)) := by
  induction gs with
  | nil =>
    intro cut fuel pre _ hfuel
    obtain ⟨k, rfl⟩ : ∃ k, fuel = k + 1 := ⟨fuel - 1, by omega⟩
    have hnil : ([] : List Segment) = [] ∨ cut = 0 := Or.inl rfl
    obtain ⟨hresponse, harrived⟩ := responseOf_eq_nil hnil
    rw [hresponse, harrived]
    exact parseFrom_end (by rw [List.length_append]; exact Nat.le_of_eq (Nat.add_zero _))
  | cons g gs ih =>
    intro cut fuel pre haligned hfuel
    obtain ⟨k, rfl⟩ : ∃ k, fuel = k + 1 := ⟨fuel - 1, by omega⟩
    by_cases hcut : cut < g.header.length
    · have hheader : g.header = ('\n' :: ("@@".toList ++ g.fields)) ++ ['\n'] := by
        rw [Segment.header]
        simp
      have hpart : g.header.take cut <+: '\n' :: ("@@".toList ++ g.fields) := by
        rw [hheader, List.length_append, List.length_singleton] at hcut
        rw [hheader, List.take_append_of_le_length (by omega)]
        exact List.take_prefix _ _
      have hrest : '\n' ∉ "@@".toList ++ g.fields := by
        simp [g.newline_not_mem_fields]
      rw [decode_responseOf_header hcut, arrived, if_pos hcut]
      exact parseFrom_partial hpart hrest
    · obtain ⟨hwhole, hcount, hrest⟩ := haligned.resolve_left hcut
      rw [responseOf_cons hwhole, decode_output] at hfuel ⊢
      rw [parseFrom_segment, arrived, if_neg hcut, List.map_cons]
      have hpos : 0 < g.header.length := List.length_pos_of_ne_nil (List.cons_ne_nil _ _)
      rw [List.length_append, List.length_append] at hfuel
      rcases hcount with hcount | hlast
      · have hih := ih (cut - g.output.length) k (pre ++ (g.header ++ decode g.data)) hrest
          (by omega)
        have hlen : (pre ++ (g.header ++ decode g.data)).length =
            pre.length + g.header.length + g.n := by
          rw [List.length_append, List.length_append, hcount, Nat.add_assoc]
        have hblob : pre ++ (g.header ++ (decode g.data ++
              decode (responseOf gs (cut - g.output.length)))) =
            pre ++ (g.header ++ decode g.data) ++
              decode (responseOf gs (cut - g.output.length)) := by
          simp only [List.append_assoc]
        rw [hlen] at hih
        rw [hblob, hih, Option.map_some, ← hcount, List.take_left]
      · have hnil : gs = [] ∨ cut - g.output.length = 0 :=
          hlast.imp_right fun hlen => Nat.sub_eq_zero_of_le (Nat.le_of_eq hlen)
        obtain ⟨hresponse, harrived⟩ := responseOf_eq_nil hnil
        have hfits : (decode g.data).length ≤ g.n := (length_decode_le _).trans g.fits
        have hdecode : decode ([] : Bytes) = [] := rfl
        obtain ⟨j, rfl⟩ : ∃ j, k = j + 1 := ⟨k - 1, by omega⟩
        rw [hresponse, harrived, hdecode, List.append_nil, List.take_of_length_le hfits,
          parseFrom_end (by simp only [List.length_append]; omega)]
        rfl

theorem parse_of_aligned {gs : List Segment} {cut : Nat} (h : Aligned gs cut) :
    parse (decode (responseOf gs cut)) = some ((arrived gs cut).map fun g =>
      (marker g.handle g.stream, (g.size : Int), decode g.data)) :=
  parseFrom_of_aligned gs cut _ [] h (by omega)

/-- What is done for a response whose data is where the headers say. -/
def itemOf (g : Segment) : Item := ⟨g.handle, g.stream, g.size, decode g.data⟩

theorem arrived_sub (gs : List Segment) (cut : Nat) : arrived gs cut <+: gs := by
  induction gs generalizing cut with
  | nil => exact List.prefix_rfl
  | cons g gs ih =>
    rw [arrived]
    split
    · exact List.nil_prefix
    · exact List.cons_prefix_cons.2 ⟨rfl, ih _⟩

theorem itemsOf_of_aligned {ids : List Nat} {gs : List Segment} {cut : Nat}
    (h : Aligned gs cut) (hids : ∀ g ∈ gs, g.handle ∈ ids) :
    itemsOf ids (decode (responseOf gs cut)) = some ((arrived gs cut).map itemOf) := by
  have hresolve : ∀ gs' : List Segment, (∀ g ∈ gs', g.handle ∈ ids) →
      (gs'.map fun g => (marker g.handle g.stream, (g.size : Int), decode g.data)).filterMap
        (resolve ids) = gs'.map itemOf := by
    intro gs' hgs'
    induction gs' with
    | nil => rfl
    | cons g gs' ih =>
      rw [List.map_cons, List.map_cons, List.filterMap_cons_some
        (resolve_marker (hgs' g List.mem_cons_self) g.stream g.size (decode g.data)),
        ih fun g' hg' => hgs' g' (List.mem_cons_of_mem g hg')]
      rfl
  rw [itemsOf, parse_of_aligned h, Option.map_some,
    hresolve _ fun g hg => hids g ((arrived_sub gs cut).subset hg)]

end Executors
end RocmTests
