import RocmTests.Collections.Terminated
import RocmTests.Monitored.DmesgPatterns
import RocmTests.Monitored.RunOne
import RocmTests.Text.IgnoreCase
import RocmTests.Text.RegexLazy

/-!
# The PCI key of the GPU

The device id and the revision of the GPU are read from what `amd-smi`, `rocm-smi`, `lspci` or the
PCI sysfs tree print.  The key made of them looks up the short name of the GPU.

An output is a list of records, one for each GPU, with a line end between any two.
-/

namespace RocmTests
namespace Gpu
namespace PciMap

open Text Text.Re
open Markers (isSpace)
open Monitored (hex hexDigit isHexDigit)

/-- What the patterns capture: `DID` is group 1 and `RID` group 2 where they have names. -/
inductive Layout where
  | labelled (idLabel revLabel : String)
  | bracketed
  | underscored

/-- No pattern asks for a word boundary. -/
def noWord (_ : Char) : Bool := false

/-- `[0-9a-fA-F]{4}`. -/
def hexFour : Re := cat ((List.replicate 4 isHexDigit).map cls)

/-- `[0-9a-fA-F]{1,2}`. -/
def hexOneOrTwo : Re := seq (cls isHexDigit) (opt (cls isHexDigit))

namespace Layout

/-- The part up to the device id. -/
def idPattern : Layout → Re
  | labelled idLabel _ => cat [lit idLabel, star isSpace, lit "0x", group 1 hexFour]
  | bracketed => cat [lit "[", hexFour, lit ":", group 1 hexFour, lit "]"]
  | underscored => cat [lit "0x", group 1 hexFour]

/-- The part that captures the revision. -/
def revPattern : Layout → Re
  | labelled _ revLabel => cat [lit revLabel, star isSpace, lit "0x", group 2 hexOneOrTwo]
  | bracketed => cat [ilit "rev ", group 2 (plus isHexDigit)]
  | underscored => cat [lit "_0x", group 2 hexOneOrTwo]

/-- With `re.DOTALL` for the labels and without it for `lspci`. -/
def pattern : Layout → Pos → List Found
  | labelled i r => lazily noWord (fun _ => true) (labelled i r).idPattern (labelled i r).revPattern
  | bracketed => lazilyOpt noWord (fun c => c ≠ '\n') bracketed.idPattern bracketed.revPattern
  | underscored => run noWord (seq underscored.idPattern underscored.revPattern)

end Layout

structure Method where
  name : String
  command : String
  layout : Layout
  defaultRevision : Txt

/-- `_SYSFS_PCI_ID_CMD`. -/
def sysfsPciIdCmd : String :=
  "for dev in /sys/bus/pci/devices/*; do " ++
  "vendor=$(cat $dev/vendor 2>/dev/null); class=$(cat $dev/class 2>/dev/null); " ++
  "case $vendor:$class in " ++
  "0x1002:0x0300*|0x1002:0x0380*|0x1002:0x1200*) " ++
  "echo $(cat $dev/device 2>/dev/null)_$(cat $dev/revision 2>/dev/null);; " ++
  "esac; done | tail -n 1"

/-- `_DETECTION_METHODS`. -/
def detectionMethods : List Method :=
  [{ name := "amd-smi", command := "amd-smi static --asic 2>/dev/null",
     layout := .labelled "DEVICE_ID:" "REV_ID:", defaultRevision := [] },
   { name := "amd-smi with sudo", command := "sudo -n amd-smi static --asic 2>/dev/null",
     layout := .labelled "DEVICE_ID:" "REV_ID:", defaultRevision := [] },
   { name := "rocm-smi", command := "rocm-smi --showid 2>/dev/null",
     layout := .labelled "Device ID:" "Device Rev:", defaultRevision := [] },
   { name := "lspci",
     command := "lspci -nn -v 2>/dev/null | grep -iE 'vga|display|accelerators' | grep -i amd |" ++
       " tail -n 1",
     layout := .bracketed, defaultRevision := "00".toList },
   { name := "pci sysfs", command := sysfsPciIdCmd, layout := .underscored, defaultRevision := [] }]

/-- `str.lower` on hexadecimal digits. -/
def lower (t : Txt) : Txt := t.map Char.toLower

/-- `<device_id>_<revision>`. -/
def keyOf (deviceId revisionId : Txt) : Txt := lower deviceId ++ '_' :: lower revisionId

/-- One round of the loop of `_device_revision_from_output`. -/
def keyOfMatch (defaultRevision : Txt) (m : Found) : Option Txt :=
  let deviceId := m.group 1
  let revisionId := if m.group 2 = [] then defaultRevision else m.group 2
  if deviceId ≠ [] ∧ revisionId ≠ [] then some (keyOf deviceId revisionId) else none

/-- `_device_revision_from_output`. -/
def deviceRevisionFromOutput (output : Txt) (pattern : Pos → List Found) (defaultRevision : Txt) :
    Txt :=
  ((finditer pattern output).findSome? (keyOfMatch defaultRevision)).getD []

/-- `detect_device_revision`, where `runDetection` gives the stripped output of a command. -/
def detectDeviceRevision (runDetection : String → Txt) : Txt :=
  (detectionMethods.findSome? fun m =>
    let key := deviceRevisionFromOutput (runDetection m.command) m.layout.pattern m.defaultRevision
    if key = [] then none else some key).getD []

/-! ## GPUs and their keys -/

/-- What a GPU is, whoever reports it. -/
structure PciId where
  device : Fin 65536
  revision : Fin 256
deriving DecidableEq

/-- Four digits, an underscore and two digits. -/
def PciId.key (g : PciId) : Txt := hex 4 g.device ++ '_' :: hex 2 g.revision

def hexDigitValue (c : Char) : Nat := if c.isDigit then c.toNat - 48 else c.toLower.toNat - 87

def hexValue (t : Txt) : Nat := t.foldl (fun n c => 16 * n + hexDigitValue c) 0

/-- A digit that is not upper case. -/
def IsLowerHex (c : Char) : Prop := isHexDigit c = true ∧ c.toLower = c

/-- Four hexadecimal digits, an underscore and two more, none in upper case. -/
def IsKey (t : Txt) : Prop := ∃ d r : Txt, t = d ++ '_' :: r ∧ d.length = 4 ∧ r.length = 2 ∧
  (∀ c ∈ d, IsLowerHex c) ∧ ∀ c ∈ r, IsLowerHex c

theorem length_hex (n : Nat) : ∀ k, (hex n k).length = n := by
  induction n with
  | zero => exact fun _ => rfl
  | succ n ih =>
    intro k
    rw [hex, List.length_append, ih]
    rfl

theorem isLowerHex_hexDigit {n : Nat} (h : n < 16) : IsLowerHex (hexDigit n) := by
  have hall : ∀ k < 16, isHexDigit (hexDigit k) = true ∧ (hexDigit k).toLower = hexDigit k := by
    decide
  exact hall n h

theorem isLowerHex_hex (n : Nat) : ∀ k, ∀ c ∈ hex n k, IsLowerHex c := by
  induction n with
  | zero => exact fun _ c hc => absurd hc List.not_mem_nil
  | succ n ih =>
    intro k c hc
    rw [hex] at hc
    rcases List.mem_append.mp hc with hc | hc
    · exact ih _ c hc
    · rw [List.mem_singleton.mp hc]
      exact isLowerHex_hexDigit (Nat.mod_lt k (by decide))

theorem PciId.isKey (g : PciId) : IsKey g.key :=
  ⟨_, _, rfl, length_hex 4 _, length_hex 2 _, isLowerHex_hex 4 _, isLowerHex_hex 2 _⟩

/-- A fact about hexadecimal digits that holds of the ASCII characters. -/
theorem forall_isHexDigit {P : Char → Prop}
    (h : ∀ n < 128, isHexDigit (Char.ofNat n) = true → P (Char.ofNat n)) {c : Char}
    (hc : isHexDigit c = true) : P c := by
  have hascii : c.toNat < 128 := by
    by_contra hbig
    unfold isHexDigit at hc
    rw [toLower_of_not_ascii (not_lt.mp hbig), Bool.or_eq_true, Bool.and_eq_true,
      decide_eq_true_eq, decide_eq_true_eq] at hc
    rcases hc with hdigit | ⟨-, hle⟩
    · have hle : c.toNat ≤ 57 := (Bool.and_eq_true _ _ ▸ hdigit).2 |> of_decide_eq_true
      omega
    · have hf : 'f'.toNat = 102 := rfl
      omega
  rw [← Char.ofNat_toNat c] at hc ⊢
  exact h c.toNat hascii hc

theorem hexDigit_value {c : Char} (h : isHexDigit c = true) :
    hexDigitValue c < 16 ∧ hexDigit (hexDigitValue c) = c.toLower := by
  refine forall_isHexDigit (P := fun c => hexDigitValue c < 16 ∧
    hexDigit (hexDigitValue c) = c.toLower) ?_ h
  decide

theorem value_hexDigit {n : Nat} (h : n < 16) : hexDigitValue (hexDigit n) = n := by
  have hall : ∀ k < 16, hexDigitValue (hexDigit k) = k := by decide
  exact hall n h

theorem hexValue_snoc (t : Txt) (c : Char) :
    hexValue (t ++ [c]) = 16 * hexValue t + hexDigitValue c := by
  unfold hexValue
  rw [List.foldl_append]
  rfl

/-- The digits of a number are those it was read from. -/
theorem hex_hexValue {t : Txt} (h : ∀ c ∈ t, isHexDigit c = true) :
    hex t.length (hexValue t) = lower t ∧ hexValue t < 16 ^ t.length := by
  induction t using List.reverseRecOn with
  | nil => exact ⟨rfl, Nat.one_pos⟩
  | append_singleton t c ih =>
    obtain ⟨hdigits, hlt⟩ := ih fun d hd => h d (List.mem_append_left _ hd)
    obtain ⟨hc, hdigit⟩ :=
      hexDigit_value (h c (List.mem_append_right t (List.mem_singleton_self c)))
    rw [List.length_append, List.length_singleton, hexValue_snoc, hex, pow_succ]
    constructor
    · rw [show (16 * hexValue t + hexDigitValue c) / 16 = hexValue t by omega,
        show (16 * hexValue t + hexDigitValue c) % 16 = hexDigitValue c by omega, hdigits, hdigit,
        lower, lower, List.map_append]
      rfl
    · omega

theorem hexValue_hex (n : Nat) : ∀ {k : Nat}, k < 16 ^ n → hexValue (hex n k) = k := by
  induction n with
  | zero =>
    intro k hk
    rw [pow_zero] at hk
    show 0 = k
    omega
  | succ n ih =>
    intro k hk
    rw [pow_succ] at hk
    have hdigit := value_hexDigit (Nat.mod_lt k (by decide : 0 < 16))
    rw [hex, hexValue_snoc, ih (by omega), hdigit]
    omega

/-! ## Outputs -/

/-- What a command prints of one GPU: the digits of its device id and of its revision, if it prints
them, and the texts around them.  `vendor` and the blanks are part of the fields. -/
structure Device where
  lead : Txt := []
  vendor : Txt := []
  idBlank : Txt := []
  id : Option Txt
  mid : Txt
  revBlank : Txt := []
  rev : Option Txt
  trail : Txt := []

namespace Layout

def idField : Layout → Device → Txt → Txt
  | labelled idLabel _, d, i => idLabel.toList ++ (d.idBlank ++ ("0x".toList ++ i))
  | bracketed, d, i => "[".toList ++ (d.vendor ++ (":".toList ++ (i ++ "]".toList)))
  | underscored, _, i => "0x".toList ++ i

def revField : Layout → Device → Txt → Txt
  | labelled _ revLabel, d, v => revLabel.toList ++ (d.revBlank ++ ("0x".toList ++ v))
  | bracketed, _, v => "rev ".toList ++ v
  | underscored, _, v => "0x".toList ++ v

variable (l : Layout)

def idText (d : Device) : Txt := d.id.elim [] (l.idField d)

def revText (d : Device) : Txt := d.rev.elim [] (l.revField d)

def record (d : Device) : Txt := d.lead ++ (l.idText d ++ (d.mid ++ (l.revText d ++ d.trail)))

def output (ds : List Device) : Txt := ['\n'].intercalate (ds.map l.record)

/-- What follows a record. -/
def behind (ds : List Device) : Txt := if ds = [] then [] else '\n' :: l.output ds

/-- How wide a revision can be. -/
def Narrow : Layout → Txt → Prop
  | bracketed, _ => True
  | _, r => r.length ≤ 2

/-- `lspci` prints one line for each GPU, and sysfs nothing but the two fields. -/
def Around : Layout → Device → Prop
  | labelled _ _, _ => True
  | bracketed, d => d.vendor.length = 4 ∧ (∀ c ∈ d.vendor, isHexDigit c = true) ∧
      '\n' ∉ d.mid ++ d.trail
  | underscored, d => d.lead = [] ∧ d.mid = ['_'] ∧ d.trail = []

/-- The digits in a width that the pattern accepts, and the blanks and line ends as the command has
them. -/
structure Written (d : Device) : Prop where
  id : ∀ i ∈ d.id, i.length = 4 ∧ ∀ c ∈ i, isHexDigit c = true
  rev : ∀ v ∈ d.rev, v ≠ [] ∧ ∀ c ∈ v, isHexDigit c = true
  narrow : ∀ v ∈ d.rev, l.Narrow v
  blanks : ∀ c ∈ d.idBlank ++ d.revBlank, isSpace c = true
  ends : ∀ c, d.trail.head? = some c → isHexDigit c = false
  around : l.Around d

/-- Nothing but its fields reads as a field of a record that stands between two texts. -/
structure Clear (before : Txt) (d : Device) (after : Txt) : Prop where
  id : ∀ i ∈ d.id, Quiet noWord l.idPattern before d.lead
    (l.idField d i ++ (d.mid ++ (l.revText d ++ (d.trail ++ after))))
  noId : d.id = none → Quiet noWord l.idPattern before (l.record d) after
  rev : ∀ v ∈ d.rev, Quiet noWord l.revPattern before (d.lead ++ (l.idText d ++ d.mid))
    (l.revField d v ++ (d.trail ++ after))
  noRev : d.rev = none → Quiet noWord l.revPattern before (l.record d) after

/-- Nothing but the fields of the records reads as a field. -/
def Legible (before : Txt) : List Device → Prop
  | [] => True
  | d :: ds => l.Clear before d (l.behind ds) ∧
      Legible ('\n' :: ((l.record d).reverse ++ before)) ds

/-- The outputs of a method that lists these GPUs. -/
structure Listing (ds : List Device) : Prop where
  written : ∀ d ∈ ds, l.Written d
  legible : l ≠ underscored → l.Legible [] ds

/-- Whether the record holds too little for a match to begin in it. -/
def skips : Layout → Device → Bool
  | labelled _ _, d => d.id.isNone
  | bracketed, d => d.id.isNone
  | underscored, d => d.id.isNone || d.rev.isNone

/-- The revision that goes with the id of a record.  Behind the labels it is the next one. -/
def revision (defaultRevision : Txt) : Layout → Device → List Device → Option Txt
  | labelled _ _, d, ds => (d :: ds).findSome? (·.rev)
  | bracketed, d, _ => some (d.rev.getD defaultRevision)
  | underscored, d, _ => d.rev

/-- The device id and the revision that the first match captures. -/
def reading (defaultRevision : Txt) : List Device → Option (Txt × Txt)
  | [] => none
  | d :: ds =>
    if l.skips d then reading defaultRevision ds
    else d.id.bind fun i => (l.revision defaultRevision d ds).map fun r => (i, r)

end Layout

/-! ## The patterns at their fields -/

section

variable {b v : Txt}

theorem takes_hexFour {i : Txt} (hlen : i.length = 4) (hi : ∀ c ∈ i, isHexDigit c = true) :
    Takes noWord hexFour b i v [] := by
  apply takes_classes
  rw [← hlen, ← List.map_const', List.forall₂_map_left_iff]
  exact List.forall₂_same.mpr hi

theorem takes_hexOneOrTwo {r : Txt} (hne : r ≠ []) (hlen : r.length ≤ 2)
    (hr : ∀ c ∈ r, isHexDigit c = true) (hv : ∀ c, v.head? = some c → isHexDigit c = false) :
    Takes noWord hexOneOrTwo b r v [] := by
  match r with
  | [] => exact absurd rfl hne
  | [c] =>
    have hnone : matchAt noWord (cls isHexDigit) ⟨c :: b, v⟩ = none := by
      rw [matchAt_eq_none_iff]
      intro m w hm hmatch
      obtain ⟨d, rfl, hd⟩ := matches_cls.mp hmatch
      rw [hv d (by rw [hm]; rfl)] at hd
      cases hd
    exact (takes_cls (hr c List.mem_cons_self)).seq (Takes.alt_right hnone takes_eps)
  | [c, d] =>
    have hd := hr d (List.mem_cons_of_mem c (List.mem_singleton_self d))
    exact (takes_cls (hr c List.mem_cons_self)).seq (takes_cls hd).alt_left
  | _ :: _ :: _ :: _ =>
    simp only [List.length_cons] at hlen
    omega

/-- A pattern that begins neither at a line end nor at the end of the text. -/
structure Inside (r : Re) : Prop where
  newline : ∀ b v, Quiet noWord r b ['\n'] v
  ending : ∀ b, run noWord r ⟨b, []⟩ = []

theorem inside_of_lit {s : String} {c : Char} {cs : Txt} (hs : s.toList = c :: cs) (hc : c ≠ '\n')
    (rs : List Re) : Inside (cat (lit s :: rs)) := by
  have hbegins : BeginsWith noWord (cat (lit s :: rs)) s.toList := (beginsWith_lit s).cat rs
  rw [hs] at hbegins
  constructor
  · intro b v
    exact hbegins.quiet_of_not_mem (by rwa [List.mem_singleton])
  · exact fun b => run_eq_nil_iff.mpr hbegins.matchAt_nil

theorem Inside.seq {r : Re} (h : Inside r) (s : Re) : Inside (seq r s) := by
  have hnil : ∀ p, run noWord r p = [] → run noWord (Re.seq r s) p = [] := by
    intro p hp
    rw [run, hp]
    rfl
  constructor
  · intro b v u w hu hw
    exact run_eq_nil_iff.mp (hnil _ (run_eq_nil_iff.mpr (h.newline b v u w hu hw)))
  · exact fun b => hnil _ (h.ending b)

theorem inside_bracketed_rev : Inside Layout.bracketed.revPattern := by
  have hfirst : ∀ b m v, Matches noWord Layout.bracketed.revPattern b m v →
      ∃ x y, m = x :: y ∧ x ≠ '\n' := by
    intro b m v h
    obtain ⟨m₁, m₂, rfl, hm₁, _⟩ := matches_cat_cons.mp h
    cases matches_ilit.mp hm₁ with
    | cons hx _ =>
      refine ⟨_, _, rfl, ?_⟩
      rintro rfl
      exact absurd hx (by decide)
  constructor
  · intro b v u w hu hw
    rw [matchAt_eq_none_iff]
    intro m z hm hmatch
    obtain ⟨x, y, rfl, hx⟩ := hfirst _ _ _ hmatch
    cases w with
    | nil => exact hw rfl
    | cons d w =>
      have hd : d ∈ ['\n'] := hu ▸ List.mem_append_right u List.mem_cons_self
      rw [List.cons_append, List.cons_append, List.cons.injEq] at hm
      exact hx (hm.1.symm.trans (List.mem_singleton.mp hd))
  · intro b
    rw [run_eq_nil_iff, matchAt_eq_none_iff]
    intro m z hm hmatch
    obtain ⟨x, y, rfl, -⟩ := hfirst _ _ _ hmatch
    cases hm

end

namespace Layout

variable {l : Layout} {d : Device} {b after : Txt}

/-- The layouts whose labels are words. -/
def Headed : Layout → Prop
  | labelled i r => (∃ c cs, i.toList = c :: cs ∧ c ≠ '\n') ∧ ∃ c cs, r.toList = c :: cs ∧ c ≠ '\n'
  | bracketed => True
  | underscored => False

theorem inside_id (h : l.Headed) : Inside l.idPattern := by
  match l, h with
  | labelled i r, h =>
    obtain ⟨⟨c, cs, hs, hc⟩, -⟩ := h
    exact inside_of_lit hs hc _
  | bracketed, _ => exact inside_of_lit (s := "[") rfl (by decide) _

theorem inside_rev (h : l.Headed) : Inside l.revPattern := by
  match l, h with
  | labelled i r, h =>
    obtain ⟨-, c, cs, hs, hc⟩ := h
    exact inside_of_lit hs hc _
  | bracketed, _ => exact inside_bracketed_rev

theorem takes_idField (hl : l.Headed) (hw : l.Written d) {i : Txt} (hi : i ∈ d.id) :
    Takes noWord l.idPattern b (l.idField d i) after [(1, i)] := by
  obtain ⟨hlen, hhex⟩ := hw.id i hi
  match l, hl with
  | labelled idLabel r, _ =>
    have hblank : ∀ c ∈ d.idBlank, isSpace c = true := fun c hc =>
      hw.blanks c (List.mem_append_left _ hc)
    refine (takes_lit idLabel).piece_plain ((takes_star hblank ?_).piece_plain
      ((takes_lit "0x").cat_plain ((takes_hexFour hlen hhex).group 1)))
    intro c hc
    obtain rfl := Option.some.inj hc
    decide
  | bracketed, _ =>
    obtain ⟨hvlen, hvhex, -⟩ := hw.around
    exact (takes_lit "[").piece_plain ((takes_hexFour hvlen hvhex).piece_plain
      ((takes_lit ":").piece_plain (((takes_hexFour hlen hhex).group 1).cat_cons (takes_lit "]"))))

theorem takes_revField (hl : l.Headed) (hw : l.Written d) {r : Txt} (hr : r ∈ d.rev)
    (hafter : ∀ c, after.head? = some c → isHexDigit c = false) :
    Takes noWord l.revPattern b (l.revField d r) after [(2, r)] := by
  obtain ⟨hne, hhex⟩ := hw.rev r hr
  match l, hl with
  | labelled i revLabel, _ =>
    have hblank : ∀ c ∈ d.revBlank, isSpace c = true := fun c hc =>
      hw.blanks c (List.mem_append_right _ hc)
    refine (takes_lit revLabel).piece_plain ((takes_star hblank ?_).piece_plain
      ((takes_lit "0x").cat_plain ((takes_hexOneOrTwo hne (hw.narrow r hr) hhex hafter).group 2)))
    intro c hc
    obtain rfl := Option.some.inj hc
    decide
  | bracketed, _ =>
    exact (takes_ilit "rev ").cat_plain ((takes_plus hne hhex hafter).group 2)

end Layout

end PciMap
end Gpu
end RocmTests
