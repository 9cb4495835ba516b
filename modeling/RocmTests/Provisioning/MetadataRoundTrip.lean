import RocmTests.Provisioning.EnvMetadata

/-!
# Where metadata are read back

The quoting is right for every text.  Writing fails where the path has no directory in it, for
`mkdir -p ""` does, and where the directory looks like an option.
-/

namespace RocmTests
namespace Provisioning
namespace EnvMetadata

open Shell Text Json

/-- A dict that JSON has: its keys differ, and its floats are numbers. -/
def Document (p : Interpreter) : JsonValue → Prop
  | .float x => ∃ q, x = .finite q ∧ p.Float q
  | .obj items => (items.map (·.1)).Nodup
  | _ => True

/-- On every node that grants the path, whatever is on its disk, what was written is read. -/
def RoundTrips (p : Interpreter) (path : Txt) (data : JsonValue) : Prop :=
  ∀ h : Host, h.python = p → h.grants (dirname path) = true → h.grants path = true → ∀ d : Disk,
    ∃ v, h.roundTrip path data d = some (.ok v) ∧ v.sorted = data.sorted

/-- The file can be made together with its directory. -/
def Placed (path : Txt) : Prop :=
  NamesFile path ∧ dirname path ≠ [] ∧ ¬ IsOption (dirname path)

/-- A text between the quotes of `_dq` is one word of a shell, and the word is that text. -/
def Unquotes (s : Txt) : Prop :=
  ∃ w : Word, tokens (dq s) = .read [.word w] ∧ w.plain = true ∧ w.text = s

section

variable {p : Interpreter} {path : Txt} {items : List (Txt × JsonValue)} {h : Host} {d : Disk}

theorem unquotes (s : Txt) : Unquotes s :=
  ⟨.of .quoted s, tokens_of_reads (reads_dq s), Word.plain_of (by decide) s, Word.text_of _ s⟩

theorem exists_sorted (items : List (Txt × JsonValue)) :
    ∃ items', (JsonValue.obj items).sorted = .obj items' ∧ items'.length = items.length := by
  refine ⟨_, JsonValue.sorted_obj items, ?_⟩
  rw [List.length_mergeSort, List.length_map]

/-- Nothing else is equal to the empty dict. -/
theorem eq_nil_of_sorted (h : (JsonValue.obj []).sorted = (JsonValue.obj items).sorted) :
    items = [] := by
  obtain ⟨empty, hempty, hnone⟩ := exists_sorted []
  obtain ⟨items', hsorted, hlength⟩ := exists_sorted items
  rw [hempty, hsorted] at h
  rw [← JsonValue.obj.inj h] at hlength
  exact List.length_eq_zero_iff.mp (hlength.symm.trans hnone)

theorem printable_of_document (hdata : (JsonValue.obj items).Every (Document p))
    (hdigits : (JsonValue.obj items).digits ≤ intMaxStrDigits) :
    (JsonValue.obj items).Every (Printable p.repr) := by
  have hboth : ∀ v : JsonValue, v.Every (Document p) →
      (v.Every fun w => ∀ n, w = .int n → (showNat n.natAbs).length ≤ intMaxStrDigits) →
        v.Every (Printable p.repr) := by
    intro v
    induction v using JsonValue.induct with
    | h v ih =>
      intro hdoc hshort
      obtain ⟨hdoc, hdocs⟩ := JsonValue.every_iff.mp hdoc
      obtain ⟨hshort, hshorts⟩ := JsonValue.every_iff.mp hshort
      refine JsonValue.every_iff.mpr ⟨?_, fun w hw => ih w hw (hdocs w hw) (hshorts w hw)⟩
      cases v with
      | int n => exact hshort n rfl
      | float x =>
        obtain ⟨q, hq, hfloat⟩ := hdoc
        exact ⟨q, hq, p.text q hfloat⟩
      | obj ms => exact hdoc
      | _ => trivial
  exact hboth _ hdata (JsonValue.every_short hdigits)

/-- What is written can be printed. -/
theorem dumps_sorted (hdepth : (JsonValue.obj items).depth ≤ p.limit)
    (hdigits : (JsonValue.obj items).digits ≤ intMaxStrDigits) :
    (JsonValue.obj items).sorted.dumps p.repr p.limit =
      .ok (jsonText p.repr (JsonValue.obj items).sorted) := by
  unfold JsonValue.dumps
  rw [JsonValue.depth_sorted, JsonValue.digits_sorted, if_neg (by omega), if_neg (by omega)]

theorem not_dumps (hlong : p.limit < (JsonValue.obj items).depth ∨
    intMaxStrDigits < (JsonValue.obj items).digits) :
    ∃ e, (JsonValue.obj items).sorted.dumps p.repr p.limit = .error e := by
  unfold JsonValue.dumps
  rw [JsonValue.depth_sorted, JsonValue.digits_sorted]
  by_cases hdepth : p.limit < (JsonValue.obj items).depth
  · exact ⟨_, if_pos hdepth⟩
  · rw [if_neg hdepth, if_pos (hlong.resolve_left hdepth)]
    exact ⟨_, rfl⟩

namespace Host

theorem roundTrip_of_dumps {payload : Txt} {data : JsonValue}
    (hdumps : data.sorted.dumps h.python.repr h.python.limit = .ok payload) :
    h.roundTrip path data d = h.readRemoteJson path (h.run (writeCommand path payload) d).disk := by
  unfold roundTrip writeRemoteJson
  rw [hdumps]
  rfl

theorem roundTrip_of_raised {data : JsonValue} {e : LoadError}
    (hdumps : data.sorted.dumps h.python.repr h.python.limit = .error e) :
    h.roundTrip path data d = some (.error e) := by
  unfold roundTrip writeRemoteJson
  rw [hdumps]
  rfl

/-- Where the path is granted, the file has the text that was written. -/
theorem file_of_placed (hplaced : Placed path) (hdir : h.grants (dirname path) = true)
    (hgrants : h.grants path = true) (payload : Txt) :
    (h.run (writeCommand path payload) d).disk.file path = some payload := by
  obtain ⟨hnames, hne, hoption⟩ := hplaced
  have hmkdir : h.mkdir (dirname path) d =
      ⟨0, [], { d with dirs := Function.update d.dirs (dirname path) true }⟩ := by
    unfold mkdir
    rw [if_neg hne, if_neg hoption, if_pos hdir]
  rw [disk_write, hmkdir, if_pos rfl]
  unfold printf
  rw [if_pos ⟨hnames, Or.inr (Function.update_self ..), hgrants⟩]
  unfold Disk.file
  rw [if_pos hnames]
  exact Function.update_self ..

/-- A directory that is none is not made, and nothing is written. -/
theorem disk_of_unplaced (hbad : dirname path = [] ∨ IsOption (dirname path))
    (hoption : ∀ dir, h.optionStatus dir ≠ 0) (payload : Txt) :
    (h.run (writeCommand path payload) d).disk = d := by
  have hmkdir : (h.mkdir (dirname path) d).status ≠ 0 ∧ (h.mkdir (dirname path) d).disk = d := by
    unfold mkdir
    by_cases hnil : dirname path = []
    · rw [if_pos hnil]
      exact ⟨Nat.one_ne_zero, rfl⟩
    · rw [if_neg hnil, if_pos (hbad.resolve_left hnil)]
      exact ⟨hoption _, rfl⟩
  rw [disk_write, if_neg hmkdir.1, hmkdir.2]

end Host

theorem roundTrips_of_placed (hdata : (JsonValue.obj items).Every (Document p))
    (hpath : ∀ c ∈ path, 0 < c.toNat ∧ c.toNat < 128)
    (hdepth : (JsonValue.obj items).depth ≤ p.limit)
    (hdigits : (JsonValue.obj items).digits ≤ intMaxStrDigits) (hplaced : Placed path) :
    RoundTrips p path (.obj items) := by
  rintro h rfl hdir hgrants d
  obtain ⟨items', hsorted, -⟩ := exists_sorted items
  have hfine := JsonValue.every_sorted JsonValue.printable_sorted _
    (printable_of_document hdata hdigits)
  have hfile := Host.file_of_placed (d := d) hplaced hdir hgrants
    (jsonText h.python.repr (JsonValue.obj items).sorted)
  have hdumps := dumps_sorted hdepth hdigits
  rw [← JsonValue.depth_sorted, hsorted] at hdepth
  rw [← JsonValue.digits_sorted, hsorted] at hdigits
  refine ⟨_, ?_, JsonValue.sorted_sorted (.obj items)⟩
  rw [Host.roundTrip_of_dumps hdumps]
  rw [hsorted] at hfile hfine ⊢
  exact Host.readRemoteJson_of_file (fun c hc => (hpath c hc).2) hfile hfine hdepth hdigits

/-- Where there can be no file, the empty dict is read. -/
theorem roundTrip_of_not_namesFile (hnames : ¬ NamesFile path)
    (hdepth : (JsonValue.obj items).depth ≤ h.python.limit)
    (hdigits : (JsonValue.obj items).digits ≤ intMaxStrDigits) :
    h.roundTrip path (.obj items) d = some (.ok (.obj [])) := by
  rw [Host.roundTrip_of_dumps (dumps_sorted hdepth hdigits)]
  exact Host.readRemoteJson_of_none (if_neg hnames)

/-- A node that grants all. -/
def generous (p : Interpreter) : Host := ⟨p, fun _ => true, fun _ => 1, fun _ => (0, [])⟩

/-- A disk on which every file holds `t`. -/
def filled (t : Txt) : Disk := ⟨fun _ => true, fun _ => some t⟩

/-- Where nothing is written, a file from before is read. -/
theorem roundTrip_of_unplaced {other : List (Txt × JsonValue)}
    (hpath : ∀ c ∈ path, 0 < c.toNat ∧ c.toNat < 128) (hnames : NamesFile path)
    (hbad : dirname path = [] ∨ IsOption (dirname path))
    (hdepth : (JsonValue.obj items).depth ≤ p.limit)
    (hdigits : (JsonValue.obj items).digits ≤ intMaxStrDigits)
    (hother : (JsonValue.obj other).Every (Printable p.repr))
    (hshallow : (JsonValue.obj other).depth ≤ p.limit)
    (hshort : (JsonValue.obj other).digits ≤ intMaxStrDigits) :
    (generous p).roundTrip path (.obj items) (filled (jsonText p.repr (.obj other))) =
      some (.ok (.obj other)) := by
  rw [Host.roundTrip_of_dumps (h := generous p) (dumps_sorted hdepth hdigits),
    Host.disk_of_unplaced (h := generous p) hbad fun _ => Nat.one_ne_zero]
  exact Host.readRemoteJson_of_file (h := generous p) (fun c hc => (hpath c hc).2) (if_pos hnames)
    hother hshallow hshort

/-- A dict that is not empty. -/
def marker : List (Txt × JsonValue) := [(['a'], .null)]

theorem every_marker (p : Interpreter) : (JsonValue.obj marker).Every (Printable p.repr) := by
  refine JsonValue.every_iff.mpr ⟨List.nodup_singleton _, fun w hw => ?_⟩
  obtain rfl := List.mem_singleton.mp hw
  exact JsonValue.every_iff.mpr ⟨trivial, fun w hw => nomatch hw⟩

/-- Unquoting `_dq(s)` gives back `s`, whatever `s` is; and the data are read back exactly where
they can be printed and the file can be made, or there can be no file and the dict is empty. -/
theorem dict_returns_iff (hdata : (JsonValue.obj items).Every (Document p))
    (hpath : ∀ c ∈ path, 0 < c.toNat ∧ c.toNat < 128) :
    (∀ s, Unquotes s) ∧ (RoundTrips p path (.obj items) ↔
      (JsonValue.obj items).depth ≤ p.limit ∧ (JsonValue.obj items).digits ≤ intMaxStrDigits ∧
        (Placed path ∨ ¬ NamesFile path ∧ items = [])) := by
  refine ⟨unquotes, fun htrip => ?_, ?_⟩
  · have hprinted : ¬ (p.limit < (JsonValue.obj items).depth ∨
        intMaxStrDigits < (JsonValue.obj items).digits) := by
      intro hlong
      obtain ⟨e, he⟩ := not_dumps hlong
      obtain ⟨v, hv, -⟩ := htrip (generous p) rfl rfl rfl (filled [])
      rw [Host.roundTrip_of_raised (h := generous p) he] at hv
      cases hv
    rw [not_or, Nat.not_lt, Nat.not_lt] at hprinted
    refine ⟨hprinted.1, hprinted.2, ?_⟩
    by_cases hnames : NamesFile path
    · left
      refine ⟨hnames, not_or.mp fun hbad => ?_⟩
      have hlimit : 1 ≤ p.limit := le_trans (Nat.le_add_left 1 _) hprinted.1
      have hempty : (JsonValue.obj []).Every (Printable p.repr) :=
        JsonValue.every_iff.mpr ⟨List.nodup_nil, fun w hw => nomatch hw⟩
      by_cases hnil : items = []
      · obtain ⟨v, hv, hsame⟩ :=
          htrip (generous p) rfl rfl rfl (filled (jsonText p.repr (.obj marker)))
        rw [roundTrip_of_unplaced hpath hnames hbad hprinted.1 hprinted.2 (every_marker p) hlimit
          (Nat.zero_le _)] at hv
        obtain rfl := Except.ok.inj (Option.some.inj hv)
        rw [hnil] at hsame
        exact absurd (eq_nil_of_sorted hsame.symm) (List.cons_ne_nil _ _)
      · obtain ⟨v, hv, hsame⟩ := htrip (generous p) rfl rfl rfl (filled (jsonText p.repr (.obj [])))
        rw [roundTrip_of_unplaced hpath hnames hbad hprinted.1 hprinted.2 hempty hlimit
          (Nat.zero_le _)] at hv
        obtain rfl := Except.ok.inj (Option.some.inj hv)
        exact hnil (eq_nil_of_sorted hsame)
    · right
      refine ⟨hnames, ?_⟩
      obtain ⟨v, hv, hsame⟩ := htrip (generous p) rfl rfl rfl (filled [])
      rw [roundTrip_of_not_namesFile hnames hprinted.1 hprinted.2] at hv
      obtain rfl := Except.ok.inj (Option.some.inj hv)
      exact eq_nil_of_sorted hsame
  · intro ⟨hdepth, hdigits, hplace⟩
    rcases hplace with hplaced | ⟨hnames, rfl⟩
    · exact roundTrips_of_placed hdata hpath hdepth hdigits hplaced
    · rintro h rfl - - d
      exact ⟨_, roundTrip_of_not_namesFile hnames hdepth hdigits, rfl⟩

/-- An interpreter of which one float is known. -/
def interpreter : Interpreter where
  Float q := q = mkRat 1 2
  repr _ := "0.5".toList
  text q hq := by
    rw [hq]
    exact ⟨⟨"0".toList, ".5".toList, [], by decide, by decide, rfl, Or.inl (by decide)⟩,
      by decide +kernel⟩
  limit := 1000

def envDict : List (Txt × JsonValue) :=
  [("path".toList, .str "C:\\$HOME\n".toList),
    ("load".toList, .arr [.float (.finite (mkRat 1 2)), .int (-3)])]

theorem document_envDict : (JsonValue.obj envDict).Every (Document interpreter) := by
  have hkeys : (envDict.map (·.1)).Nodup := by decide
  refine JsonValue.every_iff.mpr ⟨hkeys, fun w hw => ?_⟩
  rcases List.mem_pair.mp hw with rfl | rfl
  · exact JsonValue.every_iff.mpr ⟨trivial, fun w hw => nomatch hw⟩
  · refine JsonValue.every_iff.mpr ⟨trivial, fun w hw => ?_⟩
    rcases List.mem_pair.mp hw with rfl | rfl
    · exact JsonValue.every_iff.mpr ⟨⟨_, rfl, rfl⟩, fun w hw => nomatch hw⟩
    · exact JsonValue.every_iff.mpr ⟨trivial, fun w hw => nomatch hw⟩

theorem roundTrips_envDict : RoundTrips interpreter "/w/$env/metadata.json".toList (.obj envDict) :=
  (dict_returns_iff document_envDict (forall_of_all (by decide +kernel))).2.mpr
    ⟨by decide +kernel, by decide +kernel, Or.inl ⟨by decide, by decide, by decide⟩⟩

/-- A path without a directory: `mkdir -p ""` fails, and the file is not written. -/
theorem not_roundTrips_bare : (JsonValue.obj marker).Every (Document interpreter) ∧
    ¬ RoundTrips interpreter "metadata.json".toList (.obj marker) := by
  constructor
  · refine JsonValue.every_iff.mpr ⟨List.nodup_singleton _, fun w hw => ?_⟩
    obtain rfl := List.mem_singleton.mp hw
    exact JsonValue.every_iff.mpr ⟨trivial, fun w hw => nomatch hw⟩
  · intro h
    obtain ⟨v, hv, hsame⟩ := h (generous interpreter) rfl rfl rfl ⟨fun _ => true, fun _ => none⟩
    have hdumps : (JsonValue.obj marker).sorted.dumps interpreter.repr interpreter.limit = _ :=
      dumps_sorted (by decide) (by decide)
    have hnone : (⟨fun _ => true, fun _ => none⟩ : Disk).file "metadata.json".toList = none := by
      unfold Disk.file
      exact if_pos (by decide)
    rw [Host.roundTrip_of_dumps (h := generous interpreter) hdumps,
      Host.disk_of_unplaced (h := generous interpreter) (Or.inl (by decide)) fun _ =>
        Nat.one_ne_zero,
      Host.readRemoteJson_of_none (h := generous interpreter) hnone] at hv
    obtain rfl := Except.ok.inj (Option.some.inj hv)
    exact absurd (eq_nil_of_sorted hsame) (List.cons_ne_nil _ _)

end

end EnvMetadata
end Provisioning
end RocmTests
