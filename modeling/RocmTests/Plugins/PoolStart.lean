import RocmTests.Collections.Dict
import RocmTests.Collections.Partial
import RocmTests.Conc.Fallible
import RocmTests.Conc.History
import RocmTests.Plugins.WorkerPool
import RocmTests.Text.Numeral

/-!
# The start of a node pool

A run on other machines reads its hosts from a YAML file.  Each host stands behind a key that ends
with a number, and these numbers give the order of the nodes, whatever their order in the file.

`NodePool` then asks all nodes for their GPUs at once, with one thread for each.  A thread opens a
session where the node is not this machine, and enters what it finds under the label of its node.
The labels are the keys of the file, so no thread enters anything for another one.
-/

namespace RocmTests
namespace Plugins
namespace PoolStart

open Conc Executors Gpu Nodes Text WorkerPool

/-! ## The host file -/

/-- What stands behind a key of the file.  A field that is null is `none`. -/
inductive HostEntry (V : Type) where
  | mapping (fields : Dict String (Option V))
  | other (typeName : String)

/-- What `yaml.safe_load` gives.  Keys that are no texts are not kept: `str` of none of them starts
like the key of a host, and an entry is asked for texts only. -/
inductive HostFile (V : Type) where
  | mapping (d : Dict String (HostEntry V))
  | other (typeName : String)

/-- A `NodeSpec` with the values of the file, which the loader does not look at. -/
structure HostNode (V : Type) where
  hostname : Option V
  username : Option V
  password : Option V
  sshKey : Option V
  gpuArch : Option V
  label : String

inductive LoadError where
  | valueError (text : String)
  | keyError (text : String)
  /-- The `ValueError` of `int`, which shows this text. -/
  | noNumber (text : Txt)

namespace HostConfigLoader

section

variable {V : Type}

def isHost (key : String) : Bool := "HOST_IDX_".toList.isPrefixOf key.toList

/-- `str(k).rsplit("_", maxsplit=1)[-1]`. -/
def numeral (key : String) : Txt := key.toList.rtakeWhile (· ≠ '_')

/-- `int` of it. -/
def number? (key : String) : Option Int := parseInt (numeral key)

def hosts (d : Dict String (HostEntry V)) : List (String × HostEntry V) :=
  d.items.filter fun e => isHost e.1

def withNumber (e : String × HostEntry V) : Except LoadError (Int × String × HostEntry V) :=
  match number? e.1 with
  | some n => .ok (n, e)
  | none => .error (.noNumber (numeral e.1))

def noTopMapping (typeName : String) : String :=
  "host.yaml must be a YAML mapping at the top level, got " ++ typeName

def noMapping (label typeName : String) : String :=
  label ++ ": expected a YAML mapping, got " ++ typeName

def noHostname (label : String) : String := label ++ ": missing required key 'HOSTNAME'"

/-- The node of one entry. -/
def readHost (label : String) : HostEntry V → Except LoadError (HostNode V)
  | .other typeName => .error (.valueError (noMapping label typeName))
  | .mapping fields =>
    match fields.get "HOSTNAME" with
    | none => .error (.keyError (noHostname label))
    | some hostname =>
      .ok
        { hostname
          username := (fields.get "USERNAME").join
          password := (fields.get "PASSWORD").join
          sshKey := (fields.get "SSH_KEY").join
          gpuArch := (fields.get "GPU_ARCH").join
          label }

def load : HostFile V → Except LoadError (List (HostNode V))
  | .other typeName => .error (.valueError (noTopMapping typeName))
  | .mapping d => do
    let numbered ← (hosts d).mapM withNumber
    (numbered.mergeSort fun a b => a.1 ≤ b.1).mapM fun e => readHost e.2.1 e.2.2

/-! ### What the loader answers -/

/-- A mapping with a host name. -/
def Complete : HostEntry V → Prop
  | .mapping fields => (fields.get "HOSTNAME").isSome = true
  | .other _ => False

/-- Every host has a number and a complete entry. -/
def Ready (d : Dict String (HostEntry V)) : Prop :=
  ∀ e ∈ hosts d, (number? e.1).isSome = true ∧ Complete e.2

/-- No two hosts have the same number. -/
def Distinct (d : Dict String (HostEntry V)) : Prop :=
  ∀ e ∈ hosts d, ∀ e' ∈ hosts d, number? e.1 = number? e'.1 → e.1 = e'.1

instance (d : Dict String (HostEntry V)) : Decidable (Distinct d) :=
  inferInstanceAs (Decidable (∀ e ∈ hosts d, ∀ e' ∈ hosts d, _ → _))

/-- The first key has a number, and where the second has one too it is not below the first. -/
def NotAfter (key key' : String) : Prop :=
  ∃ m, number? key = some m ∧ ∀ n, number? key' = some n → m ≤ n

/-- The node has the values of these fields. -/
structure Has (node : HostNode V) (fields : Dict String (Option V)) : Prop where
  hostname : fields.get "HOSTNAME" = some node.hostname
  username : node.username = (fields.get "USERNAME").join
  password : node.password = (fields.get "PASSWORD").join
  sshKey : node.sshKey = (fields.get "SSH_KEY").join
  gpuArch : node.gpuArch = (fields.get "GPU_ARCH").join

/-- One node for each host, by ascending numbers. -/
structure Loaded (d : Dict String (HostEntry V)) (nodes : List (HostNode V)) : Prop where
  labels : (nodes.map HostNode.label).Perm ((hosts d).map Prod.fst)
  ascending : nodes.Pairwise fun a b => NotAfter a.label b.label
  own : ∀ node ∈ nodes, ∃ fields, (node.label, .mapping fields) ∈ hosts d ∧ Has node fields

/-- The entry that an error is about, the first by its number that is not complete. -/
structure Stops (d : Dict String (HostEntry V)) (e : String × HostEntry V) : Prop where
  mem : e ∈ hosts d
  incomplete : ¬Complete e.2
  first : ∀ e' ∈ hosts d, ¬Complete e'.2 → NotAfter e.1 e'.1

/-- What an error tells of the file.  Of the keys without a number it is about the first one, in the
order of the file. -/
def Blames (d : Dict String (HostEntry V)) : LoadError → Prop
  | .noNumber text => ∃ before e after, hosts d = before ++ e :: after ∧
    (∀ e' ∈ before, (number? e'.1).isSome = true) ∧ number? e.1 = none ∧ text = numeral e.1
  | .valueError text =>
    ∃ label typeName, text = noMapping label typeName ∧ Stops d (label, .other typeName)
  | .keyError text => ∃ label fields, text = noHostname label ∧ Stops d (label, .mapping fields)

/-- The nodes of a file that is ready, or an error with its cause. -/
def AnswersMapping (d : Dict String (HostEntry V)) : Except LoadError (List (HostNode V)) → Prop
  | .ok nodes => Ready d ∧ Loaded d nodes
  | .error e => ¬Ready d ∧ Blames d e

def Answers : HostFile V → Except LoadError (List (HostNode V)) → Prop
  | .mapping d, answer => AnswersMapping d answer
  | .other typeName, answer => answer = .error (.valueError (noTopMapping typeName))

/-! ### Reading one host -/

theorem withNumber_eq_ok {e : String × HostEntry V} {n : Int} (h : number? e.1 = some n) :
    withNumber e = .ok (n, e) := by
  simp [withNumber, h]

theorem of_withNumber_ok {e : String × HostEntry V} {x : Int × String × HostEntry V}
    (h : withNumber e = .ok x) : number? e.1 = some x.1 ∧ x.2 = e := by
  unfold withNumber at h
  cases hn : number? e.1 with
  | none =>
    rw [hn] at h
    cases h
  | some n =>
    rw [hn] at h
    cases h
    exact ⟨rfl, rfl⟩

theorem of_withNumber_error {e : String × HostEntry V} {err : LoadError}
    (h : withNumber e = .error err) : err = .noNumber (numeral e.1) ∧ number? e.1 = none := by
  unfold withNumber at h
  cases hn : number? e.1 with
  | none =>
    rw [hn] at h
    cases h
    exact ⟨rfl, rfl⟩
  | some n =>
    rw [hn] at h
    cases h

theorem of_readHost_ok {label : String} {e : HostEntry V} {node : HostNode V}
    (h : readHost label e = .ok node) :
    node.label = label ∧ ∃ fields, e = .mapping fields ∧ Has node fields := by
  cases e with
  | other typeName => cases h
  | mapping fields =>
    cases hname : fields.get "HOSTNAME" with
    | none =>
      simp only [readHost, hname] at h
      cases h
    | some hostname =>
      simp only [readHost, hname] at h
      cases h
      exact ⟨rfl, fields, rfl, hname, rfl, rfl, rfl, rfl⟩

theorem complete_iff (label : String) (e : HostEntry V) :
    Complete e ↔ ∃ node, readHost label e = .ok node := by
  cases e with
  | other typeName => exact ⟨False.elim, fun ⟨_, h⟩ => by cases h⟩
  | mapping fields =>
    cases hname : fields.get "HOSTNAME" with
    | none => simp [Complete, readHost, hname]
    | some hostname => simp [Complete, readHost, hname]

/-! ### Reading the file -/

variable {d d' : Dict String (HostEntry V)}

/-- The hosts with their numbers, in the order of the file. -/
def numbered (d : Dict String (HostEntry V)) : List (Int × String × HostEntry V) :=
  (hosts d).map fun e => ((number? e.1).getD 0, e)

def sorted (d : Dict String (HostEntry V)) : List (Int × String × HostEntry V) :=
  (numbered d).mergeSort fun a b => a.1 ≤ b.1

theorem sorted_perm (d : Dict String (HostEntry V)) : (sorted d).Perm (numbered d) :=
  List.mergeSort_perm ..

theorem pairwise_sorted (d : Dict String (HostEntry V)) :
    (sorted d).Pairwise fun a b => a.1 ≤ b.1 := by
  have h : (sorted d).Pairwise fun a b => decide (a.1 ≤ b.1) = true := by
    refine List.pairwise_mergeSort (fun a b c hab hbc => ?_) (fun a b => ?_) (numbered d)
    · exact decide_eq_true (le_trans (of_decide_eq_true hab) (of_decide_eq_true hbc))
    · simpa using le_total a.1 b.1
  exact h.imp of_decide_eq_true

theorem mapM_withNumber (h : ∀ e ∈ hosts d, (number? e.1).isSome = true) :
    (hosts d).mapM withNumber = .ok (numbered d) := by
  have hmap : ((hosts d).map id).mapM withNumber = .ok (numbered d) := by
    refine Fallible.mapM_map_ok fun e he => ?_
    obtain ⟨n, hn⟩ := Option.isSome_iff_exists.mp (h e he)
    rw [id, withNumber_eq_ok hn, hn]
    rfl
  rwa [List.map_id] at hmap

theorem load_eq (h : ∀ e ∈ hosts d, (number? e.1).isSome = true) :
    load (.mapping d) = (sorted d).mapM fun e => readHost e.2.1 e.2.2 := by
  show ((hosts d).mapM withNumber).bind _ = _
  rw [mapM_withNumber h]
  rfl

theorem mem_sorted (h : ∀ e ∈ hosts d, (number? e.1).isSome = true)
    {x : Int × String × HostEntry V} :
    x ∈ sorted d ↔ x.2 ∈ hosts d ∧ number? x.2.1 = some x.1 := by
  rw [(sorted_perm d).mem_iff]
  constructor
  · intro hx
    obtain ⟨e, he, rfl⟩ := List.mem_map.mp hx
    obtain ⟨n, hn⟩ := Option.isSome_iff_exists.mp (h e he)
    exact ⟨he, by rw [hn]; rfl⟩
  · intro ⟨hx, hn⟩
    exact List.mem_map.mpr ⟨x.2, hx, by rw [hn]; rfl⟩

theorem labels_of_read {xs : List (Int × String × HostEntry V)} {nodes : List (HostNode V)}
    (h : xs.mapM (fun x => readHost x.2.1 x.2.2) = .ok nodes) :
    nodes.map HostNode.label = xs.map fun x => x.2.1 := by
  have hall := Fallible.forall₂_of_mapM h
  clear h
  induction hall with
  | nil => rfl
  | cons hx _ ih => rw [List.map_cons, List.map_cons, ih, (of_readHost_ok hx).1]

theorem loaded_of_read (hnum : ∀ e ∈ hosts d, (number? e.1).isSome = true)
    {nodes : List (HostNode V)}
    (h : (sorted d).mapM (fun x => readHost x.2.1 x.2.2) = .ok nodes) :
    Ready d ∧ Loaded d nodes := by
  have hlabels := labels_of_read h
  refine ⟨fun e he => ⟨hnum e he, ?_⟩, ?_, ?_, ?_⟩
  · obtain ⟨n, hn⟩ := Option.isSome_iff_exists.mp (hnum e he)
    have hmem : (n, e) ∈ sorted d := (mem_sorted hnum).mpr ⟨he, hn⟩
    obtain ⟨node, hread⟩ := Fallible.ok_of_mapM h (n, e) hmem
    exact (complete_iff e.1 e.2).mpr ⟨node, hread⟩
  · rw [hlabels]
    have hperm := (sorted_perm d).map fun x => x.2.1
    rwa [numbered, List.map_map] at hperm
  · rw [← List.pairwise_map, hlabels, List.pairwise_map]
    refine (pairwise_sorted d).imp_of_mem fun {x y} hx hy hle => ?_
    refine ⟨x.1, ((mem_sorted hnum).mp hx).2, fun n hn => ?_⟩
    have hy' := ((mem_sorted hnum).mp hy).2
    rw [hy'] at hn
    exact hle.trans_eq (Option.some.inj hn)
  · intro node hnode
    obtain ⟨x, hx, hread⟩ := Fallible.exists_of_mem_mapM h hnode
    obtain ⟨hlabel, fields, hfields, hhas⟩ := of_readHost_ok hread
    have hmem := ((mem_sorted hnum).mp hx).1
    refine ⟨fields, ?_, hhas⟩
    rwa [hlabel, ← hfields]

/-- In a list by ascending numbers the first entry that fails is the first by its number. -/
theorem stops_of_read (hnum : ∀ e ∈ hosts d, (number? e.1).isSome = true) {err : LoadError}
    (h : (sorted d).mapM (fun x => readHost x.2.1 x.2.2) = .error err) :
    ∃ e, Stops d e ∧ readHost e.1 e.2 = .error err := by
  obtain ⟨done, x, rest, hsplit, hx, hdone⟩ := Fallible.exists_of_mapM_error h
  have hmem : x ∈ sorted d := by
    rw [hsplit]
    exact List.mem_append_right _ List.mem_cons_self
  have hsorted := pairwise_sorted d
  rw [hsplit, List.pairwise_append, List.pairwise_cons] at hsorted
  refine ⟨x.2, ⟨((mem_sorted hnum).mp hmem).1, ?_, fun e he hincomplete => ?_⟩, hx⟩
  · intro hcomplete
    obtain ⟨node, hnode⟩ := (complete_iff x.2.1 x.2.2).mp hcomplete
    rw [hx] at hnode
    cases hnode
  · obtain ⟨n, hn⟩ := Option.isSome_iff_exists.mp (hnum e he)
    refine ⟨x.1, ((mem_sorted hnum).mp hmem).2, fun n' hn' => ?_⟩
    obtain rfl : n = n' := Option.some.inj (hn.symm.trans hn')
    have hin : (n, e) ∈ done ++ x :: rest := by
      rw [← hsplit]
      exact (mem_sorted hnum).mpr ⟨he, hn⟩
    rcases List.mem_append.mp hin with hbefore | hin
    · exact absurd ((complete_iff e.1 e.2).mpr (hdone (n, e) hbefore)) hincomplete
    · rcases List.mem_cons.mp hin with heq | hafter
      · rw [← heq]
      · exact hsorted.2.1.1 (n, e) hafter

theorem answers_load (d : Dict String (HostEntry V)) : AnswersMapping d (load (.mapping d)) := by
  by_cases hnum : ∀ e ∈ hosts d, (number? e.1).isSome = true
  · rw [load_eq hnum]
    cases hread : (sorted d).mapM fun e => readHost e.2.1 e.2.2 with
    | ok nodes => exact loaded_of_read hnum hread
    | error err =>
      obtain ⟨⟨label, entry⟩, hstops, herr⟩ := stops_of_read hnum hread
      refine ⟨fun hready => hstops.incomplete (hready _ hstops.mem).2, ?_⟩
      cases entry with
      | other typeName =>
        cases herr
        exact ⟨label, typeName, rfl, hstops⟩
      | mapping fields =>
        cases hname : fields.get "HOSTNAME" with
        | none =>
          simp only [readHost, hname] at herr
          cases herr
          exact ⟨label, fields, rfl, hstops⟩
        | some hostname =>
          simp only [readHost, hname] at herr
          cases herr
  · cases hall : (hosts d).mapM withNumber with
    | ok xs =>
      refine absurd (fun e he => ?_) hnum
      obtain ⟨x, hx⟩ := Fallible.ok_of_mapM hall e he
      rw [(of_withNumber_ok hx).1]
      rfl
    | error err =>
      have hload : load (.mapping d) = .error err := by
        show ((hosts d).mapM withNumber).bind _ = _
        rw [hall]
        rfl
      rw [hload]
      obtain ⟨done, e, rest, hsplit, he, hdone⟩ := Fallible.exists_of_mapM_error hall
      obtain ⟨rfl, hnone⟩ := of_withNumber_error he
      refine ⟨fun hready => hnum fun e he => (hready e he).1, done, e, rest, hsplit, ?_, hnone, rfl⟩
      intro e' he'
      obtain ⟨x, hx⟩ := hdone e' he'
      rw [(of_withNumber_ok hx).1]
      rfl

theorem nodup_hosts (d : Dict String (HostEntry V)) : ((hosts d).map Prod.fst).Nodup :=
  d.nodup.sublist (List.filter_sublist.map _)

theorem eq_of_key {e e' : String × HostEntry V} (he : e ∈ hosts d) (he' : e' ∈ hosts d)
    (h : e.1 = e'.1) : e = e' :=
  List.inj_on_of_nodup_map (nodup_hosts d) he he' h

/-- The order of the hosts in the file does not matter where their numbers are distinct. -/
theorem load_perm (hnum : ∀ e ∈ hosts d, (number? e.1).isSome = true) (hdistinct : Distinct d)
    (hperm : d.items.Perm d'.items) : load (.mapping d') = load (.mapping d) := by
  have hhosts : (hosts d).Perm (hosts d') := hperm.filter _
  have hnum' : ∀ e ∈ hosts d', (number? e.1).isSome = true := fun e he =>
    hnum e (hhosts.mem_iff.mpr he)
  have hsorted : sorted d = sorted d' := by
    refine List.Perm.eq_of_pairwise (fun a b ha hb hab hba => ?_) (pairwise_sorted d)
      (pairwise_sorted d') ((sorted_perm d).trans ((hhosts.map _).trans (sorted_perm d').symm))
    obtain ⟨hmema, hna⟩ := (mem_sorted hnum).mp ha
    obtain ⟨hmemb, hnb⟩ := (mem_sorted hnum').mp hb
    have hmemb' := hhosts.mem_iff.mpr hmemb
    have hn : a.1 = b.1 := le_antisymm hab hba
    have hkey := hdistinct a.2 hmema b.2 hmemb' (by rw [hna, hnb, hn])
    exact Prod.ext hn (eq_of_key hmema hmemb' hkey)
  rw [load_eq hnum, load_eq hnum', hsorted]

/-- What the loader answers to a file, and that it is the same whatever order its hosts have. -/
theorem load_answers (f : HostFile V) :
    Answers f (load f) ∧ ∀ d d' : Dict String (HostEntry V), f = .mapping d →
      (∀ e ∈ hosts d, (number? e.1).isSome = true) → Distinct d → d.items.Perm d'.items →
        load (.mapping d') = load f := by
  constructor
  · cases f with
    | mapping d => exact answers_load d
    | other typeName => rfl
  · rintro d d' rfl hnum hdistinct hperm
    exact load_perm hnum hdistinct hperm

end

end HostConfigLoader

/-! ## The detection -/

/-- A step of a thread that others can see. -/
inductive DetectStep where
  | connect
  | found (gpus : List GpuInfo)
deriving DecidableEq

/-- How a thread ends: with an exception before it has a session or after it, or with what it
found. -/
inductive Detected where
  | notConnected
  | notDetected
  | found (gpus : List GpuInfo)
deriving DecidableEq

/-- The steps of `_detect_node`. -/
def detectSteps (hostname : Option String) (spec : NodeSpec) : Detected → List DetectStep
  | .notConnected => []
  | .notDetected => if isLocal hostname spec then [] else [.connect]
  | .found gpus => (if isLocal hostname spec then [] else [.connect]) ++ [.found gpus]

/-- The pool, and how many session objects have been made. -/
structure Detecting where
  pool : NodePool
  made : Nat

namespace Detecting

def next (l : NodeSpec × DetectStep) (s : Detecting) : Detecting :=
  match l.2 with
  | .connect => ⟨s.pool.openSession l.1 s.made, s.made + 1⟩
  | .found gpus => ⟨s.pool.setAllocator l.1.label (archFilter l.1 gpus), s.made⟩

end Detecting

/-- The pool after these steps of the threads. -/
def detecting (specs : List NodeSpec) (rockDir : Option String) (headroomGb : ℚ)
    (steps : List (NodeSpec × DetectStep)) : NodePool :=
  (after Detecting.next ⟨emptyPool specs rockDir headroomGb, 0⟩ steps).pool

/-- The steps of one thread for each node, in any order. -/
structure Interleaved (hostname : Option String) (specs : List NodeSpec)
    (ends : NodeSpec → Detected) (steps : List (NodeSpec × DetectStep)) : Prop where
  threads : ∀ spec ∈ specs,
    (steps.filter fun l => l.1 = spec) = (detectSteps hostname spec (ends spec)).map (spec, ·)
  only : ∀ l ∈ steps, l.1 ∈ specs

/-- What the pool has under one label. -/
@[ext]
structure Share where
  gpus : Option (List GpuInfo)
  session : Option SshExecutor
deriving DecidableEq

def share (p : NodePool) (label : String) : Share :=
  ⟨p.topology.gpus label, (p.topology.sshSessions label).map p.objs⟩

def sessionTo (spec : NodeSpec) : SshExecutor :=
  { host := spec.hostname, user := spec.username, keyPath := spec.sshKey,
    password := spec.password }

/-- What a thread that ends so leaves under the label of its node. -/
def leaves (hostname : Option String) (spec : NodeSpec) : Detected → Share
  | .notConnected => ⟨none, none⟩
  | .notDetected => ⟨none, if isLocal hostname spec then none else some (sessionTo spec)⟩
  | .found gpus =>
    ⟨some (archFilter spec gpus), if isLocal hostname spec then none else some (sessionTo spec)⟩

/-- The pool has what the thread of each node leaves, and nothing else. -/
structure Settled (hostname : Option String) (specs : List NodeSpec) (ends : NodeSpec → Detected)
    (p : NodePool) : Prop where
  nodeSpecs : p.topology.nodeSpecs = specs
  shares : ∀ spec ∈ specs, share p spec.label = leaves hostname spec (ends spec)
  others : ∀ label, label ∉ specs.map NodeSpec.label → share p label = ⟨none, none⟩

namespace Share

def next (l : NodeSpec × DetectStep) (s : Share) : Share :=
  match l.2 with
  | .connect => { s with session := some (sessionTo l.1) }
  | .found gpus => { s with gpus := some (archFilter l.1 gpus) }

end Share

/-- Every session in use is one that has been made. -/
def Made (s : Detecting) : Prop :=
  ∀ label ref, s.pool.topology.sshSessions label = some ref → ref < s.made

theorem made_next {s : Detecting} (h : Made s) (l : NodeSpec × DetectStep) : Made (s.next l) := by
  obtain ⟨spec, step⟩ := l
  cases step with
  | found gpus => exact h
  | connect =>
    intro label ref href
    have href' : Function.update s.pool.topology.sshSessions spec.label (some s.made) label =
        some ref := href
    by_cases hself : label = spec.label
    · rw [hself, Function.update_self] at href'
      cases href'
      exact Nat.lt_succ_self _
    · rw [Function.update_of_ne hself] at href'
      exact Nat.lt_succ_of_lt (h label ref href')

theorem share_setAllocator (p : NodePool) (label : String) (gpus : List GpuInfo) (label' : String) :
    share (p.setAllocator label gpus) label' =
      if label = label' then { share p label' with gpus := some gpus } else share p label' := by
  by_cases hself : label = label'
  · subst hself
    simp [share, NodePool.setAllocator]
  · simp [share, NodePool.setAllocator, hself, Ne.symm hself]

/-- A session that is not in use yet is opened. -/
theorem share_openSession {p : NodePool} {ref : Nat}
    (h : ∀ label ref', p.topology.sshSessions label = some ref' → ref' < ref) (spec : NodeSpec)
    (label : String) :
    share (p.openSession spec ref) label =
      if spec.label = label then { share p label with session := some (sessionTo spec) }
      else share p label := by
  by_cases hself : spec.label = label
  · subst hself
    simp [share, NodePool.openSession, sessionTo]
  · rw [if_neg hself]
    have hupdate : (p.openSession spec ref).topology.sshSessions label =
        p.topology.sshSessions label := Function.update_of_ne (Ne.symm hself) _ _
    have hsession : ((p.openSession spec ref).topology.sshSessions label).map
        (p.openSession spec ref).objs = (p.topology.sshSessions label).map p.objs := by
      rw [hupdate]
      cases hold : p.topology.sshSessions label with
      | none => rfl
      | some ref' =>
        have hne : ref' ≠ ref := (h label ref' hold).ne
        show some (Function.update p.objs ref _ ref') = some (p.objs ref')
        rw [Function.update_of_ne hne]
    exact Share.ext rfl hsession

/-- A step changes what the pool has under the label of its node, and nothing else. -/
theorem share_next {s : Detecting} (h : Made s) (l : NodeSpec × DetectStep) (label : String) :
    share (s.next l).pool label =
      if l.1.label = label then (share s.pool label).next l else share s.pool label := by
  obtain ⟨spec, step⟩ := l
  cases step with
  | connect => exact share_openSession h spec label
  | found gpus => exact share_setAllocator s.pool spec.label (archFilter spec gpus) label

theorem nodeSpecs_after (s : Detecting) (steps : List (NodeSpec × DetectStep)) :
    (after Detecting.next s steps).pool.topology.nodeSpecs = s.pool.topology.nodeSpecs := by
  induction steps generalizing s with
  | nil => rfl
  | cons l ls ih =>
    have hafter : after Detecting.next s (l :: ls) = after Detecting.next (s.next l) ls := rfl
    rw [hafter, ih]
    obtain ⟨spec, step⟩ := l
    cases step <;> rfl

theorem share_detecting (specs : List NodeSpec) (rockDir : Option String) (headroomGb : ℚ)
    (steps : List (NodeSpec × DetectStep)) (label : String) :
    share (detecting specs rockDir headroomGb steps) label =
      after Share.next ⟨none, none⟩ (steps.filter fun l => l.1.label = label) :=
  after_part (fun s : Detecting => share s.pool) (fun l : NodeSpec × DetectStep => l.1.label)
    Share.next (I := Made) (fun _ l h => made_next h l) (fun _ l k h => share_next h l k)
    (fun _ _ h => by cases h) steps label

theorem after_detectSteps (hostname : Option String) (spec : NodeSpec) (x : Detected) :
    after Share.next ⟨none, none⟩ ((detectSteps hostname spec x).map (spec, ·)) =
      leaves hostname spec x := by
  cases hlocal : isLocal hostname spec with
  | true => cases x <;> simp [detectSteps, leaves, hlocal, after, Share.next]
  | false => cases x <;> simp [detectSteps, leaves, hlocal, after, Share.next]

/-- A pool that has under each label what the steps of the threads with this label make. -/
theorem settled_of_share {hostname : Option String} {specs : List NodeSpec}
    {ends : NodeSpec → Detected} {steps : List (NodeSpec × DetectStep)} {p : NodePool}
    (hlabels : (specs.map NodeSpec.label).Nodup) (h : Interleaved hostname specs ends steps)
    (hspecs : p.topology.nodeSpecs = specs)
    (hshare : ∀ label,
      share p label = after Share.next ⟨none, none⟩ (steps.filter fun l => l.1.label = label)) :
    Settled hostname specs ends p where
  nodeSpecs := hspecs
  shares := by
    intro spec hspec
    have hown : (steps.filter fun l => l.1.label = spec.label) =
        steps.filter fun l => l.1 = spec := by
      refine List.filter_congr fun l hl => decide_eq_decide.mpr ?_
      exact ⟨fun heq => List.inj_on_of_nodup_map hlabels (h.only l hl) hspec heq,
        fun heq => by rw [heq]⟩
    rw [hshare, hown, h.threads spec hspec, after_detectSteps]
  others := by
    intro label hlabel
    have hnone : (steps.filter fun l => l.1.label = label) = [] := by
      refine List.filter_eq_nil_iff.mpr fun l hl heq => hlabel ?_
      rw [← of_decide_eq_true heq]
      exact List.mem_map_of_mem (h.only l hl)
    rw [hshare, hnone]
    rfl

/-- However the steps of the threads come after one another. -/
theorem settled_of_interleaved {hostname : Option String} {specs : List NodeSpec}
    {ends : NodeSpec → Detected} {steps : List (NodeSpec × DetectStep)}
    (hlabels : (specs.map NodeSpec.label).Nodup) (h : Interleaved hostname specs ends steps)
    (rockDir : Option String) (headroomGb : ℚ) :
    Settled hostname specs ends (detecting specs rockDir headroomGb steps) :=
  settled_of_share hlabels h (nodeSpecs_after _ steps)
    (share_detecting specs rockDir headroomGb steps)

/-! ### Detections as single steps -/

/-- How a thread that had its session ended. -/
def endOf : Option (List GpuInfo) → Detected
  | none => .notDetected
  | some gpus => .found gpus

/-- The steps of the threads, one thread after the other. -/
def inTurn (hostname : Option String) (completed : List (NodeSpec × Option (List GpuInfo))) :
    List (NodeSpec × DetectStep) :=
  completed.flatMap fun x => (detectSteps hostname x.1 (endOf x.2)).map (x.1, ·)

/-- The sessions in use are below this number. -/
def SessionsBelow (ref : Nat) (p : NodePool) : Prop :=
  ∀ label ref', p.topology.sshSessions label = some ref' → ref' < ref

theorem sessionsBelow_detectNode {hostname : Option String} {p : NodePool} {ref : Nat}
    (h : SessionsBelow ref p) (x : NodeSpec × Option (List GpuInfo)) :
    SessionsBelow (ref + 1) (detectNode hostname p (x, ref)) := by
  have hopen : SessionsBelow (ref + 1) (p.openSession x.1 ref) :=
    made_next (s := ⟨p, ref⟩) h (x.1, .connect)
  have hkeep : SessionsBelow (ref + 1) p := fun label ref' hl => Nat.lt_succ_of_lt (h label ref' hl)
  have hset : ∀ (q : NodePool) gpus, SessionsBelow (ref + 1) q →
      SessionsBelow (ref + 1) (q.setAllocator x.1.label gpus) := fun _ _ hq => hq
  cases hlocal : isLocal hostname x.1 with
  | true =>
    cases hx : x.2 with
    | none => simpa [detectNode, hlocal, hx] using hkeep
    | some gpus => simpa [detectNode, hlocal, hx] using hset p _ hkeep
  | false =>
    cases hx : x.2 with
    | none => simpa [detectNode, hlocal, hx] using hopen
    | some gpus => simpa [detectNode, hlocal, hx] using hset _ _ hopen

theorem share_detectNode {hostname : Option String} {p : NodePool} {ref : Nat}
    (h : SessionsBelow ref p) (x : NodeSpec × Option (List GpuInfo)) (label : String) :
    share (detectNode hostname p (x, ref)) label =
      after Share.next (share p label)
        (((detectSteps hostname x.1 (endOf x.2)).map (x.1, ·)).filter fun l =>
          l.1.label = label) := by
  have hopen := share_openSession h x.1 label
  by_cases hself : x.1.label = label
  · rw [if_pos hself] at hopen
    cases hlocal : isLocal hostname x.1 with
    | true =>
      cases hx : x.2 <;>
        simp [detectNode, detectSteps, endOf, hlocal, hx, hself, after, Share.next,
          share_setAllocator]
    | false =>
      cases hx : x.2 <;>
        simp [detectNode, detectSteps, endOf, hlocal, hx, hself, hopen, after, Share.next,
          share_setAllocator]
  · rw [if_neg hself] at hopen
    cases hlocal : isLocal hostname x.1 with
    | true =>
      cases hx : x.2 <;>
        simp [detectNode, detectSteps, endOf, hlocal, hx, hself, after, share_setAllocator]
    | false =>
      cases hx : x.2 <;>
        simp [detectNode, detectSteps, endOf, hlocal, hx, hself, hopen, after, share_setAllocator]

theorem share_detectFold {hostname : Option String} {p : NodePool} {ref : Nat}
    (h : SessionsBelow ref p) (completed : List (NodeSpec × Option (List GpuInfo)))
    (label : String) :
    share ((completed.zipIdx ref).foldl (detectNode hostname) p) label =
      after Share.next (share p label)
        ((inTurn hostname completed).filter fun l => l.1.label = label) := by
  induction completed generalizing p ref with
  | nil => rfl
  | cons x xs ih =>
    have hturn : inTurn hostname (x :: xs) =
        (detectSteps hostname x.1 (endOf x.2)).map (x.1, ·) ++ inTurn hostname xs := rfl
    rw [List.zipIdx_cons, List.foldl_cons, ih (sessionsBelow_detectNode h x), share_detectNode h,
      hturn, List.filter_append]
    exact (List.foldl_append ..).symm

theorem filter_inTurn {hostname : Option String}
    {completed : List (NodeSpec × Option (List GpuInfo))} (hnodup : (completed.map Prod.fst).Nodup)
    {x : NodeSpec × Option (List GpuInfo)} (hx : x ∈ completed) :
    ((inTurn hostname completed).filter fun l => l.1 = x.1) =
      (detectSteps hostname x.1 (endOf x.2)).map (x.1, ·) := by
  induction completed with
  | nil => cases hx
  | cons y ys ih =>
    have hturn : inTurn hostname (y :: ys) =
        (detectSteps hostname y.1 (endOf y.2)).map (y.1, ·) ++ inTurn hostname ys := rfl
    obtain ⟨hy, hnodup⟩ := List.nodup_cons.mp hnodup
    rw [hturn, List.filter_append]
    rcases List.mem_cons.mp hx with rfl | hx
    · have hown :
          (((detectSteps hostname x.1 (endOf x.2)).map (x.1, ·)).filter fun l => l.1 = x.1) =
          (detectSteps hostname x.1 (endOf x.2)).map (x.1, ·) := by
        refine List.filter_eq_self.mpr fun l hl => ?_
        obtain ⟨step, _, rfl⟩ := List.mem_map.mp hl
        exact decide_eq_true rfl
      have hrest : ((inTurn hostname ys).filter fun l => l.1 = x.1) = [] := by
        refine List.filter_eq_nil_iff.mpr fun l hl heq => hy ?_
        obtain ⟨z, hz, hmem⟩ := List.mem_flatMap.mp hl
        obtain ⟨step, _, rfl⟩ := List.mem_map.mp hmem
        exact List.mem_map.mpr ⟨z, hz, of_decide_eq_true heq⟩
      rw [hown, hrest, List.append_nil]
    · have hnone : (((detectSteps hostname y.1 (endOf y.2)).map (y.1, ·)).filter fun l =>
          l.1 = x.1) = [] := by
        refine List.filter_eq_nil_iff.mpr fun l hl heq => hy ?_
        obtain ⟨step, _, rfl⟩ := List.mem_map.mp hl
        exact List.mem_map.mpr ⟨x, hx, (of_decide_eq_true heq).symm⟩
      rw [hnone, List.nil_append, ih hnodup hx]

/-- The threads in turn are one of the interleavings. -/
theorem interleaved_inTurn {hostname : Option String} {specs : List NodeSpec}
    {ends : NodeSpec → Detected} {completed : List (NodeSpec × Option (List GpuInfo))}
    (hnodup : specs.Nodup) (hperm : (completed.map Prod.fst).Perm specs)
    (hends : ∀ x ∈ completed, ends x.1 = endOf x.2) :
    Interleaved hostname specs ends (inTurn hostname completed) where
  threads := by
    intro spec hspec
    obtain ⟨x, hx, rfl⟩ := List.mem_map.mp (hperm.mem_iff.mpr hspec)
    rw [filter_inTurn (hperm.nodup_iff.mpr hnodup) hx, hends x hx]
  only := by
    intro l hl
    obtain ⟨x, hx, hmem⟩ := List.mem_flatMap.mp hl
    obtain ⟨step, _, rfl⟩ := List.mem_map.mp hmem
    exact hperm.mem_iff.mp (List.mem_map_of_mem hx)

/-- `detectAll`, which takes each detection as one step, gives the pool of all interleavings. -/
theorem settled_detectAll {hostname : Option String} {specs : List NodeSpec}
    {ends : NodeSpec → Detected} {completed : List (NodeSpec × Option (List GpuInfo))}
    (hlabels : (specs.map NodeSpec.label).Nodup) (hperm : (completed.map Prod.fst).Perm specs)
    (hends : ∀ x ∈ completed, ends x.1 = endOf x.2) (rockDir : Option String) (headroomGb : ℚ) :
    Settled hostname specs ends (detectAll hostname specs rockDir headroomGb completed) :=
  settled_of_share hlabels (interleaved_inTurn hlabels.of_map hperm hends)
    (detect_foldl hostname completed.zipIdx (emptyPool specs rockDir headroomGb)).1
    (share_detectFold (fun _ _ h => by cases h) completed)

/-! ## From the file to the pool -/

/-- The `NodeSpec` of a node whose host name is a text. -/
def HostNode.spec (node : HostNode String) : Option NodeSpec :=
  node.hostname.map fun hostname =>
    { hostname, username := node.username, password := node.password, sshKey := node.sshKey
      gpuArch := node.gpuArch, label := node.label }

namespace HostConfigLoader

/-- A mapping whose host name is a text. -/
def Named : HostEntry String → Prop
  | .mapping fields => (fields.get "HOSTNAME").join.isSome = true
  | .other _ => False

instance : DecidablePred Named
  | .mapping fields => inferInstanceAs (Decidable ((fields.get "HOSTNAME").join.isSome = true))
  | .other _ => inferInstanceAs (Decidable False)

theorem complete_of_named {e : HostEntry String} (h : Named e) : Complete e := by
  cases e with
  | other typeName => exact h
  | mapping fields =>
    show (fields.get "HOSTNAME").isSome = true
    have hname : (fields.get "HOSTNAME").join.isSome = true := h
    cases hget : fields.get "HOSTNAME" with
    | none =>
      rw [hget] at hname
      cases hname
    | some hostname => rfl

variable {d d' : Dict String (HostEntry String)}

/-- The nodes of a file whose host names are texts, with a label of its own for each. -/
theorem specs_of_loaded {nodes : List (HostNode String)} (h : Loaded d nodes)
    (hnamed : ∀ e ∈ hosts d, Named e.2) :
    ∃ specs, nodes.mapM HostNode.spec = some specs ∧ (specs.map NodeSpec.label).Nodup := by
  have hsome : ∀ node ∈ nodes, node.spec = some
      { hostname := node.hostname.getD "", username := node.username, password := node.password
        sshKey := node.sshKey, gpuArch := node.gpuArch, label := node.label } := by
    intro node hnode
    obtain ⟨fields, hmem, hhas⟩ := h.own node hnode
    have hname : (fields.get "HOSTNAME").join.isSome = true := hnamed _ hmem
    rw [hhas.hostname] at hname
    obtain ⟨hostname, heq⟩ := Option.isSome_iff_exists.mp hname
    have heq' : node.hostname = some hostname := heq
    rw [HostNode.spec, heq']
    rfl
  refine ⟨_, Collections.mapM_eq_map hsome, ?_⟩
  rw [List.map_map]
  exact h.labels.nodup_iff.mpr (nodup_hosts d)

/-- One file and the same hosts in another order give the same nodes, and every order of the steps
of the threads leaves the same pool. -/
theorem starts_alike (hnum : ∀ e ∈ hosts d, (number? e.1).isSome = true)
    (hnamed : ∀ e ∈ hosts d, Named e.2) (hdistinct : Distinct d)
    (hperm : d.items.Perm d'.items) :
    ∃ nodes specs, load (.mapping d) = .ok nodes ∧ load (.mapping d') = .ok nodes ∧
      Loaded d nodes ∧ nodes.mapM HostNode.spec = some specs ∧
      ∀ (hostname rockDir : Option String) (headroomGb : ℚ) (ends : NodeSpec → Detected)
        (steps : List (NodeSpec × DetectStep)), Interleaved hostname specs ends steps →
          Settled hostname specs ends (detecting specs rockDir headroomGb steps) := by
  have hready : Ready d := fun e he => ⟨hnum e he, complete_of_named (hnamed e he)⟩
  have hanswers := answers_load d
  cases hload : load (.mapping d) with
  | error err =>
    rw [hload] at hanswers
    exact absurd hready hanswers.1
  | ok nodes =>
    rw [hload] at hanswers
    obtain ⟨specs, hspecs, hlabels⟩ := specs_of_loaded hanswers.2 hnamed
    refine ⟨nodes, specs, rfl, ?_, hanswers.2, hspecs, ?_⟩
    · rw [load_perm hnum hdistinct hperm, hload]
    · intro hostname rockDir headroomGb ends steps h
      exact settled_of_interleaved hlabels h rockDir headroomGb

/-- Two hosts, the second of them first. -/
def exampleItems : List (String × HostEntry String) :=
  [("HOST_IDX_2", .mapping ⟨[("HOSTNAME", some "gpu-node-02"), ("USERNAME", none)], by decide⟩),
    ("default", .other "int"),
    ("HOST_IDX_01", .mapping ⟨[("HOSTNAME", some "localhost")], by decide⟩)]

theorem starts_alike_two : ∃ nodes specs,
    load (.mapping ⟨exampleItems, by decide⟩) = .ok nodes ∧
      load (.mapping ⟨exampleItems.reverse, by decide⟩) = .ok nodes ∧
      Loaded ⟨exampleItems, by decide⟩ nodes ∧ nodes.mapM HostNode.spec = some specs ∧
      ∀ (hostname rockDir : Option String) (headroomGb : ℚ) (ends : NodeSpec → Detected)
        (steps : List (NodeSpec × DetectStep)), Interleaved hostname specs ends steps →
          Settled hostname specs ends (detecting specs rockDir headroomGb steps) :=
  starts_alike (by decide) (by decide) (by decide) (List.reverse_perm _).symm

end HostConfigLoader
end PoolStart
end Plugins
end RocmTests
