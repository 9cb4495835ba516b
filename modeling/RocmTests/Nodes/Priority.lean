import RocmTests.Nodes.Exclusivity
import RocmTests.Nodes.PriorityWatch

/-!
# Do pinned waiters have priority?

`acquire_specific_slot` registers a request of count 1 so that `acquire_slot`
callers leave its GPU alone.  The registry keeps only the count, and the yield
test ignores a largest count of 1, so the registration has an effect only when
something else makes the test answer yes.
-/

namespace RocmTests
namespace Nodes
namespace Priority

open Conc Gpu Pool

/-! ## How the registry evolves -/

/-- The clock does not go back, request numbers are not used again, and an entry
is either an old one or new. -/
structure Evolves (os os' : OsState) : Prop where
  clock : os.clock ≤ os'.clock
  nextId : os.nextId ≤ os'.nextId
  pending : ∀ safe, ∀ x ∈ os'.pending safe,
    x ∈ os.pending safe ∨ os.nextId ≤ x.1 ∧ x.1 < os'.nextId

theorem Evolves.same {os os' : OsState} (hc : os'.clock = os.clock) (hn : os.nextId ≤ os'.nextId)
    (hp : os'.pending = os.pending) : Evolves os os' :=
  ⟨by rw [hc], hn, fun safe x hx => Or.inl (by rwa [hp] at hx)⟩

/-- Entries are dropped from one registry. -/
theorem Evolves.prune (os : OsState) (safe : String) (keep : Nat × Pending → Bool) :
    Evolves os { os with
      pending := Function.update os.pending safe ((os.pending safe).filter keep) } := by
  refine ⟨le_refl _, Nat.le_refl _, fun safe' x hx => Or.inl ?_⟩
  by_cases hs : safe' = safe
  · subst hs
    have hx' : x ∈ (os.pending safe').filter keep := by simpa using hx
    exact (List.mem_filter.mp hx').1
  · simpa [hs] using hx

theorem exec_evolves (pid : Nat) (o : OsOp) (ch : OsChoice) (os : OsState) :
    Evolves os (OsState.exec pid o ch os).2 := by
  cases o with
  | flock f =>
    cases hf : os.holder f with
    | some h =>
      rw [OsState.flock_held hf]
      exact Evolves.same rfl (Nat.le_refl _) rfl
    | none =>
      rw [OsState.flock_free hf]
      exact Evolves.same rfl (Nat.le_succ _) rfl
  | funlock f id =>
    show Evolves os (if os.holder f = some ⟨pid, id⟩ then _ else _)
    by_cases hf : os.holder f = some ⟨pid, id⟩
    · rw [if_pos hf]; exact Evolves.same rfl (Nat.le_refl _) rfl
    · rw [if_neg hf]; exact Evolves.same rfl (Nat.le_refl _) rfl
  | writeInfo f i => exact Evolves.same rfl (Nat.le_refl _) rfl
  | removeInfo f => exact Evolves.same rfl (Nat.le_refl _) rfl
  | readInfo f => exact Evolves.same rfl (Nat.le_refl _) rfl
  | pidExists q => exact Evolves.same rfl (Nat.le_refl _) rfl
  | monotonic =>
    refine ⟨?_, Nat.le_refl _, fun safe x hx => Or.inl hx⟩
    show os.clock ≤ os.clock + max 0 ch.elapsed
    have hpos : (0 : ℚ) ≤ max 0 ch.elapsed := le_max_left _ _
    exact le_add_of_nonneg_right hpos
  | addPending safe e =>
    show Evolves os (if ch.metaTimeout then _ else _)
    by_cases hc : ch.metaTimeout = true
    · rw [if_pos hc]; exact Evolves.same rfl (Nat.le_succ _) rfl
    · rw [if_neg hc]
      refine ⟨le_refl _, Nat.le_succ _, fun safe' x hx => ?_⟩
      by_cases hs : safe' = safe
      · subst hs
        have hx' : x ∈ os.pending safe' ++ [(os.nextId, e)] := by simpa using hx
        rcases List.mem_append.mp hx' with hold | hnew
        · exact Or.inl hold
        · rw [List.mem_singleton.mp hnew]
          exact Or.inr ⟨Nat.le_refl _, Nat.lt_succ_self _⟩
      · exact Or.inl (by simpa [hs] using hx)
  | dropPending safe req =>
    show Evolves os (if ch.metaTimeout then _ else _)
    by_cases hc : ch.metaTimeout = true
    · rw [if_pos hc]; exact Evolves.same rfl (Nat.le_refl _) rfl
    · rw [if_neg hc]; exact Evolves.prune os safe _
  | livePending safe now =>
    by_cases hc : ch.metaTimeout = true
    · have hsame : (OsState.exec pid (.livePending safe now) ch os).2 = os := by
        simp [OsState.exec, hc]
      rw [hsame]
      exact Evolves.same rfl (Nat.le_refl _) rfl
    · rw [OsState.livePending_read (by simpa using hc)]
      exact Evolves.prune os safe _

theorem pool_evolves {t : Nat × Nat} {o : PoolOp} {ch : PoolChoice} {s s' : PoolState}
    {b : o.Resp} (hexec : PoolState.exec t o ch s = some (b, s')) : Evolves s.os s'.os := by
  have hsame : s'.os = s.os → Evolves s.os s'.os := fun h => by
    rw [h]
    exact Evolves.same rfl (Nat.le_refl _) rfl
  cases o with
  | os o =>
    cases hexec
    exact exec_evolves t.1 o ch.os s.os
  | lockPool =>
    by_cases hfree : s.poolLock t.1 = none
    · simp only [PoolState.exec, hfree, if_true] at hexec
      cases hexec
      exact hsame rfl
    · simp only [PoolState.exec, hfree, if_false] at hexec
      cases hexec
  | allocate label v =>
    cases ha : (s.alloc (t.1, label)).allocate v with
    | error e => simp only [PoolState.exec, ha] at hexec; cases hexec; exact hsame rfl
    | ok x => simp only [PoolState.exec, ha] at hexec; cases hexec; exact hsame rfl
  | allocateSpecific label i =>
    cases ha : (s.alloc (t.1, label)).allocateSpecific i with
    | error e => simp only [PoolState.exec, ha] at hexec; cases hexec; exact hsame rfl
    | ok x => simp only [PoolState.exec, ha] at hexec; cases hexec; exact hsame rfl
  | deallocate label gpu retired =>
    cases retired with
    | none => cases hexec; exact hsame rfl
    | some slot => cases hexec; exact hsame rfl
  | unlockPool => cases hexec; exact hsame rfl
  | deliver path slots => cases hexec; exact hsame rfl
  | rest => cases hexec; exact hsame rfl
  | wake => cases hexec; exact hsame rfl
  | nextCall =>
    cases hcall : ch.call with
    | release slots =>
      by_cases hslots : s.Releasable t.1 slots
      · simp only [PoolState.exec, hcall, hslots, if_true] at hexec
        cases hexec
        exact hsame rfl
      · simp only [PoolState.exec, hcall, hslots, if_false] at hexec
        cases hexec
    | _ =>
      simp only [PoolState.exec, hcall] at hexec
      cases hexec
      exact hsame rfl

/-! ## No GPU is taken from a waiter -/

structure WatchInv (w : WatchState) (res : Nat × Nat → Watch) : Prop where
  clear : ∀ t safe, safe ∈ (res t).clear → ∀ x ∈ w.pool.os.pending safe, x.1 ∈ w.seen t safe →
    x.2.waitsFor.isSome = true → x.2.timeoutAt ≤ w.pool.os.clock
  duty : ∀ t, w.probe t = (res t).duty
  now : ∀ t b, (res t).now = some b → b ≤ w.pool.os.clock
  fresh : ∀ safe, ∀ x ∈ w.pool.os.pending safe, x.1 < w.pool.os.nextId
  old : ∀ t safe, ∀ id ∈ w.seen t safe, id < w.pool.os.nextId
  stolen : w.stolen = []

namespace WatchInv

variable {w : WatchState} {res : Nat × Nat → Watch} {t : Nat × Nat}

theorem start (T : Topology) (os : OsState) :
    WatchInv (watchStart T os).st fun _ => ⟨∅, none, none⟩ where
  clear _ _ h := absurd h (Set.notMem_empty _)
  duty _ := rfl
  now _ _ h := by cases h
  fresh _ _ h := by cases h
  old _ _ _ h := by cases h
  stolen := rfl

/-- The shared files move on; nobody has looked. -/
theorem evolve (h : WatchInv w res) {p : PoolState} (he : Evolves w.pool.os p.os) :
    WatchInv { w with pool := p } res where
  clear u safe hs x hx hseen hwaits := by
    rcases he.pending safe x hx with hold | ⟨hnew, _⟩
    · exact le_trans (h.clear u safe hs x hold hseen hwaits) he.clock
    · have hlt := h.old u safe x.1 hseen
      omega
  duty := h.duty
  now u b hb := le_trans (h.now u b hb) he.clock
  fresh safe x hx := by
    rcases he.pending safe x hx with hold | ⟨_, hnew⟩
    · exact lt_of_lt_of_le (h.fresh safe x hold) he.nextId
    · exact hnew
  old u safe id hid := lt_of_lt_of_le (h.old u safe id hid) he.nextId
  stolen := h.stolen

theorem probe_update (h : WatchInv w res) (r : Watch) (u : Nat × Nat) :
    Function.update w.probe t r.duty u = (Function.update res t r u).duty := by
  by_cases hu : u = t
  · subst hu
    rw [Function.update_self, Function.update_self]
  · rw [Function.update_of_ne hu, Function.update_of_ne hu]
    exact h.duty u

/-- Thread `t` changes what it knows and its probe record. -/
theorem set (h : WatchInv w res) {r : Watch} (hclear : r.clear = (res t).clear)
    (hnow : ∀ b, r.now = some b → b ≤ w.pool.os.clock) :
    WatchInv { w with probe := Function.update w.probe t r.duty } (Function.update res t r) where
  clear u safe hs := by
    by_cases hu : u = t
    · subst hu
      rw [Function.update_self, hclear] at hs
      exact h.clear u safe hs
    · rw [Function.update_of_ne hu] at hs
      exact h.clear u safe hs
  duty u := h.probe_update r u
  now u b hb := by
    by_cases hu : u = t
    · subst hu
      rw [Function.update_self] at hb
      exact hnow b hb
    · rw [Function.update_of_ne hu] at hb
      exact h.now u b hb
  fresh := h.fresh
  old := h.old
  stolen := h.stolen

theorem same (h : WatchInv w res) : WatchInv w (Function.update res t (res t)) := by
  rwa [Function.update_eq_self]

theorem probe_self (h : WatchInv w res) {r : Watch} (hduty : r.duty = (res t).duty) :
    Function.update w.probe t r.duty = w.probe := by
  rw [hduty, ← h.duty t, Function.update_eq_self]

theorem no_pinned {now : ℚ} {entries : List (Nat × Pending)} (h : pinnedLive now entries = [])
    {x : Nat × Pending} (hx : x ∈ entries) (hwaits : x.2.waitsFor.isSome = true) :
    x.2.timeoutAt ≤ now := by
  by_contra hlt
  have hin : x ∈ pinnedLive now entries := by
    simp only [pinnedLive, OsState.liveAt, List.mem_filter, decide_eq_true_eq]
    exact ⟨⟨hx, not_le.mp hlt⟩, hwaits⟩
  rw [h] at hin
  cases hin

/-- A look at a registry.  The thread may count it as clear when the pinned
waiters there have all expired. -/
theorem look (h : WatchInv w res) {safe : String} {C : Set String} (d : Option (Int × Nat))
    (hsub : C ⊆ insert safe (res t).clear)
    (hsafe : safe ∈ C → ∀ x ∈ w.pool.os.pending safe, x.2.waitsFor.isSome = true →
      x.2.timeoutAt ≤ w.pool.os.clock) :
    WatchInv { w with
        seen := Function.update w.seen t
          (Function.update (w.seen t) safe ((w.pool.os.pending safe).map (·.1)))
        probe := Function.update w.probe t d }
      (Function.update res t { res t with clear := C, duty := d }) where
  clear u safe' hs x hx hseen hwaits := by
    by_cases hu : u = t
    · subst hu
      rw [Function.update_self] at hs
      by_cases hsame : safe' = safe
      · subst hsame
        exact hsafe hs x hx hwaits
      · have hold : safe' ∈ (res u).clear := Set.mem_of_mem_insert_of_ne (hsub hs) hsame
        exact h.clear u safe' hold x hx (by simpa [hsame] using hseen) hwaits
    · rw [Function.update_of_ne hu] at hs
      exact h.clear u safe' hs x hx (by simpa [hu] using hseen) hwaits
  duty u := h.probe_update { res t with clear := C, duty := d } u
  now u b hb := by
    by_cases hu : u = t
    · subst hu
      rw [Function.update_self] at hb
      exact h.now u b hb
    · rw [Function.update_of_ne hu] at hb
      exact h.now u b hb
  fresh := h.fresh
  old u safe' id hid := by
    by_cases hu : u = t
    · subst hu
      by_cases hsame : safe' = safe
      · subst hsame
        have hid' : id ∈ (w.pool.os.pending safe').map (·.1) := by simpa using hid
        obtain ⟨x, hx, rfl⟩ := List.mem_map.mp hid'
        exact h.fresh safe' x hx
      · exact h.old u safe' id (by simpa [hsame] using hid)
    · exact h.old u safe' id (by simpa [hu] using hid)
  stolen := h.stolen

/-- A thread that only saw expired waiters takes nothing from one. -/
theorem not_steals (h : WatchInv w res) {slot : NodeSlot}
    (hclear : safeLabel slot.nodeSpec.label ∈ (res t).clear) : ¬ Steals w t slot := by
  rintro ⟨x, hx, hseen, hwaits, hlive⟩
  have hle := h.clear t _ hclear x hx hseen (by rw [hwaits]; rfl)
  exact absurd hlive (not_lt.mpr hle)

theorem look_ok (h : WatchInv w res) {T : Topology} {safe : String} {now : ℚ}
    (hnow : (res t).now = some now) {ch : PoolChoice} {p : PoolState} {b : Option (List Int)}
    (hheed : heeded T t (.os (.livePending safe now)) ch w = true)
    (hexec : PoolState.exec t (.os (.livePending safe now)) ch w.pool = some (b, p)) :
    ∃ r, Looked T safe (res t) b r ∧
      WatchInv { record t (.os (.livePending safe now)) w with pool := p }
        (Function.update res t r) := by
  have he := pool_evolves hexec
  by_cases hpinned : pinnedLive now (w.pool.os.pending safe) = []
  · refine ⟨_, Or.inl rfl, ?_⟩
    have hlook := h.look (t := t) none (subset_refl (insert safe (res t).clear))
      fun _ x hx hwaits => le_trans (no_pinned hpinned hx hwaits) (h.now t now hnow)
    have hrec := hlook.evolve he
    simpa only [record, hpinned, if_true] using hrec
  · simp only [heeded, hpinned, decide_false, Bool.false_or, Bool.and_eq_true,
      Bool.not_eq_true', decide_eq_true_eq, List.all_eq_true, Bool.or_eq_true] at hheed
    obtain ⟨⟨hmeta, htwo⟩, hfit⟩ := hheed
    have hb : b = some ((OsState.liveAt now (w.pool.os.pending safe)).map (·.2.count)) := by
      have hread : OsState.exec t.1 (.livePending safe now) ch.os w.pool.os = _ :=
        OsState.livePending_read hmeta
      have hpair : (OsState.exec t.1 (.livePending safe now) ch.os w.pool.os).1 = b :=
        congrArg Prod.fst (Option.some.inj hexec)
      rw [hread] at hpair
      exact hpair.symm
    refine ⟨_, Or.inr ⟨_, hb, htwo, fun spec hspec hsame => ?_, rfl⟩, ?_⟩
    · rcases hfit spec hspec with hne | hle
      · exact absurd hsame hne
      · exact hle
    · have hsub : (res t).clear \ {safe} ⊆ insert safe (res t).clear :=
        Set.sdiff_subset.trans (Set.subset_insert _ _)
      have hlook := h.look (t := t)
        (some (maxLive now (w.pool.os.pending safe), 0)) hsub fun hin => absurd rfl hin.2
      have hrec := hlook.evolve he
      simpa only [record, hpinned, if_false, maxLive] using hrec

theorem flock_ok (h : WatchInv w res) {T : Topology} {f : LockFile} {ch : PoolChoice}
    {p : PoolState} {b : Option Nat} (hheed : heeded T t (.os (.flock f)) ch w = true)
    (hexec : PoolState.exec t (.os (.flock f)) ch w.pool = some (b, p)) :
    ∃ r, Probed (res t) b r ∧
      WatchInv { record t (.os (.flock f)) w with pool := p } (Function.update res t r) := by
  have he := pool_evolves hexec
  have hpair : (OsState.exec t.1 (.flock f) ch.os w.pool.os).1 = b :=
    congrArg Prod.fst (Option.some.inj hexec)
  have hduty := h.duty t
  cases hd : (res t).duty with
  | none =>
    rw [hd] at hduty
    refine ⟨res t, by rw [Probed, hd], ?_⟩
    have hrec : record t (.os (.flock f)) w = w := by
      simp only [record, hduty, Option.map_none]
      rw [← hduty, Function.update_eq_self]
    rw [hrec]
    exact (h.evolve he).same
  | some d =>
    obtain ⟨m, k⟩ := d
    rw [hd] at hduty
    simp only [heeded, hduty, Bool.or_eq_true, decide_eq_true_eq] at hheed
    cases hf : w.pool.os.holder f with
    | some holder =>
      rw [OsState.flock_held hf] at hpair
      refine ⟨res t, ?_, ?_⟩
      · rw [Probed, hd]
        exact Or.inl ⟨hpair.symm, rfl⟩
      · have hrec : record t (.os (.flock f)) w = w := by
          simp only [record, hduty, hf, Option.map_some, reduceCtorEq, if_false]
          rw [← hduty, Function.update_eq_self]
        rw [hrec]
        exact (h.evolve he).same
    | none =>
      have hlt : (k : Int) < m := by
        rcases hheed with hheld | hlt
        · rw [hf] at hheld; cases hheld
        · exact hlt
      refine ⟨{ res t with duty := some (m, k + 1) }, ?_, ?_⟩
      · rw [Probed, hd]
        exact Or.inr ⟨hlt, rfl⟩
      · have hset := h.set (t := t) (r := { res t with duty := some (m, k + 1) }) rfl
          fun b hb => h.now t b hb
        have hrec := hset.evolve he
        simpa [record, hduty, hf] using hrec

theorem act_ok (h : WatchInv w res) {T : Topology} {o : PoolOp}
    (hpre : (watchActions T).pre o (res t)) {ch : PoolChoice} {b : o.Resp} {w' : WatchState}
    (hheed : heeded T t o ch w = true) (hexec : watchExec t o ch w = some (b, w')) :
    ∃ r, (watchActions T).post o (res t) b r ∧ WatchInv w' (Function.update res t r) := by
  obtain ⟨⟨b', p⟩, hpool, heq⟩ := Option.map_eq_some_iff.mp hexec
  cases heq
  have he := pool_evolves hpool
  have hframe : WatchInv { w with pool := p } (Function.update res t (res t)) :=
    (h.evolve he).same
  cases o with
  | os o =>
    cases o with
    | livePending safe now => exact h.look_ok hpre hheed hpool
    | flock f => exact h.flock_ok hheed hpool
    | monotonic =>
      refine ⟨_, rfl, ?_⟩
      have hread : p.os.clock = b' := by
        cases hpool
        rfl
      have hset := (h.evolve he).set (t := t) (r := { res t with now := some b' }) rfl
        fun b hb => by rw [← Option.some.inj hb]; exact le_of_eq hread.symm
      rwa [(h.evolve he).probe_self rfl] at hset
    | funlock f id => exact ⟨_, rfl, hframe⟩
    | writeInfo f i => exact ⟨_, rfl, hframe⟩
    | removeInfo f => exact ⟨_, rfl, hframe⟩
    | readInfo f => exact ⟨_, rfl, hframe⟩
    | pidExists q => exact ⟨_, rfl, hframe⟩
    | addPending safe e => exact ⟨_, rfl, hframe⟩
    | dropPending safe req => exact ⟨_, rfl, hframe⟩
  | lockPool =>
    refine ⟨_, rfl, ?_⟩
    exact (h.set (t := t) (r := { res t with duty := none }) rfl fun b hb => h.now t b hb).evolve he
  | deliver path slots =>
    cases path with
    | slot =>
      refine ⟨_, rfl, ?_⟩
      have hnone : slots.filter (fun slot => decide (Steals w t slot)) = [] := by
        refine List.filter_eq_nil_iff.mpr fun slot hs => ?_
        simpa using h.not_steals (hpre slot hs)
      have hrec : record t (.deliver .slot slots) w = w := by
        simp only [record, hnone, List.append_nil]
      rw [hrec]
      exact hframe
    | slots => exact ⟨_, rfl, hframe⟩
    | specificSlot => exact ⟨_, rfl, hframe⟩
    | specificSlots => exact ⟨_, rfl, hframe⟩
  | unlockPool => exact ⟨_, rfl, hframe⟩
  | allocate label v => exact ⟨_, rfl, hframe⟩
  | allocateSpecific label i => exact ⟨_, rfl, hframe⟩
  | deallocate label gpu retired => exact ⟨_, rfl, hframe⟩
  | rest => exact ⟨_, rfl, hframe⟩
  | wake => exact ⟨_, rfl, hframe⟩
  | nextCall => exact ⟨_, rfl, hframe⟩

/-- A death leaves the registry and the clock as they are. -/
theorem die (h : WatchInv w res) (T : Topology) (pid : Nat) :
    WatchInv { w with pool := w.pool.die T pid } res :=
  h.evolve (Evolves.same rfl (Nat.le_refl _) rfl)

end WatchInv

def heededOwnership (T : Topology) : Ownership (heededPools T) where
  R := Watch
  actions _ := watchActions T
  Inv := WatchInv
  act_ok hinv hpre hexec := by
    obtain ⟨hheed, hexec⟩ := System.guarded_exec hexec
    exact WatchInv.act_ok hinv hpre hheed hexec
  fault_ok {_ res} pid hinv := ⟨res, fun _ _ => rfl, WatchInv.die hinv T pid⟩

/-- In every run in which the yield test is given reason to answer yes, no caller
of `acquire_slot` takes a GPU from a pinned waiter it has seen. -/
theorem heeded_none_stolen (T : Topology) (os : OsState) (c : (heededPools T).Config)
    (hreach : System.Reachable ((watchStart T os).under (heeded T)) c) : c.st.stolen = [] := by
  have hstart : (heededOwnership T).Holds ((watchStart T os).under (heeded T)) :=
    ⟨fun _ => ⟨∅, none, none⟩, WatchInv.start T os, fun t => worker_watch T t.1 _⟩
  obtain ⟨res, hinv, _⟩ := Ownership.reachable hstart hreach
  exact WatchInv.stolen hinv

/-- `n` steps of process `p`, whose calls are all `call`. -/
def steps (p n : Nat) (call : Call) : List ((Nat × Nat) × PoolChoice) :=
  List.replicate n ((p, 0), { call := call })

/-- Process 1 waits for GPU 0, process 2 for two GPUs, and process 3 then yields. -/
def yieldSteps : List ((Nat × Nat) × PoolChoice) :=
  steps 1 4 (.acquireSpecificSlot 0 60 "pinned") ++ steps 2 4 (.acquireSlots 2 none 0 60 "two") ++
    steps 3 12 (.acquireSlot 0 60 "one")

def yieldSchedule : List (heededPools twoGpus).Event := yieldSteps.map fun x => .run x.1 x.2

theorem yield_run :
    ((System.run ((watchStart twoGpus OsState.start).under (heeded twoGpus)) yieldSchedule).map
      fun c => (c.st.seen (3, 0) "localhost", c.st.pool.resting (3, 0))) =
        some ([0, 1], true) := by
  decide +kernel

theorem heeded_none_stolen_yield :
    ∃ c : (heededPools twoGpus).Config, c.st.seen (3, 0) "localhost" = [0, 1] ∧
      c.st.stolen = [] := by
  obtain ⟨c, hc, hst⟩ := Option.map_eq_some_iff.mp yield_run
  refine ⟨c, congrArg Prod.fst hst, ?_⟩
  exact heeded_none_stolen twoGpus OsState.start c ⟨yieldSchedule, hc⟩

/-- Process 1 waits for GPU 0; process 2 runs the yield test and takes it. -/
def theftSchedule : List (watched twoGpus).Event :=
  (steps 1 4 (.acquireSpecificSlot 0 60 "pinned") ++ steps 2 12 (.acquireSlot 0 60 "one")).map
    fun x => .run x.1 x.2

theorem theft_run :
    ((System.run (watchStart twoGpus OsState.start) theftSchedule).map
      fun c => c.st.stolen.map NodeSlot.key) = some [("localhost", 0)] := by
  decide +kernel

theorem pinned_waiter_robbed :
    ∃ c, System.Reachable (watchStart twoGpus OsState.start) c ∧ c.st.stolen ≠ [] := by
  obtain ⟨c, hc, hst⟩ := Option.map_eq_some_iff.mp theft_run
  refine ⟨c, ⟨theftSchedule, hc⟩, fun hnone => ?_⟩
  rw [hnone] at hst
  cases hst

end Priority
end Nodes
end RocmTests
