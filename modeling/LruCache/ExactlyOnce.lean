import LruCache.ReplayHandles

/-!
# Every commit reaches `storage_` once

The calls made on `storage_` over a run: a commit outside a snapshot is one call, and `end_snapshot`
makes one call for each event. `Traced` keeps them beside the state. In order they are the commits
issued, without those that returned `false` during a snapshot.

What has been issued is what has been applied, followed by what the events stand for. An event holds
a pointer to a key, not the key. The pointer leads to the key that the caller named or to nothing:
the element that an entry designates points back to the entry, an entry keeps its key, and no
address is used twice.
-/

namespace LruCache

open NodeList

/-! ## Pointers back to the entries -/

/-- The element that a link designates points to the key of its entry. -/
structure Backlinked (s : Containers) : Prop extends Linked s where
  back : ∀ l ∈ s.links, ∀ it, get? s.items l.item = some it → it.key = some l.entry

/-- The address has been used, and an entry there has the key. -/
structure Names (s : Containers) (a : Addr) (key : Key) : Prop where
  lt : a < s.nextAddr
  key_eq : ∀ n ∈ s.itemMap, n.addr = a → n.val.key = key

/-- An address goes on naming its key. -/
theorem Names.descends {s s' : Containers} {a : Addr} {key : Key} (h : Names s a key)
    (hd : Descends s s') : Names s' a key := by
  refine ⟨Nat.lt_of_lt_of_le h.lt hd.le, fun n hn ha => ?_⟩
  obtain ⟨o, ho, hoa, hk⟩ := hd.entries n hn (ha ▸ h.lt)
  exact hk ▸ h.key_eq o ho (hoa.trans ha)

theorem Names.derefKey {s : Containers} {a : Addr} {key k : Key} (h : Names s a key)
    (hk : s.derefKey (some a) = .ok k) : k = key := by
  obtain ⟨e, he, hk⟩ := Run.bind_eq_ok.mp hk
  cases hk
  exact h.key_eq _ (mem_of_get? (deref_eq_ok.mp he)) rfl

theorem Linked.names {s : Containers} (h : Linked s) {l : Link} (hl : l ∈ s.links) :
    Names s l.entry l.key := by
  refine ⟨(h.lt l hl).1, fun n hn ha => ?_⟩
  have heq : linkOf n = l :=
    List.inj_on_of_nodup_map h.entries_nodup (List.mem_map_of_mem hn) hl ha
  exact congrArg Link.key heq

namespace Backlinked

variable {cfg : CacheConfig} {s s' : Containers} {key : Key} {item : CacheItem} {w : Int64}
  {a : Addr} {it : Option Addr}

theorem empty : Backlinked Containers.empty :=
  ⟨Linked.empty, fun _ hl => nomatch hl⟩

theorem clear (s : Containers) : Backlinked s.clear :=
  ⟨Linked.clear s, fun _ hl => nomatch hl⟩

/-- Links that stay, whose elements keep their key pointers. -/
theorem of_kept (h : Backlinked s) (h' : Linked s')
    (hl : ∀ l ∈ s'.links, l ∈ s.links ∧ ∀ it', get? s'.items l.item = some it' →
      ∃ it, get? s.items l.item = some it ∧ it'.key = it.key) : Backlinked s' := by
  refine ⟨h', fun l hm it' hit' => ?_⟩
  obtain ⟨hm, hkept⟩ := hl l hm
  obtain ⟨it, hit, hk⟩ := hkept it' hit'
  exact hk.trans (h.back l hm it hit)

theorem markAsRecentlyUsed (h : Backlinked s) (key : Key) :
    Backlinked (s.markAsRecentlyUsed key) := by
  refine h.of_kept (h.toLinked.markAsRecentlyUsed key).1 ?_
  unfold Containers.markAsRecentlyUsed
  split
  · exact fun l hl => ⟨hl, fun it hit => ⟨it, hit, rfl⟩⟩
  · refine fun l hl => ⟨hl, fun it hit => ⟨it, ?_, rfl⟩⟩
    rw [get?_moveFront] at hit
    exact hit

theorem removeItem (h : Backlinked s) (hs : s.removeItem key = .ok (it, s')) :
    Backlinked s' := by
  obtain ⟨-, hsub, hget⟩ := h.toLinked.removeItem_links hs
  exact h.of_kept (h.toLinked.removeItem hs).1 fun l hl =>
    ⟨hsub.subset hl, fun it' hit' => ⟨it', hget l hl ▸ hit', rfl⟩⟩

/-- The element that is stored under a key points to the entry of the key. -/
theorem store (h : Backlinked s) (hs : s.store cfg key item w = .ok (a, s')) :
    Backlinked s' ∧ ∃ it p, get? s'.items a = some it ∧ it.key = some p ∧ Names s' p key := by
  have h' := (h.toLinked.store hs).1
  obtain ⟨found, -, hs⟩ := Run.bind_eq_ok.mp hs
  cases found with
  | some _ =>
    obtain ⟨-, hlinks, l, hl, rfl, rfl, old, hold, hget⟩ := h.toLinked.updateItem_links hs
    refine ⟨h.of_kept h' fun x hx => ⟨hlinks ▸ hx, fun it' hit' => ?_⟩, _, l.entry,
      (hget l.item).trans (if_pos rfl), h.back l hl old hold, h'.names (hlinks ▸ hl)⟩
    rw [hget] at hit'
    split at hit'
    · next hi =>
      cases hit'
      exact ⟨old, hi ▸ hold, rfl⟩
    · exact ⟨it', hit', rfl⟩
  | none =>
    obtain ⟨rfl, -, hget, e, hfront, ⟨hlinks, l, hl, rfl, rfl⟩ | ⟨hlinks, -, -, -⟩⟩ :=
      h.toLinked.insertItem_links hs
    · refine ⟨h.of_kept h' fun x hx => ⟨hlinks ▸ hx, fun it' hit' => ⟨it', ?_, rfl⟩⟩, _, l.entry,
        hfront, rfl, h'.names (hlinks ▸ hl)⟩
      rw [← hget x (hlinks ▸ hx)]
      exact hit'
    · have hnew : (⟨e, key, s.nextAddr⟩ : Link) ∈ s'.links := hlinks ▸ List.mem_cons_self
      refine ⟨⟨h', fun x hx it' hit' => ?_⟩, _, e, hfront, rfl, h'.names hnew⟩
      rw [hlinks] at hx
      rcases List.mem_cons.mp hx with rfl | hx
      · cases hfront.symm.trans hit'
        rfl
      · exact h.back x hx it' ((hget x hx).symm.trans hit')

theorem step {s s' : CacheStorage} {op : StorageOp} {b : Option Bool}
    (h : Backlinked s.toContainers) (hs : s.step cfg op = .ok (b, s')) :
    Backlinked s'.toContainers :=
  CacheStorage.step_induct (fun hu => hu.markAsRecentlyUsed _) removeItem
    (fun _ _ hu hstore => (hu.store hstore).1) (fun {u} _ => clear u) h hs

/-- The item that a lookup finds points to the entry of the key. -/
theorem getItem (h : Backlinked s) {n : Node CacheItem}
    (hs : s.getItem key w = .ok (some n)) : ∃ p, n.val.key = some p ∧ Names s p key := by
  unfold Containers.getItem at hs
  split at hs
  · cases hs
  · next m hf =>
    obtain ⟨it, hit, hs⟩ := Run.bind_eq_ok.mp hs
    split at hs
    · cases hs
    · cases hs
      obtain ⟨hm, rfl⟩ := Linked.findEntry_eq_some hf
      exact ⟨m.addr, h.back _ hm it (deref_eq_ok.mp hit), h.toLinked.names hm⟩

end Backlinked

/-! ## The calls of a run -/

/-- A call made on `storage_`: what it does, the key it names and its timestamp. -/
inductive StorageCall
  | read (key : Key) (readAt : Int64)
  | write (key : Key) (writtenAt : Int64)
  | purge (purgedAt : Int64)
deriving DecidableEq, Repr

/-- The commit that an operation of `storage_` is. -/
def StorageOp.call? : StorageOp → Option StorageCall
  | .commitRead key readAt => some (.read key readAt)
  | .commitWrite key _ writtenAt => some (.write key writtenAt)
  | .commitPurge purgedAt => some (.purge purgedAt)
  | .evictLruData _ _ => none
  | .clear => none

/-- The commit that a call of `cache_state` issues. -/
def CacheOp.call? (op : CacheOp) : Option StorageCall := op.storageOp?.bind StorageOp.call?

/-- The calls that the loop of `end_snapshot` makes on `storage_`. -/
def replayCalls (cfg : CacheConfig) (overlay : Containers) :
    CacheStorage → List SnapshotEvent → Except Fault (List StorageOp)
  | _, [] => return []
  | storage, event :: events => do
    let op ← eventOp overlay storage.toContainers event
    let storage ← replayEvent cfg overlay storage event
    return op :: (← replayCalls cfg overlay storage events)

/-- The calls that a call of `cache_state` makes on `storage_`. -/
def CacheState.callsOf (cfg : CacheConfig) (st : CacheState) :
    CacheOp → Except Fault (List StorageOp)
  | .beginSnapshot => return []
  | .endSnapshot =>
    replayCalls cfg st.snapshotStorage.toContainers st.storage st.snapshotStorage.events
  | op => return if st.snapshotInProgress then [] else op.storageOp?.toList

/-- A state, with the calls made on `storage_` so far. -/
structure Traced where
  state : CacheState
  applied : List StorageOp
deriving DecidableEq, Repr

namespace Traced

/-- A new `cache_state`. -/
def new : Traced := ⟨.new, []⟩

/-- One call, recorded. -/
def step (cfg : CacheConfig) (t : Traced) (op : CacheOp) : Except Fault (Option Bool × Traced) := do
  let calls ← t.state.callsOf cfg op
  let (a, st) ← t.state.step cfg op
  return (a, ⟨st, t.applied ++ calls⟩)

/-- A sequence of calls, recorded. -/
def run (cfg : CacheConfig) (t : Traced) (ops : List CacheOp) :
    Except Fault (List (Option Bool) × Traced) :=
  Run.run (step cfg) t ops

end Traced

/-- The commits issued so far, except those that returned `false` during a snapshot. -/
structure Issued where
  inProgress : Bool
  calls : List StorageCall
deriving DecidableEq, Repr

/-- Note a call and its answer. -/
def Issued.note (g : Issued) : CacheOp × Option Bool → Issued
  | (.beginSnapshot, _) => { g with inProgress := true }
  | (.endSnapshot, _) => { g with inProgress := false }
  | (op, answer) =>
    if g.inProgress = true ∧ answer = some false then g
    else { g with calls := g.calls ++ op.call?.toList }

/-- The commits issued by a run, except those that returned `false` during a snapshot. -/
def issuedCalls (ops : List CacheOp) (answers : List (Option Bool)) : List StorageCall :=
  ((ops.zip answers).foldl Issued.note ⟨false, []⟩).calls

/-! ## What an event stands for -/

/-- The event replays the call: its key pointer names the key of the call. -/
inductive StandsFor (overlay storage : Containers) : SnapshotEvent → StorageCall → Prop
  | read {owner : Owner} {a : Addr} {item : Option Ref} {e t : Int64} {key : Key} :
      Names (owner.of overlay storage) a key →
      StandsFor overlay storage ⟨.read, some ⟨owner, a⟩, item, e, t⟩ (.read key t)
  | write {a : Addr} {item : Option Ref} {e t : Int64} {key : Key} :
      Names overlay a key →
      StandsFor overlay storage ⟨.write, some ⟨.overlay, a⟩, item, e, t⟩ (.write key t)
  | purge {t : Int64} : StandsFor overlay storage ⟨.purge, none, none, 0, t⟩ (.purge t)

namespace StandsFor

variable {overlay overlay' storage storage' : Containers} {event : SnapshotEvent}
  {call : StorageCall}

/-- It goes on standing for the call while the storages change. -/
theorem descends (h : StandsFor overlay storage event call) (ho : Descends overlay overlay')
    (hs : Descends storage storage') : StandsFor overlay' storage' event call := by
  cases h with
  | @read owner a item e t key hname =>
    refine .read ?_
    cases owner with
    | overlay => exact Names.descends hname ho
    | frozen => exact Names.descends hname hs
  | write hname => exact .write (hname.descends ho)
  | purge => exact .purge

/-- Whatever the item, the operation that the event stands for is the call. -/
theorem eventOp (h : StandsFor overlay storage event call) {op : StorageOp}
    (hop : LruCache.eventOp overlay storage event = .ok op) : op.call? = some call := by
  cases h with
  | @read owner a item e t key hname =>
    obtain ⟨k, hk, hop⟩ := Run.bind_eq_ok.mp hop
    cases hop
    have hkey : k = key := by
      cases owner with
      | overlay => exact Names.derefKey hname hk
      | frozen => exact Names.derefKey hname hk
    rw [hkey]
    rfl
  | write hname =>
    obtain ⟨k, hk, hop⟩ := Run.bind_eq_ok.mp hop
    obtain ⟨it, -, hop⟩ := Run.bind_eq_ok.mp hop
    cases hop
    rw [hname.derefKey hk]
    rfl
  | purge =>
    cases hop
    rfl

end StandsFor

section Replay

variable {cfg : CacheConfig} {overlay : Containers} {s s' : CacheStorage}
  {events : List SnapshotEvent} {ops : List StorageOp}

/-- A replay that returns is a run of `storage_` over the calls it makes. -/
theorem replay_run (hs : replay cfg overlay s events = .ok s') :
    ∃ ops answers, replayCalls cfg overlay s events = .ok ops ∧
      CacheStorage.run cfg s ops = .ok (answers, s') := by
  induction events generalizing s with
  | nil =>
    cases hs
    exact ⟨[], [], rfl, rfl⟩
  | cons event events ih =>
    obtain ⟨s₁, hevent, hs⟩ := Run.bind_eq_ok.mp hs
    obtain ⟨ops, answers, hops, hrun⟩ := ih hs
    have hcall := hevent
    rw [replayEvent_eq] at hcall
    obtain ⟨op, hop, hcall⟩ := Run.bind_eq_ok.mp hcall
    obtain ⟨⟨a, s₂⟩, hstep, hcall⟩ := Run.bind_eq_ok.mp hcall
    cases hcall
    refine ⟨op :: ops, a :: answers, ?_, Run.run_cons.mpr ⟨a, s₂, answers, hstep, hrun, rfl⟩⟩
    exact Run.bind_eq_ok.mpr ⟨op, hop, Run.bind_eq_ok.mpr ⟨s₂, hevent,
      Run.bind_eq_ok.mpr ⟨ops, hops, rfl⟩⟩⟩

/-- The calls of a replay are those that the events stand for. -/
theorem replayCalls_eq {calls : List StorageCall}
    (h : List.Forall₂ (StandsFor overlay s.toContainers) events calls)
    (hs : replayCalls cfg overlay s events = .ok ops) :
    ops.map StorageOp.call? = calls.map some := by
  induction events generalizing s calls ops with
  | nil =>
    cases h
    cases hs
    rfl
  | cons event events ih =>
    obtain ⟨op, hop, hs⟩ := Run.bind_eq_ok.mp hs
    obtain ⟨s₁, hevent, hs⟩ := Run.bind_eq_ok.mp hs
    obtain ⟨ops', hops, hs⟩ := Run.bind_eq_ok.mp hs
    cases hs
    cases h with
    | cons hcall hrest =>
      rw [replayEvent_eq] at hevent
      obtain ⟨op', -, hevent⟩ := Run.bind_eq_ok.mp hevent
      obtain ⟨⟨a, s₂⟩, hstep, hevent⟩ := Run.bind_eq_ok.mp hevent
      cases hevent
      have hd := Descends.step hstep
      rw [List.map_cons, List.map_cons, hcall.eventOp hop,
        ih (hrest.imp fun _ _ hc => hc.descends (.refl _) hd) hops]

end Replay

/-! ## The commits of a snapshot -/

namespace SnapshotStorage

variable {cfg : CacheConfig} {frozen : Containers} {s s' : SnapshotStorage} {key : Key}
  {item : CacheItem} {w : Int64}

/-- What a lookup finds points to the entry of the key, in the storage that answered. -/
theorem getItem_names (ho : Backlinked s.toContainers) (hf : Backlinked frozen) {found : Found}
    (hs : s.getItem frozen key w = .ok (some found)) :
    ∃ p, found.node.val.key = some p ∧ Names (found.owner.of s.toContainers frozen) p key := by
  obtain ⟨own, hown, hs⟩ := Run.bind_eq_ok.mp hs
  cases own with
  | some n =>
    cases hs
    exact ho.getItem hown
  | none =>
    obtain ⟨froz, hfroz, hs⟩ := Run.bind_eq_ok.mp hs
    cases froz with
    | none => cases hs
    | some n =>
      cases hs
      exact hf.getItem hfroz

/-- A write records one event, with a pointer to the key it names. -/
theorem writeAccepted_names (ho : Backlinked s.toContainers)
    (hs : writeAccepted (virtuals cfg frozen) s key item w = .ok s') :
    Backlinked s'.toContainers ∧ Descends s.toContainers s'.toContainers ∧
      ∃ event, s'.events = s.events ++ [event] ∧
        StandsFor s'.toContainers frozen event (.write key w) := by
  obtain ⟨m, c, -, a, c', -, hevict, -, hstore, hrecord⟩ := writeAccepted_eq_ok_iff.mp hs
  obtain ⟨stored, hstored, rfl⟩ := recordWrite_eq_ok.mp hrecord
  have hc : Backlinked c ∧ Descends s.toContainers c :=
    Containers.evictLruData_induct (I := fun u => Backlinked u ∧ Descends s.toContainers u)
      (fun hu hremove => ⟨hu.1.removeItem hremove, hu.2.removeItem hremove⟩) ⟨ho, .refl _⟩ hevict
  obtain ⟨hc', it, p, hit, hp, hname⟩ := hc.1.store hstore
  obtain rfl : stored = it := Option.some.inj ((deref_eq_ok.mp hstored).symm.trans hit)
  refine ⟨hc', hc.2.trans (.store hstore), _, rfl, ?_⟩
  unfold SnapshotEvent.of
  rw [hp]
  exact .write hname

end SnapshotStorage

/-- A commit during a snapshot returns `false` and records nothing, or records one event that stands
for it. -/
theorem CacheState.SnapshotStep.records {cfg : CacheConfig} {st st' : CacheState} {op : CacheOp}
    {a : Option Bool} (h : CacheState.SnapshotStep cfg st op a st')
    (ho : Backlinked st.snapshotStorage.toContainers) (hf : Backlinked st.storage.toContainers) :
    Backlinked st'.snapshotStorage.toContainers ∧
      Descends st.snapshotStorage.toContainers st'.snapshotStorage.toContainers ∧
      ((a = some false ∧ st'.snapshotStorage.events = st.snapshotStorage.events) ∨
        (a ≠ some false ∧ ∃ event call, op.call? = some call ∧
          st'.snapshotStorage.events = st.snapshotStorage.events ++ [event] ∧
          StandsFor st'.snapshotStorage.toContainers st.storage.toContainers event call)) := by
  cases h with
  | @read key t b s hread =>
    obtain ⟨found, hfound, rfl, hsame, hevents⟩ := SnapshotStorage.commitRead_eq_ok hread
    rw [hsame]
    refine ⟨ho, .refl _, ?_⟩
    cases found with
    | none => exact .inl ⟨rfl, hevents.trans (List.append_nil _)⟩
    | some f =>
      obtain ⟨p, hp, hname⟩ := SnapshotStorage.getItem_names ho hf hfound
      refine .inr ⟨(fun hb => nomatch hb), SnapshotEvent.of .read f 0 t, _, rfl, hevents, ?_⟩
      unfold SnapshotEvent.of
      rw [hp]
      exact .read hname
  | @write key item t b s hwrite =>
    obtain ⟨code, -, rfl, rfl⟩ | ⟨-, rfl, u, hu, rfl⟩ := LruCache.commitWrite_eq_ok.mp hwrite
    · exact ⟨ho, .refl _, .inl ⟨rfl, rfl⟩⟩
    · obtain ⟨ho', hd, event, hevents, hstands⟩ := SnapshotStorage.writeAccepted_names ho hu
      exact ⟨ho', hd, .inr ⟨by decide, event, _, rfl, hevents, hstands⟩⟩
  | @purge t => exact ⟨ho, .refl _, .inr ⟨by decide, _, _, rfl, rfl, .purge⟩⟩

/-! ## In order -/

/-- Between two calls: what has been issued is what has been applied, followed by what the events
stand for. -/
structure InOrder (cfg : CacheConfig) (g : Issued) (t : Traced) : Prop where
  inProgress : g.inProgress = t.state.snapshotInProgress
  clean : t.state.snapshotInProgress = false → t.state.snapshotStorage.Clean
  storage : Backlinked t.state.storage.toContainers
  overlay : Backlinked t.state.snapshotStorage.toContainers
  applied : ∃ answers, CacheStorage.run cfg .new t.applied = .ok (answers, t.state.storage)
  pending : ∃ calls, List.Forall₂ (StandsFor t.state.snapshotStorage.toContainers
      t.state.storage.toContainers) t.state.snapshotStorage.events calls ∧
    g.calls.map some = t.applied.map StorageOp.call? ++ calls.map some

namespace InOrder

variable {cfg : CacheConfig} {g : Issued} {t : Traced} {op : CacheOp} {a : Option Bool}

theorem new : InOrder cfg ⟨false, []⟩ .new where
  inProgress := rfl
  clean := fun _ => ⟨rfl, rfl⟩
  storage := .empty
  overlay := .empty
  applied := ⟨[], rfl⟩
  pending := ⟨[], .nil, rfl⟩

/-- A commit that returns `false` during a snapshot leaves no trace. -/
theorem note_skipped (hop : op.isCommit = true) (hg : g.inProgress = true) (ha : a = some false) :
    g.note (op, a) = g := by
  cases op with
  | commitRead key t => exact if_pos ⟨hg, ha⟩
  | commitWrite key item t => exact if_pos ⟨hg, ha⟩
  | commitPurgeExpired t => exact if_pos ⟨hg, ha⟩
  | beginSnapshot => cases hop
  | endSnapshot => cases hop

theorem note_commit (hop : op.isCommit = true) (hg : ¬ (g.inProgress = true ∧ a = some false)) :
    g.note (op, a) = { g with calls := g.calls ++ op.call?.toList } := by
  cases op with
  | commitRead key t => exact if_neg hg
  | commitWrite key item t => exact if_neg hg
  | commitPurgeExpired t => exact if_neg hg
  | beginSnapshot => cases hop
  | endSnapshot => cases hop

/-- The state of `storage_` after more calls. -/
theorem run_snoc {s s' s'' : CacheStorage} {ops ops' : List StorageOp}
    (h : ∃ answers, CacheStorage.run cfg s ops = .ok (answers, s'))
    (h' : ∃ answers, CacheStorage.run cfg s' ops' = .ok (answers, s'')) :
    ∃ answers, CacheStorage.run cfg s (ops ++ ops') = .ok (answers, s'') := by
  obtain ⟨as, has⟩ := h
  obtain ⟨bs, hbs⟩ := h'
  exact ⟨as ++ bs, Run.run_append.mpr ⟨as, s', bs, has, hbs, rfl⟩⟩

/-- During a snapshot a commit adds an event for itself, unless it returns `false`. -/
theorem snapshotCommit (h : InOrder cfg g t) (hp : t.state.snapshotInProgress = true)
    (hop : op.isCommit = true) {st : CacheState} (hs : t.state.step cfg op = .ok (a, st)) :
    InOrder cfg (g.note (op, a)) ⟨st, t.applied⟩ := by
  have hstep := CacheState.step_snapshot hp hop hs
  obtain ⟨ho, hd, hrecord⟩ := hstep.records h.overlay h.storage
  obtain ⟨answers, hrun⟩ := h.applied
  obtain ⟨calls, hstands, hcalls⟩ := h.pending
  have hg := h.inProgress.trans hp
  have hst := hstep.storage_eq
  have hp' := hstep.inProgress_eq.trans hp
  have hclean : st.snapshotInProgress = false → st.snapshotStorage.Clean := fun hf =>
    nomatch hp'.symm.trans hf
  -- the events recorded before still stand for their calls
  have hkept : List.Forall₂ (StandsFor st.snapshotStorage.toContainers st.storage.toContainers)
      t.state.snapshotStorage.events calls :=
    hstands.imp fun _ _ hc => hst ▸ hc.descends hd (.refl _)
  rcases hrecord with ⟨ha, hevents⟩ | ⟨ha, event, call, hcall, hevents, hnew⟩
  · rw [note_skipped hop hg ha]
    exact ⟨hg.trans hp'.symm, hclean, hst ▸ h.storage, ho, ⟨answers, hst ▸ hrun⟩,
      calls, hevents ▸ hkept, hcalls⟩
  · rw [note_commit hop fun hskip => ha hskip.2]
    refine ⟨hg.trans hp'.symm, hclean, hst ▸ h.storage, ho, ⟨answers, hst ▸ hrun⟩,
      calls ++ [call], ?_, ?_⟩
    · rw [hevents]
      exact List.rel_append hkept (.cons (hst ▸ hnew) .nil)
    · rw [hcall]
      simp only [Option.toList_some, List.map_append, hcalls, List.append_assoc]

/-- Outside a snapshot a commit is one call. -/
theorem directCommit (h : InOrder cfg g t) (hp : t.state.snapshotInProgress = false)
    {o : StorageOp} (hop : op.isCommit = true) (ho : op.storageOp? = some o) {st : CacheState}
    (hs : t.state.step cfg op = .ok (a, st)) :
    InOrder cfg (g.note (op, a)) ⟨st, t.applied ++ [o]⟩ := by
  have hclean := CacheState.clean_step h.clean hs
  rw [CacheState.step_direct hp ho] at hs
  obtain ⟨⟨b, s⟩, hstep, hs⟩ := Run.bind_eq_ok.mp hs
  cases hs
  have hg := h.inProgress.trans hp
  -- outside a snapshot there are no events, so that nothing is pending
  have hnone := (h.clean hp).2
  have hcall : op.call? = o.call? := congrArg (Option.bind · StorageOp.call?) ho
  obtain ⟨calls, hstands, hcalls⟩ := h.pending
  rw [hnone] at hstands
  cases hstands
  rw [note_commit hop fun hskip => by rw [hg] at hskip; exact nomatch hskip.1]
  refine ⟨h.inProgress, hclean, h.storage.step hstep, h.overlay,
    run_snoc h.applied ⟨[a], Run.run_cons.mpr ⟨a, s, [], hstep, rfl, rfl⟩⟩, [], ?_, ?_⟩
  · rw [hnone]
    exact .nil
  · have hsome : (o.call?.toList).map some = [o.call?] := by
      cases op with
      | commitRead key t => cases ho; rfl
      | commitWrite key item t => cases ho; rfl
      | commitPurgeExpired t => cases ho; rfl
      | beginSnapshot => cases hop
      | endSnapshot => cases hop
    simp only [hcall, List.map_append, hcalls, hsome, List.map_nil, List.append_nil, List.map_cons]

/-- `end_snapshot` makes the calls that are pending. -/
theorem endSnapshot (h : InOrder cfg g t) {calls : List StorageOp} {st : CacheState}
    (hcalls : t.state.callsOf cfg .endSnapshot = .ok calls)
    (hs : t.state.endSnapshot cfg = .ok st) :
    InOrder cfg (g.note (.endSnapshot, none)) ⟨st, t.applied ++ calls⟩ := by
  obtain ⟨s, hreplay, hs⟩ := Run.bind_eq_ok.mp hs
  cases hs
  obtain ⟨ops, answers, hops, hrun⟩ := replay_run hreplay
  obtain rfl : ops = calls := Except.ok.inj (hops.symm.trans hcalls)
  obtain ⟨pending, hstands, hg⟩ := h.pending
  have hstorage : Backlinked s.toContainers := Run.run_invariant (C := fun _ _ => True)
    (I := fun u : CacheStorage => Backlinked u.toContainers)
    (fun _ _ _ _ hu _ hstep => hu.step hstep)
    h.storage (Run.along_true _ _) hrun
  refine ⟨rfl, fun _ => ⟨rfl, rfl⟩, hstorage, .clear _, run_snoc h.applied ⟨answers, hrun⟩,
    [], .nil,
    ?_⟩
  rw [List.map_append, replayCalls_eq hstands hops, List.map_nil, List.append_nil]
  exact hg

/-- A call keeps the order. -/
theorem step (h : InOrder cfg g t) {t' : Traced} (hs : t.step cfg op = .ok (a, t')) :
    InOrder cfg (g.note (op, a)) t' := by
  obtain ⟨calls, hcalls, hs⟩ := Run.bind_eq_ok.mp hs
  obtain ⟨⟨b, st⟩, hstep, hs⟩ := Run.bind_eq_ok.mp hs
  cases hs
  by_cases hop : op.isCommit = true
  · have hcalls : calls = if t.state.snapshotInProgress then [] else op.storageOp?.toList := by
      cases op with
      | commitRead key t => exact (Except.ok.inj hcalls).symm
      | commitWrite key item t => exact (Except.ok.inj hcalls).symm
      | commitPurgeExpired t => exact (Except.ok.inj hcalls).symm
      | beginSnapshot => cases hop
      | endSnapshot => cases hop
    cases hp : t.state.snapshotInProgress with
    | true =>
      rw [hcalls, if_pos hp, List.append_nil]
      exact h.snapshotCommit hp hop hstep
    | false =>
      obtain ⟨o, ho⟩ := CacheState.storageOp?_eq_some hop
      rw [hcalls, if_neg (by rw [hp]; decide), ho]
      exact h.directCommit hp hop ho hstep
  · cases op with
    | beginSnapshot =>
      cases hcalls
      cases hstep
      rw [List.append_nil]
      exact ⟨rfl, (fun hf => nomatch hf), h.storage, h.overlay, h.applied, h.pending⟩
    | endSnapshot =>
      obtain ⟨st', hend, hstep⟩ := Run.bind_eq_ok.mp hstep
      cases hstep
      exact h.endSnapshot hcalls hend
    | commitRead key t => exact absurd rfl hop
    | commitWrite key item t => exact absurd rfl hop
    | commitPurgeExpired t => exact absurd rfl hop

end InOrder

/-- Recording the calls changes nothing and fails nowhere. -/
theorem Traced.step_of_step {cfg : CacheConfig} {t : Traced} {op : CacheOp} {a : Option Bool}
    {st : CacheState} (hs : t.state.step cfg op = .ok (a, st)) :
    ∃ t', t.step cfg op = .ok (a, t') ∧ t'.state = st := by
  have hcalls : ∃ calls, t.state.callsOf cfg op = .ok calls := by
    cases op with
    | commitRead key t => exact ⟨_, rfl⟩
    | commitWrite key item t => exact ⟨_, rfl⟩
    | commitPurgeExpired t => exact ⟨_, rfl⟩
    | beginSnapshot => exact ⟨_, rfl⟩
    | endSnapshot =>
      obtain ⟨st', hend, -⟩ := Run.bind_eq_ok.mp hs
      obtain ⟨s, hreplay, -⟩ := Run.bind_eq_ok.mp hend
      obtain ⟨ops, -, hops, -⟩ := replay_run hreplay
      exact ⟨ops, hops⟩
  obtain ⟨calls, hcalls⟩ := hcalls
  exact ⟨⟨st, t.applied ++ calls⟩, Run.bind_eq_ok.mpr ⟨calls, hcalls,
    Run.bind_eq_ok.mpr ⟨(a, st), hs, rfl⟩⟩, rfl⟩

/-- In a run that ends outside a snapshot, the calls made on `storage_` are the commits issued, in
order, without those that returned `false` during a snapshot. They lead to its final state, and the
overlay is empty. -/
theorem applied_exactly_once {cfg : CacheConfig} {ops : List CacheOp}
    {answers : List (Option Bool)} {st : CacheState}
    (hrun : CacheState.run cfg .new ops = .ok (answers, st))
    (hout : st.snapshotInProgress = false) :
    (∃ applied, Traced.run cfg .new ops = .ok (answers, ⟨st, applied⟩) ∧
      (∃ results, CacheStorage.run cfg .new applied = .ok (results, st.storage)) ∧
      applied.map StorageOp.call? = (issuedCalls ops answers).map some) ∧
    st.snapshotStorage.items = [] ∧ st.snapshotStorage.itemMap = [] ∧
      st.snapshotStorage.expiryBuckets = [] ∧ st.snapshotStorage.usedMemory = 0 ∧
      st.snapshotStorage.events = [] := by
  obtain ⟨t, ht, rfl⟩ := Run.run_lift (g := Traced.step cfg)
    (fun (s : CacheState) (t : Traced) => t.state = s)
    (fun s t op a s' hst hs => Traced.step_of_step (hst ▸ hs)) (t := Traced.new) rfl hrun
  have h : InOrder cfg ((ops.zip answers).foldl Issued.note ⟨false, []⟩) t :=
    Run.run_fold (C := fun _ _ => True) (fun _ _ _ _ _ hg _ hs => hg.step hs) InOrder.new
      (Run.along_true _ _) ht
  obtain ⟨hempty, hnone⟩ := h.clean hout
  obtain ⟨calls, hstands, hcalls⟩ := h.pending
  rw [hnone] at hstands
  cases hstands
  rw [List.map_nil, List.append_nil] at hcalls
  refine ⟨⟨t.applied, ht, h.applied, hcalls.symm⟩, ?_⟩
  rw [hempty]
  exact ⟨rfl, rfl, rfl, rfl, hnone⟩

/-- Two snapshots, the first one begun and ended twice, with a read of a missing key before it and
one during it. -/
def Sample.twoSnapshots : List CacheOp :=
  [.commitWrite (key 1) (zeros 3 500) 100, .commitRead (key 3) 105, .beginSnapshot,
    .commitWrite (key 2) (zeros 3 500) 110, .beginSnapshot, .commitRead (key 3) 120,
    .commitPurgeExpired 130, .endSnapshot, .endSnapshot, .beginSnapshot, .commitRead (key 2) 150,
    .endSnapshot]

/-- The calls they make on `storage_`. -/
def Sample.twoSnapshotsCalls : List StorageCall :=
  [.write (Sample.key 1) 100, .read (Sample.key 3) 105, .write (Sample.key 2) 110, .purge 130,
    .read (Sample.key 2) 150]

theorem applied_exactly_once_twoSnapshots :
    ∃ answers st applied, CacheState.run Sample.config .new Sample.twoSnapshots =
        .ok (answers, st) ∧ st.snapshotInProgress = false ∧
      Traced.run Sample.config .new Sample.twoSnapshots = .ok (answers, ⟨st, applied⟩) ∧
      applied.map StorageOp.call? = Sample.twoSnapshotsCalls.map some := by
  have h : (do
      let r ← CacheState.run Sample.config .new Sample.twoSnapshots
      return decide (r.2.snapshotInProgress = false ∧
        issuedCalls Sample.twoSnapshots r.1 = Sample.twoSnapshotsCalls)) = .ok true := by
    decide +kernel
  obtain ⟨⟨answers, st⟩, hrun, h⟩ := Run.bind_eq_ok.mp h
  obtain ⟨hout, hissued⟩ := of_decide_eq_true (Except.ok.inj h)
  obtain ⟨⟨applied, htraced, -, hcalls⟩, -⟩ := applied_exactly_once hrun hout
  exact ⟨answers, st, applied, hrun, hout, htraced, hissued ▸ hcalls⟩

end LruCache
