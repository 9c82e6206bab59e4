import LruCache.SnapshotStorage

/-!
# `cache_state`

The two storages behind one interface, from `cache_state.cc`. Commits go to `storage_`, or to
`snapshot_storage_` while a snapshot is in progress. `end_snapshot` replays the recorded events on
`storage_` in order, following the pointers they hold.

A run is a sequence of calls, so no two calls overlap. The mutex sees to this for most of them;
`commit_purge_expired` and `read_snapshot_chunk` do not lock it, and for these it is an assumption.
-/

namespace LruCache

/-- `cache_state`. Both storages are built from the same configuration. -/
structure CacheState where
  snapshotInProgress : Bool
  storage : CacheStorage
  snapshotStorage : SnapshotStorage
  commitCode : Option CommitResult
deriving DecidableEq, Repr

/-- Follow a key pointer of an event. -/
def derefKeyRef (overlay storage : Containers) : Option Ref → Except Fault Key
  | none => .error .dangling
  | some ⟨.overlay, a⟩ => overlay.derefKey (some a)
  | some ⟨.frozen, a⟩ => storage.derefKey (some a)

/-- Follow an item pointer of an event. -/
def derefItemRef (overlay storage : Containers) : Option Ref → Except Fault CacheItem
  | none => .error .dangling
  | some ⟨.overlay, a⟩ => deref overlay.items a
  | some ⟨.frozen, a⟩ => deref storage.items a

/-- The commit that an event replays: the body of the loop of `end_snapshot`. -/
def replayEvent (cfg : CacheConfig) (overlay : Containers) (storage : CacheStorage)
    (event : SnapshotEvent) : Except Fault CacheStorage :=
  match event.type with
  | .read => do
    let key ← derefKeyRef overlay storage.toContainers event.key
    return (← storage.commitRead key event.createdAt).2
  | .write => do
    let key ← derefKeyRef overlay storage.toContainers event.key
    let item ← derefItemRef overlay storage.toContainers event.item
    return (← storage.commitWrite cfg key item event.createdAt).2
  | .purge => storage.commitPurge cfg event.createdAt

/-- The loop of `end_snapshot`. -/
def replay (cfg : CacheConfig) (overlay : Containers) (storage : CacheStorage)
    (events : List SnapshotEvent) : Except Fault CacheStorage :=
  events.foldlM (replayEvent cfg overlay) storage

/-- `cache_storage::read`, for the item that `get_item` finds: the pointer that it returns, `none`
for a null pointer, and `len`, which `read_then` has set to 0. -/
def readItem : Option CacheItem → Option ItemData × UInt64
  | none => (none, 0)
  | some item => (item.data.pointer, item.dataSize)

/-- The callback of `cache_state::read`. It returns at once for a null pointer, whether or not an
item has been found, and copies `len` bytes otherwise. -/
def copyData : Option ItemData × UInt64 → Except Fault (Option (List UInt8))
  | (none, _) => .ok none
  | (some data, len) =>
    if len.toNat ≤ data.bytes.length then .ok (some (data.bytes.take len.toNat))
    else .error .outOfBounds

namespace CacheState

/-- A new `cache_state`. -/
def new : CacheState := ⟨false, .new, .new, none⟩

/-- The item that the current storage finds under `key`. -/
def getItem (st : CacheState) (key : Key) (at_ : Int64) : Except Fault (Option CacheItem) :=
  if st.snapshotInProgress then do
    return (← st.snapshotStorage.getItem st.storage.toContainers key at_).map fun f => f.node.val
  else do return (← st.storage.toContainers.getItem key at_).map Node.val

/-- `cache_state::read_then` at time `now`: what its callback gets. -/
def readThen (st : CacheState) (key : Key) (now : Int64) :
    Except Fault (Option ItemData × UInt64) := do
  return readItem (← st.getItem key now)

/-- `cache_state::read` at time `now`: a copy of the data. -/
def read (st : CacheState) (key : Key) (now : Int64) : Except Fault (Option (List UInt8)) := do
  copyData (← st.readThen key now)

/-- `cache_state::commit_read`. -/
def commitRead (st : CacheState) (key : Key) (readAt : Int64) : Except Fault (Bool × CacheState) :=
  if st.snapshotInProgress then do
    let (b, s) ← st.snapshotStorage.commitRead st.storage.toContainers key readAt
    return (b, { st with snapshotStorage := s, commitCode := s.commitCode })
  else do
    let (b, s) ← st.storage.commitRead key readAt
    return (b, { st with storage := s, commitCode := s.commitCode })

/-- `cache_state::commit_write`. -/
def commitWrite (cfg : CacheConfig) (st : CacheState) (key : Key) (item : CacheItem)
    (writtenAt : Int64) : Except Fault (Bool × CacheState) :=
  if st.snapshotInProgress then do
    let (b, s) ← st.snapshotStorage.commitWrite cfg st.storage.toContainers key item writtenAt
    return (b, { st with snapshotStorage := s, commitCode := s.commitCode })
  else do
    let (b, s) ← st.storage.commitWrite cfg key item writtenAt
    return (b, { st with storage := s, commitCode := s.commitCode })

/-- `cache_state::commit_purge_expired`. -/
def commitPurgeExpired (cfg : CacheConfig) (st : CacheState) (purgeAt : Int64) :
    Except Fault CacheState :=
  if st.snapshotInProgress then
    .ok { st with snapshotStorage := st.snapshotStorage.commitPurge purgeAt }
  else do return { st with storage := ← st.storage.commitPurge cfg purgeAt }

/-- `cache_state::begin_snapshot`. -/
def beginSnapshot (st : CacheState) : CacheState := { st with snapshotInProgress := true }

/-- `cache_state::end_snapshot`. -/
def endSnapshot (cfg : CacheConfig) (st : CacheState) : Except Fault CacheState := do
  let storage ← replay cfg st.snapshotStorage.toContainers st.storage st.snapshotStorage.events
  return { st with
    storage := storage
    snapshotStorage := st.snapshotStorage.clear
    snapshotInProgress := false }

end CacheState

/-- A call of one of the operations of `cache_state`. -/
inductive CacheOp
  | commitRead (key : Key) (readAt : Int64)
  | commitWrite (key : Key) (item : CacheItem) (writtenAt : Int64)
  | commitPurgeExpired (purgeAt : Int64)
  | beginSnapshot
  | endSnapshot
deriving DecidableEq, Repr

namespace CacheOp

/-- The call is a commit. -/
def isCommit : CacheOp → Bool
  | .commitRead _ _ => true
  | .commitWrite _ _ _ => true
  | .commitPurgeExpired _ => true
  | .beginSnapshot => false
  | .endSnapshot => false

/-- The operation of `storage_` that a commit calls. -/
def storageOp? : CacheOp → Option StorageOp
  | .commitRead key readAt => some (.commitRead key readAt)
  | .commitWrite key item writtenAt => some (.commitWrite key item writtenAt)
  | .commitPurgeExpired purgeAt => some (.commitPurge purgeAt)
  | .beginSnapshot => none
  | .endSnapshot => none

/-- The timestamp a call carries. -/
def time? : CacheOp → Option Int64
  | .commitRead _ t => some t
  | .commitWrite _ _ t => some t
  | .commitPurgeExpired t => some t
  | .beginSnapshot => none
  | .endSnapshot => none

/-- The timestamps of the calls do not decrease. -/
def NonDecreasing (ops : List CacheOp) : Prop := (ops.filterMap time?).Pairwise (· ≤ ·)

instance (ops : List CacheOp) : Decidable (NonDecreasing ops) :=
  inferInstanceAs (Decidable (List.Pairwise _ _))

end CacheOp

namespace CacheState

/-- One call; the answer of the `void` operations is `none`. -/
def step (cfg : CacheConfig) (st : CacheState) : CacheOp → Except Fault (Option Bool × CacheState)
  | .commitRead key readAt => do
    let (b, st) ← st.commitRead key readAt
    return (some b, st)
  | .commitWrite key item writtenAt => do
    let (b, st) ← st.commitWrite cfg key item writtenAt
    return (some b, st)
  | .commitPurgeExpired purgeAt => do return (none, ← st.commitPurgeExpired cfg purgeAt)
  | .beginSnapshot => return (none, st.beginSnapshot)
  | .endSnapshot => do return (none, ← st.endSnapshot cfg)

/-- A sequence of calls. -/
def run (cfg : CacheConfig) (st : CacheState) (ops : List CacheOp) :
    Except Fault (List (Option Bool) × CacheState) :=
  Run.run (step cfg) st ops

/-! ## What a call does -/

/-- The commits while a snapshot is in progress: the call, its answer and the next state. -/
inductive SnapshotStep (cfg : CacheConfig) (st : CacheState) :
    CacheOp → Option Bool → CacheState → Prop
  | read {key : Key} {t : Int64} {b : Bool} {s : SnapshotStorage} :
      st.snapshotStorage.commitRead st.storage.toContainers key t = .ok (b, s) →
      SnapshotStep cfg st (.commitRead key t) (some b)
        { st with snapshotStorage := s, commitCode := s.commitCode }
  | write {key : Key} {item : CacheItem} {t : Int64} {b : Bool} {s : SnapshotStorage} :
      st.snapshotStorage.commitWrite cfg st.storage.toContainers key item t = .ok (b, s) →
      SnapshotStep cfg st (.commitWrite key item t) (some b)
        { st with snapshotStorage := s, commitCode := s.commitCode }
  | purge {t : Int64} :
      SnapshotStep cfg st (.commitPurgeExpired t) none
        { st with snapshotStorage := st.snapshotStorage.commitPurge t }

variable {cfg : CacheConfig} {st st' : CacheState} {op : CacheOp} {a : Option Bool}

theorem step_snapshot (hp : st.snapshotInProgress = true) (hop : op.isCommit = true)
    (hs : st.step cfg op = .ok (a, st')) : SnapshotStep cfg st op a st' := by
  cases op with
  | commitRead key t =>
    obtain ⟨⟨b, u⟩, hread, hs⟩ := Run.bind_eq_ok.mp hs
    rw [commitRead, if_pos hp] at hread
    obtain ⟨⟨b', s⟩, hcommit, hu⟩ := Run.bind_eq_ok.mp hread
    cases hu
    cases hs
    exact .read hcommit
  | commitWrite key item t =>
    obtain ⟨⟨b, u⟩, hwrite, hs⟩ := Run.bind_eq_ok.mp hs
    rw [commitWrite, if_pos hp] at hwrite
    obtain ⟨⟨b', s⟩, hcommit, hu⟩ := Run.bind_eq_ok.mp hwrite
    cases hu
    cases hs
    exact .write hcommit
  | commitPurgeExpired t =>
    obtain ⟨u, hpurge, hs⟩ := Run.bind_eq_ok.mp hs
    rw [commitPurgeExpired, if_pos hp] at hpurge
    cases hpurge
    cases hs
    exact .purge
  | beginSnapshot => cases hop
  | endSnapshot => cases hop

/-- Outside a snapshot a commit is the operation of `storage_`; the overlay stays as it is. -/
theorem step_direct (hp : st.snapshotInProgress = false) {o : StorageOp}
    (ho : op.storageOp? = some o) :
    st.step cfg op = (do
      let (a, s) ← st.storage.step cfg o
      return (a, { st with
        storage := s
        commitCode := if a.isSome then s.commitCode else st.commitCode })) := by
  have hn : ¬ st.snapshotInProgress = true := by simp [hp]
  cases op with
  | commitRead key t =>
    cases ho
    simp only [step, commitRead, CacheStorage.step, if_neg hn, bind_assoc, pure_bind]
    rfl
  | commitWrite key item t =>
    cases ho
    simp only [step, commitWrite, CacheStorage.step, if_neg hn, bind_assoc, pure_bind]
    rfl
  | commitPurgeExpired t =>
    cases ho
    simp only [step, commitPurgeExpired, CacheStorage.step, if_neg hn, bind_assoc, pure_bind]
    rfl
  | beginSnapshot => cases ho
  | endSnapshot => cases ho

/-- A commit during a snapshot leaves `storage_` as it is. -/
theorem SnapshotStep.storage_eq (h : SnapshotStep cfg st op a st') : st'.storage = st.storage := by
  cases h <;> rfl

theorem SnapshotStep.inProgress_eq (h : SnapshotStep cfg st op a st') :
    st'.snapshotInProgress = st.snapshotInProgress := by
  cases h <;> rfl

end CacheState

end LruCache
