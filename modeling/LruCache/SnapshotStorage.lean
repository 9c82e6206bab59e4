import LruCache.CacheStorage

/-!
# `snapshot_storage`

The storage that takes the commits while a snapshot is read, from `snapshot_storage.cc`. It derives
from `cache_storage`: its own containers are the overlay, and `storage_` points to the storage that
is frozen for the snapshot. A commit looks a key up in the overlay first, then in the frozen
storage, writes to the overlay, and appends a `snapshot_event` that `end_snapshot` replays later.

The header declares `evict_lru_data(int)`, but the virtual function of the base class takes a key as
well. The declaration hides the base function and does not override it, so the calls of
`commit_write` still evict from the overlay.
-/

namespace LruCache

/-- The storage that owns a node. -/
inductive Owner
  | overlay
  | frozen
deriving DecidableEq, Repr

/-- A pointer kept by an event, to an `item_map_` node (a key) or to an element of `items_`. -/
structure Ref where
  owner : Owner
  addr : Addr
deriving DecidableEq, Repr

/-- `snapshot_event::type`. -/
inductive EventType
  | read
  | write
  | purge
deriving DecidableEq, Repr

/-- `snapshot_event`. -/
structure SnapshotEvent where
  type : EventType
  key : Option Ref
  item : Option Ref
  expiresAt : Int64
  createdAt : Int64
deriving DecidableEq, Repr

/-- The `cache_item*` that `snapshot_storage::get_item` returns. -/
structure Found where
  owner : Owner
  node : Node CacheItem
deriving DecidableEq, Repr

/-- `snapshot_event(type, item->key, item, expires_at, created_at)`. -/
def SnapshotEvent.of (type : EventType) (found : Found) (expiresAt createdAt : Int64) :
    SnapshotEvent where
  type := type
  key := found.node.val.key.map (Ref.mk found.owner)
  item := some ⟨found.owner, found.node.addr⟩
  expiresAt := expiresAt
  createdAt := createdAt

/-- `snapshot_storage`. The frozen storage is an argument of its operations. -/
structure SnapshotStorage extends CacheStorage where
  events : List SnapshotEvent
deriving DecidableEq, Repr

namespace SnapshotStorage

/-- A new `snapshot_storage`. -/
def new : SnapshotStorage := { CacheStorage.new with events := [] }

/-- `snapshot_storage::get_item`. -/
def getItem (frozen : Containers) (s : SnapshotStorage) (key : Key) (at_ : Int64) :
    Except Fault (Option Found) := do
  match ← s.toContainers.getItem key at_ with
  | some node => return some ⟨.overlay, node⟩
  | none => return (← frozen.getItem key at_).map (Found.mk .frozen)

/-- `snapshot_storage::commit_read`. -/
def commitRead (frozen : Containers) (s : SnapshotStorage) (key : Key) (readAt : Int64) :
    Except Fault (Bool × SnapshotStorage) := do
  match ← s.getItem frozen key readAt with
  | none => return (false, { s with commitCode := some .notFound })
  | some found =>
    return (true, { s with
      events := s.events ++ [SnapshotEvent.of .read found 0 readAt]
      commitCode := some .doneOk })

/-- `snapshot_storage::commit_purge`. -/
def commitPurge (s : SnapshotStorage) (purgedAt : Int64) : SnapshotStorage :=
  { s with events := s.events ++ [⟨.purge, none, none, 0, purgedAt⟩], commitCode := some .doneOk }

/-- `snapshot_storage::clear`. -/
def clear (s : SnapshotStorage) : SnapshotStorage :=
  { s with toContainers := s.toContainers.clear, events := [] }

/-- The event of a write, once the base class has stored the item at `itemIter`. -/
def recordWrite (s : SnapshotStorage) (itemIter : Addr) (containers : Containers)
    (writtenAt : Int64) : Except Fault SnapshotStorage := do
  let item ← deref containers.items itemIter
  return { s with
    toContainers := containers
    events := s.events ++
      [SnapshotEvent.of .write ⟨.overlay, ⟨itemIter, item⟩⟩ item.expiresAt writtenAt] }

/-- `snapshot_storage::insert_item`. -/
def insertItem (cfg : CacheConfig) (s : SnapshotStorage) (key : Key) (item : CacheItem)
    (writtenAt : Int64) : Except Fault SnapshotStorage := do
  let (itemIter, containers) ← s.toContainers.insertItem cfg key item
  s.recordWrite itemIter containers writtenAt

/-- `snapshot_storage::update_item`. The item that `commit_write` found may be a frozen one, so the
overlay decides once more between an update and an insertion. -/
def updateItem (cfg : CacheConfig) (s : SnapshotStorage) (key : Key) (item : CacheItem)
    (writtenAt : Int64) : Except Fault SnapshotStorage := do
  let (itemIter, containers) ← match ← s.toContainers.getItem key writtenAt with
    | some _ => s.toContainers.updateItem cfg key item
    | none => s.toContainers.insertItem cfg key item
  s.recordWrite itemIter containers writtenAt

/-- The virtual table of `snapshot_storage`. `evict_lru_data` is the one of `cache_storage`. -/
def virtuals (cfg : CacheConfig) (frozen : Containers) : Virtuals SnapshotStorage where
  getItem s key at_ := do return (← s.getItem frozen key at_).map fun found => found.node.val
  evictLruData s key required := do
    return { s with toContainers := ← s.toContainers.evictLruData cfg key required }
  insertItem s key item writtenAt := s.insertItem cfg key item writtenAt
  updateItem s key item writtenAt := s.updateItem cfg key item writtenAt
  setCommitCode s code := { s with commitCode := some code }

/-- `cache_storage::commit_write`, called on a `snapshot_storage`. -/
def commitWrite (cfg : CacheConfig) (frozen : Containers) (s : SnapshotStorage) (key : Key)
    (item : CacheItem) (writtenAt : Int64) : Except Fault (Bool × SnapshotStorage) :=
  LruCache.commitWrite (virtuals cfg frozen) cfg s key item writtenAt

end SnapshotStorage

end LruCache
