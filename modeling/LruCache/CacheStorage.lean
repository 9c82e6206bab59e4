import LruCache.Basic
import LruCache.Lib.Run

/-!
# `cache_storage`

The containers of `cache_storage` and its operations, from `cache_storage.cc`. `items_` is the list
of items, most recently used first. `item_map_` finds the node of a key: the list element of its
item and its place in `expiry_buckets_`. A bucket holds pointers to the keys that a purge at its
time removes. All cross references are addresses of nodes: an element of `items_` and a slot of a
bucket point at the `item_map_` node that owns the key string.

`commit_write` is a template method: it calls `get_item`, `evict_lru_data`, `insert_item` and
`update_item` through the virtual table, which `Virtuals` models.
-/

namespace LruCache

/-- `cache_storage::internal_iterators`. -/
structure InternalIterators where
  itemIter : Addr
  expiryMapIter : Addr
  expiryBucketIter : Addr
deriving DecidableEq, Repr

/-- A node of `item_map_`. -/
structure MapEntry where
  key : Key
  iters : InternalIterators
deriving DecidableEq, Repr

/-- A node of `expiry_buckets_`: its time and its list of key pointers. -/
structure Bucket where
  purgeAt : Int64
  keys : List (Node (Option Addr))
deriving DecidableEq, Repr

/-- The containers of `cache_storage`, with the allocator of their nodes. The nodes of `item_map_`
stand in no particular order; `expiry_buckets_` is sorted by time. -/
structure Containers where
  items : List (Node CacheItem)
  itemMap : List (Node MapEntry)
  expiryBuckets : List (Node Bucket)
  usedMemory : UInt64
  nextAddr : Addr
deriving DecidableEq, Repr

/-- Follow an iterator. -/
def deref {α : Type} (l : List (Node α)) (a : Addr) : Except Fault α :=
  match NodeList.get? l a with
  | some v => .ok v
  | none => .error .dangling

/-- The conversion of a `size_t` to `int`. -/
def narrow (n : UInt64) : Int32 := n.toInt64.toInt32

/-- `available_memory += item_size`: the `int` is widened to `size_t`, the sum narrowed back. -/
def addSize (available : Int32) (itemSize : UInt64) : Int32 :=
  narrow (available.toInt64.toUInt64 + itemSize)

namespace Containers

/-- The containers of a new `cache_storage`. -/
def empty : Containers := ⟨[], [], [], 0, 0⟩

/-- The string a key pointer leads to. -/
def derefKey (s : Containers) : Option Addr → Except Fault Key
  | none => .error .dangling
  | some a => do return (← deref s.itemMap a).key

/-- The contents of `items_`, most recently used first. -/
def entries (s : Containers) : Except Fault (List Entry) :=
  s.items.mapM fun n => do return n.val.entry (← s.derefKey n.val.key)

/-- `item_map_.find(key)`. -/
def findEntry (s : Containers) (key : Key) : Option (Node MapEntry) :=
  s.itemMap.find? fun n => n.val.key == key

/-- The entry that `item_map_` leads to under `key`, expired or not. -/
def stored (s : Containers) (key : Key) : Option Entry := do
  let entry ← s.findEntry key
  let item ← NodeList.get? s.items entry.val.iters.itemIter
  return item.entry key

/-- `cache_storage::get_item`. -/
def getItem (s : Containers) (key : Key) (at_ : Int64) : Except Fault (Option (Node CacheItem)) :=
  match s.findEntry key with
  | none => .ok none
  | some entry => do
    let item ← deref s.items entry.val.iters.itemIter
    if item.isExpired at_ then return none
    return some ⟨entry.val.iters.itemIter, item⟩

/-- Insert a bucket in time order. -/
def insertBucket (b : Node Bucket) : List (Node Bucket) → List (Node Bucket)
  | [] => [b]
  | c :: cs => if b.val.purgeAt < c.val.purgeAt then b :: c :: cs else c :: insertBucket b cs

/-- `expiry_buckets_.emplace_hint(end, purge_at, {})`: the bucket at that time, created if
missing. -/
def emplaceBucket (s : Containers) (purgeAt : Int64) : Addr × Containers :=
  match s.expiryBuckets.find? fun b => b.val.purgeAt == purgeAt with
  | some b => (b.addr, s)
  | none =>
    (s.nextAddr, { s with
      expiryBuckets := insertBucket ⟨s.nextAddr, ⟨purgeAt, []⟩⟩ s.expiryBuckets
      nextAddr := s.nextAddr + 1 })

/-- Append a key pointer to a bucket. -/
def pushSlot (s : Containers) (bucket slot : Addr) (key : Option Addr) : Containers :=
  { s with expiryBuckets :=
      NodeList.modify s.expiryBuckets bucket fun b => { b with keys := b.keys ++ [⟨slot, key⟩] } }

/-- Erase a slot of a bucket, and the bucket when it becomes empty. -/
def eraseSlot (bs : List (Node Bucket)) (bucket slot : Addr) :
    Except Fault (List (Node Bucket)) := do
  let b ← deref bs bucket
  let _ ← deref b.keys slot
  let keys := NodeList.erase b.keys slot
  if keys.length = 0 then return NodeList.erase bs bucket
  return NodeList.modify bs bucket fun b => { b with keys := keys }

/-- `item_map_.insert({key, iters})`: an entry that exists already stays as it is. -/
def insertEntry (s : Containers) (key : Key) (iters : InternalIterators) : Addr × Containers :=
  match s.findEntry key with
  | some entry => (entry.addr, s)
  | none =>
    (s.nextAddr, { s with
      itemMap := ⟨s.nextAddr, ⟨key, iters⟩⟩ :: s.itemMap
      nextAddr := s.nextAddr + 1 })

/-- `cache_storage::insert_item`. The source stores null key pointers first and fills them in once
the map entry exists; here the entry comes first. -/
def insertItem (cfg : CacheConfig) (s : Containers) (key : Key) (item : CacheItem) :
    Except Fault (Addr × Containers) := do
  let itemIter := s.nextAddr
  let s := { s with nextAddr := s.nextAddr + 1 }
  -- make sure the expiry bucket exists
  let purgeAt ← nextPurgeTime item.expiresAt cfg.purgeInterval
  let (expiryMapIter, s) := s.emplaceBucket purgeAt
  let slot := s.nextAddr
  let s := { s with nextAddr := s.nextAddr + 1 }
  let (entry, s) := s.insertEntry key ⟨itemIter, expiryMapIter, slot⟩
  let s := s.pushSlot expiryMapIter slot (some entry)
  return (itemIter, { s with
    items := ⟨itemIter, { item with key := some entry }⟩ :: s.items
    usedMemory := s.usedMemory + getItemSize key item.dataSize })

/-- `cache_storage::update_item_expiry_bucket`. -/
def updateItemExpiryBucket (cfg : CacheConfig) (s : Containers) (key : Key)
    (oldExpiry newExpiry : Int64) : Except Fault Containers := do
  let expiry1 ← nextPurgeTime oldExpiry cfg.purgeInterval
  let expiry2 ← nextPurgeTime newExpiry cfg.purgeInterval
  if expiry1 = expiry2 then return s
  match s.findEntry key with
  | none => .error .dangling
  | some entry =>
    let iters := entry.val.iters
    -- make sure the destination bucket exists
    let (newBucket, s) := s.emplaceBucket expiry2
    let item ← deref s.items iters.itemIter
    let slot := s.nextAddr
    let s := { s with nextAddr := s.nextAddr + 1 }
    let s := s.pushSlot newBucket slot item.key
    let s := { s with itemMap := NodeList.modify s.itemMap entry.addr fun e =>
      { e with iters := { iters with expiryMapIter := newBucket, expiryBucketIter := slot } } }
    -- delete the previous slot
    let bs ← eraseSlot s.expiryBuckets iters.expiryMapIter iters.expiryBucketIter
    return { s with expiryBuckets := bs }

/-- `cache_storage::update_item`. -/
def updateItem (cfg : CacheConfig) (s : Containers) (key : Key) (item : CacheItem) :
    Except Fault (Addr × Containers) :=
  match s.findEntry key with
  | none => .error .dangling
  | some entry => do
    let itemIter := entry.val.iters.itemIter
    let old ← deref s.items itemIter
    let newItemSize := getItemSize key item.dataSize
    let oldItemSize := getItemSize key old.dataSize
    let items := NodeList.modify s.items itemIter fun _ => { item with key := old.key }
    let s := { s with
      usedMemory := s.usedMemory + (newItemSize - oldItemSize)
      items := NodeList.moveFront items itemIter }
    let s ← s.updateItemExpiryBucket cfg key old.expiresAt item.expiresAt
    return (itemIter, s)

/-- `cache_storage::remove_item`: the iterator after the erased item, and what is left. -/
def removeItem (s : Containers) (key : Key) : Except Fault (Option Addr × Containers) :=
  match s.findEntry key with
  | none => .ok (none, s)
  | some entry => do
    let iters := entry.val.iters
    let item ← deref s.items iters.itemIter
    let itemKey ← s.derefKey item.key
    let size := getItemSize itemKey item.dataSize
    let itemIter := NodeList.next s.items iters.itemIter
    let bs ← eraseSlot s.expiryBuckets iters.expiryMapIter iters.expiryBucketIter
    return (itemIter, { s with
      items := NodeList.erase s.items iters.itemIter
      itemMap := NodeList.erase s.itemMap entry.addr
      expiryBuckets := bs
      usedMemory := s.usedMemory - size })

/-- `cache_storage::mark_as_recently_used`. -/
def markAsRecentlyUsed (s : Containers) (key : Key) : Containers :=
  match s.findEntry key with
  | none => s
  | some entry => { s with items := NodeList.moveFront s.items entry.val.iters.itemIter }

/-- The loop of `evict_lru_data`. `it` is the base of its reverse iterator. -/
def evictLoop (key : Key) (memoryRequired : Int32) :
    Nat → Containers → Int32 → Option Addr → Except Fault Containers
  | 0, _, _, _ => .error .unbounded
  | fuel + 1, s, available, it =>
    match NodeList.prev s.items it with
    | none => .ok s
    | some n => do
      let k ← s.derefKey n.val.key
      if k = key then
        evictLoop key memoryRequired fuel s available (some n.addr)
      else
        let itemSize := getItemSize k n.val.dataSize
        let (it', s') ← s.removeItem k
        let available' := addSize available itemSize
        if available' ≥ memoryRequired then return s'
        evictLoop key memoryRequired fuel s' available' it'

/-- `cache_storage::evict_lru_data`. A round of its loop erases an item or moves the iterator one
item towards the front, so the square bounds the number of rounds in any state. -/
def evictLruData (cfg : CacheConfig) (s : Containers) (key : Key) (memoryRequired : Int32) :
    Except Fault Containers :=
  let availableMemory := narrow (cfg.cacheSize - s.usedMemory)
  if availableMemory ≥ memoryRequired then .ok s
  else
    evictLoop key memoryRequired ((s.items.length + 1) * (s.items.length + 1)) s availableMemory
      none

/-- The inner loop of `commit_purge`, over the slots of the bucket `current`. The end iterator of a
list is the address of a sentinel inside it, so the comparison `j != current->second.end()` reads
nothing of the bucket and holds its value when the last removal has erased the bucket too. -/
def purgeBucket (current : Addr) : Nat → Containers → Option Addr → Except Fault Containers
  | 0, _, _ => .error .unbounded
  | _ + 1, s, none => .ok s
  | fuel + 1, s, some j => do
    let b ← deref s.expiryBuckets current
    let p ← deref b.keys j
    let j' := NodeList.next b.keys j
    let k ← s.derefKey p
    let (_, s') ← s.removeItem k
    purgeBucket current fuel s' j'

/-- The outer loop of `commit_purge`, over the buckets in time order. -/
def purgeLoop (prev : Int64) : Nat → Containers → Option Addr → Except Fault Containers
  | 0, _, _ => .error .unbounded
  | _ + 1, s, none => .ok s
  | fuel + 1, s, some current => do
    let b ← deref s.expiryBuckets current
    let i := NodeList.next s.expiryBuckets current
    if b.purgeAt > prev then return s
    let s' ← purgeBucket current (b.keys.length + 1) s (b.keys.head?.map Node.addr)
    purgeLoop prev fuel s' i

/-- `cache_storage::commit_purge`. -/
def commitPurge (cfg : CacheConfig) (s : Containers) (purgedAt : Int64) :
    Except Fault Containers := do
  let next ← nextPurgeTime purgedAt cfg.purgeInterval
  let prev := next - cfg.purgeInterval.toInt64
  purgeLoop prev (s.expiryBuckets.length + 1) s (s.expiryBuckets.head?.map Node.addr)

/-- `cache_storage::clear`. -/
def clear (s : Containers) : Containers :=
  { s with items := [], itemMap := [], expiryBuckets := [], usedMemory := 0 }

end Containers

/-- `cache_storage` without its configuration. The commit code is unset until the first commit. -/
structure CacheStorage extends Containers where
  commitCode : Option CommitResult
deriving DecidableEq, Repr

/-- The virtual functions that `commit_write` calls on an object of class `σ`. -/
structure Virtuals (σ : Type) where
  getItem : σ → Key → Int64 → Except Fault (Option CacheItem)
  evictLruData : σ → Key → Int32 → Except Fault σ
  insertItem : σ → Key → CacheItem → Int64 → Except Fault σ
  updateItem : σ → Key → CacheItem → Int64 → Except Fault σ
  setCommitCode : σ → CommitResult → σ

section CommitWrite

variable {σ : Type} (v : Virtuals σ)

/-- `cache_storage::get_required_memory`. -/
def getRequiredMemory (s : σ) (key : Key) (item : CacheItem) (writtenAt : Int64) :
    Except Fault Int32 := do
  let itemSize := getItemSize key item.dataSize
  let oldSize := match ← v.getItem s key writtenAt with
    | some old => getItemSize key old.dataSize
    | none => 0
  return narrow (itemSize - oldSize)

/-- The checks at the start of `commit_write`. -/
def rejection (cfg : CacheConfig) (key : Key) (item : CacheItem) (writtenAt : Int64) :
    Option CommitResult :=
  if key.size > cfg.maxKeySize then some .keyTooBig
  else if item.dataSize < 0 then some .dataTooBig
  else if item.isExpired writtenAt then some .wrongExpiry
  else none

/-- `cache_storage::commit_write` past its checks. -/
def writeAccepted (s : σ) (key : Key) (item : CacheItem) (writtenAt : Int64) : Except Fault σ := do
  let requiredMemory ← getRequiredMemory v s key item writtenAt
  let s ← v.evictLruData s key requiredMemory
  match ← v.getItem s key writtenAt with
  | some _ => v.updateItem s key item writtenAt
  | none => v.insertItem s key item writtenAt

/-- `cache_storage::commit_write`. -/
def commitWrite (cfg : CacheConfig) (s : σ) (key : Key) (item : CacheItem) (writtenAt : Int64) :
    Except Fault (Bool × σ) :=
  match rejection cfg key item writtenAt with
  | some code => .ok (false, v.setCommitCode s code)
  | none => do return (true, v.setCommitCode (← writeAccepted v s key item writtenAt) .doneOk)

end CommitWrite

/-- The virtual functions of the containers alone. -/
def Containers.virtuals (cfg : CacheConfig) : Virtuals Containers where
  getItem s key at_ := do return (← s.getItem key at_).map Node.val
  evictLruData s key required := s.evictLruData cfg key required
  insertItem s key item _ := do return (← s.insertItem cfg key item).2
  updateItem s key item _ := do return (← s.updateItem cfg key item).2
  setCommitCode s _ := s

namespace CacheStorage

/-- A new `cache_storage`. -/
def new : CacheStorage := { Containers.empty with commitCode := none }

/-- The virtual table of `cache_storage`. -/
def virtuals (cfg : CacheConfig) : Virtuals CacheStorage where
  getItem s := (Containers.virtuals cfg).getItem s.toContainers
  evictLruData s key required := do
    let evicted ← (Containers.virtuals cfg).evictLruData s.toContainers key required
    return { s with toContainers := evicted }
  insertItem s key item writtenAt := do
    return { s with toContainers :=
      ← (Containers.virtuals cfg).insertItem s.toContainers key item writtenAt }
  updateItem s key item writtenAt := do
    return { s with toContainers :=
      ← (Containers.virtuals cfg).updateItem s.toContainers key item writtenAt }
  setCommitCode s code := { s with commitCode := some code }

/-- `cache_storage::commit_read`. -/
def commitRead (s : CacheStorage) (key : Key) (readAt : Int64) :
    Except Fault (Bool × CacheStorage) := do
  match ← s.toContainers.getItem key readAt with
  | none => return (false, { s with commitCode := some .notFound })
  | some _ =>
    return (true, ⟨s.toContainers.markAsRecentlyUsed key, some .doneOk⟩)

/-- `cache_storage::commit_write`, called on a `cache_storage`. -/
def commitWrite (cfg : CacheConfig) (s : CacheStorage) (key : Key) (item : CacheItem)
    (writtenAt : Int64) : Except Fault (Bool × CacheStorage) :=
  LruCache.commitWrite (virtuals cfg) cfg s key item writtenAt

/-- `cache_storage::commit_purge`. -/
def commitPurge (cfg : CacheConfig) (s : CacheStorage) (purgedAt : Int64) :
    Except Fault CacheStorage := do
  return { s with toContainers := ← s.toContainers.commitPurge cfg purgedAt }

end CacheStorage

/-- A call of one of the public operations of `cache_storage`. -/
inductive StorageOp
  | commitRead (key : Key) (readAt : Int64)
  | commitWrite (key : Key) (item : CacheItem) (writtenAt : Int64)
  | commitPurge (purgedAt : Int64)
  | evictLruData (key : Key) (memoryRequired : Int32)
  | clear
deriving DecidableEq, Repr

/-- The timestamp a call carries. -/
def StorageOp.time? : StorageOp → Option Int64
  | .commitRead _ t => some t
  | .commitWrite _ _ t => some t
  | .commitPurge t => some t
  | .evictLruData _ _ => none
  | .clear => none

/-- The timestamps of the calls do not decrease. -/
def StorageOp.NonDecreasing (ops : List StorageOp) : Prop :=
  (ops.filterMap StorageOp.time?).Pairwise (· ≤ ·)

instance (ops : List StorageOp) : Decidable (StorageOp.NonDecreasing ops) :=
  inferInstanceAs (Decidable (List.Pairwise _ _))

/-- One call; the answer of the `void` operations is `none`. -/
def CacheStorage.step (cfg : CacheConfig) (s : CacheStorage) :
    StorageOp → Except Fault (Option Bool × CacheStorage)
  | .commitRead key readAt => do
    let (b, s) ← s.commitRead key readAt
    return (some b, s)
  | .commitWrite key item writtenAt => do
    let (b, s) ← s.commitWrite cfg key item writtenAt
    return (some b, s)
  | .commitPurge purgedAt => do return (none, ← s.commitPurge cfg purgedAt)
  | .evictLruData key required => do
    return (none, { s with toContainers := ← s.toContainers.evictLruData cfg key required })
  | .clear => return (none, { s with toContainers := s.toContainers.clear })

/-- A sequence of calls. -/
def CacheStorage.run (cfg : CacheConfig) (s : CacheStorage) (ops : List StorageOp) :
    Except Fault (List (Option Bool) × CacheStorage) :=
  Run.run (CacheStorage.step cfg) s ops

end LruCache
