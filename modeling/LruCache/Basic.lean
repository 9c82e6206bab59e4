import Mathlib.Data.UInt
import LruCache.Lib.Bytes
import LruCache.Lib.NodeList

/-!
# Items, configuration and sizes

The data types the storages share: `cache_config` (its `[cache]` section), `cache_item`, the commit
codes, and the two arithmetic helpers `get_item_size` and `next_purge_time`.

`size_t` is `UInt64`, `std::time_t` is `Int64` and `int` is `Int32`, so that every operation wraps
where the source's does. A signed overflow, which the language leaves undefined, is the wrap of the
two's complement target. A step with no defined result at all (the use of an erased node, a division
by zero) is a `Fault`.
-/

namespace LruCache

/-- Why a call has no result. -/
inductive Fault
  /-- An iterator or a pointer is used after its node has been erased, or is null. -/
  | dangling
  | divisionByZero
  /-- A `memcpy` runs past the end of its source or of its destination. -/
  | outOfBounds
  /-- An exception leaves the call: the name of its type. -/
  | thrown (exception : String)
  /-- A loop of the model has used up its bound on the number of rounds. -/
  | unbounded
deriving DecidableEq, Repr

/-- `memcpy(buffer + ptr, src, n)`. -/
def memcpy (buffer : List UInt8) (ptr : Nat) (src : List UInt8) (n : UInt64) :
    Except Fault (List UInt8) :=
  if n.toNat ≤ src.length then
    match Bytes.overwrite buffer ptr (src.take n.toNat) with
    | some buffer => .ok buffer
    | none => .error .outOfBounds
  else .error .outOfBounds

theorem memcpy_eq_ok {buffer buffer' src : List UInt8} {ptr : Nat} {n : UInt64}
    (hn : n.toNat ≤ src.length)
    (h : Bytes.overwrite buffer ptr (src.take n.toNat) = some buffer') :
    memcpy buffer ptr src n = .ok buffer' := by
  unfold memcpy
  rw [if_pos hn, h]

theorem memcpy_all_eq_ok {buffer buffer' src : List UInt8} {ptr : Nat} {n : UInt64}
    (hn : n.toNat = src.length) (h : Bytes.overwrite buffer ptr src = some buffer') :
    memcpy buffer ptr src n = .ok buffer' :=
  memcpy_eq_ok (Nat.le_of_eq hn) (by rwa [hn, List.take_length])

/-- A `std::string` used as a key. The bound is `std::string::max_size()`. -/
structure Key where
  bytes : List UInt8
  length_lt : bytes.length < 2 ^ 62
deriving DecidableEq, Repr

/-- `key.size()`. -/
def Key.size (key : Key) : UInt64 := UInt64.ofNat key.bytes.length

theorem Key.toNat_size (key : Key) : key.size.toNat = key.bytes.length :=
  UInt64.toNat_ofNat_of_lt' (Nat.lt_trans key.length_lt (by decide))

/-- `item_data`, a `std::vector<unsigned char>`. The bound is its `max_size()`. -/
structure ItemData where
  bytes : List UInt8
  length_lt : bytes.length < 2 ^ 63
deriving DecidableEq, Repr

/-- `data()` of the vector. An empty vector owns no memory, and its pointer is null. -/
def ItemData.pointer (data : ItemData) : Option ItemData :=
  if data.bytes = [] then none else some data

/-- The `[cache]` section of `cache_config`. -/
structure CacheConfig where
  cacheSize : UInt64
  maxItemSize : UInt64
  maxKeySize : UInt64
  purgeInterval : Int32
deriving DecidableEq, Repr

/-- `cache_storage::commit_result`. -/
inductive CommitResult
  | doneOk
  | notFound
  | keyTooBig
  | dataTooBig
  | wrongExpiry
deriving DecidableEq, Repr

/-- `cache_item`. The key is a pointer to the key string of an `item_map_` node, null until the item
is stored. The data is shared by copies of the item and never written once the item exists. -/
structure CacheItem where
  key : Option Addr
  data : ItemData
  dataSize : UInt64
  expiresAt : Int64
deriving DecidableEq, Repr

/-- `cache_item::is_expired`. -/
def CacheItem.isExpired (item : CacheItem) (checkedAt : Int64) : Bool :=
  decide (item.expiresAt ≤ checkedAt)

/-- `cache_item(bytes, len, exp)`: the vector of `len` bytes is allocated, then filled from
`bytes`. -/
def CacheItem.make (bytes : List UInt8) (len : UInt64) (exp : Int64) : Except Fault CacheItem :=
  if h : len.toNat < 2 ^ 63 then
    if len.toNat ≤ bytes.length then
      .ok { key := none
            data := ⟨bytes.take len.toNat, by rw [List.length_take]; omega⟩
            dataSize := len
            expiresAt := exp }
    else .error .outOfBounds
  else .error (.thrown "std::length_error")

/-- `sizeof(cache_item)`: two pointers for the data, one for the key, a `size_t` and a `time_t`. -/
def sizeofCacheItem : UInt64 := 40

/-- `sizeof(std::list<cache_item>::iterator)`. -/
def sizeofItemIterator : UInt64 := 8

/-- `cache_storage::get_item_size`. -/
def getItemSize (key : Key) (dataSize : UInt64) : UInt64 :=
  0 + sizeofCacheItem + sizeofItemIterator + dataSize + key.size

/-- A stored item as its users see it, without the pointers. -/
structure Entry where
  key : Key
  data : ItemData
  dataSize : UInt64
  expiresAt : Int64
deriving DecidableEq, Repr

def Entry.isExpired (e : Entry) (checkedAt : Int64) : Bool := decide (e.expiresAt ≤ checkedAt)

def Entry.size (e : Entry) : UInt64 := getItemSize e.key e.dataSize

/-- The entry that a write of `item` under `key` asks for. -/
def CacheItem.entry (item : CacheItem) (key : Key) : Entry :=
  ⟨key, item.data, item.dataSize, item.expiresAt⟩

/-- The value of `next_purge_time` when the interval is not zero. -/
def purgeTimeAfter (current : Int64) (interval : Int32) : Int64 :=
  let remainder : Int32 := (current % interval.toInt64).toInt32
  let difference : Int32 := interval - remainder
  current + difference.toInt64

/-- `cache_storage::next_purge_time`. -/
def nextPurgeTime (current : Int64) (interval : Int32) : Except Fault Int64 :=
  if interval = 0 then .error .divisionByZero else .ok (purgeTimeAfter current interval)

theorem nextPurgeTime_eq_ok {current t : Int64} {interval : Int32} :
    nextPurgeTime current interval = .ok t ↔
      interval ≠ 0 ∧ t = purgeTimeAfter current interval := by
  unfold nextPurgeTime
  by_cases h : interval = 0
  · rw [if_pos h]
    exact ⟨(fun he => nomatch he), (fun he => absurd h he.1)⟩
  · rw [if_neg h]
    exact ⟨fun he => ⟨h, (Except.ok.inj he).symm⟩, fun he => by rw [he.2]⟩

theorem nextPurgeTime_of_ne_zero {interval : Int32} (h : interval ≠ 0) (current : Int64) :
    nextPurgeTime current interval = .ok (purgeTimeAfter current interval) :=
  if_neg h

namespace Sample

/-! A small cache for the concrete runs of the later modules. -/

def config : CacheConfig := ⟨1024, 512, 64, 60⟩

def key (b : UInt8) : Key := ⟨[b], by simp⟩

/-- An item of `n` zero bytes. -/
def item (n : Nat) (h : n < 2 ^ 63) (expiresAt : Int64) : CacheItem :=
  ⟨none, ⟨List.replicate n 0, by rwa [List.length_replicate]⟩, UInt64.ofNat n, expiresAt⟩

/-- An item of fewer than `2 ^ 16` zero bytes. -/
def zeros (n : UInt16) (expiresAt : Int64) : CacheItem :=
  item n.toNat (Nat.lt_trans n.toNat_lt (by decide)) expiresAt

end Sample

end LruCache
