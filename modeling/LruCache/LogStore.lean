import LruCache.Buffer
import LruCache.Crc32
import LruCache.Lib.OrderedMap

/-!
# The in-memory log store

`inmem_log_store`, which `inmem_state_mgr` hands to the Raft server, with the log entries of the
vendored library and their serialised form.

The store is a map from indices to entries that also holds a dummy entry at index 0, and the index
of the first log. The delay that emulates a disk is never switched on in this repository, so its
fields are left out. A failed `assert` ends the process: here it is the fault `thrown "assert"`.

`memory` is what a freshly allocated block holds.
-/

namespace LruCache

/-- `log_val_type`, an enumeration over `byte`: a cast can give it any byte. -/
structure LogValType where
  value : UInt8
deriving DecidableEq, Repr

/-- `log_val_type::app_log`. -/
def LogValType.appLog : LogValType := ⟨1⟩

/-- `log_entry`. The buffer is a pointer, which may be null. -/
structure LogEntry where
  term : UInt64
  valType : LogValType
  buff : Option Buffer
  timestampUs : UInt64
  hasCrc32 : Bool
  crc32 : UInt32
deriving DecidableEq, Repr

namespace LogEntry

/-- The constructor. -/
def new (term : UInt64) (buff : Option Buffer) (valType : LogValType) (logTimestamp : UInt64)
    (hasCrc32 : Bool) (crc32 : UInt32) (computeCrc : Bool) : LogEntry :=
  match buff with
  | some b =>
    if !hasCrc32 && computeCrc then
      ⟨term, valType, buff, logTimestamp, true, crc32_8 b.bytes 0⟩
    else ⟨term, valType, buff, logTimestamp, hasCrc32, crc32⟩
  | none => ⟨term, valType, none, logTimestamp, hasCrc32, crc32⟩

/-- `log_entry::get_buf`. -/
def getBuf (e : LogEntry) : Except Fault Buffer :=
  match e.buff with
  | some b => .ok b
  | none => .error (.thrown "std::runtime_error")

/-- `log_entry::serialize`. -/
def serialize (memory : Nat → UInt8) (e : LogEntry) : Except Fault Buffer :=
  match e.buff with
  | none => .error .dangling
  | some buff => do
    let buff := buff.setPos 0
    let buf ← Buffer.alloc memory (8 + 1 + buff.size)
    let buf ← buf.putULong e.term
    let buf ← buf.putByte e.valType.value
    let buf ← buf.putBuffer buff
    return buf.setPos 0

/-- `log_entry::deserialize`. The time stamp is not transmitted, and the checksum is computed
anew. -/
def deserialize (memory : Nat → UInt8) (buf : Buffer) : Except Fault LogEntry := do
  let term ← buf.getULong
  let t ← term.2.getByte
  let data ← t.2.copy memory
  return new term.1 (some data) ⟨t.1⟩ 0 false 0 true

end LogEntry

/-- `inmem_log_store`. -/
structure LogStore where
  logs : OrderedMap Nat LogEntry
  startIdx : UInt64
deriving DecidableEq

namespace LogStore

variable (memory : Nat → UInt8)

/-- The dummy entry for index 0. -/
def dummy : LogEntry :=
  .new 0 (some (.ofBytes ((List.range 8).map memory) (by simp))) .appLog 0 false 0 true

/-- `inmem_log_store()`. -/
def init : LogStore := ⟨OrderedMap.empty.set 0 (dummy memory), 1⟩

/-- `make_clone`. -/
def makeClone (entry : LogEntry) : Except Fault LogEntry := do
  let buf ← entry.getBuf
  let buf ← buf.clone memory
  return .new entry.term (some buf) entry.valType entry.timestampUs entry.hasCrc32 entry.crc32 false

/-- `next_slot`. -/
def nextSlot (s : LogStore) : UInt64 := s.startIdx + UInt64.ofNat s.logs.size - 1

/-- `logs_.find(index)`, with the entry at 0 in its absence. -/
def findOrDummy (s : LogStore) (index : UInt64) : Except Fault LogEntry :=
  match s.logs.find? index.toNat with
  | some entry => .ok entry
  | none =>
    match s.logs.find? 0 with
    | some entry => .ok entry
    | none => .error .dangling

/-- `last_entry`. -/
def lastEntry (s : LogStore) : Except Fault LogEntry := do
  makeClone memory (← s.findOrDummy (s.nextSlot - 1))

/-- `entry_at`. -/
def entryAt (s : LogStore) (index : UInt64) : Except Fault LogEntry := do
  makeClone memory (← s.findOrDummy index)

/-- `term_at`. -/
def termAt (s : LogStore) (index : UInt64) : Except Fault UInt64 := do
  return (← s.findOrDummy index).term

/-- `append`: the index of the new entry. -/
def append (s : LogStore) (entry : LogEntry) : Except Fault (UInt64 × LogStore) := do
  let clone ← makeClone memory entry
  let idx := s.startIdx + UInt64.ofNat s.logs.size - 1
  return (idx, { s with logs := s.logs.set idx.toNat clone })

/-- `write_at`. -/
def writeAt (s : LogStore) (index : UInt64) (entry : LogEntry) : Except Fault LogStore := do
  let clone ← makeClone memory entry
  -- The loop erases from `lower_bound(index)` to the end.
  let logs := s.logs.restrict fun k => k < index.toNat
  return { s with logs := logs.set index.toNat clone }

/-- The entry that a loop over a range of indices reads at `index`. -/
def require (s : LogStore) (index : UInt64) : Except Fault LogEntry :=
  match s.logs.find? index.toNat with
  | some entry => .ok entry
  | none => .error (.thrown "assert")

/-- `log_entries`: a vector of `end - start` pointers, filled from the front. -/
def logEntries (s : LogStore) (start «end» : UInt64) : Except Fault (List (Option LogEntry)) := do
  let size := («end» - start).toNat
  if size < 2 ^ 59 then
    if start < «end» then
      (List.range size).mapM fun i => do
        return some (← makeClone memory (← s.require (start + UInt64.ofNat i)))
    else return List.replicate size none
  else .error (.thrown "std::length_error")

/-- The loop of `log_entries_ext`, with `n` indices to go. -/
def extLoop (s : LogStore) (hint : UInt64) : Nat → UInt64 → UInt64 → Except Fault (List LogEntry)
  | 0, _, _ => .ok []
  | n + 1, index, accumSize => do
    let src ← s.require index
    let entry ← makeClone memory src
    let accumSize := accumSize + (← src.getBuf).size
    if hint ≠ 0 ∧ accumSize ≥ hint then return [entry]
    else return entry :: (← extLoop s hint n (index + 1) accumSize)

/-- `log_entries_ext`. -/
def logEntriesExt (s : LogStore) (start «end» : UInt64) (batchSizeHintInBytes : Int64) :
    Except Fault (List LogEntry) :=
  if batchSizeHintInBytes < 0 then .ok []
  else extLoop memory s batchSizeHintInBytes.toUInt64 («end».toNat - start.toNat) start 0

/-- The loop of `compact` that erases one index after the other. -/
def compactLoop (logs : OrderedMap Nat LogEntry) (index : Nat) : Nat → OrderedMap Nat LogEntry
  | 0 => logs
  | n + 1 => compactLoop (logs.erase index) (index + 1) n

/-- `compact`. The loop condition is always true for the greatest index. -/
def compact (s : LogStore) (lastLogIndex : UInt64) : Except Fault LogStore :=
  if lastLogIndex.toNat = 2 ^ 64 - 1 then .error .unbounded
  else
    let logs := compactLoop s.logs s.startIdx.toNat (lastLogIndex.toNat + 1 - s.startIdx.toNat)
    .ok ⟨logs, if s.startIdx ≤ lastLogIndex then lastLogIndex + 1 else s.startIdx⟩

/-- `last_durable_index`, without an emulated disk. -/
def lastDurableIndex (s : LogStore) : UInt64 := s.nextSlot - 1

/-- The loop of `pack` over the entries. -/
def packLoop (s : LogStore) : Nat → UInt64 → Except Fault (List Buffer)
  | 0, _ => .ok []
  | n + 1, index => do
    let le ← s.require index
    let buf ← le.serialize memory
    return buf :: (← packLoop s n (index + 1))

/-- The loop of `pack` over the serialised entries. -/
def putAll (bufOut : Buffer) : List Buffer → Except Fault Buffer
  | [] => .ok bufOut
  | bb :: rest => do
    let bufOut ← bufOut.putInt32 bb.size.toUInt32.toInt32
    let bufOut ← bufOut.putBuffer bb
    putAll bufOut rest

/-- `pack`. -/
def pack (s : LogStore) (index : UInt64) (cnt : Int32) : Except Fault Buffer := do
  let logs ← packLoop memory s ((index + cnt.toInt64.toUInt64).toNat - index.toNat) index
  let sizeTotal := (logs.map Buffer.size).foldl (· + ·) 0
  let bufOut ← Buffer.alloc memory (4 + cnt.toInt64.toUInt64 * 4 + sizeTotal)
  let bufOut ← (bufOut.setPos 0).putInt32 cnt
  putAll bufOut logs

/-- The loop of `apply_pack`, with `n` entries to go. What it has stored when a step throws
stays. -/
def applyLoop (pack : Buffer) (curIdx : UInt64) :
    Nat → OrderedMap Nat LogEntry → OrderedMap Nat LogEntry × Except Fault Unit
  | 0, logs => (logs, .ok ())
  | n + 1, logs =>
    let read : Except Fault (LogEntry × Buffer) := do
      let bufSize ← pack.getInt
      let bufLocal ← Buffer.alloc memory bufSize.1.toInt64.toUInt64
      let copied ← bufSize.2.getBuffer bufLocal
      let le ← LogEntry.deserialize memory copied.1
      return (le, copied.2)
    match read with
    | .error fault => (logs, .error fault)
    | .ok (le, pack) => applyLoop pack (curIdx + 1) n (logs.set curIdx.toNat le)

/-- `apply_pack`: the store it leaves, and how it ends. -/
def applyPack (s : LogStore) (index : UInt64) (pack : Buffer) : LogStore × Except Fault Unit :=
  match (pack.setPos 0).getInt with
  | .error fault => (s, .error fault)
  | .ok (numLogs, pack) =>
    match applyLoop memory pack index numLogs.toInt.toNat s.logs with
    | (logs, .error fault) => ({ s with logs := logs }, .error fault)
    | (logs, .ok ()) => (⟨logs, UInt64.ofNat ((logs.upperBound 0).getD 1)⟩, .ok ())

end LogStore

end LruCache
