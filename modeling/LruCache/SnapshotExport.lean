import LruCache.CacheState

/-!
# The export of a snapshot

`read_snapshot_chunk` copies the items of the frozen storage into a buffer, one record after the
other, until the next one does not fit. Its caller passes the index it returns back until it is -1.

The records of one call are a segment of `items_`: each call starts where the one before it stopped,
and takes at least one item when the buffer can hold any item. The commits made in between go to the
overlay, so the segments together are the contents at `begin_snapshot`.
-/

namespace LruCache

/-! ## `read_snapshot_chunk` -/

/-- The result of `read_snapshot_chunk`, with its two output parameters. -/
structure Chunk where
  buffer : List UInt8
  itemIndex : Int32
  read : UInt64
deriving DecidableEq, Repr

namespace Containers

/-- `cache_item::size`. -/
def itemSize (s : Containers) (item : CacheItem) : Except Fault UInt64 := do
  let result : UInt64 := 0 + 8
  let keySize ← match item.key with
    | none => pure 0
    | some a => Key.size <$> s.derefKey (some a)
  return result + keySize + 8 + item.dataSize + 8

/-- The copies that the loop of `read_snapshot_chunk` makes of one item: the buffer and the pointer
after them. -/
def copyItem (s : Containers) (item : CacheItem) (buffer : List UInt8) (ptr : Nat) :
    Except Fault (List UInt8 × Nat) := do
  -- key
  let key ← s.derefKey item.key
  let buffer ← memcpy buffer ptr (Bytes.ofNat 8 key.size.toNat) 8
  let ptr := ptr + 8
  let buffer ← memcpy buffer ptr key.bytes key.size
  let ptr := ptr + key.size.toNat
  -- data
  let buffer ← memcpy buffer ptr (Bytes.ofNat 8 item.dataSize.toNat) 8
  let ptr := ptr + 8
  let buffer ← memcpy buffer ptr item.data.bytes item.dataSize
  let ptr := ptr + item.dataSize.toNat
  -- expiry
  let buffer ← memcpy buffer ptr (Bytes.ofNat 8 item.expiresAt.toUInt64.toNat) 8
  return (buffer, ptr + 8)

/-- The loop of `read_snapshot_chunk`, from the iterator at the first of the nodes on. -/
def chunkLoop (s : Containers) (chunkSize : UInt64) :
    List (Node CacheItem) → Chunk → Nat → Except Fault Chunk
  | [], c, _ => .ok { c with itemIndex := -1 }
  | n :: ns, c, ptr => do
    let size ← s.itemSize n.val
    if c.read + size > chunkSize then return c
    let (buffer, ptr) ← s.copyItem n.val c.buffer ptr
    chunkLoop s chunkSize ns ⟨buffer, c.itemIndex + 1, c.read + size⟩ ptr

/-- `cache_storage::read_snapshot_chunk`. The allocation of the buffer is taken to succeed. -/
def readSnapshotChunk (s : Containers) (chunkSize : UInt64) (itemIndex : Int32) :
    Except Fault Chunk :=
  let start := min s.items.length itemIndex.toInt64.toUInt64.toNat
  s.chunkLoop chunkSize (s.items.drop start) ⟨List.replicate chunkSize.toNat 0, itemIndex, 0⟩ 0

end Containers

/-- A buffer of that size can exist: no object is larger than `PTRDIFF_MAX`. -/
def Allocatable (chunkSize : UInt64) : Prop := chunkSize.toNat < 2 ^ 63

instance (chunkSize : UInt64) : Decidable (Allocatable chunkSize) :=
  inferInstanceAs (Decidable (_ < _))

/-! ## The documented format -/

/-- An item as the export carries it. -/
structure ExportedItem where
  key : List UInt8
  data : List UInt8
  expiresAt : Int64
deriving DecidableEq, Repr

def Entry.exported (e : Entry) : ExportedItem := ⟨e.key.bytes, e.data.bytes, e.expiresAt⟩

/-- Key size, key, data size, data, expiry; the sizes and the expiry in 8 bytes. -/
def ExportedItem.bytes (x : ExportedItem) : List UInt8 :=
  Bytes.ofNat 8 x.key.length ++ (x.key ++ (Bytes.ofNat 8 x.data.length ++ (x.data ++
    Bytes.ofNat 8 x.expiresAt.toUInt64.toNat)))

/-- The record of a stored item. -/
def Entry.record (e : Entry) : List UInt8 := e.exported.bytes

theorem ExportedItem.length_bytes (x : ExportedItem) :
    x.bytes.length = 8 + (x.key.length + (8 + (x.data.length + 8))) := by
  simp only [bytes, List.length_append, Bytes.length_ofNat]

namespace Containers

variable {s : Containers} {item : CacheItem} {key : Key}

/-- `size` is the length of the record. -/
theorem itemSize_eq (hk : s.derefKey item.key = .ok key)
    (hd : item.data.bytes.length = item.dataSize.toNat) :
    ∃ size, s.itemSize item = .ok size ∧
      size.toNat = (item.entry key).record.length := by
  have hkey := key.toNat_size
  have hklt := key.length_lt
  have hdlt := item.data.length_lt
  refine ⟨0 + 8 + key.size + 8 + item.dataSize + 8, ?_, ?_⟩
  · unfold itemSize
    cases hp : item.key with
    | none =>
      rw [hp] at hk
      cases hk
    | some a =>
      rw [hp] at hk
      simp only [hk]
      rfl
  · rw [Entry.record, ExportedItem.length_bytes]
    simp only [UInt64.toNat_add, UInt64.reduceToNat, hkey, Entry.exported, CacheItem.entry]
    omega

/-- The five copies write the record of the item. -/
theorem copyItem_eq {buffer buffer' : List UInt8} {ptr : Nat}
    (hk : s.derefKey item.key = .ok key) (hd : item.data.bytes.length = item.dataSize.toNat)
    (h : Bytes.overwrite buffer ptr (item.entry key).record = some buffer') :
    s.copyItem item buffer ptr =
      .ok (buffer', ptr + (item.entry key).record.length) := by
  have hkey := key.toNat_size
  simp only [Entry.record, ExportedItem.bytes, Entry.exported, CacheItem.entry] at h
  rw [Bytes.overwrite_append] at h
  obtain ⟨b₁, h₁, h⟩ := Option.bind_eq_some_iff.mp h
  rw [Bytes.overwrite_append] at h
  obtain ⟨b₂, h₂, h⟩ := Option.bind_eq_some_iff.mp h
  rw [Bytes.overwrite_append] at h
  obtain ⟨b₃, h₃, h⟩ := Option.bind_eq_some_iff.mp h
  rw [Bytes.overwrite_append] at h
  obtain ⟨b₄, h₄, h₅⟩ := Option.bind_eq_some_iff.mp h
  simp only [Bytes.length_ofNat, ← hkey, hd] at h₁ h₂ h₃ h₄ h₅
  have height : ∀ n, (8 : UInt64).toNat = (Bytes.ofNat 8 n).length := fun n =>
    (Bytes.length_ofNat 8 n).symm
  unfold copyItem
  simp only [hk, Run.ok_bind, memcpy_all_eq_ok (height _) h₁, memcpy_all_eq_ok hkey h₂,
    memcpy_all_eq_ok (height _) h₃, memcpy_all_eq_ok hd.symm h₄, memcpy_all_eq_ok (height _) h₅]
  refine congrArg _ (Prod.ext rfl ?_)
  rw [Entry.record, ExportedItem.length_bytes]
  simp only [Entry.exported, CacheItem.entry, hkey, hd]
  omega

/-- The loop writes the records of a first part of the items, until the next one does not fit. -/
theorem chunkLoop_eq {chunkSize : UInt64} (hmax : Allocatable chunkSize)
    {ns : List (Node CacheItem)} {es : List Entry}
    (hes : (ns.mapM fun n => do return n.val.entry (← s.derefKey n.val.key)) = .ok es)
    (hd : ∀ e ∈ es, e.data.bytes.length = e.dataSize.toNat)
    (hfit : ∀ e ∈ es, e.record.length ≤ chunkSize.toNat) {c : Chunk}
    (hlen : c.buffer.length = chunkSize.toNat) (hread : c.read.toNat ≤ chunkSize.toNat) :
    ∃ c' taken rest, s.chunkLoop chunkSize ns c c.read.toNat = .ok c' ∧ es = taken ++ rest ∧
      c'.buffer.take c'.read.toNat = c.buffer.take c.read.toNat ++ taken.flatMap Entry.record ∧
      c'.read.toNat = c.read.toNat + (taken.flatMap Entry.record).length ∧
      c'.read.toNat ≤ chunkSize.toNat ∧
      c'.itemIndex = (if rest = [] then -1 else c.itemIndex + Int32.ofNat taken.length) ∧
      ∀ e ∈ rest.head?, chunkSize.toNat < c'.read.toNat + e.record.length := by
  induction ns generalizing es c with
  | nil =>
    cases hes
    refine ⟨_, [], [], rfl, rfl, ?_, rfl, hread, rfl, fun e he => nomatch he⟩
    exact (List.append_nil _).symm
  | cons n ns ih =>
    rw [List.mapM_cons] at hes
    obtain ⟨e, he, hes⟩ := Run.bind_eq_ok.mp hes
    obtain ⟨es', hes', hes⟩ := Run.bind_eq_ok.mp hes
    cases hes
    obtain ⟨key, hk, he⟩ := Run.bind_eq_ok.mp he
    cases he
    have hn := hd _ List.mem_cons_self
    have hle := hfit _ List.mem_cons_self
    obtain ⟨size, hsize, hsizeNat⟩ := itemSize_eq hk hn
    have hsum : (c.read + size).toNat = c.read.toNat + (n.val.entry key).record.length := by
      unfold Allocatable at hmax
      rw [UInt64.toNat_add, hsizeNat]
      omega
    unfold chunkLoop
    simp only [hsize, Run.ok_bind]
    by_cases hgt : c.read + size > chunkSize
    · rw [if_pos hgt]
      refine ⟨c, [], _, rfl, rfl, (List.append_nil _).symm, rfl, hread, ?_, ?_⟩
      · rw [if_neg (List.cons_ne_nil _ _)]
        exact (Int32.add_zero _).symm
      · intro e he
        cases he
        rw [← hsum]
        exact UInt64.lt_iff_toNat_lt.mp hgt
    · rw [if_neg hgt]
      have hroom : (c.read + size).toNat ≤ chunkSize.toNat :=
        UInt64.le_iff_toNat_le.mp (UInt64.not_lt.mp hgt)
      obtain ⟨buffer, hbuffer⟩ : ∃ buffer,
          Bytes.overwrite c.buffer c.read.toNat (n.val.entry key).record = some buffer :=
        ⟨_, Bytes.overwrite_eq_some (by omega)⟩
      obtain ⟨c', taken, rest, hloop, hsplit, htake, hnext, hbound, hindex, hstop⟩ :=
        ih (c := ⟨buffer, c.itemIndex + 1, c.read + size⟩) hes'
          (fun e he => hd e (List.mem_cons_of_mem _ he))
          (fun e he => hfit e (List.mem_cons_of_mem _ he))
          ((Bytes.length_overwrite hbuffer).trans hlen) hroom
      refine ⟨c', n.val.entry key :: taken, rest, ?_, by rw [hsplit]; rfl, ?_, ?_, hbound, ?_,
        hstop⟩
      · rw [copyItem_eq hk hn hbuffer, Run.ok_bind, ← hsum]
        exact hloop
      · rw [htake, List.flatMap_cons, ← List.append_assoc, ← Bytes.take_overwrite hbuffer, hsum]
      · rw [hnext, List.flatMap_cons, List.length_append]
        show (c.read + size).toNat + _ = _
        rw [hsum, Nat.add_assoc]
      · rw [hindex, List.length_cons]
        split
        · rfl
        · show c.itemIndex + 1 + Int32.ofNat taken.length = _
          rw [Int32.add_assoc, Nat.add_comm taken.length 1, Int32.ofNat_add]
          rfl

theorem toNat_itemIndex {n : Nat} (h : n < 2 ^ 31) :
    (Int32.ofNat n).toInt64.toUInt64.toNat = n := by
  have hint : (Int32.ofNat n).toInt64.toInt = n := by
    rw [Int32.toInt_toInt64, Int32.toInt_ofNat_of_lt h]
  have hnonneg : 0 ≤ (Int32.ofNat n).toInt64 := by
    rw [Int64.le_iff_toInt_le, hint]
    exact Int.natCast_nonneg n
  rw [Int64.toNat_toUInt64_of_le hnonneg, Int64.toNatClampNeg, hint]
  rfl

theorem itemIndex_ne {n : Nat} (h : n < 2 ^ 31) : Int32.ofNat n ≠ -1 := by
  intro hend
  have hnat := toNat_itemIndex h
  rw [hend] at hnat
  rw [← hnat] at h
  exact absurd h (by decide)

/-- A call that starts after the items `done` returns the records of the next items, at least one if
any is left, and the index of the item after them. -/
theorem readSnapshotChunk_eq {chunkSize : UInt64} (hmax : Allocatable chunkSize)
    {done ahead : List Entry} (hl : s.entries = .ok (done ++ ahead))
    (hn : (done ++ ahead).length < 2 ^ 31)
    (hd : ∀ e ∈ ahead, e.data.bytes.length = e.dataSize.toNat)
    (hfit : ∀ e ∈ ahead, e.record.length ≤ chunkSize.toNat) :
    ∃ c taken rest, s.readSnapshotChunk chunkSize (Int32.ofNat done.length) = .ok c ∧
      ahead = taken ++ rest ∧ c.buffer.take c.read.toNat = taken.flatMap Entry.record ∧
      c.read ≤ chunkSize ∧
      c.itemIndex = (if rest = [] then -1 else Int32.ofNat (done ++ taken).length) ∧
      (rest ≠ [] → taken ≠ []) := by
  have hlen := Run.length_of_mapM hl
  have hstart : min s.items.length (Int32.ofNat done.length).toInt64.toUInt64.toNat =
      done.length := by
    rw [List.length_append] at hlen hn
    rw [toNat_itemIndex (by omega)]
    omega
  have hes := Run.mapM_drop hl done.length
  rw [List.drop_left] at hes
  obtain ⟨c, taken, rest, hloop, hsplit, htake, hread, hbound, hindex, hstop⟩ :=
    chunkLoop_eq hmax hes hd hfit
      (c := ⟨List.replicate chunkSize.toNat 0, Int32.ofNat done.length, 0⟩)
      List.length_replicate (Nat.zero_le _)
  refine ⟨c, taken, rest, ?_, hsplit, htake, UInt64.le_iff_toNat_le.mpr hbound, ?_, ?_⟩
  · unfold readSnapshotChunk
    rw [hstart]
    exact hloop
  · rw [hindex, List.length_append, Int32.ofNat_add]
  · rintro hrest rfl
    obtain ⟨e, es, rfl⟩ := List.exists_cons_of_ne_nil hrest
    have hlt := hstop e rfl
    have hle := hfit e (by rw [hsplit]; exact List.mem_cons_self)
    rw [hread] at hlt
    exact Nat.not_lt.mpr hle (by simpa using hlt)

end Containers

/-! ## The loop of the caller -/

/-- A call made during the snapshot. -/
inductive ExportCall
  | commit (op : CacheOp)
  | readChunk
deriving DecidableEq, Repr

def ExportCall.commit? : ExportCall → Option CacheOp
  | .commit op => some op
  | .readChunk => none

/-- The cache, the index that the caller passes next and the chunks it has. -/
structure Export where
  state : CacheState
  itemIndex : Int32
  chunks : List Chunk
deriving DecidableEq, Repr

namespace Export

/-- The export starts at item 0. -/
def start (st : CacheState) : Export := ⟨st.beginSnapshot, 0, []⟩

/-- One call. The caller stops calling `read_snapshot_chunk` once the index is -1. -/
def step (cfg : CacheConfig) (chunkSize : UInt64) (x : Export) :
    ExportCall → Except Fault (Unit × Export)
  | .commit op => do
    let (_, st) ← x.state.step cfg op
    return ((), { x with state := st })
  | .readChunk =>
    if x.itemIndex = -1 then .ok ((), x)
    else do
      let c ← x.state.storage.readSnapshotChunk chunkSize x.itemIndex
      return ((), { x with itemIndex := c.itemIndex, chunks := x.chunks ++ [c] })

/-- The first `read` bytes of each chunk. -/
def bytes (x : Export) : List UInt8 := x.chunks.flatMap fun c => c.buffer.take c.read.toNat

end Export

/-- After `calls` calls of `read_snapshot_chunk`: the bytes are those of the items up to the index,
or of all items once it is -1. -/
structure Exporting (storage : CacheStorage) (l : List Entry) (chunkSize : UInt64) (calls : Nat)
    (x : Export) : Prop where
  inProgress : x.state.snapshotInProgress = true
  storage : x.state.storage = storage
  read_le : ∀ c ∈ x.chunks, c.read ≤ chunkSize
  progress : (x.itemIndex = -1 ∧ x.bytes = l.flatMap Entry.record) ∨
    ∃ done ahead, l = done ++ ahead ∧ x.itemIndex = Int32.ofNat done.length ∧
      x.bytes = done.flatMap Entry.record ∧ calls ≤ done.length ∧ (ahead = [] → calls = 0)

namespace Exporting

variable {cfg : CacheConfig} {storage : CacheStorage} {l : List Entry} {chunkSize : UInt64}
  {calls : Nat} {x : Export}

theorem start (st : CacheState) (l : List Entry) (chunkSize : UInt64) :
    Exporting st.storage l chunkSize 0 (.start st) where
  inProgress := rfl
  storage := rfl
  read_le := fun _ hc => nomatch hc
  progress := .inr ⟨[], l, rfl, rfl, rfl, Nat.le_refl 0, fun _ => rfl⟩

/-- Commits leave the frozen storage as it is. -/
theorem commit (h : Exporting storage l chunkSize calls x) {op : CacheOp} {a : Option Bool}
    {st : CacheState} (hop : op.isCommit = true) (hs : x.state.step cfg op = .ok (a, st)) :
    Exporting storage l chunkSize calls { x with state := st } := by
  have hstep := CacheState.step_snapshot h.inProgress hop hs
  exact ⟨hstep.inProgress_eq.trans h.inProgress, hstep.storage_eq.trans h.storage, h.read_le,
    h.progress⟩

theorem readChunk (h : Exporting storage l chunkSize calls x) (cfg : CacheConfig)
    (hl : storage.entries = .ok l) (hn : l.length < 2 ^ 31)
    (hd : ∀ e ∈ l, e.data.bytes.length = e.dataSize.toNat)
    (hmax : Allocatable chunkSize) (hfit : ∀ e ∈ l, e.record.length ≤ chunkSize.toNat) :
    ∃ x', x.step cfg chunkSize .readChunk = .ok ((), x') ∧ x'.state = x.state ∧
      Exporting storage l chunkSize (calls + 1) x' := by
  unfold Export.step
  rcases h.progress with ⟨hend, hbytes⟩ | ⟨done, ahead, rfl, hindex, hbytes, hcalls, hnone⟩
  · rw [if_pos hend]
    exact ⟨x, rfl, rfl, h.inProgress, h.storage, h.read_le, .inl ⟨hend, hbytes⟩⟩
  · have hne : ¬ x.itemIndex = -1 :=
      hindex ▸ Containers.itemIndex_ne (Nat.lt_of_le_of_lt (by simp) hn)
    rw [if_neg hne, hindex, h.storage]
    obtain ⟨c, taken, rest, hchunk, hsplit, htake, hread, hnext, hsome⟩ :=
      Containers.readSnapshotChunk_eq hmax hl hn
        (fun e he => hd e (List.mem_append_right _ he))
        (fun e he => hfit e (List.mem_append_right _ he))
    simp only [hchunk, Run.ok_bind]
    refine ⟨_, rfl, rfl, h.inProgress, h.storage, fun c' hc' => ?_, ?_⟩
    · rcases List.mem_append.mp hc' with hc' | hc'
      · exact h.read_le c' hc'
      · rw [List.mem_singleton.mp hc']
        exact hread
    have hall : (Export.mk x.state c.itemIndex (x.chunks ++ [c])).bytes =
        (done ++ taken).flatMap Entry.record := by
      unfold Export.bytes at hbytes ⊢
      rw [List.flatMap_append, hbytes, List.flatMap_append, List.flatMap_singleton, htake]
    by_cases hrest : rest = []
    · subst hrest
      rw [List.append_nil] at hsplit
      exact .inl ⟨by rw [hnext, if_pos rfl], hsplit ▸ hall⟩
    · refine .inr ⟨done ++ taken, rest, by rw [hsplit, List.append_assoc], ?_, hall, ?_,
        fun hnil => absurd hnil hrest⟩
      · rw [hnext, if_neg hrest]
      · rw [List.length_append]
        have := List.length_pos_iff.mpr (hsome hrest)
        omega

/-- The export returns whenever its commits do. -/
theorem run (h : Exporting storage l chunkSize calls x) (hl : storage.entries = .ok l)
    (hn : l.length < 2 ^ 31) (hd : ∀ e ∈ l, e.data.bytes.length = e.dataSize.toNat)
    (hmax : Allocatable chunkSize) (hfit : ∀ e ∈ l, e.record.length ≤ chunkSize.toNat)
    {cs : List ExportCall} (hcs : ∀ op, ExportCall.commit op ∈ cs → op.isCommit = true)
    {answers : List (Option Bool)} {st : CacheState}
    (hrun : CacheState.run cfg x.state (cs.filterMap ExportCall.commit?) = .ok (answers, st)) :
    ∃ units x', Run.run (Export.step cfg chunkSize) x cs = .ok (units, x') ∧
      Exporting storage l chunkSize (calls + cs.count .readChunk) x' := by
  induction cs generalizing x calls answers with
  | nil => exact ⟨[], x, rfl, h⟩
  | cons call cs ih =>
    have hrest : ∀ op, ExportCall.commit op ∈ cs → op.isCommit = true :=
      fun op hop => hcs op (List.mem_cons_of_mem call hop)
    cases call with
    | commit op =>
      have hrun : CacheState.run cfg x.state (op :: cs.filterMap ExportCall.commit?) =
        .ok (answers, st) := hrun
      obtain ⟨a, st₁, as, hstep, hrun, -⟩ := Run.run_cons.mp hrun
      obtain ⟨units, x', hx', h'⟩ :=
        ih (h.commit (hcs op List.mem_cons_self) hstep) hrest hrun
      refine ⟨() :: units, x', Run.run_cons.mpr ⟨(), _, units, ?_, hx', rfl⟩, ?_⟩
      · simp only [Export.step, hstep, Run.ok_bind]
        rfl
      · have hne : ExportCall.commit op ≠ .readChunk := fun h => nomatch h
        rwa [List.count_cons_of_ne hne]
    | readChunk =>
      have hrun : CacheState.run cfg x.state (cs.filterMap ExportCall.commit?) =
        .ok (answers, st) := hrun
      obtain ⟨x₁, hx₁, hstate, h₁⟩ := h.readChunk cfg hl hn hd hmax hfit
      obtain ⟨units, x', hx', h'⟩ := ih h₁ hrest (hstate ▸ hrun)
      refine ⟨() :: units, x', Run.run_cons.mpr ⟨(), x₁, units, hx₁, hx', rfl⟩, ?_⟩
      rwa [List.count_cons_self, Nat.add_comm (cs.count _) 1, ← Nat.add_assoc]

end Exporting

end LruCache
