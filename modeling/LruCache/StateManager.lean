import Mathlib.Algebra.Order.BigOperators.Group.List
import Mathlib.Algebra.Order.Ring.Nat
import LruCache.Buffer
import LruCache.BufferSerializer

/-!
# `inmem_state_mgr`

The state manager keeps the cluster configuration and the state of the Raft server in memory. What
it keeps are copies: `save_config` and `save_state` serialise what they are given and read it back.

The copy of a server state is the state. The copy of a configuration is the configuration exactly
when its serialised form fits into a buffer and no endpoint and no auxiliary string contains a null
(`InMemStateMgr.loads_what_is_saved`).

The strings of a server are stored as C strings, the user context with its length.
-/

namespace LruCache

namespace BufferSerializer

/-- The number in the next `w` bytes. The fixed-width reads of the serializer are this one. -/
def getFixed (bs : BufferSerializer) (w : UInt64) : Except Fault (Nat × BufferSerializer) :=
  if bs.isValid w then do
    let (ptr, bs) ← bs.getRaw w
    return (Bytes.toNat (ptr.take w.toNat), bs)
  else .error (.thrown "std::overflow_error")

/-- `buffer_serializer::get_u8`. -/
def getU8 (bs : BufferSerializer) : Except Fault (UInt8 × BufferSerializer) := do
  let (val, bs) ← bs.getFixed 1
  return (UInt8.ofNat val, bs)

/-- `buffer_serializer::get_u64`. -/
def getU64 (bs : BufferSerializer) : Except Fault (UInt64 × BufferSerializer) := do
  let (val, bs) ← bs.getFixed 8
  return (UInt64.ofNat val, bs)

/-- `buffer_serializer::get_i32`. -/
def getI32 (bs : BufferSerializer) : Except Fault (Int32 × BufferSerializer) := do
  let (val, bs) ← bs.getFixed 4
  return ((UInt32.ofNat val).toInt32, bs)

/-- `buffer_serializer::get_cstr`: the characters before the next null. Without one, `strlen` runs
past the end of the buffer. -/
def getCstr (bs : BufferSerializer) : Except Fault (List UInt8 × BufferSerializer) :=
  let ptr := bs.buffer.drop bs.pos.toNat
  let str := ptr.takeWhile (· != 0)
  if 0 ∈ ptr then do
    return (str, ← bs.setPos (bs.pos + UInt64.ofNat str.length + 1))
  else .error .outOfBounds

/-- `buffer_serializer::put_u8`. -/
def putU8 (bs : BufferSerializer) (val : UInt8) : Except Fault BufferSerializer := bs.putRaw [val] 1

/-- `buffer_serializer::put_i32`. -/
def putI32 (bs : BufferSerializer) (val : Int32) : Except Fault BufferSerializer :=
  bs.putRaw (Bytes.ofNat 4 val.toUInt32.toNat) 4

variable {bs bs' : BufferSerializer} {a rest : List UInt8}

theorem getFixed_ahead (w : UInt64) (h : bs.Ahead (a ++ rest)) (hw : w.toNat = a.length) :
    ∃ bs', bs.getFixed w = .ok (Bytes.toNat a, bs') ∧ bs'.Ahead rest := by
  obtain ⟨bs', hget, hrest⟩ := getRaw_ahead w h hw
  refine ⟨bs', ?_, hrest⟩
  unfold getFixed
  rw [if_pos (isValid_of_room (hw ▸ h.room)), hget, Run.ok_bind, hw]
  dsimp only
  rw [List.take_left]
  rfl

theorem getU8_ahead {val : UInt8} (h : bs.Ahead (val :: rest)) :
    ∃ bs', bs.getU8 = .ok (val, bs') ∧ bs'.Ahead rest := by
  have hone : bs.Ahead ([val] ++ rest) := h
  obtain ⟨bs', hget, hrest⟩ := getFixed_ahead 1 hone rfl
  refine ⟨bs', Run.bind_eq_ok.mpr ⟨_, hget, ?_⟩, hrest⟩
  show Except.ok (UInt8.ofNat (val.toNat + 256 * 0), bs') = _
  rw [Nat.mul_zero, Nat.add_zero, UInt8.ofNat_toNat]

theorem getU64_ahead {val : UInt64} (h : bs.Ahead (Bytes.ofNat 8 val.toNat ++ rest)) :
    ∃ bs', bs.getU64 = .ok (val, bs') ∧ bs'.Ahead rest := by
  obtain ⟨bs', hget, hrest⟩ := getFixed_ahead 8 h (Bytes.length_ofNat _ _).symm
  refine ⟨bs', Run.bind_eq_ok.mpr ⟨_, hget, ?_⟩, hrest⟩
  show Except.ok (UInt64.ofNat (Bytes.toNat (Bytes.ofNat 8 val.toNat)), bs') = _
  rw [Bytes.toNat_ofNat val.toNat_lt, UInt64.ofNat_toNat]

theorem getI32_ahead {val : Int32} (h : bs.Ahead (Bytes.ofNat 4 val.toUInt32.toNat ++ rest)) :
    ∃ bs', bs.getI32 = .ok (val, bs') ∧ bs'.Ahead rest := by
  obtain ⟨bs', hget, hrest⟩ := getFixed_ahead 4 h (Bytes.length_ofNat _ _).symm
  refine ⟨bs', Run.bind_eq_ok.mpr ⟨_, hget, ?_⟩, hrest⟩
  have hval : Bytes.toNat (Bytes.ofNat 4 val.toUInt32.toNat) = val.toUInt32.toNat :=
    Bytes.toNat_ofNat val.toUInt32.toNat_lt
  show Except.ok ((UInt32.ofNat (Bytes.toNat (Bytes.ofNat 4 val.toUInt32.toNat))).toInt32, bs') = _
  rw [hval, UInt32.ofNat_toNat]
  rfl

theorem getCstr_ahead (ha : 0 ∉ a) (h : bs.Ahead (a ++ 0 :: rest)) :
    ∃ bs', bs.getCstr = .ok (a, bs') ∧ bs'.Ahead rest := by
  have hterm : bs.Ahead ((a ++ [0]) ++ rest) := by
    rw [List.append_assoc, List.singleton_append]
    exact h
  have hlen : (UInt64.ofNat a.length + 1).toNat = (a ++ [0]).length := by
    have hle := hterm.room.pos_le
    have hlt := hterm.room.length_lt
    rw [List.length_append, List.length_singleton] at hle ⊢
    rw [UInt64.toNat_add, UInt64.toNat_ofNat']
    show (a.length % 2 ^ 64 + 1) % 2 ^ 64 = _
    omega
  obtain ⟨bs', hget, hrest⟩ := getRaw_ahead _ hterm hlen
  refine ⟨bs', ?_, hrest⟩
  have hset : bs.setPos (bs.pos + (UInt64.ofNat a.length + 1)) = .ok bs' := by
    obtain ⟨r, hset, hr⟩ := Run.bind_eq_ok.mp hget
    rw [hset]
    exact congrArg (fun r => Except.ok r.2) (Except.ok.inj hr)
  have hstr : (a ++ 0 :: rest).takeWhile (· != 0) = a := by
    rw [List.takeWhile_append_of_pos, List.takeWhile_cons_of_neg (by decide), List.append_nil]
    intro c hc
    exact bne_iff_ne.mpr fun hzero => ha (hzero ▸ hc)
  unfold getCstr
  dsimp only
  rw [h.drop, hstr, if_pos (by simp), UInt64.add_assoc, hset]
  rfl

/-- What is read as a C string contains no null. -/
theorem null_notMem_getCstr (h : bs.getCstr = .ok (a, bs')) : 0 ∉ a := by
  unfold getCstr at h
  dsimp only at h
  split at h
  · obtain ⟨bs₁, -, heq⟩ := Run.bind_eq_ok.mp h
    cases heq
    intro hmem
    exact absurd (List.mem_takeWhile_imp hmem) (by decide)
  · cases h

end BufferSerializer

/-- A `std::string` with these characters. -/
def stdString (bytes : List UInt8) : Except Fault Key :=
  if h : bytes.length < 2 ^ 62 then .ok ⟨bytes, h⟩ else .error (.thrown "std::length_error")

theorem stdString_bytes (s : Key) : stdString s.bytes = .ok s := dif_pos s.length_lt

/-- `srv_config`. -/
structure SrvConfig where
  id : Int32
  dcId : Int32
  endpoint : Key
  aux : Key
  learner : Bool
  priority : Int32
deriving DecidableEq, Repr

namespace SrvConfig

/-- `srv_config::INIT_PRIORITY`. -/
def initPriority : Int32 := 1

variable (memory : Nat → UInt8)

/-- `srv_config::serialize`. -/
def serialize (c : SrvConfig) : Except Fault Buffer := do
  let buf ← Buffer.alloc memory (4 + 4 + (c.endpoint.size + 1) + (c.aux.size + 1) + 1 + 4)
  let buf ← buf.putInt32 c.id
  let buf ← buf.putInt32 c.dcId
  let buf ← buf.putString c.endpoint.bytes
  let buf ← buf.putString c.aux.bytes
  let buf ← buf.putByte (if c.learner then 1 else 0)
  let buf ← buf.putInt32 c.priority
  return buf.setPos 0

/-- `srv_config::deserialize`. -/
def deserialize (bs : BufferSerializer) : Except Fault (SrvConfig × BufferSerializer) := do
  let (id, bs) ← bs.getI32
  let (dcId, bs) ← bs.getI32
  let (endpointChar, bs) ← bs.getCstr
  let (auxChar, bs) ← bs.getCstr
  let endpoint ← stdString endpointChar
  let aux ← stdString auxChar
  let (isLearner, bs) ← bs.getU8
  let (priority, bs) ← bs.getI32
  return (⟨id, dcId, endpoint, aux, isLearner != 0, priority⟩, bs)

/-- The serialised form. -/
def record (c : SrvConfig) : List UInt8 :=
  Bytes.ofNat 4 c.id.toUInt32.toNat ++ (Bytes.ofNat 4 c.dcId.toUInt32.toNat ++
    ((c.endpoint.bytes ++ [0]) ++ ((c.aux.bytes ++ [0]) ++
      ([if c.learner then 1 else 0] ++ Bytes.ofNat 4 c.priority.toUInt32.toNat))))

/-- The strings survive as C strings. -/
def NullFree (c : SrvConfig) : Prop := 0 ∉ c.endpoint.bytes ∧ 0 ∉ c.aux.bytes

instance (c : SrvConfig) : Decidable c.NullFree := inferInstanceAs (Decidable (_ ∧ _))

variable {memory} {c : SrvConfig}

theorem toNat_alloc (c : SrvConfig) :
    (4 + 4 + (c.endpoint.size + 1) + (c.aux.size + 1) + 1 + 4).toNat = c.record.length := by
  have hendpoint := c.endpoint.length_lt
  have haux := c.aux.length_lt
  simp only [record, List.length_append, List.length_singleton, Bytes.length_ofNat,
    UInt64.toNat_add, Key.toNat_size, UInt64.reduceToNat]
  omega

theorem serialize_eq_ok (h : c.record.length < 2 ^ 31) :
    c.serialize memory = .ok (.ofBytes c.record h) := by
  obtain ⟨b₀, h₀, -, hw₀⟩ := Buffer.alloc_writing memory _ (c.toNat_alloc ▸ h)
  rw [toNat_alloc] at hw₀
  obtain ⟨b₁, h₁, hw₁⟩ := hw₀.putPiece
  obtain ⟨b₂, h₂, hw₂⟩ := hw₁.putPiece
  obtain ⟨b₃, h₃, hw₃⟩ := hw₂.putPiece
  obtain ⟨b₄, h₄, hw₄⟩ := hw₃.putPiece
  obtain ⟨b₅, h₅, hw₅⟩ := hw₄.putPiece
  obtain ⟨b₆, h₆, hw₆⟩ := hw₅.putRaw_all
  have hfull : b₆.bytes = c.record := by
    rw [hw₆.full, record, List.nil_append]
    simp only [List.append_assoc]
  unfold serialize
  simp only [h₀, Run.ok_bind, Buffer.putInt32, Buffer.putString, Buffer.putByte, h₁, h₂, h₃, h₄, h₅,
    h₆]
  exact congrArg Except.ok (Buffer.eq_ofBytes h hfull)

theorem serialize_eq_error (h : ¬ c.record.length < 2 ^ 31) :
    c.serialize memory = .error (.thrown "std::out_of_range") := by
  have halloc : Buffer.alloc memory (4 + 4 + (c.endpoint.size + 1) + (c.aux.size + 1) + 1 + 4) =
      .error (.thrown "std::out_of_range") := dif_neg (c.toNat_alloc ▸ h)
  unfold serialize
  rw [halloc, Run.error_bind]

theorem deserialize_record {bs : BufferSerializer} {rest : List UInt8} (hc : c.NullFree)
    (h : bs.Ahead (c.record ++ rest)) :
    ∃ bs', deserialize bs = .ok (c, bs') ∧ bs'.Ahead rest := by
  simp only [record, List.append_assoc, List.cons_append, List.nil_append] at h
  obtain ⟨bs₁, h₁, ha₁⟩ := BufferSerializer.getI32_ahead h
  obtain ⟨bs₂, h₂, ha₂⟩ := BufferSerializer.getI32_ahead ha₁
  obtain ⟨bs₃, h₃, ha₃⟩ := BufferSerializer.getCstr_ahead hc.1 ha₂
  obtain ⟨bs₄, h₄, ha₄⟩ := BufferSerializer.getCstr_ahead hc.2 ha₃
  obtain ⟨bs₅, h₅, ha₅⟩ := BufferSerializer.getU8_ahead ha₄
  obtain ⟨bs₆, h₆, ha₆⟩ := BufferSerializer.getI32_ahead ha₅
  refine ⟨bs₆, ?_, ha₆⟩
  have hlearner : ((if c.learner then 1 else 0 : UInt8) != 0) = c.learner := by
    cases c.learner <;> rfl
  unfold deserialize
  simp only [h₁, h₂, h₃, h₄, h₅, h₆, Run.ok_bind, stdString_bytes, hlearner]
  rfl

/-- What is read has strings without nulls, whatever the bytes. -/
theorem nullFree_of_deserialize {bs bs' : BufferSerializer} (h : deserialize bs = .ok (c, bs')) :
    c.NullFree := by
  have hstring : ∀ {bytes : List UInt8} {s : Key}, stdString bytes = .ok s → s.bytes = bytes := by
    intro bytes s hs
    unfold stdString at hs
    split at hs
    · cases hs
      rfl
    · cases hs
  obtain ⟨⟨id, bs₁⟩, -, h⟩ := Run.bind_eq_ok.mp h
  obtain ⟨⟨dcId, bs₂⟩, -, h⟩ := Run.bind_eq_ok.mp h
  obtain ⟨⟨endpointChar, bs₃⟩, hendpoint, h⟩ := Run.bind_eq_ok.mp h
  obtain ⟨⟨auxChar, bs₄⟩, haux, h⟩ := Run.bind_eq_ok.mp h
  obtain ⟨endpoint, hendpoint', h⟩ := Run.bind_eq_ok.mp h
  obtain ⟨aux, haux', h⟩ := Run.bind_eq_ok.mp h
  obtain ⟨⟨isLearner, bs₅⟩, -, h⟩ := Run.bind_eq_ok.mp h
  obtain ⟨⟨priority, bs₆⟩, -, h⟩ := Run.bind_eq_ok.mp h
  cases h
  refine ⟨?_, ?_⟩
  · rw [hstring hendpoint']
    exact BufferSerializer.null_notMem_getCstr hendpoint
  · rw [hstring haux']
    exact BufferSerializer.null_notMem_getCstr haux

end SrvConfig

/-- `cluster_config`. -/
structure ClusterConfig where
  logIdx : UInt64
  prevLogIdx : UInt64
  asyncReplication : Bool
  userCtx : Key
  servers : List SrvConfig
deriving DecidableEq, Repr

namespace ClusterConfig

/-- `cluster_config::get_server`. -/
def getServer (c : ClusterConfig) (id : Int32) : Option SrvConfig :=
  c.servers.find? fun s => s.id = id

/-- The buffers of the servers, put one after the other. -/
def putServers (result : Buffer) : List Buffer → Except Fault Buffer
  | [] => .ok result
  | buf :: rest => do
    let result ← result.putBuffer buf
    putServers result rest

/-- `cluster_config::serialize`. -/
def serialize (memory : Nat → UInt8) (c : ClusterConfig) : Except Fault Buffer := do
  let srvBuffs ← c.servers.mapM fun s => s.serialize memory
  let sz := 2 * 8 + 4 + 1 + (srvBuffs.map Buffer.size).foldl (· + ·) 0 + 4 + c.userCtx.size
  let result ← Buffer.alloc memory sz
  let result ← result.putULong c.logIdx
  let result ← result.putULong c.prevLogIdx
  let result ← result.putByte (if c.asyncReplication then 1 else 0)
  let result ← result.putBytes c.userCtx.bytes
  let result ← result.putInt32 (UInt64.ofNat c.servers.length).toUInt32.toInt32
  let result ← putServers result srvBuffs
  return result.setPos 0

/-- The loop of `deserialize` that reads `cnt` servers. -/
def deserializeServers : Nat → BufferSerializer → Except Fault (List SrvConfig × BufferSerializer)
  | 0, bs => .ok ([], bs)
  | cnt + 1, bs => do
    let (server, bs) ← SrvConfig.deserialize bs
    let (servers, bs) ← deserializeServers cnt bs
    return (server :: servers, bs)

/-- `cluster_config::deserialize`. -/
def deserialize (bs : BufferSerializer) : Except Fault (ClusterConfig × BufferSerializer) := do
  let (logIdx, bs) ← bs.getU64
  let (prevLogIdx, bs) ← bs.getU64
  let (ecByte, bs) ← bs.getU8
  let (userCtx, bs) ← bs.getStr
  let (cnt, bs) ← bs.getI32
  let (servers, bs) ← deserializeServers cnt.toInt.toNat bs
  return (⟨logIdx, prevLogIdx, ecByte != 0, userCtx, servers⟩, bs)

/-- The serialised form. -/
def record (c : ClusterConfig) : List UInt8 :=
  Bytes.ofNat 8 c.logIdx.toNat ++ (Bytes.ofNat 8 c.prevLogIdx.toNat ++
    ([if c.asyncReplication then 1 else 0] ++ (Bytes.ofNat 4 c.userCtx.bytes.length ++
      (c.userCtx.bytes ++ (Bytes.ofNat 4 c.servers.length ++ c.servers.flatMap SrvConfig.record)))))

/-- The strings of the servers survive as C strings. -/
def NullFree (c : ClusterConfig) : Prop := ∀ s ∈ c.servers, s.NullFree

instance (c : ClusterConfig) : Decidable c.NullFree := inferInstanceAs (Decidable (∀ s ∈ _, _))

variable {memory : Nat → UInt8} {c : ClusterConfig}

/-! ## Writing -/

theorem length_record (c : ClusterConfig) :
    c.record.length =
      25 + c.userCtx.bytes.length + (c.servers.map fun s => s.record.length).sum := by
  simp only [record, List.length_append, List.length_singleton, Bytes.length_ofNat,
    List.length_flatMap]
  omega

theorem length_record_le {s : SrvConfig} (hs : s ∈ c.servers) :
    s.record.length ≤ c.record.length := by
  have hle := List.le_sum_of_mem (List.mem_map_of_mem (f := fun s => s.record.length) hs)
  rw [length_record]
  omega

theorem length_servers_le (c : ClusterConfig) : c.servers.length ≤ c.record.length := by
  have hle : (c.servers.map fun s => s.record.length).length ≤
      (c.servers.map fun s => s.record.length).sum := by
    refine List.length_le_sum_of_one_le _ fun n hn => ?_
    obtain ⟨s, -, rfl⟩ := List.mem_map.mp hn
    simp only [SrvConfig.record, List.length_append, List.length_singleton, Bytes.length_ofNat]
    omega
  rw [List.length_map] at hle
  rw [length_record]
  omega

theorem exists_blocks (memory : Nat → UInt8) {servers : List SrvConfig}
    (h : ∀ s ∈ servers, s.record.length < 2 ^ 31) :
    ∃ bufs, (servers.mapM fun s => s.serialize memory) = .ok bufs := by
  induction servers with
  | nil => exact ⟨[], rfl⟩
  | cons s servers ih =>
    obtain ⟨bufs, hbufs⟩ := ih fun s' hs' => h s' (List.mem_cons_of_mem s hs')
    refine ⟨.ofBytes s.record (h s List.mem_cons_self) :: bufs, ?_⟩
    rw [List.mapM_cons, SrvConfig.serialize_eq_ok (h s List.mem_cons_self), Run.ok_bind, hbufs]
    rfl

/-- The blocks hold the records of the servers. -/
theorem blocks_eq {servers : List SrvConfig} {bufs : List Buffer}
    (h : (servers.mapM fun s => s.serialize memory) = .ok bufs) :
    bufs.flatMap Buffer.ahead = servers.flatMap SrvConfig.record ∧
      (bufs.map Buffer.size).map UInt64.toNat = servers.map fun s => s.record.length := by
  induction servers generalizing bufs with
  | nil =>
    cases h
    exact ⟨rfl, rfl⟩
  | cons s servers ih =>
    rw [List.mapM_cons] at h
    obtain ⟨buf, hbuf, h⟩ := Run.bind_eq_ok.mp h
    obtain ⟨bufs', hbufs, h⟩ := Run.bind_eq_ok.mp h
    cases h
    obtain ⟨hahead, hsizes⟩ := ih hbufs
    have hlt : s.record.length < 2 ^ 31 := by
      refine Decidable.byContradiction fun hge => ?_
      rw [SrvConfig.serialize_eq_error hge] at hbuf
      cases hbuf
    rw [SrvConfig.serialize_eq_ok hlt] at hbuf
    cases hbuf
    constructor
    · rw [List.flatMap_cons, List.flatMap_cons, hahead]
      rfl
    · rw [List.map_cons, List.map_cons, hsizes, Buffer.toNat_size]
      rfl

theorem putServers_eq_ok {bufs : List Buffer} {result : Buffer} {written : List UInt8}
    (hb : result.Writing written (bufs.flatMap Buffer.ahead).length) :
    ∃ result', putServers result bufs = .ok result' ∧
      result'.Writing (written ++ bufs.flatMap Buffer.ahead) 0 := by
  induction bufs generalizing result written with
  | nil =>
    refine ⟨result, rfl, ?_⟩
    rw [List.flatMap_nil, List.append_nil]
    exact hb
  | cons buf bufs ih =>
    rw [List.flatMap_cons] at hb
    obtain ⟨result₁, h₁, hw₁⟩ := hb.putPiece
    obtain ⟨result₂, h₂, hw₂⟩ := ih hw₁
    refine ⟨result₂, ?_, ?_⟩
    · rw [putServers, Buffer.putBuffer, h₁, Run.ok_bind, h₂]
    · rw [List.flatMap_cons, ← List.append_assoc]
      exact hw₂

theorem behind_of_putServers {bufs : List Buffer} {result result' : Buffer}
    (h : putServers result bufs = .ok result') :
    result'.behind = result.behind ++ bufs.flatMap Buffer.ahead := by
  induction bufs generalizing result with
  | nil =>
    cases h
    rw [List.flatMap_nil, List.append_nil]
  | cons buf bufs ih =>
    obtain ⟨result₁, h₁, h⟩ := Run.bind_eq_ok.mp h
    rw [ih h, Buffer.behind_of_putRaw h₁, List.flatMap_cons, List.append_assoc]

theorem toNat_count (h : c.record.length < 2 ^ 31) :
    (UInt64.ofNat c.servers.length).toUInt32.toInt32.toUInt32.toNat = c.servers.length := by
  have hle := c.length_servers_le
  rw [UInt32.toUInt32_toInt32, UInt64.toNat_toUInt32, UInt64.toNat_ofNat']
  show c.servers.length % 2 ^ 64 % 2 ^ 32 = _
  omega

theorem serialize_eq_ok (h : c.record.length < 2 ^ 31) :
    c.serialize memory = .ok (.ofBytes c.record h) := by
  have hlen := c.length_record
  obtain ⟨bufs, hbufs⟩ := exists_blocks memory fun s (hs : s ∈ c.servers) =>
    Nat.lt_of_le_of_lt (length_record_le hs) h
  obtain ⟨hahead, hsizes⟩ := blocks_eq hbufs
  have htotal : ((bufs.map Buffer.size).foldl (· + ·) 0).toNat =
      (c.servers.map fun s => s.record.length).sum := by
    rw [Buffer.toNat_foldl_add, hsizes]
    · exact Nat.zero_add _
    · rw [hsizes]
      show 0 + _ < _
      omega
  have hsize : (2 * 8 + 4 + 1 + (bufs.map Buffer.size).foldl (· + ·) 0 + 4 + c.userCtx.size).toNat =
      c.record.length := by
    rw [UInt64.toNat_add, UInt64.toNat_add, UInt64.toNat_add, htotal, Key.toNat_size, hlen]
    show (((21 + _) % 2 ^ 64 + 4) % 2 ^ 64 + _) % 2 ^ 64 = _
    omega
  obtain ⟨b₀, h₀, -, hw₀⟩ := Buffer.alloc_writing memory _ (hsize ▸ h)
  rw [hsize] at hw₀
  obtain ⟨b₁, h₁, hw₁⟩ := hw₀.putPiece
  obtain ⟨b₂, h₂, hw₂⟩ := hw₁.putPiece
  obtain ⟨b₃, h₃, hw₃⟩ := hw₂.putPiece
  obtain ⟨b₄, h₄, hw₄⟩ := hw₃.putPiece
  obtain ⟨b₅, h₅, hw₅⟩ := hw₄.putPiece
  obtain ⟨b₆, h₆, hw₆⟩ := hw₅.putPiece
  obtain ⟨b₇, h₇, hw₇⟩ := putServers_eq_ok (hahead ▸ hw₆)
  have hfull : b₇.bytes = c.record := by
    rw [hw₇.full, record, hahead, List.nil_append]
    simp only [List.append_assoc]
  unfold serialize
  simp only [hbufs, Run.ok_bind, h₀, Buffer.putULong, h₁, h₂, Buffer.putByte, h₃, Buffer.putBytes,
    h₄, h₅, Buffer.putInt32, toNat_count h, h₆, h₇]
  exact congrArg Except.ok (Buffer.eq_ofBytes h hfull)

/-- A configuration that can be serialised fits into a buffer. -/
theorem length_lt_of_serialize {buf : Buffer} (h : c.serialize memory = .ok buf) :
    c.record.length < 2 ^ 31 := by
  obtain ⟨bufs, hbufs, h⟩ := Run.bind_eq_ok.mp h
  obtain ⟨b₀, h₀, h⟩ := Run.bind_eq_ok.mp h
  obtain ⟨b₁, h₁, h⟩ := Run.bind_eq_ok.mp h
  obtain ⟨b₂, h₂, h⟩ := Run.bind_eq_ok.mp h
  obtain ⟨b₃, h₃, h⟩ := Run.bind_eq_ok.mp h
  obtain ⟨b₅, h₅, h⟩ := Run.bind_eq_ok.mp h
  obtain ⟨b₄, h₄, h₅⟩ := Run.bind_eq_ok.mp h₅
  obtain ⟨b₆, h₆, h⟩ := Run.bind_eq_ok.mp h
  obtain ⟨b₇, h₇, -⟩ := Run.bind_eq_ok.mp h
  have hbehind : b₇.behind.length = b₀.behind.length + c.record.length := by
    rw [behind_of_putServers h₇, Buffer.behind_of_putRaw h₆, Buffer.behind_of_putRaw h₅,
      Buffer.behind_of_putRaw h₄, Buffer.behind_of_putRaw h₃, Buffer.behind_of_putRaw h₂,
      Buffer.behind_of_putRaw h₁, (blocks_eq hbufs).1]
    simp only [record, List.length_append, Bytes.length_ofNat]
    omega
  have hle : b₇.behind.length ≤ b₇.bytes.length := List.length_take_le' _ _
  have hlt := b₇.length_lt
  omega

/-! ## Reading -/

theorem deserializeServers_eq_ok {servers : List SrvConfig} {bs : BufferSerializer}
    (hnull : ∀ s ∈ servers, s.NullFree) (h : bs.Ahead (servers.flatMap SrvConfig.record)) :
    ∃ bs', deserializeServers servers.length bs = .ok (servers, bs') := by
  induction servers generalizing bs with
  | nil => exact ⟨bs, rfl⟩
  | cons s servers ih =>
    rw [List.flatMap_cons] at h
    obtain ⟨bs₁, h₁, ha₁⟩ := SrvConfig.deserialize_record (hnull s List.mem_cons_self) h
    obtain ⟨bs₂, h₂⟩ := ih (fun s' hs' => hnull s' (List.mem_cons_of_mem s hs')) ha₁
    refine ⟨bs₂, ?_⟩
    rw [List.length_cons, deserializeServers, h₁, Run.ok_bind]
    dsimp only
    rw [h₂, Run.ok_bind]
    rfl

theorem nullFree_of_deserializeServers {n : Nat} {servers : List SrvConfig}
    {bs bs' : BufferSerializer} (h : deserializeServers n bs = .ok (servers, bs')) :
    ∀ s ∈ servers, s.NullFree := by
  induction n generalizing bs servers with
  | zero =>
    cases h
    exact fun s hs => absurd hs List.not_mem_nil
  | succ n ih =>
    obtain ⟨⟨server, bs₁⟩, h₁, h⟩ := Run.bind_eq_ok.mp h
    obtain ⟨⟨rest, bs₂⟩, h₂, h⟩ := Run.bind_eq_ok.mp h
    cases h
    intro s hs
    rcases List.mem_cons.mp hs with rfl | hs
    · exact SrvConfig.nullFree_of_deserialize h₁
    · exact ih h₂ s hs

theorem deserialize_record {bs : BufferSerializer} (hc : c.NullFree)
    (hlt : c.record.length < 2 ^ 31)
    (h : bs.Ahead c.record) : ∃ bs', deserialize bs = .ok (c, bs') := by
  have hlen := c.length_record
  have hcount := toNat_count hlt
  simp only [record, List.cons_append, List.nil_append] at h
  obtain ⟨bs₁, h₁, ha₁⟩ := BufferSerializer.getU64_ahead h
  obtain ⟨bs₂, h₂, ha₂⟩ := BufferSerializer.getU64_ahead ha₁
  obtain ⟨bs₃, h₃, ha₃⟩ := BufferSerializer.getU8_ahead ha₂
  obtain ⟨bs₄, h₄, ha₄⟩ := BufferSerializer.getStr_ahead (by omega) ha₃
  rw [← hcount] at ha₄
  obtain ⟨bs₅, h₅, ha₅⟩ := BufferSerializer.getI32_ahead ha₄
  obtain ⟨bs₆, h₆⟩ := deserializeServers_eq_ok hc ha₅
  refine ⟨bs₆, ?_⟩
  have hec : ((if c.asyncReplication then 1 else 0 : UInt8) != 0) = c.asyncReplication := by
    cases c.asyncReplication <;> rfl
  have hcnt : (UInt64.ofNat c.servers.length).toUInt32.toInt32.toInt.toNat = c.servers.length := by
    have hb : (UInt64.ofNat c.servers.length).toUInt32.toInt32.toInt = Int.bmod
        (UInt64.ofNat c.servers.length).toUInt32.toInt32.toUInt32.toNat (2 ^ 32) :=
      BitVec.toInt_eq_toNat_bmod _
    have hle := c.length_servers_le
    rw [hcount, Int.bmod_def] at hb
    omega
  unfold deserialize
  simp only [h₁, h₂, h₃, h₄, h₅, hcnt, h₆, Run.ok_bind, hec]
  rfl

theorem nullFree_of_deserialize {bs bs' : BufferSerializer} (h : deserialize bs = .ok (c, bs')) :
    c.NullFree := by
  obtain ⟨⟨logIdx, bs₁⟩, -, h⟩ := Run.bind_eq_ok.mp h
  obtain ⟨⟨prevLogIdx, bs₂⟩, -, h⟩ := Run.bind_eq_ok.mp h
  obtain ⟨⟨ecByte, bs₃⟩, -, h⟩ := Run.bind_eq_ok.mp h
  obtain ⟨⟨userCtx, bs₄⟩, -, h⟩ := Run.bind_eq_ok.mp h
  obtain ⟨⟨cnt, bs₅⟩, -, h⟩ := Run.bind_eq_ok.mp h
  obtain ⟨⟨servers, bs₆⟩, hservers, h⟩ := Run.bind_eq_ok.mp h
  cases h
  exact nullFree_of_deserializeServers hservers

end ClusterConfig

/-- `srv_state`. -/
structure SrvState where
  term : UInt64
  votedFor : Int32
  electionTimerAllowed : Bool
deriving DecidableEq, Repr

namespace SrvState

/-- The constructor without arguments. -/
def new : SrvState := ⟨0, -1, true⟩

/-- `srv_state::serialize`, in the current version. -/
def serialize (memory : Nat → UInt8) (s : SrvState) : Except Fault (List UInt8) := do
  let buf ← bufferAlloc memory 14
  let bs ← (BufferSerializer.new buf).putU8 1
  let bs ← bs.putU64 s.term
  let bs ← bs.putI32 s.votedFor
  let bs ← bs.putU8 (if s.electionTimerAllowed then 1 else 0)
  return bs.buffer

/-- `srv_state::deserialize_v0`. -/
def deserializeV0 (buf : List UInt8) : Except Fault SrvState := do
  let (term, bs) ← (BufferSerializer.new buf).getU64
  let (votedFor, _) ← bs.getI32
  return ⟨term, votedFor, true⟩

/-- `srv_state::deserialize_v1p`. -/
def deserializeV1p (buf : List UInt8) : Except Fault SrvState := do
  let (_, bs) ← (BufferSerializer.new buf).getU8
  let (term, bs) ← bs.getU64
  let (votedFor, bs) ← bs.getI32
  let (etAllowed, _) ← bs.getU8
  return ⟨term, votedFor, etAllowed == 1⟩

/-- `srv_state::deserialize`. -/
def deserialize (buf : List UInt8) : Except Fault SrvState :=
  if buf.length > 12 then deserializeV1p buf else deserializeV0 buf

/-- The serialised form. -/
def record (s : SrvState) : List UInt8 :=
  [1] ++ (Bytes.ofNat 8 s.term.toNat ++ (Bytes.ofNat 4 s.votedFor.toUInt32.toNat ++
    [if s.electionTimerAllowed then 1 else 0]))

theorem length_record (s : SrvState) : s.record.length = 14 := by
  simp only [record, List.length_append, List.length_singleton, Bytes.length_ofNat]

theorem serialize_eq_ok (memory : Nat → UInt8) (s : SrvState) :
    s.serialize memory = .ok s.record := by
  have halloc : bufferAlloc memory 14 = .ok ((List.range 14).map memory) :=
    bufferAlloc_eq memory (by decide) rfl
  have hlen : ((List.range 14).map memory).length = 14 := by simp
  generalize (List.range 14).map memory = buf at halloc hlen
  have hroom : (BufferSerializer.new buf).Room s.record.length := by
    refine ⟨?_, ?_⟩
    · show buf.length < 2 ^ 31
      rw [hlen]
      decide
    · show 0 + s.record.length ≤ buf.length
      rw [hlen, length_record]
  rw [record, List.length_append] at hroom
  obtain ⟨bs₁, hput₁, hputs₁, hroom⟩ := BufferSerializer.putRaw_all 1 rfl hroom
  rw [List.length_append] at hroom
  obtain ⟨bs₂, hput₂, hputs₂, hroom⟩ := BufferSerializer.putRaw_all 8
    (Bytes.length_ofNat 8 _).symm hroom
  rw [List.length_append] at hroom
  obtain ⟨bs₃, hput₃, hputs₃, hroom⟩ := BufferSerializer.putRaw_all 4
    (Bytes.length_ofNat 4 _).symm hroom
  have hlast : bs₃.Room (([if s.electionTimerAllowed then 1 else 0] : List UInt8).length + 0) :=
    hroom
  obtain ⟨bs₄, hput₄, hputs₄, -⟩ := BufferSerializer.putRaw_all 1 rfl hlast
  have hputs := hputs₁.append (hputs₂.append (hputs₃.append hputs₄))
  -- The four pieces fill the buffer.
  have hbuffer : bs₄.buffer = s.record := by
    have htake := Bytes.take_overwrite hputs.buffer
    have hall : bs₄.buffer.length = 0 + s.record.length := by
      rw [Bytes.length_overwrite hputs.buffer, length_record]
      exact hlen
    rw [← List.take_length (l := bs₄.buffer), hall]
    exact htake
  unfold serialize
  simp only [halloc, Run.ok_bind, BufferSerializer.putU8, BufferSerializer.putU64,
    BufferSerializer.putI32, hput₁, hput₂, hput₃, hput₄, hbuffer]
  rfl

theorem deserialize_record (s : SrvState) : deserialize s.record = .ok s := by
  have h : (BufferSerializer.new s.record).Ahead s.record :=
    ⟨by rw [BufferSerializer.new, length_record]; decide, Nat.zero_le _, rfl⟩
  rw [record] at h
  obtain ⟨bs₁, h₁, ha₁⟩ := BufferSerializer.getU8_ahead h
  obtain ⟨bs₂, h₂, ha₂⟩ := BufferSerializer.getU64_ahead ha₁
  obtain ⟨bs₃, h₃, ha₃⟩ := BufferSerializer.getI32_ahead ha₂
  obtain ⟨bs₄, h₄, -⟩ := BufferSerializer.getU8_ahead ha₃
  have het : ((if s.electionTimerAllowed then 1 else 0 : UInt8) == 1) = s.electionTimerAllowed := by
    cases s.electionTimerAllowed <;> rfl
  unfold deserialize
  rw [if_pos (by rw [length_record]; decide)]
  unfold deserializeV1p
  rw [record]
  simp only [h₁, h₂, h₃, h₄, Run.ok_bind, het]
  rfl

end SrvState

/-- `inmem_state_mgr`, without its log store. -/
structure InMemStateMgr where
  myId : Int32
  myEndpoint : Key
  mySrvConfig : SrvConfig
  savedConfig : ClusterConfig
  savedState : Option SrvState
deriving DecidableEq, Repr

namespace InMemStateMgr

/-- The constructor: the cluster has one server, this one. -/
def new (srvId : Int32) (endpoint : Key) : InMemStateMgr :=
  let mySrvConfig := ⟨srvId, 0, endpoint, ⟨[], by decide⟩, false, SrvConfig.initPriority⟩
  ⟨srvId, endpoint, mySrvConfig, ⟨0, 0, false, ⟨[], by decide⟩, [mySrvConfig]⟩, none⟩

variable (memory : Nat → UInt8)

/-- `inmem_state_mgr::save_config`. -/
def saveConfig (mgr : InMemStateMgr) (config : ClusterConfig) : Except Fault InMemStateMgr := do
  let buf ← config.serialize memory
  let (saved, _) ← ClusterConfig.deserialize (.new buf.bytes)
  return { mgr with savedConfig := saved }

/-- `inmem_state_mgr::save_state`. -/
def saveState (mgr : InMemStateMgr) (state : SrvState) : Except Fault InMemStateMgr := do
  let buf ← state.serialize memory
  let saved ← SrvState.deserialize buf
  return { mgr with savedState := some saved }

theorem saveState_eq_ok (mgr : InMemStateMgr) (state : SrvState) :
    mgr.saveState memory state = .ok { mgr with savedState := some state } := by
  unfold saveState
  rw [SrvState.serialize_eq_ok, Run.ok_bind, SrvState.deserialize_record, Run.ok_bind]
  rfl

theorem saveConfig_eq_ok_iff (mgr : InMemStateMgr) (config : ClusterConfig) :
    mgr.saveConfig memory config = .ok { mgr with savedConfig := config } ↔
      config.record.length < 2 ^ 31 ∧ config.NullFree := by
  constructor
  · intro h
    obtain ⟨buf, hbuf, h⟩ := Run.bind_eq_ok.mp h
    obtain ⟨⟨saved, bs⟩, hsaved, h⟩ := Run.bind_eq_ok.mp h
    have heq : saved = config := congrArg savedConfig (Except.ok.inj h)
    refine ⟨ClusterConfig.length_lt_of_serialize hbuf, ?_⟩
    rw [← heq]
    exact ClusterConfig.nullFree_of_deserialize hsaved
  · rintro ⟨hlt, hnull⟩
    have hahead : (BufferSerializer.new config.record).Ahead config.record :=
      ⟨hlt, Nat.zero_le _, rfl⟩
    obtain ⟨bs, hbs⟩ := ClusterConfig.deserialize_record hnull hlt hahead
    unfold saveConfig
    rw [ClusterConfig.serialize_eq_ok hlt, Run.ok_bind]
    show (ClusterConfig.deserialize (.new config.record) >>= _) = _
    rw [hbs]
    rfl

/-- The manager holds what it has been given to save: the state of a server always, a configuration
exactly when it fits into a buffer and the strings of its servers contain no nulls. -/
theorem loads_what_is_saved (mgr : InMemStateMgr) :
    (∀ state, mgr.saveState memory state = .ok { mgr with savedState := some state }) ∧
      ∀ config, mgr.saveConfig memory config = .ok { mgr with savedConfig := config } ↔
        config.record.length < 2 ^ 31 ∧ config.NullFree :=
  ⟨saveState_eq_ok memory mgr, saveConfig_eq_ok_iff memory mgr⟩

end InMemStateMgr

end LruCache
