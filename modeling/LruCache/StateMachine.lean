import LruCache.BufferSerializer
import LruCache.CacheState
import LruCache.Commits

/-!
# `cache_state_machine`

The codec of the Raft log, from `cache_state_machine.hxx`, and `commit`, which decodes an entry and
makes the call of `cache_state` that it asks for.

`decode_log` fills in an `op_payload` that already exists, and `commit` passes it a local variable
that nothing has initialised. What the payload held before is a parameter of both.
-/

namespace LruCache

/-- `op_type`. The enumeration has `int` as its underlying type, so that a value read from a log
can be any `int`. -/
inductive OpType
  | read
  | write
  | purge
  | other (code : Int32) (named : code ≠ 1 ∧ code ≠ 2 ∧ code ≠ 3)
deriving DecidableEq, Repr

namespace OpType

def code : OpType → Int32
  | read => 1
  | write => 2
  | purge => 3
  | other code _ => code

def ofCode (code : Int32) : OpType :=
  if h₁ : code = 1 then read
  else if h₂ : code = 2 then write
  else if h₃ : code = 3 then purge
  else other code ⟨h₁, h₂, h₃⟩

theorem ofCode_code (type : OpType) : ofCode type.code = type := by
  cases type with
  | read => rfl
  | write => rfl
  | purge => rfl
  | other code named =>
    unfold ofCode OpType.code
    rw [dif_neg named.1, dif_neg named.2.1, dif_neg named.2.2]

end OpType

/-- `op_payload`, with the bytes that its `data` points to. -/
structure OpPayload where
  type : OpType
  timestamp : Int64
  key : Key
  dataLen : UInt64
  data : List UInt8
  expiresAt : Int64
deriving DecidableEq, Repr

namespace OpPayload

/-- The size that `encode_log` allocates. -/
def encodedSize (payload : OpPayload) : UInt64 :=
  let size : UInt64 := 4 + 8
  let size := if payload.type ≠ .purge then size + (8 + payload.key.size) else size
  if payload.type = .write then size + (8 + payload.dataLen + 8) else size

/-- The first branch of `encode_log` past the allocation. -/
def putKey (payload : OpPayload) (bs : BufferSerializer) : Except Fault BufferSerializer :=
  if payload.type ≠ .purge then bs.putStr payload.key else .ok bs

/-- The second branch of `encode_log` past the allocation. -/
def putData (payload : OpPayload) (bs : BufferSerializer) : Except Fault BufferSerializer :=
  if payload.type = .write then do
    let bs ← bs.putBytes payload.data payload.dataLen
    bs.putRaw (Bytes.ofNat 8 payload.expiresAt.toUInt64.toNat) 8
  else .ok bs

/-- The first branch of `decode_log`. -/
def getKey (payload : OpPayload) (bs : BufferSerializer) :
    Except Fault (OpPayload × BufferSerializer) :=
  if payload.type ≠ .purge then do
    let (key, bs) ← bs.getStr
    return ({ payload with key := key }, bs)
  else .ok (payload, bs)

/-- The second branch of `decode_log`. -/
def getData (payload : OpPayload) (bs : BufferSerializer) : Except Fault OpPayload :=
  if payload.type = .write then do
    let ((ptr, len), _) ← bs.getBytes
    let payload := { payload with dataLen := len }
    return { payload with data := ← memcpy payload.data 0 ptr payload.dataLen }
  else .ok payload

end OpPayload

/-- `cache_state_machine::encode_log`. -/
def encodeLog (memory : Nat → UInt8) (payload : OpPayload) : Except Fault (List UInt8) := do
  let log ← bufferAlloc memory payload.encodedSize
  let bs := BufferSerializer.new log
  let bs ← bs.putRaw (Bytes.ofNat 4 payload.type.code.toUInt32.toNat) 4
  let bs ← bs.putRaw (Bytes.ofNat 8 payload.timestamp.toUInt64.toNat) 8
  let bs ← payload.putKey bs
  let bs ← payload.putData bs
  return bs.buffer

/-- `cache_state_machine::decode_log`. -/
def decodeLog (log : List UInt8) (payload : OpPayload) : Except Fault OpPayload := do
  let bs := BufferSerializer.new log
  let (ptr, bs) ← bs.getRaw 4
  let payload := { payload with
    type := .ofCode (UInt32.ofNat (Bytes.toNat (ptr.take 4))).toInt32 }
  let (ptr, bs) ← bs.getRaw 8
  let payload := { payload with
    timestamp := (UInt64.ofNat (Bytes.toNat (ptr.take 8))).toInt64 }
  let (payload, bs) ← payload.getKey bs
  payload.getData bs

/-- The switch of `commit`: the call of `cache_state` with the fields of the payload. -/
def OpPayload.apply (cfg : CacheConfig) (state : CacheState) (payload : OpPayload) :
    Except Fault CacheState :=
  match payload.type with
  | .read => do return (← state.commitRead payload.key payload.timestamp).2
  | .write => do
    let item ← CacheItem.make payload.data payload.dataLen payload.expiresAt
    return (← state.commitWrite cfg payload.key item payload.timestamp).2
  | .purge => state.commitPurgeExpired cfg payload.timestamp
  | .other _ _ => .ok state

/-- `cache_state_machine::commit`: the buffer it returns and the next `state_`. The local variable
`payload` is not initialised. -/
def commit (cfg : CacheConfig) (memory : Nat → UInt8) (payload : OpPayload) (state : CacheState)
    (logIdx : UInt64) (data : List UInt8) : Except Fault (List UInt8 × CacheState) := do
  let payload ← decodeLog data payload
  let state ← payload.apply cfg state
  let ret ← bufferAlloc memory 8
  let bs ← (BufferSerializer.new ret).putU64 logIdx
  return (bs.buffer, state)

namespace OpPayload

/-! ## The bytes of a log -/

/-- The key as `encode_log` writes it. -/
def keyField (p : OpPayload) : List UInt8 :=
  if p.type ≠ .purge then Bytes.ofNat 4 p.key.bytes.length ++ p.key.bytes else []

/-- The data and the expiry as `encode_log` writes them. -/
def dataField (p : OpPayload) : List UInt8 :=
  if p.type = .write then
    (Bytes.ofNat 4 p.dataLen.toNat ++ p.data.take p.dataLen.toNat) ++
      Bytes.ofNat 8 p.expiresAt.toUInt64.toNat
  else []

/-- What `encode_log` writes. -/
def logBytes (p : OpPayload) : List UInt8 :=
  Bytes.ofNat 4 p.type.code.toUInt32.toNat ++ (Bytes.ofNat 8 p.timestamp.toUInt64.toNat ++
    (p.keyField ++ p.dataField))

/-- The size that `encode_log` allocates, as a number. It counts 8 bytes for a length field, where
the serializer writes 4. -/
def logSize (p : OpPayload) : Nat :=
  12 + (if p.type ≠ .purge then 8 + p.key.bytes.length else 0) +
    (if p.type = .write then 16 + p.dataLen.toNat else 0)

/-- The data is as long as the payload says, and its length fits the length field. -/
structure WellFormed (p : OpPayload) : Prop where
  key_lt : p.key.bytes.length < 2 ^ 32
  data_lt : p.type = .write → p.dataLen.toNat < 2 ^ 32
  data_le : p.type = .write → p.dataLen.toNat ≤ p.data.length

variable {p out : OpPayload} {memory : Nat → UInt8}

theorem length_keyField (p : OpPayload) :
    p.keyField.length = if p.type ≠ .purge then 4 + p.key.bytes.length else 0 := by
  unfold keyField
  split
  · rw [List.length_append, Bytes.length_ofNat]
  · rfl

theorem WellFormed.length_dataField (h : p.WellFormed) :
    p.dataField.length = if p.type = .write then 4 + p.dataLen.toNat + 8 else 0 := by
  unfold dataField
  split
  · next hw =>
    simp only [List.length_append, Bytes.length_ofNat, List.length_take_of_le (h.data_le hw)]
  · rfl

/-- What is written fits the buffer that is allocated. -/
theorem WellFormed.length_logBytes_le (h : p.WellFormed) : p.logBytes.length ≤ p.logSize := by
  simp only [logBytes, logSize, List.length_append, Bytes.length_ofNat, length_keyField,
    h.length_dataField]
  split <;> split <;> omega

theorem WellFormed.toNat_encodedSize (h : p.WellFormed) : p.encodedSize.toNat = p.logSize := by
  have hkey := p.key.toNat_size
  have hk := h.key_lt
  have hd := h.data_lt
  unfold logSize encodedSize
  cases htype : p.type with
  | write =>
    have := hd htype
    simp only [reduceCtorEq, ne_eq, not_false_eq_true, if_true, UInt64.toNat_add,
      UInt64.reduceToNat, hkey]
    omega
  | purge => simp
  | read =>
    simp only [reduceCtorEq, ne_eq, not_false_eq_true, if_true, if_false, UInt64.toNat_add,
      UInt64.reduceToNat, hkey]
    omega
  | other code named =>
    simp only [reduceCtorEq, ne_eq, not_false_eq_true, if_true, if_false, UInt64.toNat_add,
      UInt64.reduceToNat, hkey]
    omega

theorem WellFormed.putKey_puts (h : p.WellFormed) {bs : BufferSerializer} {n : Nat}
    (hroom : bs.Room (p.keyField.length + n)) :
    ∃ bs', p.putKey bs = .ok bs' ∧ bs.Puts p.keyField bs' ∧ bs'.Room n := by
  have hsize := p.key.toNat_size
  rw [length_keyField] at hroom
  unfold putKey keyField
  split at hroom
  · next hp =>
    rw [if_pos hp, if_pos hp, ← hsize]
    have := BufferSerializer.putBytes_puts (hsize ▸ h.key_lt) (Nat.le_of_eq hsize) (hsize ▸ hroom)
    rwa [hsize, List.take_length, ← hsize] at this
  · next hp =>
    rw [if_neg hp, if_neg hp]
    exact ⟨bs, rfl, .nil (hroom.mono (Nat.zero_le _)), hroom.mono (Nat.le_add_left _ _)⟩

theorem WellFormed.putData_puts (h : p.WellFormed) {bs : BufferSerializer}
    (hroom : bs.Room p.dataField.length) :
    ∃ bs', p.putData bs = .ok bs' ∧ bs.Puts p.dataField bs' := by
  rw [h.length_dataField] at hroom
  unfold putData dataField
  split at hroom
  · next hw =>
    rw [if_pos hw, if_pos hw]
    obtain ⟨bs₁, hput₁, hputs₁, hroom⟩ :=
      BufferSerializer.putBytes_puts (h.data_lt hw) (h.data_le hw) hroom
    obtain ⟨bs₂, hput₂, hputs₂, -⟩ := BufferSerializer.putRaw_all 8 (n := 0)
      (Bytes.length_ofNat 8 p.expiresAt.toUInt64.toNat).symm
      (by rwa [Bytes.length_ofNat])
    rw [hput₁, Run.ok_bind, hput₂]
    exact ⟨bs₂, rfl, hputs₁.append hputs₂⟩
  · next hw =>
    rw [if_neg hw, if_neg hw]
    exact ⟨bs, rfl, .nil (hroom.mono (Nat.zero_le _))⟩

/-- A payload that fits a buffer is encoded without an exception. After what is written come bytes
that nothing has initialised. -/
theorem WellFormed.encodeLog_eq (h : p.WellFormed) (memory : Nat → UInt8)
    (hsize : p.logSize < 2 ^ 31) :
    ∃ tail, encodeLog memory p = .ok (p.logBytes ++ tail) ∧
      (p.logBytes ++ tail).length < 2 ^ 31 := by
  have halloc := bufferAlloc_eq memory hsize h.toNat_encodedSize
  have hlen : ((List.range p.logSize).map memory).length = p.logSize := by simp
  generalize (List.range p.logSize).map memory = log at halloc hlen
  have hroom : (BufferSerializer.new log).Room p.logBytes.length := by
    refine ⟨hlen ▸ hsize, ?_⟩
    show 0 + p.logBytes.length ≤ log.length
    rw [hlen, Nat.zero_add]
    exact h.length_logBytes_le
  rw [logBytes, List.length_append] at hroom
  obtain ⟨bs₁, hput₁, hputs₁, hroom⟩ := BufferSerializer.putRaw_all 4
    (Bytes.length_ofNat 4 _).symm hroom
  rw [List.length_append] at hroom
  obtain ⟨bs₂, hput₂, hputs₂, hroom⟩ := BufferSerializer.putRaw_all 8
    (Bytes.length_ofNat 8 _).symm hroom
  rw [List.length_append] at hroom
  obtain ⟨bs₃, hput₃, hputs₃, hroom⟩ := h.putKey_puts hroom
  obtain ⟨bs₄, hput₄, hputs₄⟩ := h.putData_puts hroom
  have hputs := hputs₁.append (hputs₂.append (hputs₃.append hputs₄))
  have htake := Bytes.take_overwrite hputs.buffer
  have hbuffer : bs₄.buffer = p.logBytes ++ bs₄.buffer.drop (0 + p.logBytes.length) := by
    refine (List.take_append_drop (0 + p.logBytes.length) bs₄.buffer).symm.trans ?_
    exact congrArg (· ++ _) htake
  refine ⟨bs₄.buffer.drop (0 + p.logBytes.length), ?_, ?_⟩ <;> rw [← hbuffer]
  · unfold encodeLog
    simp only [halloc, Run.ok_bind, hput₁, hput₂, hput₃, hput₄]
    rfl
  · rw [Bytes.length_overwrite hputs.buffer]
    exact hlen ▸ hsize

/-- A payload that does not fit makes `buffer::alloc` throw. -/
theorem WellFormed.encodeLog_eq_error (h : p.WellFormed) (hsize : ¬ p.logSize < 2 ^ 31) :
    encodeLog memory p = .error (.thrown "std::out_of_range") := by
  have halloc := bufferAlloc_eq_error memory hsize h.toNat_encodedSize
  unfold encodeLog
  simp only [halloc]
  rfl

/-! ## Decoding -/

/-- What `decode_log` makes of `out`, given the log of `p`. -/
def received (p out : OpPayload) : Except Fault OpPayload :=
  let q := { out with
    type := p.type
    timestamp := p.timestamp
    key := if p.type ≠ .purge then p.key else out.key }
  if p.type = .write then
    if p.dataLen.toNat ≤ out.data.length then
      .ok { q with
        dataLen := p.dataLen
        data := p.data.take p.dataLen.toNat ++ out.data.drop p.dataLen.toNat }
    else .error .outOfBounds
  else .ok q

theorem WellFormed.getKey_ahead (h : p.WellFormed) {q : OpPayload} (hq : q.type = p.type)
    {bs : BufferSerializer} {rest : List UInt8} (hbs : bs.Ahead (p.keyField ++ rest)) :
    ∃ bs', q.getKey bs =
        .ok ({ q with key := if p.type ≠ .purge then p.key else q.key }, bs') ∧
      bs'.Ahead rest := by
  unfold keyField at hbs
  unfold getKey
  rw [← hq] at hbs ⊢
  split at hbs
  · next hp =>
    rw [List.append_assoc] at hbs
    obtain ⟨bs', hget, hbs'⟩ := BufferSerializer.getStr_ahead h.key_lt hbs
    rw [if_pos hp, if_pos hp, hget]
    exact ⟨bs', rfl, hbs'⟩
  · next hp =>
    rw [if_neg hp, if_neg hp]
    exact ⟨bs, rfl, hbs⟩

theorem WellFormed.getData_ahead (h : p.WellFormed) {q : OpPayload} (hq : q.type = p.type)
    {bs : BufferSerializer} {rest : List UInt8} (hbs : bs.Ahead (p.dataField ++ rest)) :
    q.getData bs =
      if p.type = .write then
        if p.dataLen.toNat ≤ q.data.length then
          .ok { q with
            dataLen := p.dataLen
            data := p.data.take p.dataLen.toNat ++ q.data.drop p.dataLen.toNat }
        else .error .outOfBounds
      else .ok q := by
  unfold dataField at hbs
  unfold getData
  rw [← hq] at hbs ⊢
  split at hbs
  · next hw =>
    have htake := List.length_take_of_le (h.data_le (hq ▸ hw))
    have hlt := h.data_lt (hq ▸ hw)
    have hlen : UInt64.ofNat (p.data.take p.dataLen.toNat).length = p.dataLen := by
      rw [htake, UInt64.ofNat_toNat]
    rw [List.append_assoc, List.append_assoc] at hbs
    nth_rewrite 1 [← htake] at hbs
    obtain ⟨bs', hget, -⟩ := BufferSerializer.getBytes_ahead (htake.symm ▸ hlt) hbs
    rw [if_pos hw, if_pos hw, hget, Run.ok_bind]
    simp only [hlen]
    unfold memcpy Bytes.overwrite
    rw [if_pos (by rw [List.length_append, htake]; exact Nat.le_add_right _ _),
      List.take_left' htake, htake, Nat.zero_add]
    by_cases hfit : p.dataLen.toNat ≤ q.data.length
    · rw [if_pos hfit, if_pos hfit]
      rfl
    · rw [if_neg hfit, if_neg hfit]
      rfl
  · next hw => rw [if_neg hw, if_neg hw]

theorem WellFormed.decodeLog_eq (h : p.WellFormed) {rest : List UInt8}
    (hlen : (p.logBytes ++ rest).length < 2 ^ 31) :
    decodeLog (p.logBytes ++ rest) out = p.received out := by
  have hbs : (BufferSerializer.new (p.logBytes ++ rest)).Ahead (p.logBytes ++ rest) :=
    ⟨hlen, Nat.zero_le _, List.drop_zero⟩
  have htype : OpType.ofCode (UInt32.ofNat (Bytes.toNat
      (Bytes.ofNat 4 p.type.code.toUInt32.toNat))).toInt32 = p.type := by
    rw [Bytes.toNat_ofNat (w := 4) p.type.code.toUInt32.toNat_lt, UInt32.ofNat_toNat]
    exact OpType.ofCode_code p.type
  have htime : (UInt64.ofNat (Bytes.toNat
      (Bytes.ofNat 8 p.timestamp.toUInt64.toNat))).toInt64 = p.timestamp := by
    rw [Bytes.toNat_ofNat (w := 8) p.timestamp.toUInt64.toNat_lt, UInt64.ofNat_toNat]
    rfl
  unfold decodeLog
  generalize BufferSerializer.new (p.logBytes ++ rest) = bs at hbs
  simp only [logBytes, List.append_assoc] at hbs
  obtain ⟨bs₁, hget₁, hbs⟩ := BufferSerializer.getRaw_ahead 4 hbs
    (Bytes.length_ofNat 4 _).symm
  obtain ⟨bs₂, hget₂, hbs⟩ := BufferSerializer.getRaw_ahead 8 hbs
    (Bytes.length_ofNat 8 _).symm
  simp only [hget₁, hget₂, Run.ok_bind, List.take_left' (Bytes.length_ofNat 4 _),
    List.take_left' (Bytes.length_ofNat 8 _), htype, htime]
  obtain ⟨bs₃, hget₃, hbs⟩ := h.getKey_ahead
    (q := { out with type := p.type, timestamp := p.timestamp }) rfl hbs
  rw [hget₃, Run.ok_bind]
  exact h.getData_ahead (by rfl) hbs

end OpPayload

/-! ## Writes that differ in the expiry -/

section Expiry

variable {cfg : CacheConfig} {key : Key} {item item' : CacheItem} {t : Int64}

theorem CacheItem.make_eq_ok {bytes : List UInt8} {len : UInt64} (hlt : len.toNat < 2 ^ 63)
    (hle : len.toNat ≤ bytes.length) :
    ∃ data : ItemData, data.bytes = bytes.take len.toNat ∧
      ∀ exp, CacheItem.make bytes len exp = .ok ⟨none, data, len, exp⟩ :=
  ⟨⟨_, _⟩, rfl, fun _ => (dif_pos hlt).trans (if_pos hle)⟩

/-- A write that has already expired is rejected, whatever its expiry is. -/
theorem commitWrite_of_isExpired {σ : Type} {v : Virtuals σ} {s : σ}
    (hsize : item.dataSize = item'.dataSize) (h : item.isExpired t = true)
    (h' : item'.isExpired t = true) :
    commitWrite v cfg s key item t = commitWrite v cfg s key item' t := by
  have hrej : rejection cfg key item t = rejection cfg key item' t := by
    unfold rejection
    rw [hsize, h, h']
  have hsome : ∃ code, rejection cfg key item' t = some code := by
    unfold rejection
    rw [h']
    split
    · exact ⟨_, rfl⟩
    · split <;> exact ⟨_, rfl⟩
  obtain ⟨code, hcode⟩ := hsome
  unfold commitWrite
  rw [hrej, hcode]

theorem CacheState.commitWrite_of_isExpired (item item' : CacheItem) {st : CacheState}
    (hsize : item.dataSize = item'.dataSize) (h : item.isExpired t = true)
    (h' : item'.isExpired t = true) :
    st.commitWrite cfg key item t = st.commitWrite cfg key item' t := by
  unfold CacheState.commitWrite SnapshotStorage.commitWrite CacheStorage.commitWrite
  rw [LruCache.commitWrite_of_isExpired hsize h h', LruCache.commitWrite_of_isExpired hsize h h']

/-- A write to a new state stores the item unless it has already expired. -/
theorem CacheState.new_commitWrite (item : CacheItem) (t : Int64) (hk : key.size ≤ cfg.maxKeySize)
    (hi : cfg.purgeInterval ≠ 0) :
    ∃ b st, CacheState.new.commitWrite cfg key item t = .ok (b, st) ∧
      st.storage.entries = .ok (if item.isExpired t then [] else [item.entry key]) := by
  have hrej : rejection cfg key item t = if item.isExpired t then some .wrongExpiry else none := by
    unfold rejection
    rw [if_neg (UInt64.not_lt.mpr hk), if_neg UInt64.not_lt_zero]
  have hsafe : (StorageOp.commitWrite key item t).Safe cfg .new := fun _ => .inl rfl
  obtain ⟨a, s, R, hstep, hR, hcontents, -⟩ :=
    (Represents.empty cfg).step (s := CacheStorage.new) hi hsafe
  obtain ⟨⟨b, u⟩, hwrite, hs⟩ := Run.bind_eq_ok.mp hstep
  cases hs
  have hnil : writeSurvivors id cfg key item.dataSize t [] = [] :=
    List.sublist_nil.mp survivors_sublist
  have hentries : R.map Record.entry = if item.isExpired t then [] else [item.entry key] := by
    refine (congrArg Prod.snd hcontents).symm.trans ?_
    simp only [Contents.step, hrej, List.map_nil, hnil]
    cases item.isExpired t <;> rfl
  refine ⟨b, { CacheState.new with storage := s, commitCode := s.commitCode }, ?_, ?_⟩
  · have hdirect : ¬ CacheState.new.snapshotInProgress = true := Bool.false_ne_true
    have hwrite : CacheState.new.storage.commitWrite cfg key item t = .ok (b, s) := hwrite
    rw [CacheState.commitWrite, if_neg hdirect, hwrite]
    rfl
  · exact hR.entries.trans (congrArg _ hentries)

end Expiry

/-! ## The codec and `commit` -/

namespace OpPayload

variable {p q out init : OpPayload} {memory : Nat → UInt8} {cfg : CacheConfig} {st : CacheState}

/-- `q` carries the operation of `p`. -/
def Carries (q p : OpPayload) : Prop :=
  q.type = p.type ∧ q.timestamp = p.timestamp ∧ (p.type ≠ .purge → q.key = p.key) ∧
    (p.type = .write → q.dataLen = p.dataLen ∧
      q.data.take p.dataLen.toNat = p.data.take p.dataLen.toNat ∧ q.expiresAt = p.expiresAt)

/-- What comes through is the operation, except that a write keeps the expiry of `out`. -/
theorem WellFormed.received_eq_ok (h : p.WellFormed)
    (hout : p.type = .write → p.dataLen.toNat ≤ out.data.length) :
    ∃ q, p.received out = .ok q ∧ q.Carries { p with expiresAt := out.expiresAt } := by
  unfold received
  by_cases hw : p.type = .write
  · rw [if_pos hw, if_pos (hout hw)]
    refine ⟨_, rfl, rfl, rfl, fun hp => if_pos hp, fun _ => ⟨rfl, ?_, rfl⟩⟩
    exact List.take_left' (List.length_take_of_le (h.data_le hw))
  · rw [if_neg hw]
    exact ⟨_, rfl, rfl, rfl, fun hp => if_pos hp, fun hw' => absurd hw' hw⟩

/-- The call that a write makes. -/
theorem apply_write {n : UInt64} {bytes : List UInt8} (hlt : n.toNat < 2 ^ 63)
    (hle : n.toNat ≤ bytes.length) :
    ∃ data : ItemData, ∀ (q : OpPayload) (cfg : CacheConfig) (st : CacheState), q.type = .write →
      q.dataLen = n → q.data.take n.toNat = bytes.take n.toNat →
      q.apply cfg st = (do
        return (← st.commitWrite cfg q.key ⟨none, data, n, q.expiresAt⟩ q.timestamp).2) := by
  obtain ⟨data, hdata, -⟩ := CacheItem.make_eq_ok hlt hle
  refine ⟨data, fun q cfg st hw hn hbytes => ?_⟩
  subst hn
  have hle' : q.dataLen.toNat ≤ q.data.length := by
    have := congrArg List.length hbytes
    rw [List.length_take, List.length_take_of_le hle] at this
    omega
  obtain ⟨data', hdata', hmake⟩ := CacheItem.make_eq_ok hlt hle'
  have heq : data' = data := by
    cases data
    cases data'
    simp only [ItemData.mk.injEq]
    exact hdata'.trans (hbytes.trans hdata.symm)
  unfold apply
  rw [hw, ← heq]
  simp only [hmake, Run.ok_bind]

/-- `commit` makes the call that the entry asks for; its own buffer never throws. -/
theorem snd_commit (memory : Nat → UInt8) (idx : UInt64) {log : List UInt8} :
    (Prod.snd <$> commit cfg memory init st idx log) =
      (decodeLog log init >>= fun q => q.apply cfg st) := by
  have hroom : (BufferSerializer.new ((List.range 8).map memory)).Room 8 :=
    ⟨by simp [BufferSerializer.new], by simp [BufferSerializer.new]⟩
  obtain ⟨bs, hput, -, -⟩ := BufferSerializer.putRaw_all 8 (n := 0)
    (Bytes.length_ofNat 8 idx.toNat).symm (by rwa [Bytes.length_ofNat])
  have halloc : bufferAlloc memory 8 = .ok ((List.range 8).map memory) :=
    bufferAlloc_eq memory (by decide) rfl
  unfold commit BufferSerializer.putU64
  simp only [halloc, Run.ok_bind, hput, map_bind]
  cases decodeLog log init with
  | error e => rfl
  | ok q =>
    simp only [Run.ok_bind]
    cases q.apply cfg st <;> rfl

/-- The condition on the local variable of `commit`: for a write its pointer has to lead to enough
memory, and its expiry has to be that of the write or to have passed with it. -/
def Receives (init p : OpPayload) : Prop :=
  p.type = .write → p.dataLen.toNat ≤ init.data.length ∧
    (init.expiresAt = p.expiresAt ∨
      init.expiresAt ≤ p.timestamp ∧ p.expiresAt ≤ p.timestamp)

instance (init p : OpPayload) : Decidable (init.Receives p) :=
  inferInstanceAs (Decidable (_ → _))

theorem WellFormed.data_lt_max (h : p.WellFormed) (hw : p.type = .write) :
    p.dataLen.toNat < 2 ^ 63 :=
  Nat.lt_trans (h.data_lt hw) (by decide)

theorem WellFormed.apply_received (h : p.WellFormed) (hinit : init.Receives p) :
    (p.received init >>= fun q => q.apply cfg st) = p.apply cfg st := by
  obtain ⟨q, hq, htype, htime, hkey, hdata⟩ := h.received_eq_ok fun hw => (hinit hw).1
  rw [hq, Run.ok_bind]
  cases hp : p.type with
  | write =>
    obtain ⟨hlen, hbytes, hexp⟩ := hdata hp
    obtain ⟨data, happly⟩ := apply_write (h.data_lt_max hp) (h.data_le hp)
    rw [happly q cfg st (htype.trans hp) hlen hbytes, happly p cfg st hp rfl rfl,
      show q.timestamp = p.timestamp from htime,
      show q.key = p.key from hkey (by simp [hp]), show q.expiresAt = init.expiresAt from hexp]
    rcases (hinit hp).2 with he | ⟨he, he'⟩
    · rw [he]
    · rw [CacheState.commitWrite_of_isExpired ⟨none, data, p.dataLen, init.expiresAt⟩
        ⟨none, data, p.dataLen, p.expiresAt⟩ rfl (decide_eq_true he) (decide_eq_true he')]
  | read =>
    unfold apply
    rw [show q.type = .read from htype.trans hp, hp,
      show q.timestamp = p.timestamp from htime, show q.key = p.key from hkey (by simp [hp])]
  | purge =>
    unfold apply
    rw [show q.type = .purge from htype.trans hp, hp, show q.timestamp = p.timestamp from htime]
  | other code named =>
    unfold apply
    rw [show q.type = .other code named from htype.trans hp, hp]

/-- A write that is applied to a new state tells whether it came through. -/
theorem WellFormed.receives_of_apply (h : p.WellFormed)
    (hall : ∀ cfg st, (p.received init >>= fun q => q.apply cfg st) = p.apply cfg st) :
    init.Receives p := by
  intro hw
  have hfresh (e : Int64) (data : ItemData) := CacheState.new_commitWrite
    ⟨none, data, p.dataLen, e⟩ p.timestamp
    (show p.key.size ≤ (⟨0, 0, p.key.size, 1⟩ : CacheConfig).maxKeySize from UInt64.le_refl _)
    (show (1 : Int32) ≠ 0 by decide)
  obtain ⟨data, happly⟩ := apply_write (h.data_lt_max hw) (h.data_le hw)
  have hnew := hall ⟨0, 0, p.key.size, 1⟩ .new
  obtain ⟨b, st, hwrite, hentries⟩ := hfresh p.expiresAt data
  rw [happly p _ _ hw rfl rfl, hwrite] at hnew
  by_cases hle : p.dataLen.toNat ≤ init.data.length
  · refine ⟨hle, ?_⟩
    obtain ⟨q, hq, htype, htime, hkey, hdata⟩ := h.received_eq_ok fun _ => hle
    obtain ⟨hlen, hbytes, hexp⟩ := hdata hw
    obtain ⟨b', st', hwrite', hentries'⟩ := hfresh init.expiresAt data
    rw [hq, Run.ok_bind, happly q _ _ (htype.trans hw) hlen hbytes,
      show q.timestamp = p.timestamp from htime,
      show q.key = p.key from hkey (by simp [hw]), show q.expiresAt = init.expiresAt from hexp,
      hwrite'] at hnew
    cases hnew
    have hsame := Except.ok.inj (hentries'.symm.trans hentries)
    simp only [CacheItem.isExpired, CacheItem.entry, decide_eq_true_eq] at hsame
    by_cases hp : p.expiresAt ≤ p.timestamp <;> by_cases hi : init.expiresAt ≤ p.timestamp
    · exact .inr ⟨hi, hp⟩
    · simp [hp, hi] at hsame
    · simp [hp, hi] at hsame
    · simp only [if_neg hp, if_neg hi, List.cons.injEq, Entry.mk.injEq] at hsame
      exact .inl hsame.1.2.2.2
  · have herr : p.received init = .error .outOfBounds := by
      unfold received
      rw [if_pos hw, if_neg hle]
    rw [herr] at hnew
    cases hnew

end OpPayload

/-- An operation survives the log, and its commit is the direct call, exactly when it fits a
`nuraft::buffer` and, for a write, the payloads that receive it already hold its expiry and memory
for its data: `decode_log` reads everything back except `expires_at`. -/
theorem log_round_trip_iff {p out init : OpPayload} {memory : Nat → UInt8} (h : p.WellFormed)
    (hout : p.type = .write → p.dataLen.toNat ≤ out.data.length) :
    (∃ log, encodeLog memory p = .ok log ∧
      (∃ q, decodeLog log out = .ok q ∧ q.Carries p) ∧
      ∀ cfg memory st idx, (Prod.snd <$> commit cfg memory init st idx log) = p.apply cfg st) ↔
    p.logSize < 2 ^ 31 ∧ (p.type = .write → out.expiresAt = p.expiresAt) ∧ init.Receives p := by
  constructor
  · rintro ⟨log, henc, ⟨q, hdec, hq⟩, hcommit⟩
    by_cases hsize : p.logSize < 2 ^ 31
    · obtain ⟨tail, henc', hlen⟩ := h.encodeLog_eq memory hsize
      cases henc'.symm.trans henc
      obtain ⟨q', hq', -, -, -, hdata⟩ := h.received_eq_ok hout
      cases hdec.symm.trans ((h.decodeLog_eq hlen).trans hq')
      refine ⟨hsize, fun hw => ?_, h.receives_of_apply fun cfg st => ?_⟩
      · exact (hdata hw).2.2.symm.trans (hq.2.2.2 hw).2.2
      · rw [← h.decodeLog_eq hlen, ← OpPayload.snd_commit memory 0]
        exact hcommit cfg memory st 0
    · rw [h.encodeLog_eq_error hsize] at henc
      cases henc
  · rintro ⟨hsize, hexp, hinit⟩
    obtain ⟨tail, henc, hlen⟩ := h.encodeLog_eq memory hsize
    obtain ⟨q, hq, htype, htime, hkey, hdata⟩ := h.received_eq_ok hout
    refine ⟨_, henc, ⟨q, (h.decodeLog_eq hlen).trans hq, htype, htime, hkey, fun hw => ?_⟩, ?_⟩
    · obtain ⟨hn, hbytes, he⟩ := hdata hw
      exact ⟨hn, hbytes, he.trans (hexp hw)⟩
    · intro cfg memory st idx
      rw [OpPayload.snd_commit, h.decodeLog_eq hlen]
      exact h.apply_received hinit

namespace Sample

/-- A write at time 10 that expires at 100. -/
def writePayload : OpPayload := ⟨.write, 10, key 1, 2, [7, 8], 100⟩

/-- The same variables after another use, with an expiry at 5. -/
def stalePayload : OpPayload := ⟨.read, 0, key 2, 0, [0, 0, 0], 5⟩

end Sample

theorem log_round_trip_sample :
    Sample.writePayload.WellFormed ∧ ∃ log, encodeLog (fun _ => 0) Sample.writePayload = .ok log ∧
      (∃ q, decodeLog log { Sample.stalePayload with expiresAt := 100 } = .ok q ∧
        q.Carries Sample.writePayload) ∧
      ∀ cfg memory st idx,
        (Prod.snd <$> commit cfg memory { Sample.stalePayload with expiresAt := 100 } st idx log) =
          Sample.writePayload.apply cfg st := by
  have h : Sample.writePayload.WellFormed :=
    ⟨by decide, fun _ => by decide, fun _ => by decide⟩
  exact ⟨h, (log_round_trip_iff h fun _ => by decide).mpr
    ⟨by decide, fun _ => rfl, by decide⟩⟩

/-- A write is decoded with the expiry that the payload held before, and `commit` rejects what the
direct call stores. -/
theorem decode_log_drops_expiry :
    Sample.writePayload.WellFormed ∧
    Sample.writePayload.dataLen.toNat ≤ Sample.stalePayload.data.length ∧
    (do
      let log ← encodeLog (fun _ => 0) Sample.writePayload
      let q ← decodeLog log Sample.stalePayload
      let (_, st) ← commit Sample.config (fun _ => 0) Sample.stalePayload .new 1 log
      let direct ← Sample.writePayload.apply Sample.config .new
      return decide (q.expiresAt = 5 ∧ st ≠ direct ∧
        st.read (Sample.key 1) 20 = Except.ok none ∧
        direct.read (Sample.key 1) 20 = Except.ok (some [7, 8]))) = .ok true := by
  refine ⟨⟨by decide, fun _ => by decide, fun _ => by decide⟩, by decide, ?_⟩
  decide +kernel

end LruCache
