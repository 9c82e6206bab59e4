import LruCache.Basic
import LruCache.Lib.Run

/-!
# `nuraft::buffer_serializer`

The part of the vendored serializer that the log codec uses, little endian: a buffer of fixed length
and a position that every call moves on. A call that would move it past the end throws.

A writer is described by the bytes it has put so far (`Puts`), a reader by the bytes that are still
to come (`Ahead`).
-/

namespace LruCache

/-- `nuraft::buffer::alloc`. The bytes of a new buffer are whatever `memory` held. -/
def bufferAlloc (memory : Nat → UInt8) (size : UInt64) : Except Fault (List UInt8) :=
  if size ≥ 0x80000000 then .error (.thrown "std::out_of_range")
  else .ok ((List.range size.toNat).map memory)

theorem bufferAlloc_eq (memory : Nat → UInt8) {size : UInt64} {n : Nat} (hn : n < 2 ^ 31)
    (hs : size.toNat = n) : bufferAlloc memory size = .ok ((List.range n).map memory) := by
  subst hs
  have hsize : ¬ size ≥ 0x80000000 := by
    rw [ge_iff_le, UInt64.le_iff_toNat_le]
    exact Nat.not_le.mpr hn
  exact if_neg hsize

theorem bufferAlloc_eq_error (memory : Nat → UInt8) {size : UInt64} {n : Nat} (hn : ¬ n < 2 ^ 31)
    (hs : size.toNat = n) : bufferAlloc memory size = .error (.thrown "std::out_of_range") := by
  subst hs
  have hsize : size ≥ 0x80000000 := by
    rw [ge_iff_le, UInt64.le_iff_toNat_le]
    exact Nat.not_lt.mp hn
  exact if_pos hsize

/-- `nuraft::buffer_serializer`, with the bytes of its buffer. -/
structure BufferSerializer where
  buffer : List UInt8
  pos : UInt64
deriving DecidableEq, Repr

namespace BufferSerializer

def new (buffer : List UInt8) : BufferSerializer := ⟨buffer, 0⟩

def size (bs : BufferSerializer) : UInt64 := UInt64.ofNat bs.buffer.length

/-- `buffer_serializer::is_valid`. -/
def isValid (bs : BufferSerializer) (len : UInt64) : Bool :=
  if bs.pos + len > bs.size then false else true

/-- `buffer_serializer::pos`. -/
def setPos (bs : BufferSerializer) (newPos : UInt64) : Except Fault BufferSerializer :=
  if newPos > bs.size then .error (.thrown "std::overflow_error")
  else .ok { bs with pos := newPos }

/-- `buffer_serializer::put_raw`. -/
def putRaw (bs : BufferSerializer) (raw : List UInt8) (len : UInt64) :
    Except Fault BufferSerializer :=
  if bs.isValid len then do
    let buffer ← memcpy bs.buffer bs.pos.toNat raw len
    setPos { bs with buffer := buffer } (bs.pos + len)
  else .error (.thrown "std::overflow_error")

/-- `buffer_serializer::put_u32`. -/
def putU32 (bs : BufferSerializer) (val : UInt32) : Except Fault BufferSerializer :=
  bs.putRaw (Bytes.ofNat 4 val.toNat) 4

/-- `buffer_serializer::put_u64`. -/
def putU64 (bs : BufferSerializer) (val : UInt64) : Except Fault BufferSerializer :=
  bs.putRaw (Bytes.ofNat 8 val.toNat) 8

/-- `buffer_serializer::put_bytes`. -/
def putBytes (bs : BufferSerializer) (raw : List UInt8) (len : UInt64) :
    Except Fault BufferSerializer :=
  if bs.isValid (len + 4) then do
    let bs ← bs.putU32 len.toUInt32
    bs.putRaw raw len
  else .error (.thrown "std::overflow_error")

/-- `buffer_serializer::put_str`. -/
def putStr (bs : BufferSerializer) (str : Key) : Except Fault BufferSerializer :=
  bs.putBytes str.bytes str.size

/-- `buffer_serializer::get_raw`: what the pointer it returns leads to. -/
def getRaw (bs : BufferSerializer) (len : UInt64) :
    Except Fault (List UInt8 × BufferSerializer) := do
  return (bs.buffer.drop bs.pos.toNat, ← bs.setPos (bs.pos + len))

/-- `buffer_serializer::get_u32`. -/
def getU32 (bs : BufferSerializer) : Except Fault (UInt32 × BufferSerializer) :=
  if bs.isValid 4 then do
    let (ptr, bs) ← bs.getRaw 4
    return (UInt32.ofNat (Bytes.toNat (ptr.take 4)), bs)
  else .error (.thrown "std::overflow_error")

/-- `buffer_serializer::get_bytes`: what the pointer leads to, and the length. -/
def getBytes (bs : BufferSerializer) : Except Fault ((List UInt8 × UInt64) × BufferSerializer) := do
  let (val, bs) ← bs.getU32
  let len := val.toUInt64
  if bs.isValid len then
    let (ptr, bs) ← bs.getRaw len
    return ((ptr, len), bs)
  else .error (.thrown "std::overflow_error")

/-- `buffer_serializer::get_str`. -/
def getStr (bs : BufferSerializer) : Except Fault (Key × BufferSerializer) := do
  let ((ptr, len), bs) ← bs.getBytes
  let bytes := ptr.take len.toNat
  if h : bytes.length < 2 ^ 62 then return (⟨bytes, h⟩, bs)
  else .error (.thrown "std::length_error")

/-! ## Room -/

/-- At least `n` more bytes fit. The bound is that of `buffer::alloc`. -/
structure Room (bs : BufferSerializer) (n : Nat) : Prop where
  length_lt : bs.buffer.length < 2 ^ 31
  pos_le : bs.pos.toNat + n ≤ bs.buffer.length

variable {bs bs' bs'' : BufferSerializer} {len : UInt64} {raw a b rest : List UInt8} {n : Nat}

theorem Room.mono (h : bs.Room n) {m : Nat} (hm : m ≤ n) : bs.Room m :=
  ⟨h.length_lt, Nat.le_trans (Nat.add_le_add_left hm _) h.pos_le⟩

theorem Room.toNat_size (h : bs.Room n) : bs.size.toNat = bs.buffer.length :=
  UInt64.toNat_ofNat_of_lt' (Nat.lt_trans h.length_lt (by decide))

theorem Room.toNat_pos (h : bs.Room len.toNat) :
    (bs.pos + len).toNat = bs.pos.toNat + len.toNat := by
  have := h.length_lt
  have := h.pos_le
  rw [UInt64.toNat_add]
  omega

theorem Room.pos_le_size (h : bs.Room len.toNat) : ¬ bs.pos + len > bs.size := by
  have hsize := h.toNat_size
  have hpos := h.toNat_pos
  have hle := h.pos_le
  rw [gt_iff_lt, UInt64.lt_iff_toNat_lt]
  omega

theorem isValid_of_room (h : bs.Room len.toNat) : bs.isValid len = true := if_neg h.pos_le_size

theorem setPos_of_room (h : bs.Room len.toNat) :
    bs.setPos (bs.pos + len) = .ok { bs with pos := bs.pos + len } :=
  if_neg h.pos_le_size

/-! ## Writing -/

/-- From `bs` to `bs'` the bytes are written, and nothing else. -/
structure Puts (bs : BufferSerializer) (bytes : List UInt8) (bs' : BufferSerializer) : Prop where
  buffer : Bytes.overwrite bs.buffer bs.pos.toNat bytes = some bs'.buffer
  pos : bs'.pos.toNat = bs.pos.toNat + bytes.length

theorem Puts.append (h : Puts bs a bs') (h' : Puts bs' b bs'') : Puts bs (a ++ b) bs'' where
  buffer := by
    rw [Bytes.overwrite_append, h.buffer, Option.bind_some, ← h.pos, h'.buffer]
  pos := by
    rw [h'.pos, h.pos, List.length_append, Nat.add_assoc]

theorem Puts.room (h : Puts bs a bs') (hr : bs.Room (a.length + n)) : bs'.Room n := by
  have hlen := Bytes.length_overwrite h.buffer
  have hle := hr.pos_le
  refine ⟨hlen ▸ hr.length_lt, ?_⟩
  rw [h.pos, hlen]
  omega

theorem Puts.nil (h : bs.Room 0) : Puts bs [] bs where
  buffer := by
    rw [Bytes.overwrite_eq_some h.pos_le]
    simp
  pos := rfl

/-- `put_raw` writes the first `len` bytes of its source. -/
theorem putRaw_puts (hraw : len.toNat ≤ raw.length) (h : bs.Room (len.toNat + n)) :
    ∃ bs', bs.putRaw raw len = .ok bs' ∧ Puts bs (raw.take len.toNat) bs' ∧ bs'.Room n := by
  have htake : (raw.take len.toNat).length = len.toNat := List.length_take_of_le hraw
  have hlen := h.mono (Nat.le_add_right _ _)
  obtain ⟨buffer, hover⟩ : ∃ buffer,
      Bytes.overwrite bs.buffer bs.pos.toNat (raw.take len.toNat) = some buffer :=
    ⟨_, Bytes.overwrite_eq_some (htake.symm ▸ hlen.pos_le)⟩
  have hsame := Bytes.length_overwrite hover
  have hlen' : Room { bs with buffer := buffer } len.toNat :=
    ⟨hsame ▸ hlen.length_lt, hsame ▸ hlen.pos_le⟩
  have hputs : Puts bs (raw.take len.toNat) ⟨buffer, bs.pos + len⟩ :=
    ⟨hover, hlen'.toNat_pos.trans (congrArg _ htake.symm)⟩
  refine ⟨_, ?_, hputs, hputs.room (htake.symm ▸ h)⟩
  unfold putRaw
  rw [if_pos (isValid_of_room hlen), memcpy_eq_ok hraw hover, Run.ok_bind]
  exact setPos_of_room hlen'

theorem putRaw_all (len : UInt64) (hraw : len.toNat = raw.length) (h : bs.Room (raw.length + n)) :
    ∃ bs', bs.putRaw raw len = .ok bs' ∧ Puts bs raw bs' ∧ bs'.Room n := by
  have := putRaw_puts (Nat.le_of_eq hraw) (hraw ▸ h)
  rwa [hraw, List.take_length] at this

/-- `put_bytes` writes the length in 4 bytes, then the bytes. -/
theorem putBytes_puts (hlen : len.toNat < 2 ^ 32) (hraw : len.toNat ≤ raw.length)
    (h : bs.Room (4 + len.toNat + n)) :
    ∃ bs', bs.putBytes raw len = .ok bs' ∧
      Puts bs (Bytes.ofNat 4 len.toNat ++ raw.take len.toNat) bs' ∧ bs'.Room n := by
  have hadd : (len + 4).toNat = 4 + len.toNat := by
    simp only [UInt64.toNat_add, UInt64.reduceToNat]
    omega
  have h32 : len.toUInt32.toNat = len.toNat := by
    rw [UInt64.toNat_toUInt32]
    exact Nat.mod_eq_of_lt hlen
  obtain ⟨bs₁, hput₁, hputs₁, hroom⟩ := putRaw_all 4
    (Bytes.length_ofNat 4 len.toNat).symm
    (by rwa [Bytes.length_ofNat, ← Nat.add_assoc])
  obtain ⟨bs₂, hput₂, hputs₂, hroom⟩ := putRaw_puts hraw hroom
  refine ⟨bs₂, ?_, hputs₁.append hputs₂, hroom⟩
  unfold putBytes putU32
  rw [if_pos (isValid_of_room (hadd ▸ h.mono (Nat.le_add_right _ _))), h32, hput₁, Run.ok_bind,
    hput₂]

/-! ## Reading -/

/-- The bytes from the position on. -/
structure Ahead (bs : BufferSerializer) (bytes : List UInt8) : Prop where
  length_lt : bs.buffer.length < 2 ^ 31
  pos_le : bs.pos.toNat ≤ bs.buffer.length
  drop : bs.buffer.drop bs.pos.toNat = bytes

theorem Ahead.room (h : bs.Ahead (a ++ rest)) : bs.Room a.length := by
  refine ⟨h.length_lt, ?_⟩
  have hlen := congrArg List.length h.drop
  rw [List.length_drop, List.length_append] at hlen
  have := h.pos_le
  omega

theorem getRaw_ahead (len : UInt64) (h : bs.Ahead (a ++ rest)) (hlen : len.toNat = a.length) :
    ∃ bs', bs.getRaw len = .ok (a ++ rest, bs') ∧ bs'.Ahead rest := by
  have hr : bs.Room len.toNat := hlen ▸ h.room
  refine ⟨{ bs with pos := bs.pos + len }, ?_, h.length_lt, ?_, ?_⟩
  · unfold getRaw
    rw [setPos_of_room hr, h.drop]
    rfl
  · exact hr.toNat_pos ▸ hr.pos_le
  · show bs.buffer.drop (bs.pos + len).toNat = rest
    rw [hr.toNat_pos, ← List.drop_drop, h.drop, hlen, List.drop_left]

/-- `get_bytes` reads what `put_bytes` writes. -/
theorem getBytes_ahead (ha : a.length < 2 ^ 32)
    (h : bs.Ahead (Bytes.ofNat 4 a.length ++ (a ++ rest))) :
    ∃ bs', bs.getBytes = .ok ((a ++ rest, UInt64.ofNat a.length), bs') ∧ bs'.Ahead rest := by
  have h4 : (4 : UInt64).toNat = (Bytes.ofNat 4 a.length).length := (Bytes.length_ofNat _ _).symm
  have hval : (UInt32.ofNat a.length).toUInt64 = UInt64.ofNat a.length := by
    refine UInt64.toNat_inj.mp ?_
    rw [UInt32.toNat_toUInt64, UInt32.toNat_ofNat_of_lt' ha,
      UInt64.toNat_ofNat_of_lt' (Nat.lt_trans ha (by decide))]
  obtain ⟨bs₁, hget₁, h₁⟩ := getRaw_ahead 4 h h4
  have hlen : (UInt64.ofNat a.length).toNat = a.length :=
    UInt64.toNat_ofNat_of_lt' (Nat.lt_trans ha (by decide))
  obtain ⟨bs₂, hget₂, h₂⟩ := getRaw_ahead _ h₁ hlen
  refine ⟨bs₂, ?_, h₂⟩
  have htake : (Bytes.ofNat 4 a.length ++ (a ++ rest)).take 4 = Bytes.ofNat 4 a.length := by
    rw [List.take_left' (Bytes.length_ofNat _ _)]
  have hu32 : bs.getU32 = .ok (UInt32.ofNat a.length, bs₁) := by
    unfold getU32
    rw [if_pos (isValid_of_room (h4 ▸ h.room)), hget₁, Run.ok_bind]
    simp only [htake, Bytes.toNat_ofNat (w := 4) ha]
    rfl
  unfold getBytes
  rw [hu32, Run.ok_bind]
  simp only [hval, isValid_of_room (hlen ▸ h₁.room), if_true, hget₂, Run.ok_bind]
  rfl

/-- `get_str` reads what `put_str` writes. -/
theorem getStr_ahead {key : Key} (hk : key.bytes.length < 2 ^ 32)
    (h : bs.Ahead (Bytes.ofNat 4 key.bytes.length ++ (key.bytes ++ rest))) :
    ∃ bs', bs.getStr = .ok (key, bs') ∧ bs'.Ahead rest := by
  obtain ⟨bs', hget, h'⟩ := getBytes_ahead hk h
  have hlen : (UInt64.ofNat key.bytes.length).toNat = key.bytes.length :=
    UInt64.toNat_ofNat_of_lt' (Nat.lt_trans hk (by decide))
  refine ⟨bs', ?_, h'⟩
  unfold getStr
  rw [hget, Run.ok_bind]
  simp only [hlen, List.take_left, dif_pos key.length_lt]
  rfl

end BufferSerializer

end LruCache
