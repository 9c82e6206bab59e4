import LruCache.Basic
import LruCache.Lib.Run

/-!
# `nuraft::buffer`

A block of bytes of fixed length with a position that every read and write moves on. Numbers are
stored least significant byte first. A write that does not fit and a read of a number that is not
there throw; `get(ptr<buffer>&)` copies without a check.

The position splits the block into what lies behind it (`behind`) and what lies ahead (`ahead`). A
write moves the bytes it stores from the one to the other, a read moves the bytes it returns.
-/

namespace LruCache

/-- `nuraft::buffer`. The bound on the length is that of `alloc`. -/
structure Buffer where
  bytes : List UInt8
  pos : Nat
  pos_le : pos ≤ bytes.length
  length_lt : bytes.length < 2 ^ 31
deriving DecidableEq, Repr

namespace Buffer

/-- `buffer::alloc`. The bytes of a new block are whatever `memory` held. -/
def alloc (memory : Nat → UInt8) (size : UInt64) : Except Fault Buffer :=
  if h : size.toNat < 2 ^ 31 then
    .ok { bytes := (List.range size.toNat).map memory
          pos := 0
          pos_le := Nat.zero_le _
          length_lt := by rwa [List.length_map, List.length_range] }
  else .error (.thrown "std::out_of_range")

/-- `buffer::size`. -/
def size (b : Buffer) : UInt64 := UInt64.ofNat b.bytes.length

/-- `buffer::pos(p)`. -/
def setPos (b : Buffer) (p : Nat) : Buffer :=
  { b with pos := min p b.bytes.length, pos_le := Nat.min_le_right _ _ }

/-- The bytes before the position. -/
def behind (b : Buffer) : List UInt8 := b.bytes.take b.pos

/-- The bytes from the position on. -/
def ahead (b : Buffer) : List UInt8 := b.bytes.drop b.pos

/-- The position moved on. -/
def forward (b : Buffer) (n : Nat) (h : n ≤ b.bytes.length - b.pos) : Buffer :=
  { b with pos := b.pos + n, pos_le := by have := b.pos_le; omega }

/-- The bytes `src` stored at the position, which moves on. -/
def store (b : Buffer) (src : List UInt8) (h : src.length ≤ b.bytes.length - b.pos) : Buffer where
  bytes := b.bytes.take b.pos ++ src ++ b.bytes.drop (b.pos + src.length)
  pos := b.pos + src.length
  pos_le := by
    have hp := b.pos_le
    simp only [List.length_append, List.length_take, List.length_drop]
    omega
  length_lt := by
    have hb := b.length_lt
    have hp := b.pos_le
    simp only [List.length_append, List.length_take, List.length_drop]
    omega

/-- `buffer::put_raw`. The other writes are this one with the bytes they store. -/
def putRaw (b : Buffer) (src : List UInt8) : Except Fault Buffer :=
  if h : src.length ≤ b.bytes.length - b.pos then .ok (b.store src h)
  else .error (.thrown "std::overflow_error")

/-- `buffer::put(byte)`. -/
def putByte (b : Buffer) (val : UInt8) : Except Fault Buffer := b.putRaw [val]

/-- `buffer::put(int32)`. -/
def putInt32 (b : Buffer) (val : Int32) : Except Fault Buffer :=
  b.putRaw (Bytes.ofNat 4 val.toUInt32.toNat)

/-- `buffer::put(ulong)`. -/
def putULong (b : Buffer) (val : UInt64) : Except Fault Buffer := b.putRaw (Bytes.ofNat 8 val.toNat)

/-- `buffer::put(const std::string&)`: the characters and a null. -/
def putString (b : Buffer) (str : List UInt8) : Except Fault Buffer := b.putRaw (str ++ [0])

/-- `buffer::put(const byte*, size_t)`: the length in 4 bytes, then the bytes. -/
def putBytes (b : Buffer) (ba : List UInt8) : Except Fault Buffer := do
  let b ← b.putRaw (Bytes.ofNat 4 ba.length)
  b.putRaw ba

/-- `buffer::put(const buffer&)`. -/
def putBuffer (b src : Buffer) : Except Fault Buffer := b.putRaw src.ahead

/-- The bytes that a read of `len` bytes passes, and the buffer behind them. -/
def getRaw (b : Buffer) (len : Nat) : Except Fault (List UInt8 × Buffer) :=
  if h : len ≤ b.bytes.length - b.pos then
    .ok (b.ahead.take len, b.forward len h)
  else .error (.thrown "std::overflow_error")

/-- `buffer::get_byte`. -/
def getByte (b : Buffer) : Except Fault (UInt8 × Buffer) := do
  let r ← b.getRaw 1
  return (r.1.headD 0, r.2)

/-- `buffer::get_int`. -/
def getInt (b : Buffer) : Except Fault (Int32 × Buffer) := do
  let r ← b.getRaw 4
  return ((UInt32.ofNat (Bytes.toNat r.1)).toInt32, r.2)

/-- `buffer::get_ulong`. -/
def getULong (b : Buffer) : Except Fault (UInt64 × Buffer) := do
  let r ← b.getRaw 8
  return (UInt64.ofNat (Bytes.toNat r.1), r.2)

/-- `buffer::get(ptr<buffer>&)`: as many bytes as `dst` has ahead, without a check. -/
def getBuffer (b dst : Buffer) : Except Fault (Buffer × Buffer) :=
  if h : dst.ahead.length ≤ b.bytes.length - b.pos then do
    let dst' ← dst.putRaw (b.ahead.take dst.ahead.length)
    return (dst'.setPos dst.pos, b.forward dst.ahead.length h)
  else .error .outOfBounds

/-- `buffer::copy`: what lies ahead, in a block of its own. -/
def copy (memory : Nat → UInt8) (b : Buffer) : Except Fault Buffer := do
  let other ← alloc memory (UInt64.ofNat (b.bytes.length - b.pos))
  let other ← other.putBuffer b
  return other.setPos 0

/-- `buffer::clone`: the whole block, whatever the position. -/
def clone (memory : Nat → UInt8) (b : Buffer) : Except Fault Buffer := do
  let other ← alloc memory b.size
  let other ← other.putRaw b.bytes
  return other.setPos 0

/-- The block with these bytes, at its start. -/
def ofBytes (bytes : List UInt8) (h : bytes.length < 2 ^ 31) : Buffer :=
  ⟨bytes, 0, Nat.zero_le _, h⟩

variable {b b' : Buffer} {src rest : List UInt8} {memory : Nat → UInt8}

/-! ## Writing -/

theorem length_ahead (b : Buffer) : b.ahead.length = b.bytes.length - b.pos := List.length_drop

theorem behind_append_ahead (b : Buffer) : b.behind ++ b.ahead = b.bytes :=
  List.take_append_drop _ _

theorem toNat_size (b : Buffer) : b.size.toNat = b.bytes.length :=
  UInt64.toNat_ofNat_of_lt' (Nat.lt_trans b.length_lt (by decide))

/-- A write that fits. -/
theorem putRaw_eq_ok (h : src.length ≤ b.ahead.length) :
    ∃ b', b.putRaw src = .ok b' ∧ b'.behind = b.behind ++ src ∧
      b'.ahead = b.ahead.drop src.length := by
  have hp := b.pos_le
  have hlen : (b.bytes.take b.pos ++ src).length = b.pos + src.length := by
    rw [List.length_append, List.length_take_of_le hp]
  have hfit : src.length ≤ b.bytes.length - b.pos := length_ahead b ▸ h
  refine ⟨b.store src hfit, dif_pos hfit, ?_, ?_⟩
  · show (b.bytes.take b.pos ++ src ++ b.bytes.drop (b.pos + src.length)).take
        (b.pos + src.length) = _
    rw [← hlen, List.take_left]
    rfl
  · show (b.bytes.take b.pos ++ src ++ b.bytes.drop (b.pos + src.length)).drop
        (b.pos + src.length) = (b.bytes.drop b.pos).drop src.length
    rw [← hlen, List.drop_left, hlen, List.drop_drop]

/-- A write that returns has stored its bytes. -/
theorem behind_of_putRaw (h : b.putRaw src = .ok b') : b'.behind = b.behind ++ src := by
  have hfit : src.length ≤ b.ahead.length := by
    rw [length_ahead]
    unfold putRaw at h
    split at h
    · next hfit => exact hfit
    · cases h
  obtain ⟨b'', hput, hbehind, -⟩ := putRaw_eq_ok hfit
  rw [h] at hput
  cases hput
  exact hbehind

/-- A buffer that is being filled: what has been written, and how many bytes are left. -/
structure Writing (b : Buffer) (written : List UInt8) (left : Nat) : Prop where
  behind : b.behind = written
  ahead : b.ahead.length = left

theorem alloc_writing (memory : Nat → UInt8) (size : UInt64) (h : size.toNat < 2 ^ 31) :
    ∃ b, alloc memory size = .ok b ∧ b.pos = 0 ∧ b.Writing [] size.toNat := by
  refine ⟨_, dif_pos h, rfl, rfl, ?_⟩
  rw [length_ahead]
  show ((List.range size.toNat).map memory).length - 0 = _
  rw [List.length_map, List.length_range, Nat.sub_zero]

theorem Writing.putRaw {written : List UInt8} {left : Nat} (src : List UInt8)
    (hb : b.Writing written (src.length + left)) :
    ∃ b', b.putRaw src = .ok b' ∧ b'.Writing (written ++ src) left := by
  have hfit : src.length ≤ b.ahead.length := hb.ahead ▸ Nat.le_add_right _ _
  obtain ⟨b', hput, hbehind, hahead⟩ := putRaw_eq_ok hfit
  refine ⟨b', hput, hb.behind ▸ hbehind, ?_⟩
  rw [hahead, List.length_drop, hb.ahead, Nat.add_sub_cancel_left]

/-- One piece of what is to be written. -/
theorem Writing.putPiece {written : List UInt8} (hb : b.Writing written (src ++ rest).length) :
    ∃ b', b.putRaw src = .ok b' ∧ b'.Writing (written ++ src) rest.length :=
  Writing.putRaw src (List.length_append ▸ hb)

theorem eq_ofBytes {bytes : List UInt8} (h : bytes.length < 2 ^ 31) (hb : b.bytes = bytes) :
    b.setPos 0 = ofBytes bytes h := by
  cases b
  cases hb
  simp [setPos, ofBytes]

/-- The last write. -/
theorem Writing.putRaw_all {written : List UInt8} (hb : b.Writing written src.length) :
    ∃ b', b.putRaw src = .ok b' ∧ b'.Writing (written ++ src) 0 :=
  hb.putRaw src

/-- A buffer is full when nothing is left. -/
theorem Writing.full {written : List UInt8} (hb : b.Writing written 0) : b.bytes = written := by
  rw [← b.behind_append_ahead, List.eq_nil_of_length_eq_zero hb.ahead, List.append_nil, hb.behind]

/-- A sum of sizes that does not wrap. -/
theorem toNat_foldl_add {l : List UInt64} {acc : UInt64}
    (h : acc.toNat + (l.map UInt64.toNat).sum < 2 ^ 64) :
    (l.foldl (· + ·) acc).toNat = acc.toNat + (l.map UInt64.toNat).sum := by
  induction l generalizing acc with
  | nil => rfl
  | cons a l ih =>
    rw [List.map_cons, List.sum_cons] at h
    have hadd : (acc + a).toNat = acc.toNat + a.toNat := by
      rw [UInt64.toNat_add]
      omega
    rw [List.foldl_cons, ih (by rw [hadd]; omega), hadd, List.map_cons, List.sum_cons,
      Nat.add_assoc]

/-! ## Reading -/

/-- A read of bytes that are there. -/
theorem getRaw_eq_ok (h : b.ahead = src ++ rest) :
    ∃ b', b.getRaw src.length = .ok (src, b') ∧ b'.ahead = rest ∧ b'.bytes = b.bytes := by
  have hlen : src.length ≤ b.bytes.length - b.pos := by
    rw [← length_ahead, h, List.length_append]
    exact Nat.le_add_right _ _
  refine ⟨b.forward src.length hlen, (dif_pos hlen).trans ?_, ?_, rfl⟩
  · rw [h, List.take_left]
  · show b.bytes.drop (b.pos + src.length) = rest
    rw [← List.drop_drop]
    show b.ahead.drop src.length = rest
    rw [h, List.drop_left]

theorem getByte_eq_ok {val : UInt8} (h : b.ahead = val :: rest) :
    ∃ b', b.getByte = .ok (val, b') ∧ b'.ahead = rest ∧ b'.bytes = b.bytes := by
  have hone : b.ahead = [val] ++ rest := h
  obtain ⟨b', hget, hrest⟩ := getRaw_eq_ok hone
  exact ⟨b', Run.bind_eq_ok.mpr ⟨_, hget, rfl⟩, hrest⟩

theorem getInt_eq_ok {val : Int32} (h : b.ahead = Bytes.ofNat 4 val.toUInt32.toNat ++ rest) :
    ∃ b', b.getInt = .ok (val, b') ∧ b'.ahead = rest ∧ b'.bytes = b.bytes := by
  obtain ⟨b', hget, hrest⟩ := getRaw_eq_ok h
  rw [Bytes.length_ofNat] at hget
  refine ⟨b', Run.bind_eq_ok.mpr ⟨_, hget, ?_⟩, hrest⟩
  have hval : Bytes.toNat (Bytes.ofNat 4 val.toUInt32.toNat) = val.toUInt32.toNat :=
    Bytes.toNat_ofNat val.toUInt32.toNat_lt
  show Except.ok ((UInt32.ofNat (Bytes.toNat (Bytes.ofNat 4 val.toUInt32.toNat))).toInt32, b') = _
  rw [hval, UInt32.ofNat_toNat]
  rfl

theorem getULong_eq_ok {val : UInt64} (h : b.ahead = Bytes.ofNat 8 val.toNat ++ rest) :
    ∃ b', b.getULong = .ok (val, b') ∧ b'.ahead = rest ∧ b'.bytes = b.bytes := by
  obtain ⟨b', hget, hrest⟩ := getRaw_eq_ok h
  rw [Bytes.length_ofNat] at hget
  refine ⟨b', Run.bind_eq_ok.mpr ⟨_, hget, ?_⟩, hrest⟩
  show Except.ok (UInt64.ofNat (Bytes.toNat (Bytes.ofNat 8 val.toNat)), b') = _
  rw [Bytes.toNat_ofNat val.toNat_lt, UInt64.ofNat_toNat]

/-- A fresh block filled to its end. -/
theorem fill_eq_ok {dst : Buffer} (hdst : dst.Writing [] src.length) (h : src.length < 2 ^ 31) :
    ∃ dst', dst.putRaw src = .ok dst' ∧ dst'.setPos 0 = ofBytes src h := by
  obtain ⟨dst', hput, hfull⟩ := hdst.putRaw_all
  exact ⟨dst', hput, eq_ofBytes h hfull.full⟩

/-- A copy into a fresh block of the right size. -/
theorem getBuffer_eq_ok {dst : Buffer} (hpos : dst.pos = 0) (hdst : dst.Writing [] src.length)
    (h : b.ahead = src ++ rest) (hlt : src.length < 2 ^ 31) :
    ∃ b', b.getBuffer dst = .ok (ofBytes src hlt, b') ∧ b'.ahead = rest ∧ b'.bytes = b.bytes := by
  have hfit : dst.ahead.length ≤ b.bytes.length - b.pos := by
    rw [← length_ahead, h, List.length_append, hdst.ahead]
    exact Nat.le_add_right _ _
  obtain ⟨dst', hput, hfull⟩ := fill_eq_ok hdst hlt
  refine ⟨b.forward dst.ahead.length hfit, (dif_pos hfit).trans ?_, ?_, rfl⟩
  · have htake : b.ahead.take dst.ahead.length = src := by rw [h, hdst.ahead, List.take_left]
    rw [htake, hput, hpos, ← hfull]
    rfl
  · show b.bytes.drop (b.pos + dst.ahead.length) = rest
    rw [← List.drop_drop]
    show b.ahead.drop dst.ahead.length = rest
    rw [h, hdst.ahead, List.drop_left]

theorem copy_eq_ok (memory : Nat → UInt8) (b : Buffer) (h : b.ahead.length < 2 ^ 31) :
    b.copy memory = .ok (ofBytes b.ahead h) := by
  have hsize : (UInt64.ofNat (b.bytes.length - b.pos)).toNat = b.ahead.length := by
    rw [← length_ahead]
    exact UInt64.toNat_ofNat_of_lt' (Nat.lt_trans h (by decide))
  obtain ⟨other, halloc, -, hother⟩ := alloc_writing memory _ (hsize ▸ h)
  obtain ⟨other', hput, hfull⟩ := fill_eq_ok (hsize ▸ hother) h
  unfold copy
  rw [halloc, Run.ok_bind, putBuffer, hput, Run.ok_bind, hfull]
  rfl

theorem clone_eq_ok (b : Buffer) : b.clone memory = .ok (ofBytes b.bytes b.length_lt) := by
  have hsize : b.size.toNat < 2 ^ 31 := b.toNat_size ▸ b.length_lt
  obtain ⟨other, halloc, -, hother⟩ := alloc_writing memory _ hsize
  obtain ⟨other', hput, hfull⟩ := fill_eq_ok (b.toNat_size ▸ hother) b.length_lt
  unfold clone
  rw [halloc, Run.ok_bind, hput, Run.ok_bind, hfull]
  rfl

end Buffer

end LruCache
