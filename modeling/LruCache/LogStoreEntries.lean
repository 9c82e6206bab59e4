import LruCache.LogStore

/-!
# Log entries as bytes

What `make_clone`, `serialize` and `deserialize` do to an entry, and the block that `pack` builds
from the entries of a range: their number, and each one's length and serialised form.
-/

namespace LruCache

variable {memory : Nat → UInt8} {e : LogEntry} {b : Buffer}

theorem Buffer.setPos_zero (b : Buffer) : b.setPos 0 = .ofBytes b.bytes b.length_lt :=
  Buffer.eq_ofBytes b.length_lt rfl

namespace LogEntry

/-- The entry with its buffer rewound. -/
def cloned (e : LogEntry) : LogEntry := { e with buff := e.buff.map fun b => b.setPos 0 }

/-- An entry as the store keeps it: with a buffer, and that at its start. -/
def Stored (e : LogEntry) : Prop := ∃ b, e.buff = some b ∧ b.pos = 0

/-- The bytes of the buffer. -/
def payload (e : LogEntry) : List UInt8 := (e.buff.map Buffer.bytes).getD []

/-- The serialised form. -/
def record (e : LogEntry) : List UInt8 := Bytes.ofNat 8 e.term.toNat ++ e.valType.value :: e.payload

/-- The entry that the serialised form is read as. -/
def received (e : LogEntry) : LogEntry :=
  new e.term (e.buff.map fun b => b.setPos 0) e.valType 0 false 0 true

theorem Stored.cloned_eq (h : e.Stored) : e.cloned = e := by
  obtain ⟨b, hb, hpos⟩ := h
  have hset : b.setPos 0 = b := by
    cases b
    cases hpos
    simp [Buffer.setPos]
  unfold cloned
  rw [hb, Option.map_some, hset, ← hb]

theorem stored_cloned (h : e.buff ≠ none) : e.cloned.Stored := by
  obtain ⟨b, hb⟩ := Option.ne_none_iff_exists'.mp h
  refine ⟨b.setPos 0, ?_, Nat.zero_min _⟩
  unfold cloned
  rw [hb, Option.map_some]

theorem new_some (term : UInt64) (b : Buffer) (valType : LogValType) (time : UInt64) :
    new term (some b) valType time false 0 true =
      ⟨term, valType, some b, time, true, crc32_8 b.bytes 0⟩ := rfl

theorem stored_received (h : e.buff ≠ none) : e.received.Stored := by
  obtain ⟨b, hb⟩ := Option.ne_none_iff_exists'.mp h
  refine ⟨b.setPos 0, ?_, Nat.zero_min _⟩
  unfold received
  rw [hb, Option.map_some, new_some]

/-- What is not transmitted is the time stamp, and the checksum is that of the payload. -/
theorem received_eq (h : e.buff ≠ none) :
    e.received.term = e.term ∧ e.received.valType = e.valType ∧ e.received.payload = e.payload ∧
      e.received.crc32 = crc32_8 e.payload 0 := by
  obtain ⟨b, hb⟩ := Option.ne_none_iff_exists'.mp h
  unfold received payload
  rw [hb, Option.map_some, new_some]
  exact ⟨rfl, rfl, rfl, rfl⟩

theorem length_record (e : LogEntry) : e.record.length = 9 + e.payload.length := by
  unfold record
  rw [List.length_append, Bytes.length_ofNat, List.length_cons]
  omega

theorem payload_of_buff (hb : e.buff = some b) : e.payload = b.bytes := by
  unfold payload
  rw [hb]
  rfl

theorem serialize_eq_ok (he : e.buff ≠ none) (h : e.record.length < 2 ^ 31) :
    e.serialize memory = .ok (.ofBytes e.record h) := by
  obtain ⟨b, hb⟩ := Option.ne_none_iff_exists'.mp he
  have hlen : e.record.length = 9 + b.bytes.length := payload_of_buff hb ▸ e.length_record
  have hahead : (b.setPos 0).ahead = b.bytes := b.setPos_zero ▸ rfl
  have hsize : (8 + 1 + (b.setPos 0).size).toNat = 8 + (1 + b.bytes.length) := by
    rw [UInt64.toNat_add, Buffer.toNat_size]
    show (9 + b.bytes.length) % 2 ^ 64 = _
    omega
  obtain ⟨b₀, h₀, -, hw₀⟩ := Buffer.alloc_writing memory (8 + 1 + (b.setPos 0).size) (by omega)
  rw [hsize] at hw₀
  obtain ⟨b₁, h₁, hw₁⟩ := hw₀.putRaw (Bytes.ofNat 8 e.term.toNat)
  obtain ⟨b₂, h₂, hw₂⟩ := hw₁.putRaw [e.valType.value]
  obtain ⟨b₃, h₃, hw₃⟩ := hw₂.putRaw_all
  have hfull : b₃.bytes = e.record := by
    rw [hw₃.full, record, payload_of_buff hb, List.nil_append, List.append_assoc,
      List.singleton_append]
  unfold serialize
  rw [hb]
  simp only [h₀, Run.ok_bind, Buffer.putULong, h₁, Buffer.putByte, h₂, Buffer.putBuffer, hahead, h₃]
  exact congrArg Except.ok (Buffer.eq_ofBytes h hfull)

theorem deserialize_record (memory : Nat → UInt8) (he : e.buff ≠ none)
    (h : e.record.length < 2 ^ 31) :
    deserialize memory (.ofBytes e.record h) = .ok e.received := by
  obtain ⟨b, hb⟩ := Option.ne_none_iff_exists'.mp he
  have hlen : e.record.length = 9 + b.bytes.length := payload_of_buff hb ▸ e.length_record
  have hahead : (Buffer.ofBytes e.record h).ahead =
      Bytes.ofNat 8 e.term.toNat ++ e.valType.value :: b.bytes := payload_of_buff hb ▸ rfl
  obtain ⟨b₁, h₁, hahead₁, -⟩ := Buffer.getULong_eq_ok hahead
  obtain ⟨b₂, h₂, hahead₂, -⟩ := Buffer.getByte_eq_ok hahead₁
  have hcopy := b₂.copy_eq_ok memory (hahead₂ ▸ b.length_lt)
  have hdata : Buffer.ofBytes b₂.ahead (hahead₂ ▸ b.length_lt) = b.setPos 0 := by
    rw [b.setPos_zero]
    congr 1
  unfold deserialize received
  rw [h₁, Run.ok_bind, h₂, Run.ok_bind, hcopy, Run.ok_bind, hdata, hb]
  rfl

end LogEntry

namespace LogStore

theorem makeClone_eq_ok (he : e.buff ≠ none) : makeClone memory e = .ok e.cloned := by
  obtain ⟨b, hb⟩ := Option.ne_none_iff_exists'.mp he
  have hget : e.getBuf = .ok b := by
    unfold LogEntry.getBuf
    rw [hb]
  unfold makeClone LogEntry.cloned
  rw [hget, Run.ok_bind, Buffer.clone_eq_ok, Run.ok_bind, ← b.setPos_zero, hb]
  simp only [LogEntry.new, Bool.and_false, Bool.false_eq_true, if_false]
  rfl

theorem makeClone_stored (he : e.Stored) : makeClone memory e = .ok e := by
  obtain ⟨b, hb, hpos⟩ := he
  rw [makeClone_eq_ok (hb ▸ Option.some_ne_none b), LogEntry.Stored.cloned_eq ⟨b, hb, hpos⟩]

theorem stored_dummy (memory : Nat → UInt8) : (dummy memory).Stored := ⟨_, rfl, rfl⟩

end LogStore

/-! ## Packs -/

/-- The serialised entries, each behind its length. -/
def packRecords (entries : List LogEntry) : List UInt8 :=
  entries.flatMap fun e => Bytes.ofNat 4 e.record.length ++ e.record

/-- The block that `pack` builds. -/
def packBytes (entries : List LogEntry) : List UInt8 :=
  Bytes.ofNat 4 entries.length ++ packRecords entries

theorem packRecords_cons (e : LogEntry) (entries : List LogEntry) :
    packRecords (e :: entries) = Bytes.ofNat 4 e.record.length ++
      (e.record ++ packRecords entries) := by
  rw [packRecords, List.flatMap_cons, List.append_assoc]
  rfl

theorem length_packRecords (entries : List LogEntry) :
    (packRecords entries).length =
      4 * entries.length + (entries.map fun e => e.record.length).sum := by
  induction entries with
  | nil => rfl
  | cons e entries ih =>
    rw [packRecords_cons, List.length_append, Bytes.length_ofNat, List.length_append, ih,
      List.map_cons, List.sum_cons, List.length_cons]
    omega

theorem length_packBytes (entries : List LogEntry) :
    (packBytes entries).length =
      4 + 4 * entries.length + (entries.map fun e => e.record.length).sum := by
  rw [packBytes, List.length_append, Bytes.length_ofNat, length_packRecords, Nat.add_assoc]

theorem length_record_lt {entries : List LogEntry} (hfit : (packRecords entries).length < 2 ^ 31)
    (he : e ∈ entries) : e.record.length < 2 ^ 31 := by
  induction entries with
  | nil => cases he
  | cons a entries ih =>
    rw [packRecords_cons, List.length_append, List.length_append] at hfit
    rcases List.mem_cons.mp he with rfl | he
    · omega
    · exact ih (by omega) he

namespace LogStore

theorem toNat_add_one (index : UInt64) (h : index.toNat + 1 < 2 ^ 64) :
    (index + 1).toNat = index.toNat + 1 := by
  rw [UInt64.toNat_add]
  exact Nat.mod_eq_of_lt h

/-- The serialised forms of the entries, each at its start. -/
def Records (bufs : List Buffer) (entries : List LogEntry) : Prop :=
  List.Forall₂ (fun buf e => buf.bytes = e.record ∧ buf.pos = 0) bufs entries

theorem packLoop_eq_ok (memory : Nat → UInt8) {s : LogStore} {entries : List LogEntry}
    {index : UInt64}
    (hidx : index.toNat + entries.length < 2 ^ 64)
    (hfind : ∀ k, k < entries.length → s.logs.find? (index.toNat + k) = entries[k]?)
    (hbuff : ∀ e ∈ entries, e.buff ≠ none) (hfit : (packRecords entries).length < 2 ^ 31) :
    ∃ bufs, packLoop memory s entries.length index = .ok bufs ∧ Records bufs entries := by
  -- By induction on the entries still to be read; the index moves on with them.
  induction entries generalizing index with
  | nil => exact ⟨[], rfl, .nil⟩
  | cons e entries ih =>
    rw [List.length_cons] at hidx hfind
    have hnext := toNat_add_one index (by omega)
    have hlt := length_record_lt hfit List.mem_cons_self
    have hrequire : s.require index = .ok e := by
      have hfirst := hfind 0 (Nat.succ_pos _)
      rw [Nat.add_zero, List.getElem?_cons_zero] at hfirst
      unfold require
      rw [hfirst]
    rw [packRecords_cons, List.length_append, List.length_append] at hfit
    have hidx' : (index + 1).toNat + entries.length < 2 ^ 64 := by omega
    obtain ⟨bufs, hbufs, hrecords⟩ := ih hidx'
      (fun k hk => by
        rw [hnext, Nat.add_assoc, Nat.add_comm 1 k, hfind (k + 1) (Nat.succ_lt_succ hk),
          List.getElem?_cons_succ])
      (fun e' he' => hbuff e' (List.mem_cons_of_mem _ he')) (by omega)
    refine ⟨.ofBytes e.record hlt :: bufs, ?_, .cons ⟨rfl, rfl⟩ hrecords⟩
    rw [List.length_cons, packLoop, hrequire, Run.ok_bind,
      LogEntry.serialize_eq_ok (hbuff e List.mem_cons_self) hlt, Run.ok_bind, hbufs]
    rfl

theorem putAll_eq_ok {bufs : List Buffer} {entries : List LogEntry} {out : Buffer}
    {written : List UInt8} (h : Records bufs entries)
    (hout : out.Writing written (packRecords entries).length) :
    ∃ out', putAll out bufs = .ok out' ∧ out'.Writing (written ++ packRecords entries) 0 := by
  induction h generalizing out written with
  | nil =>
    refine ⟨out, rfl, ?_⟩
    rw [packRecords, List.flatMap_nil, List.append_nil]
    exact hout
  | @cons buf e bufs entries hbuf _ ih =>
    obtain ⟨hbytes, hpos⟩ := hbuf
    have hsize : (buf.size.toUInt32.toInt32).toUInt32.toNat = e.record.length := by
      have hlt := buf.length_lt
      rw [UInt32.toUInt32_toInt32, UInt64.toNat_toUInt32, Buffer.toNat_size, hbytes] 
      rw [hbytes] at hlt
      omega
    have hahead : buf.ahead = e.record := by
      unfold Buffer.ahead
      rw [hpos, hbytes, List.drop_zero]
    rw [packRecords_cons, List.length_append, List.length_append] at hout
    obtain ⟨out₁, h₁, hw₁⟩ := hout.putRaw _
    obtain ⟨out₂, h₂, hw₂⟩ := hw₁.putRaw _
    obtain ⟨out₃, h₃, hw₃⟩ := ih hw₂
    refine ⟨out₃, ?_, ?_⟩
    · rw [putAll, Buffer.putInt32, hsize, h₁, Run.ok_bind, Buffer.putBuffer, hahead, h₂,
        Run.ok_bind, h₃]
    · rw [packRecords_cons]
      simpa only [List.append_assoc] using hw₃

theorem Records.sizes {bufs : List Buffer} {entries : List LogEntry} (h : Records bufs entries) :
    ((bufs.map Buffer.size).map UInt64.toNat) = entries.map fun e => e.record.length := by
  induction h with
  | nil => rfl
  | cons hbuf _ ih =>
    rw [List.map_cons, List.map_cons, List.map_cons, ih, Buffer.toNat_size, hbuf.1]

/-- A number that is not negative keeps its value when it is made unsigned. -/
theorem toNat_toUInt64 {a : Int64} (h : 0 ≤ a.toInt) : (a.toUInt64.toNat : Int) = a.toInt := by
  have hb : a.toInt = (a.toUInt64.toNat : Int).bmod (2 ^ 64) :=
    BitVec.toInt_eq_toNat_bmod a.toBitVec
  have hlt := a.toUInt64.toNat_lt
  rw [Int.bmod_def] at hb
  omega

theorem toNat_count {cnt : Int32} {n : Nat} (h : cnt.toInt = n) :
    cnt.toInt64.toUInt64.toNat = n := by
  have hwide : cnt.toInt64.toInt = n := (Int32.toInt_toInt64 cnt).trans h
  have hnat : (cnt.toInt64.toUInt64.toNat : Int) = cnt.toInt64.toInt := toNat_toUInt64 (by omega)
  omega

theorem toNat_toUInt32 {cnt : Int32} {n : Nat} (h : cnt.toInt = n) : cnt.toUInt32.toNat = n := by
  have hb : cnt.toInt = (cnt.toUInt32.toNat : Int).bmod (2 ^ 32) :=
    BitVec.toInt_eq_toNat_bmod cnt.toBitVec
  have hlt := cnt.toUInt32.toNat_lt
  rw [Int.bmod_def] at hb
  omega

/-- `pack` of a range that is there. -/
theorem pack_eq_ok {s : LogStore} {entries : List LogEntry} {index : UInt64} {cnt : Int32}
    (hcnt : cnt.toInt = entries.length) (hidx : index.toNat + entries.length < 2 ^ 64)
    (hfind : ∀ k, k < entries.length → s.logs.find? (index.toNat + k) = entries[k]?)
    (hbuff : ∀ e ∈ entries, e.buff ≠ none) (hfit : (packBytes entries).length < 2 ^ 31) :
    ∃ out, s.pack memory index cnt = .ok out ∧ out.bytes = packBytes entries := by
  have hlen := length_packBytes entries
  have hwide := toNat_count hcnt
  have hsteps : (index + cnt.toInt64.toUInt64).toNat - index.toNat = entries.length := by
    rw [UInt64.toNat_add, hwide, Nat.mod_eq_of_lt hidx, Nat.add_sub_cancel_left]
  have hrest : 4 + (packRecords entries).length < 2 ^ 31 := by
    rw [length_packRecords]
    omega
  obtain ⟨bufs, hbufs, hrecords⟩ := packLoop_eq_ok memory hidx hfind hbuff (by omega)
  have htotal : ((bufs.map Buffer.size).foldl (· + ·) 0).toNat =
      (entries.map fun e => e.record.length).sum := by
    rw [Buffer.toNat_foldl_add, hrecords.sizes]
    · exact Nat.zero_add _
    · rw [hrecords.sizes]
      show 0 + _ < _
      omega
  have hsize : (4 + cnt.toInt64.toUInt64 * 4 + (bufs.map Buffer.size).foldl (· + ·) 0).toNat =
      4 + (packRecords entries).length := by
    rw [UInt64.toNat_add, UInt64.toNat_add, UInt64.toNat_mul, htotal, hwide, length_packRecords]
    show ((4 + entries.length * 4 % 2 ^ 64) % 2 ^ 64 + _) % 2 ^ 64 = _
    omega
  obtain ⟨out₀, h₀, hpos₀, hw₀⟩ := Buffer.alloc_writing memory _ (hsize ▸ hrest)
  rw [hsize] at hw₀
  have hrewind : out₀.setPos 0 = out₀ := by
    cases out₀
    cases hpos₀
    simp [Buffer.setPos]
  obtain ⟨out₁, h₁, hw₁⟩ := hw₀.putRaw (Bytes.ofNat 4 entries.length)
  obtain ⟨out₂, h₂, hw₂⟩ := putAll_eq_ok hrecords hw₁
  refine ⟨out₂, ?_, hw₂.full⟩
  unfold pack
  rw [hsteps, hbufs, Run.ok_bind]
  dsimp only
  rw [h₀, Run.ok_bind, hrewind, Buffer.putInt32, toNat_toUInt32 hcnt, h₁,
    Run.ok_bind, h₂]

/-- The length in front of an entry, as it is read. -/
theorem exists_count {n : Nat} (h : n < 2 ^ 31) : ∃ cnt : Int32, cnt.toInt = n :=
  ⟨Int32.ofNat n, Int32.toInt_ofNat_of_lt h⟩

theorem readCount_eq_ok {pack : Buffer} {n : Nat} {rest : List UInt8} (h : n < 2 ^ 31)
    (hpack : pack.ahead = Bytes.ofNat 4 n ++ rest) :
    ∃ cnt pack', pack.getInt = .ok (cnt, pack') ∧ cnt.toInt = n ∧ pack'.ahead = rest := by
  obtain ⟨cnt, hcnt⟩ := exists_count h
  rw [← toNat_toUInt32 hcnt] at hpack
  obtain ⟨pack', hget, hahead, -⟩ := Buffer.getInt_eq_ok hpack
  exact ⟨cnt, pack', hget, hcnt, hahead⟩

/-- The loop of `apply_pack` stores the entries under consecutive indices. -/
theorem applyLoop_eq_ok (memory : Nat → UInt8) (logs : OrderedMap Nat LogEntry) {pack : Buffer}
    {entries : List LogEntry} {index : UInt64}
    (hidx : index.toNat + entries.length < 2 ^ 64) (hbuff : ∀ e ∈ entries, e.buff ≠ none)
    (hpack : pack.ahead = packRecords entries) :
    ∃ logs', applyLoop memory pack index entries.length logs = (logs', .ok ()) ∧
      ∀ k, logs'.find? k =
        if index.toNat ≤ k ∧ k < index.toNat + entries.length then
          (entries.map LogEntry.received)[k - index.toNat]?
        else logs.find? k := by
  -- By induction on the entries still in the pack, for every map stored into so far.
  induction entries generalizing index pack logs with
  | nil =>
    refine ⟨logs, rfl, fun k => ?_⟩
    rw [if_neg]
    rintro ⟨hle, hlt⟩
    rw [List.length_nil] at hlt
    omega
  | cons e entries ih =>
    rw [List.length_cons] at hidx
    have hnext := toNat_add_one index (by omega)
    have hfit : (packRecords (e :: entries)).length < 2 ^ 31 := by
      rw [← hpack, Buffer.length_ahead]
      exact Nat.lt_of_le_of_lt (Nat.sub_le _ _) pack.length_lt
    have hlt := length_record_lt hfit List.mem_cons_self
    rw [packRecords_cons] at hpack
    obtain ⟨cnt, pack₁, h₁, hcnt, hahead₁⟩ := readCount_eq_ok hlt hpack
    obtain ⟨dst, hdst, hpos, hw⟩ :=
      Buffer.alloc_writing memory cnt.toInt64.toUInt64 (by rw [toNat_count hcnt]; exact hlt)
    rw [toNat_count hcnt] at hw
    obtain ⟨pack₂, h₂, hahead₂, -⟩ := Buffer.getBuffer_eq_ok hpos hw hahead₁ hlt
    have hentry := LogEntry.deserialize_record memory (hbuff e List.mem_cons_self) hlt
    have hidx' : (index + 1).toNat + entries.length < 2 ^ 64 := by omega
    obtain ⟨logs', hlogs', hfind⟩ := ih (logs.set index.toNat e.received) hidx'
      (fun e' he' => hbuff e' (List.mem_cons_of_mem _ he')) hahead₂
    refine ⟨logs', ?_, fun k => ?_⟩
    · rw [List.length_cons, applyLoop, h₁, Run.ok_bind, hdst, Run.ok_bind, h₂, Run.ok_bind,
        hentry]
      exact hlogs'
    · rw [hfind, OrderedMap.find?_set, hnext, List.length_cons, List.map_cons]
      by_cases hk : k = index.toNat
      · rw [if_neg (by omega), if_pos hk, if_pos (by omega), hk, Nat.sub_self,
          List.getElem?_cons_zero]
      · by_cases hin : index.toNat + 1 ≤ k ∧ k < index.toNat + 1 + entries.length
        · have hsub : k - index.toNat = (k - (index.toNat + 1)) + 1 := by omega
          rw [if_pos hin, if_pos (by omega), hsub, List.getElem?_cons_succ]
        · rw [if_neg hin, if_neg hk, if_neg (by omega)]

/-- `apply_pack` of what `pack` builds. -/
theorem applyPack_eq_ok (memory : Nat → UInt8) {s : LogStore} {pack : Buffer}
    {entries : List LogEntry} {index : UInt64}
    (hidx : index.toNat + entries.length < 2 ^ 64) (hbuff : ∀ e ∈ entries, e.buff ≠ none)
    (hpack : pack.bytes = packBytes entries) :
    ∃ logs, s.applyPack memory index pack =
        (⟨logs, UInt64.ofNat ((logs.upperBound 0).getD 1)⟩, .ok ()) ∧
      ∀ k, logs.find? k =
        if index.toNat ≤ k ∧ k < index.toNat + entries.length then
          (entries.map LogEntry.received)[k - index.toNat]?
        else s.logs.find? k := by
  have hlen : entries.length < 2 ^ 31 := by
    have hlt := pack.length_lt
    rw [hpack, length_packBytes] at hlt
    omega
  have hahead : (pack.setPos 0).ahead = Bytes.ofNat 4 entries.length ++ packRecords entries := by
    rw [pack.setPos_zero]
    exact hpack
  obtain ⟨cnt, pack₁, h₁, hcnt, hahead₁⟩ := readCount_eq_ok hlen hahead
  obtain ⟨logs, hlogs, hfind⟩ := applyLoop_eq_ok memory s.logs hidx hbuff hahead₁
  refine ⟨logs, ?_, hfind⟩
  unfold applyPack
  rw [h₁]
  dsimp only
  rw [hcnt, Int.toNat_natCast, hlogs]

end LogStore

end LruCache
