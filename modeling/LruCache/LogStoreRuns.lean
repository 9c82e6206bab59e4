import LruCache.LogStoreEntries
import LruCache.Lib.IndexedLog
import LruCache.Lib.Run

/-!
# The log store over whole runs

`inmem_log_store` keeps a map and a start index and computes the next slot from the size of the map.
A caller that stays between the two indices sees a log with consecutive entries: every call answers
as `IndexedLog` does, and the store goes on holding that log (`run_refines`).

`pack` on one store and `apply_pack` on another is how a server sends a range of its log to a server
that joins (`pack_applyPack`). `log_entries_ext` cuts a range to a size (`logEntriesExt_shortest`).
-/

namespace LruCache

/-- What `pack` returns for some entries. -/
structure Pack where
  entries : List LogEntry
  filled : ∀ e ∈ entries, e.buff ≠ none
  fits : (packBytes entries).length < 2 ^ 31

def Pack.buffer (p : Pack) : Buffer := .ofBytes (packBytes p.entries) p.fits

/-- The calls of the Raft server on its log store. -/
inductive LogCall where
  | append (entry : LogEntry)
  | writeAt (index : UInt64) (entry : LogEntry)
  | compact (lastLogIndex : UInt64)
  | applyPack (index : UInt64) (pack : Pack)
  | nextSlot
  | startIndex
  | lastDurableIndex
  | lastEntry
  | entryAt (index : UInt64)
  | termAt (index : UInt64)
  | logEntries (start «end» : UInt64)
  | logEntriesExt (start «end» : UInt64) (batchSizeHintInBytes : Int64)
  | pack (index : UInt64) (cnt : Int32)

inductive LogAnswer where
  | done
  | index (i : UInt64)
  | term (t : UInt64)
  | entry (e : LogEntry)
  | entries (es : List (Option LogEntry))
  | packed (bytes : List UInt8)
deriving DecidableEq

variable (memory : Nat → UInt8)

/-- One call on the store. -/
def LogStore.step (s : LogStore) : LogCall → Except Fault (LogAnswer × LogStore)
  | .append entry => do
    let r ← s.append memory entry
    return (.index r.1, r.2)
  | .writeAt index entry => do return (.done, ← s.writeAt memory index entry)
  | .compact last => do return (.done, ← s.compact last)
  | .applyPack index p =>
    match s.applyPack memory index p.buffer with
    | (s', .ok ()) => .ok (.done, s')
    | (_, .error fault) => .error fault
  | .nextSlot => .ok (.index s.nextSlot, s)
  | .startIndex => .ok (.index s.startIdx, s)
  | .lastDurableIndex => .ok (.index s.lastDurableIndex, s)
  | .lastEntry => do return (.entry (← s.lastEntry memory), s)
  | .entryAt index => do return (.entry (← s.entryAt memory index), s)
  | .termAt index => do return (.term (← s.termAt index), s)
  | .logEntries a b => do return (.entries (← s.logEntries memory a b), s)
  | .logEntriesExt a b hint => do
    return (.entries ((← s.logEntriesExt memory a b hint).map some), s)
  | .pack index cnt => do return (.packed (← s.pack memory index cnt).bytes, s)

namespace LogSpec

/-- The entry at an index; the dummy entry outside of the log. -/
def read (L : IndexedLog LogEntry) (k : Nat) : LogEntry := (L.get? k).getD (LogStore.dummy memory)

/-- The front of a range that `log_entries_ext` returns. -/
def cut (hint : Int64) (entries : List LogEntry) : List LogEntry :=
  if hint < 0 then [] else if hint = 0 then entries
  else IndexedLog.batch (fun e => e.payload.length) hint.toInt.toNat entries

/-- The log with the entries of a pack. When there is nothing in either, the log begins at 1 again,
wherever it began before. -/
def received (L : IndexedLog LogEntry) (index : Nat) (entries : List LogEntry) :
    IndexedLog LogEntry :=
  if L.entries = [] ∧ entries = [] then ⟨1, []⟩
  else L.splice index (entries.map LogEntry.received)

/-- The call on a log with consecutive indices. -/
def step (L : IndexedLog LogEntry) : LogCall → LogAnswer × IndexedLog LogEntry
  | .append entry => (.index (UInt64.ofNat L.next), L.append entry.cloned)
  | .writeAt index entry => (.done, L.writeAt index.toNat entry.cloned)
  | .compact last => (.done, L.compact last.toNat)
  | .applyPack index p => (.done, received L index.toNat p.entries)
  | .nextSlot => (.index (UInt64.ofNat L.next), L)
  | .startIndex => (.index (UInt64.ofNat L.start), L)
  | .lastDurableIndex => (.index (UInt64.ofNat (L.next - 1)), L)
  | .lastEntry => (.entry (L.entries.getLast?.getD (LogStore.dummy memory)), L)
  | .entryAt index => (.entry (read memory L index.toNat), L)
  | .termAt index => (.term (read memory L index.toNat).term, L)
  | .logEntries a b => (.entries ((L.slice a.toNat (b.toNat - a.toNat)).map some), L)
  | .logEntriesExt a b hint =>
    (.entries ((cut hint (L.slice a.toNat (b.toNat - a.toNat))).map some), L)
  | .pack index cnt => (.packed (packBytes (L.slice index.toNat cnt.toInt.toNat)), L)

/-- What the caller keeps to: entries have a buffer, indices are between the start index and the
next slot, and neither the log nor a pack outgrows its type. -/
def Allowed (L : IndexedLog LogEntry) : LogCall → Prop
  | .append entry => entry.buff ≠ none ∧ L.next + 1 < 2 ^ 64
  | .writeAt index entry =>
    entry.buff ≠ none ∧ L.start ≤ index.toNat ∧ index.toNat ≤ L.next ∧ index.toNat + 1 < 2 ^ 64
  | .compact last => last.toNat + 1 < 2 ^ 64
  | .applyPack index p =>
    0 < index.toNat ∧ index.toNat + p.entries.length < 2 ^ 64 ∧
      (L.entries = [] ∨ index.toNat ≤ L.next ∧ L.start ≤ index.toNat + p.entries.length)
  | .logEntries a b =>
    L.start ≤ a.toNat ∧ a.toNat ≤ b.toNat ∧ b.toNat ≤ L.next ∧ b.toNat - a.toNat < 2 ^ 59
  | .logEntriesExt a b _ => L.start ≤ a.toNat ∧ b.toNat ≤ L.next
  | .pack index cnt =>
    L.start ≤ index.toNat ∧ 0 ≤ cnt.toInt ∧ index.toNat + cnt.toInt.toNat ≤ L.next ∧
      (packBytes (L.slice index.toNat cnt.toInt.toNat)).length < 2 ^ 31
  | _ => True

instance decidableAllowed (L : IndexedLog LogEntry) : ∀ call, Decidable (Allowed L call)
  | .append _ => inferInstanceAs (Decidable (_ ∧ _))
  | .writeAt _ _ => inferInstanceAs (Decidable (_ ∧ _ ∧ _ ∧ _))
  | .compact _ => inferInstanceAs (Decidable (_ < _))
  | .applyPack _ _ => inferInstanceAs (Decidable (_ ∧ _ ∧ (_ ∨ _ ∧ _)))
  | .logEntries _ _ => inferInstanceAs (Decidable (_ ∧ _ ∧ _ ∧ _))
  | .logEntriesExt _ _ _ => inferInstanceAs (Decidable (_ ∧ _))
  | .pack _ _ => inferInstanceAs (Decidable (_ ∧ _ ∧ _ ∧ _))
  | .nextSlot | .startIndex | .lastDurableIndex | .lastEntry | .entryAt _ | .termAt _ =>
    .isTrue trivial

end LogSpec

variable {memory}

namespace LogStore

/-- The store holds the log. -/
structure Holds (memory : Nat → UInt8) (s : LogStore) (L : IndexedLog LogEntry) : Prop where
  logs : s.logs = L.toMap (dummy memory)
  startIdx : s.startIdx.toNat = L.start
  start_pos : 0 < L.start
  next_lt : L.next < 2 ^ 64
  stored : ∀ e ∈ L.entries, e.Stored

variable {s s' : LogStore} {L : IndexedLog LogEntry}

theorem holds_init : (init memory).Holds memory ⟨1, []⟩ where
  logs := rfl
  startIdx := rfl
  start_pos := Nat.one_pos
  next_lt := by decide
  stored := fun _ h => nomatch h

theorem Holds.startIdx_eq (h : s.Holds memory L) : s.startIdx = UInt64.ofNat L.start := by
  rw [← h.startIdx, UInt64.ofNat_toNat]

theorem Holds.toNat_nextSlot (h : s.Holds memory L) : s.nextSlot.toNat = L.next := by
  have hlt := h.next_lt
  unfold IndexedLog.next at hlt ⊢
  have hsize : (UInt64.ofNat s.logs.size).toNat = L.entries.length + 1 := by
    have hpos := h.start_pos
    rw [h.logs, IndexedLog.size_toMap h.start_pos]
    exact UInt64.toNat_ofNat_of_lt' (show L.entries.length + 1 < 2 ^ 64 by omega)
  unfold nextSlot
  rw [UInt64.toNat_sub, UInt64.toNat_add, hsize, h.startIdx]
  show (2 ^ 64 - 1 + _) % 2 ^ 64 = _
  omega

theorem Holds.nextSlot_eq (h : s.Holds memory L) : s.nextSlot = UInt64.ofNat L.next := by
  rw [← h.toNat_nextSlot, UInt64.ofNat_toNat]

theorem Holds.findOrDummy (h : s.Holds memory L) (index : UInt64) :
    s.findOrDummy index = .ok (LogSpec.read memory L index.toNat) := by
  unfold LogStore.findOrDummy LogSpec.read
  rw [h.logs, IndexedLog.find?_toMap, IndexedLog.find?_toMap]
  by_cases hk : index.toNat = 0
  · rw [if_pos hk, hk, IndexedLog.get?_of_lt_start h.start_pos]
    rfl
  · rw [if_neg hk]
    cases L.get? index.toNat <;> rfl

theorem Holds.stored_read (h : s.Holds memory L) (k : Nat) : (LogSpec.read memory L k).Stored := by
  unfold LogSpec.read
  cases hget : L.get? k with
  | none => exact stored_dummy memory
  | some e => exact h.stored e (IndexedLog.mem_of_get? hget)

theorem Holds.require (h : s.Holds memory L) {index : UInt64} {e : LogEntry}
    (he : L.get? index.toNat = some e) : s.require index = .ok e := by
  have hpos : index.toNat ≠ 0 := by
    intro hzero
    rw [hzero, IndexedLog.get?_of_lt_start h.start_pos] at he
    cases he
  unfold LogStore.require
  rw [h.logs, IndexedLog.find?_toMap, if_neg hpos, he]

/-! ## Reading -/

theorem Holds.entryAt (h : s.Holds memory L) (index : UInt64) :
    s.entryAt memory index = .ok (LogSpec.read memory L index.toNat) := by
  unfold LogStore.entryAt
  rw [h.findOrDummy, Run.ok_bind, makeClone_stored (h.stored_read _)]

theorem entryAt_of_find? {index : UInt64} {e : LogEntry} (h : s.logs.find? index.toNat = some e)
    (he : e.Stored) : s.entryAt memory index = .ok e := by
  unfold LogStore.entryAt findOrDummy
  rw [h]
  exact makeClone_stored he

theorem Holds.termAt (h : s.Holds memory L) (index : UInt64) :
    s.termAt index = .ok (LogSpec.read memory L index.toNat).term := by
  unfold LogStore.termAt
  rw [h.findOrDummy]
  rfl

theorem Holds.toNat_lastDurableIndex (h : s.Holds memory L) :
    s.lastDurableIndex.toNat = L.next - 1 := by
  have hpos := h.start_pos
  have hlt := h.next_lt
  unfold lastDurableIndex
  rw [UInt64.toNat_sub, h.toNat_nextSlot]
  unfold IndexedLog.next at hlt ⊢
  show (2 ^ 64 - 1 + _) % 2 ^ 64 = _
  omega

/-- In an empty log the index before the next slot is outside of the log, even when that is 0. -/
theorem read_last (hpos : 0 < L.start) :
    LogSpec.read memory L (L.next - 1) = L.entries.getLast?.getD (dummy memory) := by
  unfold LogSpec.read IndexedLog.next
  rw [List.getLast?_eq_getElem?]
  rcases Nat.eq_zero_or_pos L.entries.length with hlen | hlen
  · rw [IndexedLog.get?_of_lt_start (by omega), List.eq_nil_of_length_eq_zero hlen]
    rfl
  · rw [IndexedLog.get?_of_start_le (by omega)]
    congr 2
    omega

theorem Holds.lastEntry (h : s.Holds memory L) :
    s.lastEntry memory = .ok (L.entries.getLast?.getD (dummy memory)) := by
  have hread := h.entryAt s.lastDurableIndex
  rw [h.toNat_lastDurableIndex, read_last h.start_pos] at hread
  exact hread

theorem toNat_add_ofNat {a : UInt64} {n : Nat} (h : a.toNat + n < 2 ^ 64) :
    (a + UInt64.ofNat n).toNat = a.toNat + n := by
  rw [UInt64.toNat_add, UInt64.toNat_ofNat_of_lt' (show n < 2 ^ 64 by omega)]
  exact Nat.mod_eq_of_lt h

theorem map_getElem?_range {l : List LogEntry} {n : Nat} (h : l.length = n) :
    (List.range n).map (fun i => l[i]?) = l.map some := by
  subst h
  refine List.ext_getElem (by simp) fun i _ _ => ?_
  simp

theorem Holds.logEntries (h : s.Holds memory L) {a b : UInt64} (ha : L.start ≤ a.toNat)
    (hab : a.toNat ≤ b.toNat) (hb : b.toNat ≤ L.next) (hn : b.toNat - a.toNat < 2 ^ 59) :
    s.logEntries memory a b = .ok ((L.slice a.toNat (b.toNat - a.toNat)).map some) := by
  have hsize : (b - a).toNat = b.toNat - a.toNat := UInt64.toNat_sub_of_le _ _ hab
  have hlen : (L.slice a.toNat (b.toNat - a.toNat)).length = b.toNat - a.toNat :=
    IndexedLog.length_slice ha (by omega)
  unfold LogStore.logEntries
  dsimp only
  rw [hsize, if_pos hn]
  by_cases hlt : a < b
  · rw [if_pos hlt, Run.mapM_eq_ok fun i hi => ?_, map_getElem?_range hlen]
    have hi := List.mem_range.mp hi
    have hin : i < (L.slice a.toNat (b.toNat - a.toNat)).length := hlen.symm ▸ hi
    have hget := IndexedLog.getElem?_slice (L := L) ha hi
    rw [List.getElem?_eq_getElem hin] at hget
    have hidx : (a + UInt64.ofNat i).toNat = a.toNat + i :=
      toNat_add_ofNat (by have := h.next_lt; omega)
    have hreq := h.require (hidx.symm ▸ hget.symm)
    rw [hreq, Run.ok_bind, makeClone_stored (h.stored _ (IndexedLog.mem_of_mem_slice
      (List.getElem_mem hin))), List.getElem?_eq_getElem hin]
    rfl
  · have hzero : b.toNat - a.toNat = 0 := Nat.sub_eq_zero_of_le (Nat.le_of_not_lt hlt)
    rw [if_neg hlt, hzero]
    rfl

/-- The loop of `log_entries_ext`. The accumulated size stays below the hint until it ends, and the
hint is at most half of the range of its type, so the sum does not wrap. -/
theorem Holds.extLoop (h : s.Holds memory L) {hint index accum : UInt64} {l : List LogEntry}
    (hfind : ∀ k, k < l.length → L.get? (index.toNat + k) = l[k]?)
    (hidx : index.toNat + l.length < 2 ^ 64) (hhint : hint.toNat < 2 ^ 63)
    (haccum : hint = 0 ∨ accum < hint) :
    extLoop memory s hint l.length index accum =
      .ok (if hint = 0 then l else
        IndexedLog.batch (fun e => e.payload.length) (hint.toNat - accum.toNat) l) := by
  induction l generalizing index accum with
  | nil => rw [IndexedLog.batch_nil, ite_self]; rfl
  | cons e l ih =>
    rw [List.length_cons] at hidx hfind
    have hnext := toNat_add_one index (by omega)
    have hget : L.get? index.toNat = some e := hfind 0 (Nat.succ_pos _)
    have hstored := h.stored e (IndexedLog.mem_of_get? hget)
    obtain ⟨b, hb, -⟩ := id hstored
    have hbuf : e.getBuf = .ok b := by
      unfold LogEntry.getBuf
      rw [hb]
    have hsize : b.size.toNat = e.payload.length := by
      rw [LogEntry.payload_of_buff hb, Buffer.toNat_size]
    have hlt := b.length_lt
    rw [← Buffer.toNat_size, hsize] at hlt
    have hfind' : ∀ k, k < l.length → L.get? ((index + 1).toNat + k) = l[k]? := by
      intro k hk
      rw [hnext, Nat.add_assoc, Nat.add_comm 1 k, hfind (k + 1) (Nat.succ_lt_succ hk),
        List.getElem?_cons_succ]
    rw [List.length_cons, LogStore.extLoop, h.require hget, Run.ok_bind, makeClone_stored hstored,
      Run.ok_bind, hbuf, Run.ok_bind]
    dsimp only
    rcases haccum with rfl | haccum
    · rw [if_neg (fun hc => hc.1 rfl), ih hfind' (by omega) (.inl rfl), if_pos rfl, if_pos rfl]
      rfl
    · have hpos : hint ≠ 0 := by
        rintro rfl
        exact Nat.not_lt_zero _ haccum
      have haccum : accum.toNat < hint.toNat := haccum
      have hadd : (accum + b.size).toNat = accum.toNat + e.payload.length := by
        rw [UInt64.toNat_add, hsize]
        omega
      rw [if_neg hpos, IndexedLog.batch_cons (by omega)]
      by_cases hreach : hint ≤ accum + b.size
      · have hle : hint.toNat ≤ (accum + b.size).toNat := hreach
        have hzero : hint.toNat - accum.toNat - e.payload.length = 0 := by omega
        rw [if_pos ⟨hpos, hreach⟩, hzero, IndexedLog.batch_zero]
        rfl
      · have hlt' : accum + b.size < hint := UInt64.not_le.mp hreach
        rw [if_neg (fun hc => hreach hc.2), ih hfind' (by omega) (.inr hlt'), if_neg hpos, hadd,
          Nat.sub_add_eq]
        rfl

theorem Holds.logEntriesExt (h : s.Holds memory L) {a b : UInt64} (hint : Int64)
    (ha : L.start ≤ a.toNat) (hb : b.toNat ≤ L.next) :
    s.logEntriesExt memory a b hint =
      .ok (LogSpec.cut hint (L.slice a.toNat (b.toNat - a.toNat))) := by
  unfold LogStore.logEntriesExt LogSpec.cut
  by_cases hneg : hint < 0
  · rw [if_pos hneg, if_pos hneg]
  rw [if_neg hneg, if_neg hneg]
  have hnonneg : 0 ≤ hint.toInt := Int.not_lt.mp fun hc => hneg (Int64.lt_iff_toInt_lt.mpr hc)
  have hnat := toNat_toUInt64 hnonneg
  have hhint : hint.toUInt64.toNat < 2 ^ 63 := by
    have := hint.toInt_lt
    omega
  have hzero : hint.toUInt64 = 0 ↔ hint = 0 := by
    rw [← UInt64.toNat_inj, ← Int64.toInt_inj]
    show hint.toUInt64.toNat = 0 ↔ hint.toInt = 0
    omega
  have hlen : (L.slice a.toNat (b.toNat - a.toNat)).length = b.toNat - a.toNat := by
    by_cases hab : a.toNat ≤ b.toNat
    · exact IndexedLog.length_slice ha (by omega)
    · rw [Nat.sub_eq_zero_of_le (by omega)]
      rfl
  have hidx : a.toNat + (L.slice a.toNat (b.toNat - a.toNat)).length < 2 ^ 64 := by
    have := h.next_lt
    have := a.toNat_lt
    rw [hlen]
    omega
  have haccum : hint.toUInt64 = 0 ∨ (0 : UInt64) < hint.toUInt64 :=
    (UInt64.le_iff_lt_or_eq.mp UInt64.zero_le).symm.imp_left Eq.symm
  have hloop := h.extLoop (fun k hk => (IndexedLog.getElem?_slice ha (hlen ▸ hk)).symm) hidx hhint
    haccum
  rw [hlen] at hloop
  rw [hloop]
  by_cases hz : hint = 0
  · rw [if_pos hz, if_pos (hzero.mpr hz)]
  · have hsub : hint.toUInt64.toNat - (0 : UInt64).toNat = hint.toInt.toNat := by
      show hint.toUInt64.toNat - 0 = _
      omega
    rw [if_neg hz, if_neg (fun hc => hz (hzero.mp hc)), hsub]

/-! ## Writing -/

theorem Holds.append (h : s.Holds memory L) {entry : LogEntry} (he : entry.buff ≠ none)
    (hlt : L.next + 1 < 2 ^ 64) :
    ∃ s', s.append memory entry = .ok (UInt64.ofNat L.next, s') ∧
      s'.Holds memory (L.append entry.cloned) := by
  have hidx : s.startIdx + UInt64.ofNat s.logs.size - 1 = UInt64.ofNat L.next := h.nextSlot_eq
  have hkey : (UInt64.ofNat L.next).toNat = L.next := UInt64.toNat_ofNat_of_lt' h.next_lt
  refine ⟨{ s with logs := s.logs.set L.next entry.cloned }, ?_, ?_, h.startIdx, h.start_pos,
    IndexedLog.next_append.symm ▸ hlt, ?_⟩
  · unfold LogStore.append
    rw [makeClone_eq_ok he, Run.ok_bind]
    dsimp only
    rw [hidx, hkey]
    rfl
  · show s.logs.set L.next entry.cloned = _
    rw [h.logs, IndexedLog.toMap_append h.start_pos]
  · intro e hmem
    rcases List.mem_append.mp hmem with hmem | hmem
    · exact h.stored e hmem
    · rw [List.mem_singleton.mp hmem]
      exact LogEntry.stored_cloned he

theorem Holds.writeAt (h : s.Holds memory L) {index : UInt64} {entry : LogEntry}
    (he : entry.buff ≠ none) (hi : L.start ≤ index.toNat) (hn : index.toNat ≤ L.next)
    (hlt : index.toNat + 1 < 2 ^ 64) :
    ∃ s', s.writeAt memory index entry = .ok s' ∧
      s'.Holds memory (L.writeAt index.toNat entry.cloned) := by
  refine ⟨{ s with
    logs := (s.logs.restrict fun k => k < index.toNat).set index.toNat entry.cloned },
    ?_, ?_, h.startIdx, h.start_pos, (IndexedLog.next_writeAt hi hn).symm ▸ hlt, ?_⟩
  · unfold LogStore.writeAt
    rw [makeClone_eq_ok he, Run.ok_bind]
    rfl
  · show (s.logs.restrict _).set _ _ = _
    rw [h.logs, IndexedLog.toMap_writeAt h.start_pos hi hn]
  · intro e hmem
    rcases List.mem_append.mp hmem with hmem | hmem
    · exact h.stored e (List.mem_of_mem_take hmem)
    · rw [List.mem_singleton.mp hmem]
      exact LogEntry.stored_cloned he

theorem find?_compactLoop (logs : OrderedMap Nat LogEntry) (i n k : Nat) :
    (compactLoop logs i n).find? k = if i ≤ k ∧ k < i + n then none else logs.find? k := by
  induction n generalizing logs i with
  | zero => rw [compactLoop, if_neg (by omega)]
  | succ n ih =>
    rw [compactLoop, ih, OrderedMap.erase, OrderedMap.find?_restrict]
    by_cases hk : k = i
    · subst hk
      rw [if_neg (by omega), if_neg (by simp), if_pos (by omega)]
    · have hkeep : (k != i) = true := bne_iff_ne.mpr hk
      rw [if_pos hkeep]
      by_cases hin : i + 1 ≤ k ∧ k < i + 1 + n
      · rw [if_pos hin, if_pos (by omega)]
      · rw [if_neg hin, if_neg (by omega)]

theorem Holds.compact (h : s.Holds memory L) {last : UInt64}
    (hlast : last.toNat + 1 < 2 ^ 64) :
    ∃ s', s.compact last = .ok s' ∧ s'.Holds memory (L.compact last.toNat) := by
  have hlogs : compactLoop s.logs s.startIdx.toNat (last.toNat + 1 - s.startIdx.toNat) =
      (L.compact last.toNat).toMap (dummy memory) := by
    rw [← IndexedLog.toMap_compact h.start_pos, ← h.logs, h.startIdx]
    refine OrderedMap.ext fun k => ?_
    rw [find?_compactLoop, OrderedMap.find?_restrict]
    by_cases hk : L.start ≤ k ∧ k < L.start + (last.toNat + 1 - L.start)
    · rw [if_pos hk, if_neg (by simp; omega)]
    · rw [if_neg hk, if_pos (by simp; omega)]
  refine ⟨⟨_, if s.startIdx ≤ last then last + 1 else s.startIdx⟩,
    if_neg (show last.toNat ≠ 2 ^ 64 - 1 by omega), hlogs, ?_, ?_,
    IndexedLog.next_compact.symm ▸ Nat.max_lt.mpr ⟨h.next_lt, hlast⟩, ?_⟩
  · show (if s.startIdx ≤ last then last + 1 else s.startIdx).toNat = max L.start (last.toNat + 1)
    by_cases hle : s.startIdx ≤ last
    · have hle' : s.startIdx.toNat ≤ last.toNat := hle
      rw [if_pos hle, toNat_add_one last hlast, Nat.max_eq_right]
      rw [← h.startIdx]
      omega
    · have hlt' : ¬ s.startIdx.toNat ≤ last.toNat := hle
      rw [if_neg hle, h.startIdx, Nat.max_eq_left]
      rw [← h.startIdx]
      omega
  · exact Nat.lt_of_lt_of_le h.start_pos (Nat.le_max_left _ _)
  · exact fun e hmem => h.stored e (List.mem_of_mem_drop hmem)

theorem get?_received {index : Nat} {entries : List LogEntry} {k : Nat}
    (h : L.entries = [] ∨ index ≤ L.next ∧ L.start ≤ index + entries.length) :
    (LogSpec.received L index entries).get? k =
      if index ≤ k ∧ k < index + entries.length then (entries.map LogEntry.received)[k - index]?
      else L.get? k := by
  unfold LogSpec.received
  by_cases hempty : L.entries = [] ∧ entries = []
  · rw [if_pos hempty, IndexedLog.get?_of_nil hempty.1, IndexedLog.get?_of_nil rfl, hempty.2,
      List.map_nil, List.getElem?_nil, ite_self]
  · rw [if_neg hempty]
    rw [← List.length_map LogEntry.received] at h ⊢
    exact IndexedLog.get?_splice h

theorem mem_received {index : Nat} {entries : List LogEntry} {e : LogEntry}
    (h : e ∈ (LogSpec.received L index entries).entries) :
    e ∈ L.entries ∨ ∃ e' ∈ entries, e'.received = e := by
  unfold LogSpec.received at h
  split at h
  · cases h
  · rw [← List.mem_map]
    exact (IndexedLog.mem_splice h)

/-- The start index that `apply_pack` reads off the map. -/
theorem received_start {index : Nat} (entries : List LogEntry) (hpos : 0 < index)
    (hstart : 0 < L.start) :
    0 < (LogSpec.received L index entries).start ∧
      ((LogSpec.received L index entries).entries = [] →
        (LogSpec.received L index entries).start = 1) := by
  unfold LogSpec.received
  by_cases hempty : L.entries = [] ∧ entries = []
  · rw [if_pos hempty]
    exact ⟨Nat.one_pos, fun _ => rfl⟩
  · rw [if_neg hempty]
    refine ⟨IndexedLog.splice_start_pos hpos hstart, fun hnil => absurd ?_ hempty⟩
    have hparts := IndexedLog.splice_eq_nil hnil
    exact ⟨hparts.1, List.map_eq_nil_iff.mp hparts.2⟩

theorem Holds.applyPack (h : s.Holds memory L) {index : UInt64} {pack : Buffer}
    {entries : List LogEntry} (hpack : pack.bytes = packBytes entries)
    (hbuff : ∀ e ∈ entries, e.buff ≠ none) (hpos : 0 < index.toNat)
    (hidx : index.toNat + entries.length < 2 ^ 64)
    (hn : L.entries = [] ∨ index.toNat ≤ L.next ∧ L.start ≤ index.toNat + entries.length) :
    ∃ s', s.applyPack memory index pack = (s', .ok ()) ∧
      s'.Holds memory (LogSpec.received L index.toNat entries) := by
  obtain ⟨logs, happly, hfind⟩ := applyPack_eq_ok (s := s) memory hidx hbuff hpack
  obtain ⟨hstart, hone⟩ := received_start entries hpos h.start_pos
  have hlogs : logs = (LogSpec.received L index.toNat entries).toMap (dummy memory) := by
    refine OrderedMap.ext fun k => ?_
    rw [hfind, h.logs, IndexedLog.find?_toMap, IndexedLog.find?_toMap, get?_received hn]
    by_cases hk : k = 0
    · rw [if_pos hk, if_pos hk, if_neg (by omega)]
    · rw [if_neg hk, if_neg hk]
  have hlt : (LogSpec.received L index.toNat entries).next < 2 ^ 64 := by
    unfold LogSpec.received
    split
    next => decide
    next =>
      rw [← List.length_map LogEntry.received] at hn hidx
      exact Nat.lt_of_le_of_lt (IndexedLog.next_splice hn) (Nat.max_lt.mpr ⟨h.next_lt, hidx⟩)
  have hub : (logs.upperBound 0).getD 1 = (LogSpec.received L index.toNat entries).start := by
    rw [hlogs, IndexedLog.upperBound_toMap hstart]
    split
    next hnil => exact (hone hnil).symm
    next => rfl
  refine ⟨_, happly, hlogs, ?_, hstart, hlt, fun e he => ?_⟩
  · rw [hub]
    exact UInt64.toNat_ofNat_of_lt' (Nat.lt_of_le_of_lt (Nat.le_add_right _ _) hlt)
  · rcases mem_received he with hmem | ⟨e', hmem, rfl⟩
    · exact h.stored e hmem
    · exact LogEntry.stored_received (hbuff e' hmem)

theorem Holds.pack (h : s.Holds memory L) {index : UInt64} {cnt : Int32}
    (hi : L.start ≤ index.toNat) (hcnt : 0 ≤ cnt.toInt)
    (hn : index.toNat + cnt.toInt.toNat ≤ L.next)
    (hfit : (packBytes (L.slice index.toNat cnt.toInt.toNat)).length < 2 ^ 31) :
    ∃ out, s.pack memory index cnt = .ok out ∧
      out.bytes = packBytes (L.slice index.toNat cnt.toInt.toNat) := by
  have hlen : (L.slice index.toNat cnt.toInt.toNat).length = cnt.toInt.toNat :=
    IndexedLog.length_slice hi hn
  have hlt := h.next_lt
  refine pack_eq_ok (by omega) (by omega) (fun k hk => ?_) (fun e he => ?_) hfit
  · have hpos := h.start_pos
    rw [IndexedLog.getElem?_slice hi (hlen ▸ hk), h.logs, IndexedLog.find?_toMap,
      if_neg (by omega)]
  · obtain ⟨b, hb, -⟩ := h.stored e (IndexedLog.mem_of_mem_slice he)
    rw [hb]
    exact Option.some_ne_none b

/-! ## Whole runs -/

/-- One call that the caller may make. -/
theorem Holds.step (h : s.Holds memory L) {call : LogCall} (hcall : LogSpec.Allowed L call) :
    ∃ s', s.step memory call = .ok ((LogSpec.step memory L call).1, s') ∧
      s'.Holds memory (LogSpec.step memory L call).2 := by
  cases call with
  | append entry =>
    obtain ⟨s', happend, h'⟩ := h.append hcall.1 hcall.2
    refine ⟨s', ?_, h'⟩
    rw [LogStore.step, happend]
    rfl
  | writeAt index entry =>
    obtain ⟨he, hi, hn, hlt⟩ := hcall
    obtain ⟨s', hwrite, h'⟩ := h.writeAt he hi hn hlt
    refine ⟨s', ?_, h'⟩
    rw [LogStore.step, hwrite]
    rfl
  | compact last =>
    obtain ⟨s', hcompact, h'⟩ := h.compact hcall
    refine ⟨s', ?_, h'⟩
    rw [LogStore.step, hcompact]
    rfl
  | applyPack index p =>
    obtain ⟨hpos, hidx, hn⟩ := hcall
    have hbytes : p.buffer.bytes = packBytes p.entries := rfl
    obtain ⟨s', happly, h'⟩ := h.applyPack hbytes p.filled hpos hidx hn
    refine ⟨s', ?_, h'⟩
    rw [LogStore.step, happly]
    rfl
  | nextSlot =>
    refine ⟨s, ?_, h⟩
    rw [LogStore.step, h.nextSlot_eq]
    rfl
  | startIndex =>
    refine ⟨s, ?_, h⟩
    rw [LogStore.step, h.startIdx_eq]
    rfl
  | lastDurableIndex =>
    refine ⟨s, ?_, h⟩
    rw [LogStore.step, LogSpec.step, ← h.toNat_lastDurableIndex, UInt64.ofNat_toNat]
  | lastEntry =>
    refine ⟨s, ?_, h⟩
    rw [LogStore.step, h.lastEntry]
    rfl
  | entryAt index =>
    refine ⟨s, ?_, h⟩
    rw [LogStore.step, h.entryAt]
    rfl
  | termAt index =>
    refine ⟨s, ?_, h⟩
    rw [LogStore.step, h.termAt]
    rfl
  | logEntries a b =>
    obtain ⟨ha, hab, hb, hn⟩ := hcall
    refine ⟨s, ?_, h⟩
    rw [LogStore.step, h.logEntries ha hab hb hn]
    rfl
  | logEntriesExt a b hint =>
    refine ⟨s, ?_, h⟩
    rw [LogStore.step, h.logEntriesExt hint hcall.1 hcall.2]
    rfl
  | pack index cnt =>
    obtain ⟨hi, hcnt, hn, hfit⟩ := hcall
    obtain ⟨out, hpack, hbytes⟩ := h.pack hi hcnt hn hfit
    refine ⟨s, ?_, h⟩
    rw [LogStore.step, hpack, Run.ok_bind, hbytes]
    rfl

/-- Whatever calls the Raft server makes within the contract, the store answers all of them as a log
with consecutive indices does, and ends up holding that log. -/
theorem run_refines (memory : Nat → UInt8) (calls : List LogCall)
    (h : Run.Steps (LogSpec.step memory) LogSpec.Allowed ⟨1, []⟩ calls) :
    ∃ s, Run.run (LogStore.step memory) (init memory) calls =
        .ok ((Run.exec (LogSpec.step memory) ⟨1, []⟩ calls).1, s) ∧
      s.Holds memory (Run.exec (LogSpec.step memory) ⟨1, []⟩ calls).2 :=
  Run.run_simulates_steps (fun _ _ _ h hcall => h.step hcall) holds_init h

namespace Sample

def entry (term : UInt64) (data : List UInt8) (h : data.length < 2 ^ 31) : LogEntry :=
  .new term (some (.ofBytes data h)) .appLog 7 false 0 true

def first : LogEntry := entry 1 [10, 11] (by decide)

def second : LogEntry := entry 2 [20, 21, 22] (by decide)

/-- The calls after which a log holds `first` at 2 and `second` at 3. -/
def calls : List LogCall :=
  [.append first, .append first, .append first, .writeAt 3 second, .compact 1, .lastEntry,
    .logEntriesExt 2 4 1, .pack 2 2]

/-- The store that the calls leave. -/
def sender : LogStore :=
  ⟨((OrderedMap.empty.set 0 (dummy fun _ => 0)).set 2 first).set 3 second, 2⟩

theorem holds_sender : sender.Holds (fun _ => 0) ⟨2, [first, second]⟩ where
  logs := by decide +kernel
  startIdx := rfl
  start_pos := Nat.two_pos
  next_lt := by decide
  stored := by
    intro e he
    simp only [List.mem_cons, List.not_mem_nil, or_false] at he
    rcases he with rfl | rfl
    · exact ⟨_, rfl, rfl⟩
    · exact ⟨_, rfl, rfl⟩

theorem calls_allowed :
    Run.Steps (LogSpec.step fun _ => 0) LogSpec.Allowed ⟨1, []⟩ calls := by decide +kernel

end Sample

theorem run_refines_sample :
    ∃ s, Run.run (LogStore.step fun _ => 0) (init fun _ => 0) Sample.calls =
        .ok ((Run.exec (LogSpec.step fun _ => 0) ⟨1, []⟩ Sample.calls).1, s) ∧
      s.Holds (fun _ => 0) (Run.exec (LogSpec.step fun _ => 0) ⟨1, []⟩ Sample.calls).2 :=
  run_refines (fun _ => 0) Sample.calls Sample.calls_allowed

/-! ## From one store to another -/

/-- A range that one server packs and another applies, whatever its log holds. Under the indices of
the range the receiver then reads the sender's terms, types and payloads, with a checksum of the
payload; everything else in its log is as before. -/
theorem pack_applyPack {sender : LogStore} {L : IndexedLog LogEntry} {index : UInt64} {cnt : Int32}
    (h : sender.Holds memory L) (hi : L.start ≤ index.toNat) (hcnt : 0 ≤ cnt.toInt)
    (hn : index.toNat + cnt.toInt.toNat ≤ L.next)
    (hfit : (packBytes (L.slice index.toNat cnt.toInt.toNat)).length < 2 ^ 31)
    (memory' : Nat → UInt8) (receiver : LogStore) :
    ∃ pack receiver', sender.pack memory index cnt = .ok pack ∧
      receiver.applyPack memory' index pack = (receiver', .ok ()) ∧
      (∀ k : UInt64, index ≤ k → k.toNat < index.toNat + cnt.toInt.toNat →
        ∃ e e', sender.entryAt memory k = .ok e ∧ receiver'.entryAt memory' k = .ok e' ∧
          e'.term = e.term ∧ e'.valType = e.valType ∧ e'.payload = e.payload ∧
          e'.crc32 = crc32_8 e.payload 0) ∧
      ∀ k : UInt64, k < index ∨ index.toNat + cnt.toInt.toNat ≤ k.toNat →
        receiver'.entryAt memory' k = receiver.entryAt memory' k := by
  obtain ⟨pack, hpack, hbytes⟩ := h.pack hi hcnt hn hfit
  have hlen : (L.slice index.toNat cnt.toInt.toNat).length = cnt.toInt.toNat :=
    IndexedLog.length_slice hi hn
  have hbuff : ∀ e ∈ L.slice index.toNat cnt.toInt.toNat, e.buff ≠ none := by
    intro e he
    obtain ⟨b, hb, -⟩ := h.stored e (IndexedLog.mem_of_mem_slice he)
    rw [hb]
    exact Option.some_ne_none b
  have hpos : 0 < index.toNat := Nat.lt_of_lt_of_le h.start_pos hi
  have hlt := h.next_lt
  have hidx : index.toNat + (L.slice index.toNat cnt.toInt.toNat).length < 2 ^ 64 := by omega
  obtain ⟨logs, happly, hfind⟩ := applyPack_eq_ok (s := receiver) memory' hidx hbuff hbytes
  rw [hlen] at hfind
  refine ⟨pack, _, hpack, happly, fun k hk hk' => ?_, fun k hk => ?_⟩
  · have hk : index.toNat ≤ k.toNat := hk
    have hoff : k.toNat - index.toNat < cnt.toInt.toNat := by omega
    have hin : k.toNat - index.toNat < (L.slice index.toNat cnt.toInt.toNat).length :=
      hlen.symm ▸ hoff
    have hget := IndexedLog.getElem?_slice (L := L) hi hoff
    rw [Nat.add_sub_cancel' hk, List.getElem?_eq_getElem hin] at hget
    have hfound := hfind k.toNat
    rw [if_pos ⟨hk, hk'⟩, List.getElem?_map, List.getElem?_eq_getElem hin,
      Option.map_some] at hfound
    have hbuff := hbuff _ (List.getElem_mem hin)
    refine ⟨_, _, h.entryAt k, entryAt_of_find? hfound (LogEntry.stored_received hbuff), ?_⟩
    unfold LogSpec.read
    rw [← hget]
    exact LogEntry.received_eq hbuff
  · -- the dummy under 0 is outside of the range, too
    have hout : ¬ (index.toNat ≤ k.toNat ∧ k.toNat < index.toNat + cnt.toInt.toNat) := by
      rintro ⟨hle, hlt'⟩
      rcases hk with hk | hk
      · exact absurd (show k.toNat < index.toNat from hk) (Nat.not_lt.mpr hle)
      · omega
    have hsame : logs.find? k.toNat = receiver.logs.find? k.toNat := (hfind _).trans (if_neg hout)
    have hzero : logs.find? 0 = receiver.logs.find? 0 := (hfind 0).trans (if_neg (by omega))
    unfold LogStore.entryAt findOrDummy
    rw [hsame, hzero]

theorem pack_applyPack_sample :
    ∃ pack receiver', Sample.sender.pack (fun _ => 0) 2 2 = .ok pack ∧
      (init fun _ => 0).applyPack (fun _ => 0) 2 pack = (receiver', .ok ()) ∧
      (∀ k : UInt64, 2 ≤ k → k.toNat < 2 + 2 →
        ∃ e e', Sample.sender.entryAt (fun _ => 0) k = .ok e ∧
          receiver'.entryAt (fun _ => 0) k = .ok e' ∧
          e'.term = e.term ∧ e'.valType = e.valType ∧ e'.payload = e.payload ∧
          e'.crc32 = crc32_8 e.payload 0) ∧
      ∀ k : UInt64, k < 2 ∨ 2 + 2 ≤ k.toNat →
        receiver'.entryAt (fun _ => 0) k = (init fun _ => 0).entryAt (fun _ => 0) k :=
  pack_applyPack Sample.holds_sender (by decide) (by decide) (by decide) (by decide +kernel)
    (fun _ => 0) (init fun _ => 0)

/-! ## Batches -/

/-- The bytes in the buffers of the entries. -/
def payloadSize (entries : List LogEntry) : Nat := (entries.map fun e => e.payload.length).sum

/-- `log_entries_ext` returns a front of what `log_entries` returns: all of it for the hint 0,
nothing for a negative one. For a positive hint it goes on until the payloads reach the hint, so it
stops short of the range only when they have, and never takes an entry more than it needs. -/
theorem logEntriesExt_shortest (h : s.Holds memory L) {a b : UInt64} (hint : Int64)
    (ha : L.start ≤ a.toNat) (hab : a.toNat ≤ b.toNat) (hb : b.toNat ≤ L.next)
    (hn : b.toNat - a.toNat < 2 ^ 59) :
    ∃ all es, s.logEntries memory a b = .ok (all.map some) ∧
      s.logEntriesExt memory a b hint = .ok es ∧ es <+: all ∧
      (hint < 0 → es = []) ∧ (hint = 0 → es = all) ∧
      (0 < hint → (es = all ∨ hint.toInt ≤ payloadSize es) ∧
        (a < b → es ≠ []) ∧
        ∀ p, p <+: es → p ≠ es → payloadSize p < hint.toInt) := by
  refine ⟨_, _, h.logEntries ha hab hb hn, h.logEntriesExt hint ha hb, ?_⟩
  unfold LogSpec.cut
  by_cases hneg : hint < 0
  · have hnpos : ¬ 0 < hint := fun hc => Int64.lt_irrefl (Int64.lt_trans hc hneg)
    rw [if_pos hneg]
    refine ⟨⟨_, List.nil_append _⟩, fun _ => rfl, fun hz => ?_, fun hc => absurd hc hnpos⟩
    exact absurd (hz ▸ hneg) Int64.lt_irrefl
  rw [if_neg hneg]
  by_cases hz : hint = 0
  · rw [if_pos hz]
    exact ⟨List.prefix_rfl, fun hc => absurd hc hneg, fun _ => rfl,
      fun hc => absurd (hz ▸ hc) Int64.lt_irrefl⟩
  rw [if_neg hz]
  refine ⟨IndexedLog.batch_isPrefix, fun hc => absurd hc hneg, fun hc => absurd hc hz,
    fun hpos => ⟨?_, fun hlt => ?_, fun p hp hne => ?_⟩⟩
  · by_cases hall : IndexedLog.batch (fun e : LogEntry => e.payload.length) hint.toInt.toNat
        (L.slice a.toNat (b.toNat - a.toNat)) = L.slice a.toNat (b.toNat - a.toNat)
    · exact .inl hall
    · have hreach := IndexedLog.batch_reaches hall
      refine .inr ?_
      unfold payloadSize
      omega
  · have hlt : a.toNat < b.toNat := hlt
    have hpos : 0 < hint.toInt := Int64.lt_iff_toInt_lt.mp hpos
    have hlen : (L.slice a.toNat (b.toNat - a.toNat)).length = b.toNat - a.toNat :=
      IndexedLog.length_slice ha (by omega)
    obtain ⟨e, l, hl⟩ := List.exists_cons_of_length_pos (hlen ▸ Nat.sub_pos_of_lt hlt)
    rw [hl, IndexedLog.batch_cons (by omega)]
    exact List.cons_ne_nil _ _
  · have hmin := IndexedLog.batch_minimal hp hne
    unfold payloadSize
    omega

theorem logEntriesExt_shortest_sample :
    ∃ all es, Sample.sender.logEntries (fun _ => 0) 2 4 = .ok (all.map some) ∧
      Sample.sender.logEntriesExt (fun _ => 0) 2 4 1 = .ok es ∧ es <+: all ∧
      ((1 : Int64) < 0 → es = []) ∧ ((1 : Int64) = 0 → es = all) ∧
      ((0 : Int64) < 1 → (es = all ∨ (1 : Int64).toInt ≤ payloadSize es) ∧
        ((2 : UInt64) < 4 → es ≠ []) ∧
        ∀ p, p <+: es → p ≠ es → payloadSize p < (1 : Int64).toInt) :=
  logEntriesExt_shortest Sample.holds_sender 1 (by decide) (by decide) (by decide) (by decide)

end LogStore

end LruCache
