import Mathlib.Algebra.Order.Ring.Nat
import LruCache.Lib.OrderedMap

/-!
# Logs with consecutive indices

A log holds its entries under consecutive indices from `start` on. Its front can be compacted away,
its end overwritten from some index on, and a block of entries spliced in. `toMap` stores a log in
an ordered map, with a sentinel under the key 0, and each operation of the log is the corresponding
operation of the map.
-/

/-- The entries at `start`, `start + 1`, ... -/
structure IndexedLog (α : Type) where
  start : Nat
  entries : List α

namespace IndexedLog

variable {α : Type} {L : IndexedLog α} {d a : α} {i k : Nat} {new : List α}

/-- The index after the last entry. -/
def next (L : IndexedLog α) : Nat := L.start + L.entries.length

def get? (L : IndexedLog α) (k : Nat) : Option α :=
  if L.start ≤ k then L.entries[k - L.start]? else none

def append (L : IndexedLog α) (a : α) : IndexedLog α := { L with entries := L.entries ++ [a] }

/-- The entry `a` at `i`, and nothing behind it. -/
def writeAt (L : IndexedLog α) (i : Nat) (a : α) : IndexedLog α :=
  { L with entries := L.entries.take (i - L.start) ++ [a] }

/-- The entries behind `last`. -/
def compact (L : IndexedLog α) (last : Nat) : IndexedLog α :=
  ⟨max L.start (last + 1), L.entries.drop (last + 1 - L.start)⟩

/-- The entries `new` from `i` on, over what is there. -/
def splice (L : IndexedLog α) (i : Nat) (new : List α) : IndexedLog α :=
  if L.entries = [] then ⟨i, new⟩
  else
    ⟨min L.start i,
      L.entries.take (i - L.start) ++ new ++ L.entries.drop (i + new.length - L.start)⟩

theorem get?_of_start_le (h : L.start ≤ k) : L.get? k = L.entries[k - L.start]? := if_pos h

theorem get?_of_lt_start (h : k < L.start) : L.get? k = none := if_neg (Nat.not_le_of_lt h)

theorem get?_append : (L.append a).get? k = if k = L.next then some a else L.get? k := by
  unfold get? append next
  dsimp only
  by_cases hk : L.start ≤ k
  · rw [if_pos hk, if_pos hk, List.getElem?_append, List.getElem?_singleton]
    by_cases hlt : k - L.start < L.entries.length
    · rw [if_pos hlt, if_neg (by omega)]
    · rw [if_neg hlt, List.getElem?_eq_none (Nat.le_of_not_lt hlt)]
      by_cases heq : k = L.start + L.entries.length
      · rw [if_pos heq, if_pos (by omega)]
      · rw [if_neg heq, if_neg (by omega)]
  · rw [if_neg hk, if_neg hk, if_neg (by omega)]

theorem get?_writeAt (hi : L.start ≤ i) (hn : i ≤ L.next) :
    (L.writeAt i a).get? k = if k = i then some a else if k < i then L.get? k else none := by
  unfold next at hn
  have hlen : (L.entries.take (i - L.start)).length = i - L.start :=
    List.length_take_of_le (by omega)
  unfold get? writeAt
  dsimp only
  by_cases hk : L.start ≤ k
  · rw [if_pos hk, if_pos hk, List.getElem?_append, hlen, List.getElem?_singleton]
    by_cases hlt : k < i
    · rw [if_pos (by omega), if_neg (by omega), if_pos hlt, List.getElem?_take, if_pos (by omega)]
    · rw [if_neg (by omega), if_neg hlt]
      by_cases heq : k = i
      · rw [if_pos heq, if_pos (by omega)]
      · rw [if_neg heq, if_neg (by omega)]
  · rw [if_neg hk, if_neg hk, if_neg (by omega), ite_self]

theorem get?_compact {last : Nat} :
    (L.compact last).get? k = if last < k then L.get? k else none := by
  unfold get? compact
  dsimp only
  by_cases hk : L.start ≤ k
  · by_cases hlast : last < k
    · rw [if_pos (by omega), if_pos hlast, if_pos hk, List.getElem?_drop]
      congr 1
      omega
    · rw [if_neg (by omega), if_neg hlast]
  · rw [if_neg (by omega), if_neg hk, ite_self]

theorem get?_of_nil (h : L.entries = []) : L.get? k = none := by
  unfold get?
  rw [h, List.getElem?_nil, ite_self]

theorem get?_splice (h : L.entries = [] ∨ i ≤ L.next ∧ L.start ≤ i + new.length) :
    (L.splice i new).get? k =
      if i ≤ k ∧ k < i + new.length then new[k - i]? else L.get? k := by
  unfold next at h
  unfold splice
  by_cases hempty : L.entries = []
  · rw [if_pos hempty, get?_of_nil hempty]
    unfold get?
    dsimp only
    by_cases hle : i ≤ k
    · rw [if_pos hle]
      by_cases hlt : k < i + new.length
      · rw [if_pos ⟨hle, hlt⟩]
      · rw [if_neg (by omega), List.getElem?_eq_none (by omega)]
    · rw [if_neg hle, if_neg (by omega)]
  · obtain ⟨hi, hn⟩ := h.resolve_left hempty
    have htake : (L.entries.take (i - L.start)).length = i - L.start :=
      List.length_take_of_le (by omega)
    rw [if_neg hempty]
    unfold get?
    simp only [List.getElem?_append, List.length_append, htake, List.getElem?_take,
      List.getElem?_drop]
    by_cases hk : L.start ≤ k
    · rw [if_pos (by omega), if_pos hk]
      by_cases hki : k < i
      · rw [if_pos (by omega), if_pos (by omega), if_pos (by omega), if_neg (by omega)]
        congr 1
        omega
      · by_cases hkn : k < i + new.length
        · rw [if_pos (by omega), if_neg (by omega), if_pos ⟨by omega, hkn⟩]
          congr 1
          omega
        · rw [if_neg (by omega), if_neg (by omega)]
          congr 1
          omega
    · rw [if_neg hk]
      by_cases hki : i ≤ k
      · rw [if_pos (by omega), if_pos (by omega), if_neg (by omega), if_pos ⟨hki, by omega⟩]
        congr 1
        omega
      · rw [if_neg (by omega), if_neg (by omega)]

theorem next_append : (L.append a).next = L.next + 1 := by
  unfold next append
  rw [List.length_append]
  rfl

theorem next_writeAt (hi : L.start ≤ i) (hn : i ≤ L.next) : (L.writeAt i a).next = i + 1 := by
  unfold next at hn
  unfold next writeAt
  dsimp only
  rw [List.length_append, List.length_take, List.length_singleton]
  omega

theorem next_compact {last : Nat} : (L.compact last).next = max L.next (last + 1) := by
  unfold next compact
  dsimp only
  rw [List.length_drop]
  omega

theorem next_splice (h : L.entries = [] ∨ i ≤ L.next ∧ L.start ≤ i + new.length) :
    (L.splice i new).next ≤ max L.next (i + new.length) := by
  unfold next at h
  unfold next splice
  split
  next => exact Nat.le_max_right _ _
  next hne =>
    have h := h.resolve_left hne
    simp only [List.length_append, List.length_take, List.length_drop]
    omega

theorem mem_splice (h : a ∈ (L.splice i new).entries) : a ∈ L.entries ∨ a ∈ new := by
  unfold splice at h
  split at h
  · exact .inr h
  · simp only [List.mem_append] at h
    obtain (h | h) | h := h
    · exact .inl (List.mem_of_mem_take h)
    · exact .inr h
    · exact .inl (List.mem_of_mem_drop h)

theorem splice_eq_nil (h : (L.splice i new).entries = []) : L.entries = [] ∧ new = [] := by
  unfold splice at h
  by_cases hempty : L.entries = []
  · rw [if_pos hempty] at h
    exact ⟨hempty, h⟩
  · rw [if_neg hempty, List.append_eq_nil_iff, List.append_eq_nil_iff, List.drop_eq_nil_iff,
      List.take_eq_nil_iff] at h
    obtain ⟨⟨htake, hnew⟩, hdrop⟩ := h
    have hpos := List.length_pos_iff.mpr hempty
    have hzero := htake.resolve_right hempty
    have hlen : new.length = 0 := List.length_eq_zero_iff.mpr hnew
    omega

theorem splice_start_pos (hi : 0 < i) (h : 0 < L.start) : 0 < (L.splice i new).start := by
  unfold splice
  split
  · exact hi
  · exact Nat.lt_min.mpr ⟨h, hi⟩

/-- The `n` entries from `i` on. -/
def slice (L : IndexedLog α) (i n : Nat) : List α := (L.entries.drop (i - L.start)).take n

theorem length_slice {n : Nat} (hi : L.start ≤ i) (hn : i + n ≤ L.next) :
    (L.slice i n).length = n := by
  unfold next at hn
  rw [slice, List.length_take, List.length_drop]
  omega

theorem getElem?_slice {n : Nat} (hi : L.start ≤ i) (hk : k < n) :
    (L.slice i n)[k]? = L.get? (i + k) := by
  rw [slice, List.getElem?_take, if_pos hk, List.getElem?_drop, get?_of_start_le (by omega)]
  congr 1
  omega

theorem mem_of_mem_slice {n : Nat} (h : a ∈ L.slice i n) : a ∈ L.entries :=
  List.mem_of_mem_drop (List.mem_of_mem_take h)

theorem mem_of_get? (h : L.get? k = some a) : a ∈ L.entries := by
  unfold get? at h
  split at h
  · exact List.mem_of_getElem? h
  · cases h

/-! ## Batches -/

section Batch

variable {size : α → Nat} {h : Nat} {l : List α}

/-- The shortest front of the list whose total size reaches `h`, or the whole list. -/
def batch (size : α → Nat) (h : Nat) (l : List α) : List α :=
  (l.inits.find? fun p => h ≤ (p.map size).sum).getD l

theorem batch_nil : batch size h [] = [] := by
  unfold batch
  rw [List.inits, List.find?_singleton]
  split <;> rfl

theorem batch_zero : batch size 0 l = [] := by
  unfold batch
  cases l <;> simp [List.inits]

theorem batch_cons (hh : 0 < h) : batch size h (a :: l) = a :: batch size (h - size a) l := by
  unfold batch
  have htest : (fun p : List α => decide (h ≤ ((a :: p).map size).sum)) =
      fun p => decide (h - size a ≤ (p.map size).sum) := by
    funext p
    rw [List.map_cons, List.sum_cons, decide_eq_decide]
    omega
  rw [List.inits, List.find?_cons_of_neg (by simpa using Nat.ne_of_gt hh), List.find?_map]
  show (Option.map (fun p => a :: p)
    (l.inits.find? fun p => h ≤ ((a :: p).map size).sum)).getD _ = _
  rw [htest]
  cases l.inits.find? fun p => decide (h - size a ≤ (p.map size).sum) <;> rfl

theorem batch_isPrefix : batch size h l <+: l := by
  induction l generalizing h with
  | nil => simp [batch_nil]
  | cons a l ih =>
    rcases Nat.eq_zero_or_pos h with rfl | hh
    · rw [batch_zero]
      exact List.nil_prefix
    · rw [batch_cons hh]
      exact (List.prefix_cons_inj a).mpr ih

theorem batch_reaches (hne : batch size h l ≠ l) : h ≤ ((batch size h l).map size).sum := by
  induction l generalizing h with
  | nil => exact absurd batch_nil hne
  | cons a l ih =>
    rcases Nat.eq_zero_or_pos h with rfl | hh
    · exact Nat.zero_le _
    · rw [batch_cons hh] at hne ⊢
      have hle := ih fun heq => hne (by rw [heq])
      rw [List.map_cons, List.sum_cons]
      omega

theorem batch_minimal {p : List α} (hp : p <+: batch size h l) (hne : p ≠ batch size h l) :
    (p.map size).sum < h := by
  induction l generalizing h p with
  | nil =>
    rw [batch_nil] at hp hne
    exact absurd (List.prefix_nil.mp hp) hne
  | cons a l ih =>
    rcases Nat.eq_zero_or_pos h with rfl | hh
    · rw [batch_zero] at hp hne
      exact absurd (List.prefix_nil.mp hp) hne
    · rw [batch_cons hh] at hp hne
      cases p with
      | nil => exact hh
      | cons b p =>
        obtain ⟨rfl, hp⟩ := List.cons_prefix_cons.mp hp
        have hlt := ih hp fun heq => hne (by rw [heq])
        rw [List.map_cons, List.sum_cons]
        omega

end Batch

/-! ## As a map -/

/-- The entries under their indices, and a sentinel under 0. -/
def toMap (d : α) (L : IndexedLog α) : OrderedMap Nat α :=
  (OrderedMap.enumFrom L.start L.entries).set 0 d

theorem find?_toMap : (L.toMap d).find? k = if k = 0 then some d else L.get? k := by
  rw [toMap, OrderedMap.find?_set, OrderedMap.find?_enumFrom]
  rfl

theorem entries_toMap (h : 0 < L.start) :
    (L.toMap d).entries = (0, d) :: OrderedMap.enumEntries L.start L.entries := by
  refine OrderedMap.set_entries_of_lt fun e he => ?_
  exact Nat.lt_of_lt_of_le h (OrderedMap.le_of_mem_enumEntries he)

theorem size_toMap (h : 0 < L.start) : (L.toMap d).size = L.entries.length + 1 := by
  rw [OrderedMap.size, entries_toMap h, List.length_cons, OrderedMap.length_enumEntries]

theorem upperBound_toMap (h : 0 < L.start) :
    (L.toMap d).upperBound 0 = if L.entries = [] then none else some L.start := by
  unfold OrderedMap.upperBound
  rw [entries_toMap h]
  cases hentries : L.entries with
  | nil => rfl
  | cons a l =>
    rw [OrderedMap.enumEntries, List.find?_cons_of_neg (by simp),
      List.find?_cons_of_pos (by simpa using h)]
    rfl

theorem toMap_append (h : 0 < L.start) : (L.toMap d).set L.next a = (L.append a).toMap d := by
  refine OrderedMap.ext fun k => ?_
  rw [OrderedMap.find?_set, find?_toMap, find?_toMap, get?_append]
  by_cases hk : k = 0
  · subst hk
    rw [if_pos rfl, if_pos rfl, if_neg]
    unfold next
    omega
  · rw [if_neg hk, if_neg hk]

theorem toMap_writeAt (h : 0 < L.start) (hi : L.start ≤ i) (hn : i ≤ L.next) :
    ((L.toMap d).restrict fun k => k < i).set i a = (L.writeAt i a).toMap d := by
  refine OrderedMap.ext fun k => ?_
  rw [OrderedMap.find?_set, OrderedMap.find?_restrict, find?_toMap, find?_toMap,
    get?_writeAt hi hn]
  by_cases hk : k = 0
  · subst hk
    rw [if_neg (by omega), if_pos (by simpa using Nat.lt_of_lt_of_le h hi), if_pos rfl, if_pos rfl]
  · rw [if_neg hk, if_neg hk]
    simp only [decide_eq_true_eq]

theorem toMap_compact {last : Nat} (h : 0 < L.start) :
    ((L.toMap d).restrict fun k => k < L.start || last < k) = (L.compact last).toMap d := by
  refine OrderedMap.ext fun k => ?_
  rw [OrderedMap.find?_restrict, find?_toMap, find?_toMap, get?_compact]
  by_cases hk : k = 0
  · subst hk
    rw [if_pos rfl, if_pos rfl, if_pos (by simp [h])]
  · rw [if_neg hk, if_neg hk]
    by_cases hlt : k < L.start
    · rw [get?_of_lt_start hlt, ite_self, ite_self]
    · simp [hlt]

end IndexedLog
