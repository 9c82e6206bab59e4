import Mathlib.Data.List.Nodup
import Mathlib.Data.List.Sort
import Mathlib.Order.Defs.LinearOrder
import Mathlib.Tactic.Common

/-!
# Ordered maps

A map whose iterators run through the keys in increasing order: the list of its entries, sorted by
key. Two maps with the same lookups are equal (`OrderedMap.ext`), so an operation is described by
what `find?` returns after it.
-/

/-- The entries of a map, in the order of their keys. -/
structure OrderedMap (κ α : Type) [LinearOrder κ] where
  entries : List (κ × α)
  sorted : entries.Pairwise fun a b => a.1 < b.1

namespace OrderedMap

variable {κ α : Type} [LinearOrder κ]

instance [DecidableEq α] : DecidableEq (OrderedMap κ α) := fun a b =>
  decidable_of_iff (a.entries = b.entries) (by cases a; cases b; simp)

/-! ## Lists of entries -/

/-- The value of the first entry with key `k`. -/
def lookup (k : κ) : List (κ × α) → Option α
  | [] => none
  | e :: es => if e.1 = k then some e.2 else lookup k es

theorem lookup_cons (k : κ) (e : κ × α) (es : List (κ × α)) :
    lookup k (e :: es) = if e.1 = k then some e.2 else lookup k es := rfl

/-- The entry in its place, instead of one with the same key. -/
def insertEntry (k : κ) (v : α) : List (κ × α) → List (κ × α)
  | [] => [(k, v)]
  | e :: es =>
    if k < e.1 then (k, v) :: e :: es
    else if e.1 = k then (k, v) :: es
    else e :: insertEntry k v es

theorem mem_insertEntry {k : κ} {v : α} {es : List (κ × α)} {e : κ × α}
    (h : e ∈ insertEntry k v es) : e = (k, v) ∨ e ∈ es := by
  induction es with
  | nil => exact .inl (List.mem_singleton.mp h)
  | cons a es ih =>
    unfold insertEntry at h
    split at h
    · exact List.mem_cons.mp h
    split at h
    · exact (List.mem_cons.mp h).imp_right (List.mem_cons_of_mem a)
    · rcases List.mem_cons.mp h with h | h
      · exact .inr (h ▸ List.mem_cons_self)
      · exact (ih h).imp_right (List.mem_cons_of_mem a)

theorem sorted_insertEntry (k : κ) (v : α) {es : List (κ × α)}
    (h : es.Pairwise fun a b => a.1 < b.1) :
    (insertEntry k v es).Pairwise fun a b => a.1 < b.1 := by
  induction es with
  | nil => exact List.pairwise_singleton _ _
  | cons a es ih =>
    obtain ⟨ha, hes⟩ := List.pairwise_cons.mp h
    unfold insertEntry
    split
    next hlt =>
      refine List.pairwise_cons.mpr ⟨fun e he => ?_, h⟩
      rcases List.mem_cons.mp he with rfl | he
      · exact hlt
      · exact lt_trans hlt (ha e he)
    next hle =>
      split
      next heq => exact List.pairwise_cons.mpr ⟨fun e he => heq ▸ ha e he, hes⟩
      next hne =>
        refine List.pairwise_cons.mpr ⟨fun e he => ?_, ih hes⟩
        rcases mem_insertEntry he with rfl | he
        · exact lt_of_le_of_ne (le_of_not_gt hle) hne
        · exact ha e he

theorem lookup_insertEntry (k : κ) (v : α) {es : List (κ × α)}
    (h : es.Pairwise fun a b => a.1 < b.1) (k' : κ) :
    lookup k' (insertEntry k v es) = if k' = k then some v else lookup k' es := by
  induction es with
  | nil =>
    simp only [insertEntry, lookup, eq_comm]
  | cons a es ih =>
    obtain ⟨ha, hes⟩ := List.pairwise_cons.mp h
    unfold insertEntry
    split
    next => simp only [lookup, eq_comm]
    next hle =>
      split
      next heq =>
        subst heq
        simp only [lookup]
        by_cases hk : a.1 = k'
        · rw [if_pos hk, if_pos hk.symm]
        · rw [if_neg hk, if_neg (Ne.symm hk), if_neg hk]
      next hne =>
        simp only [lookup, ih hes]
        by_cases hk : a.1 = k'
        · rw [if_pos hk, if_pos hk, if_neg (hk ▸ hne)]
        · rw [if_neg hk, if_neg hk]

theorem lookup_filter {p : κ → Bool} {es : List (κ × α)} (k : κ) :
    lookup k (es.filter fun e => p e.1) = if p k then lookup k es else none := by
  induction es with
  | nil => simp [lookup]
  | cons a es ih =>
    rw [List.filter_cons, lookup_cons]
    by_cases ha : p a.1
    · rw [if_pos ha, lookup_cons, ih]
      by_cases hk : a.1 = k
      · rw [if_pos hk, if_pos hk, if_pos (hk ▸ ha)]
      · rw [if_neg hk, if_neg hk]
    · rw [if_neg ha, ih]
      by_cases hk : a.1 = k
      · subst hk
        rw [if_neg ha, if_neg ha]
      · rw [if_neg hk]

theorem mem_iff_lookup {k : κ} {v : α} {es : List (κ × α)}
    (h : es.Pairwise fun a b => a.1 < b.1) : (k, v) ∈ es ↔ lookup k es = some v := by
  induction es with
  | nil => exact ⟨(fun h => nomatch h), (fun h => nomatch h)⟩
  | cons a es ih =>
    obtain ⟨ha, hes⟩ := List.pairwise_cons.mp h
    rw [List.mem_cons, ih hes, lookup_cons]
    split
    next hk =>
      subst hk
      constructor
      · rintro (hv | hv)
        · rw [← hv]
        · exact absurd (ha _ ((ih hes).mpr hv)) (lt_irrefl _)
      · intro hv
        exact .inl (by rw [← Option.some.inj hv])
    next hk =>
      constructor
      · rintro (hv | hv)
        · exact absurd (congrArg Prod.fst hv).symm hk
        · exact hv
      · exact .inr

/-! ## Maps -/

def empty : OrderedMap κ α := ⟨[], List.Pairwise.nil⟩

def size (m : OrderedMap κ α) : Nat := m.entries.length

def find? (m : OrderedMap κ α) (k : κ) : Option α := lookup k m.entries

/-- Assignment to the element at `k`. -/
def set (m : OrderedMap κ α) (k : κ) (v : α) : OrderedMap κ α :=
  ⟨insertEntry k v m.entries, sorted_insertEntry k v m.sorted⟩

/-- The entries whose keys satisfy `p`. -/
def restrict (m : OrderedMap κ α) (p : κ → Bool) : OrderedMap κ α :=
  ⟨m.entries.filter fun e => p e.1, m.sorted.filter _⟩

def erase (m : OrderedMap κ α) (k : κ) : OrderedMap κ α := m.restrict fun k' => k' != k

/-- The key of the first entry above `k`. -/
def upperBound (m : OrderedMap κ α) (k : κ) : Option κ :=
  (m.entries.find? fun e => k < e.1).map Prod.fst

variable {m m' : OrderedMap κ α}

@[simp] theorem find?_set (m : OrderedMap κ α) (k : κ) (v : α) (k' : κ) :
    (m.set k v).find? k' = if k' = k then some v else m.find? k' :=
  lookup_insertEntry k v m.sorted k'

@[simp] theorem find?_restrict (m : OrderedMap κ α) (p : κ → Bool) (k : κ) :
    (m.restrict p).find? k = if p k then m.find? k else none :=
  lookup_filter k

theorem mem_entries {k : κ} {v : α} : (k, v) ∈ m.entries ↔ m.find? k = some v :=
  mem_iff_lookup m.sorted

theorem nodup_entries (m : OrderedMap κ α) : m.entries.Nodup :=
  m.sorted.imp fun hlt => ne_of_apply_ne Prod.fst (ne_of_lt hlt)

theorem nodup_keys (m : OrderedMap κ α) : (m.entries.map Prod.fst).Nodup :=
  List.pairwise_map.mpr (m.sorted.imp ne_of_lt)

/-- A map is its lookups. -/
theorem ext (h : ∀ k, m.find? k = m'.find? k) : m = m' := by
  have hperm : m.entries.Perm m'.entries :=
    (List.perm_ext_iff_of_nodup m.nodup_entries m'.nodup_entries).mpr fun e => by
      rw [mem_entries (k := e.1) (v := e.2), mem_entries (k := e.1) (v := e.2), h]
  have heq : m.entries = m'.entries :=
    hperm.eq_of_pairwise (fun _ _ _ _ hab hba => absurd hba (lt_asymm hab)) m.sorted m'.sorted
  cases m
  cases m'
  cases heq
  rfl

/-! ## Consecutive keys -/

/-- The entries of `enumFrom`. -/
def enumEntries : Nat → List α → List (Nat × α)
  | _, [] => []
  | n, a :: l => (n, a) :: enumEntries (n + 1) l

theorem le_of_mem_enumEntries {n : Nat} {l : List α} {e : Nat × α} (h : e ∈ enumEntries n l) :
    n ≤ e.1 := by
  induction l generalizing n with
  | nil => cases h
  | cons a l ih =>
    rcases List.mem_cons.mp h with rfl | h
    · exact Nat.le_refl n
    · exact Nat.le_of_succ_le (ih h)

theorem sorted_enumEntries (n : Nat) (l : List α) :
    (enumEntries n l).Pairwise fun a b => a.1 < b.1 := by
  induction l generalizing n with
  | nil => exact List.Pairwise.nil
  | cons a l ih =>
    exact List.pairwise_cons.mpr ⟨fun e he => le_of_mem_enumEntries he, ih (n + 1)⟩

/-- The elements of a list under consecutive keys from `n` on. -/
def enumFrom (n : Nat) (l : List α) : OrderedMap Nat α := ⟨enumEntries n l, sorted_enumEntries n l⟩

theorem lookup_enumEntries (n : Nat) (l : List α) (k : Nat) :
    lookup k (enumEntries n l) = if n ≤ k then l[k - n]? else none := by
  induction l generalizing n with
  | nil =>
    rw [List.getElem?_nil, ite_self]
    rfl
  | cons a l ih =>
    rw [enumEntries, lookup_cons, ih]
    rcases Nat.lt_trichotomy n k with hlt | rfl | hgt
    · have hsub : k - n = (k - (n + 1)) + 1 := by omega
      rw [if_neg (Nat.ne_of_lt hlt), if_pos (Nat.succ_le_of_lt hlt), if_pos (Nat.le_of_lt hlt),
        hsub,
        List.getElem?_cons_succ]
    · rw [if_pos rfl, if_pos (Nat.le_refl _), Nat.sub_self, List.getElem?_cons_zero]
    · rw [if_neg (Nat.ne_of_gt hgt), if_neg (by omega), if_neg (by omega)]

@[simp] theorem find?_enumFrom (n : Nat) (l : List α) (k : Nat) :
    (enumFrom n l).find? k = if n ≤ k then l[k - n]? else none :=
  lookup_enumEntries n l k

theorem length_enumEntries (n : Nat) (l : List α) : (enumEntries n l).length = l.length := by
  induction l generalizing n with
  | nil => rfl
  | cons a l ih => exact congrArg Nat.succ (ih (n + 1))

/-- A key below all others comes first. -/
theorem set_entries_of_lt {k : κ} {v : α} (h : ∀ e ∈ m.entries, k < e.1) :
    (m.set k v).entries = (k, v) :: m.entries := by
  show insertEntry k v m.entries = _
  cases hm : m.entries with
  | nil => rfl
  | cons e es =>
    have hlt : k < e.1 := h e (by rw [hm]; exact List.mem_cons_self)
    rw [insertEntry, if_pos hlt]

end OrderedMap
