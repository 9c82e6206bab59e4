import LruCache.CacheConfig
import LruCache.Eviction
import LruCache.Transparency

/-!
# The arithmetic of an eviction

`evict_lru_data` compares two `int`s: `available_memory`, narrowed from the difference of two
`size_t`, and the memory that the write requires, narrowed too. Any `cache_size` of type `size_t`
can be loaded, so the differences need not be `int`s. What is compared are then their residues
modulo `2 ^ 32`.

The comparisons made are the exact ones as long as the two sides wrap equally often, and beyond that
when their residues happen to be in the right order. In terms of the configuration: for the writes
that require an `int`, in states that are over the cache size by at most an `int`, all comparisons
are exact exactly when the cache size is an `int` itself (`evictions_exact_iff`).
-/

namespace LruCache

open NodeList

/-! ## The order of two residues -/

/-- Narrowed to `int`, the two numbers compare as they do: they wrap equally often, or what is left
of them has the order of how often they wrap. -/
def NarrowsInOrder (a b : Int) : Prop :=
  a.bdiv (2 ^ 32) = b.bdiv (2 ^ 32) ∨
    (a.bdiv (2 ^ 32) < b.bdiv (2 ^ 32) ∧ a.bmod (2 ^ 32) ≤ b.bmod (2 ^ 32)) ∨
    (b.bdiv (2 ^ 32) < a.bdiv (2 ^ 32) ∧ b.bmod (2 ^ 32) < a.bmod (2 ^ 32))

theorem bmod_le_bmod_iff {a b : Int} :
    (a.bmod (2 ^ 32) ≤ b.bmod (2 ^ 32) ↔ a ≤ b) ↔ NarrowsInOrder a b := by
  have ha := Int.bmod_add_bdiv a (2 ^ 32)
  have hb := Int.bmod_add_bdiv b (2 ^ 32)
  have ha₁ := Int.le_bmod (x := a) (m := 2 ^ 32) (by decide)
  have ha₂ := Int.bmod_lt (x := a) (m := 2 ^ 32) (by decide)
  have hb₁ := Int.le_bmod (x := b) (m := 2 ^ 32) (by decide)
  have hb₂ := Int.bmod_lt (x := b) (m := 2 ^ 32) (by decide)
  unfold NarrowsInOrder
  omega

/-- Two `int`s do not wrap. -/
theorem narrowsInOrder_of_int {a b : Int} (ha : -2 ^ 31 ≤ a ∧ a < 2 ^ 31)
    (hb : -2 ^ 31 ≤ b ∧ b < 2 ^ 31) : NarrowsInOrder a b := by
  rw [← bmod_le_bmod_iff, bmod_eq_self_iff.mpr ha, bmod_eq_self_iff.mpr hb]

/-! ## What is compared -/

/-- `available_memory`, once these entries have been evicted. -/
def availableMemory (cfg : CacheConfig) (s : Containers) (evicted : List Entry) : Int32 :=
  evicted.foldl (fun available e => addSize available e.size)
    (narrow (cfg.cacheSize - s.usedMemory))

namespace Lru

/-- The memory that is free once these entries have been evicted. -/
def free (cfg : CacheConfig) (l evicted : List Entry) : Int :=
  cfg.cacheSize.toNat - used l + used evicted

/-- What a write requires on top of the item that it finds under its key. -/
def memoryRequired (key : Key) (item : CacheItem) (old : Option CacheItem) : Int :=
  size (item.entry key) - (old.map fun o => size (o.entry key)).getD 0

/-- The entries that an eviction for `key` may take, in the order in which it takes them. -/
def evictable (key : Key) (l : List Entry) : List Entry := (without id key l).reverse

/-- The free memory narrows in order with the required memory, each time that an eviction compares
them: at the start, and after each entry as long as there was not enough. -/
def NarrowsInOrderThroughout (cfg : CacheConfig) (l : List Entry) (key : Key) (required : Int) :
    Prop :=
  ∀ n ≤ (evictable key l).length,
    (∀ k < n, free cfg l ((evictable key l).take k) < required) →
    NarrowsInOrder required (free cfg l ((evictable key l).take n))

end Lru

section Compared

variable {cfg : CacheConfig} {s : Containers} {l : List Entry} {key : Key} {w : Int64}

theorem toInt_foldl_addSize_bmod (evicted : List Entry) {a : Int32} {n : Int}
    (ha : a.toInt = n.bmod (2 ^ 32)) :
    (evicted.foldl (fun available e => addSize available e.size) a).toInt =
      (n + Lru.used evicted).bmod (2 ^ 32) := by
  induction evicted generalizing a n with
  | nil => exact ha.trans (congrArg (Int.bmod · (2 ^ 32)) (Int.add_zero n).symm)
  | cons e evicted ih =>
    have hsize := Lru.dvd_size e
    have hadd : (addSize a e.size).toInt = (n + Lru.size e).bmod (2 ^ 32) := by
      rw [toInt_addSize_bmod, ha, Int.bmod_def, Int.bmod_def, Int.bmod_def]
      omega
    rw [List.foldl_cons, ih hadd, Lru.used_cons, Int.add_assoc]

theorem toInt_availableMemory (hused : (s.usedMemory.toNat : Int) = Lru.used l)
    (evicted : List Entry) :
    (availableMemory cfg s evicted).toInt = (Lru.free cfg l evicted).bmod (2 ^ 32) := by
  unfold availableMemory Lru.free
  rw [← hused]
  exact toInt_foldl_addSize_bmod evicted (toInt_narrow_sub_bmod _ _)

/-- `get_required_memory` returns the required memory, narrowed. -/
theorem getRequiredMemory_bmod {σ : Type} {v : Virtuals σ} {c : σ} {old : Option CacheItem}
    (hold : v.getItem c key w = .ok old) (item : CacheItem) :
    ∃ m, getRequiredMemory v c key item w = .ok m ∧
      m.toInt = (Lru.memoryRequired key item old).bmod (2 ^ 32) := by
  unfold getRequiredMemory
  rw [hold]
  refine ⟨_, rfl, ?_⟩
  have hnew := Lru.dvd_size (item.entry key)
  rw [toInt_narrow_sub_bmod]
  unfold Lru.memoryRequired
  cases old with
  | none =>
    show ((getItemSize key item.dataSize).toNat - ((0 : UInt64).toNat : Int)).bmod (2 ^ 32) =
      (Lru.size (item.entry key) - 0).bmod (2 ^ 32)
    rw [Int.bmod_def, Int.bmod_def]
    change (2 ^ 64 : Int) ∣
      (getItemSize key item.dataSize).toNat - Lru.size (item.entry key) at hnew
    have h0 : (0 : UInt64).toNat = 0 := rfl
    omega
  | some o =>
    have hold' := Lru.dvd_size (o.entry key)
    show ((getItemSize key item.dataSize).toNat - ((getItemSize key o.dataSize).toNat : Int)).bmod
      (2 ^ 32) = (Lru.size (item.entry key) - Lru.size (o.entry key)).bmod (2 ^ 32)
    rw [Int.bmod_def, Int.bmod_def]
    change (2 ^ 64 : Int) ∣
      (getItemSize key item.dataSize).toNat - Lru.size (item.entry key) at hnew
    change (2 ^ 64 : Int) ∣ (getItemSize key o.dataSize).toNat - Lru.size (o.entry key) at hold'
    omega

/-- One comparison is the exact one exactly when its sides narrow in order. -/
theorem le_availableMemory_iff (hused : (s.usedMemory.toNat : Int) = Lru.used l) {m : Int32}
    {required : Int} (hm : m.toInt = required.bmod (2 ^ 32)) (evicted : List Entry) :
    (m ≤ availableMemory cfg s evicted ↔ required ≤ Lru.free cfg l evicted) ↔
      NarrowsInOrder required (Lru.free cfg l evicted) := by
  rw [Int32.le_iff_toInt_le, hm, toInt_availableMemory hused, bmod_le_bmod_iff]

end Compared

/-! ## The comparisons of a run -/

/-- `evict_lru_data(key, m)` takes the entries `gone` and leaves the evictable entries `rest`. -/
structure Evicts (cfg : CacheConfig) (s : Containers) (l : List Entry) (key : Key) (m : Int32)
    (s' : Containers) (gone rest : List Entry) : Prop where
  returns : s.evictLruData cfg key m = .ok s'
  order : Lru.evictable key l = gone ++ rest
  entries : s'.entries = .ok (l.filter fun e => decide (e ∉ gone))
  goes_on : ∀ n < gone.length, ¬ m ≤ availableMemory cfg s (gone.take n)
  stops : m ≤ availableMemory cfg s gone ∨ rest = []

theorem RepInv.evicts {cfg : CacheConfig} {s : Containers} {l : List Entry} (h : RepInv cfg s)
    (hl : s.entries = .ok l) (key : Key) (m : Int32) :
    ∃ s' gone rest, RepInv cfg s' ∧ Evicts cfg s l key m s' gone rest := by
  obtain ⟨l', hl', hkeys, hused⟩ := h.contents
  obtain rfl : l' = l := Except.ok.inj (hl'.symm.trans hl)
  obtain ⟨R, hR⟩ := h.represents
  obtain rfl : R.map Record.entry = l' := Except.ok.inj (hR.entries.symm.trans hl)
  obtain ⟨s', hs', hR'⟩ := hR.evictLruData key m
  obtain ⟨front, back, hcut, hsurv, hmore, hend⟩ :=
    Lru.survivors_cut id cfg key m (R.map Record.entry)
  -- the running total is that of the sizes in the list
  change s.usedMemory = ((R.map Record.entry).map fun e => (id e).size).sum at hused
  rw [← hused] at hmore hend
  have horder : Lru.evictable key (R.map Record.entry) =
      (back.filter fun e => !e.key == key).reverse ++
        (front.filter fun e => !e.key == key).reverse := by
    unfold Lru.evictable without
    rw [← List.reverse_append, ← List.filter_append, ← hcut]
    rfl
  have hentries : s'.entries = .ok ((R.map Record.entry).filter fun e =>
      decide (e ∉ (back.filter fun e => !e.key == key).reverse)) := by
    rw [hR'.entries, map_survivors, hsurv, hcut, filter_not_mem_cut (hcut ▸ hkeys.of_map)]
    rfl
  exact ⟨s', _, _, hR'.repInv, hs', horder, hentries, hmore,
    hend.imp_right fun hf => by rw [hf]; rfl⟩

namespace Evicts

variable {cfg : CacheConfig} {s s' : Containers} {l gone rest : List Entry} {key : Key} {m : Int32}
  {required : Int}

theorem take_evictable (h : Evicts cfg s l key m s' gone rest) {n : Nat} (hn : n ≤ gone.length) :
    (Lru.evictable key l).take n = gone.take n := by
  rw [h.order, List.take_append_of_le_length hn]

/-- All comparisons that are made are the exact ones exactly when their sides narrow in order. If
so, the walk is the exact one, and the other way round. -/
theorem exact_iff (h : Evicts cfg s l key m s' gone rest)
    (hused : (s.usedMemory.toNat : Int) = Lru.used l) (hm : m.toInt = required.bmod (2 ^ 32)) :
    (∀ n ≤ gone.length,
      (m ≤ availableMemory cfg s (gone.take n) ↔ required ≤ Lru.free cfg l (gone.take n))) ↔
      Lru.NarrowsInOrderThroughout cfg l key required := by
  have hlen : (Lru.evictable key l).length = gone.length + rest.length := by
    rw [h.order, List.length_append]
  constructor
  · intro hexact n hn hshort
    by_cases hle : n ≤ gone.length
    · rw [h.take_evictable hle]
      exact (le_availableMemory_iff hused hm _).mp (hexact n hle)
    · -- the run stopped before `n`, although there was not enough
      have hlast := hshort gone.length (Nat.not_le.mp hle)
      rw [h.take_evictable (Nat.le_refl _), List.take_length] at hlast
      have hexact := hexact gone.length (Nat.le_refl _)
      rw [List.take_length] at hexact
      rcases h.stops with hstop | rfl
      · exact absurd (hexact.mp hstop) (Int.not_le.mpr hlast)
      · rw [hlen, List.length_nil] at hn
        exact absurd hn hle
  · -- the condition on the `n`-th comparison needs the ones before it to be exact
    intro hcond n
    induction n using Nat.strong_induction_on with
    | _ n ih =>
      intro hn
      have hshort : ∀ k < n, Lru.free cfg l ((Lru.evictable key l).take k) < required := by
        intro k hk
        have hk' : k < gone.length := Nat.lt_of_lt_of_le hk hn
        rw [h.take_evictable (Nat.le_of_lt hk'), ← Int.not_le, ← ih k hk (Nat.le_of_lt hk')]
        exact h.goes_on k hk'
      have horder := hcond n (by omega) hshort
      rw [h.take_evictable hn] at horder
      exact (le_availableMemory_iff hused hm _).mpr horder

/-- Nothing is evicted when there is enough. -/
theorem eq_of_le (h : Evicts cfg s l key m s' gone rest)
    (hle : m ≤ availableMemory cfg s []) : s' = s := by
  have hs := h.returns
  unfold Containers.evictLruData at hs
  rw [if_pos] at hs
  · exact (Except.ok.inj hs).symm
  · exact hle

end Evicts

/-- With a cache size and a required memory that are `int`s all comparisons are exact, unless the
cache is over its size by more than an `int`. -/
theorem Lru.narrowsInOrderThroughout_of_int {cfg : CacheConfig} {l : List Entry} {required : Int}
    (hc : cfg.cacheSize.toNat < 2 ^ 31) (hl : used l ≤ cfg.cacheSize.toNat + 2 ^ 31)
    (hr : -2 ^ 31 ≤ required ∧ required < 2 ^ 31) (key : Key) :
    NarrowsInOrderThroughout cfg l key required := by
  intro n _ _
  have hle : used ((evictable key l).take n) ≤ used l := by
    refine Int.le_trans (used_sublist (List.take_sublist _ _)) ?_
    unfold evictable
    rw [used_reverse]
    exact used_sublist without_sublist
  have hpos := used_nonneg ((evictable key l).take n)
  refine narrowsInOrder_of_int hr ?_
  unfold free
  omega

/-- The comparisons of an eviction by `evict_lru_data`, for the memory that a write requires over
what `get_item` finds. -/
theorem RepInv.comparisons_exact_iff {σ : Type} {v : Virtuals σ} {c : σ} {cfg : CacheConfig}
    {s : Containers} {l : List Entry} {key : Key} {w : Int64} {old : Option CacheItem}
    (h : RepInv cfg s) (hl : s.entries = .ok l) (hused : (s.usedMemory.toNat : Int) = Lru.used l)
    (hold : v.getItem c key w = .ok old) (item : CacheItem) :
    ∃ m s' gone rest, getRequiredMemory v c key item w = .ok m ∧
      Evicts cfg s l key m s' gone rest ∧ RepInv cfg s' ∧
      ((∀ n ≤ gone.length, (m ≤ availableMemory cfg s (gone.take n) ↔
          Lru.memoryRequired key item old ≤ Lru.free cfg l (gone.take n))) ↔
        Lru.NarrowsInOrderThroughout cfg l key (Lru.memoryRequired key item old)) ∧
      (Lru.NarrowsInOrderThroughout cfg l key (Lru.memoryRequired key item old) →
        Lru.memoryRequired key item old ≤ Lru.free cfg l [] → s' = s) := by
  obtain ⟨m, hm, hbmod⟩ := getRequiredMemory_bmod hold item
  obtain ⟨s', gone, rest, h', hev⟩ := h.evicts hl key m
  have hiff := hev.exact_iff hused hbmod
  refine ⟨m, s', gone, rest, hm, hev, h', hiff, fun hcond hroom => hev.eq_of_le ?_⟩
  exact (hiff.mpr hcond 0 (Nat.zero_le _)).mpr hroom

/-- For a write that finds `old` under its key, `get_required_memory` and `evict_lru_data` return,
all comparisons that they make are the exact ones, and nothing is evicted when the free memory
suffices. -/
def EvictsExactly {σ : Type} (v : Virtuals σ) (c : σ) (cfg : CacheConfig) (s : Containers)
    (l : List Entry) (key : Key) (item : CacheItem) (w : Int64) (old : Option CacheItem) : Prop :=
  ∃ m s' gone rest, getRequiredMemory v c key item w = .ok m ∧
    Evicts cfg s l key m s' gone rest ∧ RepInv cfg s' ∧
    (∀ n ≤ gone.length, (m ≤ availableMemory cfg s (gone.take n) ↔
      Lru.memoryRequired key item old ≤ Lru.free cfg l (gone.take n))) ∧
    (Lru.memoryRequired key item old ≤ Lru.free cfg l [] → s' = s)

theorem RepInv.evictsExactly_iff {σ : Type} {v : Virtuals σ} {c : σ} {cfg : CacheConfig}
    {s : Containers} {l : List Entry} {key : Key} {w : Int64} {old : Option CacheItem}
    (h : RepInv cfg s) (hl : s.entries = .ok l) (hused : (s.usedMemory.toNat : Int) = Lru.used l)
    (hold : v.getItem c key w = .ok old) (item : CacheItem) :
    EvictsExactly v c cfg s l key item w old ↔
      Lru.NarrowsInOrderThroughout cfg l key (Lru.memoryRequired key item old) := by
  constructor
  · rintro ⟨m, s', gone, rest, hm, hev, -, hexact, -⟩
    obtain ⟨m', hm', hbmod⟩ := getRequiredMemory_bmod hold item
    cases hm.symm.trans hm'
    exact (hev.exact_iff hused hbmod).mp hexact
  · intro hcond
    obtain ⟨m, s', gone, rest, hm, hev, h', hiff, hroom⟩ :=
      h.comparisons_exact_iff hl hused hold item
    exact ⟨m, s', gone, rest, hm, hev, h', hiff.mpr hcond, hroom hcond⟩

/-! ## The configurations whose comparisons are exact -/

/-- The number is an `int`. -/
def IsInt (n : Int) : Prop := -2 ^ 31 ≤ n ∧ n < 2 ^ 31

instance (n : Int) : Decidable (IsInt n) := inferInstanceAs (Decidable (_ ∧ _))

/-- All accepted writes of the storage that require an `int`, in states that are over the cache size
by at most an `int`, evict exactly. -/
def WritesEvictExactly (cfg : CacheConfig) : Prop :=
  ∀ (s : CacheStorage) (l : List Entry) (key : Key) (item : CacheItem) (w : Int64)
    (old : Option (Node CacheItem)),
    RepInv cfg s.toContainers → s.entries = .ok l → (s.usedMemory.toNat : Int) = Lru.used l →
    Lru.used l ≤ cfg.cacheSize.toNat + 2 ^ 31 → rejection cfg key item w = none →
    s.toContainers.getItem key w = .ok old →
    IsInt (Lru.memoryRequired key item (old.map Node.val)) →
    EvictsExactly (CacheStorage.virtuals cfg) s cfg s.toContainers l key item w (old.map Node.val)

/-- The same for the writes of the overlay, whose old item may be a frozen one. -/
def SnapshotWritesEvictExactly (cfg : CacheConfig) : Prop :=
  ∀ (frozen : Containers) (s : SnapshotStorage) (l : List Entry) (key : Key) (item : CacheItem)
    (w : Int64) (found : Option Found),
    RepInv cfg s.toContainers → s.entries = .ok l → (s.usedMemory.toNat : Int) = Lru.used l →
    Lru.used l ≤ cfg.cacheSize.toNat + 2 ^ 31 → rejection cfg key item w = none →
    s.getItem frozen key w = .ok found →
    IsInt (Lru.memoryRequired key item (found.map fun f => f.node.val)) →
    EvictsExactly (SnapshotStorage.virtuals cfg frozen) s cfg s.toContainers l key item w
      (found.map fun f => f.node.val)

section Converse

variable {cfg : CacheConfig}

/-- The key of no bytes, which every configuration admits. -/
def emptyKey : Key := ⟨[], Nat.two_pow_pos 62⟩

theorem rejection_emptyKey {item : CacheItem} (h : 0 < item.expiresAt) :
    rejection cfg emptyKey item 0 = none :=
  Lru.rejection_eq_none_iff.mpr ⟨Nat.zero_le _, h⟩

theorem size_emptyKey {n : Nat} (h : n < 2 ^ 63) (t : Int64) :
    Lru.size ((Sample.item n h t).entry emptyKey) = 48 + n := by
  have hn : (UInt64.ofNat n).toNat = n := UInt64.toNat_ofNat_of_lt (Nat.lt_trans h (by decide))
  show 40 + 8 + ((UInt64.ofNat n).toNat : Int) + (0 : Nat) = 48 + n
  rw [hn]
  omega

/-- A write that requires the largest `int`, and finds it free, is decided rightly only when the
free memory narrows to the largest `int` too. -/
theorem WritesEvictExactly.bmod_free (hexact : WritesEvictExactly cfg) {s : CacheStorage}
    {l : List Entry} {item : CacheItem} {old : Option (Node CacheItem)}
    (h : RepInv cfg s.toContainers) (hl : s.entries = .ok l)
    (hused : (s.usedMemory.toNat : Int) = Lru.used l) (hitem : 0 < item.expiresAt)
    (hold : s.toContainers.getItem emptyKey 0 = .ok old)
    (hrequired : Lru.memoryRequired emptyKey item (old.map Node.val) = 2 ^ 31 - 1)
    (hfree : 2 ^ 31 - 1 ≤ Lru.free cfg l []) :
    2 ^ 31 - 1 ≤ (Lru.free cfg l []).bmod (2 ^ 32) := by
  have hle : Lru.used l ≤ cfg.cacheSize.toNat + 2 ^ 31 := by
    have hnil : Lru.used [] = 0 := rfl
    unfold Lru.free at hfree
    omega
  have hev := hexact s l emptyKey item 0 old h hl hused hle (rejection_emptyKey hitem) hold
    (by rw [hrequired]; decide)
  have hcond := (h.evictsExactly_iff (v := CacheStorage.virtuals cfg) hl hused
    (Run.bind_eq_ok.mpr ⟨_, hold, rfl⟩) item).mp hev
  have hfirst := hcond 0 (Nat.zero_le _) fun k hk => absurd hk (Nat.not_lt_zero k)
  have hself : (2 ^ 31 - 1 : Int).bmod (2 ^ 32) = 2 ^ 31 - 1 := by decide
  rw [List.take_zero, ← bmod_le_bmod_iff, hrequired, hself] at hfirst
  exact hfirst.mpr hfree

/-- The state behind a write of an item without bytes under the key without bytes. -/
theorem exists_single (hi : cfg.purgeInterval ≠ 0) :
    ∃ (s : CacheStorage) (old : Node CacheItem), RepInv cfg s.toContainers ∧
      s.entries = .ok [(Sample.item 0 (by decide) 1).entry emptyKey] ∧
      (s.usedMemory.toNat : Int) = Lru.used [(Sample.item 0 (by decide) 1).entry emptyKey] ∧
      s.toContainers.getItem emptyKey 0 = .ok (some old) ∧
      old.val.entry emptyKey = (Sample.item 0 (by decide) 1).entry emptyKey := by
  have hsafe : SafeRun cfg [.commitWrite emptyKey (Sample.item 0 (by decide) 1) 0] := by
    refine ⟨fun _ => ?_, fun _ _ _ => trivial⟩
    exact (Represents.empty cfg).writable_iff.mpr fun _ hr => absurd hr List.not_mem_nil
  have haccepted : rejection cfg emptyKey (Sample.item 0 (by decide) 1) 0 = none :=
    rejection_emptyKey (by decide)
  have hcontents : (Run.exec (Contents.step cfg) []
      [.commitWrite emptyKey (Sample.item 0 (by decide) 1) 0]).2 =
      [(Sample.item 0 (by decide) 1).entry emptyKey] := by
    simp only [Run.exec, Contents.step, haccepted]
    rw [writeSurvivors, List.eq_nil_of_sublist_nil survivors_sublist]
    rfl
  obtain ⟨s, -, R, hR, hentries⟩ := hsafe.exec hi
  rw [hcontents] at hentries
  obtain ⟨r, rfl, hr⟩ := List.map_eq_singleton_iff.mp hentries
  have hkey : r.key = emptyKey := congrArg Entry.key hr
  have hfound : lookup Record.entry emptyKey 0 [r] = some r := by
    rw [lookup, List.find?_cons, hr]
    rfl
  refine ⟨s, r.itemNode, hR.repInv, ?_, ?_, ?_, ?_⟩
  · rw [← hr]
    exact hR.entries
  · rw [← hentries]
    exact hR.toNat_usedMemory (by rw [hentries]; decide)
  · rw [hR.getItem, hfound]
    rfl
  · rw [← hr, ← hkey]
    rfl

/-- From a cache size of `2 ^ 31` on some comparison is wrong: in the empty cache, unless the cache
size narrows to the largest `int`, and then in a cache with one item. -/
theorem WritesEvictExactly.cacheSize_lt (hi : cfg.purgeInterval ≠ 0)
    (hexact : WritesEvictExactly cfg) : cfg.cacheSize.toNat < 2 ^ 31 := by
  by_contra hc
  have hempty : Lru.free cfg [] [] = cfg.cacheSize.toNat := by
    show (cfg.cacheSize.toNat : Int) - 0 + 0 = _
    omega
  have hone : Lru.free cfg [(Sample.item 0 (by decide) 1).entry emptyKey] [] =
      cfg.cacheSize.toNat - 48 := by
    show (cfg.cacheSize.toNat : Int) - 48 + 0 = _
    omega
  have hnarrow : 2 ^ 31 - 1 ≤ (cfg.cacheSize.toNat : Int).bmod (2 ^ 32) := by
    have hrequired : Lru.memoryRequired emptyKey (Sample.item (2 ^ 31 - 49) (by decide) 1)
        ((none : Option (Node CacheItem)).map Node.val) = 2 ^ 31 - 1 := by
      show Lru.size _ - 0 = _
      rw [size_emptyKey]
      decide
    have h := hexact.bmod_free (s := .new) (l := []) (Represents.empty cfg).repInv rfl rfl
      (by show (0 : Int64) < 1; decide) rfl hrequired (by rw [hempty]; omega)
    rwa [hempty] at h
  obtain ⟨s, old, h, hl, hused, hold, hentry⟩ := exists_single hi
  have hrequired : Lru.memoryRequired emptyKey (Sample.item (2 ^ 31 - 1) (by decide) 1)
      ((some old).map Node.val) = 2 ^ 31 - 1 := by
    show Lru.size _ - Lru.size (old.val.entry emptyKey) = _
    rw [hentry, size_emptyKey, size_emptyKey]
    decide
  rw [Int.bmod_def] at hnarrow
  have h48 := hexact.bmod_free h hl hused (by show (0 : Int64) < 1; decide) hold hrequired
    (by rw [hone]; omega)
  rw [hone, Int.bmod_def] at h48
  omega

end Converse

/-- For accepted writes that require an `int`, in states with the representation invariant that are
over the cache size by at most an `int`, the comparisons that decide on the eviction are the exact
ones exactly when the cache size is less than `2 ^ 31`. The writes of the overlay are then exact,
too. -/
theorem evictions_exact_iff {cfg : CacheConfig} (hi : cfg.purgeInterval ≠ 0) :
    (WritesEvictExactly cfg ↔ cfg.cacheSize.toNat < 2 ^ 31) ∧
      (cfg.cacheSize.toNat < 2 ^ 31 → SnapshotWritesEvictExactly cfg) := by
  refine ⟨⟨fun h => h.cacheSize_lt hi, fun hc => ?_⟩, fun hc => ?_⟩
  · intro s l key item w old h hl hused hle _ hold hint
    exact (h.evictsExactly_iff (v := CacheStorage.virtuals cfg) hl hused
      (Run.bind_eq_ok.mpr ⟨_, hold, rfl⟩) item).mpr
      (Lru.narrowsInOrderThroughout_of_int hc hle hint key)
  · intro frozen s l key item w found h hl hused hle _ hfound hint
    exact (h.evictsExactly_iff (v := SnapshotStorage.virtuals cfg frozen) hl hused
      (Run.bind_eq_ok.mpr ⟨_, hfound, rfl⟩) item).mpr
      (Lru.narrowsInOrderThroughout_of_int hc hle hint key)

/-- With 326 of 1024 bytes free, a write that requires 549 takes the exact decisions. -/
theorem evictions_exact_twoItems :
    ∃ answers s l,
      CacheStorage.run Sample.config .new Sample.twoItems = .ok (answers, s) ∧
      RepInv Sample.config s.toContainers ∧ s.entries = .ok l ∧
      s.toContainers.getItem (Sample.key 3) 120 = .ok none ∧
      Lru.memoryRequired (Sample.key 3) (Sample.zeros 500 500) none = 549 ∧
      Lru.free Sample.config l [] = 326 ∧
      EvictsExactly (CacheStorage.virtuals Sample.config) s Sample.config s.toContainers l
        (Sample.key 3) (Sample.zeros 500 500) 120 none := by
  have hsafe : SafeRun Sample.config Sample.twoItems := by decide +kernel
  obtain ⟨_, s₀, hs₀, R₀, hR₀⟩ := Represents.of_safeRun (by decide) hsafe
  have h : (do
      let r ← CacheStorage.run Sample.config .new Sample.twoItems
      let l ← r.2.entries
      let old ← r.2.toContainers.getItem (Sample.key 3) 120
      return decide ((r.2.usedMemory.toNat : Int) = Lru.used l ∧ Lru.used l ≤ 1024 ∧ old = none ∧
        Lru.free Sample.config l [] = 326)) = .ok true := by
    decide +kernel
  obtain ⟨⟨answers, s⟩, hrun, h⟩ := Run.bind_eq_ok.mp h
  cases hs₀.symm.trans hrun
  obtain ⟨l, hl, h⟩ := Run.bind_eq_ok.mp h
  obtain ⟨old, hold, h⟩ := Run.bind_eq_ok.mp h
  obtain ⟨hused, hfits, rfl, hfree⟩ := of_decide_eq_true (Except.ok.inj h)
  have hsize : Sample.config.cacheSize.toNat = 1024 := rfl
  have hrequired : Lru.memoryRequired (Sample.key 3) (Sample.zeros 500 500) none = 549 := by decide
  refine ⟨_, s₀, l, hrun, hR₀.repInv, hl, hold, hrequired, hfree, ?_⟩
  exact (evictions_exact_iff (by decide)).1.mpr (by decide) s₀ l _ _ _ none hR₀.repInv hl hused
    (by omega) (by decide) hold (by rw [Option.map_none, hrequired]; decide)

/-- Room in the overlay in sizes: what the write requires is at most what the overlay leaves free of
the cache size, or the overlay holds no other key. -/
theorem SnapshotStorage.hasRoom_iff {cfg : CacheConfig} {frozen : Containers} {s : SnapshotStorage}
    {l : List Entry} {key : Key} {item : CacheItem} {w : Int64} {found : Option Found}
    (h : RepInv cfg s.toContainers) (hl : s.entries = .ok l)
    (hused : (s.usedMemory.toNat : Int) = Lru.used l) (hc : cfg.cacheSize.toNat < 2 ^ 31)
    (hle : Lru.used l ≤ cfg.cacheSize.toNat + 2 ^ 31) (hfound : s.getItem frozen key w = .ok found)
    (hint : IsInt (Lru.memoryRequired key item (found.map fun f => f.node.val))) :
    s.HasRoom cfg frozen key item w ↔
      Lru.memoryRequired key item (found.map fun f => f.node.val) ≤
        cfg.cacheSize.toNat - Lru.used l ∨ ∀ e ∈ l, e.key = key := by
  obtain ⟨R, hR⟩ := h.represents
  obtain rfl : R.map Record.entry = l := Except.ok.inj (hR.entries.symm.trans hl)
  obtain ⟨m, hm, hbmod⟩ := getRequiredMemory_bmod (v := SnapshotStorage.virtuals cfg frozen)
    (Run.bind_eq_ok.mpr ⟨_, hfound, rfl⟩) item
  have hpos := Lru.used_nonneg (R.map Record.entry)
  have hfree : Lru.free cfg (R.map Record.entry) [] =
      cfg.cacheSize.toNat - Lru.used (R.map Record.entry) := Int.add_zero _
  have horder := narrowsInOrder_of_int hint
    (b := cfg.cacheSize.toNat - Lru.used (R.map Record.entry)) ⟨by omega, by omega⟩
  rw [← hfree, ← le_availableMemory_iff hused hbmod] at horder
  rw [← hfree, ← horder]
  refine or_congr ⟨?_, fun hroom => ⟨m, hm, hroom⟩⟩ ⟨fun hall e he => ?_, fun hall e he => ?_⟩
  · rintro ⟨m', hm', hroom⟩
    cases hm.symm.trans hm'
    exact hroom
  · obtain ⟨r, hr, rfl⟩ := List.mem_map.mp he
    exact hall _ (hR.map.mem hr)
  · obtain ⟨r, hr, rfl⟩ := (hR.map.entries e).mp he
    exact hall r.entry (List.mem_map_of_mem hr)

/-- A cache of 4 GiB. -/
def Sample.largeConfig : CacheConfig := ⟨4294967296, 512, 64, 60⟩

/-- The second of two small writes evicts the first, although nearly all of the 4 GiB are free. -/
theorem large_cache_evicts :
    Sample.largeConfig.Loadable ∧
    ∃ answers s l s',
      CacheStorage.run Sample.largeConfig .new
        [.commitWrite (Sample.key 1) (Sample.zeros 3 500) 100] = .ok (answers, s) ∧
      s.entries = .ok l ∧ l = [(Sample.zeros 3 500).entry (Sample.key 1)] ∧
      (s.usedMemory.toNat : Int) = Lru.used l ∧
      s.toContainers.getItem (Sample.key 2) 110 = .ok none ∧
      Lru.memoryRequired (Sample.key 2) (Sample.zeros 3 500) none ≤
        Lru.free Sample.largeConfig l [] ∧
      s.commitWrite Sample.largeConfig (Sample.key 2) (Sample.zeros 3 500) 110 =
        .ok (true, s') ∧
      s'.entries = .ok [(Sample.zeros 3 500).entry (Sample.key 2)] := by
  refine ⟨CacheConfig.loadable_iff.mpr (by decide), ?_⟩
  have h : (do
      let r ← CacheStorage.run Sample.largeConfig .new
        [.commitWrite (Sample.key 1) (Sample.zeros 3 500) 100]
      let l ← r.2.entries
      let w ← r.2.commitWrite Sample.largeConfig (Sample.key 2) (Sample.zeros 3 500) 110
      return decide (l = [(Sample.zeros 3 500).entry (Sample.key 1)] ∧
        (r.2.usedMemory.toNat : Int) = Lru.used l ∧
        r.2.toContainers.getItem (Sample.key 2) 110 = Except.ok none ∧
        Lru.memoryRequired (Sample.key 2) (Sample.zeros 3 500) none ≤
          Lru.free Sample.largeConfig l [] ∧ w.1 = true ∧
        w.2.entries = Except.ok [(Sample.zeros 3 500).entry (Sample.key 2)])) = .ok true := by
    decide +kernel
  obtain ⟨⟨answers, s⟩, hrun, h⟩ := Run.bind_eq_ok.mp h
  obtain ⟨l, hl, h⟩ := Run.bind_eq_ok.mp h
  obtain ⟨⟨b, s'⟩, hs', h⟩ := Run.bind_eq_ok.mp h
  obtain ⟨hone, hused, hget, hroom, rfl, hentries⟩ := of_decide_eq_true (Except.ok.inj h)
  exact ⟨answers, s, l, s', hrun, hl, hone, hused, hget, hroom, hs', hentries⟩

end LruCache
