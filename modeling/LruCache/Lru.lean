import LruCache.Commits
import LruCache.PurgeTime

/-!
# The abstract cache

The cache as its documentation describes it: a list of entries, most recently used first, and sizes
that are plain integers. A read moves its entry to the front. A write drops entries from the back
until the new value fits, passing over its own key, and puts the value at the front. A purge drops
what expired before the last multiple of the purge interval.

The source counts in `size_t` and `int`, and its purge times are `time_t`. As long as the cache size
and the total of the stored sizes fit in an `int`, `cache_storage` gives the answers of the abstract
cache and keeps its list, except that a purge takes an item whose purge time overflows
(`run_refines_lru`).
-/

namespace LruCache

namespace Lru

/-- The size of an entry: a `cache_item`, an iterator, the data and the key. -/
def size (e : Entry) : Int := 40 + 8 + e.dataSize.toNat + e.key.bytes.length

/-- The memory that the entries use. -/
def used (l : List Entry) : Int := (l.map size).sum

/-- Drop entries from the back, passing over `key`, until `required` is free. -/
def evict (cacheSize : Int) (key : Key) (required : Int) (l : List Entry) : List Entry :=
  Recency.evict (fun e => e.key == key) (fun free e => free + size e)
    (fun free => decide (required ≤ free)) (cacheSize - used l) l

/-- What a write of `e` at time `t` needs on top of the entry it replaces. -/
def required (e : Entry) (t : Int64) (l : List Entry) : Int :=
  size e - ((lookup id e.key t l).map size).getD 0

/-- One call on the abstract cache. -/
def step (cfg : CacheConfig) (l : List Entry) : StorageOp → Option Bool × List Entry
  | .commitRead key readAt =>
    if (lookup id key readAt l).isSome then (some true, touch id key l) else (some false, l)
  | .commitWrite key item writtenAt =>
    if key.bytes.length ≤ cfg.maxKeySize.toNat ∧ writtenAt < item.expiresAt then
      (some true, item.entry key :: without id key
        (evict cfg.cacheSize.toNat key (required (item.entry key) writtenAt l) l))
    else (some false, l)
  | .commitPurge purgedAt =>
    (none, l.filter fun e => decide (lastPurge cfg.purgeInterval purgedAt ≤ e.expiresAt.toInt))
  | .evictLruData key memoryRequired =>
    (none, evict cfg.cacheSize.toNat key memoryRequired.toInt l)
  | .clear => (none, [])

/-- The total size fits in an `int`. -/
def Fits (l : List Entry) : Prop := used l < 2 ^ 31

instance (l : List Entry) : Decidable (Fits l) := inferInstanceAs (Decidable (_ < _))

/-- The next multiple of the purge interval is a `time_t`. -/
def NextFits (cfg : CacheConfig) (t : Int64) : Prop :=
  (t.toInt / cfg.purgeInterval.toInt + 1) * cfg.purgeInterval.toInt < 2 ^ 63

instance (cfg : CacheConfig) (t : Int64) : Decidable (NextFits cfg t) :=
  inferInstanceAs (Decidable (_ < _))

/-- A purge, if it is one, has no time before zero, neither its own nor a stored one, and its own
next multiple is a `time_t`. -/
def PurgeFromZero (cfg : CacheConfig) (l : List Entry) : StorageOp → Prop
  | .commitPurge purgedAt => 0 ≤ purgedAt ∧ NextFits cfg purgedAt ∧ ∀ e ∈ l, 0 ≤ e.expiresAt
  | _ => True

/-- A purge, if it is one, finds only items whose next multiple is a `time_t`. -/
def PurgeFits (cfg : CacheConfig) (l : List Entry) : StorageOp → Prop
  | .commitPurge _ => ∀ e ∈ l, NextFits cfg e.expiresAt
  | _ => True

instance (cfg : CacheConfig) (l : List Entry) :
    (op : StorageOp) → Decidable (PurgeFromZero cfg l op)
  | .commitPurge _ => inferInstanceAs (Decidable (_ ∧ _ ∧ _))
  | .commitRead _ _ | .commitWrite _ _ _ | .evictLruData _ _ | .clear => .isTrue trivial

instance (cfg : CacheConfig) (l : List Entry) : (op : StorageOp) → Decidable (PurgeFits cfg l op)
  | .commitPurge _ => inferInstanceAs (Decidable (∀ e ∈ l, _))
  | .commitRead _ _ | .commitWrite _ _ _ | .evictLruData _ _ | .clear => .isTrue trivial

end Lru

/-! ## Narrowing to `int` -/

theorem toInt_narrow (x : UInt64) : (narrow x).toInt = (x.toNat : Int).bmod (2 ^ 32) := by
  have h : x.toInt64.toInt = (x.toNat : Int).bmod (2 ^ 64) := BitVec.toInt_eq_toNat_bmod x.toBitVec
  unfold narrow
  rw [Int64.toInt_toInt32, h, Int.bmod_bmod_of_dvd (by decide)]

/-- Only the value modulo `2 ^ 32` counts. -/
theorem toInt_narrow_of_dvd {x : UInt64} {n : Int} (h : (2 ^ 32 : Int) ∣ x.toNat - n) :
    (narrow x).toInt = n.bmod (2 ^ 32) := by
  rw [toInt_narrow, Int.bmod_def, Int.bmod_def]
  omega

/-- An `int` is left as it is. -/
theorem bmod_eq_self_iff {n : Int} :
    n.bmod (2 ^ 32) = n ↔ -2 ^ 31 ≤ n ∧ n < 2 ^ 31 := by
  rw [Int.bmod_def]
  omega

theorem toInt_narrow_sub_bmod (a b : UInt64) :
    (narrow (a - b)).toInt = ((a.toNat : Int) - b.toNat).bmod (2 ^ 32) := by
  refine toInt_narrow_of_dvd ?_
  have hb := b.toNat_lt
  rw [UInt64.toNat_sub]
  omega

theorem toInt_narrow_sub {a b : UInt64}
    (h : -2 ^ 31 ≤ (a.toNat : Int) - b.toNat ∧ (a.toNat : Int) - b.toNat < 2 ^ 31) :
    (narrow (a - b)).toInt = a.toNat - b.toNat :=
  (toInt_narrow_sub_bmod a b).trans (bmod_eq_self_iff.mpr h)

theorem dvd_widen (a : Int32) : (2 ^ 64 : Int) ∣ a.toInt64.toUInt64.toNat - a.toInt := by
  have h : a.toInt64.toInt = (a.toInt64.toUInt64.toNat : Int).bmod (2 ^ 64) :=
    BitVec.toInt_eq_toNat_bmod a.toInt64.toBitVec
  rw [Int32.toInt_toInt64, Int.bmod_def] at h
  omega

theorem toInt_addSize_bmod (a : Int32) (b : UInt64) :
    (addSize a b).toInt = (a.toInt + b.toNat).bmod (2 ^ 32) := by
  refine toInt_narrow_of_dvd ?_
  have hw := dvd_widen a
  rw [UInt64.toNat_add]
  omega

theorem toInt_addSize {a : Int32} {b : UInt64} (h : a.toInt + b.toNat < 2 ^ 31) :
    (addSize a b).toInt = a.toInt + b.toNat := by
  have hle := Int32.le_toInt a
  exact (toInt_addSize_bmod a b).trans (bmod_eq_self_iff.mpr ⟨by omega, h⟩)

/-! ## Sizes and totals -/

namespace Lru

variable {cfg : CacheConfig} {l : List Entry} {e : Entry} {key : Key}

theorem size_nonneg (e : Entry) : 0 ≤ size e := by
  unfold size
  omega

theorem used_cons (e : Entry) (l : List Entry) : used (e :: l) = size e + used l := List.sum_cons

theorem used_nonneg (l : List Entry) : 0 ≤ used l := by
  induction l with
  | nil => exact Int.le_refl 0
  | cons e l ih =>
    have := size_nonneg e
    rw [used_cons]
    omega

theorem size_le_used (h : e ∈ l) : size e ≤ used l := by
  induction l with
  | nil => exact absurd h List.not_mem_nil
  | cons x l ih =>
    have hx := size_nonneg x
    have hl := used_nonneg l
    rw [used_cons]
    rcases List.mem_cons.mp h with rfl | h
    · omega
    · have := ih h
      omega

theorem used_reverse (l : List Entry) : used l.reverse = used l := by
  unfold used
  rw [List.map_reverse, List.sum_reverse]

/-- A size is computed modulo `2 ^ 64`. -/
theorem dvd_size (e : Entry) : (2 ^ 64 : Int) ∣ e.size.toNat - size e := by
  have hk := e.key.length_lt
  unfold size
  simp only [Entry.size, getItemSize, sizeofCacheItem, sizeofItemIterator, Key.size,
    UInt64.toNat_add, UInt64.toNat_ofNat']
  simp only [UInt64.reduceToNat]
  omega

/-- A size that fits in a `size_t` is computed exactly. -/
theorem toNat_size (h : size e < 2 ^ 64) : (e.size.toNat : Int) = size e := by
  have hd := dvd_size e
  have hpos := size_nonneg e
  have hlt := e.size.toNat_lt
  omega

/-- So is a total that fits. -/
theorem toNat_sum_size (h : Fits l) : ((l.map Entry.size).sum.toNat : Int) = used l := by
  induction l with
  | nil => rfl
  | cons e l ih =>
    have he := size_nonneg e
    have hl := used_nonneg l
    unfold Fits at h ih
    rw [used_cons] at h ⊢
    have h1 := toNat_size (e := e) (by omega)
    have h2 := ih (by omega)
    rw [List.map_cons, List.sum_cons, UInt64.toNat_add]
    omega

/-! ## The abstract operations -/

/-- The eviction of the source is the exact one. Walking from the back, the free memory never passes
the cache size. -/
theorem survivors_eq_evict (hc : cfg.cacheSize.toNat < 2 ^ 31) (hl : Fits l) (m : Int32) :
    survivors id cfg key m l = evict cfg.cacheSize.toNat key m.toInt l := by
  have hused := toNat_sum_size hl
  have hpos := used_nonneg l
  unfold Fits at hl
  have hfree : (narrow (cfg.cacheSize - (l.map Entry.size).sum)).toInt =
      cfg.cacheSize.toNat - used l := by
    rw [toInt_narrow_sub (by omega), hused]
  have hstop : ∀ {b : Int32} {b' : Int}, b.toInt = b' → decide (b ≥ m) = decide (m.toInt ≤ b') := by
    rintro b _ rfl
    exact decide_eq_decide.mpr Int32.le_iff_toInt_le
  have hwalk : Recency.reclaim (fun e : Entry => e.key == key)
      (fun available e => addSize available e.size) (fun available => decide (available ≥ m))
      (narrow (cfg.cacheSize - (l.map Entry.size).sum)) l.reverse =
      Recency.reclaim (fun e => e.key == key) (fun free e => free + size e)
        (fun free => decide (m.toInt ≤ free)) (cfg.cacheSize.toNat - used l) l.reverse := by
    refine Recency.reclaim_congr (fun ahead b b' => b.toInt = b' ∧ b' + used ahead < 2 ^ 31)
      ?_ ?_ (fun _ _ _ h => hstop h.1) ⟨hfree, ?_⟩
    · rintro x xs b b' ⟨hb, hlt⟩
      have := size_nonneg x
      rw [used_cons] at hlt
      exact ⟨hb, by omega⟩
    · rintro x xs b b' ⟨hb, hlt⟩
      have hxs := used_nonneg xs
      have hle := Int32.le_toInt b
      rw [used_cons] at hlt
      have hsize := toNat_size (e := x) (by omega)
      have hadd : (addSize b x.size).toInt = b.toInt + x.size.toNat := toInt_addSize (by omega)
      exact ⟨by rw [← hb, ← hsize]; exact hadd, by omega⟩
    · rw [used_reverse]
      omega
  unfold survivors evict Recency.evict
  simp only [id_eq]
  rw [hstop hfree, hwalk]

/-- The required memory that the source computes is the exact one. -/
theorem toInt_requiredMemory (hl : Fits l) {item : CacheItem} {t : Int64}
    (hnew : size (item.entry key) < 2 ^ 31) :
    (requiredMemory id key item.dataSize t l).toInt = required (item.entry key) t l := by
  have hnew' : ((getItemSize key item.dataSize).toNat : Int) = size (item.entry key) :=
    toNat_size (e := item.entry key) (by omega)
  have hpos := size_nonneg (item.entry key)
  unfold requiredMemory required
  show _ = size (item.entry key) - ((lookup id key t l).map size).getD 0
  unfold Fits at hl
  cases hf : lookup id key t l with
  | none =>
    have h0 : ((0 : UInt64).toNat : Int) = 0 := rfl
    show (narrow (getItemSize key item.dataSize - 0)).toInt = size (item.entry key) - 0
    rw [toInt_narrow_sub (by omega), hnew', h0]
  | some old =>
    have hold := size_le_used (lookup_eq_some_key hf).1
    have hold0 := size_nonneg old
    have hold' := toNat_size (e := old) (by omega)
    show (narrow (getItemSize key item.dataSize - old.size)).toInt =
      size (item.entry key) - size old
    rw [toInt_narrow_sub (by omega), hnew', hold']

/-- The checks of `commit_write`; the one on the data size never fails. -/
theorem rejection_eq_none_iff {item : CacheItem} {w : Int64} :
    rejection cfg key item w = none ↔
      key.bytes.length ≤ cfg.maxKeySize.toNat ∧ w < item.expiresAt := by
  have hk := key.length_lt
  have hsize : key.size > cfg.maxKeySize ↔ ¬ key.bytes.length ≤ cfg.maxKeySize.toNat := by
    unfold Key.size
    rw [gt_iff_lt, UInt64.lt_iff_toNat_lt, UInt64.toNat_ofNat']
    omega
  have hdata : ¬ item.dataSize < 0 := by
    rw [UInt64.lt_iff_toNat_lt]
    exact Nat.not_lt_zero _
  have hexp : item.isExpired w = true ↔ ¬ w < item.expiresAt := by
    rw [CacheItem.isExpired, decide_eq_true_eq, Int64.not_lt]
  unfold rejection
  rw [if_neg hdata]
  by_cases h1 : key.size > cfg.maxKeySize
  · rw [if_pos h1]
    exact ⟨(fun h => nomatch h), fun h => absurd h.1 (hsize.mp h1)⟩
  · rw [if_neg h1]
    have hle := not_not.mp fun h => h1 (hsize.mpr h)
    by_cases h2 : item.isExpired w = true
    · rw [if_pos h2]
      exact ⟨(fun h => nomatch h), fun h => absurd h.2 (hexp.mp h2)⟩
    · rw [if_neg h2]
      exact ⟨fun _ => ⟨hle, not_not.mp fun h => h2 (hexp.mpr h)⟩, fun _ => rfl⟩

/-- A purge from zero on takes what it should exactly when no bucket has overflowed. -/
theorem purge_eq_iff (hi : 0 < cfg.purgeInterval.toInt) {p : Int64}
    (hzero : PurgeFromZero cfg l (.commitPurge p)) :
    Contents.step cfg l (.commitPurge p) = step cfg l (.commitPurge p) ↔
      PurgeFits cfg l (.commitPurge p) := by
  obtain ⟨hp, -, hexp⟩ := hzero
  have hp := Int64.le_iff_toInt_le.mp hp
  have hexp : ∀ e ∈ l, 0 ≤ e.expiresAt.toInt := fun e he => Int64.le_iff_toInt_le.mp (hexp e he)
  simp only [Contents.step, step, PurgeFits, Prod.mk.injEq, true_and]
  constructor
  · intro heq e he
    by_contra hover
    obtain ⟨hgone, hkept⟩ := overflown_purged hi hp (hexp e he) hover
    have hmem : e ∈ l.filter fun e =>
        decide (lastPurge cfg.purgeInterval p ≤ e.expiresAt.toInt) :=
      List.mem_filter.mpr ⟨he, decide_eq_true hkept⟩
    rw [← heq] at hmem
    exact hgone (of_decide_eq_true (List.mem_filter.mp hmem).2)
  · intro hfits
    exact List.filter_congr fun e he => decide_eq_decide.mpr
      (RoundsUp.unpurged_iff hp ⟨hi, .inl (hexp e he), hfits e he⟩)

/-- Between totals that fit, the step on the contents is the abstract step, unless it is a purge
that finds a bucket that has overflowed. -/
theorem step_eq_iff (hi : 0 < cfg.purgeInterval.toInt) (hc : cfg.cacheSize.toNat < 2 ^ 31)
    (hl : Fits l) {op : StorageOp} (hl' : Fits (step cfg l op).2) (hzero : PurgeFromZero cfg l op) :
    Contents.step cfg l op = step cfg l op ↔ PurgeFits cfg l op := by
  cases op with
  | commitRead key t =>
    refine iff_of_true ?_ trivial
    simp only [Contents.step, step]
    cases lookup id key t l <;> rfl
  | commitWrite key item w =>
    refine iff_of_true ?_ trivial
    simp only [Contents.step, step] at hl' ⊢
    cases hrej : rejection cfg key item w with
    | some code =>
      have hcond : ¬ (key.bytes.length ≤ cfg.maxKeySize.toNat ∧ w < item.expiresAt) := by
        rw [← rejection_eq_none_iff, hrej]
        exact Option.some_ne_none code
      rw [if_neg hcond]
    | none =>
      have hcond := rejection_eq_none_iff.mp hrej
      rw [if_pos hcond] at hl' ⊢
      have hnew : size (item.entry key) < 2 ^ 31 :=
        Int.lt_of_le_of_lt (size_le_used List.mem_cons_self) hl'
      rw [writeSurvivors, survivors_eq_evict hc hl, toInt_requiredMemory hl hnew]
  | commitPurge p => exact purge_eq_iff hi hzero
  | evictLruData key m =>
    refine iff_of_true ?_ trivial
    simp only [Contents.step, step]
    rw [survivors_eq_evict hc hl]
  | clear => exact iff_of_true rfl trivial

end Lru

/-- With a total that fits `used_memory_` is exact. -/
theorem Represents.toNat_usedMemory {cfg : CacheConfig} {s : Containers} {R : List Record}
    (h : Represents cfg s R) (hfits : Lru.Fits (R.map Record.entry)) :
    (s.usedMemory.toNat : Int) = Lru.used (R.map Record.entry) := by
  rw [← Lru.toNat_sum_size hfits, h.used, List.map_map]
  rfl

/-- The containers of `s` hold the entries `l`. -/
def Refines (cfg : CacheConfig) (s : CacheStorage) (l : List Entry) : Prop :=
  ∃ R, Represents cfg s.toContainers R ∧ R.map Record.entry = l

theorem Refines.entries {cfg : CacheConfig} {s : CacheStorage} {l : List Entry}
    (h : Refines cfg s l) : s.entries = .ok l := by
  obtain ⟨R, hR, rfl⟩ := h
  exact hR.entries

/-- A safe run is the run on its contents. -/
theorem SafeRun.exec {cfg : CacheConfig} (hi : cfg.purgeInterval ≠ 0) {ops : List StorageOp}
    (h : SafeRun cfg ops) :
    ∃ s, CacheStorage.run cfg .new ops = .ok ((Run.exec (Contents.step cfg) [] ops).1, s) ∧
      Refines cfg s (Run.exec (Contents.step cfg) [] ops).2 := by
  have hstep : ∀ (s : CacheStorage) (l : List Entry) (op : StorageOp), Refines cfg s l →
      op.Safe cfg s → True → True →
      ∃ s', s.step cfg op = .ok ((Contents.step cfg l op).1, s') ∧
        Refines cfg s' (Contents.step cfg l op).2 := by
    rintro s _ op ⟨R, hR, rfl⟩ hop - -
    obtain ⟨a, s', R', hs, hR', hcontents, -⟩ := hR.step hi hop
    rw [hcontents]
    exact ⟨s', hs, R', hR', rfl⟩
  obtain ⟨s, hrun, hrefines, -⟩ :=
    Run.run_simulates hstep ⟨[], Represents.empty cfg, rfl⟩ h (Run.throughout_true _ _)
  exact ⟨s, hrun, hrefines⟩

/-- The answers of the run, the list of entries and the used memory are those of the abstract
cache. -/
def FollowsLru (cfg : CacheConfig) (ops : List StorageOp) : Prop :=
  ∃ s, CacheStorage.run cfg .new ops = .ok ((Run.exec (Lru.step cfg) [] ops).1, s) ∧
    s.entries = .ok (Run.exec (Lru.step cfg) [] ops).2 ∧
    (s.usedMemory.toNat : Int) = Lru.used (Run.exec (Lru.step cfg) [] ops).2

/-- A safe run follows the abstract cache when the run on its contents does. -/
theorem followsLru_iff {cfg : CacheConfig} (hi : cfg.purgeInterval ≠ 0) {ops : List StorageOp}
    (hsafe : SafeRun cfg ops) (hfits : Lru.Fits (Run.exec (Lru.step cfg) [] ops).2) :
    FollowsLru cfg ops ↔ Run.exec (Contents.step cfg) [] ops = Run.exec (Lru.step cfg) [] ops := by
  obtain ⟨s, hrun, R, hR, hentries⟩ := hsafe.exec hi
  constructor
  · rintro ⟨s', hrun', hl, -⟩
    obtain ⟨hanswers, rfl⟩ := Prod.mk.inj (Except.ok.inj (hrun.symm.trans hrun'))
    refine Prod.ext hanswers ?_
    rw [← hentries]
    exact Except.ok.inj (hR.entries.symm.trans hl)
  · intro heq
    rw [heq] at hrun hentries
    refine ⟨s, hrun, hentries ▸ hR.entries, ?_⟩
    rw [← hentries] at hfits ⊢
    exact hR.toNat_usedMemory hfits

/-- `cache_storage` refines the abstract cache up to overflow: along a safe run from the empty cache
whose totals fit in an `int` and whose purges know no time before zero, the answers, the list of
entries and the used memory are those of the abstract cache after every call, exactly when no purge
finds an item whose next multiple of the interval is not a `time_t`. -/
theorem run_refines_lru {cfg : CacheConfig} (hi : 0 < cfg.purgeInterval)
    (hc : cfg.cacheSize.toNat < 2 ^ 31) {ops : List StorageOp} (hsafe : SafeRun cfg ops)
    (hfits : Run.Throughout (Lru.step cfg) Lru.Fits [] ops)
    (hzero : Run.Steps (Lru.step cfg) (Lru.PurgeFromZero cfg) [] ops) :
    (∀ n, FollowsLru cfg (ops.take n)) ↔ Run.Steps (Lru.step cfg) (Lru.PurgeFits cfg) [] ops := by
  have hi' : cfg.purgeInterval ≠ 0 := (Int32.ne_of_lt hi).symm
  have hsteps := hfits.steps hzero fun l op hl hl' h =>
    Lru.step_eq_iff (Int32.lt_iff_toInt_lt.mp hi) hc hl hl' h
  rw [← Run.exec_take_eq_iff hsteps]
  exact forall_congr' fun n => followsLru_iff hi' (hsafe.take n) (hfits.exec_take n)

namespace Sample

/-- Three entries of 349 bytes do not fit in 1024. The fourth key expires before the purge. -/
def lruOps : List StorageOp :=
  [.commitWrite (key 1) (zeros 300 500) 100,
    .commitWrite (key 2) (zeros 300 500) 110,
    .commitRead (key 1) 120,
    .commitWrite (key 3) (zeros 300 500) 130,
    .commitRead (key 2) 140,
    .commitWrite (key 4) (zeros 3 150) 141,
    .commitPurge 200,
    .evictLruData (key 1) 600,
    .clear,
    .commitWrite (key 2) (zeros 5 500) 210]

/-- An item that is written to expire at the largest time. -/
def lastingOps : List StorageOp :=
  [.commitWrite (key 1) (zeros 3 Int64.maxValue) 100, .commitPurge 101]

/-- An item that expires just before zero. -/
def beforeZeroOps : List StorageOp :=
  [.commitWrite (key 1) (zeros 3 (-1)) (-100), .commitPurge 30]

end Sample

/-- The third write drops the entry that was not read since, the purge drops the expired one, and
`evict_lru_data` passes over its key. -/
theorem run_refines_lru_sample :
    (∀ n, FollowsLru Sample.config (Sample.lruOps.take n)) ∧
      Run.exec (Lru.step Sample.config) [] (Sample.lruOps.take 6) =
        ([some true, some true, some true, some true, some false, some true],
          [(Sample.zeros 3 150).entry (Sample.key 4),
            (Sample.zeros 300 500).entry (Sample.key 3),
            (Sample.zeros 300 500).entry (Sample.key 1)]) ∧
      (Run.exec (Lru.step Sample.config) [] (Sample.lruOps.take 7)).2 =
        [(Sample.zeros 300 500).entry (Sample.key 3),
          (Sample.zeros 300 500).entry (Sample.key 1)] ∧
      (Run.exec (Lru.step Sample.config) [] (Sample.lruOps.take 8)).2 =
        [(Sample.zeros 300 500).entry (Sample.key 1)] ∧
      (Run.exec (Lru.step Sample.config) [] Sample.lruOps).2 =
        [(Sample.zeros 5 500).entry (Sample.key 2)] := by
  have hsafe : SafeRun Sample.config Sample.lruOps := by decide +kernel
  have hfits : Run.Throughout (Lru.step Sample.config) Lru.Fits [] Sample.lruOps := by
    decide +kernel
  have hzero : Run.Steps (Lru.step Sample.config) (Lru.PurgeFromZero Sample.config) []
      Sample.lruOps := by decide +kernel
  have htimes : Run.Steps (Lru.step Sample.config) (Lru.PurgeFits Sample.config) []
      Sample.lruOps := by decide +kernel
  exact ⟨(run_refines_lru (by decide) (by decide) hsafe hfits hzero).mpr htimes, by decide +kernel,
    by decide +kernel, by decide +kernel, by decide +kernel⟩

/-- The purge time of the lasting item has overflowed to a time before zero, so the purge at 101
takes the item. And the purge time of an item that expires at -1 is 60, as if it expired after zero,
so the purge at 30 leaves the item. -/
theorem purge_departs_from_lru :
    SafeRun Sample.config Sample.lastingOps ∧
    Run.Throughout (Lru.step Sample.config) Lru.Fits [] Sample.lastingOps ∧
    (do
      let r ← CacheStorage.run Sample.config .new Sample.lastingOps
      r.2.entries) = .ok [] ∧
    (Run.exec (Lru.step Sample.config) [] Sample.lastingOps).2 =
      [(Sample.zeros 3 Int64.maxValue).entry (Sample.key 1)] ∧
    ¬ FollowsLru Sample.config Sample.lastingOps ∧
    SafeRun Sample.config Sample.beforeZeroOps ∧
    Run.Throughout (Lru.step Sample.config) Lru.Fits [] Sample.beforeZeroOps ∧
    (do
      let r ← CacheStorage.run Sample.config .new Sample.beforeZeroOps
      r.2.entries) = .ok [(Sample.zeros 3 (-1)).entry (Sample.key 1)] ∧
    (Run.exec (Lru.step Sample.config) [] Sample.beforeZeroOps).2 = [] ∧
    ¬ FollowsLru Sample.config Sample.beforeZeroOps := by
  have hlasting : SafeRun Sample.config Sample.lastingOps := by decide +kernel
  have hbefore : SafeRun Sample.config Sample.beforeZeroOps := by decide +kernel
  have hfits : Run.Throughout (Lru.step Sample.config) Lru.Fits [] Sample.lastingOps := by
    decide +kernel
  have hfits' : Run.Throughout (Lru.step Sample.config) Lru.Fits [] Sample.beforeZeroOps := by
    decide +kernel
  refine ⟨hlasting, hfits, by decide +kernel, by decide +kernel, ?_, hbefore, hfits',
    by decide +kernel, by decide +kernel, ?_⟩
  · rw [followsLru_iff (by decide) hlasting (by decide +kernel)]
    decide +kernel
  · rw [followsLru_iff (by decide) hbefore (by decide +kernel)]
    decide +kernel

end LruCache
