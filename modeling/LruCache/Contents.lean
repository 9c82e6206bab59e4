import LruCache.Lib.Recency
import LruCache.CacheStorage

/-!
# The contents of a cache

What the operations of `cache_storage` do to the stored entries, most recently used first, with the
nodes and iterators left out. The amounts of memory are still the machine integers of the source.

The functions work on a list of anything that shows an entry through `view`, so that they apply to
the entries themselves and to the records that also carry addresses.
-/

namespace LruCache

section View

variable {α : Type} (view : α → Entry)

/-- The element stored under `key` and unexpired at `t`. -/
def lookup (key : Key) (t : Int64) (l : List α) : Option α :=
  l.find? fun x => (view x).key == key && !(view x).isExpired t

/-- The elements under other keys. -/
def without (key : Key) (l : List α) : List α := l.filter fun x => (view x).key != key

/-- The element under `key` moved to the front. -/
def touch (key : Key) (l : List α) : List α :=
  (l.filter fun x => (view x).key == key) ++ without view key l

/-- The memory that a write of `dataSize` bytes under `key` adds, as an `int`. -/
def requiredMemory (key : Key) (dataSize : UInt64) (t : Int64) (l : List α) : Int32 :=
  narrow (getItemSize key dataSize - ((lookup view key t l).map fun x => (view x).size).getD 0)

/-- What an eviction for `key` that needs `memoryRequired` leaves. The free memory is an `int`,
narrowed from `size_t` as the source does it. -/
def survivors (cfg : CacheConfig) (key : Key) (memoryRequired : Int32) (l : List α) : List α :=
  Recency.evict (fun x => (view x).key == key) (fun available x => addSize available (view x).size)
    (fun available => decide (available ≥ memoryRequired))
    (narrow (cfg.cacheSize - (l.map fun x => (view x).size).sum)) l

/-- What a purge of the buckets up to `prev` leaves. -/
def unpurged (interval : Int32) (prev : Int64) (l : List α) : List α :=
  l.filter fun x => decide (prev < purgeTimeAfter (view x).expiresAt interval)

/-- What the eviction of a write leaves. -/
def writeSurvivors (cfg : CacheConfig) (key : Key) (dataSize : UInt64) (t : Int64) (l : List α) :
    List α :=
  survivors view cfg key (requiredMemory view key dataSize t l) l

end View

/-- The last purge time that is not after `purgedAt`. -/
def prevPurgeTime (purgedAt : Int64) (interval : Int32) : Int64 :=
  purgeTimeAfter purgedAt interval - interval.toInt64

namespace Contents

/-- One call, on the entries. -/
def step (cfg : CacheConfig) (l : List Entry) : StorageOp → Option Bool × List Entry
  | .commitRead key readAt =>
    match lookup id key readAt l with
    | none => (some false, l)
    | some _ => (some true, touch id key l)
  | .commitWrite key item writtenAt =>
    match rejection cfg key item writtenAt with
    | some _ => (some false, l)
    | none =>
      (some true,
        item.entry key :: without id key (writeSurvivors id cfg key item.dataSize writtenAt l))
  | .commitPurge purgedAt =>
    (none, unpurged id cfg.purgeInterval (prevPurgeTime purgedAt cfg.purgeInterval) l)
  | .evictLruData key memoryRequired => (none, survivors id cfg key memoryRequired l)
  | .clear => (none, [])

end Contents

section Lemmas

variable {α : Type} {v : α → Entry} {cfg : CacheConfig} {key : Key} {m : Int32} {t : Int64}
  {l : List α} {x : α}

theorem lookup_eq_some_key (h : lookup v key t l = some x) :
    x ∈ l ∧ (v x).key = key ∧ (v x).isExpired t = false := by
  have hx := List.find?_some h
  rw [Bool.and_eq_true, beq_iff_eq, Bool.not_eq_true'] at hx
  exact ⟨List.mem_of_find?_eq_some h, hx⟩

/-- Under distinct keys the lookup of a stored key depends on its expiry only. -/
theorem lookup_of_mem (hn : (l.map fun x => (v x).key).Nodup) (hx : x ∈ l) (t : Int64) :
    lookup v (v x).key t l = if (v x).isExpired t then none else some x := by
  have huniq : ∀ y ∈ l, (v y).key = (v x).key → y = x := fun y hy hk =>
    List.inj_on_of_nodup_map hn hy hx hk
  cases h : lookup v (v x).key t l with
  | none =>
    have := List.find?_eq_none.mp h x hx
    rw [if_pos (by simpa using this)]
  | some y =>
    obtain ⟨hy, hk, he⟩ := lookup_eq_some_key h
    rw [huniq y hy hk] at he ⊢
    rw [he]
    rfl

theorem lookup_of_not_mem (hk : key ∉ l.map fun x => (v x).key) (t : Int64) :
    lookup v key t l = none := by
  refine List.find?_eq_none.mpr fun x hx => ?_
  have hne : (v x).key ≠ key := fun he => hk (List.mem_map.mpr ⟨x, hx, he⟩)
  simp [hne]

theorem mem_without : x ∈ without v key l ↔ x ∈ l ∧ (v x).key ≠ key := by
  simp [without]

theorem without_sublist : (without v key l).Sublist l := List.filter_sublist

theorem without_of_not_mem (hk : key ∉ l.map fun x => (v x).key) : without v key l = l := by
  refine List.filter_eq_self.mpr fun x hx => ?_
  have hne : (v x).key ≠ key := fun he => hk (List.mem_map.mpr ⟨x, hx, he⟩)
  simpa using hne

/-- Splitting a list with distinct keys at an element. -/
theorem without_split {pre post : List α}
    (hn : ((pre ++ x :: post).map fun x => (v x).key).Nodup) :
    without v (v x).key (pre ++ x :: post) = pre ++ post := by
  rw [List.map_append, List.map_cons, List.nodup_middle, List.nodup_cons, List.mem_append] at hn
  have h1 := without_of_not_mem (v := v) fun h => hn.1 (Or.inl h)
  have h2 := without_of_not_mem (v := v) fun h => hn.1 (Or.inr h)
  have hx : ((v x).key != (v x).key) = false := by simp
  unfold without at h1 h2 ⊢
  rw [List.filter_append, List.filter_cons, hx, h1, h2]
  rfl

theorem touch_split {pre post : List α}
    (hn : ((pre ++ x :: post).map fun x => (v x).key).Nodup) :
    touch v (v x).key (pre ++ x :: post) = x :: (pre ++ post) := by
  have hx : ((v x).key == (v x).key) = true := by simp
  have hnil : ∀ {m : List α}, (v x).key ∉ m.map (fun x => (v x).key) →
      (m.filter fun y => (v y).key == (v x).key) = [] := by
    intro m hm
    refine List.filter_eq_nil_iff.mpr fun y hy he => ?_
    exact hm (List.mem_map.mpr ⟨y, hy, by simpa using he⟩)
  have hn' := hn
  rw [List.map_append, List.map_cons, List.nodup_middle, List.nodup_cons, List.mem_append] at hn'
  unfold touch
  rw [without_split hn, List.filter_append, List.filter_cons, hx,
    hnil fun h => hn'.1 (Or.inl h), hnil fun h => hn'.1 (Or.inr h)]
  rfl

theorem touch_subset : touch v key l ⊆ l :=
  List.append_subset.mpr ⟨List.filter_sublist.subset, without_sublist.subset⟩

theorem survivors_sublist : (survivors v cfg key m l).Sublist l :=
  Recency.evict_sublist _ _

/-- The key an eviction makes room for is never evicted. -/
theorem mem_survivors_of_key (hx : x ∈ l) (hk : (v x).key = key) :
    x ∈ survivors v cfg key m l :=
  Recency.mem_evict_of_keep (by simpa using hk) hx

/-- An eviction removes nothing exactly when there is room or no other key. -/
theorem survivors_eq_self_iff :
    survivors v cfg key m l = l ↔
      narrow (cfg.cacheSize - (l.map fun x => (v x).size).sum) ≥ m ∨
        ∀ x ∈ l, (v x).key = key := by
  unfold survivors
  rw [Recency.evict_eq_self_iff, decide_eq_true_eq]
  simp only [beq_iff_eq]

/-! ## Seen through the v -/

theorem map_lookup (l : List α) : (lookup v key t l).map v = lookup id key t (l.map v) := by
  unfold lookup
  rw [List.find?_map]
  rfl

theorem map_without (l : List α) :
    (without v key l).map v = without id key (l.map v) := by
  unfold without
  rw [List.filter_map]
  rfl

theorem map_touch (l : List α) : (touch v key l).map v = touch id key (l.map v) := by
  unfold touch
  rw [List.map_append, map_without, List.filter_map]
  rfl

theorem map_survivors (l : List α) :
    (survivors v cfg key m l).map v = survivors id cfg key m (l.map v) := by
  unfold survivors
  rw [List.map_map]
  refine Recency.map_evict ?_ ?_ _ _
  · exact fun _ => rfl
  · exact fun _ _ => rfl

theorem map_unpurged {interval : Int32} {prev : Int64} (l : List α) :
    (unpurged v interval prev l).map v = unpurged id interval prev (l.map v) := by
  unfold unpurged
  rw [List.filter_map]
  rfl

theorem requiredMemory_map {dataSize : UInt64} (l : List α) :
    requiredMemory id key dataSize t (l.map v) = requiredMemory v key dataSize t l := by
  unfold requiredMemory
  rw [← map_lookup, Option.map_map]
  rfl

theorem map_writeSurvivors {dataSize : UInt64} (l : List α) :
    (writeSurvivors v cfg key dataSize t l).map v =
      writeSurvivors id cfg key dataSize t (l.map v) := by
  unfold writeSurvivors
  rw [map_survivors, requiredMemory_map]

end Lemmas

end LruCache
