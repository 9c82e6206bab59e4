import LruCache.Loops

/-!
# The commits

`commit_read`, `commit_write` and the other public operations, from containers that represent a list
of records. A step refines the step on the contents: it returns, gives the same answer, and leaves
containers that represent the new contents.

A write is the exception. When the key is stored but its item has expired, `get_item` finds nothing,
`insert_item` adds a second element, and `item_map_.insert` keeps the entry of the first one. The
condition `Writable` excludes this case.
-/

namespace LruCache

open NodeList

/-- The key is not in `item_map_`, or `get_item` finds its item. -/
def Containers.Writable (s : Containers) (key : Key) (writtenAt : Int64) : Prop :=
  s.findEntry key = none ∨ ∃ item, s.getItem key writtenAt = .ok (some item)

instance (s : Containers) (key : Key) (writtenAt : Int64) : Decidable (s.Writable key writtenAt) :=
  match h : s.getItem key writtenAt with
  | .ok (some item) => .isTrue (.inr ⟨item, h⟩)
  | .ok none =>
    decidable_of_iff (s.findEntry key = none)
      ⟨.inl, fun hw => hw.resolve_right fun ⟨_, hi⟩ => by simp [h] at hi⟩
  | .error _ =>
    decidable_of_iff (s.findEntry key = none)
      ⟨.inl, fun hw => hw.resolve_right fun ⟨_, hi⟩ => by simp [h] at hi⟩

/-- A write that passes the checks of `commit_write` finds its key writable. -/
def StorageOp.Safe (cfg : CacheConfig) (s : CacheStorage) : StorageOp → Prop
  | .commitWrite key item writtenAt =>
    rejection cfg key item writtenAt = none → s.Writable key writtenAt
  | _ => True

instance (cfg : CacheConfig) (s : CacheStorage) : (op : StorageOp) → Decidable (op.Safe cfg s)
  | .commitWrite key item writtenAt =>
    inferInstanceAs (Decidable (rejection cfg key item writtenAt = none → s.Writable key writtenAt))
  | .commitRead _ _ => .isTrue trivial
  | .commitPurge _ => .isTrue trivial
  | .evictLruData _ _ => .isTrue trivial
  | .clear => .isTrue trivial

/-- Every write of the run from a new `cache_storage` is safe. -/
def SafeRun (cfg : CacheConfig) (ops : List StorageOp) : Prop :=
  Run.Along (CacheStorage.step cfg) (fun s op => op.Safe cfg s) CacheStorage.new ops

instance (cfg : CacheConfig) (ops : List StorageOp) : Decidable (SafeRun cfg ops) :=
  inferInstanceAs (Decidable (Run.Along _ _ _ _))

section Generic

variable {σ : Type} {v : Virtuals σ} {cfg : CacheConfig} {s s' : σ} {key : Key} {item : CacheItem}
  {w : Int64} {b : Bool}

theorem commitWrite_eq_ok :
    commitWrite v cfg s key item w = .ok (b, s') ↔
      (∃ code, rejection cfg key item w = some code ∧ b = false ∧ s' = v.setCommitCode s code) ∨
      (rejection cfg key item w = none ∧ b = true ∧
        ∃ t, writeAccepted v s key item w = .ok t ∧ s' = v.setCommitCode t .doneOk) := by
  unfold commitWrite
  cases rejection cfg key item w with
  | some code =>
    constructor
    · intro h
      cases h
      exact .inl ⟨code, rfl, rfl, rfl⟩
    · rintro (⟨_, hc, rfl, rfl⟩ | ⟨hc, -⟩)
      · cases hc
        rfl
      · cases hc
  | none =>
    show (writeAccepted v s key item w >>= _) = _ ↔ _
    rw [Run.bind_eq_ok]
    constructor
    · rintro ⟨t, ht, h⟩
      cases h
      exact .inr ⟨rfl, rfl, t, ht, rfl⟩
    · rintro (⟨_, hc, -⟩ | ⟨-, rfl, t, ht, rfl⟩)
      · cases hc
      · exact ⟨t, ht, rfl⟩

end Generic

/-- The last part of `commit_write`: update the item that `get_item` finds, or insert. -/
def Containers.store (cfg : CacheConfig) (s : Containers) (key : Key) (item : CacheItem)
    (writtenAt : Int64) : Except Fault (Addr × Containers) := do
  match ← s.getItem key writtenAt with
  | some _ => s.updateItem cfg key item
  | none => s.insertItem cfg key item

theorem Containers.writeAccepted_eq {cfg : CacheConfig} {s : Containers} {key : Key}
    {item : CacheItem} {w : Int64} :
    writeAccepted (Containers.virtuals cfg) s key item w = (do
      let required ← getRequiredMemory (Containers.virtuals cfg) s key item w
      let s ← s.evictLruData cfg key required
      return (← s.store cfg key item w).2) := by
  unfold writeAccepted Containers.store
  refine bind_congr fun m => bind_congr fun t => ?_
  simp only [Containers.virtuals, bind_assoc, pure_bind]
  refine bind_congr fun found => ?_
  cases found <;> rfl

namespace CacheStorage

variable {cfg : CacheConfig} {s : CacheStorage} {key : Key} {item : CacheItem} {w : Int64}

/-- Past its checks `commit_write` works on the containers alone. -/
theorem writeAccepted_eq :
    writeAccepted (virtuals cfg) s key item w = (do
      return { s with toContainers :=
        ← writeAccepted (Containers.virtuals cfg) s.toContainers key item w }) := by
  unfold writeAccepted getRequiredMemory
  simp only [virtuals, bind_assoc, pure_bind]
  refine bind_congr fun old => bind_congr fun t => bind_congr fun found => ?_
  cases found <;> rfl

theorem commitWrite_eq_ok {b : Bool} {s' : CacheStorage} :
    s.commitWrite cfg key item w = .ok (b, s') ↔
      (∃ code, rejection cfg key item w = some code ∧ b = false ∧
        s' = { s with commitCode := some code }) ∨
      (rejection cfg key item w = none ∧ b = true ∧
        ∃ t, writeAccepted (Containers.virtuals cfg) s.toContainers key item w = .ok t ∧
          s' = ⟨t, some .doneOk⟩) := by
  refine LruCache.commitWrite_eq_ok.trans (or_congr Iff.rfl (and_congr_right fun _ =>
    and_congr_right fun _ => ?_))
  rw [writeAccepted_eq]
  constructor
  · rintro ⟨t, ht, rfl⟩
    obtain ⟨c, hc, ht⟩ := Run.bind_eq_ok.mp ht
    cases ht
    exact ⟨c, hc, rfl⟩
  · rintro ⟨c, hc, rfl⟩
    exact ⟨_, Run.bind_eq_ok.mpr ⟨c, hc, rfl⟩, rfl⟩

end CacheStorage

/-! ## The interval is not zero -/

section Interval

variable {cfg : CacheConfig} {s s' : Containers} {key : Key} {item : CacheItem} {w : Int64}
  {p : Addr × Containers}

theorem ne_zero_of_insertItem (h : s.insertItem cfg key item = .ok p) : cfg.purgeInterval ≠ 0 := by
  obtain ⟨t, ht, -⟩ := Run.bind_eq_ok.mp h
  exact (nextPurgeTime_eq_ok.mp ht).1

theorem ne_zero_of_updateItem (h : s.updateItem cfg key item = .ok p) : cfg.purgeInterval ≠ 0 := by
  unfold Containers.updateItem at h
  split at h
  · cases h
  · obtain ⟨old, -, h⟩ := Run.bind_eq_ok.mp h
    obtain ⟨t, ht, -⟩ := Run.bind_eq_ok.mp h
    obtain ⟨e, he, -⟩ := Run.bind_eq_ok.mp ht
    exact (nextPurgeTime_eq_ok.mp he).1

/-- Storing an item computes a purge time. -/
theorem ne_zero_of_store (h : s.store cfg key item w = .ok p) : cfg.purgeInterval ≠ 0 := by
  obtain ⟨found, -, h⟩ := Run.bind_eq_ok.mp h
  cases found with
  | some _ => exact ne_zero_of_updateItem h
  | none => exact ne_zero_of_insertItem h

theorem ne_zero_of_writeAccepted
    (h : writeAccepted (Containers.virtuals cfg) s key item w = .ok s') :
    cfg.purgeInterval ≠ 0 := by
  rw [Containers.writeAccepted_eq] at h
  obtain ⟨m, -, h⟩ := Run.bind_eq_ok.mp h
  obtain ⟨t, -, h⟩ := Run.bind_eq_ok.mp h
  obtain ⟨p, hp, -⟩ := Run.bind_eq_ok.mp h
  exact ne_zero_of_store hp

/-- The call computes a purge time. -/
def StorageOp.Timed (cfg : CacheConfig) : StorageOp → Prop
  | .commitWrite key item writtenAt => rejection cfg key item writtenAt = none
  | .commitPurge _ => True
  | _ => False

/-- A purge time is computed with an interval that is not zero. -/
theorem ne_zero_of_step {s s' : CacheStorage} {op : StorageOp} {a : Option Bool}
    (hs : s.step cfg op = .ok (a, s')) (hop : op.Timed cfg) : cfg.purgeInterval ≠ 0 := by
  cases op with
  | commitWrite key item w =>
    obtain ⟨⟨b, u⟩, hwrite, -⟩ := Run.bind_eq_ok.mp hs
    obtain ⟨code, hrej, -⟩ | ⟨-, -, t, ht, -⟩ := CacheStorage.commitWrite_eq_ok.mp hwrite
    · exact nomatch hrej.symm.trans hop
    · exact ne_zero_of_writeAccepted ht
  | commitPurge p =>
    obtain ⟨u, hpurge, -⟩ := Run.bind_eq_ok.mp hs
    obtain ⟨c, hc, -⟩ := Run.bind_eq_ok.mp hpurge
    obtain ⟨t, ht, -⟩ := Run.bind_eq_ok.mp hc
    exact (nextPurgeTime_eq_ok.mp ht).1
  | commitRead key t => cases hop
  | evictLruData key m => cases hop
  | clear => cases hop

/-- An item that passes the checks is unexpired. -/
theorem unexpired_of_rejection_eq_none (h : rejection cfg key item w = none) :
    w < item.expiresAt := by
  have he : item.isExpired w = false := by
    unfold rejection at h
    split at h
    · cases h
    · split at h
      · cases h
      · split at h
        · cases h
        · next he => exact Bool.eq_false_iff.mpr he
  exact Int64.not_le.mp (of_decide_eq_false he)

end Interval

namespace Represents

variable {cfg : CacheConfig} {s : Containers} {R : List Record} {key : Key} {item : CacheItem}
  {w t : Int64}

/-! ## Lookups -/

/-- `get_item` is the lookup in the records. -/
theorem getItem (h : Represents cfg s R) (key : Key) (t : Int64) :
    s.getItem key t = .ok ((lookup Record.entry key t R).map Record.itemNode) := by
  by_cases hk : key ∈ R.map Record.key
  · obtain ⟨r, hr, rfl⟩ := List.mem_map.mp hk
    have hl : lookup Record.entry r.key t R = if r.entry.isExpired t then none else some r :=
      lookup_of_mem (v := Record.entry) h.keys_nodup hr t
    rw [h.getItem_of_mem hr, hl]
    split <;> rfl
  · rw [h.getItem_of_not_mem hk, lookup_of_not_mem (v := Record.entry) hk]
    rfl

theorem writable_iff (h : Represents cfg s R) :
    s.Writable key w ↔ ∀ r ∈ R, r.key = key → r.entry.isExpired w = false := by
  unfold Containers.Writable
  rw [h.findEntry_eq_none_iff]
  constructor
  · rintro (hk | ⟨n, hn⟩) r hr rfl
    · exact absurd (List.mem_map_of_mem hr) hk
    · rw [h.getItem_of_mem hr] at hn
      by_contra he
      rw [Bool.not_eq_false] at he
      rw [he] at hn
      cases hn
  · intro hw
    by_cases hk : key ∈ R.map Record.key
    · obtain ⟨r, hr, rfl⟩ := List.mem_map.mp hk
      refine .inr ⟨r.itemNode, ?_⟩
      rw [h.getItem_of_mem hr, hw r hr rfl]
      rfl
    · exact .inl hk

/-- `commit_read` answers whether the lookup finds the key, and then moves it to the front. -/
theorem commitRead {s : CacheStorage} (h : Represents cfg s.toContainers R) (key : Key)
    (t : Int64) :
    (lookup Record.entry key t R = none ∧
      s.commitRead key t = .ok (false, { s with commitCode := some .notFound })) ∨
    ((lookup Record.entry key t R).isSome ∧ ∃ s', s.commitRead key t = .ok (true, s') ∧
      Represents cfg s'.toContainers (touch Record.entry key R)) := by
  unfold CacheStorage.commitRead
  rw [h.getItem]
  cases hl : lookup Record.entry key t R with
  | none => exact .inl ⟨rfl, rfl⟩
  | some r =>
    refine .inr ⟨rfl, _, rfl, ?_⟩
    obtain ⟨hr, hk, -⟩ := lookup_eq_some_key hl
    obtain ⟨pre, post, rfl⟩ := List.append_of_mem hr
    have htouch : touch Record.entry r.entry.key (pre ++ r :: post) = r :: (pre ++ post) :=
      touch_split h.keys_nodup
    rw [← hk, htouch]
    exact h.markAsRecentlyUsed

/-! ## Writes -/

theorem getRequiredMemory (h : Represents cfg s R) :
    getRequiredMemory (Containers.virtuals cfg) s key item w =
      .ok (requiredMemory Record.entry key item.dataSize w R) := by
  unfold LruCache.getRequiredMemory requiredMemory
  have hg : (Containers.virtuals cfg).getItem s key w =
      .ok ((lookup Record.entry key w R).map Record.item) := by
    simp only [Containers.virtuals, h.getItem, Run.ok_bind, Option.map_map]
    rfl
  rw [hg, Run.ok_bind]
  cases hl : lookup Record.entry key w R with
  | none => rfl
  | some r =>
    obtain ⟨-, hk, -⟩ := lookup_eq_some_key hl
    subst hk
    rfl

/-- Storing under a writable key puts a record of the item at the front. A key that was stored keeps
its `item_map_` node and its element of `items_`. -/
theorem store (h : Represents cfg s R) (item : CacheItem) (hi : cfg.purgeInterval ≠ 0)
    (hw : s.Writable key w) :
    ∃ r s', s.store cfg key item w = .ok (r.itemAddr, s') ∧ r.entry = item.entry key ∧
      (∀ x ∈ R, x.key = key → r.entryAddr = x.entryAddr ∧ r.itemAddr = x.itemAddr) ∧
      Represents cfg s' (r :: without Record.entry key R) := by
  unfold Containers.store
  by_cases hk : key ∈ R.map Record.key
  · obtain ⟨r, hr, rfl⟩ := List.mem_map.mp hk
    have hget : s.getItem r.key w = .ok (some r.itemNode) := by
      rw [h.getItem_of_mem hr, h.writable_iff.mp hw r hr rfl]
      rfl
    obtain ⟨pre, post, rfl⟩ := List.append_of_mem hr
    have hwithout : without Record.entry r.entry.key (pre ++ r :: post) = pre ++ post :=
      without_split h.keys_nodup
    obtain ⟨r', s', hupd, hentry, haddr, hitem, h'⟩ := h.updateItem hi item
    refine ⟨r', s', ?_, hentry, ?_, ?_⟩
    · rw [hget, hitem]
      exact hupd
    · intro x hx hxk
      rw [List.inj_on_of_nodup_map h.keys_nodup hx hr hxk]
      exact ⟨haddr, hitem⟩
    · show Represents cfg s' (r' :: without Record.entry r.entry.key (pre ++ r :: post))
      rwa [hwithout]
  · obtain ⟨r, s', hins, hentry, -, h'⟩ := h.insertItem hi hk item
    refine ⟨r, s', ?_, hentry, ?_, ?_⟩
    · rw [h.getItem_of_not_mem hk]
      exact hins
    · intro x hx hxk
      exact absurd (hxk ▸ List.mem_map_of_mem hx) hk
    · rwa [without_of_not_mem (v := Record.entry) hk]

/-- Storing under a key that is stored but expired: the new element comes first, but the map still
leads to the old one. -/
theorem store_expired (h : Represents cfg s R) (item : CacheItem) (hi : cfg.purgeInterval ≠ 0)
    (hw : ¬ s.Writable key w) :
    ∃ r ∈ R, r.key = key ∧ r.entry.isExpired w = true ∧
      ∃ s', s.store cfg key item w = .ok (s.nextAddr, s') ∧ s'.itemMap = s.itemMap ∧
        s'.items = ⟨s.nextAddr, { item with key := some r.entryAddr }⟩ :: s.items ∧
        (addrs s'.items).Nodup := by
  obtain ⟨r, hr, rfl, he⟩ : ∃ r ∈ R, r.key = key ∧ r.entry.isExpired w = true := by
    simpa [h.writable_iff] using hw
  obtain ⟨s', hins, hmap, hitems⟩ := insertItem_stored hi (h.findEntry_of_mem hr) item
  have hget : s.getItem r.key w = .ok none := by
    rw [h.getItem_of_mem hr, he]
    rfl
  have hfresh : s.nextAddr ∉ addrs s.items := by
    rw [h.addrs_items]
    intro hm
    obtain ⟨x, hx, hxa⟩ := List.mem_map.mp hm
    exact Nat.ne_of_lt (h.fresh x hx).2.1 hxa
  refine ⟨r, hr, rfl, he, s', ?_, hmap, hitems, ?_⟩
  · unfold Containers.store
    rw [hget]
    exact hins
  · rw [hitems]
    exact List.nodup_cons.mpr ⟨hfresh, h.nodup_addrs_items⟩

/-- Storing returns, whether or not the key is writable. -/
theorem store_returns (h : Represents cfg s R) (key : Key) (item : CacheItem) (w : Int64)
    (hi : cfg.purgeInterval ≠ 0) :
    ∃ a s' stored, s.store cfg key item w = .ok (a, s') ∧ deref s'.items a = .ok stored := by
  by_cases hw : s.Writable key w
  · obtain ⟨r, s', hstore, -, -, h'⟩ := h.store item hi hw
    exact ⟨r.itemAddr, s', r.item, hstore, h'.deref_item List.mem_cons_self⟩
  · obtain ⟨r, -, -, -, s', hstore, -, hitems, hnodup⟩ := h.store_expired item hi hw
    have hmem : (⟨s.nextAddr, { item with key := some r.entryAddr }⟩ : Node CacheItem) ∈
        s'.items := by
      rw [hitems]
      exact List.mem_cons_self
    exact ⟨s.nextAddr, s', _, hstore, deref_of_mem hnodup hmem⟩

/-- An eviction for `key` does not change whether `key` is writable. -/
theorem writable_survivors {m : Int32} {t : Containers} (h : Represents cfg s R)
    (ht : Represents cfg t (survivors Record.entry cfg key m R)) :
    t.Writable key w ↔ s.Writable key w := by
  rw [ht.writable_iff, h.writable_iff]
  constructor
  · intro hw r hr hk
    exact hw r (mem_survivors_of_key hr hk) hk
  · intro hw r hr hk
    exact hw r (survivors_sublist.subset hr) hk

/-- A write whose key is writable evicts, then puts a record of the item at the front. A key that
was stored keeps its `item_map_` node. -/
theorem writeAccepted (h : Represents cfg s R) (item : CacheItem) (hi : cfg.purgeInterval ≠ 0)
    (hw : s.Writable key w) :
    ∃ r s', writeAccepted (Containers.virtuals cfg) s key item w = .ok s' ∧
      r.entry = item.entry key ∧ (∀ x ∈ R, x.key = key → r.entryAddr = x.entryAddr) ∧
      Represents cfg s' (r :: without Record.entry key
        (writeSurvivors Record.entry cfg key item.dataSize w R)) := by
  obtain ⟨s₁, hevict, h₁⟩ := h.evictLruData key (requiredMemory Record.entry key item.dataSize w R)
  obtain ⟨r, s', hstore, hentry, haddr, h'⟩ :=
    h₁.store item hi ((h.writable_survivors h₁).mpr hw)
  refine ⟨r, s', ?_, hentry, ?_, h'⟩
  · rw [Containers.writeAccepted_eq, h.getRequiredMemory, Run.ok_bind, hevict, Run.ok_bind, hstore]
    rfl
  · intro x hx hk
    exact (haddr x (mem_survivors_of_key hx hk) hk).1

/-- A write whose key is stored but expired leaves two elements with the same key pointer, and the
map leads to the old one. -/
theorem writeAccepted_expired (h : Represents cfg s R) (item : CacheItem)
    (hi : cfg.purgeInterval ≠ 0)
    (hw : ¬ s.Writable key w) :
    ∃ r ∈ R, r.key = key ∧ r.entry.isExpired w = true ∧
      ∃ a s', LruCache.writeAccepted (Containers.virtuals cfg) s key item w = .ok s' ∧
        s'.findEntry key = some r.entryNode ∧ r.itemNode ∈ s'.items ∧ (addrs s'.items).Nodup ∧
        ⟨a, { item with key := some r.entryAddr }⟩ ∈ s'.items ∧ a ≠ r.itemAddr := by
  obtain ⟨s₁, hevict, h₁⟩ := h.evictLruData key (requiredMemory Record.entry key item.dataSize w R)
  obtain ⟨r, hr, rfl, he, s', hstore, hmap, hitems, hnodup⟩ :=
    h₁.store_expired item hi fun h' => hw ((h.writable_survivors h₁).mp h')
  refine ⟨r, survivors_sublist.subset hr, rfl, he, s₁.nextAddr, s', ?_, ?_, ?_, hnodup, ?_, ?_⟩
  · rw [Containers.writeAccepted_eq, h.getRequiredMemory, Run.ok_bind, hevict, Run.ok_bind, hstore]
    rfl
  · unfold Containers.findEntry
    rw [hmap]
    exact h₁.findEntry_of_mem hr
  · rw [hitems, h₁.items]
    exact List.mem_cons_of_mem _ (List.mem_map_of_mem hr)
  · rw [hitems]
    exact List.mem_cons_self
  · exact Nat.ne_of_gt (h₁.fresh r hr).2.1

/-- A write past its checks returns. -/
theorem writeAccepted_returns (h : Represents cfg s R) (key : Key) (item : CacheItem) (w : Int64)
    (hi : cfg.purgeInterval ≠ 0) :
    ∃ s', LruCache.writeAccepted (Containers.virtuals cfg) s key item w = .ok s' := by
  obtain ⟨s₁, hevict, h₁⟩ := h.evictLruData key (requiredMemory Record.entry key item.dataSize w R)
  obtain ⟨a, s', -, hstore, -⟩ := h₁.store_returns key item w hi
  refine ⟨s', ?_⟩
  rw [Containers.writeAccepted_eq, h.getRequiredMemory, Run.ok_bind, hevict, Run.ok_bind, hstore]
  rfl

/-! ## Steps -/

/-- A safe step refines the step on the contents. A key that stays stored keeps its `item_map_`
node. -/
theorem step_timed {s : CacheStorage} (h : Represents cfg s.toContainers R) {op : StorageOp}
    (hi : op.Timed cfg → cfg.purgeInterval ≠ 0) (hop : op.Safe cfg s) :
    ∃ a s' R', s.step cfg op = .ok (a, s') ∧ Represents cfg s'.toContainers R' ∧
      Contents.step cfg (R.map Record.entry) op = (a, R'.map Record.entry) ∧
      ∀ x ∈ R', ∀ r ∈ R, r.key = x.key → x.entryAddr = r.entryAddr := by
  have hsub : ∀ {R' : List Record}, R' ⊆ R → ∀ x ∈ R', ∀ r ∈ R, r.key = x.key →
      x.entryAddr = r.entryAddr := fun hR x hx r hr hk =>
    congrArg _ (List.inj_on_of_nodup_map h.keys_nodup (hR hx) hr hk.symm)
  cases op with
  | commitRead key readAt =>
    simp only [CacheStorage.step, Contents.step]
    rw [← map_lookup]
    rcases h.commitRead key readAt with ⟨hl, hread⟩ | ⟨hl, s', hread, h'⟩
    · rw [hl, hread]
      exact ⟨_, _, R, rfl, h, rfl, hsub (List.Subset.refl R)⟩
    · obtain ⟨r, hr⟩ := Option.isSome_iff_exists.mp hl
      rw [hr, hread]
      refine ⟨_, s', touch Record.entry key R, rfl, h', ?_, hsub touch_subset⟩
      rw [map_touch]
      rfl
  | commitWrite key item writtenAt =>
    simp only [CacheStorage.step, Contents.step]
    cases hrej : rejection cfg key item writtenAt with
    | some code =>
      have hwrite := (CacheStorage.commitWrite_eq_ok (s := s)).mpr (.inl ⟨code, hrej, rfl, rfl⟩)
      simp only [hwrite, Run.ok_bind]
      exact ⟨_, _, R, rfl, h, rfl, hsub (List.Subset.refl R)⟩
    | none =>
      obtain ⟨r, t, haccept, hentry, haddr, h'⟩ := h.writeAccepted item (hi hrej) (hop hrej)
      have hwrite := CacheStorage.commitWrite_eq_ok.mpr (.inr ⟨hrej, rfl, t, haccept, rfl⟩)
      simp only [hwrite, Run.ok_bind]
      refine ⟨_, _, _, rfl, h', ?_, fun x hx y hy hk => ?_⟩
      · rw [List.map_cons, hentry, map_without, map_writeSurvivors]
      · rcases List.mem_cons.mp hx with rfl | hx
        · have hkey : x.key = key := congrArg Entry.key hentry
          exact haddr y hy (hk.trans hkey)
        · exact hsub (without_sublist.trans survivors_sublist).subset x hx y hy hk
  | commitPurge purgedAt =>
    obtain ⟨t, hpurge, h'⟩ := h.commitPurge (hi trivial) purgedAt
    simp only [CacheStorage.step, Contents.step, CacheStorage.commitPurge, hpurge, Run.ok_bind]
    refine ⟨_, _, _, rfl, h', ?_, hsub List.filter_sublist.subset⟩
    rw [map_unpurged]
  | evictLruData key required =>
    obtain ⟨t, hevict, h'⟩ := h.evictLruData key required
    simp only [CacheStorage.step, Contents.step, hevict, Run.ok_bind]
    refine ⟨_, _, _, rfl, h', ?_, hsub survivors_sublist.subset⟩
    rw [map_survivors]
  | clear =>
    exact ⟨_, _, [], rfl, Represents.clear cfg _, rfl, fun x hx => absurd hx List.not_mem_nil⟩

theorem step {s : CacheStorage} (h : Represents cfg s.toContainers R)
    (hi : cfg.purgeInterval ≠ 0) {op : StorageOp} (hop : op.Safe cfg s) :
    ∃ a s' R', s.step cfg op = .ok (a, s') ∧ Represents cfg s'.toContainers R' ∧
      Contents.step cfg (R.map Record.entry) op = (a, R'.map Record.entry) ∧
      ∀ x ∈ R', ∀ r ∈ R, r.key = x.key → x.entryAddr = r.entryAddr :=
  h.step_timed (fun _ => hi) hop

/-- A safe run returns, and its result represents a list of records. -/
theorem of_safeRun (hi : cfg.purgeInterval ≠ 0) {ops : List StorageOp} (hsafe : SafeRun cfg ops) :
    ∃ answers s, CacheStorage.run cfg .new ops = .ok (answers, s) ∧
      ∃ R, Represents cfg s.toContainers R := by
  refine Run.run_total (I := fun s => ∃ R, Represents cfg s.toContainers R) ?_
    ⟨[], Represents.empty cfg⟩ hsafe
  rintro s op ⟨R, h⟩ hop
  obtain ⟨a, s', R', hstep, h', -⟩ := h.step hi hop
  exact ⟨a, s', hstep, R', h'⟩

end Represents

end LruCache
