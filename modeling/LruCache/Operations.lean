import LruCache.Represents

/-!
# The operations on one key

One specification per operation of `cache_storage` that touches a single key: what it answers and
which records its result represents.
-/

namespace LruCache

open NodeList

namespace Containers

variable {s : Containers} {t : Int64}

/-- `emplace_hint` touches the buckets and the allocator only. -/
theorem emplaceBucket_frame {b : Addr} {s₁ : Containers} (h : s.emplaceBucket t = (b, s₁)) :
    ∃ bs n, s₁ = { s with expiryBuckets := bs, nextAddr := n } := by
  unfold emplaceBucket at h
  split at h
  · cases h
    exact ⟨_, _, rfl⟩
  · cases h
    exact ⟨_, _, rfl⟩

theorem le_nextAddr_emplaceBucket (s : Containers) (t : Int64) :
    s.nextAddr ≤ (s.emplaceBucket t).2.nextAddr := by
  unfold emplaceBucket
  split
  · exact Nat.le_refl _
  · exact Nat.le_succ _

theorem emplaceBucket_lt (h : ∀ b ∈ s.expiryBuckets, b.addr < s.nextAddr) :
    (s.emplaceBucket t).1 < (s.emplaceBucket t).2.nextAddr := by
  unfold emplaceBucket
  split
  · next b hf => exact h b (List.mem_of_find?_eq_some hf)
  · exact Nat.lt_succ_self _

end Containers

theorem nodup_map_cons {α β : Type} {f : α → β} {l : List α} {x : α} (hl : (l.map f).Nodup)
    (hx : ∀ y ∈ l, f y ≠ f x) : ((x :: l).map f).Nodup := by
  rw [List.map_cons, List.nodup_cons]
  refine ⟨fun hm => ?_, hl⟩
  obtain ⟨y, hy, he⟩ := List.mem_map.mp hm
  exact hx y hy he

theorem nodup_map_replace {α β : Type} {f : α → β} {pre post : List α} {x x' : α}
    (h : ((pre ++ x :: post).map f).Nodup) (hf : f x' = f x) :
    ((x' :: (pre ++ post)).map f).Nodup := by
  rw [List.map_cons, hf, ← List.map_cons]
  exact (List.perm_middle.map f).nodup_iff.mp h

namespace Represents

variable {cfg : CacheConfig} {s : Containers} {R pre post : List Record} {r : Record}

/-! ## Following pointers -/

/-- `clear` leaves nothing. -/
theorem clear (cfg : CacheConfig) (s : Containers) : Represents cfg s.clear [] where
  items := rfl
  map := ⟨List.nodup_nil, fun n => by simp [Containers.clear]⟩
  buckets := ⟨List.Pairwise.nil, List.nodup_nil, by simp [Containers.clear],
    by simp [Containers.clear], by simp [Containers.clear], by simp⟩
  used := rfl
  keys_nodup := List.nodup_nil
  entries_nodup := List.nodup_nil
  items_nodup := List.nodup_nil
  slots_nodup := List.nodup_nil
  fresh := by simp

theorem empty (cfg : CacheConfig) : Represents cfg Containers.empty [] :=
  clear cfg Containers.empty

theorem addrs_items (h : Represents cfg s R) : addrs s.items = R.map Record.itemAddr := by
  rw [h.items, addrs, List.map_map]
  rfl

theorem nodup_addrs_items (h : Represents cfg s R) : (addrs s.items).Nodup := by
  rw [h.addrs_items]
  exact h.items_nodup

theorem findEntry_of_mem (h : Represents cfg s R) (hr : r ∈ R) :
    s.findEntry r.key = some r.entryNode :=
  h.map.find_of_mem h.keys_nodup hr

theorem findEntry_eq_none_iff (h : Represents cfg s R) {key : Key} :
    s.findEntry key = none ↔ key ∉ R.map Record.key :=
  h.map.find_eq_none_iff

theorem deref_item (h : Represents cfg s R) (hr : r ∈ R) :
    deref s.items r.itemAddr = .ok r.item := by
  refine deref_of_mem h.nodup_addrs_items (n := r.itemNode) ?_
  rw [h.items]
  exact List.mem_map_of_mem hr

theorem derefKey (h : Represents cfg s R) (hr : r ∈ R) :
    s.derefKey (some r.entryAddr) = .ok r.key := by
  have hd : deref s.itemMap r.entryAddr = .ok r.entryNode.val :=
    deref_of_mem h.map.nodup (h.map.mem hr)
  show (do return (← deref s.itemMap r.entryAddr).key) = Except.ok r.key
  rw [hd]
  rfl

theorem entries (h : Represents cfg s R) : s.entries = .ok (R.map Record.entry) := by
  unfold Containers.entries
  rw [h.items, List.mapM_map]
  refine Run.mapM_eq_ok fun r hr => ?_
  have hk : s.derefKey r.itemNode.val.key = .ok r.key := h.derefKey hr
  simp only [Function.comp_apply, hk, Run.ok_bind]
  rfl

/-- `get_item` of a stored key. -/
theorem getItem_of_mem (h : Represents cfg s R) (hr : r ∈ R) (t : Int64) :
    s.getItem r.key t = .ok (if r.entry.isExpired t then none else some r.itemNode) := by
  unfold Containers.getItem
  rw [h.findEntry_of_mem hr]
  have hd : deref s.items r.entryNode.val.iters.itemIter = .ok r.item := h.deref_item hr
  simp only [hd, Run.ok_bind]
  have he : r.item.isExpired t = r.entry.isExpired t := rfl
  rw [he]
  split <;> rfl

/-- `get_item` of a key that is not stored. -/
theorem getItem_of_not_mem (h : Represents cfg s R) {key : Key} (hk : key ∉ R.map Record.key)
    (t : Int64) : s.getItem key t = .ok none := by
  unfold Containers.getItem
  rw [h.findEntry_eq_none_iff.mpr hk]

theorem bucket_lt (h : Represents cfg s R) {b : Node Bucket} (hb : b ∈ s.expiryBuckets) :
    b.addr < s.nextAddr := by
  obtain ⟨c, hc⟩ := List.exists_mem_of_ne_nil _ (h.buckets.nonempty b hb)
  obtain ⟨r, hr, ha, -⟩ := (h.buckets.slots b hb c).mp hc
  exact ha ▸ (h.fresh r hr).2.2.1

/-! ## Moving to the front -/

/-- The records in another order, with the items in that order. -/
theorem reorder (h : Represents cfg s R) {R' : List Record} (hR : R'.Perm R) :
    Represents cfg { s with items := R'.map Record.itemNode } R' where
  items := rfl
  map := h.map.congr fun _ => hR.mem_iff
  buckets := h.buckets.congr fun _ => hR.mem_iff
  used := by
    rw [h.used]
    exact (hR.map Record.size).symm.foldr_eq' (fun x _ y _ z => by grind) 0
  keys_nodup := (hR.map _).nodup_iff.mpr h.keys_nodup
  entries_nodup := (hR.map _).nodup_iff.mpr h.entries_nodup
  items_nodup := (hR.map _).nodup_iff.mpr h.items_nodup
  slots_nodup := (hR.map _).nodup_iff.mpr h.slots_nodup
  fresh r hr := h.fresh r (hR.mem_iff.mp hr)

theorem markAsRecentlyUsed (h : Represents cfg s (pre ++ r :: post)) :
    Represents cfg (s.markAsRecentlyUsed r.key) (r :: (pre ++ post)) := by
  have hr : r ∈ pre ++ r :: post := by simp
  have hmove : moveFront s.items r.itemAddr = (r :: (pre ++ post)).map Record.itemNode := by
    have hn := h.nodup_addrs_items
    rw [h.items, List.map_append, List.map_cons] at hn ⊢
    have := moveFront_split hn
    rw [List.map_cons, List.map_append]
    exact this
  unfold Containers.markAsRecentlyUsed
  rw [h.findEntry_of_mem hr]
  show Represents cfg { s with items := moveFront s.items r.itemAddr } _
  rw [hmove]
  exact h.reorder List.perm_middle.symm

/-! ## Removing -/

/-- `remove_item` of a stored key: its record goes, and the result designates the item after it. -/
theorem removeItem (h : Represents cfg s (pre ++ r :: post)) :
    ∃ s', s.removeItem r.key = .ok (post.head?.map Record.itemAddr, s') ∧
      Represents cfg s' (pre ++ post) ∧ s'.nextAddr = s.nextAddr ∧
      Containers.eraseSlot s.expiryBuckets r.bucketAddr r.slotAddr = .ok s'.expiryBuckets := by
  have hr : r ∈ pre ++ r :: post := by simp
  have hn := h.nodup_addrs_items
  have hitems := h.items
  rw [hitems, List.map_append, List.map_cons] at hn
  rw [List.map_append, List.map_cons] at hitems
  have hnext : NodeList.next s.items r.itemAddr = post.head?.map Record.itemAddr := by
    have := next_split hn
    rw [hitems]
    refine this.trans ?_
    rw [List.head?_map, Option.map_map]
    rfl
  have herase : NodeList.erase s.items r.itemAddr = (pre ++ post).map Record.itemNode := by
    rw [hitems, List.map_append]
    exact erase_split hn
  have hsub : (pre ++ post).Sublist (pre ++ r :: post) :=
    List.Sublist.append (List.Sublist.refl _) (List.sublist_cons_self r post)
  obtain ⟨bs, hbs, hbuckets⟩ := h.buckets.eraseSlot h.slots_nodup
  refine ⟨{ s with items := (pre ++ post).map Record.itemNode,
                   itemMap := NodeList.erase s.itemMap r.entryAddr,
                   expiryBuckets := bs, usedMemory := s.usedMemory - r.size }, ?_, ?_, rfl, hbs⟩
  · unfold Containers.removeItem
    rw [h.findEntry_of_mem hr]
    have hd : deref s.items r.entryNode.val.iters.itemIter = .ok r.item := h.deref_item hr
    have hk : s.derefKey r.item.key = .ok r.key := h.derefKey hr
    have hb : Containers.eraseSlot s.expiryBuckets r.entryNode.val.iters.expiryMapIter
        r.entryNode.val.iters.expiryBucketIter = .ok bs := hbs
    simp only [hd, hk, hb, Run.ok_bind]
    rw [← herase, ← hnext]
    rfl
  · exact
      { items := rfl
        map := h.map.erase h.entries_nodup
        buckets := hbuckets
        used := by
          show s.usedMemory - r.size = _
          rw [h.used]
          simp only [List.map_append, List.map_cons, List.sum_append, List.sum_cons]
          grind
        keys_nodup := h.keys_nodup.sublist (hsub.map _)
        entries_nodup := h.entries_nodup.sublist (hsub.map _)
        items_nodup := h.items_nodup.sublist (hsub.map _)
        slots_nodup := h.slots_nodup.sublist (hsub.map _)
        fresh := fun x hx => h.fresh x (hsub.subset hx) }

/-! ## Inserting -/

/-- `insert_item` of a key that is not stored, step by step. -/
theorem insertItem_eq (hi : cfg.purgeInterval ≠ 0) {key : Key} (hk : s.findEntry key = none)
    {item : CacheItem} {b : Addr} {s₁ : Containers}
    (hemp : Containers.emplaceBucket { s with nextAddr := s.nextAddr + 1 }
      (purgeTimeAfter item.expiresAt cfg.purgeInterval) = (b, s₁)) :
    s.insertItem cfg key item = .ok (s.nextAddr,
      { items := ⟨s.nextAddr, { item with key := some (s₁.nextAddr + 1) }⟩ :: s.items
        itemMap := ⟨s₁.nextAddr + 1, ⟨key, ⟨s.nextAddr, b, s₁.nextAddr⟩⟩⟩ :: s.itemMap
        expiryBuckets := NodeList.modify s₁.expiryBuckets b
          fun c => { c with keys := c.keys ++ [⟨s₁.nextAddr, some (s₁.nextAddr + 1)⟩] }
        usedMemory := s.usedMemory + getItemSize key item.dataSize
        nextAddr := s₁.nextAddr + 2 }) := by
  obtain ⟨bs, n, rfl⟩ := Containers.emplaceBucket_frame hemp
  have hfind : Containers.findEntry
      { s with expiryBuckets := bs, nextAddr := n + 1 } key = none := hk
  unfold Containers.insertItem
  rw [nextPurgeTime_of_ne_zero hi, Run.ok_bind, hemp]
  simp only [Containers.insertEntry, hfind, Containers.pushSlot]
  rfl

/-- `insert_item` of a stored key adds a second element for it, and leaves `item_map_` as it is. -/
theorem insertItem_stored (hi : cfg.purgeInterval ≠ 0) {key : Key} {entry : Node MapEntry}
    (hk : s.findEntry key = some entry) (item : CacheItem) :
    ∃ s', s.insertItem cfg key item = .ok (s.nextAddr, s') ∧ s'.itemMap = s.itemMap ∧
      s'.items = ⟨s.nextAddr, { item with key := some entry.addr }⟩ :: s.items := by
  obtain ⟨b, s₁, hemp⟩ : ∃ b s₁, Containers.emplaceBucket { s with nextAddr := s.nextAddr + 1 }
    (purgeTimeAfter item.expiresAt cfg.purgeInterval) = (b, s₁) := ⟨_, _, rfl⟩
  obtain ⟨bs, n, rfl⟩ := Containers.emplaceBucket_frame hemp
  have hfind : Containers.findEntry
      { s with expiryBuckets := bs, nextAddr := n + 1 } key = some entry := hk
  unfold Containers.insertItem
  rw [nextPurgeTime_of_ne_zero hi, Run.ok_bind, hemp]
  simp only [Containers.insertEntry, hfind, Containers.pushSlot]
  exact ⟨_, rfl, rfl, rfl⟩

/-- `insert_item` of a key that is not stored puts a record of the item at the front. -/
theorem insertItem (h : Represents cfg s R) (hi : cfg.purgeInterval ≠ 0) {key : Key}
    (hk : key ∉ R.map Record.key) (item : CacheItem) :
    ∃ r s', s.insertItem cfg key item = .ok (r.itemAddr, s') ∧ r.entry = item.entry key ∧
      s.nextAddr ≤ r.entryAddr ∧ Represents cfg s' (r :: R) := by
  let s₀ : Containers := { s with nextAddr := s.nextAddr + 1 }
  let t := purgeTimeAfter item.expiresAt cfg.purgeInterval
  obtain ⟨b, s₁, hemp⟩ : ∃ b s₁, s₀.emplaceBucket t = (b, s₁) := ⟨_, _, rfl⟩
  have hle : s.nextAddr + 1 ≤ s₁.nextAddr := by
    have := Containers.le_nextAddr_emplaceBucket s₀ t
    rwa [hemp] at this
  have hlt : b < s₁.nextAddr := by
    have := Containers.emplaceBucket_lt (s := s₀) (t := t)
      fun c hc => Nat.lt_succ_of_lt (h.bucket_lt hc)
    rwa [hemp] at this
  let r : Record := ⟨key, s₁.nextAddr + 1, s.nextAddr, b, s₁.nextAddr, item.data, item.dataSize,
    item.expiresAt⟩
  have hfresh : s.nextAddr ≤ r.entryAddr := Nat.le_succ_of_le (Nat.le_of_succ_le hle)
  have hinsert := insertItem_eq hi (h.findEntry_eq_none_iff.mpr hk) hemp
  refine ⟨r, _, hinsert, rfl, hfresh, ?_⟩
  have hentry : ∀ x ∈ R, x.entryAddr ≠ r.entryAddr := fun x hx =>
    Nat.ne_of_lt (Nat.lt_of_lt_of_le (h.fresh x hx).1 (Nat.le_succ_of_le (Nat.le_of_succ_le hle)))
  have hslot : ∀ x ∈ R, x.slotAddr ≠ r.slotAddr := fun x hx =>
    Nat.ne_of_lt (Nat.lt_of_lt_of_le (h.fresh x hx).2.2.2 (Nat.le_of_succ_le hle))
  have hbuckets := BucketsRep.push (s := s₀) (r := r) (t := t) h.buckets
    (fun c hc => Nat.ne_of_lt (Nat.lt_succ_of_lt (h.bucket_lt hc))) hslot (by rw [hemp])
    (nextPurgeTime_of_ne_zero hi _)
  rw [hemp] at hbuckets
  exact
    { items := by rw [h.items]; rfl
      map := h.map.insert hentry
      buckets := hbuckets
      used := by
        rw [h.used, List.map_cons, List.sum_cons]
        exact UInt64.add_comm _ _
      keys_nodup := List.nodup_cons.mpr ⟨hk, h.keys_nodup⟩
      entries_nodup := nodup_map_cons h.entries_nodup hentry
      items_nodup := nodup_map_cons h.items_nodup fun x hx => Nat.ne_of_lt (h.fresh x hx).2.1
      slots_nodup := nodup_map_cons h.slots_nodup hslot
      fresh := by
        intro x hx
        rcases List.mem_cons.mp hx with rfl | hx
        · show s₁.nextAddr + 1 < s₁.nextAddr + 2 ∧ s.nextAddr < s₁.nextAddr + 2 ∧
            b < s₁.nextAddr + 2 ∧ s₁.nextAddr < s₁.nextAddr + 2
          grind
        · obtain ⟨h1, h2, h3, h4⟩ := h.fresh x hx
          show x.entryAddr < s₁.nextAddr + 2 ∧ x.itemAddr < s₁.nextAddr + 2 ∧
            x.bucketAddr < s₁.nextAddr + 2 ∧ x.slotAddr < s₁.nextAddr + 2
          grind }

/-! ## Updating -/

/-- A record whose item has been overwritten in place. -/
def overwrite (r : Record) (item : CacheItem) : Record :=
  { r with data := item.data, dataSize := item.dataSize, expiresAt := item.expiresAt }

/-- `update_item` up to the buckets: the record is overwritten and moved to the front. Its bucket is
still the one of its old expiry. -/
theorem update_items (h : Represents cfg s (pre ++ r :: post)) (item : CacheItem) :
    moveFront (NodeList.modify s.items r.itemAddr fun _ => { item with key := some r.entryAddr })
      r.itemAddr = (overwrite r item :: (pre ++ post)).map Record.itemNode := by
  have hn := h.nodup_addrs_items
  rw [h.items, List.map_append, List.map_cons] at hn ⊢
  have hmod := modify_split hn fun _ => { item with key := some r.entryAddr }
  have hn' := hn
  rw [← addrs_modify _ r.itemNode.addr fun _ => { item with key := some r.entryAddr }, hmod] at hn'
  have hmove := moveFront_split hn'
  rw [List.map_cons, List.map_append]
  exact (congrArg (moveFront · r.itemAddr) hmod).trans hmove

/-- `update_item_expiry_bucket` when the item stays in its bucket. -/
theorem updateItemExpiryBucket_same (hi : cfg.purgeInterval ≠ 0) {key : Key} {e₁ e₂ : Int64}
    (he : purgeTimeAfter e₁ cfg.purgeInterval = purgeTimeAfter e₂ cfg.purgeInterval) :
    s.updateItemExpiryBucket cfg key e₁ e₂ = .ok s := by
  unfold Containers.updateItemExpiryBucket
  rw [nextPurgeTime_of_ne_zero hi, nextPurgeTime_of_ne_zero hi, Run.ok_bind, Run.ok_bind, if_pos he]
  rfl

/-- `update_item_expiry_bucket` when the item moves to another bucket, step by step. -/
theorem updateItemExpiryBucket_eq (hi : cfg.purgeInterval ≠ 0) {key : Key} {e₁ e₂ : Int64}
    (he : purgeTimeAfter e₁ cfg.purgeInterval ≠ purgeTimeAfter e₂ cfg.purgeInterval)
    {entry : Node MapEntry} (hf : s.findEntry key = some entry) {item : CacheItem}
    (hitem : deref s.items entry.val.iters.itemIter = .ok item) {b : Addr} {s₁ : Containers}
    (hemp : s.emplaceBucket (purgeTimeAfter e₂ cfg.purgeInterval) = (b, s₁)) :
    s.updateItemExpiryBucket cfg key e₁ e₂ = (do
      let bs ← Containers.eraseSlot
        (NodeList.modify s₁.expiryBuckets b
          fun c => { c with keys := c.keys ++ [⟨s₁.nextAddr, item.key⟩] })
        entry.val.iters.expiryMapIter entry.val.iters.expiryBucketIter
      return { s with
        itemMap := NodeList.modify s.itemMap entry.addr fun e =>
          { e with iters := ⟨entry.val.iters.itemIter, b, s₁.nextAddr⟩ }
        expiryBuckets := bs
        nextAddr := s₁.nextAddr + 1 }) := by
  obtain ⟨bs, n, rfl⟩ := Containers.emplaceBucket_frame hemp
  unfold Containers.updateItemExpiryBucket
  rw [nextPurgeTime_of_ne_zero hi, nextPurgeTime_of_ne_zero hi, Run.ok_bind, Run.ok_bind, if_neg he,
    hf]
  simp only [hemp, hitem, Run.ok_bind, Containers.pushSlot]

theorem updateItem_eq (h : Represents cfg s (pre ++ r :: post)) (item : CacheItem) :
    s.updateItem cfg r.key item = (do
      let s' ← Containers.updateItemExpiryBucket cfg
        { s with
          usedMemory := s.usedMemory + (getItemSize r.key item.dataSize - r.size)
          items := (overwrite r item :: (pre ++ post)).map Record.itemNode }
        r.key r.expiresAt item.expiresAt
      return (r.itemAddr, s')) := by
  have hr : r ∈ pre ++ r :: post := by simp
  have hd : deref s.items r.entryNode.val.iters.itemIter = .ok r.item := h.deref_item hr
  unfold Containers.updateItem
  rw [h.findEntry_of_mem hr]
  simp only [hd, Run.ok_bind]
  rw [← h.update_items item]
  rfl

/-- The parts of `Represents` that do not depend on the buckets, after an update. -/
theorem used_update (h : Represents cfg s (pre ++ r :: post)) (item : CacheItem) {r' : Record}
    (hr' : r'.entry = item.entry r.key) :
    s.usedMemory + (getItemSize r.key item.dataSize - r.size) =
      ((r' :: (pre ++ post)).map Record.size).sum := by
  have hsize : r'.size = getItemSize r.key item.dataSize := by
    have hkey : r'.key = r.key := congrArg Entry.key hr'
    have hdata : r'.dataSize = item.dataSize := congrArg Entry.dataSize hr'
    rw [Record.size, hkey, hdata]
  rw [h.used, List.map_cons, List.sum_cons, hsize]
  simp only [List.map_append, List.map_cons, List.sum_append, List.sum_cons]
  grind

/-- A record may be overwritten and moved to the front if it keeps its key, its element of `items_`
and its `item_map_` node, and the map and the buckets follow. -/
theorem replaced (h : Represents cfg s (pre ++ r :: post)) (r' : Record) {item : CacheItem}
    {s' : Containers} (hentry : r'.entry = item.entry r.key) (hmapAddr : r'.entryAddr = r.entryAddr)
    (hitemAddr : r'.itemAddr = r.itemAddr)
    (hitems : s'.items = (r' :: (pre ++ post)).map Record.itemNode)
    (hused : s'.usedMemory = s.usedMemory + (getItemSize r.key item.dataSize - r.size))
    (hmap : MapRep s'.itemMap (r' :: (pre ++ post)))
    (hbuckets : BucketsRep cfg.purgeInterval s'.expiryBuckets (r' :: (pre ++ post)))
    (hslots : ((r' :: (pre ++ post)).map Record.slotAddr).Nodup) (hle : s.nextAddr ≤ s'.nextAddr)
    (hbucket : r'.bucketAddr < s'.nextAddr) (hslot : r'.slotAddr < s'.nextAddr) :
    Represents cfg s' (r' :: (pre ++ post)) := by
  have hr : r ∈ pre ++ r :: post := by simp
  have hsub : (pre ++ post).Sublist (pre ++ r :: post) :=
    List.Sublist.append (List.Sublist.refl _) (List.sublist_cons_self r post)
  have hkey : r'.key = r.key := congrArg Entry.key hentry
  exact
    { items := hitems
      map := hmap
      buckets := hbuckets
      used := hused.trans (h.used_update item hentry)
      keys_nodup := nodup_map_replace h.keys_nodup hkey
      entries_nodup := nodup_map_replace h.entries_nodup hmapAddr
      items_nodup := nodup_map_replace h.items_nodup hitemAddr
      slots_nodup := hslots
      fresh := by
        intro x hx
        rcases List.mem_cons.mp hx with rfl | hx
        · obtain ⟨h1, h2, -, -⟩ := h.fresh r hr
          exact ⟨hmapAddr ▸ Nat.lt_of_lt_of_le h1 hle, hitemAddr ▸ Nat.lt_of_lt_of_le h2 hle,
            hbucket, hslot⟩
        · obtain ⟨h1, h2, h3, h4⟩ := h.fresh x (hsub.subset hx)
          exact ⟨Nat.lt_of_lt_of_le h1 hle, Nat.lt_of_lt_of_le h2 hle, Nat.lt_of_lt_of_le h3 hle,
            Nat.lt_of_lt_of_le h4 hle⟩ }

/-- `update_item` when the item stays in its bucket. -/
theorem updateItem_same (h : Represents cfg s (pre ++ r :: post)) (hi : cfg.purgeInterval ≠ 0)
    (item : CacheItem) (he : purgeTimeAfter r.expiresAt cfg.purgeInterval =
      purgeTimeAfter item.expiresAt cfg.purgeInterval) :
    ∃ s', s.updateItem cfg r.key item = .ok (r.itemAddr, s') ∧
      Represents cfg s' (overwrite r item :: (pre ++ post)) := by
  have htime : nextPurgeTime (overwrite r item).expiresAt cfg.purgeInterval =
      nextPurgeTime r.expiresAt cfg.purgeInterval := by
    rw [nextPurgeTime_of_ne_zero hi, nextPurgeTime_of_ne_zero hi, he]
    rfl
  obtain ⟨-, -, hbucket, hslot⟩ := h.fresh r (by simp)
  rw [h.updateItem_eq, updateItemExpiryBucket_same hi he]
  exact ⟨_, rfl, h.replaced (overwrite r item) rfl rfl rfl rfl rfl (h.map.replace rfl)
    (h.buckets.replace rfl rfl htime) (nodup_map_replace h.slots_nodup rfl) (Nat.le_refl _)
    hbucket hslot⟩

/-- `update_item` when the item moves to another bucket: the new slot is added before the old one is
erased. -/
theorem updateItem_moved (h : Represents cfg s (pre ++ r :: post)) (hi : cfg.purgeInterval ≠ 0)
    (item : CacheItem) (he : purgeTimeAfter r.expiresAt cfg.purgeInterval ≠
      purgeTimeAfter item.expiresAt cfg.purgeInterval) :
    ∃ b slot s', s.updateItem cfg r.key item = .ok (r.itemAddr, s') ∧
      Represents cfg s'
        ({ overwrite r item with bucketAddr := b, slotAddr := slot } :: (pre ++ post)) := by
  have hsub : (pre ++ post).Sublist (pre ++ r :: post) :=
    List.Sublist.append (List.Sublist.refl _) (List.sublist_cons_self r post)
  let s₁ : Containers := { s with
    usedMemory := s.usedMemory + (getItemSize r.key item.dataSize - r.size)
    items := (overwrite r item :: (pre ++ post)).map Record.itemNode }
  let t := purgeTimeAfter item.expiresAt cfg.purgeInterval
  obtain ⟨b, s₂, hemp⟩ : ∃ b s₂, s₁.emplaceBucket t = (b, s₂) := ⟨_, _, rfl⟩
  have hle : s.nextAddr ≤ s₂.nextAddr := by
    have := Containers.le_nextAddr_emplaceBucket s₁ t
    rwa [hemp] at this
  have hlt : b < s₂.nextAddr := by
    have := Containers.emplaceBucket_lt (s := s₁) (t := t) fun c hc => h.bucket_lt hc
    rwa [hemp] at this
  let r' : Record := { overwrite r item with bucketAddr := b, slotAddr := s₂.nextAddr }
  have hslot : ∀ x ∈ pre ++ r :: post, x.slotAddr ≠ r'.slotAddr := fun x hx =>
    Nat.ne_of_lt (Nat.lt_of_lt_of_le (h.fresh x hx).2.2.2 hle)
  have hpush := BucketsRep.push (s := s₁) (r := r') (t := t) h.buckets
    (fun c hc => Nat.ne_of_lt (h.bucket_lt hc)) hslot (by rw [hemp])
    (nextPurgeTime_of_ne_zero hi _)
  rw [hemp] at hpush
  have hpush : BucketsRep cfg.purgeInterval _ ((r' :: pre) ++ r :: post) := hpush
  obtain ⟨bs, hbs, hbuckets⟩ := hpush.eraseSlot (nodup_map_cons h.slots_nodup hslot)
  have hfind : s₁.findEntry r.key = some r.entryNode := h.findEntry_of_mem (by simp)
  have hitem : deref s₁.items r.entryNode.val.iters.itemIter = .ok (overwrite r item).item := by
    refine deref_of_mem (n := (overwrite r item).itemNode) ?_ List.mem_cons_self
    show (((overwrite r item :: (pre ++ post)).map Record.itemNode).map Node.addr).Nodup
    rw [List.map_map]
    exact nodup_map_replace (f := Record.itemAddr) h.items_nodup rfl
  let s₃ : Containers := { s₁ with
    itemMap := NodeList.modify s.itemMap r.entryAddr fun e =>
      { e with iters := ⟨r.itemAddr, b, s₂.nextAddr⟩ }
    expiryBuckets := bs
    nextAddr := s₂.nextAddr + 1 }
  have hupd : s₁.updateItemExpiryBucket cfg r.key r.expiresAt item.expiresAt = .ok s₃ :=
    (updateItemExpiryBucket_eq hi he hfind hitem hemp).trans (Run.bind_eq_ok.mpr ⟨bs, hbs, rfl⟩)
  have hentry : r'.entry = item.entry r.key := rfl
  have hmap : MapRep (NodeList.modify s.itemMap r.entryAddr fun e =>
      { e with iters := ⟨r.itemAddr, b, s₂.nextAddr⟩ }) (r' :: (pre ++ post)) :=
    h.map.modify h.entries_nodup rfl
  have hslots : ((r' :: (pre ++ post)).map Record.slotAddr).Nodup :=
    nodup_map_cons (h.slots_nodup.sublist (hsub.map _)) fun x hx => hslot x (hsub.subset hx)
  refine ⟨b, s₂.nextAddr, s₃, ?_, h.replaced r' hentry rfl rfl rfl rfl hmap hbuckets hslots
    (Nat.le_succ_of_le hle) (Nat.lt_succ_of_lt hlt) (Nat.lt_succ_self _)⟩
  rw [h.updateItem_eq, hupd]
  rfl

/-- `update_item` of a stored key: its record holds the new item and is at the front. It keeps its
element of `items_` and its `item_map_` node. -/
theorem updateItem (h : Represents cfg s (pre ++ r :: post)) (hi : cfg.purgeInterval ≠ 0)
    (item : CacheItem) :
    ∃ r' s', s.updateItem cfg r.key item = .ok (r.itemAddr, s') ∧ r'.entry = item.entry r.key ∧
      r'.entryAddr = r.entryAddr ∧ r'.itemAddr = r.itemAddr ∧
      Represents cfg s' (r' :: (pre ++ post)) := by
  by_cases he : purgeTimeAfter r.expiresAt cfg.purgeInterval =
      purgeTimeAfter item.expiresAt cfg.purgeInterval
  · obtain ⟨s', hs', h'⟩ := h.updateItem_same hi item he
    exact ⟨overwrite r item, s', hs', rfl, rfl, rfl, h'⟩
  · obtain ⟨b, slot, s', hs', h'⟩ := h.updateItem_moved hi item he
    exact ⟨{ overwrite r item with bucketAddr := b, slotAddr := slot }, s', hs', rfl, rfl, rfl, h'⟩

end Represents

end LruCache
