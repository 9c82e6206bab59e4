import Mathlib.Data.List.Pairwise
import LruCache.Commits

/-!
# The representation invariant

`RepInv` says in terms of the nodes and iterators of `cache_storage` what keeps `items_`,
`item_map_` and `expiry_buckets_` together. It holds of every state that represents a list of
records, so it holds along every run whose writes are safe; and a write that is not safe breaks it.
-/

namespace LruCache

open NodeList

/-- Nodes of one container have distinct addresses, and the allocator has handed them all out. -/
structure Containers.Allocated (s : Containers) : Prop where
  items_nodup : (addrs s.items).Nodup
  entries_nodup : (addrs s.itemMap).Nodup
  buckets_nodup : (addrs s.expiryBuckets).Nodup
  slots_nodup : (s.expiryBuckets.flatMap fun b => addrs b.val.keys).Nodup
  items_lt : ∀ n ∈ s.items, n.addr < s.nextAddr
  entries_lt : ∀ e ∈ s.itemMap, e.addr < s.nextAddr
  buckets_lt : ∀ b ∈ s.expiryBuckets, b.addr < s.nextAddr ∧ ∀ c ∈ b.val.keys, c.addr < s.nextAddr

/-- The representation invariant of `cache_storage`. -/
structure RepInv (cfg : CacheConfig) (s : Containers) : Prop where
  allocated : s.Allocated
  /-- `items_` holds each key at most once, and `used_memory_` is the sum of the sizes. -/
  contents : ∃ l, s.entries = .ok l ∧ (l.map Entry.key).Nodup ∧
    s.usedMemory = (l.map Entry.size).sum
  /-- The `item_iter` of exactly one entry designates an element of `items_`. -/
  entry_of_item : ∀ n ∈ s.items, ∃! e, e ∈ s.itemMap ∧ e.val.iters.itemIter = n.addr
  /-- The `item_iter` of an entry designates the element that points to its key. -/
  item_of_entry : ∀ e ∈ s.itemMap, ∃ n ∈ s.items,
    e.val.iters.itemIter = n.addr ∧ n.val.key = some e.addr
  /-- The key is in the bucket of its expiry, at the position of its stored iterators. -/
  slot_of_entry : ∀ e ∈ s.itemMap, ∀ n ∈ s.items, e.val.iters.itemIter = n.addr →
    ∃ b ∈ s.expiryBuckets, b.addr = e.val.iters.expiryMapIter ∧
      nextPurgeTime n.val.expiresAt cfg.purgeInterval = .ok b.val.purgeAt ∧
      ⟨e.val.iters.expiryBucketIter, some e.addr⟩ ∈ b.val.keys
  /-- It is nowhere else in the buckets. -/
  entry_of_slot : ∀ b ∈ s.expiryBuckets, ∀ c ∈ b.val.keys, ∃ e ∈ s.itemMap,
    c.val = some e.addr ∧ e.val.iters.expiryMapIter = b.addr ∧
      e.val.iters.expiryBucketIter = c.addr
  buckets_sorted : s.expiryBuckets.Pairwise fun b c => b.val.purgeAt < c.val.purgeAt
  buckets_nonempty : ∀ b ∈ s.expiryBuckets, b.val.keys ≠ []

namespace Represents

variable {cfg : CacheConfig} {s : Containers} {R : List Record}

theorem mem_items (h : Represents cfg s R) {n : Node CacheItem} :
    n ∈ s.items ↔ ∃ r ∈ R, r.itemNode = n := by
  rw [h.items, List.mem_map]

theorem nodup_slots (h : Represents cfg s R) :
    (s.expiryBuckets.flatMap fun b => addrs b.val.keys).Nodup := by
  rw [List.nodup_flatMap]
  refine ⟨h.buckets.slots_nodup, ?_⟩
  have hne : s.expiryBuckets.Pairwise fun b c => b.addr ≠ c.addr :=
    List.pairwise_map.mp h.buckets.nodup
  refine hne.imp_of_mem fun {b c} hb hc hbc a ha hac => ?_
  obtain ⟨x, hx, rfl⟩ := mem_addrs.mp ha
  obtain ⟨y, hy, hxy⟩ := mem_addrs.mp hac
  obtain ⟨r, hr, hrb, hrx⟩ := (h.buckets.slots b hb x).mp hx
  obtain ⟨q, hq, hqc, hqy⟩ := (h.buckets.slots c hc y).mp hy
  have haddr : q.slotAddr = r.slotAddr :=
    (congrArg Node.addr hqy).trans (hxy.trans (congrArg Node.addr hrx).symm)
  have hrq := List.inj_on_of_nodup_map h.slots_nodup hq hr haddr
  exact hbc (hrb.symm.trans (hrq ▸ hqc))

theorem allocated (h : Represents cfg s R) : s.Allocated where
  items_nodup := h.nodup_addrs_items
  entries_nodup := h.map.nodup
  buckets_nodup := h.buckets.nodup
  slots_nodup := h.nodup_slots
  items_lt := by
    intro n hn
    obtain ⟨r, hr, rfl⟩ := h.mem_items.mp hn
    exact (h.fresh r hr).2.1
  entries_lt := by
    intro e he
    obtain ⟨r, hr, rfl⟩ := (h.map.entries e).mp he
    exact (h.fresh r hr).1
  buckets_lt := by
    intro b hb
    refine ⟨h.bucket_lt hb, fun c hc => ?_⟩
    obtain ⟨r, hr, -, rfl⟩ := (h.buckets.slots b hb c).mp hc
    exact (h.fresh r hr).2.2.2

/-- What represents a list of records satisfies the invariant. -/
theorem repInv (h : Represents cfg s R) : RepInv cfg s where
  allocated := h.allocated
  contents := by
    refine ⟨R.map Record.entry, h.entries, ?_, ?_⟩
    · rw [List.map_map]
      exact h.keys_nodup
    · rw [List.map_map]
      exact h.used
  entry_of_item := by
    intro n hn
    obtain ⟨r, hr, rfl⟩ := h.mem_items.mp hn
    refine ⟨r.entryNode, ⟨h.map.mem hr, rfl⟩, ?_⟩
    rintro e ⟨he, hiter⟩
    obtain ⟨x, hx, rfl⟩ := (h.map.entries e).mp he
    rw [List.inj_on_of_nodup_map h.items_nodup hx hr hiter]
  item_of_entry := by
    intro e he
    obtain ⟨r, hr, rfl⟩ := (h.map.entries e).mp he
    exact ⟨r.itemNode, h.mem_items.mpr ⟨r, hr, rfl⟩, rfl, rfl⟩
  slot_of_entry := by
    intro e he n hn hiter
    obtain ⟨r, hr, rfl⟩ := (h.map.entries e).mp he
    obtain ⟨x, hx, rfl⟩ := h.mem_items.mp hn
    rw [← List.inj_on_of_nodup_map h.items_nodup hr hx hiter]
    obtain ⟨b, hb, haddr, ht⟩ := h.buckets.bucket r hr
    exact ⟨b, hb, haddr, ht, (h.buckets.slots b hb _).mpr ⟨r, hr, haddr.symm, rfl⟩⟩
  entry_of_slot := by
    intro b hb c hc
    obtain ⟨r, hr, haddr, rfl⟩ := (h.buckets.slots b hb c).mp hc
    exact ⟨r.entryNode, h.map.mem hr, rfl, haddr, rfl⟩
  buckets_sorted := h.buckets.sorted
  buckets_nonempty := h.buckets.nonempty

end Represents

namespace RepInv

variable {cfg : CacheConfig} {s : Containers}

/-- Two elements of `items_` never share a key pointer. -/
theorem addr_eq_of_key_eq (h : RepInv cfg s) {n m : Node CacheItem} (hn : n ∈ s.items)
    (hm : m ∈ s.items) (hk : n.val.key = m.val.key) : n.addr = m.addr := by
  obtain ⟨e, ⟨he, hiter⟩, -⟩ := h.entry_of_item n hn
  obtain ⟨f, ⟨hf, hfiter⟩, -⟩ := h.entry_of_item m hm
  obtain ⟨n', hn', hn'a, hn'k⟩ := h.item_of_entry e he
  obtain ⟨m', hm', hm'a, hm'k⟩ := h.item_of_entry f hf
  have hnn := eq_of_addr_eq h.allocated.items_nodup hn' hn (hn'a.symm.trans hiter)
  have hmm := eq_of_addr_eq h.allocated.items_nodup hm' hm (hm'a.symm.trans hfiter)
  subst hnn hmm
  have hef : e.addr = f.addr := Option.some.inj (hn'k.symm.trans (hk.trans hm'k))
  rw [← hiter, ← hfiter, eq_of_addr_eq h.allocated.entries_nodup he hf hef]

/-- The elements of `items_` are those of records whose entries are in the map. -/
theorem exists_records (h : RepInv cfg s) {l : List (Node CacheItem)} (hl : ∀ n ∈ l, n ∈ s.items) :
    ∃ R : List Record, R.map Record.itemNode = l ∧ ∀ r ∈ R, r.entryNode ∈ s.itemMap := by
  induction l with
  | nil => exact ⟨[], rfl, fun r hr => nomatch hr⟩
  | cons n l ih =>
    obtain ⟨R, hR, hmem⟩ := ih fun m hm => hl m (List.mem_cons_of_mem n hm)
    have hn := hl n List.mem_cons_self
    obtain ⟨e, ⟨he, hiter⟩, -⟩ := h.entry_of_item n hn
    obtain ⟨m, hm, hma, hmk⟩ := h.item_of_entry e he
    cases eq_of_addr_eq h.allocated.items_nodup hm hn (hma.symm.trans hiter)
    obtain ⟨a, ⟨p, data, dataSize, expiresAt⟩⟩ := n
    obtain ⟨b, ⟨k, ⟨i, bucket, slot⟩⟩⟩ := e
    obtain rfl : i = a := hiter
    obtain rfl : p = some b := hmk
    refine ⟨⟨k, b, i, bucket, slot, data, dataSize, expiresAt⟩ :: R, ?_, ?_⟩
    · rw [List.map_cons, hR]
      rfl
    · intro r hr
      rcases List.mem_cons.mp hr with rfl | hr
      · exact he
      · exact hmem r hr

section Records

variable {R : List Record} (h : RepInv cfg s) (hitems : R.map Record.itemNode = s.items)
  (hmem : ∀ r ∈ R, r.entryNode ∈ s.itemMap)

include h hitems hmem

theorem mapRep : MapRep s.itemMap R := by
  have hentries := h.allocated.entries_nodup
  refine ⟨hentries, fun e => ⟨fun he => ?_, ?_⟩⟩
  · obtain ⟨n, hn, -, hk⟩ := h.item_of_entry e he
    rw [← hitems] at hn
    obtain ⟨r, hr, rfl⟩ := List.mem_map.mp hn
    exact ⟨r, hr, eq_of_addr_eq hentries (hmem r hr) he (Option.some.inj hk)⟩
  · rintro ⟨r, hr, rfl⟩
    exact hmem r hr

theorem slot_of_record {r : Record} (hr : r ∈ R) :
    ∃ b ∈ s.expiryBuckets, b.addr = r.bucketAddr ∧
      nextPurgeTime r.expiresAt cfg.purgeInterval = .ok b.val.purgeAt ∧
      r.slotNode ∈ b.val.keys :=
  h.slot_of_entry _ (hmem r hr) r.itemNode (hitems ▸ List.mem_map_of_mem hr) rfl

theorem bucketsRep : BucketsRep cfg.purgeInterval s.expiryBuckets R := by
  obtain ⟨hslots, -⟩ := List.nodup_flatMap.mp h.allocated.slots_nodup
  refine ⟨h.buckets_sorted, h.allocated.buckets_nodup, h.buckets_nonempty, hslots, ?_, ?_⟩
  · intro b hb c
    constructor
    · intro hc
      obtain ⟨e, he, hce, hbe, hse⟩ := h.entry_of_slot b hb c hc
      obtain ⟨r, hr, rfl⟩ := ((h.mapRep hitems hmem).entries e).mp he
      obtain ⟨a, p⟩ := c
      obtain rfl : p = _ := hce
      obtain rfl : _ = a := hse
      exact ⟨r, hr, hbe, rfl⟩
    · rintro ⟨r, hr, hrb, rfl⟩
      obtain ⟨b', hb', haddr, -, hc⟩ := h.slot_of_record hitems hmem hr
      rwa [← eq_of_addr_eq h.allocated.buckets_nodup hb' hb (haddr.trans hrb)]
  · intro r hr
    obtain ⟨b, hb, haddr, ht, -⟩ := h.slot_of_record hitems hmem hr
    exact ⟨b, hb, haddr, ht⟩

theorem entries_eq : s.entries = .ok (R.map Record.entry) := by
  unfold Containers.entries
  rw [← hitems, List.mapM_map]
  refine Run.mapM_eq_ok fun r hr => ?_
  show (do return r.item.entry (← s.derefKey (some r.entryAddr))) = _
  have hd : deref s.itemMap r.entryAddr = .ok r.entryNode.val :=
    deref_of_mem h.allocated.entries_nodup (hmem r hr)
  simp only [Containers.derefKey, hd, Run.ok_bind]
  rfl

theorem keys_nodup : (R.map Record.key).Nodup := by
  obtain ⟨l, hl, hkeys, -⟩ := h.contents
  cases (h.entries_eq hitems hmem).symm.trans hl
  rwa [List.map_map] at hkeys

theorem used_eq : s.usedMemory = (R.map Record.size).sum := by
  obtain ⟨l, hl, -, hused⟩ := h.contents
  cases (h.entries_eq hitems hmem).symm.trans hl
  rwa [List.map_map] at hused

theorem record_eq_of_entryAddr {r q : Record} (hr : r ∈ R) (hq : q ∈ R)
    (hrq : r.entryAddr = q.entryAddr) : r = q := by
  have hnode : r.entryNode = q.entryNode :=
    eq_of_addr_eq h.allocated.entries_nodup (hmem r hr) (hmem q hq) hrq
  have hkey : r.key = q.key := congrArg (fun n : Node MapEntry => n.val.key) hnode
  exact List.inj_on_of_nodup_map (h.keys_nodup hitems hmem) hr hq hkey

theorem record_eq_of_slotAddr {r q : Record} (hr : r ∈ R) (hq : q ∈ R)
    (hrq : r.slotAddr = q.slotAddr) : r = q := by
  obtain ⟨hslots, hdisjoint⟩ := List.nodup_flatMap.mp h.allocated.slots_nodup
  obtain ⟨b, hb, -, -, hrb⟩ := h.slot_of_record hitems hmem hr
  obtain ⟨c, hc, -, -, hqc⟩ := h.slot_of_record hitems hmem hq
  by_cases hbc : b = c
  · subst hbc
    have hnode := eq_of_addr_eq (hslots b hb) hrb hqc hrq
    exact h.record_eq_of_entryAddr hitems hmem hr hq (Option.some.inj (congrArg Node.val hnode))
  · -- a slot is in one bucket only
    have : Std.Symm (Function.onFun List.Disjoint fun b : Node Bucket => addrs b.val.keys) :=
      ⟨fun _ _ hd _ hc hb => hd hb hc⟩
    have haddr : r.slotAddr ∈ addrs c.val.keys := hrq ▸ mem_addrs_of_mem hqc
    exact absurd haddr (hdisjoint.forall hb hc hbc (mem_addrs_of_mem hrb))

end Records

/-- A state with the invariant represents a list of records. -/
theorem represents (h : RepInv cfg s) : ∃ R, Represents cfg s R := by
  obtain ⟨R, hitems, hmem⟩ := h.exists_records (l := s.items) fun n hn => hn
  have hkeys := h.keys_nodup hitems hmem
  have hnodup : R.Nodup := List.Nodup.of_map _ hkeys
  have haddrs := h.allocated.items_nodup
  rw [← hitems] at haddrs
  refine ⟨R,
    { items := hitems.symm
      map := h.mapRep hitems hmem
      buckets := h.bucketsRep hitems hmem
      used := h.used_eq hitems hmem
      keys_nodup := hkeys
      entries_nodup := hnodup.map_on fun r hr q hq => h.record_eq_of_entryAddr hitems hmem hr hq
      items_nodup := (List.map_map ▸ haddrs : (R.map (Node.addr ∘ Record.itemNode)).Nodup)
      slots_nodup := hnodup.map_on fun r hr q hq => h.record_eq_of_slotAddr hitems hmem hr hq
      fresh := fun r hr => ?_ }⟩
  obtain ⟨b, hb, haddr, -, hc⟩ := h.slot_of_record hitems hmem hr
  obtain ⟨hblt, hslt⟩ := h.allocated.buckets_lt b hb
  exact ⟨h.allocated.entries_lt _ (hmem r hr),
    h.allocated.items_lt _ (hitems ▸ List.mem_map_of_mem hr), haddr ▸ hblt, hslt _ hc⟩

end RepInv

/-- After a write of a stored but expired key `items_` holds the key twice. -/
theorem not_repInv_of_not_safe {cfg : CacheConfig} {s s' : CacheStorage} {R : List Record}
    {op : StorageOp} {a : Option Bool} (h : Represents cfg s.toContainers R)
    (hi : cfg.purgeInterval ≠ 0) (hop : ¬ op.Safe cfg s) (hs : s.step cfg op = .ok (a, s')) :
    ¬ RepInv cfg s'.toContainers := by
  cases op with
  | commitWrite key item w =>
    obtain ⟨hrej, hw⟩ : rejection cfg key item w = none ∧ ¬ s.Writable key w := by
      simpa [StorageOp.Safe] using hop
    obtain ⟨r, hr, hk, he, b, t, hwrite, -, hold, -, hnew, hne⟩ :=
      h.writeAccepted_expired item hi hw
    have hcommit : s.commitWrite cfg key item w = .ok (true, ⟨t, some .doneOk⟩) :=
      CacheStorage.commitWrite_eq_ok.mpr (.inr ⟨hrej, rfl, t, hwrite, rfl⟩)
    simp only [CacheStorage.step, hcommit, Run.ok_bind] at hs
    cases hs
    intro hinv
    exact hne (hinv.addr_eq_of_key_eq hnew hold rfl)
  | commitRead key t => exact absurd trivial hop
  | commitPurge t => exact absurd trivial hop
  | evictLruData key m => exact absurd trivial hop
  | clear => exact absurd trivial hop

/-- Every run whose writes are safe returns and ends in a state with the invariant. A further step
keeps the invariant exactly when it is safe. -/
theorem repInv_of_safeRun {cfg : CacheConfig} (hi : 0 < cfg.purgeInterval) {ops : List StorageOp}
    (hsafe : SafeRun cfg ops) :
    ∃ answers s, CacheStorage.run cfg .new ops = .ok (answers, s) ∧ RepInv cfg s.toContainers ∧
      ∀ op a s', s.step cfg op = .ok (a, s') →
        (RepInv cfg s'.toContainers ↔ op.Safe cfg s) := by
  have hi' : cfg.purgeInterval ≠ 0 := (Int32.ne_of_lt hi).symm
  obtain ⟨answers, s, hrun, R, h⟩ := Represents.of_safeRun hi' hsafe
  refine ⟨answers, s, hrun, h.repInv, fun op a s' hs => ⟨fun hinv => ?_, fun hop => ?_⟩⟩
  · by_contra hop
    exact not_repInv_of_not_safe h hi' hop hs hinv
  · obtain ⟨b, t, R', hstep, h', -⟩ := h.step hi' hop
    rw [hstep] at hs
    cases hs
    exact h'.repInv

/-- A run with an update, a purge of one bucket and a read. -/
theorem repInv_of_safeRun_sample :
    ∃ answers s, CacheStorage.run Sample.config .new
        [.commitWrite (Sample.key 1) (Sample.item 3 (by decide) 150) 100,
          .commitWrite (Sample.key 2) (Sample.item 5 (by decide) 400) 110,
          .commitWrite (Sample.key 1) (Sample.item 7 (by decide) 250) 120,
          .commitPurge 300, .commitRead (Sample.key 2) 310] = .ok (answers, s) ∧
      RepInv Sample.config s.toContainers ∧
      ∀ op a s', s.step Sample.config op = .ok (a, s') →
        (RepInv Sample.config s'.toContainers ↔ op.Safe Sample.config s) :=
  repInv_of_safeRun (by decide) (by decide +kernel)

/-- The key is written, expires at 150 and is written again at 160, with no purge in between. -/
theorem expired_rewrite_breaks_repInv :
    StorageOp.NonDecreasing [.commitWrite (Sample.key 1) (Sample.item 3 (by decide) 150) 100,
      .commitWrite (Sample.key 1) (Sample.item 5 (by decide) 250) 160] ∧
    ∃ answers s, CacheStorage.run Sample.config .new
        [.commitWrite (Sample.key 1) (Sample.item 3 (by decide) 150) 100,
          .commitWrite (Sample.key 1) (Sample.item 5 (by decide) 250) 160] = .ok (answers, s) ∧
      ¬ RepInv Sample.config s.toContainers := by
  refine ⟨by decide, ?_⟩
  have hkeys : (do
      let (_, s) ← CacheStorage.run Sample.config .new
        [.commitWrite (Sample.key 1) (Sample.item 3 (by decide) 150) 100,
          .commitWrite (Sample.key 1) (Sample.item 5 (by decide) 250) 160]
      let l ← s.entries
      return l.map Entry.key) = .ok [Sample.key 1, Sample.key 1] := by decide +kernel
  obtain ⟨⟨answers, s⟩, hrun, hkeys⟩ := Run.bind_eq_ok.mp hkeys
  obtain ⟨l, hl, hkeys⟩ := Run.bind_eq_ok.mp hkeys
  refine ⟨answers, s, hrun, fun hinv => ?_⟩
  obtain ⟨l', hl', hn, -⟩ := hinv.contents
  cases hl.symm.trans hl'
  rw [Except.ok.inj hkeys] at hn
  exact absurd hn (by decide)

end LruCache
