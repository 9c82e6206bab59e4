import LruCache.CacheStorage

/-!
# What the containers represent

The three containers of `cache_storage` refer to each other through iterators and key pointers. A
`Record` is one stored item together with the addresses of the four nodes that hold it: its element
of `items_`, its `item_map_` node, its bucket and its slot in that bucket. `Represents cfg s R` says
that the containers of `s` are exactly the images of the list of records `R`, most recently used
first. The order matters for `items_` only; the map and the buckets depend on membership.

Every operation is then a small change of `R`: a new head, a record moved to the front, a record
dropped.
-/

namespace LruCache

open NodeList

/-- A stored item and the nodes that hold it. -/
structure Record where
  key : Key
  entryAddr : Addr
  itemAddr : Addr
  bucketAddr : Addr
  slotAddr : Addr
  data : ItemData
  dataSize : UInt64
  expiresAt : Int64
deriving DecidableEq, Repr

namespace Record

/-- The `cache_item` in `items_`. -/
def item (r : Record) : CacheItem := ⟨some r.entryAddr, r.data, r.dataSize, r.expiresAt⟩

def itemNode (r : Record) : Node CacheItem := ⟨r.itemAddr, r.item⟩

def entryNode (r : Record) : Node MapEntry :=
  ⟨r.entryAddr, ⟨r.key, ⟨r.itemAddr, r.bucketAddr, r.slotAddr⟩⟩⟩

def slotNode (r : Record) : Node (Option Addr) := ⟨r.slotAddr, some r.entryAddr⟩

def size (r : Record) : UInt64 := getItemSize r.key r.dataSize

/-- The record without its addresses. -/
def entry (r : Record) : Entry := ⟨r.key, r.data, r.dataSize, r.expiresAt⟩

end Record

/-- `item_map_` holds one node for each record, and no other. -/
structure MapRep (m : List (Node MapEntry)) (R : List Record) : Prop where
  nodup : (addrs m).Nodup
  entries : ∀ n, n ∈ m ↔ ∃ r ∈ R, r.entryNode = n

/-- `expiry_buckets_` is sorted, has no empty bucket, and holds one slot for each record, in the
bucket of its expiry. Two records may share a key here: an update adds the new slot of an item
before it erases the old one. -/
structure BucketsRep (interval : Int32) (bs : List (Node Bucket)) (R : List Record) : Prop where
  sorted : bs.Pairwise fun b c => b.val.purgeAt < c.val.purgeAt
  nodup : (addrs bs).Nodup
  nonempty : ∀ b ∈ bs, b.val.keys ≠ []
  slots_nodup : ∀ b ∈ bs, (addrs b.val.keys).Nodup
  slots : ∀ b ∈ bs, ∀ c, c ∈ b.val.keys ↔ ∃ r ∈ R, r.bucketAddr = b.addr ∧ r.slotNode = c
  bucket : ∀ r ∈ R, ∃ b ∈ bs, b.addr = r.bucketAddr ∧
    nextPurgeTime r.expiresAt interval = .ok b.val.purgeAt

/-- The containers of `s` are the images of the records `R`. -/
structure Represents (cfg : CacheConfig) (s : Containers) (R : List Record) : Prop where
  items : s.items = R.map Record.itemNode
  map : MapRep s.itemMap R
  buckets : BucketsRep cfg.purgeInterval s.expiryBuckets R
  used : s.usedMemory = (R.map Record.size).sum
  keys_nodup : (R.map Record.key).Nodup
  entries_nodup : (R.map Record.entryAddr).Nodup
  items_nodup : (R.map Record.itemAddr).Nodup
  slots_nodup : (R.map Record.slotAddr).Nodup
  fresh : ∀ r ∈ R, r.entryAddr < s.nextAddr ∧ r.itemAddr < s.nextAddr ∧
    r.bucketAddr < s.nextAddr ∧ r.slotAddr < s.nextAddr

/-! ## The map -/

theorem deref_eq_ok {α : Type} {l : List (Node α)} {a : Addr} {v : α} :
    deref l a = .ok v ↔ get? l a = some v := by
  unfold deref
  cases get? l a with
  | none => exact ⟨(fun h => nomatch h), (fun h => nomatch h)⟩
  | some w => exact ⟨fun h => by cases h; rfl, fun h => by cases h; rfl⟩

theorem deref_of_mem {α : Type} {l : List (Node α)} (hl : (addrs l).Nodup) {n : Node α}
    (hn : n ∈ l) : deref l n.addr = .ok n.val :=
  deref_eq_ok.mpr (get?_of_mem hl hn)

namespace MapRep

variable {m : List (Node MapEntry)} {R R' : List Record}

theorem congr (h : MapRep m R) (hR : ∀ r, r ∈ R' ↔ r ∈ R) : MapRep m R' :=
  ⟨h.nodup, fun n => by simp only [h.entries, hR]⟩

theorem mem (h : MapRep m R) {r : Record} (hr : r ∈ R) : r.entryNode ∈ m :=
  (h.entries _).mpr ⟨r, hr, rfl⟩

/-- `find` of a stored key gives the node of its record. -/
theorem find_of_mem (h : MapRep m R) (hk : (R.map Record.key).Nodup) {r : Record} (hr : r ∈ R) :
    (m.find? fun n => n.val.key == r.key) = some r.entryNode := by
  cases hf : m.find? fun n => n.val.key == r.key with
  | none =>
    have hne := List.find?_eq_none.mp hf _ (h.mem hr)
    simp [Record.entryNode] at hne
  | some n =>
    have hkey : n.val.key = r.key := by simpa using List.find?_some hf
    obtain ⟨x, hx, rfl⟩ := (h.entries n).mp (List.mem_of_find?_eq_some hf)
    rw [List.inj_on_of_nodup_map hk hx hr hkey]

theorem find_eq_none_iff (h : MapRep m R) {key : Key} :
    (m.find? fun n => n.val.key == key) = none ↔ key ∉ R.map Record.key := by
  rw [List.find?_eq_none]
  constructor
  · intro hn hk
    obtain ⟨r, hr, rfl⟩ := List.mem_map.mp hk
    have := hn _ (h.mem hr)
    simp [Record.entryNode] at this
  · intro hk n hn heq
    obtain ⟨r, hr, rfl⟩ := (h.entries n).mp hn
    have hkey : r.key = key := by simpa [Record.entryNode] using heq
    exact hk (hkey ▸ List.mem_map_of_mem hr)

theorem erase {pre post : List Record} {r : Record} (h : MapRep m (pre ++ r :: post))
    (hn : ((pre ++ r :: post).map Record.entryAddr).Nodup) :
    MapRep (NodeList.erase m r.entryAddr) (pre ++ post) := by
  refine ⟨nodup_addrs_erase h.nodup _, fun n => ?_⟩
  rw [mem_erase, h.entries]
  constructor
  · rintro ⟨⟨x, hx, rfl⟩, hne⟩
    exact ⟨x, (mem_drop_middle hn).mpr ⟨hx, hne⟩, rfl⟩
  · rintro ⟨x, hx, rfl⟩
    obtain ⟨hx, hne⟩ := (mem_drop_middle hn).mp hx
    exact ⟨⟨x, hx, rfl⟩, hne⟩

/-- A record changed without a change to its entry. -/
theorem replace {pre post : List Record} {r r' : Record} (h : MapRep m (pre ++ r :: post))
    (hr : r'.entryNode = r.entryNode) : MapRep m (r' :: (pre ++ post)) := by
  refine ⟨h.nodup, fun n => ?_⟩
  rw [h.entries]
  simp only [List.mem_append, List.mem_cons]
  constructor
  · rintro ⟨x, hx | rfl | hx, rfl⟩
    · exact ⟨x, Or.inr (Or.inl hx), rfl⟩
    · exact ⟨r', Or.inl rfl, hr⟩
    · exact ⟨x, Or.inr (Or.inr hx), rfl⟩
  · rintro ⟨x, rfl | hx | hx, rfl⟩
    · exact ⟨r, Or.inr (Or.inl rfl), hr.symm⟩
    · exact ⟨x, Or.inl hx, rfl⟩
    · exact ⟨x, Or.inr (Or.inr hx), rfl⟩

/-- The iterators of one entry overwritten. -/
theorem modify {pre post : List Record} {r r' : Record} {f : MapEntry → MapEntry}
    (h : MapRep m (pre ++ r :: post)) (hn : ((pre ++ r :: post).map Record.entryAddr).Nodup)
    (hf : (⟨r.entryAddr, f r.entryNode.val⟩ : Node MapEntry) = r'.entryNode) :
    MapRep (NodeList.modify m r.entryAddr f) (r' :: (pre ++ post)) := by
  have hr : r ∈ pre ++ r :: post := by simp
  refine ⟨by rw [addrs_modify]; exact h.nodup, fun n => ?_⟩
  rw [mem_modify]
  constructor
  · rintro (⟨hm, hne⟩ | ⟨x, hx, ha, rfl⟩)
    · obtain ⟨x, hx, rfl⟩ := (h.entries n).mp hm
      exact ⟨x, List.mem_cons_of_mem _ ((mem_drop_middle hn).mpr ⟨hx, hne⟩), rfl⟩
    · rw [eq_of_addr_eq h.nodup hx (h.mem hr) ha, hf]
      exact ⟨r', List.mem_cons_self, rfl⟩
  · rintro ⟨x, hx, rfl⟩
    rcases List.mem_cons.mp hx with rfl | hx
    · exact Or.inr ⟨_, h.mem hr, rfl, hf.symm⟩
    · obtain ⟨hx, hne⟩ := (mem_drop_middle hn).mp hx
      exact Or.inl ⟨h.mem hx, hne⟩

theorem insert (h : MapRep m R) {r : Record} (hf : ∀ x ∈ R, x.entryAddr ≠ r.entryAddr) :
    MapRep (r.entryNode :: m) (r :: R) := by
  refine ⟨?_, fun n => ?_⟩
  · rw [addrs_cons, List.nodup_cons]
    refine ⟨fun hm => ?_, h.nodup⟩
    obtain ⟨n, hn, ha⟩ := mem_addrs.mp hm
    obtain ⟨x, hx, rfl⟩ := (h.entries n).mp hn
    exact hf x hx ha
  · simp only [List.mem_cons, h.entries, exists_eq_or_imp, @eq_comm _ n]

end MapRep

/-! ## The buckets -/

section Buckets

open Containers

theorem mem_insertBucket {b c : Node Bucket} {bs : List (Node Bucket)} :
    c ∈ insertBucket b bs ↔ c = b ∨ c ∈ bs := by
  induction bs with
  | nil => simp [insertBucket]
  | cons d ds ih =>
    unfold insertBucket
    split
    · simp
    · rw [List.mem_cons, ih, List.mem_cons]
      exact or_left_comm

theorem nodup_insertBucket {b : Node Bucket} {bs : List (Node Bucket)} (hbs : (addrs bs).Nodup)
    (hb : b.addr ∉ addrs bs) : (addrs (insertBucket b bs)).Nodup := by
  induction bs with
  | nil => simp [insertBucket]
  | cons d ds ih =>
    rw [addrs_cons, List.nodup_cons] at hbs
    rw [addrs_cons, List.mem_cons, not_or] at hb
    unfold insertBucket
    split
    · simp [hbs.1, hbs.2, hb.1, hb.2]
    · rw [addrs_cons, List.nodup_cons]
      refine ⟨fun hm => ?_, ih hbs.2 hb.2⟩
      obtain ⟨c, hc, ha⟩ := mem_addrs.mp hm
      rcases mem_insertBucket.mp hc with rfl | hc
      · exact hb.1 ha
      · exact hbs.1 (ha ▸ mem_addrs_of_mem hc)

theorem sorted_insertBucket {b : Node Bucket} {bs : List (Node Bucket)}
    (hbs : bs.Pairwise fun b c => b.val.purgeAt < c.val.purgeAt)
    (hb : ∀ c ∈ bs, c.val.purgeAt ≠ b.val.purgeAt) :
    (insertBucket b bs).Pairwise fun b c => b.val.purgeAt < c.val.purgeAt := by
  induction bs with
  | nil => simp [insertBucket]
  | cons d ds ih =>
    obtain ⟨hd, hds⟩ := List.pairwise_cons.mp hbs
    unfold insertBucket
    split
    · next hlt =>
      refine List.pairwise_cons.mpr ⟨fun c hc => ?_, hbs⟩
      rcases List.mem_cons.mp hc with rfl | hc
      · exact hlt
      · exact Int64.lt_trans hlt (hd c hc)
    · next hlt =>
      have hdb : d.val.purgeAt < b.val.purgeAt :=
        Int64.lt_of_le_of_ne (Int64.not_lt.mp hlt) (hb d List.mem_cons_self)
      refine List.pairwise_cons.mpr
        ⟨fun c hc => ?_, ih hds fun c hc => hb c (List.mem_cons_of_mem _ hc)⟩
      rcases mem_insertBucket.mp hc with rfl | hc
      · exact hdb
      · exact hd c hc

/-- Writing to a bucket without changing its time keeps the order. -/
theorem sorted_modify {bs : List (Node Bucket)}
    (hbs : bs.Pairwise fun b c => b.val.purgeAt < c.val.purgeAt) (a : Addr) {f : Bucket → Bucket}
    (hf : ∀ b, (f b).purgeAt = b.purgeAt) :
    (NodeList.modify bs a f).Pairwise fun b c => b.val.purgeAt < c.val.purgeAt := by
  have htime : ∀ b : Node Bucket,
      (if b.addr = a then (⟨b.addr, f b.val⟩ : Node Bucket) else b).val.purgeAt =
        b.val.purgeAt := by
    intro b
    split
    · exact hf b.val
    · rfl
  unfold NodeList.modify
  rw [List.pairwise_map]
  refine hbs.imp fun {b c} hbc => ?_
  rw [htime, htime]
  exact hbc

/-- `emplace_hint` followed by the insertion of a slot leaves the buckets sorted, and the bucket it
returns is the only one that changes: it had the slots `old` and has one more. -/
theorem emplaceBucket_pushSlot {s : Containers} {interval : Int32} {R : List Record} {t : Int64}
    (h : BucketsRep interval s.expiryBuckets R)
    (hfresh : ∀ b ∈ s.expiryBuckets, b.addr ≠ s.nextAddr)
    (slot : Node (Option Addr)) :
    ∃ old bs,
      NodeList.modify (s.emplaceBucket t).2.expiryBuckets (s.emplaceBucket t).1
        (fun b => { b with keys := b.keys ++ [slot] }) = bs ∧
      bs.Pairwise (fun b c => b.val.purgeAt < c.val.purgeAt) ∧ (addrs bs).Nodup ∧
      (∀ b, b ∈ bs ↔ (b ∈ s.expiryBuckets ∧ b.addr ≠ (s.emplaceBucket t).1) ∨
        b = ⟨(s.emplaceBucket t).1, ⟨t, old ++ [slot]⟩⟩) ∧
      (∀ b ∈ s.expiryBuckets, b.addr = (s.emplaceBucket t).1 → b.val.purgeAt = t) ∧
      (addrs old).Nodup ∧
      ∀ c, c ∈ old ↔ ∃ r ∈ R, r.bucketAddr = (s.emplaceBucket t).1 ∧ r.slotNode = c := by
  unfold emplaceBucket
  cases hf : s.expiryBuckets.find? fun b => b.val.purgeAt == t with
  | some b =>
    have hb := List.mem_of_find?_eq_some hf
    have ht : b.val.purgeAt = t := by simpa using List.find?_some hf
    refine ⟨b.val.keys, _, rfl, sorted_modify h.sorted _ fun _ => rfl, ?_, fun c => ?_,
      fun c hc ha => by rw [eq_of_addr_eq h.nodup hc hb ha, ht], h.slots_nodup b hb, h.slots b hb⟩
    · rw [addrs_modify]
      exact h.nodup
    · rw [mem_modify]
      refine or_congr_right ⟨?_, fun hc => ⟨b, hb, rfl, by rw [hc, ht]⟩⟩
      rintro ⟨c', hc', ha, rfl⟩
      rw [eq_of_addr_eq h.nodup hc' hb ha, ht]
  | none =>
    have htime : ∀ c ∈ s.expiryBuckets, c.val.purgeAt ≠ t := by
      intro c hc
      simpa using List.find?_eq_none.mp hf c hc
    have haddr : s.nextAddr ∉ addrs s.expiryBuckets := by
      intro hm
      obtain ⟨c, hc, ha⟩ := mem_addrs.mp hm
      exact hfresh c hc ha
    refine ⟨[], _, rfl, sorted_modify (sorted_insertBucket h.sorted htime) _ fun _ => rfl, ?_,
      fun c => ?_, fun c hc ha => absurd ha (hfresh c hc), by simp,
      fun c => ⟨fun hc => absurd hc List.not_mem_nil, ?_⟩⟩
    · rw [addrs_modify]
      exact nodup_insertBucket h.nodup haddr
    · simp only [mem_modify, mem_insertBucket]
      constructor
      · rintro (⟨rfl | hc, hne⟩ | ⟨d, rfl | hd, ha, rfl⟩)
        · exact absurd rfl hne
        · exact Or.inl ⟨hc, hne⟩
        · exact Or.inr rfl
        · exact absurd ha (hfresh d hd)
      · rintro (⟨hc, hne⟩ | rfl)
        · exact Or.inl ⟨Or.inr hc, hne⟩
        · exact Or.inr ⟨_, Or.inl rfl, rfl, rfl⟩
    · rintro ⟨r, hr, ha, -⟩
      obtain ⟨b, hb, hba, -⟩ := h.bucket r hr
      exact absurd (hba.trans ha) (hfresh b hb)

/-- Erasing a slot changes its bucket only, which goes when no slot is left. -/
theorem eraseSlot_buckets {bs : List (Node Bucket)} {b : Node Bucket} {slot : Node (Option Addr)}
    (hsorted : bs.Pairwise fun b c => b.val.purgeAt < c.val.purgeAt)
    (hnodup : (addrs bs).Nodup) (hb : b ∈ bs)
    (hslots : (addrs b.val.keys).Nodup) (hslot : slot ∈ b.val.keys) :
    ∃ bs', eraseSlot bs b.addr slot.addr = .ok bs' ∧
      bs'.Pairwise (fun b c => b.val.purgeAt < c.val.purgeAt) ∧ (addrs bs').Nodup ∧
      ∀ c, c ∈ bs' ↔ (c ∈ bs ∧ c.addr ≠ b.addr) ∨
        (NodeList.erase b.val.keys slot.addr ≠ [] ∧
          c = ⟨b.addr, ⟨b.val.purgeAt, NodeList.erase b.val.keys slot.addr⟩⟩) := by
  unfold Containers.eraseSlot
  simp only [deref_of_mem hnodup hb, deref_of_mem hslots hslot, Run.ok_bind]
  by_cases hempty : NodeList.erase b.val.keys slot.addr = []
  · rw [if_pos (by rw [hempty]; rfl)]
    refine ⟨_, rfl, hsorted.filter _, nodup_addrs_erase hnodup _, fun c => ?_⟩
    rw [mem_erase]
    exact ⟨Or.inl, fun h => h.resolve_right fun h' => h'.1 hempty⟩
  · rw [if_neg (by rwa [List.length_eq_zero_iff])]
    refine ⟨_, rfl, sorted_modify hsorted _ fun _ => rfl, by rwa [addrs_modify], fun c => ?_⟩
    rw [mem_modify]
    refine or_congr_right ⟨?_, fun ⟨_, hc⟩ => ⟨b, hb, rfl, hc⟩⟩
    rintro ⟨d, hd, hda, rfl⟩
    rw [eq_of_addr_eq hnodup hd hb hda]
    exact ⟨hempty, rfl⟩

namespace BucketsRep

variable {interval : Int32} {bs : List (Node Bucket)} {R R' : List Record}

theorem congr (h : BucketsRep interval bs R) (hR : ∀ r, r ∈ R' ↔ r ∈ R) :
    BucketsRep interval bs R' where
  sorted := h.sorted
  nodup := h.nodup
  nonempty := h.nonempty
  slots_nodup := h.slots_nodup
  slots b hb c := by simp only [h.slots b hb, hR]
  bucket r hr := h.bucket r ((hR r).mp hr)

/-- A record changed without moving to another slot. -/
theorem replace {pre post : List Record} {r r' : Record}
    (h : BucketsRep interval bs (pre ++ r :: post)) (hb : r'.bucketAddr = r.bucketAddr)
    (hs : r'.slotNode = r.slotNode)
    (ht : nextPurgeTime r'.expiresAt interval = nextPurgeTime r.expiresAt interval) :
    BucketsRep interval bs (r' :: (pre ++ post)) where
  sorted := h.sorted
  nodup := h.nodup
  nonempty := h.nonempty
  slots_nodup := h.slots_nodup
  slots b hb' c := by
    rw [h.slots b hb']
    simp only [List.mem_append, List.mem_cons]
    constructor
    · rintro ⟨x, hx | rfl | hx, hxc⟩
      · exact ⟨x, Or.inr (Or.inl hx), hxc⟩
      · exact ⟨r', Or.inl rfl, hb.trans hxc.1, hs.trans hxc.2⟩
      · exact ⟨x, Or.inr (Or.inr hx), hxc⟩
    · rintro ⟨x, rfl | hx | hx, hxc⟩
      · exact ⟨r, Or.inr (Or.inl rfl), hb.symm.trans hxc.1, hs.symm.trans hxc.2⟩
      · exact ⟨x, Or.inl hx, hxc⟩
      · exact ⟨x, Or.inr (Or.inr hx), hxc⟩
  bucket x hx := by
    rcases List.mem_cons.mp hx with rfl | hx
    · rw [hb, ht]
      exact h.bucket r (by simp)
    · refine h.bucket x ?_
      rcases List.mem_append.mp hx with hx | hx
      · exact List.mem_append_left _ hx
      · exact List.mem_append_right _ (List.mem_cons_of_mem _ hx)

/-- A slot added to the bucket of its expiry. -/
theorem push {s : Containers} {r : Record} {t : Int64}
    (h : BucketsRep interval s.expiryBuckets R)
    (hfresh : ∀ b ∈ s.expiryBuckets, b.addr ≠ s.nextAddr)
    (hslot : ∀ x ∈ R, x.slotAddr ≠ r.slotAddr) (hb : r.bucketAddr = (s.emplaceBucket t).1)
    (ht : nextPurgeTime r.expiresAt interval = .ok t) :
    BucketsRep interval
      (NodeList.modify (s.emplaceBucket t).2.expiryBuckets r.bucketAddr
        fun b => { b with keys := b.keys ++ [r.slotNode] }) (r :: R) := by
  obtain ⟨old, bs', hbs, hsorted, hnodup, hmem, htime, hold, hslots⟩ :=
    emplaceBucket_pushSlot (t := t) h hfresh r.slotNode
  rw [← hb] at hbs hmem htime hslots
  rw [hbs]
  refine ⟨hsorted, hnodup, fun b hb' => ?_, fun b hb' => ?_, fun b hb' c => ?_, fun x hx => ?_⟩
  · rcases (hmem b).mp hb' with ⟨hb', -⟩ | rfl
    · exact h.nonempty b hb'
    · simp
  · rcases (hmem b).mp hb' with ⟨hb', -⟩ | rfl
    · exact h.slots_nodup b hb'
    · rw [addrs_append, addrs_cons, List.nodup_append]
      refine ⟨hold, by simp, fun a ha b hb'' he => ?_⟩
      obtain ⟨c, hc, rfl⟩ := mem_addrs.mp ha
      obtain ⟨x, hx, -, rfl⟩ := (hslots c).mp hc
      exact hslot x hx (he.trans (List.mem_singleton.mp hb''))
  · rcases (hmem b).mp hb' with ⟨hb', hne⟩ | rfl
    · rw [h.slots b hb']
      constructor
      · rintro ⟨x, hx, hxc⟩
        exact ⟨x, List.mem_cons_of_mem _ hx, hxc⟩
      · rintro ⟨x, hx, ha, hxc⟩
        rcases List.mem_cons.mp hx with rfl | hx
        · exact absurd ha.symm hne
        · exact ⟨x, hx, ha, hxc⟩
    · rw [List.mem_append, hslots, List.mem_singleton]
      constructor
      · rintro (⟨x, hx, hxc⟩ | rfl)
        · exact ⟨x, List.mem_cons_of_mem _ hx, hxc⟩
        · exact ⟨r, List.mem_cons_self, rfl, rfl⟩
      · rintro ⟨x, hx, ha, rfl⟩
        rcases List.mem_cons.mp hx with rfl | hx
        · exact Or.inr rfl
        · exact Or.inl ⟨x, hx, ha, rfl⟩
  · rcases List.mem_cons.mp hx with rfl | hx
    · exact ⟨_, (hmem _).mpr (Or.inr rfl), rfl, ht⟩
    · obtain ⟨b, hb', ha, hpt⟩ := h.bucket x hx
      by_cases hbr : b.addr = r.bucketAddr
      · -- the bucket that grew: its time is the one `emplace_hint` looked up
        exact ⟨_, (hmem _).mpr (Or.inr rfl), hbr.symm.trans ha, by rw [hpt, htime b hb' hbr]⟩
      · exact ⟨b, (hmem b).mpr (Or.inl ⟨hb', hbr⟩), ha, hpt⟩

/-- The slot of a record erased, and its bucket with it when nothing else is in it. -/
theorem eraseSlot {pre post : List Record} {r : Record}
    (h : BucketsRep interval bs (pre ++ r :: post))
    (hn : ((pre ++ r :: post).map Record.slotAddr).Nodup) :
    ∃ bs', Containers.eraseSlot bs r.bucketAddr r.slotAddr = .ok bs' ∧
      BucketsRep interval bs' (pre ++ post) := by
  have hr : r ∈ pre ++ r :: post := by simp
  obtain ⟨b, hb, ha, -⟩ := h.bucket r hr
  have hslot : r.slotNode ∈ b.val.keys := (h.slots b hb _).mpr ⟨r, hr, ha.symm, rfl⟩
  obtain ⟨bs', hbs, hsorted, hnodup, hmem⟩ :=
    eraseSlot_buckets h.sorted h.nodup hb (h.slots_nodup b hb) hslot
  rw [ha] at hbs hmem
  -- what is left in the bucket of the record, and in the others
  have hleft : ∀ c, c ∈ NodeList.erase b.val.keys r.slotAddr ↔
      ∃ x ∈ pre ++ post, x.bucketAddr = r.bucketAddr ∧ x.slotNode = c := by
    intro c
    rw [mem_erase, h.slots b hb, ha]
    constructor
    · rintro ⟨⟨x, hx, hxa, rfl⟩, hne⟩
      exact ⟨x, (mem_drop_middle hn).mpr ⟨hx, hne⟩, hxa, rfl⟩
    · rintro ⟨x, hx, hxa, rfl⟩
      obtain ⟨hx, hne⟩ := (mem_drop_middle hn).mp hx
      exact ⟨⟨x, hx, hxa, rfl⟩, hne⟩
  have hother : ∀ c ∈ bs, c.addr ≠ r.bucketAddr → ∀ d,
      d ∈ c.val.keys ↔ ∃ x ∈ pre ++ post, x.bucketAddr = c.addr ∧ x.slotNode = d := by
    intro c hc hne d
    rw [h.slots c hc]
    constructor
    · rintro ⟨x, hx, hxa, rfl⟩
      refine ⟨x, (mem_drop_middle hn).mpr ⟨hx, fun he => hne ?_⟩, hxa, rfl⟩
      rw [← hxa, List.inj_on_of_nodup_map hn hx hr he]
    · rintro ⟨x, hx, hxd⟩
      exact ⟨x, ((mem_drop_middle hn).mp hx).1, hxd⟩
  refine ⟨bs', hbs, hsorted, hnodup, fun c hc => ?_, fun c hc => ?_, fun c hc => ?_, fun x hx => ?_⟩
  · rcases (hmem c).mp hc with ⟨hc, -⟩ | ⟨hne, rfl⟩
    · exact h.nonempty c hc
    · exact hne
  · rcases (hmem c).mp hc with ⟨hc, -⟩ | ⟨-, rfl⟩
    · exact h.slots_nodup c hc
    · exact nodup_addrs_erase (h.slots_nodup b hb) _
  · rcases (hmem c).mp hc with ⟨hc, hne⟩ | ⟨-, rfl⟩
    · exact hother c hc hne
    · exact hleft
  · obtain ⟨c, hc, hca, ht⟩ := h.bucket x ((mem_drop_middle hn).mp hx).1
    by_cases hcr : c.addr = r.bucketAddr
    · have hcb : c = b := eq_of_addr_eq h.nodup hc hb (hcr.trans ha.symm)
      have hin := (hleft x.slotNode).mpr ⟨x, hx, hca.symm.trans hcr, rfl⟩
      exact ⟨_, (hmem _).mpr (Or.inr ⟨List.ne_nil_of_mem hin, rfl⟩), hcr.symm.trans hca, hcb ▸ ht⟩
    · exact ⟨c, (hmem c).mpr (Or.inl ⟨hc, hcr⟩), hca, ht⟩

end BucketsRep

end Buckets

end LruCache
