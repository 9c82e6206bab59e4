import LruCache.Commits

/-!
# What holds in every reachable state

A write of a stored but expired key leaves a second element for the key in `items_`, so that the
representation invariant is lost. Some of it survives: `item_map_` holds each key once, and its
`item_iter`s are distinct and designate live elements. `Linked` says this much, and every operation
that returns preserves it.

It is enough to follow what is stored under a key. Reads, evictions and purges store nothing new; a
write stores nothing new under the other keys.
-/

namespace LruCache

open NodeList

/-- An entry of `item_map_`: its node, its key, and the element its `item_iter` designates. -/
structure Link where
  entry : Addr
  key : Key
  item : Addr
deriving DecidableEq, Repr

/-- The link of a node of `item_map_`. -/
def linkOf (n : Node MapEntry) : Link := ⟨n.addr, n.val.key, n.val.iters.itemIter⟩

/-- The links of `item_map_`. -/
def Containers.links (s : Containers) : List Link := s.itemMap.map linkOf

/-- Entries, keys and item iterators are distinct, and the iterators designate live elements. -/
structure Linked (s : Containers) : Prop where
  entries_nodup : (s.links.map Link.entry).Nodup
  keys_nodup : (s.links.map Link.key).Nodup
  items_nodup : (s.links.map Link.item).Nodup
  lt : ∀ l ∈ s.links, l.entry < s.nextAddr ∧ l.item < s.nextAddr
  live : ∀ l ∈ s.links, get? s.items l.item ≠ none

/-- Everything stored in `s'` was stored in `s`. -/
def Keeps (s s' : Containers) : Prop := ∀ k e, s'.stored k = some e → s.stored k = some e

/-- Everything stored in `s'` was stored in `s`, or is the entry `e` under `key`. -/
def KeepsBut (s s' : Containers) (key : Key) (item : CacheItem) : Prop :=
  ∀ k e, s'.stored k = some e → s.stored k = some e ∨ (k = key ∧ e = item.entry key)

/-! ## What the operations on one key change -/

namespace Containers

variable {cfg : CacheConfig} {s s' : Containers} {key : Key} {item : CacheItem} {a : Addr}

/-- `remove_item` changes nothing, or erases the entry of its key and the element it designates. -/
theorem removeItem_ok {it : Option Addr} (hs : s.removeItem key = .ok (it, s')) :
    s' = s ∨ ∃ n, s.findEntry key = some n ∧
      s'.items = NodeList.erase s.items n.val.iters.itemIter ∧
      s'.itemMap = NodeList.erase s.itemMap n.addr ∧ s'.nextAddr = s.nextAddr := by
  unfold removeItem at hs
  split at hs
  · cases hs
    exact .inl rfl
  · next n hf =>
    obtain ⟨_, -, hs⟩ := Run.bind_eq_ok.mp hs
    obtain ⟨_, -, hs⟩ := Run.bind_eq_ok.mp hs
    obtain ⟨_, -, hs⟩ := Run.bind_eq_ok.mp hs
    cases hs
    exact .inr ⟨n, hf, rfl, rfl, rfl⟩

/-- `insert_item` adds an element at the front. A key that has an entry keeps it. -/
theorem insertItem_ok (hs : s.insertItem cfg key item = .ok (a, s')) :
    a = s.nextAddr ∧ ∃ e, s.nextAddr < s'.nextAddr ∧
      s'.items = ⟨s.nextAddr, { item with key := some e }⟩ :: s.items ∧
      ((∃ n, s.findEntry key = some n ∧ e = n.addr ∧ s'.itemMap = s.itemMap) ∨
        (s.findEntry key = none ∧ s.nextAddr < e ∧ e < s'.nextAddr ∧
          ∃ b slot, s'.itemMap = ⟨e, ⟨key, ⟨s.nextAddr, b, slot⟩⟩⟩ :: s.itemMap)) := by
  obtain ⟨t, ht, hs⟩ := Run.bind_eq_ok.mp hs
  obtain ⟨b, s₁, hemp⟩ : ∃ b s₁, Containers.emplaceBucket { s with nextAddr := s.nextAddr + 1 } t =
    (b, s₁) := ⟨_, _, rfl⟩
  have hle := le_nextAddr_emplaceBucket { s with nextAddr := s.nextAddr + 1 } t
  rw [hemp] at hs hle
  obtain ⟨bs, n, rfl⟩ := emplaceBucket_frame hemp
  have hlt : s.nextAddr < n := Nat.lt_of_succ_le hle
  cases hf : s.findEntry key with
  | some m =>
    have hfind : findEntry { s with expiryBuckets := bs, nextAddr := n + 1 } key = some m := hf
    simp only [insertEntry, hfind, pushSlot] at hs
    cases hs
    exact ⟨rfl, m.addr, Nat.lt_succ_of_lt hlt, rfl, .inl ⟨m, rfl, rfl, rfl⟩⟩
  | none =>
    have hfind : findEntry { s with expiryBuckets := bs, nextAddr := n + 1 } key = none := hf
    simp only [insertEntry, hfind, pushSlot] at hs
    cases hs
    exact ⟨rfl, n + 1, Nat.lt_succ_of_lt (Nat.lt_succ_of_lt hlt), rfl,
      .inr ⟨rfl, Nat.lt_succ_of_lt hlt, Nat.lt_succ_self _, b, n, rfl⟩⟩

/-- `update_item_expiry_bucket` changes the buckets and the bucket iterators of one entry. -/
theorem updateItemExpiryBucket_ok {e₁ e₂ : Int64}
    (hs : s.updateItemExpiryBucket cfg key e₁ e₂ = .ok s') :
    s'.items = s.items ∧ s.nextAddr ≤ s'.nextAddr ∧
      (s'.itemMap = s.itemMap ∨ ∃ n b slot, s.findEntry key = some n ∧
        s'.itemMap = NodeList.modify s.itemMap n.addr fun e =>
          { e with iters := ⟨n.val.iters.itemIter, b, slot⟩ }) := by
  obtain ⟨t₁, -, hs⟩ := Run.bind_eq_ok.mp hs
  obtain ⟨t₂, -, hs⟩ := Run.bind_eq_ok.mp hs
  split at hs
  · cases hs
    exact ⟨rfl, Nat.le_refl _, .inl rfl⟩
  · split at hs
    · cases hs
    · next n hf =>
      obtain ⟨b, s₁, hemp⟩ : ∃ b s₁, s.emplaceBucket t₂ = (b, s₁) := ⟨_, _, rfl⟩
      have hle := le_nextAddr_emplaceBucket s t₂
      rw [hemp] at hs hle
      obtain ⟨bs, m, rfl⟩ := emplaceBucket_frame hemp
      obtain ⟨_, -, hs⟩ := Run.bind_eq_ok.mp hs
      obtain ⟨_, -, hs⟩ := Run.bind_eq_ok.mp hs
      cases hs
      exact ⟨rfl, Nat.le_succ_of_le hle, .inr ⟨n, b, m, hf, rfl⟩⟩

/-- `update_item` overwrites the element that its entry designates and moves it to the front. -/
theorem updateItem_ok (hs : s.updateItem cfg key item = .ok (a, s')) :
    ∃ n old, s.findEntry key = some n ∧ a = n.val.iters.itemIter ∧ get? s.items a = some old ∧
      s.nextAddr ≤ s'.nextAddr ∧
      s'.items = moveFront (NodeList.modify s.items a fun _ => { item with key := old.key }) a ∧
      (s'.itemMap = s.itemMap ∨ ∃ b slot,
        s'.itemMap = NodeList.modify s.itemMap n.addr fun e =>
          { e with iters := ⟨n.val.iters.itemIter, b, slot⟩ }) := by
  unfold updateItem at hs
  split at hs
  · cases hs
  · next n hf =>
    obtain ⟨old, hold, hs⟩ := Run.bind_eq_ok.mp hs
    obtain ⟨s₁, hbucket, hs⟩ := Run.bind_eq_ok.mp hs
    cases hs
    obtain ⟨hitems, hle, hmap⟩ := updateItemExpiryBucket_ok hbucket
    refine ⟨n, old, hf, rfl, deref_eq_ok.mp hold, hle, hitems, ?_⟩
    rcases hmap with hmap | ⟨m, b, slot, hm, hmap⟩
    · exact .inl hmap
    · cases hm.symm.trans hf
      exact .inr ⟨b, slot, hmap⟩

/-! ## The loops

What every removal preserves, an eviction and a purge preserve. -/

section Loops

variable {I : Containers → Prop}
  (hI : ∀ {u u' : Containers} {k : Key} {it : Option Addr},
    I u → u.removeItem k = .ok (it, u') → I u')

include hI

theorem evictLoop_induct {m available : Int32} {fuel : Nat} {it : Option Addr} (h : I s)
    (hs : evictLoop key m fuel s available it = .ok s') : I s' := by
  induction fuel generalizing s available it with
  | zero => cases hs
  | succ fuel ih =>
    unfold evictLoop at hs
    split at hs
    · cases hs
      exact h
    · obtain ⟨k, -, hs⟩ := Run.bind_eq_ok.mp hs
      split at hs
      · exact ih h hs
      · obtain ⟨⟨it', s₁⟩, hrem, hs⟩ := Run.bind_eq_ok.mp hs
        dsimp only at hs
        split at hs
        · cases hs
          exact hI h hrem
        · exact ih (hI h hrem) hs

theorem evictLruData_induct {m : Int32} (h : I s) (hs : s.evictLruData cfg key m = .ok s') :
    I s' := by
  unfold evictLruData at hs
  dsimp only at hs
  split at hs
  · cases hs
    exact h
  · exact evictLoop_induct hI h hs

theorem purgeBucket_induct {b : Addr} {fuel : Nat} {j : Option Addr} (h : I s)
    (hs : purgeBucket b fuel s j = .ok s') : I s' := by
  induction fuel generalizing s j with
  | zero => cases hs
  | succ fuel ih =>
    cases j with
    | none =>
      cases hs
      exact h
    | some j =>
      obtain ⟨_, -, hs⟩ := Run.bind_eq_ok.mp hs
      obtain ⟨_, -, hs⟩ := Run.bind_eq_ok.mp hs
      obtain ⟨_, -, hs⟩ := Run.bind_eq_ok.mp hs
      obtain ⟨⟨_, s₁⟩, hrem, hs⟩ := Run.bind_eq_ok.mp hs
      exact ih (hI h hrem) hs

theorem purgeLoop_induct {prev : Int64} {fuel : Nat} {i : Option Addr} (h : I s)
    (hs : purgeLoop prev fuel s i = .ok s') : I s' := by
  induction fuel generalizing s i with
  | zero => cases hs
  | succ fuel ih =>
    cases i with
    | none =>
      cases hs
      exact h
    | some i =>
      obtain ⟨b, -, hs⟩ := Run.bind_eq_ok.mp hs
      split at hs
      · cases hs
        exact h
      · obtain ⟨s₁, hbucket, hs⟩ := Run.bind_eq_ok.mp hs
        exact ih (purgeBucket_induct hI h hbucket) hs

theorem commitPurge_induct {purgedAt : Int64} (h : I s) (hs : s.commitPurge cfg purgedAt = .ok s') :
    I s' := by
  obtain ⟨next, -, hs⟩ := Run.bind_eq_ok.mp hs
  exact purgeLoop_induct hI h hs

end Loops

end Containers

/-- What the operations on one key preserve, a step of the storage preserves. Only a write that
passes the checks stores an item. -/
theorem CacheStorage.step_induct {cfg : CacheConfig} {I : Containers → Prop} {s s' : CacheStorage}
    {op : StorageOp} {b : Option Bool}
    (hmark : ∀ {u : Containers} {k : Key}, I u → I (u.markAsRecentlyUsed k))
    (hremove : ∀ {u u' : Containers} {k : Key} {it : Option Addr},
      I u → u.removeItem k = .ok (it, u') → I u')
    (hstore : ∀ {u u' : Containers} {k : Key} {item : CacheItem} {w : Int64} {a : Addr},
      op = .commitWrite k item w → rejection cfg k item w = none → I u →
      u.store cfg k item w = .ok (a, u') → I u')
    (hclear : ∀ {u : Containers}, I u → I u.clear)
    (h : I s.toContainers) (hs : s.step cfg op = .ok (b, s')) : I s'.toContainers := by
  cases op with
  | commitRead key t =>
    obtain ⟨⟨b', s₁⟩, hread, hs⟩ := Run.bind_eq_ok.mp hs
    cases hs
    obtain ⟨found, -, hread⟩ := Run.bind_eq_ok.mp hread
    cases found with
    | none =>
      cases hread
      exact h
    | some n =>
      cases hread
      exact hmark h
  | commitWrite key item w =>
    obtain ⟨⟨b', s₁⟩, hwrite, hs⟩ := Run.bind_eq_ok.mp hs
    cases hs
    obtain ⟨code, -, -, rfl⟩ | ⟨hrej, -, t, ht, rfl⟩ := CacheStorage.commitWrite_eq_ok.mp hwrite
    · exact h
    · rw [Containers.writeAccepted_eq] at ht
      obtain ⟨m, -, ht⟩ := Run.bind_eq_ok.mp ht
      obtain ⟨u, hevict, ht⟩ := Run.bind_eq_ok.mp ht
      obtain ⟨⟨a, u'⟩, hu, ht⟩ := Run.bind_eq_ok.mp ht
      cases ht
      exact hstore rfl hrej (Containers.evictLruData_induct hremove h hevict) hu
  | commitPurge t =>
    obtain ⟨s₁, hpurge, hs⟩ := Run.bind_eq_ok.mp hs
    cases hs
    obtain ⟨c, hc, hs⟩ := Run.bind_eq_ok.mp hpurge
    cases hs
    exact Containers.commitPurge_induct hremove h hc
  | evictLruData key m =>
    obtain ⟨c, hc, hs⟩ := Run.bind_eq_ok.mp hs
    cases hs
    exact Containers.evictLruData_induct hremove h hc
  | clear =>
    cases hs
    exact hclear h

namespace Linked

variable {n : Node MapEntry} {cfg : CacheConfig} {s s' : Containers} {key : Key} {item : CacheItem}
    {t w : Int64}

/-! ## Lookups -/

theorem empty : Linked Containers.empty :=
  ⟨List.nodup_nil, List.nodup_nil, List.nodup_nil, by simp [Containers.links, Containers.empty],
    by simp [Containers.links, Containers.empty]⟩

/-- `find` gives the link of a key. -/
theorem findEntry_eq_some (h : s.findEntry key = some n) :
    linkOf n ∈ s.links ∧ n.val.key = key := by
  refine ⟨List.mem_map_of_mem (List.mem_of_find?_eq_some h), ?_⟩
  simpa using List.find?_some h

/-- What is stored under a key is the element that its link designates. -/
theorem stored_eq_some_iff (h : Linked s) {e : Entry} :
    s.stored key = some e ↔
      ∃ l ∈ s.links, l.key = key ∧ ∃ it, get? s.items l.item = some it ∧ it.entry key = e := by
  unfold Containers.stored
  constructor
  · intro hs
    obtain ⟨n, hn, hs⟩ := Option.bind_eq_some_iff.mp hs
    obtain ⟨it, hit, hs⟩ := Option.bind_eq_some_iff.mp hs
    obtain ⟨hl, hk⟩ := findEntry_eq_some hn
    exact ⟨linkOf n, hl, hk, it, hit, Option.some.inj hs⟩
  · rintro ⟨l, hl, rfl, it, hit, rfl⟩
    obtain ⟨m, hm, rfl⟩ := List.mem_map.mp hl
    cases hf : s.findEntry (linkOf m).key with
    | none =>
      have := List.find?_eq_none.mp hf m hm
      simp [linkOf] at this
    | some n =>
      obtain ⟨hn, hk⟩ := findEntry_eq_some hf
      have heq : linkOf n = linkOf m := List.inj_on_of_nodup_map h.keys_nodup hn hl hk
      have hit' : get? s.items n.val.iters.itemIter = some it := by
        rw [← hit]
        exact congrArg (fun l => get? s.items l.item) heq
      show (get? s.items n.val.iters.itemIter).bind _ = _
      rw [hit']
      rfl

/-- `get_item` returns, and finds what is stored unless it has expired. -/
theorem getItem (h : Linked s) (key : Key) (t : Int64) :
    ∃ found, s.getItem key t = .ok found ∧
      (found.map fun n => n.val.entry key) = (s.stored key).filter fun e => !e.isExpired t := by
  unfold Containers.getItem Containers.stored
  cases hf : s.findEntry key with
  | none => exact ⟨none, rfl, rfl⟩
  | some n =>
    obtain ⟨it, hit⟩ := Option.ne_none_iff_exists'.mp (h.live _ (findEntry_eq_some hf).1)
    have hit : get? s.items n.val.iters.itemIter = some it := hit
    have hd : deref s.items n.val.iters.itemIter = .ok it := deref_eq_ok.mpr hit
    simp only [hd, Run.ok_bind, hit, Option.bind_eq_bind, Option.bind_some]
    by_cases he : it.isExpired t = true
    · have he' : (it.entry key).isExpired t = true := he
      refine ⟨none, if_pos he, ?_⟩
      simp [Option.filter, he']
    · have he' : (it.entry key).isExpired t = false := Bool.eq_false_iff.mpr he
      refine ⟨some ⟨n.val.iters.itemIter, it⟩, if_neg he, ?_⟩
      simp [Option.filter, he']

/-! ## Removing and moving -/

/-- The same links, whose elements are live. -/
theorem of_links_eq (h : Linked s) (hl : s'.links = s.links) (hn : s.nextAddr ≤ s'.nextAddr)
    (hlive : ∀ l ∈ s.links, get? s'.items l.item ≠ none) : Linked s' where
  entries_nodup := hl ▸ h.entries_nodup
  keys_nodup := hl ▸ h.keys_nodup
  items_nodup := hl ▸ h.items_nodup
  lt := by
    intro l hm
    obtain ⟨h1, h2⟩ := h.lt l (hl ▸ hm)
    exact ⟨Nat.lt_of_lt_of_le h1 hn, Nat.lt_of_lt_of_le h2 hn⟩
  live := fun l hm => hlive l (hl ▸ hm)

/-- Links that stay, with the elements they designate, store nothing new. -/
theorem keeps_of_subset (h : Linked s) (h' : Linked s')
    (hl : ∀ l ∈ s'.links, l ∈ s.links ∧ get? s'.items l.item = get? s.items l.item) :
    Keeps s s' := by
  intro k e he
  obtain ⟨l, hm, hk, it, hit, he⟩ := h'.stored_eq_some_iff.mp he
  exact h.stored_eq_some_iff.mpr ⟨l, (hl l hm).1, hk, it, (hl l hm).2.symm.trans hit, he⟩

theorem markAsRecentlyUsed (h : Linked s) (key : Key) :
    Linked (s.markAsRecentlyUsed key) ∧ Keeps s (s.markAsRecentlyUsed key) := by
  unfold Containers.markAsRecentlyUsed
  split
  · exact ⟨h, fun _ _ he => he⟩
  · next n hf =>
    have h' : Linked { s with items := moveFront s.items n.val.iters.itemIter } :=
      h.of_links_eq rfl (Nat.le_refl _) fun l hl => by
        rw [get?_moveFront]
        exact h.live l hl
    exact ⟨h', h.keeps_of_subset h' fun l hl => ⟨hl, get?_moveFront _ _ l.item⟩⟩

/-- The links that a removal leaves designate other elements than the erased one. -/
theorem removeItem_links (h : Linked s) {it : Option Addr}
    (hs : s.removeItem key = .ok (it, s')) :
    s'.nextAddr = s.nextAddr ∧ s'.links.Sublist s.links ∧
      ∀ l ∈ s'.links, get? s'.items l.item = get? s.items l.item := by
  obtain rfl | ⟨n, hf, hitems, hmap, hnext⟩ := Containers.removeItem_ok hs
  · exact ⟨rfl, List.Sublist.refl _, fun _ _ => rfl⟩
  have hsub : s'.links.Sublist s.links := by
    unfold Containers.links
    rw [hmap]
    exact List.filter_sublist.map _
  refine ⟨hnext, hsub, fun l hl => ?_⟩
  have hne : l.item ≠ n.val.iters.itemIter := by
    intro hitem
    have heq := List.inj_on_of_nodup_map h.items_nodup (hsub.subset hl) (findEntry_eq_some hf).1
      hitem
    unfold Containers.links at hl
    obtain ⟨m, hm, rfl⟩ := List.mem_map.mp hl
    rw [hmap] at hm
    exact (mem_erase.mp hm).2 (congrArg Link.entry heq)
  rw [hitems, get?_erase, if_neg hne]

theorem removeItem (h : Linked s) {it : Option Addr} (hs : s.removeItem key = .ok (it, s')) :
    Linked s' ∧ Keeps s s' := by
  obtain ⟨hnext, hsub, hget⟩ := h.removeItem_links hs
  have h' : Linked s' :=
    { entries_nodup := h.entries_nodup.sublist (hsub.map _)
      keys_nodup := h.keys_nodup.sublist (hsub.map _)
      items_nodup := h.items_nodup.sublist (hsub.map _)
      lt := fun l hl => hnext ▸ h.lt l (hsub.subset hl)
      live := fun l hl => hget l hl ▸ h.live l (hsub.subset hl) }
  exact ⟨h', h.keeps_of_subset h' fun l hl => ⟨hsub.subset hl, hget l hl⟩⟩

/-! ## Storing -/

/-- A new element at a fresh address is the element of no link. -/
theorem get?_cons_of_mem (h : Linked s) {l : Link} (hl : l ∈ s.links) (v : CacheItem) :
    get? (⟨s.nextAddr, v⟩ :: s.items) l.item = get? s.items l.item := by
  rw [get?_cons, if_neg]
  exact Nat.ne_of_lt (h.lt l hl).2

/-- `insert_item` puts a new element in front, that points to the entry of the key. The entry is
new, or it stays as it is. -/
theorem insertItem_links (h : Linked s) {a : Addr}
    (hs : s.insertItem cfg key item = .ok (a, s')) :
    a = s.nextAddr ∧ s.nextAddr < s'.nextAddr ∧
      (∀ l ∈ s.links, get? s'.items l.item = get? s.items l.item) ∧
      ∃ e, get? s'.items a = some { item with key := some e } ∧
        ((s'.links = s.links ∧ ∃ l ∈ s.links, l.entry = e ∧ l.key = key) ∨
          (s'.links = ⟨e, key, a⟩ :: s.links ∧ key ∉ s.links.map Link.key ∧
            s.nextAddr < e ∧ e < s'.nextAddr)) := by
  obtain ⟨rfl, e, hnext, hitems, hmap⟩ := Containers.insertItem_ok hs
  have hfront : get? s'.items s.nextAddr = some { item with key := some e } := by
    rw [hitems, get?_cons, if_pos rfl]
  refine ⟨rfl, hnext, fun l hl => ?_, e, hfront, ?_⟩
  · rw [hitems]
    exact h.get?_cons_of_mem hl _
  rcases hmap with ⟨n, hf, rfl, hmap⟩ | ⟨hf, hlo, hhi, b, slot, hmap⟩
  · refine .inl ⟨congrArg (List.map linkOf) hmap, linkOf n, ?_⟩
    exact ⟨(findEntry_eq_some hf).1, rfl, (findEntry_eq_some hf).2⟩
  · refine .inr ⟨congrArg (List.map linkOf) hmap, fun hm => ?_, hlo, hhi⟩
    obtain ⟨l, hl, hk⟩ := List.mem_map.mp hm
    obtain ⟨n, hn, rfl⟩ := List.mem_map.mp hl
    exact List.find?_eq_none.mp hf n hn (beq_iff_eq.mpr hk)

/-- A link of a new entry to a new element. -/
theorem of_links_cons (h : Linked s) {e : Addr} (hl : s'.links = ⟨e, key, s.nextAddr⟩ :: s.links)
    (hkey : key ∉ s.links.map Link.key) (hlo : s.nextAddr < e) (hhi : e < s'.nextAddr)
    (hlive : ∀ l ∈ s'.links, get? s'.items l.item ≠ none) : Linked s' where
  entries_nodup := by
    rw [hl]
    exact nodup_map_cons h.entries_nodup fun l hm =>
      Nat.ne_of_lt (Nat.lt_trans (h.lt l hm).1 hlo)
  keys_nodup := by
    rw [hl]
    exact List.nodup_cons.mpr ⟨hkey, h.keys_nodup⟩
  items_nodup := by
    rw [hl]
    exact nodup_map_cons h.items_nodup fun l hm => Nat.ne_of_lt (h.lt l hm).2
  lt := by
    intro l hm
    have hnext := Nat.lt_trans hlo hhi
    rw [hl] at hm
    rcases List.mem_cons.mp hm with rfl | hm
    · exact ⟨hhi, hnext⟩
    · obtain ⟨h1, h2⟩ := h.lt l hm
      exact ⟨Nat.lt_trans h1 hnext, Nat.lt_trans h2 hnext⟩
  live := hlive

theorem insertItem (h : Linked s) {a : Addr} (hs : s.insertItem cfg key item = .ok (a, s')) :
    Linked s' ∧ KeepsBut s s' key item := by
  obtain ⟨rfl, hnext, hget, e, hfront, ⟨hlinks, -⟩ | ⟨hlinks, hnew, hlo, hhi⟩⟩ :=
    h.insertItem_links hs
  · -- the entry stays, so nothing changes under any key
    have h' : Linked s' := h.of_links_eq hlinks (Nat.le_of_lt hnext) fun l hl =>
      hget l hl ▸ h.live l hl
    exact ⟨h', fun k e he => .inl (h.keeps_of_subset h'
      (fun l hl => ⟨hlinks ▸ hl, hget l (hlinks ▸ hl)⟩) k e he)⟩
  · have h' : Linked s' := by
      refine h.of_links_cons hlinks hnew hlo hhi fun l hl => ?_
      rw [hlinks] at hl
      rcases List.mem_cons.mp hl with rfl | hl
      · rw [hfront]
        exact Option.some_ne_none _
      · rw [hget l hl]
        exact h.live l hl
    refine ⟨h', fun k e' he => ?_⟩
    obtain ⟨l, hl, hk, it, hit, he⟩ := h'.stored_eq_some_iff.mp he
    rw [hlinks] at hl
    rcases List.mem_cons.mp hl with rfl | hl
    · cases hfront.symm.trans hit
      exact .inr ⟨hk.symm, by rw [← he, ← hk]; rfl⟩
    · exact .inl (h.stored_eq_some_iff.mpr ⟨l, hl, hk, it, (hget l hl).symm.trans hit, he⟩)

/-- Changing the bucket iterators of an entry changes no link. -/
theorem links_modify (h : Linked s) {b slot : Addr} (hn : n ∈ s.itemMap) :
    (NodeList.modify s.itemMap n.addr fun e =>
      { e with iters := ⟨n.val.iters.itemIter, b, slot⟩ }).map linkOf = s.links := by
  unfold NodeList.modify Containers.links
  rw [List.map_map]
  refine List.map_congr_left fun m hm => ?_
  have hmem : linkOf m ∈ s.links := List.mem_map_of_mem hm
  by_cases ha : m.addr = n.addr
  · have heq : linkOf m = linkOf n :=
      List.inj_on_of_nodup_map h.entries_nodup hmem (List.mem_map_of_mem hn) ha
    have hitem : m.val.iters.itemIter = n.val.iters.itemIter := congrArg Link.item heq
    simp only [Function.comp_apply, if_pos ha, linkOf, hitem]
  · simp only [Function.comp_apply, if_neg ha]

/-- `update_item` changes the element of the key, except for its key pointer, and no link. -/
theorem updateItem_links (h : Linked s) {a : Addr}
    (hs : s.updateItem cfg key item = .ok (a, s')) :
    s.nextAddr ≤ s'.nextAddr ∧ s'.links = s.links ∧ ∃ l ∈ s.links, l.key = key ∧ a = l.item ∧
      ∃ old, get? s.items a = some old ∧
        ∀ i, get? s'.items i = if i = a then some { item with key := old.key }
          else get? s.items i := by
  obtain ⟨n, old, hf, rfl, hold, hnext, hitems, hmap⟩ := Containers.updateItem_ok hs
  have hnl := findEntry_eq_some hf
  refine ⟨hnext, ?_, linkOf n, hnl.1, hnl.2, rfl, old, hold, fun i => ?_⟩
  · unfold Containers.links
    rcases hmap with hmap | ⟨b, slot, hmap⟩
    · rw [hmap]
    · rw [hmap]
      exact h.links_modify (List.mem_of_find?_eq_some hf)
  · rw [hitems, get?_moveFront, get?_modify]
    by_cases hi : i = n.val.iters.itemIter
    · rw [if_pos hi, if_pos hi, hi, hold]
      rfl
    · rw [if_neg hi, if_neg hi]

theorem updateItem (h : Linked s) {a : Addr} (hs : s.updateItem cfg key item = .ok (a, s')) :
    Linked s' ∧ KeepsBut s s' key item := by
  obtain ⟨hnext, hlinks, n, hn, rfl, rfl, old, hold, hget⟩ := h.updateItem_links hs
  have h' : Linked s' := h.of_links_eq hlinks hnext fun l hl => by
    rw [hget]
    split
    · exact Option.some_ne_none _
    · exact h.live l hl
  refine ⟨h', fun k e he => ?_⟩
  obtain ⟨l, hl, hk, it, hit, he⟩ := h'.stored_eq_some_iff.mp he
  rw [hlinks] at hl
  rw [hget] at hit
  by_cases hi : l.item = n.item
  · rw [if_pos hi] at hit
    cases hit
    obtain rfl : l = n := List.inj_on_of_nodup_map h.items_nodup hl hn hi
    exact .inr ⟨hk.symm, by rw [← he, ← hk]; rfl⟩
  · rw [if_neg hi] at hit
    exact .inl (h.stored_eq_some_iff.mpr ⟨l, hl, hk, it, hit, he⟩)

theorem store (h : Linked s) {a : Addr} (hs : s.store cfg key item w = .ok (a, s')) :
    Linked s' ∧ KeepsBut s s' key item := by
  obtain ⟨found, -, hs⟩ := Run.bind_eq_ok.mp hs
  cases found with
  | some _ => exact h.updateItem hs
  | none => exact h.insertItem hs

/-! ## Steps -/

/-- The entry that a call may store: the item of a write that passes the checks. -/
def Stores (cfg : CacheConfig) (op : StorageOp) (k : Key) (e : Entry) : Prop :=
  ∃ item w, op = .commitWrite k item w ∧ rejection cfg k item w = none ∧ e = item.entry k

theorem clear (s : Containers) : Linked s.clear :=
  ⟨List.nodup_nil, List.nodup_nil, List.nodup_nil, by simp [Containers.links, Containers.clear],
    by simp [Containers.links, Containers.clear]⟩

/-- A step that returns preserves the links, and what it leaves under a key was there before or is
what it writes. -/
theorem step {s s' : CacheStorage} {op : StorageOp} {b : Option Bool}
    (h : Linked s.toContainers) (hs : s.step cfg op = .ok (b, s')) :
    Linked s'.toContainers ∧ ∀ k e, s'.toContainers.stored k = some e →
      s.toContainers.stored k = some e ∨ Stores cfg op k e := by
  refine CacheStorage.step_induct (I := fun u => Linked u ∧ ∀ k e, u.stored k = some e →
    s.toContainers.stored k = some e ∨ Stores cfg op k e) ?_ ?_ ?_ ?_ ⟨h, fun _ _ he => .inl he⟩ hs
  · rintro u k ⟨hu, hst⟩
    obtain ⟨hu', hk⟩ := hu.markAsRecentlyUsed k
    exact ⟨hu', fun k e he => hst k e (hk k e he)⟩
  · rintro u u' k it ⟨hu, hst⟩ hremove
    obtain ⟨hu', hk⟩ := hu.removeItem hremove
    exact ⟨hu', fun k e he => hst k e (hk k e he)⟩
  · rintro u u' key item w a rfl hrej ⟨hu, hst⟩ hstore
    obtain ⟨hu', hk⟩ := hu.store hstore
    refine ⟨hu', fun k e he => ?_⟩
    rcases hk k e he with he | ⟨rfl, rfl⟩
    · exact hst k e he
    · exact .inr ⟨item, w, rfl, hrej, rfl⟩
  · rintro u -
    exact ⟨clear u, fun k e he => nomatch he⟩

end Linked

end LruCache
