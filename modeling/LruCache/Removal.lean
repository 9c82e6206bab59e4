import LruCache.Linked
import LruCache.RepInv

/-!
# What a removal leaves

An eviction and a purge only call `remove_item`. What they leave is a part of what was there: the
entries of `item_map_` stay as they are, a bucket keeps its time and the order of its slots. Such a
part is determined by the records it represents.
-/

namespace LruCache

open NodeList

/-- `s'` is `s` with some of its nodes erased. -/
structure Shrunk (s s' : Containers) : Prop where
  map : s'.itemMap.Sublist s.itemMap
  buckets : ∀ b' ∈ s'.expiryBuckets, ∃ b ∈ s.expiryBuckets, b.addr = b'.addr ∧
    b.val.purgeAt = b'.val.purgeAt ∧ b'.val.keys.Sublist b.val.keys
  nextAddr : s'.nextAddr = s.nextAddr

/-- Erasing a slot leaves buckets that were there, with the same slots or fewer. -/
theorem Containers.eraseSlot_sublist {bs bs' : List (Node Bucket)} {bucket slot : Addr}
    (hn : (addrs bs).Nodup) (hs : Containers.eraseSlot bs bucket slot = .ok bs') :
    (addrs bs').Nodup ∧ ∀ b' ∈ bs', ∃ b ∈ bs, b.addr = b'.addr ∧
      b.val.purgeAt = b'.val.purgeAt ∧ b'.val.keys.Sublist b.val.keys := by
  obtain ⟨b, hb, hs⟩ := Run.bind_eq_ok.mp hs
  obtain ⟨_, -, hs⟩ := Run.bind_eq_ok.mp hs
  dsimp only at hs
  split at hs
  · cases hs
    refine ⟨nodup_addrs_erase hn bucket, fun b' hb' => ?_⟩
    exact ⟨b', (mem_erase.mp hb').1, rfl, rfl, List.Sublist.refl _⟩
  · cases hs
    refine ⟨by rwa [addrs_modify], fun b' hb' => ?_⟩
    rcases mem_modify.mp hb' with ⟨hb', -⟩ | ⟨m, hm, rfl, rfl⟩
    · exact ⟨b', hb', rfl, rfl, List.Sublist.refl _⟩
    · obtain rfl : b = m.val :=
        Option.some.inj ((deref_eq_ok.mp hb).symm.trans (get?_of_mem hn hm))
      exact ⟨m, hm, rfl, rfl, List.filter_sublist⟩

namespace Shrunk

variable {cfg : CacheConfig} {s s' s'' : Containers} {key : Key}

theorem refl (s : Containers) : Shrunk s s :=
  ⟨List.Sublist.refl _, fun b hb => ⟨b, hb, rfl, rfl, List.Sublist.refl _⟩, rfl⟩

theorem trans (h : Shrunk s s') (h' : Shrunk s' s'') : Shrunk s s'' := by
  refine ⟨h'.map.trans h.map, fun b'' hb'' => ?_, h'.nextAddr.trans h.nextAddr⟩
  obtain ⟨b', hb', ha', ht', hk'⟩ := h'.buckets b'' hb''
  obtain ⟨b, hb, ha, ht, hk⟩ := h.buckets b' hb'
  exact ⟨b, hb, ha.trans ha', ht.trans ht', hk'.trans hk⟩

theorem removeItem {it : Option Addr} (hn : (addrs s.expiryBuckets).Nodup)
    (hs : s.removeItem key = .ok (it, s')) :
    (addrs s'.expiryBuckets).Nodup ∧ Shrunk s s' := by
  unfold Containers.removeItem at hs
  split at hs
  · cases hs
    exact ⟨hn, refl s⟩
  · next n hf =>
    obtain ⟨_, -, hs⟩ := Run.bind_eq_ok.mp hs
    obtain ⟨_, -, hs⟩ := Run.bind_eq_ok.mp hs
    obtain ⟨bs, hbs, hs⟩ := Run.bind_eq_ok.mp hs
    cases hs
    obtain ⟨hn', hb⟩ := Containers.eraseSlot_sublist hn hbs
    exact ⟨hn', List.filter_sublist, hb, rfl⟩

/-- What one removal preserves, the loops preserve. -/
theorem removeItem_trans {u u' : Containers} {k : Key} {it : Option Addr}
    (h : (addrs u.expiryBuckets).Nodup ∧ Shrunk s u) (hu : u.removeItem k = .ok (it, u')) :
    (addrs u'.expiryBuckets).Nodup ∧ Shrunk s u' := by
  obtain ⟨hn, hu'⟩ := removeItem h.1 hu
  exact ⟨hn, h.2.trans hu'⟩

theorem evictLruData (hn : (addrs s.expiryBuckets).Nodup) {m : Int32}
    (hs : s.evictLruData cfg key m = .ok s') : Shrunk s s' :=
  (Containers.evictLruData_induct (I := fun u => (addrs u.expiryBuckets).Nodup ∧ Shrunk s u)
    removeItem_trans ⟨hn, refl s⟩ hs).2

theorem commitPurge (hn : (addrs s.expiryBuckets).Nodup) {p : Int64}
    (hs : s.commitPurge cfg p = .ok s') : Shrunk s s' :=
  (Containers.commitPurge_induct (I := fun u => (addrs u.expiryBuckets).Nodup ∧ Shrunk s u)
    removeItem_trans ⟨hn, refl s⟩ hs).2

end Shrunk

namespace Represents

variable {cfg : CacheConfig} {s s₁ s₂ : Containers} {R₀ R : List Record}

/-- The bucket of a part is determined by the records of the part. -/
theorem mem_buckets_of_shrunk (h : Represents cfg s R₀) (h₁ : Represents cfg s₁ R)
    (h₂ : Represents cfg s₂ R) (hs₁ : Shrunk s s₁) (hs₂ : Shrunk s s₂) {b : Node Bucket}
    (hb : b ∈ s₁.expiryBuckets) : b ∈ s₂.expiryBuckets := by
  -- the bucket holds the slot of a record, whose bucket in `s₂` has the same address
  obtain ⟨c, hc⟩ := List.exists_mem_of_ne_nil _ (h₁.buckets.nonempty b hb)
  obtain ⟨r, hr, hrb, -⟩ := (h₁.buckets.slots b hb c).mp hc
  obtain ⟨b₂, hb₂, hb₂r, -⟩ := h₂.buckets.bucket r hr
  obtain ⟨o, ho, hoa, hot, hok⟩ := hs₁.buckets b hb
  obtain ⟨o₂, ho₂, ho₂a, ho₂t, ho₂k⟩ := hs₂.buckets b₂ hb₂
  have haddr : b₂.addr = b.addr := hb₂r.trans hrb
  obtain rfl : o₂ = o :=
    eq_of_addr_eq h.buckets.nodup ho₂ ho (ho₂a.trans (haddr.trans hoa.symm))
  have hkeys : b₂.val.keys = b.val.keys := by
    refine eq_of_sublist (List.Nodup.of_map _ (h.buckets.slots_nodup o₂ ho)) ho₂k hok fun x => ?_
    rw [h₂.buckets.slots b₂ hb₂, h₁.buckets.slots b hb, haddr]
  have heq : b₂ = b := by
    obtain ⟨a, t, ks⟩ := b
    obtain ⟨a₂, t₂, ks₂⟩ := b₂
    cases haddr
    cases hkeys
    cases ho₂t.symm.trans hot
    rfl
  exact heq ▸ hb₂

/-- Two parts of a state that represent the same records are equal. -/
theorem eq_of_shrunk (h : Represents cfg s R₀) (h₁ : Represents cfg s₁ R)
    (h₂ : Represents cfg s₂ R) (hs₁ : Shrunk s s₁) (hs₂ : Shrunk s s₂) : s₁ = s₂ := by
  have hmap : s₁.itemMap = s₂.itemMap :=
    eq_of_sublist (List.Nodup.of_map _ h.map.nodup) hs₁.map hs₂.map fun n => by
      rw [h₁.map.entries, h₂.map.entries]
  have hbuckets : s₁.expiryBuckets = s₂.expiryBuckets := by
    have hperm : s₁.expiryBuckets.Perm s₂.expiryBuckets :=
      (List.perm_ext_iff_of_nodup (List.Nodup.of_map _ h₁.buckets.nodup)
        (List.Nodup.of_map _ h₂.buckets.nodup)).mpr fun b =>
        ⟨h.mem_buckets_of_shrunk h₁ h₂ hs₁ hs₂, h.mem_buckets_of_shrunk h₂ h₁ hs₂ hs₁⟩
    refine List.Perm.eq_of_pairwise (fun b c _ _ hbc hcb => ?_) h₁.buckets.sorted
      h₂.buckets.sorted hperm
    exact (Int64.lt_irrefl (Int64.lt_trans hbc hcb)).elim
  obtain ⟨items₁, map₁, buckets₁, used₁, next₁⟩ := s₁
  obtain ⟨items₂, map₂, buckets₂, used₂, next₂⟩ := s₂
  have hitems : items₁ = items₂ := h₁.items.trans h₂.items.symm
  have hused : used₁ = used₂ := h₁.used.trans h₂.used.symm
  have hnext : next₁ = next₂ := hs₁.nextAddr.trans hs₂.nextAddr.symm
  cases hitems
  cases hmap
  cases hbuckets
  cases hused
  cases hnext
  rfl

end Represents

end LruCache
