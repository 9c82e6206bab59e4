import Mathlib.Data.List.Induction
import LruCache.Contents
import LruCache.Operations

/-!
# The loops of `evict_lru_data` and `commit_purge`

Both loops erase nodes of the containers they walk over. The specifications say that they always end
and which records survive: the eviction is `Recency.evict` in the arithmetic of the source, the
purge keeps the records of the buckets that lie after the purge time.
-/

namespace LruCache

open NodeList

namespace Represents

variable {cfg : CacheConfig} {s : Containers} {R pre post : List Record} {key : Key} {m : Int32}

/-! ## Eviction -/

/-- The reverse iterator between `pre` and `post` shows the last record of `pre`. -/
theorem prev_items (h : Represents cfg s (pre ++ post)) :
    prev s.items (post.head?.map Record.itemAddr) = pre.getLast?.map Record.itemNode := by
  have hn := h.nodup_addrs_items
  rw [h.items, List.map_append] at hn ⊢
  have hprev := prev_append hn
  rwa [List.head?_map, Option.map_map, List.getLast?_map] at hprev

/-- The loop from the iterator between `pre` and `post` on: `post` has been passed over, `pre` is
still to be walked, from its back. -/
theorem evictLoop (h : Represents cfg s (pre ++ post)) (key : Key) (m : Int32) {fuel : Nat}
    (hf : pre.length < fuel) (available : Int32) :
    ∃ s', Containers.evictLoop key m fuel s available (post.head?.map Record.itemAddr) = .ok s' ∧
      Represents cfg s' ((Recency.reclaim (fun r => r.entry.key == key)
        (fun available r => addSize available r.entry.size)
        (fun available => decide (available ≥ m)) available pre.reverse).reverse ++ post) := by
  induction pre using List.reverseRecOn generalizing s post fuel available with
  | nil =>
    obtain ⟨fuel, rfl⟩ := Nat.exists_eq_succ_of_ne_zero (Nat.ne_of_gt hf)
    refine ⟨s, ?_, h⟩
    unfold Containers.evictLoop
    rw [h.prev_items]
    rfl
  | append_singleton pre r ih =>
    obtain ⟨fuel, rfl⟩ := Nat.exists_eq_succ_of_ne_zero (Nat.ne_of_gt (Nat.zero_lt_of_lt hf))
    have hlen : pre.length < fuel := by simpa using hf
    have hprev := h.prev_items
    rw [List.getLast?_append, List.getLast?_singleton, Option.some_or] at hprev
    rw [List.append_assoc] at h
    have hkey : s.derefKey r.itemNode.val.key = .ok r.key := h.derefKey (by simp)
    unfold Containers.evictLoop
    rw [hprev, List.reverse_append, List.reverse_singleton, List.singleton_append]
    simp only [Option.map_some, hkey, Run.ok_bind, Recency.reclaim, beq_iff_eq, decide_eq_true_eq]
    by_cases hk : r.key = key
    · -- the key itself is passed over
      rw [if_pos hk, if_pos (show r.entry.key = key from hk), List.reverse_cons, List.append_assoc]
      have h : Represents cfg s (pre ++ r :: post) := h
      exact ih h hlen available
    · obtain ⟨s', hrem, h', -, -⟩ := h.removeItem
      rw [if_neg hk, if_neg (show r.entry.key ≠ key from hk)]
      simp only [hrem, Run.ok_bind]
      by_cases hm : addSize available r.entry.size ≥ m
      · rw [if_pos hm]
        refine ⟨s', if_pos hm, ?_⟩
        rwa [List.reverse_reverse]
      · obtain ⟨s'', hloop, h''⟩ := ih h' hlen (addSize available r.entry.size)
        rw [if_neg hm]
        exact ⟨s'', (if_neg hm).trans hloop, h''⟩

/-- `evict_lru_data` returns, and its result represents the survivors. -/
theorem evictLruData (h : Represents cfg s R) (key : Key) (m : Int32) :
    ∃ s', s.evictLruData cfg key m = .ok s' ∧
      Represents cfg s' (survivors Record.entry cfg key m R) := by
  have hused : s.usedMemory = (R.map fun r => r.entry.size).sum := h.used
  have hlen : s.items.length = R.length := by rw [h.items, List.length_map]
  unfold Containers.evictLruData survivors Recency.evict
  rw [hused, hlen]
  simp only [decide_eq_true_eq]
  by_cases hm : narrow (cfg.cacheSize - (R.map fun r => r.entry.size).sum) ≥ m
  · rw [if_pos hm, if_pos hm]
    exact ⟨s, rfl, h⟩
  · rw [if_neg hm, if_neg hm]
    have hfuel : R.length < (R.length + 1) * (R.length + 1) :=
      Nat.lt_of_lt_of_le (Nat.lt_succ_self _) (Nat.le_mul_of_pos_left _ (Nat.succ_pos _))
    have h₀ : Represents cfg s (R ++ []) := by rwa [List.append_nil]
    obtain ⟨s', hloop, h'⟩ := h₀.evictLoop key m hfuel
      (narrow (cfg.cacheSize - (R.map fun r => r.entry.size).sum))
    rw [List.append_nil] at h'
    exact ⟨s', hloop, h'⟩

/-! ## Purge -/

/-- Erasing the first slot of the first bucket. -/
theorem eraseSlot_head {b c : Addr} {t : Int64} {p : Option Addr} {ks : List (Node (Option Addr))}
    {bs : List (Node Bucket)} (hb : (addrs (⟨b, ⟨t, ⟨c, p⟩ :: ks⟩⟩ :: bs)).Nodup)
    (hc : (addrs (⟨c, p⟩ :: ks)).Nodup) :
    Containers.eraseSlot (⟨b, ⟨t, ⟨c, p⟩ :: ks⟩⟩ :: bs) b c =
      .ok (if ks = [] then bs else ⟨b, ⟨t, ks⟩⟩ :: bs) := by
  have hd := deref_of_mem hb List.mem_cons_self
  have hd' := deref_of_mem hc List.mem_cons_self
  have he := @erase_split _ [] _ _ hc
  have heb := @erase_split _ [] _ _ hb
  have hmod := @modify_split _ [] _ _ hb fun b => { b with keys := ks }
  simp only [List.nil_append] at he heb hmod
  unfold Containers.eraseSlot
  simp only [hd, hd', he, heb, hmod, Run.ok_bind, List.length_eq_zero_iff]
  split <;> rfl

/-- The inner loop removes the records of the first bucket, whose slots `ks` are still there. -/
theorem purgeBucket (h : Represents cfg s R) {b : Addr} {t : Int64} {ks : List (Node (Option Addr))}
    {bs : List (Node Bucket)} (hne : ks ≠ []) (hs : s.expiryBuckets = ⟨b, ⟨t, ks⟩⟩ :: bs) :
    ∃ s', Containers.purgeBucket b (ks.length + 1) s (ks.head?.map Node.addr) = .ok s' ∧
      Represents cfg s' (R.filter fun r => decide (r.bucketAddr ≠ b)) ∧ s'.expiryBuckets = bs := by
  induction ks generalizing s R with
  | nil => exact absurd rfl hne
  | cons c ks ih =>
    have hmem : (⟨b, ⟨t, c :: ks⟩⟩ : Node Bucket) ∈ s.expiryBuckets := by simp [hs]
    obtain ⟨r, hr, hrb, hrc⟩ := (h.buckets.slots _ hmem c).mp List.mem_cons_self
    obtain ⟨pre, post, rfl⟩ := List.append_of_mem hr
    have hslots : (addrs (c :: ks)).Nodup := h.buckets.slots_nodup _ hmem
    have hbuckets := h.buckets.nodup
    rw [hs] at hbuckets
    obtain ⟨s', hrem, h', -, herase⟩ := h.removeItem
    have hb : deref s.expiryBuckets b = .ok ⟨t, c :: ks⟩ := deref_of_mem h.buckets.nodup hmem
    have hc : deref (c :: ks) c.addr = .ok c.val := deref_of_mem hslots List.mem_cons_self
    have hnext : next (c :: ks) c.addr = ks.head?.map Node.addr := @next_split _ [] _ _ hslots
    have hkey : s.derefKey c.val = .ok r.key := by
      rw [← hrc]
      exact h.derefKey hr
    have hs' : s'.expiryBuckets = if ks = [] then bs else ⟨b, ⟨t, ks⟩⟩ :: bs := by
      have hslot : r.slotAddr = c.addr := congrArg Node.addr hrc
      have hrb : r.bucketAddr = b := hrb
      rw [hs, hrb, hslot] at herase
      exact Except.ok.inj (herase.symm.trans (eraseSlot_head hbuckets hslots))
    have hfilter : (pre ++ r :: post).filter (fun x => decide (x.bucketAddr ≠ b)) =
        (pre ++ post).filter fun x => decide (x.bucketAddr ≠ b) := by
      have hrb : r.bucketAddr = b := hrb
      simp [List.filter_append, hrb]
    have hstep : Containers.purgeBucket b ((c :: ks).length + 1) s ((c :: ks).head?.map Node.addr) =
        Containers.purgeBucket b (ks.length + 1) s' (ks.head?.map Node.addr) := by
      simp only [List.length_cons, List.head?_cons, Option.map_some]
      rw [Containers.purgeBucket]
      simp only [hb, hc, hnext, hkey, hrem, Run.ok_bind]
    rw [hstep, hfilter]
    by_cases hks : ks = []
    · -- the bucket went with its last slot
      subst hks
      rw [if_pos rfl] at hs'
      refine ⟨s', rfl, ?_, hs'⟩
      have hall : (pre ++ post).filter (fun x => decide (x.bucketAddr ≠ b)) = pre ++ post := by
        rw [List.filter_eq_self]
        intro x hx
        obtain ⟨d, hd, hda, -⟩ := h'.buckets.bucket x hx
        have hne : d.addr ≠ b := by
          rw [hs'] at hd
          intro heq
          have hb : d.addr ∈ addrs bs := mem_addrs_of_mem hd
          rw [heq] at hb
          exact (List.nodup_cons.mp hbuckets).1 hb
        simpa [hda] using hne
      rwa [hall]
    · rw [if_neg hks] at hs'
      exact ih h' hks hs'

/-- The outer loop removes the records of the buckets up to `prev`. -/
theorem purgeLoop (h : Represents cfg s R) {bs : List (Node Bucket)} (hs : s.expiryBuckets = bs)
    (prev : Int64) :
    ∃ s', Containers.purgeLoop prev (bs.length + 1) s (bs.head?.map Node.addr) = .ok s' ∧
      Represents cfg s' (unpurged Record.entry cfg.purgeInterval prev R) := by
  induction bs generalizing s R with
  | nil =>
    have hR : R = [] := by
      refine List.eq_nil_iff_forall_not_mem.mpr fun r hr => ?_
      obtain ⟨b, hb, -⟩ := h.buckets.bucket r hr
      rw [hs] at hb
      exact absurd hb List.not_mem_nil
    subst hR
    exact ⟨s, rfl, h⟩
  | cons b bs ih =>
    have hmem : b ∈ s.expiryBuckets := by simp [hs]
    have hd : deref s.expiryBuckets b.addr = .ok b.val := deref_of_mem h.buckets.nodup hmem
    have hnext : next s.expiryBuckets b.addr = bs.head?.map Node.addr := by
      have hn := h.buckets.nodup
      rw [hs] at hn ⊢
      exact @next_split _ [] _ _ hn
    have hsorted := h.buckets.sorted
    rw [hs, List.pairwise_cons] at hsorted
    simp only [List.length_cons, List.head?_cons, Option.map_some, Containers.purgeLoop, hd, hnext,
      Run.ok_bind]
    by_cases hlt : b.val.purgeAt > prev
    · -- every bucket lies after `prev`
      refine ⟨s, if_pos hlt, ?_⟩
      have hall : unpurged Record.entry cfg.purgeInterval prev R = R := by
        refine List.filter_eq_self.mpr fun r hr => decide_eq_true ?_
        obtain ⟨c, hc, -, ht⟩ := h.buckets.bucket r hr
        have ht := (nextPurgeTime_eq_ok.mp ht).2
        show prev < purgeTimeAfter r.expiresAt cfg.purgeInterval
        rw [← ht]
        rw [hs] at hc
        rcases List.mem_cons.mp hc with rfl | hc
        · exact hlt
        · exact Int64.lt_trans hlt (hsorted.1 c hc)
      rwa [hall]
    · obtain ⟨s', hbucket, h', hs'⟩ := h.purgeBucket (h.buckets.nonempty b hmem) hs
      obtain ⟨s'', hloop, h''⟩ := ih h' hs'
      refine ⟨s'', ?_, ?_⟩
      · rw [if_neg hlt, hbucket]
        exact hloop
      · have hfilter : unpurged Record.entry cfg.purgeInterval prev
            (R.filter fun r => decide (r.bucketAddr ≠ b.addr)) =
            unpurged Record.entry cfg.purgeInterval prev R := by
          unfold unpurged
          rw [List.filter_filter]
          refine List.filter_congr fun r hr => ?_
          -- a record of the first bucket is not after `prev`
          obtain ⟨c, hc, hca, ht⟩ := h.buckets.bucket r hr
          have ht := (nextPurgeTime_eq_ok.mp ht).2
          by_cases hb : r.bucketAddr = b.addr
          · rw [NodeList.eq_of_addr_eq h.buckets.nodup hc hmem (hca.trans hb)] at ht
            have hp : ¬ prev < purgeTimeAfter r.entry.expiresAt cfg.purgeInterval := by
              show ¬ prev < purgeTimeAfter r.expiresAt cfg.purgeInterval
              rwa [← ht]
            simp [hb, hp]
          · simp [hb]
        rwa [hfilter] at h''

/-- `commit_purge` returns, and its result represents the records after the last purge time. -/
theorem commitPurge (h : Represents cfg s R) (hi : cfg.purgeInterval ≠ 0) (purgedAt : Int64) :
    ∃ s', s.commitPurge cfg purgedAt = .ok s' ∧
      Represents cfg s' (unpurged Record.entry cfg.purgeInterval
        (prevPurgeTime purgedAt cfg.purgeInterval) R) := by
  unfold Containers.commitPurge
  rw [nextPurgeTime_of_ne_zero hi]
  exact h.purgeLoop rfl _

end Represents

end LruCache
