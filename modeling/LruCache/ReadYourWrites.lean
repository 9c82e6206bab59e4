import LruCache.RepInv

/-!
# Reading back a write

After a write that `commit_write` accepts, the key reads back the written item until it expires, and
every other key reads as before unless the write evicted it. In a state reached by safe writes this
holds exactly when the write is safe too.
-/

namespace LruCache

open NodeList

/-- The eviction of this write removed the key `k`. -/
def EvictedByWrite (cfg : CacheConfig) (s : Containers) (key : Key) (item : CacheItem) (w : Int64)
    (k : Key) : Prop :=
  ∃ m t, getRequiredMemory (Containers.virtuals cfg) s key item w = .ok m ∧
    s.evictLruData cfg key m = .ok t ∧ s.findEntry k ≠ none ∧ t.findEntry k = none

/-- What a write that takes `s` to `s'` promises its readers. -/
structure ReadsBack (cfg : CacheConfig) (s s' : Containers) (key : Key) (item : CacheItem)
    (w : Int64) : Prop where
  own : ∀ t, w ≤ t → t < item.expiresAt → ∃ n, s'.getItem key t = .ok (some n) ∧
    n.val.data = item.data ∧ n.val.dataSize = item.dataSize ∧ n.val.expiresAt = item.expiresAt
  other : ∀ k, k ≠ key → ∀ t, s'.getItem k t = s.getItem k t ∨ EvictedByWrite cfg s key item w k

/-! ## The write -/

namespace Represents

variable {cfg : CacheConfig} {s s' : Containers} {R : List Record} {key k : Key} {item : CacheItem}
  {w : Int64}

/-- A key that the eviction of a write takes. -/
theorem evictedByWrite (h : Represents cfg s R) (hk : k ∈ R.map Record.key)
    (hgone : k ∉ (writeSurvivors Record.entry cfg key item.dataSize w R).map Record.key) :
    EvictedByWrite cfg s key item w k := by
  obtain ⟨t, hevict, ht⟩ := h.evictLruData key (requiredMemory Record.entry key item.dataSize w R)
  refine ⟨_, t, h.getRequiredMemory, hevict, fun hn => ?_, ht.findEntry_eq_none_iff.mpr hgone⟩
  exact h.findEntry_eq_none_iff.mp hn hk

theorem readsBack (h : Represents cfg s R) (hw : s.Writable key w)
    (hs : LruCache.writeAccepted (Containers.virtuals cfg) s key item w = .ok s') :
    ReadsBack cfg s s' key item w := by
  obtain ⟨r, t, hwrite, hentry, -, h'⟩ :=
    h.writeAccepted item (ne_zero_of_writeAccepted hs) hw
  cases hwrite.symm.trans hs
  have hkey : r.key = key := congrArg Entry.key hentry
  constructor
  · intro t _ ht
    have hexp : r.entry.isExpired t = false := by
      rw [hentry]
      exact decide_eq_false (Int64.not_le.mpr ht)
    refine ⟨r.itemNode, ?_, congrArg Entry.data hentry, congrArg Entry.dataSize hentry,
      congrArg Entry.expiresAt hentry⟩
    rw [← hkey, h'.getItem_of_mem List.mem_cons_self, hexp]
    rfl
  · intro k hk t
    by_cases hR : k ∈ R.map Record.key
    · obtain ⟨x, hx, rfl⟩ := List.mem_map.mp hR
      by_cases hS : x ∈ writeSurvivors Record.entry cfg key item.dataSize w R
      · left
        have hx' := List.mem_cons_of_mem r (mem_without (v := Record.entry) |>.mpr ⟨hS, hk⟩)
        rw [h'.getItem_of_mem hx', h.getItem_of_mem hx]
      · right
        refine h.evictedByWrite hR fun hm => ?_
        obtain ⟨y, hy, hyk⟩ := List.mem_map.mp hm
        rw [List.inj_on_of_nodup_map h.keys_nodup (survivors_sublist.subset hy) hx hyk] at hy
        exact hS hy
    · left
      rw [h.getItem_of_not_mem hR]
      refine h'.getItem_of_not_mem (fun hm => ?_) t
      obtain ⟨y, hy, rfl⟩ := List.mem_map.mp hm
      rcases List.mem_cons.mp hy with rfl | hy
      · exact hk hkey
      · exact hR (List.mem_map_of_mem (survivors_sublist.subset (mem_without.mp hy).1))

/-- After a write of a stored but expired key, `get_item` still meets the expired item. -/
theorem getItem_after_expired (h : Represents cfg s R) (hw : ¬ s.Writable key w)
    (hs : LruCache.writeAccepted (Containers.virtuals cfg) s key item w = .ok s') :
    s'.getItem key w = .ok none := by
  obtain ⟨r, -, -, he, a, t, hwrite, hfind, hold, hnodup, -, -⟩ :=
    h.writeAccepted_expired item (ne_zero_of_writeAccepted hs) hw
  cases hwrite.symm.trans hs
  have hd : deref s'.items r.entryNode.val.iters.itemIter = .ok r.item := deref_of_mem hnodup hold
  have he : r.item.isExpired w = true := he
  unfold Containers.getItem
  rw [hfind]
  simp only [hd, he, Run.ok_bind]
  rfl

end Represents

/-- In every state reached by safe writes, a write that `commit_write` accepts reads back exactly
when its key is not stored or its stored item is unexpired. -/
theorem readsBack_iff_writable {cfg : CacheConfig} {ops : List StorageOp}
    {answers : List (Option Bool)} {s s' : CacheStorage} {key : Key} {item : CacheItem} {w : Int64}
    (hsafe : SafeRun cfg ops) (hrun : CacheStorage.run cfg .new ops = .ok (answers, s))
    (hwrite : s.commitWrite cfg key item w = .ok (true, s')) :
    ReadsBack cfg s.toContainers s'.toContainers key item w ↔ s.Writable key w := by
  obtain ⟨-, -, hb, -⟩ | ⟨hrej, -, t, ht, rfl⟩ := CacheStorage.commitWrite_eq_ok.mp hwrite
  · cases hb
  obtain ⟨_, _, hrun', R, h⟩ := Represents.of_safeRun (ne_zero_of_writeAccepted ht) hsafe
  cases hrun'.symm.trans hrun
  refine ⟨fun hread => ?_, fun hw => h.readsBack hw ht⟩
  by_contra hw
  have hunexpired : w < item.expiresAt := unexpired_of_rejection_eq_none hrej
  obtain ⟨n, hn, -⟩ := hread.own w (Int64.le_refl w) hunexpired
  rw [h.getItem_after_expired hw ht] at hn
  cases hn

/-- A live key is overwritten. -/
theorem readsBack_of_live_key :
    ∃ answers s s', CacheStorage.run Sample.config .new
        [.commitWrite (Sample.key 1) (Sample.item 3 (by decide) 150) 100] = .ok (answers, s) ∧
      s.commitWrite Sample.config (Sample.key 1) (Sample.item 5 (by decide) 250) 120 =
        .ok (true, s') ∧
      ReadsBack Sample.config s.toContainers s'.toContainers (Sample.key 1)
        (Sample.item 5 (by decide) 250) 120 := by
  have h : (do
      let r ← CacheStorage.run Sample.config .new
        [.commitWrite (Sample.key 1) (Sample.item 3 (by decide) 150) 100]
      let w ← r.2.commitWrite Sample.config (Sample.key 1) (Sample.item 5 (by decide) 250) 120
      return (w.1, decide (r.2.Writable (Sample.key 1) 120))) = .ok (true, true) := by
    decide +kernel
  obtain ⟨⟨answers, s⟩, hrun, h⟩ := Run.bind_eq_ok.mp h
  obtain ⟨⟨b, s'⟩, hwrite, h⟩ := Run.bind_eq_ok.mp h
  obtain ⟨rfl, hw⟩ := Prod.mk.inj (Except.ok.inj h)
  exact ⟨answers, s, s', hrun, hwrite,
    (readsBack_iff_writable (by decide +kernel) hrun hwrite).mpr (of_decide_eq_true hw)⟩

/-- The key is written, expires at 150 and is written again at 160: the second write returns true
and `get_item` finds nothing. -/
theorem expired_rewrite_reads_nothing :
    StorageOp.NonDecreasing [.commitWrite (Sample.key 1) (Sample.item 3 (by decide) 150) 100,
      .commitWrite (Sample.key 1) (Sample.item 5 (by decide) 250) 160] ∧
    ∃ answers s s', CacheStorage.run Sample.config .new
        [.commitWrite (Sample.key 1) (Sample.item 3 (by decide) 150) 100] = .ok (answers, s) ∧
      s.commitWrite Sample.config (Sample.key 1) (Sample.item 5 (by decide) 250) 160 =
        .ok (true, s') ∧
      s'.getItem (Sample.key 1) 160 = .ok none ∧
      ¬ ReadsBack Sample.config s.toContainers s'.toContainers (Sample.key 1)
        (Sample.item 5 (by decide) 250) 160 := by
  refine ⟨by decide, ?_⟩
  have h : (do
      let r ← CacheStorage.run Sample.config .new
        [.commitWrite (Sample.key 1) (Sample.item 3 (by decide) 150) 100]
      let w ← r.2.commitWrite Sample.config (Sample.key 1) (Sample.item 5 (by decide) 250) 160
      let found ← w.2.getItem (Sample.key 1) 160
      return (w.1, found)) = .ok (true, none) := by decide +kernel
  obtain ⟨⟨answers, s⟩, hrun, h⟩ := Run.bind_eq_ok.mp h
  obtain ⟨⟨b, s'⟩, hwrite, h⟩ := Run.bind_eq_ok.mp h
  obtain ⟨found, hfound, h⟩ := Run.bind_eq_ok.mp h
  obtain ⟨rfl, rfl⟩ := Prod.mk.inj (Except.ok.inj h)
  refine ⟨answers, s, s', hrun, hwrite, hfound, fun hread => ?_⟩
  obtain ⟨n, hn, -⟩ := hread.own 160 (by decide) (by decide)
  cases hfound.symm.trans hn

end LruCache
