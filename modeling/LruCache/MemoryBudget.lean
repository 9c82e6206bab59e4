import LruCache.Eviction

/-!
# The memory budget

After a write the cache is within its size, or holds the written item alone. The write asks for the
difference between the new item and the one it replaces, and the eviction spares the old item, so
what is left besides the key and the new item fit together.
-/

namespace LruCache

open NodeList

namespace Lru

variable {cfg : CacheConfig} {key : Key} {item : CacheItem} {w : Int64} {l : List Entry}

/-- The entry under a key that is stored unexpired. -/
theorem required_eq (hn : (l.map Entry.key).Nodup)
    (hw : ∀ e ∈ l, e.key = key → e.isExpired w = false) :
    required (item.entry key) w l =
      size (item.entry key) - used (l.filter fun e => e.key == key) := by
  unfold required
  congr 1
  show ((lookup id key w l).map size).getD 0 = _
  by_cases hk : key ∈ l.map Entry.key
  · obtain ⟨e, he, rfl⟩ := List.mem_map.mp hk
    have hl : lookup id e.key w l = some e := by
      have := lookup_of_mem (v := id) hn he w
      rwa [if_neg (by rw [id, hw e he rfl]; decide)] at this
    have hone : (l.filter fun x => x.key == e.key) = [e] := by
      refine eq_of_sublist hn.of_map List.filter_sublist (List.singleton_sublist.mpr he)
        fun x => ?_
      rw [List.mem_filter, List.mem_singleton, beq_iff_eq]
      refine ⟨fun hx => List.inj_on_of_nodup_map hn hx.1 he hx.2, ?_⟩
      rintro rfl
      exact ⟨he, rfl⟩
    rw [hl, hone, used_cons]
    exact (Int.add_zero _).symm
  · have hnone : (l.filter fun x => x.key == key) = [] :=
      List.filter_eq_nil_iff.mpr fun x hx he =>
        hk (List.mem_map.mpr ⟨x, hx, beq_iff_eq.mp he⟩)
    rw [lookup_of_not_mem (v := id) hk, hnone]
    rfl

/-- A write leaves entries within the cache size, or its own entry alone. -/
theorem write_within (hc : cfg.cacheSize.toNat < 2 ^ 31) (hl : Fits l)
    (hn : (l.map Entry.key).Nodup) (hnew : size (item.entry key) < 2 ^ 31)
    (hw : ∀ e ∈ l, e.key = key → e.isExpired w = false) :
    used (item.entry key :: without id key (writeSurvivors id cfg key item.dataSize w l)) ≤
        cfg.cacheSize.toNat ∨
      without id key (writeSurvivors id cfg key item.dataSize w l) = [] := by
  have hm : (requiredMemory id key item.dataSize w l).toInt =
      size (item.entry key) - used (l.filter fun e => e.key == key) := by
    rw [toInt_requiredMemory hl hnew, required_eq hn hw]
  obtain ⟨front, back, hcut, hsurv, -, hend⟩ := survivors_cut_exact (v := id) hc
    ((List.map_id l).symm ▸ hl) key (requiredMemory id key item.dataSize w l)
  have hleft : without id key (writeSurvivors id cfg key item.dataSize w l) =
      front.filter fun e => !e.key == key := by
    unfold writeSurvivors without
    rw [hsurv, List.filter_append, List.filter_filter]
    have hnil : (back.filter fun e => ((id e).key != key) && ((id e).key == key)) = [] :=
      List.filter_eq_nil_iff.mpr fun e _ => by simp
    rw [hnil, List.append_nil]
    rfl
  rw [hleft, used_cons]
  rcases hend with hend | rfl
  · -- the old item and what goes make up the difference
    left
    have hall := used_filter_add (fun e => e.key == key) l
    rw [hm, List.map_id, List.map_id, used_reverse] at hend
    rw [hcut] at hall hend
    simp only [List.filter_append, used_append, id_eq] at hall hend
    omega
  · exact .inr rfl

/-! ## Along a run -/

/-- The entries are within the cache size, or there is at most one. Each size is an `int`. -/
structure Budgeted (cfg : CacheConfig) (l : List Entry) : Prop where
  sizes : ∀ e ∈ l, size e < 2 ^ 31
  bound : used l ≤ cfg.cacheSize.toNat ∨ l.length ≤ 1

namespace Budgeted

theorem nil (cfg : CacheConfig) : Budgeted cfg [] :=
  ⟨fun _ he => absurd he List.not_mem_nil, .inr (Nat.zero_le 1)⟩

/-- So the total is an `int`. -/
theorem fits (h : Budgeted cfg l) (hc : cfg.cacheSize.toNat < 2 ^ 31) : Fits l := by
  unfold Fits
  rcases h.bound with hb | hb
  · omega
  · match l, hb with
    | [], _ => decide
    | [e], _ =>
      have he := h.sizes e List.mem_cons_self
      have h0 : used [e] = size e := Int.add_zero _
      omega

theorem sublist {l' : List Entry} (h : Budgeted cfg l) (hs : l'.Sublist l) : Budgeted cfg l' :=
  ⟨fun e he => h.sizes e (hs.subset he),
    h.bound.imp (Int.le_trans (used_sublist hs)) (Nat.le_trans hs.length_le)⟩

theorem touch (h : Budgeted cfg l) (key : Key) : Budgeted cfg (LruCache.touch id key l) := by
  have hperm : (LruCache.touch id key l).Perm l := List.filter_append_perm _ l
  have hused : used (LruCache.touch id key l) = used l := by
    unfold LruCache.touch
    rw [used_append]
    exact used_filter_add _ l
  refine ⟨fun e he => h.sizes e (hperm.subset he), ?_⟩
  rw [hperm.length_eq, hused]
  exact h.bound

end Budgeted

end Lru

/-- The size of the item of a write is an `int`. -/
def StorageOp.SizeFits : StorageOp → Prop
  | .commitWrite key item _ => Lru.size (item.entry key) < 2 ^ 31
  | _ => True

instance : (op : StorageOp) → Decidable op.SizeFits
  | .commitWrite key item _ => inferInstanceAs (Decidable (Lru.size (item.entry key) < 2 ^ 31))
  | .commitRead _ _ => .isTrue trivial
  | .commitPurge _ => .isTrue trivial
  | .evictLruData _ _ => .isTrue trivial
  | .clear => .isTrue trivial

/-- What a write of a writable key leaves, in the contents. -/
theorem Represents.write_within {cfg : CacheConfig} {s : Containers} {R : List Record} {key : Key}
    {item : CacheItem} {w : Int64} (h : Represents cfg s R) (hc : cfg.cacheSize.toNat < 2 ^ 31)
    (hfits : Lru.Fits (R.map Record.entry)) (hsize : Lru.size (item.entry key) < 2 ^ 31)
    (hw : s.Writable key w) :
    Lru.used (item.entry key :: without id key
        (writeSurvivors id cfg key item.dataSize w (R.map Record.entry))) ≤ cfg.cacheSize.toNat ∨
      without id key (writeSurvivors id cfg key item.dataSize w (R.map Record.entry)) = [] := by
  refine Lru.write_within hc hfits ?_ hsize fun e he => ?_
  · rw [List.map_map]
    exact h.keys_nodup
  · obtain ⟨r, hr, rfl⟩ := List.mem_map.mp he
    exact h.writable_iff.mp hw r hr

/-- A safe step that returns keeps the budget. -/
theorem Represents.budgeted_step {cfg : CacheConfig} {s s' : CacheStorage} {R : List Record}
    {op : StorageOp} {a : Option Bool} (h : Represents cfg s.toContainers R)
    (hb : Lru.Budgeted cfg (R.map Record.entry)) (hc : cfg.cacheSize.toNat < 2 ^ 31)
    (hop : op.Safe cfg s) (hsize : op.SizeFits) (hs : s.step cfg op = .ok (a, s')) :
    ∃ R', Represents cfg s'.toContainers R' ∧ Lru.Budgeted cfg (R'.map Record.entry) := by
  obtain ⟨b, t, R', ht, h', hcontents, -⟩ := h.step_timed (ne_zero_of_step hs) hop
  cases hs.symm.trans ht
  refine ⟨R', h', ?_⟩
  rw [show R'.map Record.entry = (Contents.step cfg (R.map Record.entry) op).2 by rw [hcontents]]
  cases op with
  | commitRead key t =>
    simp only [Contents.step]
    split
    · exact hb
    · exact hb.touch key
  | commitWrite key item w =>
    simp only [Contents.step]
    cases hrej : rejection cfg key item w with
    | some code => exact hb
    | none =>
      refine ⟨fun e he => ?_, ?_⟩
      · rcases List.mem_cons.mp he with rfl | he
        · exact hsize
        · exact hb.sizes e ((without_sublist.trans survivors_sublist).subset he)
      · refine (h.write_within hc (hb.fits hc) hsize (hop hrej)).imp_right fun hnil => ?_
        show (item.entry key :: _).length ≤ 1
        rw [hnil]
        exact Nat.le_refl 1
  | commitPurge p => exact hb.sublist List.filter_sublist
  | evictLruData key m => exact hb.sublist survivors_sublist
  | clear => exact .nil cfg

/-- The budget, in the counter of the storage. -/
theorem Represents.usedMemory_le_iff {cfg : CacheConfig} {s : Containers} {R : List Record}
    (h : Represents cfg s R) (hfits : Lru.Fits (R.map Record.entry)) :
    s.usedMemory ≤ cfg.cacheSize ↔ Lru.used (R.map Record.entry) ≤ cfg.cacheSize.toNat := by
  rw [UInt64.le_iff_toNat_le, ← h.toNat_usedMemory hfits]
  omega

/-- A write that succeeds leaves the cache within its size or the written item alone. Along every
run of such writes and the other operations, the cache is within its size or holds at most one
item. -/
theorem memory_budget {cfg : CacheConfig} (hc : cfg.cacheSize.toNat < 2 ^ 31) :
    (∀ (s s' : CacheStorage) (l : List Entry) (key : Key) (item : CacheItem) (w : Int64),
      RepInv cfg s.toContainers → s.entries = .ok l → Lru.Fits l →
      Lru.size (item.entry key) < 2 ^ 31 → s.Writable key w →
      s.commitWrite cfg key item w = .ok (true, s') →
      s'.usedMemory ≤ cfg.cacheSize ∨ s'.entries = .ok [item.entry key]) ∧
    ∀ ops, SafeRun cfg ops → (∀ op ∈ ops, op.SizeFits) →
      (cfg.purgeInterval ≠ 0 → ∃ answers s, CacheStorage.run cfg .new ops = .ok (answers, s)) ∧
      ∀ answers s, CacheStorage.run cfg .new ops = .ok (answers, s) →
        s.usedMemory ≤ cfg.cacheSize ∨ s.items.length ≤ 1 := by
  refine ⟨fun s s' l key item w hinv hl hfits hsize hw hs => ?_, fun ops hsafe hsizes =>
    ⟨fun hi => ?_, fun answers s hrun => ?_⟩⟩
  · obtain ⟨R, h⟩ := hinv.represents
    obtain rfl : R.map Record.entry = l := Except.ok.inj (h.entries.symm.trans hl)
    obtain ⟨code, -, hb, -⟩ | ⟨hrej, -, t, ht, rfl⟩ := CacheStorage.commitWrite_eq_ok.mp hs
    · cases hb
    obtain ⟨r, t', ht', hentry, -, h'⟩ := h.writeAccepted item (ne_zero_of_writeAccepted ht) hw
    cases ht.symm.trans ht'
    have hmap : (r :: without Record.entry key
        (writeSurvivors Record.entry cfg key item.dataSize w R)).map Record.entry =
        item.entry key :: without id key
          (writeSurvivors id cfg key item.dataSize w (R.map Record.entry)) := by
      rw [List.map_cons, hentry, map_without, map_writeSurvivors]
    rcases h.write_within hc hfits hsize hw with hle | hnil
    · rw [← hmap] at hle
      exact .inl ((h'.usedMemory_le_iff (Int.lt_of_le_of_lt hle (Int.ofNat_lt.mpr hc))).mpr hle)
    · refine .inr ?_
      show t.entries = _
      rw [h'.entries, hmap, hnil]
  · obtain ⟨answers, s, hrun, -⟩ := Represents.of_safeRun hi hsafe
    exact ⟨answers, s, hrun⟩
  · -- the bound on each size keeps the counter exact while a single item exceeds the cache
    obtain ⟨R, h, hb⟩ := Run.run_invariant
      (I := fun s : CacheStorage => ∃ R, Represents cfg s.toContainers R ∧
        Lru.Budgeted cfg (R.map Record.entry))
      (fun s op a s' ⟨R, h, hb⟩ hC hs => h.budgeted_step hb hc hC.1 hC.2 hs)
      ⟨[], Represents.empty cfg, .nil cfg⟩ (hsafe.and_forall hsizes) hrun
    refine hb.bound.imp (h.usedMemory_le_iff (hb.fits hc)).mpr fun hlen => ?_
    rw [List.length_map] at hlen
    rwa [h.items, List.length_map]

/-- A write of 1049 bytes does not fit in 1024, and drops the two items of the run before it. -/
theorem memory_budget_twoItems :
    ∃ answers s s', CacheStorage.run Sample.config .new Sample.twoItems = .ok (answers, s) ∧
      (s.usedMemory ≤ Sample.config.cacheSize ∨ s.items.length ≤ 1) ∧
      s.commitWrite Sample.config (Sample.key 3) (Sample.zeros 1000 500) 120 = .ok (true, s') ∧
      s'.entries = .ok [(Sample.zeros 1000 500).entry (Sample.key 3)] := by
  have hsafe : SafeRun Sample.config Sample.twoItems := by decide +kernel
  obtain ⟨_, s₀, hs₀, R₀, hR₀⟩ := Represents.of_safeRun (by decide) hsafe
  have hsizes : ∀ op ∈ Sample.twoItems, op.SizeFits := by decide +kernel
  have h : (do
      let r ← CacheStorage.run Sample.config .new Sample.twoItems
      let l ← r.2.entries
      let w ← r.2.commitWrite Sample.config (Sample.key 3) (Sample.zeros 1000 500) 120
      return decide (w.1 = true ∧ Lru.Fits l ∧ r.2.Writable (Sample.key 3) 120 ∧
        ¬ w.2.usedMemory ≤ Sample.config.cacheSize)) = .ok true := by
    decide +kernel
  obtain ⟨⟨answers, s⟩, hrun, h⟩ := Run.bind_eq_ok.mp h
  cases hs₀.symm.trans hrun
  obtain ⟨l, hl, h⟩ := Run.bind_eq_ok.mp h
  obtain ⟨⟨b, s'⟩, hs', h⟩ := Run.bind_eq_ok.mp h
  obtain ⟨hb, hfits, hw, hover⟩ := of_decide_eq_true (Except.ok.inj h)
  have hs' : s₀.commitWrite Sample.config (Sample.key 3) (Sample.zeros 1000 500) 120 =
      .ok (true, s') := hb ▸ hs'
  have hc : Sample.config.cacheSize.toNat < 2 ^ 31 := by decide
  have hbudget := memory_budget hc
  exact ⟨_, s₀, s', hrun, (hbudget.2 _ hsafe hsizes).2 _ _ hrun, hs',
    (hbudget.1 s₀ s' l _ _ _ hR₀.repInv hl hfits (by decide) hw hs').resolve_left hover⟩

end LruCache
