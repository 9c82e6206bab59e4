import LruCache.Lru
import LruCache.Removal

/-!
# Eviction in exact numbers

With the cache size and the total of the stored sizes in the range of `int`, `evict_lru_data` counts
exactly. It then removes the fewest items that free the memory it is asked for, least recently used
first, and passes over the key of the write. A write that needs room for itself therefore leaves the
cache within its size, unless it is alone in it.
-/

namespace LruCache

open NodeList

namespace Lru

variable {α : Type} {v : α → Entry} {cfg : CacheConfig} {key : Key} {m : Int32} {l : List α}

theorem used_append (l m : List Entry) : used (l ++ m) = used l + used m := by
  unfold used
  rw [List.map_append, List.sum_append]

/-- A part of the entries and the rest. -/
theorem used_filter_add (p : Entry → Bool) (l : List Entry) :
    used (l.filter p) + used (l.filter fun e => !p e) = used l := by
  induction l with
  | nil => rfl
  | cons e l ih =>
    cases hp : p e with
    | true =>
      rw [List.filter_cons_of_pos hp, List.filter_cons_of_neg (by simp [hp]), used_cons, used_cons]
      omega
    | false =>
      rw [List.filter_cons_of_neg (by simp [hp]), List.filter_cons_of_pos (by simp [hp]), used_cons,
        used_cons]
      omega

theorem used_sublist {l m : List Entry} (h : l.Sublist m) : used l ≤ used m := by
  induction h with
  | slnil => exact Int.le_refl _
  | cons e _ ih =>
    have := size_nonneg e
    rw [used_cons]
    omega
  | cons_cons e _ ih =>
    rw [used_cons, used_cons]
    omega

/-- Adding up sizes in an `int` is exact as long as the result is one. -/
theorem toInt_foldl_addSize {a : Int32} {l : List α} (h : a.toInt + used (l.map v) < 2 ^ 31) :
    (l.foldl (fun available x => addSize available (v x).size) a).toInt =
      a.toInt + used (l.map v) := by
  induction l generalizing a with
  | nil => exact (Int.add_zero _).symm
  | cons x l ih =>
    rw [List.map_cons, used_cons] at h ⊢
    have hl := used_nonneg (l.map v)
    have hle := Int32.le_toInt a
    have hsize := toNat_size (e := v x) (by omega)
    have hadd : (addSize a (v x).size).toInt = a.toInt + (v x).size.toNat :=
      toInt_addSize (by omega)
    rw [List.foldl_cons, ih (by omega), hadd]
    omega

/-- What an eviction leaves and what goes, by the comparisons of `int`s that are made. -/
theorem survivors_cut (v : α → Entry) (cfg : CacheConfig) (key : Key) (m : Int32) (l : List α) :
    ∃ front back, l = front ++ back ∧
      survivors v cfg key m l = front ++ back.filter (fun x => (v x).key == key) ∧
      (∀ n < ((back.filter fun x => !(v x).key == key).reverse).length,
        ¬ m ≤ (((back.filter fun x => !(v x).key == key).reverse).take n).foldl
          (fun available x => addSize available (v x).size)
          (narrow (cfg.cacheSize - (l.map fun x => (v x).size).sum))) ∧
      (m ≤ ((back.filter fun x => !(v x).key == key).reverse).foldl
          (fun available x => addSize available (v x).size)
          (narrow (cfg.cacheSize - (l.map fun x => (v x).size).sum)) ∨ front = []) := by
  obtain ⟨front, back, hcut, hsurv, hmore, hend⟩ := Recency.evict_cut
    (fun x => (v x).key == key) (fun available x => addSize available (v x).size)
    (fun available => decide (available ≥ m))
    (narrow (cfg.cacheSize - (l.map fun x => (v x).size).sum)) l
  exact ⟨front, back, hcut, hsurv, fun n hn => of_decide_eq_false (hmore n hn),
    hend.imp_left of_decide_eq_true⟩

/-- What an eviction leaves and what goes, in exact numbers. -/
theorem survivors_cut_exact (hc : cfg.cacheSize.toNat < 2 ^ 31) (hl : Fits (l.map v)) (key : Key)
    (m : Int32) :
    ∃ front back, l = front ++ back ∧
      survivors v cfg key m l = front ++ back.filter (fun x => (v x).key == key) ∧
      (∀ n < ((back.filter fun x => !(v x).key == key).reverse).length,
        cfg.cacheSize.toNat - used (l.map v) +
          used ((((back.filter fun x => !(v x).key == key).reverse).take n).map v) < m.toInt) ∧
      (m.toInt ≤ cfg.cacheSize.toNat - used (l.map v) +
        used (((back.filter fun x => !(v x).key == key).reverse).map v) ∨ front = []) := by
  obtain ⟨front, back, rfl, heq, hmore, hend⟩ := survivors_cut v cfg key m l
  have hused : (((front ++ back).map fun x => (v x).size).sum.toNat : Int) =
      used ((front ++ back).map v) := by
    rw [← toNat_sum_size hl, List.map_map]
    rfl
  have hpos := used_nonneg ((front ++ back).map v)
  have hfree : (narrow (cfg.cacheSize - ((front ++ back).map fun x => (v x).size).sum)).toInt =
      cfg.cacheSize.toNat - used ((front ++ back).map v) := by
    unfold Fits at hl
    rw [toInt_narrow_sub (by omega), hused]
  -- what the walk adds up is at most what is stored
  have hwalk : ∀ g : List α, g.Sublist (back.filter fun x => !(v x).key == key).reverse →
      (g.foldl (fun available x => addSize available (v x).size)
        (narrow (cfg.cacheSize - ((front ++ back).map fun x => (v x).size).sum))).toInt =
      cfg.cacheSize.toNat - used ((front ++ back).map v) + used (g.map v) := by
    intro g hg
    have hle : used (g.map v) ≤ used ((front ++ back).map v) := by
      have hsub : g.reverse.Sublist (front ++ back) := by
        have := hg.reverse
        rw [List.reverse_reverse] at this
        exact (this.trans List.filter_sublist).trans (List.sublist_append_right _ _)
      have := used_sublist (hsub.map v)
      rwa [List.map_reverse, used_reverse] at this
    rw [toInt_foldl_addSize (by rw [hfree]; omega), hfree]
  refine ⟨front, back, rfl, heq, fun n hn => ?_, hend.imp_left fun he => ?_⟩
  · have hlt := hmore n hn
    rw [Int32.le_iff_toInt_le, hwalk _ (List.take_sublist _ _)] at hlt
    exact Int.not_le.mp hlt
  · rwa [Int32.le_iff_toInt_le, hwalk _ (List.Sublist.refl _)] at he

end Lru

/-! ## The shortest run of least recently used items -/

/-- Dropping the elements of a cut that are not kept, as one filter. -/
theorem filter_not_mem_cut {α : Type} [DecidableEq α] {p : α → Bool} {front back : List α}
    (hn : (front ++ back).Nodup) :
    ((front ++ back).filter fun x => decide (x ∉ (back.filter fun x => !p x).reverse)) =
      front ++ back.filter p := by
  obtain ⟨-, -, hdisj⟩ := List.nodup_append.mp hn
  rw [List.filter_append]
  congr 1
  · refine List.filter_eq_self.mpr fun x hx => decide_eq_true fun hm => ?_
    exact hdisj x hx x (List.mem_filter.mp (List.mem_reverse.mp hm)).1 rfl
  · refine List.filter_congr fun x hx => ?_
    cases hp : p x <;> simp [hp, hx]

/-- `evict_lru_data` returns. It removes the shortest run of the items under other keys, least
recently used first, that leaves `memory_required` free, or all of them. Nothing else changes. -/
theorem evictLruData_shortest {cfg : CacheConfig} {s : Containers} {l : List Entry}
    (h : RepInv cfg s) (hl : s.entries = .ok l) (hc : cfg.cacheSize.toNat < 2 ^ 31)
    (hfits : Lru.Fits l) (key : Key) (m : Int32) :
    ∃ s' R gone rest, s.evictLruData cfg key m = .ok s' ∧ RepInv cfg s' ∧
      Represents cfg s R ∧ R.map Record.entry = l ∧
      (R.filter fun r => !r.key == key).reverse = gone ++ rest ∧
      Represents cfg s' (R.filter fun r => r ∉ gone) ∧ Shrunk s s' ∧
      (s'.usedMemory.toNat : Int) = s.usedMemory.toNat - Lru.used (gone.map Record.entry) ∧
      (m.toInt ≤ cfg.cacheSize.toNat - s.usedMemory.toNat → s' = s) ∧
      (m.toInt ≤ cfg.cacheSize.toNat - s.usedMemory.toNat + Lru.used (gone.map Record.entry) ∨
        rest = []) ∧
      ∀ n < gone.length, cfg.cacheSize.toNat - s.usedMemory.toNat +
        Lru.used ((gone.take n).map Record.entry) < m.toInt := by
  obtain ⟨R, hR⟩ := h.represents
  obtain rfl : R.map Record.entry = l := Except.ok.inj (hR.entries.symm.trans hl)
  have hused := hR.toNat_usedMemory hfits
  obtain ⟨front, back, hcut, hsurv, hmore, hend⟩ := Lru.survivors_cut_exact hc hfits key m
  obtain ⟨s', hs', hR'⟩ := hR.evictLruData key m
  have hkept : (R.filter fun r => decide (r ∉ (back.filter fun r => !r.key == key).reverse)) =
      survivors Record.entry cfg key m R := by
    rw [hsurv, hcut]
    exact filter_not_mem_cut (hcut ▸ List.Nodup.of_map _ hR.keys_nodup)
  have hfits' : Lru.Fits ((survivors Record.entry cfg key m R).map Record.entry) :=
    Int.lt_of_le_of_lt (Lru.used_sublist (survivors_sublist.map _)) hfits
  refine ⟨s', R, (back.filter fun r => !r.key == key).reverse,
    (front.filter fun r => !r.key == key).reverse, hs', hR'.repInv, hR, rfl, ?_, hkept ▸ hR',
    .evictLruData hR.buckets.nodup hs', ?_, fun hroom => ?_, ?_, ?_⟩
  · rw [← List.reverse_append, ← List.filter_append, ← hcut]
  · -- the survivors and the rest of `back` make up what was stored
    have hpart := Lru.used_filter_add (fun e => e.key == key) (back.map Record.entry)
    rw [hR'.toNat_usedMemory hfits', hused, hsurv, hcut]
    rw [List.filter_map, List.filter_map] at hpart
    simp only [List.map_append, Lru.used_append, List.map_reverse, Lru.used_reverse]
    change Lru.used ((back.filter fun r => r.key == key).map Record.entry) +
      Lru.used ((back.filter fun r => !r.key == key).map Record.entry) = _ at hpart
    show _ + Lru.used ((back.filter fun r => r.key == key).map Record.entry) = _
    omega
  · unfold Containers.evictLruData at hs'
    rw [if_pos] at hs'
    · exact (Except.ok.inj hs').symm
    · have hpos := Lru.used_nonneg (R.map Record.entry)
      unfold Lru.Fits at hfits
      rw [ge_iff_le, Int32.le_iff_toInt_le, toInt_narrow_sub (by omega)]
      exact hroom
  · rw [hused]
    exact hend.imp_right fun hf => by rw [hf]; rfl
  · rw [hused]
    exact hmore

/-- Two entries of 349 bytes. -/
def Sample.twoItems : List StorageOp :=
  [.commitWrite (key 1) (zeros 300 500) 100, .commitWrite (key 2) (zeros 300 500) 110]

/-- To free 500 of 1024 bytes for key 1, the least recently used item is passed over and the other
one goes. -/
theorem evictLruData_shortest_twoItems :
    ∃ answers s s', CacheStorage.run Sample.config .new Sample.twoItems = .ok (answers, s) ∧
      RepInv Sample.config s.toContainers ∧
      s.toContainers.evictLruData Sample.config (Sample.key 1) 500 = .ok s' ∧
      RepInv Sample.config s' ∧ Shrunk s.toContainers s' ∧
      s'.entries = .ok [(Sample.zeros 300 500).entry (Sample.key 1)] := by
  have hsafe : SafeRun Sample.config Sample.twoItems := by decide +kernel
  obtain ⟨_, s₀, hs₀, R₀, hR₀⟩ := Represents.of_safeRun (by decide) hsafe
  have h : (do
      let r ← CacheStorage.run Sample.config .new Sample.twoItems
      let l ← r.2.entries
      let s' ← r.2.toContainers.evictLruData Sample.config (Sample.key 1) 500
      return decide (Lru.Fits l ∧
        s'.entries = Except.ok [(Sample.zeros 300 500).entry (Sample.key 1)])) = .ok true := by
    decide +kernel
  obtain ⟨⟨answers, s⟩, hrun, h⟩ := Run.bind_eq_ok.mp h
  cases hs₀.symm.trans hrun
  obtain ⟨l, hl, h⟩ := Run.bind_eq_ok.mp h
  obtain ⟨s', hs', h⟩ := Run.bind_eq_ok.mp h
  obtain ⟨hfits, hentries⟩ := of_decide_eq_true (Except.ok.inj h)
  obtain ⟨t, _, _, _, ht, hinv, -, -, -, -, hshrunk, -⟩ :=
    evictLruData_shortest hR₀.repInv hl (by decide) hfits (Sample.key 1) 500
  cases hs'.symm.trans ht
  exact ⟨_, s₀, s', hrun, hR₀.repInv, hs', hinv, hshrunk, hentries⟩

end LruCache
