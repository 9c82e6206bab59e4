import LruCache.PurgeTime
import LruCache.Removal

/-!
# Purging

A purge at `p` drops the buckets up to the last multiple of the interval that is not after `p`. For
times that round up, these hold exactly the items that expired before that multiple. So a purge is
not seen by a lookup at `p` or later, and of two purges only the later one counts.
-/

namespace LruCache

open NodeList

/-- The sizes of a part of the records and of the rest. -/
theorem sum_size_filter_add (q : Record → Bool) (R : List Record) :
    ((R.filter q).map Record.size).sum + ((R.filter fun r => !q r).map Record.size).sum =
      (R.map Record.size).sum := by
  induction R with
  | nil => rfl
  | cons r R ih =>
    rw [List.map_cons, List.sum_cons, ← ih]
    cases hq : q r with
    | true =>
      rw [List.filter_cons_of_pos hq, List.filter_cons_of_neg (by simp [hq]), List.map_cons,
        List.sum_cons, UInt64.add_assoc]
    | false =>
      rw [List.filter_cons_of_neg (by simp [hq]), List.filter_cons_of_pos (by simp [hq]),
        List.map_cons, List.sum_cons, add_left_comm]

namespace Represents

variable {cfg : CacheConfig} {s s' : Containers} {R : List Record} {p q : Int64}

/-- A purge leaves the items that expire at the last multiple or later. -/
theorem commitPurge_exact (h : Represents cfg s R) (hp : RoundsUp cfg.purgeInterval p)
    (hp0 : 0 ≤ p.toInt) (he : ∀ r ∈ R, RoundsUp cfg.purgeInterval r.expiresAt) :
    ∃ s', s.commitPurge cfg p = .ok s' ∧ Shrunk s s' ∧
      Represents cfg s' (R.filter fun r => lastPurge cfg.purgeInterval p ≤ r.expiresAt.toInt) := by
  have hne : cfg.purgeInterval ≠ 0 := fun hz => Int.lt_irrefl 0 (by
    have hpos := hp.pos
    rwa [hz] at hpos)
  obtain ⟨s', hs', h'⟩ := h.commitPurge hne p
  refine ⟨s', hs', .commitPurge h.buckets.nodup hs', ?_⟩
  have hkept : unpurged Record.entry cfg.purgeInterval (prevPurgeTime p cfg.purgeInterval) R =
      R.filter fun r => lastPurge cfg.purgeInterval p ≤ r.expiresAt.toInt :=
    List.filter_congr fun r hr => decide_eq_decide.mpr (RoundsUp.unpurged_iff hp0 (he r hr))
  exact hkept ▸ h'

/-- Lookups pass over the items that have expired, so dropping some of these changes no answer. -/
theorem getItem_of_expired {keep : Record → Bool} (h : Represents cfg s R)
    (h' : Represents cfg s' (R.filter keep)) {t : Int64}
    (ht : ∀ r ∈ R, keep r = false → r.entry.isExpired t = true) (key : Key) :
    s'.getItem key t = s.getItem key t := by
  rw [h.getItem, h'.getItem]
  congr 2
  unfold lookup
  rw [← List.head?_filter, ← List.head?_filter, List.filter_filter]
  congr 1
  refine List.filter_congr fun r hr => ?_
  cases hk : keep r with
  | true => rw [Bool.and_true]
  | false => rw [ht r hr hk, Bool.not_true, Bool.and_false, Bool.and_false]

/-- Of two purges only the later one counts. -/
theorem commitPurge_twice (h : Represents cfg s R) (hp : RoundsUp cfg.purgeInterval p)
    (hp0 : 0 ≤ p.toInt) (hq : RoundsUp cfg.purgeInterval q) (hq0 : 0 ≤ q.toInt)
    (he : ∀ r ∈ R, RoundsUp cfg.purgeInterval r.expiresAt) (hs : s.commitPurge cfg p = .ok s') :
    ∃ s'', s'.commitPurge cfg q = .ok s'' ∧ s.commitPurge cfg (max p q) = .ok s'' := by
  obtain ⟨t, ht, hshrunk, h'⟩ := h.commitPurge_exact hp hp0 he
  cases hs.symm.trans ht
  obtain ⟨s'', hs'', hshrunk', h''⟩ := h'.commitPurge_exact hq hq0 fun r hr =>
    he r (List.mem_filter.mp hr).1
  have hmax : RoundsUp cfg.purgeInterval (max p q) ∧ 0 ≤ (max p q).toInt ∧
      lastPurge cfg.purgeInterval (max p q) =
        max (lastPurge cfg.purgeInterval p) (lastPurge cfg.purgeInterval q) := by
    by_cases hpq : p ≤ q
    · rw [show max p q = q from if_pos hpq]
      exact ⟨hq, hq0, (Int.max_eq_right (lastPurge_mono hp.pos hpq)).symm⟩
    · have hqp : q ≤ p := Int64.le_of_lt (Int64.not_le.mp hpq)
      rw [show max p q = p from if_neg hpq]
      exact ⟨hp, hp0, (Int.max_eq_left (lastPurge_mono hp.pos hqp)).symm⟩
  -- both ways keep the same records and only remove, so they end in the same containers
  obtain ⟨u, hu, hshrunk'', hu'⟩ := h.commitPurge_exact hmax.1 hmax.2.1 he
  have hkept : (R.filter fun r => decide (lastPurge cfg.purgeInterval p ≤ r.expiresAt.toInt)).filter
      (fun r => decide (lastPurge cfg.purgeInterval q ≤ r.expiresAt.toInt)) =
      R.filter fun r => decide (lastPurge cfg.purgeInterval (max p q) ≤ r.expiresAt.toInt) := by
    rw [List.filter_filter, hmax.2.2]
    refine List.filter_congr fun r _ => ?_
    rw [← Bool.decide_and]
    exact decide_eq_decide.mpr (by rw [Int.max_le, and_comm])
  rw [hkept] at h''
  obtain rfl := h.eq_of_shrunk h'' hu' (hshrunk.trans hshrunk') hshrunk''
  exact ⟨s'', hs'', hu⟩

end Represents

/-- A purge removes exactly the items that expired before the last multiple of the interval, and
nothing else changes. It removes no item that is unexpired at its time, lookups from then on see no
difference, and two purges are one at the later time. -/
theorem commitPurge_removes_expired {cfg : CacheConfig} {s : Containers} {l : List Entry}
    {p : Int64}
    (h : RepInv cfg s) (hl : s.entries = .ok l) (hi : 0 < cfg.purgeInterval) (hp : 0 ≤ p)
    (hpmax : (p.toInt / cfg.purgeInterval.toInt + 1) * cfg.purgeInterval.toInt < 2 ^ 63)
    (he : ∀ e ∈ l, 0 ≤ e.expiresAt ∧
      (e.expiresAt.toInt / cfg.purgeInterval.toInt + 1) * cfg.purgeInterval.toInt < 2 ^ 63) :
    ∃ s' R, s.commitPurge cfg p = .ok s' ∧ RepInv cfg s' ∧ Represents cfg s R ∧
      R.map Record.entry = l ∧ Shrunk s s' ∧
      Represents cfg s' (R.filter fun r => lastPurge cfg.purgeInterval p ≤ r.expiresAt.toInt) ∧
      s'.usedMemory = s.usedMemory -
        ((R.filter fun r => r.expiresAt.toInt < lastPurge cfg.purgeInterval p).map
          Record.size).sum ∧
      (∀ r ∈ R, p < r.expiresAt → lastPurge cfg.purgeInterval p ≤ r.expiresAt.toInt) ∧
      (∀ key t, p ≤ t → s'.getItem key t = s.getItem key t) ∧
      ∀ q, 0 ≤ q →
        (q.toInt / cfg.purgeInterval.toInt + 1) * cfg.purgeInterval.toInt < 2 ^ 63 →
        ∃ s'', s'.commitPurge cfg q = .ok s'' ∧ s.commitPurge cfg (max p q) = .ok s'' := by
  obtain ⟨R, hR⟩ := h.represents
  obtain rfl : R.map Record.entry = l := Except.ok.inj (hR.entries.symm.trans hl)
  have hpos : 0 < cfg.purgeInterval.toInt := Int32.lt_iff_toInt_lt.mp hi
  have hround : ∀ {t : Int64}, 0 ≤ t →
      (t.toInt / cfg.purgeInterval.toInt + 1) * cfg.purgeInterval.toInt < 2 ^ 63 →
      RoundsUp cfg.purgeInterval t := fun ht hlt => ⟨hpos, .inl (Int64.le_iff_toInt_le.mp ht), hlt⟩
  have hexp : ∀ r ∈ R, RoundsUp cfg.purgeInterval r.expiresAt := fun r hr =>
    hround (he r.entry (List.mem_map_of_mem hr)).1 (he r.entry (List.mem_map_of_mem hr)).2
  have hp0 := Int64.le_iff_toInt_le.mp hp
  obtain ⟨s', hs', hshrunk, h'⟩ := hR.commitPurge_exact (hround hp hpmax) hp0 hexp
  have hle := lastPurge_le hpos p
  refine ⟨s', R, hs', h'.repInv, hR, rfl, hshrunk, h', ?_, ?_, ?_, fun q hq hqmax =>
    hR.commitPurge_twice (hround hp hpmax) hp0 (hround hq hqmax) (Int64.le_iff_toInt_le.mp hq) hexp
      hs'⟩
  · have hgone : (R.filter fun r => decide (r.expiresAt.toInt < lastPurge cfg.purgeInterval p)) =
        R.filter fun r => !decide (lastPurge cfg.purgeInterval p ≤ r.expiresAt.toInt) :=
      List.filter_congr fun r _ => by simp only [← decide_not, Int.not_le]
    rw [h'.used, hR.used, hgone, ← sum_size_filter_add
      (fun r => decide (lastPurge cfg.purgeInterval p ≤ r.expiresAt.toInt)) R,
      UInt64.add_sub_cancel]
  · intro r hr hlt
    have := Int64.lt_iff_toInt_lt.mp hlt
    omega
  · intro key t hpt
    refine hR.getItem_of_expired h' (fun r hr hgone => ?_) key
    have hlt := Int.not_le.mp (of_decide_eq_false hgone)
    have hpt := Int64.le_iff_toInt_le.mp hpt
    have hexpired : r.expiresAt.toInt ≤ t.toInt := by omega
    exact decide_eq_true (Int64.le_iff_toInt_le.mpr hexpired)

/-- Items that expire at 150, 130 and 400. -/
def Sample.threeExpiries : List StorageOp :=
  [.commitWrite (key 1) (zeros 3 150) 100, .commitWrite (key 2) (zeros 5 130) 110,
    .commitWrite (key 3) (zeros 7 400) 120]

/-- A purge at 200 goes back to 180: the first two items are dropped, and a lookup at 200 sees none
of it. -/
theorem commitPurge_removes_expired_threeExpiries :
    ∃ answers s s', CacheStorage.run Sample.config .new Sample.threeExpiries = .ok (answers, s) ∧
      RepInv Sample.config s.toContainers ∧ s.toContainers.commitPurge Sample.config 200 = .ok s' ∧
      RepInv Sample.config s' ∧ s'.entries = .ok [(Sample.zeros 7 400).entry (Sample.key 3)] ∧
      s'.getItem (Sample.key 1) 200 = s.getItem (Sample.key 1) 200 := by
  have hsafe : SafeRun Sample.config Sample.threeExpiries := by decide +kernel
  obtain ⟨_, s₀, hs₀, R₀, hR₀⟩ := Represents.of_safeRun (by decide) hsafe
  have h : (do
      let r ← CacheStorage.run Sample.config .new Sample.threeExpiries
      let s' ← r.2.toContainers.commitPurge Sample.config 200
      return decide (r.2.entries = Except.ok [(Sample.zeros 7 400).entry (Sample.key 3),
          (Sample.zeros 5 130).entry (Sample.key 2), (Sample.zeros 3 150).entry (Sample.key 1)] ∧
        s'.entries = Except.ok [(Sample.zeros 7 400).entry (Sample.key 3)])) = .ok true := by
    decide +kernel
  obtain ⟨⟨answers, s⟩, hrun, h⟩ := Run.bind_eq_ok.mp h
  cases hs₀.symm.trans hrun
  obtain ⟨s', hs', h⟩ := Run.bind_eq_ok.mp h
  obtain ⟨hl, hentries⟩ := of_decide_eq_true (Except.ok.inj h)
  obtain ⟨t, _, ht, hinv, -, -, -, -, -, -, hget, -⟩ :=
    commitPurge_removes_expired (p := 200) hR₀.repInv hl (by decide) (by decide) (by decide)
      (by simp [Sample.zeros, Sample.item, CacheItem.entry, Sample.config])
  cases hs'.symm.trans ht
  exact ⟨_, s₀, s', hrun, hR₀.repInv, hs', hinv, hentries, hget _ _ (by decide)⟩

end LruCache
