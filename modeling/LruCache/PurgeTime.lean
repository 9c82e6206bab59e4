import Mathlib.Order.Bounds.Basic
import LruCache.CacheConfig
import LruCache.Contents

/-!
# The arithmetic of purge times

`next_purge_time` rounds a time up to the next multiple of the interval. Its remainder has the sign
of the time, so below zero it goes one interval too far unless the time is a multiple itself; and
near the largest `time_t` the sum overflows.

A purge goes back to the multiple before. From zero on this is exact, and an item is kept when it
expires at that multiple or later, unless the bucket of the item has overflowed.
-/

namespace LruCache

/-- The multiples of `i` after `t`. -/
def multiplesAfter (i t : Int) : Set Int := {q | i ∣ q ∧ t < q}

theorem isLeast_multiplesAfter {i : Int} (hi : 0 < i) (t : Int) :
    IsLeast (multiplesAfter i t) ((t / i + 1) * i) := by
  have hdiv := Int.mul_ediv_add_emod t i
  have hlt := Int.emod_lt_of_pos t hi
  have hnonneg := Int.emod_nonneg t (Int.ne_of_gt hi)
  have hexp : (t / i + 1) * i = i * (t / i) + i := by rw [Int.add_mul, Int.mul_comm, Int.one_mul]
  refine ⟨⟨Int.dvd_mul_left _ _, by omega⟩, ?_⟩
  rintro q ⟨⟨k, rfl⟩, hq⟩
  have hk : t / i < k := by
    by_contra hle
    have := Int.mul_le_mul_of_nonneg_left (Int.not_lt.mp hle) (Int.le_of_lt hi)
    omega
  rw [Int.mul_comm i k]
  exact Int.mul_le_mul_of_nonneg_right hk (Int.le_of_lt hi)

section

variable {i : Int32} {t : Int64}

/-- The difference that is added is between one and two intervals. -/
theorem tmod_bounds (hi : 0 < i.toInt) (t : Int) :
    -i.toInt < t.tmod i.toInt ∧ t.tmod i.toInt < i.toInt := by
  have h1 := Int.emod_nonneg t (Int.ne_of_gt hi)
  have h2 := Int.emod_lt_of_pos t hi
  rw [Int.tmod_eq_emod]
  split <;> omega

/-- The sum that `next_purge_time` computes, before it wraps. -/
theorem toInt_purgeTimeAfter (hi : 0 < i.toInt)
    (hd : i.toInt - t.toInt.tmod i.toInt < 2 ^ 31) :
    (purgeTimeAfter t i).toInt =
      (t.toInt + (i.toInt - t.toInt.tmod i.toInt)).bmod (2 ^ 64) := by
  obtain ⟨hlo, hhi⟩ := tmod_bounds hi t.toInt
  have hle := Int32.toInt_lt i
  have hrem : ((t % i.toInt64).toInt32).toInt = t.toInt.tmod i.toInt := by
    rw [Int64.toInt_toInt32, Int64.toInt_mod, Int32.toInt_toInt64]
    exact Int.bmod_eq_of_le (by omega) (by omega)
  have hdiff : (i - (t % i.toInt64).toInt32).toInt = i.toInt - t.toInt.tmod i.toInt := by
    rw [Int32.toInt_sub, hrem]
    exact Int.bmod_eq_of_le (by omega) (by omega)
  unfold purgeTimeAfter
  rw [Int64.toInt_add, Int32.toInt_toInt64, hdiff]

/-- A time from zero on, or a multiple of the interval, whose next multiple is a `time_t`. -/
structure RoundsUp (i : Int32) (t : Int64) : Prop where
  pos : 0 < i.toInt
  sign : 0 ≤ t.toInt ∨ i.toInt ∣ t.toInt
  lt : (t.toInt / i.toInt + 1) * i.toInt < 2 ^ 63

/-- The next multiple, one interval after the last one. -/
theorem next_multiple_eq (i t : Int) : (t / i + 1) * i = t - t % i + i := by
  have := Int.mul_ediv_add_emod t i
  rw [Int.add_mul, Int.mul_comm, Int.one_mul]
  omega

theorem RoundsUp.toInt_purgeTimeAfter (h : RoundsUp i t) :
    (purgeTimeAfter t i).toInt = (t.toInt / i.toInt + 1) * i.toInt := by
  have hrem : t.toInt.tmod i.toInt = t.toInt % i.toInt := by
    rw [Int.tmod_eq_emod, if_pos h.sign, Int.ofNat_zero, Int.sub_zero]
  have h1 := Int.emod_nonneg t.toInt (Int.ne_of_gt h.pos)
  have h2 := Int.emod_lt_of_pos t.toInt h.pos
  have hle := Int64.le_toInt t
  have hi := Int32.toInt_lt i
  have hlt := h.lt
  rw [next_multiple_eq] at hlt ⊢
  rw [LruCache.toInt_purgeTimeAfter h.pos (by omega), hrem]
  rw [Int.bmod_eq_of_le (by omega) (by omega)]
  omega

/-- So the bucket of an item is later than its expiry. -/
theorem RoundsUp.lt_purgeTimeAfter (h : RoundsUp i t) : t < purgeTimeAfter t i := by
  rw [Int64.lt_iff_toInt_lt, h.toInt_purgeTimeAfter]
  exact (isLeast_multiplesAfter h.pos t.toInt).1.2

/-- And the buckets follow the order of the expiries. -/
theorem RoundsUp.purgeTimeAfter_mono {t' : Int64} (h : RoundsUp i t) (h' : RoundsUp i t')
    (hle : t ≤ t') : purgeTimeAfter t i ≤ purgeTimeAfter t' i := by
  have hdiv := Int.ediv_le_ediv h.pos (Int64.le_iff_toInt_le.mp hle)
  rw [Int64.le_iff_toInt_le, h.toInt_purgeTimeAfter, h'.toInt_purgeTimeAfter]
  exact Int.mul_le_mul_of_nonneg_right (Int.add_le_add_right hdiv 1) (Int.le_of_lt h.pos)

/-- The subtraction of `next_purge_time` stays within `int`, and its sum within `time_t`. -/
structure NoOverflow (i : Int32) (t : Int64) : Prop where
  difference : -2 ^ 31 ≤ i.toInt - t.toInt.tmod i.toInt ∧ i.toInt - t.toInt.tmod i.toInt < 2 ^ 31
  sum : -2 ^ 63 ≤ t.toInt + (i.toInt - t.toInt.tmod i.toInt) ∧
    t.toInt + (i.toInt - t.toInt.tmod i.toInt) < 2 ^ 63

/-- Below zero, a time between two multiples goes past the next one. -/
theorem toInt_purgeTimeAfter_of_neg (hi : 0 < i.toInt) (hi' : i.toInt < 2 ^ 16)
    (hsign : ¬ (0 ≤ t.toInt ∨ i.toInt ∣ t.toInt)) :
    (purgeTimeAfter t i).toInt = (t.toInt / i.toInt + 1) * i.toInt + i.toInt := by
  obtain ⟨hlo, hhi⟩ := tmod_bounds hi t.toInt
  have hle := Int64.le_toInt t
  have hrem : t.toInt.tmod i.toInt = t.toInt % i.toInt - i.toInt := by
    rw [Int.tmod_eq_emod, if_neg hsign]
    omega
  rw [next_multiple_eq, toInt_purgeTimeAfter hi (by omega), hrem,
    Int.bmod_eq_of_le (by omega) (by omega)]
  omega

/-- Within the intervals of an `unsigned short`, the result is the next multiple exactly when the
time rounds up. -/
theorem isLeast_purgeTimeAfter_iff (hi : 0 < i.toInt) (hi' : i.toInt < 2 ^ 16) :
    NoOverflow i t ∧ IsLeast (multiplesAfter i.toInt t.toInt) (purgeTimeAfter t i).toInt ↔
      RoundsUp i t := by
  have hnext := isLeast_multiplesAfter hi t.toInt
  obtain ⟨hlo, hhi⟩ := tmod_bounds hi t.toInt
  have hle := Int64.le_toInt t
  constructor
  · rintro ⟨-, hleast⟩
    have heq := hleast.unique hnext
    refine ⟨hi, ?_, heq ▸ Int64.toInt_lt _⟩
    by_contra hsign
    rw [toInt_purgeTimeAfter_of_neg hi hi' hsign] at heq
    omega
  · intro h
    have hrem : t.toInt.tmod i.toInt = t.toInt % i.toInt := by
      rw [Int.tmod_eq_emod, if_pos h.sign, Int.ofNat_zero, Int.sub_zero]
    have hlt := h.lt
    rw [next_multiple_eq] at hlt
    refine ⟨⟨⟨by omega, by omega⟩, by omega, by omega⟩, ?_⟩
    rw [h.toInt_purgeTimeAfter]
    exact hnext

end

/-! ## Purges -/

/-- The last multiple of the interval that is not after `p`. -/
def lastPurge (i : Int32) (p : Int64) : Int := p.toInt / i.toInt * i.toInt

theorem lastPurge_le {i : Int32} (hi : 0 < i.toInt) (p : Int64) : lastPurge i p ≤ p.toInt :=
  Int.ediv_mul_le p.toInt (Int.ne_of_gt hi)

theorem lastPurge_mono {i : Int32} (hi : 0 < i.toInt) {p q : Int64} (h : p ≤ q) :
    lastPurge i p ≤ lastPurge i q :=
  Int.mul_le_mul_of_nonneg_right (Int.ediv_le_ediv hi (Int64.le_iff_toInt_le.mp h))
    (Int.le_of_lt hi)

instance (i : Int32) (t : Int64) : Decidable (NoOverflow i t) :=
  decidable_of_iff (_ ∧ _) ⟨fun h => ⟨h.1, h.2⟩, fun h => ⟨h.1, h.2⟩⟩

section

variable {i : Int32} {p e : Int64}

theorem NoOverflow.toInt_purgeTimeAfter (hi : 0 < i.toInt) (h : NoOverflow i e) :
    (purgeTimeAfter e i).toInt = e.toInt.tdiv i.toInt * i.toInt + i.toInt := by
  have hdiv := Int.tdiv_mul_add_tmod e.toInt i.toInt
  obtain ⟨hlo, hhi⟩ := h.sum
  rw [LruCache.toInt_purgeTimeAfter hi h.difference.2, Int.bmod_eq_of_le (by omega) (by omega)]
  omega

/-- A purge goes back to a multiple. The interval that may make the sum overflow is taken off
again. -/
theorem toInt_prevPurgeTime (hi : 0 < i.toInt) (hd : i.toInt - p.toInt.tmod i.toInt < 2 ^ 31) :
    (prevPurgeTime p i).toInt = p.toInt.tdiv i.toInt * i.toInt := by
  have hdiv := Int.tdiv_mul_add_tmod p.toInt i.toInt
  have habs := Int.natAbs_tmod p.toInt i.toInt
  have hle := Nat.mod_le p.toInt.natAbs i.toInt.natAbs
  have hlo := Int64.le_toInt p
  have hhi := Int64.toInt_lt p
  have hsign : 0 ≤ p.toInt → 0 ≤ p.toInt.tmod i.toInt := Int.tmod_nonneg _
  have hbounds := tmod_bounds hi p.toInt
  have hneg : p.toInt < 0 → p.toInt.tmod i.toInt ≤ 0 := by
    intro hp
    rw [Int.tmod_eq_emod]
    split
    · next h =>
      have hdvd := h.resolve_left (by omega)
      rw [Int.emod_eq_zero_of_dvd hdvd]
      exact Int.le_refl 0
    · have := Int.emod_lt_of_pos p.toInt hi
      omega
  unfold prevPurgeTime
  rw [Int64.toInt_sub, toInt_purgeTimeAfter hi hd, Int32.toInt_toInt64, Int.bmod_sub_bmod,
    Int.bmod_eq_of_le (by omega) (by omega)]
  omega

/-- Without overflow a purge keeps what expires at its time or later. -/
theorem NoOverflow.prevPurgeTime_lt (hi : 0 < i.toInt) (hp : NoOverflow i p) (he : NoOverflow i e)
    (hle : p.toInt ≤ e.toInt) : prevPurgeTime p i < purgeTimeAfter e i := by
  have hdiv := Int.mul_le_mul_of_nonneg_right (Int.tdiv_le_tdiv hi hle) (Int.le_of_lt hi)
  rw [Int64.lt_iff_toInt_lt, toInt_prevPurgeTime hi hp.difference.2, he.toInt_purgeTimeAfter hi]
  omega

/-- From zero on a purge goes back to the last multiple. -/
theorem toInt_prevPurgeTime_of_nonneg (hi : 0 < i.toInt) (hp : 0 ≤ p.toInt) :
    (prevPurgeTime p i).toInt = lastPurge i p := by
  have hmod := Int.tmod_nonneg i.toInt hp
  have hlt := Int32.toInt_lt i
  rw [toInt_prevPurgeTime hi (by omega), Int.tdiv_eq_ediv_of_nonneg hp, lastPurge]

/-- The multiple is computed exactly, and an item stays when it expires at it or later. -/
theorem RoundsUp.unpurged_iff (hp : 0 ≤ p.toInt) (he : RoundsUp i e) :
    prevPurgeTime p i < purgeTimeAfter e i ↔ lastPurge i p ≤ e.toInt := by
  rw [Int64.lt_iff_toInt_lt, toInt_prevPurgeTime_of_nonneg he.pos hp, he.toInt_purgeTimeAfter]
  unfold lastPurge
  rw [← Int.le_ediv_iff_mul_le he.pos]
  constructor
  · intro h
    exact Int.lt_add_one_iff.mp (Int.lt_of_mul_lt_mul_right h (Int.le_of_lt he.pos))
  · intro h
    exact Int.mul_lt_mul_of_pos_right (Int.lt_add_one_iff.mpr h) he.pos

/-- A bucket that overflows is a time before zero: the item is purged at once, although it expires
after every multiple that is a `time_t`. -/
theorem overflown_purged (hi : 0 < i.toInt) (hp : 0 ≤ p.toInt) (he : 0 ≤ e.toInt)
    (hover : ¬ (e.toInt / i.toInt + 1) * i.toInt < 2 ^ 63) :
    ¬ prevPurgeTime p i < purgeTimeAfter e i ∧ lastPurge i p ≤ e.toInt := by
  have hlast : 0 ≤ lastPurge i p :=
    Int.mul_nonneg (Int.ediv_nonneg hp (Int.le_of_lt hi)) (Int.le_of_lt hi)
  have hmod := Int.tmod_nonneg i.toInt he
  have hlt := Int32.toInt_lt i
  have hepos := Int64.toInt_lt e
  constructor
  · have hrem : e.toInt.tmod i.toInt = e.toInt % i.toInt := Int.tmod_eq_emod_of_nonneg he
    rw [next_multiple_eq] at hover
    rw [Int64.lt_iff_toInt_lt, toInt_prevPurgeTime_of_nonneg hi hp,
      toInt_purgeTimeAfter hi (by omega), Int.bmod_def]
    omega
  · by_contra hgt
    have hnext := (isLeast_multiplesAfter hi e.toInt).2
      (show lastPurge i p ∈ multiplesAfter i.toInt e.toInt from
        ⟨Int.dvd_mul_left _ _, Int.not_le.mp hgt⟩)
    have := lastPurge_le hi p
    have := Int64.toInt_lt p
    omega

end

/-- For a configuration from a file, `next_purge_time` gives the next multiple of the interval
exactly when the interval is not zero, the time is not a negative one between two multiples, and the
next multiple is a `time_t`. It is then later than the time, and monotone. -/
theorem next_purge_time_iff {cfg : CacheConfig} (hload : cfg.Loadable) (t : Int64) :
    ((∃ p, nextPurgeTime t cfg.purgeInterval = .ok p ∧ NoOverflow cfg.purgeInterval t ∧
        IsLeast (multiplesAfter cfg.purgeInterval.toInt t.toInt) p.toInt) ↔
      RoundsUp cfg.purgeInterval t) ∧
    (RoundsUp cfg.purgeInterval t → t < purgeTimeAfter t cfg.purgeInterval ∧
      ∀ t', RoundsUp cfg.purgeInterval t' → t ≤ t' →
        purgeTimeAfter t cfg.purgeInterval ≤ purgeTimeAfter t' cfg.purgeInterval) := by
  obtain ⟨h0, h1⟩ := CacheConfig.loadable_iff.mp hload
  refine ⟨⟨?_, fun h => ?_⟩, fun h => ⟨h.lt_purgeTimeAfter, fun t' => h.purgeTimeAfter_mono⟩⟩
  · rintro ⟨p, hp, hover, hleast⟩
    obtain ⟨hne, rfl⟩ := nextPurgeTime_eq_ok.mp hp
    have hpos : 0 < cfg.purgeInterval.toInt :=
      Int.lt_iff_le_and_ne.mpr ⟨h0, fun he => hne (Int32.toInt_inj.mp he.symm)⟩
    exact (isLeast_purgeTimeAfter_iff hpos h1).mp ⟨hover, hleast⟩
  · have hne : cfg.purgeInterval ≠ 0 := by
      intro he
      have hpos := h.pos
      rw [he] at hpos
      exact Int.lt_irrefl _ hpos
    obtain ⟨hover, hleast⟩ := (isLeast_purgeTimeAfter_iff h.pos h1).mpr h
    exact ⟨_, nextPurgeTime_of_ne_zero hne t, hover, hleast⟩

theorem next_purge_time_minute :
    Sample.config.Loadable ∧ RoundsUp 60 100 ∧ nextPurgeTime 100 60 = .ok 120 ∧
      IsLeast (multiplesAfter 60 100) 120 := by
  have hload : Sample.config.Loadable := CacheConfig.loadable_iff.mpr (by decide)
  have h : RoundsUp 60 100 := ⟨by decide, .inl (by decide), by decide⟩
  obtain ⟨p, hp, -, hleast⟩ := (next_purge_time_iff hload 100).1.mpr h
  have h120 : nextPurgeTime 100 60 = .ok 120 := by decide
  obtain rfl : p = 120 := Except.ok.inj (hp.symm.trans h120)
  exact ⟨hload, h, h120, hleast⟩

/-- An interval of zero can be loaded, and a write then divides by zero. With an interval of 60, the
expiry -1 of an accepted write goes to 60 and not to 0; and the largest expiry goes to a time long
past, so that the next purge removes the item at once. -/
theorem next_purge_time_fails :
    (CacheConfig.mk 1024 512 64 0).Loadable ∧
    CacheStorage.commitWrite ⟨1024, 512, 64, 0⟩ .new (Sample.key 1) (Sample.item 3 (by decide) 500)
      100 = .error .divisionByZero ∧
    Sample.config.Loadable ∧
    rejection Sample.config (Sample.key 1) (Sample.item 3 (by decide) (-1)) (-100) = none ∧
    nextPurgeTime (-1) 60 = .ok 60 ∧ 0 ∈ multiplesAfter 60 (-1) ∧
    rejection Sample.config (Sample.key 1) (Sample.item 3 (by decide) Int64.maxValue) 100 = none ∧
    (∃ p, nextPurgeTime Int64.maxValue 60 = .ok p ∧ p < 0) ∧
    (do
      let r ← CacheStorage.run Sample.config .new
        [.commitWrite (Sample.key 1) (Sample.item 3 (by decide) Int64.maxValue) 100,
          .commitPurge 101]
      r.2.entries) = .ok [] := by
  refine ⟨CacheConfig.loadable_iff.mpr (by decide), by decide +kernel,
    CacheConfig.loadable_iff.mpr (by decide), by decide, by decide, ⟨by decide, by decide⟩,
    by decide, ⟨_, rfl, by decide⟩, by decide +kernel⟩

end LruCache
