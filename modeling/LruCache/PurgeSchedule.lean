import LruCache.Purge
import LruCache.Lru

/-!
# Purges are not observable

When and how often a cache is purged does not matter to its users: two runs with the same reads and
writes and with different purges give the same answers, and afterwards hold the same unexpired items
in the same order (`purges_unobservable`). This is so as long as nothing is evicted, since expired
items count as used memory, no write meets an expired item of its key, and the purge times are
computed without overflow.

A run without purges and evictions is the reference (`bareStep`). At every time from the last call
on, the unexpired items of a run are those of the reference.
-/

namespace LruCache

/-- The entries that are unexpired at `t`. -/
def live (t : Int64) (l : List Entry) : List Entry := l.filter fun e => !e.isExpired t

/-- The call is not a purge. -/
def StorageOp.isCommit : StorageOp → Bool
  | .commitPurge _ => false
  | _ => true

/-- The answers of a run to the calls that are not purges. -/
def commitAnswers (ops : List StorageOp) (answers : List (Option Bool)) :
    List (StorageOp × Option Bool) :=
  (ops.zip answers).filter fun call => call.1.isCommit

theorem commitAnswers_cons (op : StorageOp) (a : Option Bool) (ops : List StorageOp)
    (answers : List (Option Bool)) :
    commitAnswers (op :: ops) (a :: answers) =
      if op.isCommit then (op, a) :: commitAnswers ops answers else commitAnswers ops answers := by
  unfold commitAnswers
  rw [List.zip_cons_cons, List.filter_cons]

namespace Contents

/-- The purge time after `t` is computed without overflow. -/
def Timely (cfg : CacheConfig) (t : Int64) : Prop := NoOverflow cfg.purgeInterval t

instance (cfg : CacheConfig) (t : Int64) : Decidable (Timely cfg t) :=
  inferInstanceAs (Decidable (NoOverflow _ _))

/-- A call that evicts nothing, with times that are computed without overflow. -/
def Calm (cfg : CacheConfig) (l : List Entry) : StorageOp → Prop
  | .commitWrite key item writtenAt =>
    rejection cfg key item writtenAt = none →
      writeSurvivors id cfg key item.dataSize writtenAt l = l ∧ Timely cfg item.expiresAt
  | .commitPurge purgedAt => Timely cfg purgedAt
  | .evictLruData _ _ => False
  | .commitRead _ _ | .clear => True

instance (cfg : CacheConfig) (l : List Entry) : (op : StorageOp) → Decidable (Calm cfg l op)
  | .commitWrite _ _ _ => inferInstanceAs (Decidable (_ → _ ∧ _))
  | .commitPurge _ => inferInstanceAs (Decidable (Timely _ _))
  | .evictLruData _ _ => .isFalse id
  | .commitRead _ _ => .isTrue trivial
  | .clear => .isTrue trivial

/-- One call without purges and evictions. -/
def bareStep (cfg : CacheConfig) (l : List Entry) : StorageOp → Option Bool × List Entry
  | .commitRead key readAt =>
    match lookup id key readAt l with
    | none => (some false, l)
    | some _ => (some true, touch id key l)
  | .commitWrite key item writtenAt =>
    match rejection cfg key item writtenAt with
    | some _ => (some false, l)
    | none => (some true, item.entry key :: without id key l)
  | .clear => (none, [])
  | .commitPurge _ | .evictLruData _ _ => (none, l)

end Contents

/-- A run from the empty cache in which no write meets an expired item of its key, nothing is
evicted, time does not go back and no purge time overflows. -/
structure CalmRun (cfg : CacheConfig) (ops : List StorageOp) : Prop where
  safe : SafeRun cfg ops
  nonDecreasing : StorageOp.NonDecreasing ops
  calm : Run.Steps (Contents.step cfg) (Contents.Calm cfg) [] ops

/-! ## Unexpired entries -/

section Live

variable {cfg : CacheConfig} {l m : List Entry} {key : Key} {t u : Int64}

theorem lookup_eq_find_live (key : Key) (t : Int64) (l : List Entry) :
    lookup id key t l = (live t l).find? fun e => e.key == key := by
  unfold lookup live
  rw [List.find?_filter]
  refine congrArg (List.find? · l) (funext fun e => ?_)
  rw [Bool.decide_and, Bool.decide_eq_true, Bool.decide_eq_true]
  exact Bool.and_comm _ _

theorem live_touch (key : Key) (t : Int64) (l : List Entry) :
    live t (touch id key l) = touch id key (live t l) := by
  unfold live touch without
  rw [List.filter_append]
  exact congrArg₂ (· ++ ·) (List.filter_comm _ _ l) (List.filter_comm _ _ l)

theorem live_without (key : Key) (t : Int64) (l : List Entry) :
    live t (without id key l) = without id key (live t l) := by
  unfold live without
  exact List.filter_comm _ _ l

theorem live_cons_without (e : Entry) (t : Int64) (l : List Entry) :
    live t (e :: without id key l) = live t [e] ++ without id key (live t l) := by
  rw [← live_without]
  exact List.filter_append [e] _

/-- A purge takes only what has expired by its time. -/
theorem live_unpurged (hi : 0 < cfg.purgeInterval) (hp : Contents.Timely cfg u)
    (hl : ∀ e ∈ l, Contents.Timely cfg e.expiresAt) (hut : u ≤ t) :
    live t (unpurged id cfg.purgeInterval (prevPurgeTime u cfg.purgeInterval) l) = live t l := by
  have hpos : 0 < cfg.purgeInterval.toInt := Int32.lt_iff_toInt_lt.mp hi
  unfold live unpurged
  rw [List.filter_filter]
  refine List.filter_congr fun e he => ?_
  have hut : u.toInt ≤ t.toInt := Int64.le_iff_toInt_le.mp hut
  cases hexp : e.isExpired t with
  | true => rfl
  | false =>
    have hlt : t < e.expiresAt := Int64.not_le.mp (of_decide_eq_false hexp)
    have hlt : t.toInt < e.expiresAt.toInt := Int64.lt_iff_toInt_lt.mp hlt
    have hle : u.toInt ≤ e.expiresAt.toInt := by omega
    exact decide_eq_true (NoOverflow.prevPurgeTime_lt hpos hp (hl e he) hle)

end Live

/-! ## A run and its reference -/

/-- From `now` on both lists show the same unexpired entries. -/
def Agree (now : Int64) (l m : List Entry) : Prop := ∀ t, now ≤ t → live t l = live t m

namespace Agree

variable {cfg : CacheConfig} {l m : List Entry} {now u : Int64}

theorem later (h : Agree now l m) (hu : now ≤ u) : Agree u l m := fun t ht =>
  h t (Int64.le_trans hu ht)

/-- One call on a run and on its reference. -/
theorem step (hi : 0 < cfg.purgeInterval) (h : Agree now l m)
    (hl : ∀ e ∈ l, Contents.Timely cfg e.expiresAt) {op : StorageOp}
    (hcalm : Contents.Calm cfg l op) (htime : ∀ u, op.time? = some u → now ≤ u) :
    (op.isCommit = true → (Contents.step cfg l op).1 = (Contents.bareStep cfg m op).1) ∧
      Agree (op.time?.getD now) (Contents.step cfg l op).2 (Contents.bareStep cfg m op).2 := by
  cases op with
  | commitRead key readAt =>
    have hnow := htime readAt rfl
    have hlookup : lookup id key readAt l = lookup id key readAt m := by
      rw [lookup_eq_find_live, lookup_eq_find_live, h readAt hnow]
    rw [Contents.step, Contents.bareStep]
    rw [hlookup]
    cases lookup id key readAt m with
    | none => exact ⟨fun _ => rfl, h.later hnow⟩
    | some e =>
      refine ⟨fun _ => rfl, fun t ht => ?_⟩
      rw [live_touch, live_touch, h t (Int64.le_trans hnow ht)]
  | commitWrite key item writtenAt =>
    have hnow := htime writtenAt rfl
    rw [Contents.step, Contents.bareStep]
    cases hrej : rejection cfg key item writtenAt with
    | some code => exact ⟨fun _ => rfl, h.later hnow⟩
    | none =>
      refine ⟨fun _ => rfl, fun t ht => ?_⟩
      dsimp only
      rw [(hcalm hrej).1, live_cons_without, live_cons_without, h t (Int64.le_trans hnow ht)]
  | commitPurge purgedAt =>
    refine ⟨fun hc => absurd hc Bool.false_ne_true, fun t ht => ?_⟩
    exact (live_unpurged hi hcalm hl ht).trans (h t (Int64.le_trans (htime purgedAt rfl) ht))
  | evictLruData key required => exact hcalm.elim
  | clear => exact ⟨fun _ => rfl, fun _ _ => rfl⟩

/-- The expiries of a run stay timely. -/
theorem timely_step (hl : ∀ e ∈ l, Contents.Timely cfg e.expiresAt) {op : StorageOp}
    (hcalm : Contents.Calm cfg l op) :
    ∀ e ∈ (Contents.step cfg l op).2, Contents.Timely cfg e.expiresAt := by
  cases op with
  | commitRead key readAt =>
    rw [Contents.step]
    cases lookup id key readAt l with
    | none => exact hl
    | some e => exact fun e he => hl e (touch_subset he)
  | commitWrite key item writtenAt =>
    rw [Contents.step]
    cases hrej : rejection cfg key item writtenAt with
    | some code => exact hl
    | none =>
      intro e he
      rcases List.mem_cons.mp he with rfl | he
      · exact (hcalm hrej).2
      · exact hl e (survivors_sublist.subset (without_sublist.subset he))
  | commitPurge purgedAt => exact fun e he => hl e (List.mem_of_mem_filter he)
  | evictLruData key required => exact hcalm.elim
  | clear => exact fun _ he => absurd he List.not_mem_nil

/-- A run and its reference: the same answers to the calls that are not purges, and the same
unexpired entries at the end. -/
theorem run (hi : 0 < cfg.purgeInterval) {ops : List StorageOp} (h : Agree now l m)
    (hl : ∀ e ∈ l, Contents.Timely cfg e.expiresAt)
    (hcalm : Run.Steps (Contents.step cfg) (Contents.Calm cfg) l ops)
    (htimes : StorageOp.NonDecreasing ops) (hnow : ∀ u ∈ ops.filterMap StorageOp.time?, now ≤ u) :
    commitAnswers ops (Run.exec (Contents.step cfg) l ops).1 =
        (ops.filter StorageOp.isCommit).zip
          (Run.exec (Contents.bareStep cfg) m (ops.filter StorageOp.isCommit)).1 ∧
      ∀ t, now ≤ t → (∀ u ∈ ops.filterMap StorageOp.time?, u ≤ t) →
        live t (Run.exec (Contents.step cfg) l ops).2 =
          live t (Run.exec (Contents.bareStep cfg) m (ops.filter StorageOp.isCommit)).2 := by
  induction ops generalizing l m now with
  | nil => exact ⟨rfl, fun t ht _ => h t ht⟩
  | cons op ops ih =>
    have htime : ∀ u, op.time? = some u → now ≤ u := fun u hu =>
      hnow u (List.mem_filterMap.mpr ⟨op, List.mem_cons_self, hu⟩)
    have hrest : ∀ u ∈ ops.filterMap StorageOp.time?, op.time?.getD now ≤ u := by
      intro u hu
      cases hop : op.time? with
      | none => exact hnow u (List.mem_filterMap.mpr (List.mem_filterMap.mp hu |>.imp fun _ ho =>
          ⟨List.mem_cons_of_mem _ ho.1, ho.2⟩))
      | some v =>
        unfold StorageOp.NonDecreasing at htimes
        rw [List.filterMap_cons_some hop, List.pairwise_cons] at htimes
        exact htimes.1 u hu
    have htail : StorageOp.NonDecreasing ops :=
      List.Pairwise.sublist ((List.sublist_cons_self op ops).filterMap _) htimes
    obtain ⟨hanswer, hagree⟩ := h.step hi hl hcalm.1 htime
    obtain ⟨hanswers, hlive⟩ := ih hagree (timely_step hl hcalm.1) hcalm.2 htail hrest
    have hend : ∀ t, now ≤ t → (∀ u ∈ (op :: ops).filterMap StorageOp.time?, u ≤ t) →
        op.time?.getD now ≤ t ∧ ∀ u ∈ ops.filterMap StorageOp.time?, u ≤ t := by
      intro t ht hall
      refine ⟨?_, fun u hu => hall u (((List.sublist_cons_self op ops).filterMap _).subset hu)⟩
      cases hop : op.time? with
      | none => exact ht
      | some v => exact hall v (List.mem_filterMap.mpr ⟨op, List.mem_cons_self, hop⟩)
    -- The reference takes the call, or skips it when it is a purge.
    cases hcommit : op.isCommit with
    | true =>
      rw [List.filter_cons_of_pos hcommit]
      refine ⟨?_, fun t ht hall => hlive t (hend t ht hall).1 (hend t ht hall).2⟩
      show commitAnswers (op :: ops) (_ :: _) = (op, _) :: _
      rw [commitAnswers_cons, if_pos hcommit, hanswer hcommit, hanswers]
      rfl
    | false =>
      have hskip : (Contents.bareStep cfg m op).2 = m := by
        cases op with
        | commitPurge purgedAt => rfl
        | _ => cases hcommit
      rw [hskip] at hanswers hlive
      rw [List.filter_cons_of_neg (by rw [hcommit]; exact Bool.false_ne_true)]
      refine ⟨?_, fun t ht hall => hlive t (hend t ht hall).1 (hend t ht hall).2⟩
      show commitAnswers (op :: ops) (_ :: _) = _
      rw [commitAnswers_cons, hcommit]
      exact hanswers

end Agree

/-- Two runs from the empty cache with the same reads and writes and with different purges, all
times of which are computed without overflow, give the same answers to the reads and writes, and end
with the same unexpired entries in the same order. -/
theorem purges_unobservable {cfg : CacheConfig} (hi : 0 < cfg.purgeInterval)
    {ops ops' : List StorageOp} (h : CalmRun cfg ops) (h' : CalmRun cfg ops')
    (hsame : ops.filter StorageOp.isCommit = ops'.filter StorageOp.isCommit) :
    ∃ answers answers' s s' l l', CacheStorage.run cfg .new ops = .ok (answers, s) ∧
      CacheStorage.run cfg .new ops' = .ok (answers', s') ∧
      commitAnswers ops answers = commitAnswers ops' answers' ∧
      s.entries = .ok l ∧ s'.entries = .ok l' ∧
      ∀ t, (∀ u ∈ (ops ++ ops').filterMap StorageOp.time?, u ≤ t) → live t l = live t l' := by
  have hi' : cfg.purgeInterval ≠ 0 := (Int32.ne_of_lt hi).symm
  obtain ⟨s, hrun, hs⟩ := h.safe.exec hi'
  obtain ⟨s', hrun', hs'⟩ := h'.safe.exec hi'
  have hempty : Agree Int64.minValue [] [] := fun _ _ => rfl
  have hfollows := fun {ops : List StorageOp} (h : CalmRun cfg ops) =>
    hempty.run hi (fun _ he => nomatch he) h.calm h.nonDecreasing fun u _ => Int64.minValue_le u
  obtain ⟨hanswers, hlive⟩ := hfollows h
  obtain ⟨hanswers', hlive'⟩ := hfollows h'
  refine ⟨_, _, s, s', _, _, hrun, hrun', ?_, hs.entries, hs'.entries, fun t ht => ?_⟩
  · rw [hanswers, hanswers', hsame]
  · rw [List.filterMap_append] at ht
    rw [hlive t (Int64.minValue_le t) fun u hu => ht u (List.mem_append_left _ hu),
      hlive' t (Int64.minValue_le t) fun u hu => ht u (List.mem_append_right _ hu), hsame]

namespace Sample

/-- One item expires before the reads, the other one does not. -/
def unpurgedOps : List StorageOp :=
  [.commitWrite (key 1) (item 3 (by decide) 150) 100,
    .commitWrite (key 2) (item 3 (by decide) 500) 110,
    .commitRead (key 1) 210,
    .commitRead (key 2) 220]

/-- The same with purges in between. -/
def purgedOps : List StorageOp :=
  [.commitWrite (key 1) (item 3 (by decide) 150) 100,
    .commitPurge 105,
    .commitWrite (key 2) (item 3 (by decide) 500) 110,
    .commitPurge 200,
    .commitRead (key 1) 210,
    .commitRead (key 2) 220,
    .commitPurge 300]

end Sample

theorem purges_unobservable_sample :
    ∃ answers answers' s s' l l',
      CacheStorage.run Sample.config .new Sample.unpurgedOps = .ok (answers, s) ∧
      CacheStorage.run Sample.config .new Sample.purgedOps = .ok (answers', s') ∧
      commitAnswers Sample.unpurgedOps answers = commitAnswers Sample.purgedOps answers' ∧
      s.entries = .ok l ∧ s'.entries = .ok l' ∧
      ∀ t, (∀ u ∈ (Sample.unpurgedOps ++ Sample.purgedOps).filterMap StorageOp.time?, u ≤ t) →
        live t l = live t l' :=
  purges_unobservable (by decide)
    ⟨by decide +kernel, by decide +kernel, by decide +kernel⟩
    ⟨by decide +kernel, by decide +kernel, by decide +kernel⟩ (by decide +kernel)

end LruCache
