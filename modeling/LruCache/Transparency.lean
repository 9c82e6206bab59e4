import LruCache.Linked
import LruCache.Overlay

/-!
# Snapshots are transparent

A run with snapshots is compared with the same commits made directly. While a snapshot is in
progress the two differ, and what makes up for it is the list of events: replaying them on the
frozen storage gives the storage of the direct run. So `end_snapshot` leaves what the direct run
has.

This needs three things of the commits made during a snapshot. A write finds room in the overlay, so
that nothing an event points to is evicted. A write of a key that the overlay holds already writes
the same value again: the event of the first write points to the item, not to a copy. A read that
the frozen storage answers names a key that the direct run has not dropped, since its event points
to the entry of the key in that storage.
-/

namespace LruCache

open NodeList

/-! ## Replaying events -/

namespace CacheStorage

variable {cfg : CacheConfig} {s t s' : CacheStorage} {op : StorageOp} {a : Option Bool}

/-- A step reads and changes the containers; the commit code is written only. -/
theorem step_congr (hst : t.toContainers = s.toContainers) (hs : s.step cfg op = .ok (a, s')) :
    ∃ t', t.step cfg op = .ok (a, t') ∧ t'.toContainers = s'.toContainers := by
  obtain ⟨c, code⟩ := s
  obtain ⟨_, code'⟩ := t
  obtain rfl : c = _ := hst.symm
  cases op with
  | commitRead key r =>
    obtain ⟨⟨b, u⟩, hread, hs⟩ := Run.bind_eq_ok.mp hs
    cases hs
    obtain ⟨found, hfound, hread⟩ := Run.bind_eq_ok.mp hread
    simp only [step, commitRead]
    have hfound : c.getItem key r = .ok found := hfound
    rw [hfound]
    cases found with
    | none =>
      cases hread
      exact ⟨_, rfl, rfl⟩
    | some n =>
      cases hread
      exact ⟨_, rfl, rfl⟩
  | commitWrite key item w =>
    obtain ⟨⟨b, u⟩, hwrite, hs⟩ := Run.bind_eq_ok.mp hs
    cases hs
    have hwrite' : ∃ t', commitWrite cfg ⟨c, code'⟩ key item w = .ok (b, t') ∧
        t'.toContainers = s'.toContainers := by
      rcases commitWrite_eq_ok.mp hwrite with ⟨r, hrej, rfl, rfl⟩ | ⟨hrej, rfl, d, hd, rfl⟩
      · exact ⟨_, commitWrite_eq_ok.mpr (.inl ⟨r, hrej, rfl, rfl⟩), rfl⟩
      · exact ⟨_, commitWrite_eq_ok.mpr (.inr ⟨hrej, rfl, d, hd, rfl⟩), rfl⟩
    obtain ⟨t', ht', hc⟩ := hwrite'
    simp only [step, ht', Run.ok_bind]
    exact ⟨t', rfl, hc⟩
  | commitPurge p =>
    obtain ⟨u, hpurge, hs⟩ := Run.bind_eq_ok.mp hs
    cases hs
    obtain ⟨d, hd, hu⟩ := Run.bind_eq_ok.mp hpurge
    cases hu
    simp only [step, commitPurge]
    have hd : c.commitPurge cfg p = .ok d := hd
    rw [hd]
    exact ⟨_, rfl, rfl⟩
  | evictLruData key m =>
    obtain ⟨d, hd, hs⟩ := Run.bind_eq_ok.mp hs
    cases hs
    simp only [step]
    have hd : c.evictLruData cfg key m = .ok d := hd
    rw [hd]
    exact ⟨_, rfl, rfl⟩
  | clear =>
    cases hs
    exact ⟨_, rfl, rfl⟩

end CacheStorage

/-- The operation that an event stands for, when its pointers are followed now. -/
def eventOp (overlay storage : Containers) (event : SnapshotEvent) : Except Fault StorageOp :=
  match event.type with
  | .read => do return .commitRead (← derefKeyRef overlay storage event.key) event.createdAt
  | .write => do
    let key ← derefKeyRef overlay storage event.key
    let item ← derefItemRef overlay storage event.item
    return .commitWrite key item event.createdAt
  | .purge => return .commitPurge event.createdAt

section Replay

variable {cfg : CacheConfig} {overlay overlay' : Containers} {s s' : CacheStorage}
  {event : SnapshotEvent}

/-- Replaying an event is a step of `storage_`. -/
theorem replayEvent_eq :
    replayEvent cfg overlay s event = (do
      let op ← eventOp overlay s.toContainers event
      return (← s.step cfg op).2) := by
  unfold replayEvent eventOp
  cases event.type with
  | read => simp only [CacheStorage.step, bind_assoc, pure_bind]
  | write => simp only [CacheStorage.step, bind_assoc, pure_bind]
  | purge =>
    simp only [CacheStorage.step, bind_assoc, pure_bind]
    exact (bind_pure _).symm

theorem replayEvent_of_step (op : StorageOp) {a : Option Bool}
    (hop : eventOp overlay s.toContainers event = .ok op) (hs : s.step cfg op = .ok (a, s')) :
    replayEvent cfg overlay s event = .ok s' := by
  rw [replayEvent_eq, hop, Run.ok_bind, hs]
  rfl

/-- What the pointers into `c` lead to, they lead to in `c'`. -/
structure RefsKept (c c' : Containers) : Prop where
  keys : ∀ p k, c.derefKey p = .ok k → c'.derefKey p = .ok k
  items : ∀ a it, deref c.items a = .ok it → deref c'.items a = .ok it

theorem eventOp_mono (h : RefsKept overlay overlay') {storage : Containers} {op : StorageOp}
    (hop : eventOp overlay storage event = .ok op) : eventOp overlay' storage event = .ok op := by
  have hkey : ∀ {k}, derefKeyRef overlay storage event.key = .ok k →
      derefKeyRef overlay' storage event.key = .ok k := by
    intro k hk
    match hr : event.key with
    | none => rw [hr] at hk; exact hk
    | some ⟨.overlay, a⟩ => rw [hr] at hk; exact h.keys (some a) k hk
    | some ⟨.frozen, a⟩ => rw [hr] at hk; exact hk
  have hitem : ∀ {it}, derefItemRef overlay storage event.item = .ok it →
      derefItemRef overlay' storage event.item = .ok it := by
    intro it hk
    match hr : event.item with
    | none => rw [hr] at hk; exact hk
    | some ⟨.overlay, a⟩ => rw [hr] at hk; exact h.items a it hk
    | some ⟨.frozen, a⟩ => rw [hr] at hk; exact hk
  unfold eventOp at hop ⊢
  cases htype : event.type with
  | read =>
    rw [htype] at hop
    obtain ⟨k, hk, hop⟩ := Run.bind_eq_ok.mp hop
    exact Run.bind_eq_ok.mpr ⟨k, hkey hk, hop⟩
  | write =>
    rw [htype] at hop
    obtain ⟨k, hk, hop⟩ := Run.bind_eq_ok.mp hop
    obtain ⟨it, hit, hop⟩ := Run.bind_eq_ok.mp hop
    exact Run.bind_eq_ok.mpr ⟨k, hkey hk, Run.bind_eq_ok.mpr ⟨it, hitem hit, hop⟩⟩
  | purge =>
    rw [htype] at hop
    exact hop

/-- A replay that returns does so in the same way when the pointers still lead to the same. -/
theorem replay_mono (h : RefsKept overlay overlay') {events : List SnapshotEvent}
    (hs : replay cfg overlay s events = .ok s') : replay cfg overlay' s events = .ok s' := by
  induction events generalizing s with
  | nil => exact hs
  | cons event events ih =>
    obtain ⟨s₁, hevent, hs⟩ := Run.bind_eq_ok.mp hs
    refine Run.bind_eq_ok.mpr ⟨s₁, ?_, ih hs⟩
    rw [replayEvent_eq] at hevent ⊢
    obtain ⟨op, hop, hevent⟩ := Run.bind_eq_ok.mp hevent
    exact Run.bind_eq_ok.mpr ⟨op, eventOp_mono h hop, hevent⟩

/-- What the steps of a replay preserve, the replay preserves. -/
theorem replay_induct {I : Containers → Prop}
    (hI : ∀ {s s' : CacheStorage} {event : SnapshotEvent} {op : StorageOp} {a : Option Bool},
      I s.toContainers → eventOp overlay s.toContainers event = .ok op →
      s.step cfg op = .ok (a, s') → I s'.toContainers)
    {events : List SnapshotEvent} (h : I s.toContainers)
    (hs : replay cfg overlay s events = .ok s') : I s'.toContainers := by
  induction events generalizing s with
  | nil =>
    cases hs
    exact h
  | cons event events ih =>
    obtain ⟨s₁, hevent, hs⟩ := Run.bind_eq_ok.mp hs
    rw [replayEvent_eq] at hevent
    obtain ⟨op, hop, hevent⟩ := Run.bind_eq_ok.mp hevent
    obtain ⟨⟨a, s₂⟩, hstep, hs₂⟩ := Run.bind_eq_ok.mp hevent
    cases hs₂
    exact ih (hI h hop hstep) hs

theorem replay_snoc {events : List SnapshotEvent} {s₁ : CacheStorage}
    (hs : replay cfg overlay s events = .ok s₁)
    (hevent : replayEvent cfg overlay s₁ event = .ok s') :
    replay cfg overlay s (events ++ [event]) = .ok s' := by
  unfold replay at hs ⊢
  rw [List.foldlM_append, hs, Run.ok_bind, List.foldlM_cons, hevent]
  rfl

end Replay

/-! ## The overlay -/

/-- A record of an entry holds the item with the key pointer of its node. -/
theorem Record.item_of_entry {r : Record} {item : CacheItem} {k : Key}
    (h : r.entry = item.entry k) : r.item = { item with key := some r.entryAddr } := by
  have hdata : r.data = item.data := congrArg Entry.data h
  have hsize : r.dataSize = item.dataSize := congrArg Entry.dataSize h
  have hexp : r.expiresAt = item.expiresAt := congrArg Entry.expiresAt h
  rw [Record.item, hdata, hsize, hexp]

namespace Represents

variable {cfg : CacheConfig} {s s' : Containers} {R : List Record} {r : Record}

theorem derefKey_eq_ok (h : Represents cfg s R) {p : Option Addr} {k : Key}
    (hk : s.derefKey p = .ok k) : ∃ x ∈ R, p = some x.entryAddr ∧ x.key = k := by
  cases p with
  | none => cases hk
  | some a =>
    obtain ⟨e, he, hk⟩ := Run.bind_eq_ok.mp hk
    obtain ⟨x, hx, hxe⟩ := (h.map.entries _).mp (mem_of_get? (deref_eq_ok.mp he))
    cases hxe
    exact ⟨x, hx, rfl, Except.ok.inj hk⟩

theorem deref_items_eq_ok (h : Represents cfg s R) {a : Addr} {it : CacheItem}
    (ha : deref s.items a = .ok it) : ∃ x ∈ R, a = x.itemAddr ∧ x.item = it := by
  have hm := mem_of_get? (deref_eq_ok.mp ha)
  rw [h.items] at hm
  obtain ⟨x, hx, hxe⟩ := List.mem_map.mp hm
  cases hxe
  exact ⟨x, hx, rfl, rfl⟩

/-- Putting a record at the front keeps every pointer, when it takes the nodes of the record it
replaces and holds the same value. -/
theorem refsKept (h : Represents cfg s R)
    (h' : Represents cfg s' (r :: without Record.entry r.key R))
    (hsame : ∀ x ∈ R, x.key = r.key →
      r.entryAddr = x.entryAddr ∧ r.itemAddr = x.itemAddr ∧ r.entry = x.entry) :
    RefsKept s s' := by
  have hmem : ∀ x ∈ R, ∃ y ∈ r :: without Record.entry r.key R,
      y.entryAddr = x.entryAddr ∧ y.itemAddr = x.itemAddr ∧ y.entry = x.entry := by
    intro x hx
    by_cases hk : x.key = r.key
    · exact ⟨r, List.mem_cons_self, hsame x hx hk⟩
    · exact ⟨x, List.mem_cons_of_mem r ((mem_without (v := Record.entry)).mpr ⟨hx, hk⟩),
        rfl, rfl, rfl⟩
  constructor
  · intro p k hk
    obtain ⟨x, hx, rfl, rfl⟩ := h.derefKey_eq_ok hk
    obtain ⟨y, hy, he, -, hentry⟩ := hmem x hx
    rw [← he, h'.derefKey hy]
    exact congrArg (fun e : Entry => Except.ok e.key) hentry
  · intro a it ha
    obtain ⟨x, hx, rfl, rfl⟩ := h.deref_items_eq_ok ha
    obtain ⟨y, hy, he, hi, hentry⟩ := hmem x hx
    have hitem : y.item = { x.item with key := some y.entryAddr } :=
      Record.item_of_entry (k := x.key) hentry
    rw [← hi, h'.deref_item hy, hitem, he]
    rfl

/-- A lookup returns, when the frozen storage answers lookups. -/
theorem snapshotGetItem_returns {s : SnapshotStorage} {frozen : Containers}
    (h : Represents cfg s.toContainers R) (hfrozen : Linked frozen) (key : Key) (w : Int64) :
    ∃ found, s.getItem frozen key w = .ok found := by
  obtain ⟨found, hfound, -⟩ := hfrozen.getItem key w
  unfold SnapshotStorage.getItem
  rw [h.getItem, Run.ok_bind]
  cases lookup Record.entry key w R with
  | some x => exact ⟨_, rfl⟩
  | none =>
    show ∃ f, (do return (← frozen.getItem key w).map (Found.mk .frozen)) = Except.ok f
    rw [hfound]
    exact ⟨_, rfl⟩

/-- A write past its checks returns, when the frozen storage answers lookups. -/
theorem snapshotWrite_returns {s : SnapshotStorage} {frozen : Containers}
    (h : Represents cfg s.toContainers R) (key : Key) (item : CacheItem) (w : Int64)
    (hi : cfg.purgeInterval ≠ 0) (hfrozen : Linked frozen) :
    ∃ s', LruCache.writeAccepted (SnapshotStorage.virtuals cfg frozen) s key item w = .ok s' := by
  obtain ⟨old, hold⟩ := h.snapshotGetItem_returns hfrozen key w
  obtain ⟨m, hm⟩ : ∃ m, LruCache.getRequiredMemory (SnapshotStorage.virtuals cfg frozen) s key
      item w = .ok m := by
    unfold LruCache.getRequiredMemory
    simp only [SnapshotStorage.virtuals, hold, Run.ok_bind, pure_bind]
    exact ⟨_, rfl⟩
  obtain ⟨c, hc, hrep⟩ := h.evictLruData key m
  obtain ⟨found, hfound⟩ :=
    snapshotGetItem_returns (s := { s with toContainers := c }) hrep hfrozen key w
  obtain ⟨a, c', stored, hstore, hstored⟩ := hrep.store_returns key item w hi
  exact ⟨_, SnapshotStorage.writeAccepted_eq_ok_iff.mpr ⟨m, c, found, a, c', hm, hc, hfound, hstore,
    SnapshotStorage.recordWrite_eq_ok.mpr ⟨stored, hstored, rfl⟩⟩⟩

end Represents

/-! ## Side by side -/

/-- What a call must meet, in the state `st` of the run with snapshots and with the containers
`direct` of the run without. -/
def TransparentOp (cfg : CacheConfig) (st : CacheState) (direct : Containers) : CacheOp → Prop
  | .commitWrite key item writtenAt =>
    st.snapshotInProgress = true → rejection cfg key item writtenAt = none →
      st.snapshotStorage.HasRoom cfg st.storage.toContainers key item writtenAt ∧
      ∀ e ∈ st.snapshotStorage.toContainers.stored key, e = item.entry key
  | .commitRead key readAt =>
    st.snapshotInProgress = true →
      ∀ node, st.snapshotStorage.getItem st.storage.toContainers key readAt =
        .ok (some ⟨.frozen, node⟩) → direct.derefKey node.val.key = .ok key
  | _ => True

instance (cfg : CacheConfig) (st : CacheState) (direct : Containers) :
    (op : CacheOp) → Decidable (TransparentOp cfg st direct op)
  | .commitWrite key item writtenAt =>
    inferInstanceAs (Decidable (st.snapshotInProgress = true →
      rejection cfg key item writtenAt = none →
        st.snapshotStorage.HasRoom cfg st.storage.toContainers key item writtenAt ∧
        ∀ e ∈ st.snapshotStorage.toContainers.stored key, e = item.entry key))
  | .commitRead key readAt =>
    have : Decidable (∀ node, st.snapshotStorage.getItem st.storage.toContainers key readAt =
        .ok (some ⟨.frozen, node⟩) → direct.derefKey node.val.key = .ok key) :=
      match st.snapshotStorage.getItem st.storage.toContainers key readAt with
      | .ok (some ⟨.frozen, node⟩) => decidable_of_iff (direct.derefKey node.val.key = .ok key)
          ⟨fun h _ hn => by cases hn; exact h, fun h => h node rfl⟩
      | .ok (some ⟨.overlay, _⟩) => .isTrue fun _ h => nomatch h
      | .ok none => .isTrue fun _ h => nomatch h
      | .error _ => .isTrue fun _ h => nomatch h
    inferInstanceAs (Decidable (st.snapshotInProgress = true → _))
  | .commitPurgeExpired _ => .isTrue trivial
  | .beginSnapshot => .isTrue trivial
  | .endSnapshot => .isTrue trivial

/-- One call on the state of the run with snapshots and, if it is a commit, on the state of the run
without. -/
def sideBySide (cfg : CacheConfig) (p : CacheState × CacheState) (op : CacheOp) :
    Except Fault (Option Bool × (CacheState × CacheState)) := do
  let (a, st) ← p.1.step cfg op
  if op.isCommit then
    let (_, direct) ← p.2.step cfg op
    return (a, st, direct)
  else return (a, st, p.2)

section SideBySide

variable {cfg : CacheConfig} {st st' direct direct' : CacheState} {op : CacheOp} {a b : Option Bool}

theorem sideBySide_commit (hop : op.isCommit = true) (hst : st.step cfg op = .ok (a, st'))
    (hd : direct.step cfg op = .ok (b, direct')) :
    sideBySide cfg (st, direct) op = .ok (a, st', direct') := by
  simp only [sideBySide, hst, hd, Run.ok_bind, if_pos hop]
  rfl

theorem sideBySide_snapshot (hop : ¬ op.isCommit = true) (hst : st.step cfg op = .ok (a, st')) :
    sideBySide cfg (st, direct) op = .ok (a, st', direct) := by
  simp only [sideBySide, hst, Run.ok_bind, if_neg hop]
  rfl

end SideBySide

/-- While a snapshot is in progress: replaying the events gives the containers `d` of the direct
run, and what `d` stores is stored in the frozen storage or in the overlay. -/
structure InSnapshot (cfg : CacheConfig) (st : CacheState) (d : Containers) : Prop where
  frozen : Linked st.storage.toContainers
  direct : Linked d
  overlay : ∃ O, Represents cfg st.snapshotStorage.toContainers O
  replays : ∃ s, replay cfg st.snapshotStorage.toContainers st.storage st.snapshotStorage.events =
    .ok s ∧ s.toContainers = d
  stored : ∀ k e, d.stored k = some e → st.storage.toContainers.stored k = some e ∨
    st.snapshotStorage.toContainers.stored k = some e

/-- Outside a snapshot: the two runs agree and the overlay is empty. -/
structure OutOfSnapshot (st : CacheState) (d : Containers) : Prop where
  direct : Linked d
  agrees : st.storage.toContainers = d
  clean : st.snapshotStorage.Clean

/-- The relation between the run with snapshots and the run without. -/
def InStep (cfg : CacheConfig) (st : CacheState) (d : Containers) : Prop :=
  (st.snapshotInProgress = true ∧ InSnapshot cfg st d) ∨
    (st.snapshotInProgress = false ∧ OutOfSnapshot st d)

namespace InSnapshot

variable {cfg : CacheConfig} {st : CacheState} {d d' : Containers} {s s' : CacheStorage}
  {key : Key} {item : CacheItem} {t : Int64} {a : Option Bool}

/-- The overlay and the frozen storage answer every lookup. -/
theorem getItem (h : InSnapshot cfg st d) (key : Key) (t : Int64) :
    ∃ found, st.snapshotStorage.getItem st.storage.toContainers key t = .ok found := by
  obtain ⟨O, hO⟩ := h.overlay
  exact hO.snapshotGetItem_returns h.frozen key t

/-- A key that neither finds is not found in the direct run either. -/
theorem direct_getItem_none (h : InSnapshot cfg st d)
    (hnone : st.snapshotStorage.getItem st.storage.toContainers key t = .ok none) :
    d.getItem key t = .ok none := by
  obtain ⟨O, hO⟩ := h.overlay
  obtain ⟨own, hown, hnone⟩ := Run.bind_eq_ok.mp hnone
  cases own with
  | some n => cases hnone
  | none =>
  obtain ⟨froz, hfroz, hnone⟩ := Run.bind_eq_ok.mp hnone
  cases froz with
  | some n => cases hnone
  | none =>
  obtain ⟨found, hfound, hmap⟩ := h.direct.getItem key t
  cases found with
  | none => exact hfound
  | some n =>
    -- the entry found would be unexpired in one of the two
    exfalso
    obtain ⟨e, he, hunexp⟩ : ∃ e, d.stored key = some e ∧ e.isExpired t = false := by
      cases hst : d.stored key with
      | none => simp [hst] at hmap
      | some e =>
        refine ⟨e, rfl, ?_⟩
        by_contra hexp
        simp [hst, Option.filter, hexp] at hmap
    rcases h.stored key e he with hst | hst
    · obtain ⟨found', hfound', hmap'⟩ := h.frozen.getItem key t
      cases hfound'.symm.trans hfroz
      simp [hst, Option.filter, hunexp] at hmap'
    · obtain ⟨r, hr, rfl, rfl⟩ := hO.stored_eq_some_iff.mp hst
      rw [hO.getItem_of_mem hr, hunexp] at hown
      cases hown

/-- A commit that records one event: the pointers of the earlier events still lead to the same, and
the new event replays the commit. -/
theorem of_recorded (h : InSnapshot cfg st d) {u : SnapshotStorage} {code : Option CommitResult}
    {op : StorageOp} {ev : SnapshotEvent} (hoverlay : ∃ O, Represents cfg u.toContainers O)
    (hrefs : RefsKept st.snapshotStorage.toContainers u.toContainers)
    (hev : u.events = st.snapshotStorage.events ++ [ev])
    (hop : ∀ {s : CacheStorage}, s.toContainers = d →
      eventOp u.toContainers s.toContainers ev = .ok op)
    (hd : s.toContainers = d) (hs : s.step cfg op = .ok (a, s'))
    (hstored : ∀ k e, s'.toContainers.stored k = some e →
      st.storage.toContainers.stored k = some e ∨ u.toContainers.stored k = some e) :
    InSnapshot cfg { st with snapshotStorage := u, commitCode := code } s'.toContainers := by
  obtain ⟨s₀, hreplay, hs₀⟩ := h.replays
  obtain ⟨s₁, hstep, hs₁⟩ := CacheStorage.step_congr (hs₀.trans hd.symm) hs
  obtain ⟨hlinked, -⟩ := (hd ▸ h.direct : Linked s.toContainers).step hs
  refine ⟨h.frozen, hlinked, hoverlay, ⟨s₁, ?_, hs₁⟩, hstored⟩
  show replay cfg u.toContainers st.storage u.events = .ok s₁
  rw [hev]
  exact replay_snoc (replay_mono hrefs hreplay) (replayEvent_of_step op (hop hs₀) hstep)

/-- A commit that stores nothing records its event and leaves the overlay as it is. -/
theorem of_events (h : InSnapshot cfg st d) {u : SnapshotStorage} {code : Option CommitResult}
    (hu : u.toContainers = st.snapshotStorage.toContainers) (ev : SnapshotEvent) (op : StorageOp)
    (hev : u.events = st.snapshotStorage.events ++ [ev])
    (hop : ∀ {s : CacheStorage}, s.toContainers = d →
      eventOp st.snapshotStorage.toContainers s.toContainers ev = .ok op)
    (hd : s.toContainers = d) (hs : s.step cfg op = .ok (a, s'))
    (hstores : ∀ k e, ¬ Linked.Stores cfg op k e) :
    InSnapshot cfg { st with snapshotStorage := u, commitCode := code } s'.toContainers := by
  obtain ⟨-, hst⟩ := (hd ▸ h.direct : Linked s.toContainers).step hs
  refine h.of_recorded (hu ▸ h.overlay) (hu ▸ ⟨fun _ _ hk => hk, fun _ _ hi => hi⟩) hev
    (hu ▸ hop) hd hs fun k e he => ?_
  rw [hu]
  exact h.stored k e (hd ▸ (hst k e he).resolve_right (hstores k e))

/-- The key of what the lookup finds, as the replay will find it. -/
theorem derefKeyRef_found (h : InSnapshot cfg st d) {found : Found}
    (hfound : st.snapshotStorage.getItem st.storage.toContainers key t = .ok (some found))
    (hcond : ∀ node, found = ⟨.frozen, node⟩ → d.derefKey node.val.key = .ok key) :
    derefKeyRef st.snapshotStorage.toContainers d
      (found.node.val.key.map (Ref.mk found.owner)) = .ok key := by
  obtain ⟨owner, node⟩ := found
  cases owner with
  | frozen =>
    have hk := hcond node rfl
    show derefKeyRef _ d (node.val.key.map (Ref.mk .frozen)) = _
    cases hn : node.val.key with
    | none =>
      rw [hn] at hk
      cases hk
    | some p =>
      rw [hn] at hk
      exact hk
  | overlay =>
    obtain ⟨O, hO⟩ := h.overlay
    obtain ⟨own, hown, hfound⟩ := Run.bind_eq_ok.mp hfound
    cases own with
    | none =>
      obtain ⟨froz, -, hfound⟩ := Run.bind_eq_ok.mp hfound
      cases froz <;> cases hfound
    | some n =>
      cases hfound
      rw [hO.getItem] at hown
      obtain ⟨r, hr, hn⟩ := Option.map_eq_some_iff.mp (Except.ok.inj hown)
      obtain ⟨hrO, hk, -⟩ := lookup_eq_some_key hr
      subst hn
      have hkey : r.key = key := hk
      rw [← hkey]
      exact hO.derefKey hrO

theorem read (h : InSnapshot cfg st d) (hp : st.snapshotInProgress = true)
    (hcond : TransparentOp cfg st d (.commitRead key t)) (hd : s.toContainers = d)
    (hs : s.step cfg (.commitRead key t) = .ok (a, s')) :
    ∃ b st', st.step cfg (.commitRead key t) = .ok (b, st') ∧ st'.snapshotInProgress = true ∧
      InSnapshot cfg st' s'.toContainers := by
  obtain ⟨found, hfound⟩ := h.getItem key t
  simp only [CacheState.step, CacheState.commitRead, if_pos hp, SnapshotStorage.commitRead, hfound,
    Run.ok_bind]
  cases found with
  | none =>
    -- nothing is recorded, and the direct run finds nothing either
    have hsame : s'.toContainers = d := by
      obtain ⟨⟨b, u⟩, hread, hu⟩ := Run.bind_eq_ok.mp hs
      cases hu
      obtain ⟨own, hown, hread⟩ := Run.bind_eq_ok.mp hread
      rw [hd, h.direct_getItem_none hfound] at hown
      cases hown
      cases hread
      exact hd
    exact ⟨_, _, rfl, hp, hsame ▸ ⟨h.frozen, h.direct, h.overlay, h.replays, h.stored⟩⟩
  | some found =>
    refine ⟨_, _, rfl, hp, h.of_events rfl (.of .read found 0 t)
      (.commitRead key t) rfl ?_ hd hs ?_⟩
    · intro s hs
      have hkey := h.derefKeyRef_found hfound fun node hnode => hcond hp node (hnode ▸ hfound)
      rw [hs]
      exact Run.bind_eq_ok.mpr ⟨key, hkey, rfl⟩
    · rintro k e ⟨_, _, hop, -⟩
      cases hop

theorem purge (h : InSnapshot cfg st d) (hp : st.snapshotInProgress = true)
    (hd : s.toContainers = d) (hs : s.step cfg (.commitPurge t) = .ok (a, s')) :
    ∃ b st', st.step cfg (.commitPurgeExpired t) = .ok (b, st') ∧ st'.snapshotInProgress = true ∧
      InSnapshot cfg st' s'.toContainers := by
  simp only [CacheState.step, CacheState.commitPurgeExpired, if_pos hp, Run.ok_bind]
  refine ⟨_, _, rfl, hp, h.of_events (u := st.snapshotStorage.commitPurge t) rfl
      ⟨.purge, none, none, 0, t⟩
    (.commitPurge t) rfl (fun _ => rfl) hd hs ?_⟩
  rintro k e ⟨_, _, hop, -⟩
  cases hop

theorem write (h : InSnapshot cfg st d) (hp : st.snapshotInProgress = true)
    (hcond : TransparentOp cfg st d (.commitWrite key item t)) (hd : s.toContainers = d)
    (hs : s.step cfg (.commitWrite key item t) = .ok (a, s')) :
    ∃ b st', st.step cfg (.commitWrite key item t) = .ok (b, st') ∧
      st'.snapshotInProgress = true ∧ InSnapshot cfg st' s'.toContainers := by
  obtain ⟨-, hst⟩ := (hd ▸ h.direct : Linked s.toContainers).step hs
  obtain ⟨⟨b, u⟩, hwrite, hu⟩ := Run.bind_eq_ok.mp hs
  cases hu
  obtain ⟨code, hrej, -, rfl⟩ | ⟨hrej, -, c, hc, rfl⟩ := CacheStorage.commitWrite_eq_ok.mp hwrite
  · -- both runs reject the write
    have hsnap := (LruCache.commitWrite_eq_ok (v := SnapshotStorage.virtuals cfg
      st.storage.toContainers) (s := st.snapshotStorage)).mpr (.inl ⟨code, hrej, rfl, rfl⟩)
    have hsnap : st.snapshotStorage.commitWrite cfg st.storage.toContainers key item t = _ := hsnap
    simp only [CacheState.step, CacheState.commitWrite, if_pos hp, hsnap, Run.ok_bind]
    exact ⟨_, _, rfl, hp, hd ▸ ⟨h.frozen, h.direct, h.overlay, h.replays, h.stored⟩⟩
  · obtain ⟨hroom, hsame⟩ := hcond hp hrej
    obtain ⟨O, hO⟩ := h.overlay
    have hw : st.snapshotStorage.toContainers.Writable key t := by
      refine hO.writable_iff.mpr fun r hr hk => ?_
      have he := hsame r.entry (hO.stored_eq_some_iff.mpr ⟨r, hr, hk, rfl⟩)
      rw [he]
      exact decide_eq_false (Int64.not_le.mpr (unexpired_of_rejection_eq_none hrej))
    obtain ⟨v, hv⟩ := hO.snapshotWrite_returns key item t (ne_zero_of_writeAccepted hc) h.frozen
    obtain ⟨r, hentry, haddr, hO', hevents⟩ := hO.snapshotWrite hroom hw hv
    obtain rfl : r.key = key := congrArg Entry.key hentry
    have hrefs : RefsKept st.snapshotStorage.toContainers v.toContainers := by
      refine hO.refsKept hO' fun x hx hk => ⟨(haddr x hx hk).1, (haddr x hx hk).2, ?_⟩
      rw [hentry]
      exact (hsame x.entry (hO.stored_eq_some_iff.mpr ⟨x, hx, hk, rfl⟩)).symm
    have hsnap := (LruCache.commitWrite_eq_ok (s := st.snapshotStorage)).mpr
      (.inr ⟨hrej, rfl, v, hv, rfl⟩)
    have hsnap : st.snapshotStorage.commitWrite cfg st.storage.toContainers r.key item t = _ :=
      hsnap
    -- the key pointer of the item is overwritten, so that the two writes are the same
    have hs' : s.step cfg (.commitWrite r.key r.item t) = .ok (some b, ⟨c, some .doneOk⟩) := by
      rw [Record.item_of_entry hentry]
      exact hs
    simp only [CacheState.step, CacheState.commitWrite, if_pos hp, hsnap, Run.ok_bind]
    refine ⟨_, _, rfl, hp, h.of_recorded (u := { v with commitCode := some .doneOk }) ⟨_, hO'⟩ hrefs
      hevents (fun _ => ?_) hd hs' fun k e he => ?_⟩
    · exact Run.bind_eq_ok.mpr ⟨r.key, hO'.derefKey List.mem_cons_self,
        Run.bind_eq_ok.mpr ⟨r.item, hO'.deref_item List.mem_cons_self, rfl⟩⟩
    · show _ ∨ v.toContainers.stored k = some e
      rw [hO.stored_put hO']
      rcases hst k e he with he | ⟨item', w', hop, -, rfl⟩
      · refine (h.stored k e (hd ▸ he)).imp_right fun ho => ?_
        by_cases hk : k = r.key
        · rw [if_pos hk, hentry, hsame e (hk ▸ ho)]
        · rwa [if_neg hk]
      · cases hop
        rw [if_pos rfl, hentry]
        exact .inr rfl

end InSnapshot

/-! ## Reachable states -/

theorem Linked.replay {cfg : CacheConfig} {overlay : Containers} {s s' : CacheStorage}
    {events : List SnapshotEvent} (h : Linked s.toContainers)
    (hs : LruCache.replay cfg overlay s events = .ok s') : Linked s'.toContainers :=
  replay_induct (fun hu _ hstep => (hu.step hstep).1) h hs

namespace CacheState

variable {cfg : CacheConfig} {st st' : CacheState} {op : CacheOp} {a : Option Bool}

theorem linked_step (h : Linked st.storage.toContainers) (hs : st.step cfg op = .ok (a, st')) :
    Linked st'.storage.toContainers := by
  by_cases hop : op.isCommit = true
  · cases hp : st.snapshotInProgress with
    | true => rwa [(step_snapshot hp hop hs).storage_eq]
    | false =>
      obtain ⟨o, ho⟩ := storageOp?_eq_some hop
      rw [step_direct hp ho] at hs
      obtain ⟨⟨b, s⟩, hstep, hs⟩ := Run.bind_eq_ok.mp hs
      cases hs
      exact (h.step hstep).1
  · cases op with
    | beginSnapshot =>
      cases hs
      exact h
    | endSnapshot =>
      obtain ⟨u, hend, hs⟩ := Run.bind_eq_ok.mp hs
      obtain ⟨s, hreplay, hu⟩ := Run.bind_eq_ok.mp hend
      cases hu
      cases hs
      exact h.replay hreplay
    | commitRead key t => exact absurd rfl hop
    | commitWrite key item t => exact absurd rfl hop
    | commitPurgeExpired t => exact absurd rfl hop

theorem linked_of_run {ops : List CacheOp} {answers : List (Option Bool)}
    (hrun : CacheState.run cfg .new ops = .ok (answers, st)) : Linked st.storage.toContainers :=
  Run.run_invariant (C := fun _ _ => True) (I := fun st => Linked st.storage.toContainers)
    (fun _ _ _ _ h _ hs => linked_step h hs) Linked.empty (Run.along_true _ _) hrun

end CacheState

/-! ## Runs -/

namespace InStep

variable {cfg : CacheConfig} {st direct : CacheState} {s s' : CacheStorage} {op : CacheOp}
  {o : StorageOp} {a : Option Bool}

/-- A commit that the direct run makes, the run with snapshots makes too. -/
theorem commit (h : InStep cfg st s.toContainers)
    (hcond : TransparentOp cfg st s.toContainers op) (ho : op.storageOp? = some o)
    (hs : s.step cfg o = .ok (a, s')) :
    ∃ b st', st.step cfg op = .ok (b, st') ∧ InStep cfg st' s'.toContainers := by
  rcases h with ⟨hp, h⟩ | ⟨hp, h⟩
  · have hin : ∃ b st', st.step cfg op = .ok (b, st') ∧ st'.snapshotInProgress = true ∧
        InSnapshot cfg st' s'.toContainers := by
      cases op with
      | commitRead key t =>
        cases ho
        exact h.read hp hcond rfl hs
      | commitWrite key item t =>
        cases ho
        exact h.write hp hcond rfl hs
      | commitPurgeExpired t =>
        cases ho
        exact h.purge hp rfl hs
      | beginSnapshot => cases ho
      | endSnapshot => cases ho
    obtain ⟨b, st', hstep, hp', h'⟩ := hin
    exact ⟨b, st', hstep, .inl ⟨hp', h'⟩⟩
  · obtain ⟨s₁, hstep, hs₁⟩ := CacheStorage.step_congr h.agrees hs
    rw [CacheState.step_direct hp ho, hstep]
    exact ⟨_, _, rfl, .inr ⟨hp, (h.direct.step hs).1, hs₁, h.clean⟩⟩

/-- A snapshot may begin at any time. -/
theorem beginSnapshot {d : Containers} (h : InStep cfg st d) : InStep cfg st.beginSnapshot d := by
  rcases h with ⟨-, h⟩ | ⟨-, h⟩
  · exact .inl ⟨rfl, h.frozen, h.direct, h.overlay, h.replays, h.stored⟩
  · refine .inl ⟨rfl, h.agrees ▸ h.direct, h.direct, ⟨[], ?_⟩, ⟨st.storage, ?_, h.agrees⟩,
      fun k e he => .inl (h.agrees ▸ he)⟩
    · show Represents cfg st.snapshotStorage.toContainers []
      rw [h.clean.1]
      exact Represents.clear cfg _
    · show replay cfg _ st.storage st.snapshotStorage.events = _
      rw [h.clean.2]
      rfl

/-- `end_snapshot` returns, and the storages agree. -/
theorem endSnapshot {d : Containers} (h : InStep cfg st d) :
    ∃ st', st.endSnapshot cfg = .ok st' ∧ InStep cfg st' d := by
  rcases h with ⟨-, h⟩ | ⟨-, h⟩
  · obtain ⟨s, hreplay, hs⟩ := h.replays
    unfold CacheState.endSnapshot
    rw [hreplay]
    exact ⟨_, rfl, .inr ⟨rfl, h.direct, hs, rfl, rfl⟩⟩
  · unfold CacheState.endSnapshot
    rw [h.clean.2]
    exact ⟨_, rfl, .inr ⟨rfl, h.direct, h.agrees, rfl, rfl⟩⟩

/-- A run with snapshots keeps in step with the direct run of its commits. -/
theorem run {ops : List CacheOp} {direct' : CacheState} {answers : List (Option Bool)}
    (h : InStep cfg st direct.storage.toContainers)
    (hcond : Run.Along (sideBySide cfg)
      (fun p op => TransparentOp cfg p.1 p.2.storage.toContainers op) (st, direct) ops)
    (hrun : CacheState.run cfg direct (ops.filter CacheOp.isCommit) = .ok (answers, direct'))
    (hp : direct.snapshotInProgress = false) :
    ∃ answers' st', CacheState.run cfg st ops = .ok (answers', st') ∧
      InStep cfg st' direct'.storage.toContainers := by
  induction ops generalizing st direct answers with
  | nil =>
    cases hrun
    exact ⟨[], st, rfl, h⟩
  | cons op ops ih =>
    by_cases hop : op.isCommit = true
    · rw [List.filter_cons_of_pos hop] at hrun
      obtain ⟨b, direct₁, bs, hstep, hrest, -⟩ := Run.run_cons.mp hrun
      obtain ⟨o, ho⟩ := CacheState.storageOp?_eq_some hop
      have hstep' := hstep
      rw [CacheState.step_direct hp ho] at hstep'
      obtain ⟨⟨a, s₁⟩, hs, hd⟩ := Run.bind_eq_ok.mp hstep'
      cases hd
      obtain ⟨c, st₁, hst, h₁⟩ := h.commit hcond.1 ho hs
      obtain ⟨cs, st', hr, h'⟩ := ih h₁ (hcond.2 _ _ (sideBySide_commit hop hst hstep)) hrest hp
      exact ⟨c :: cs, st', Run.run_cons.mpr ⟨c, st₁, cs, hst, hr, rfl⟩, h'⟩
    · rw [List.filter_cons_of_neg hop] at hrun
      obtain ⟨st₁, hst, h₁⟩ : ∃ st₁, st.step cfg op = .ok (none, st₁) ∧
          InStep cfg st₁ direct.storage.toContainers := by
        cases op with
        | beginSnapshot => exact ⟨_, rfl, h.beginSnapshot⟩
        | endSnapshot =>
          obtain ⟨st₁, hend, h₁⟩ := h.endSnapshot
          refine ⟨st₁, ?_, h₁⟩
          simp only [CacheState.step, hend, Run.ok_bind]
          rfl
        | commitRead key t => exact absurd rfl hop
        | commitWrite key item t => exact absurd rfl hop
        | commitPurgeExpired t => exact absurd rfl hop
      obtain ⟨cs, st', hr, h'⟩ := ih h₁ (hcond.2 _ _ (sideBySide_snapshot hop hst)) hrun hp
      exact ⟨none :: cs, st', Run.run_cons.mpr ⟨none, st₁, cs, hst, hr, rfl⟩, h'⟩

end InStep

/-- Snapshots placed anywhere in a run whose commits are transparent leave `storage_` as the commits
made directly do: the items, the map, the buckets and the memory. -/
theorem snapshot_transparent {cfg : CacheConfig} {ops₀ ops : List CacheOp}
    {answers₀ answers : List (Option Bool)} {st direct : CacheState}
    (hreach : CacheState.run cfg .new ops₀ = .ok (answers₀, st))
    (hout : st.snapshotInProgress = false)
    (hcond : Run.Along (sideBySide cfg)
      (fun p op => TransparentOp cfg p.1 p.2.storage.toContainers op) (st, st) ops)
    (hdirect : CacheState.run cfg st (ops.filter CacheOp.isCommit) = .ok (answers, direct)) :
    ∃ answers' st', CacheState.run cfg st ops = .ok (answers', st') ∧
      (st'.snapshotInProgress = false →
        st'.storage.toContainers = direct.storage.toContainers) := by
  have h : InStep cfg st st.storage.toContainers :=
    .inr ⟨hout, CacheState.linked_of_run hreach, rfl, CacheState.clean_of_run hreach hout⟩
  obtain ⟨answers', st', hrun, h'⟩ := h.run hcond hdirect hout
  refine ⟨answers', st', hrun, fun hp => ?_⟩
  rcases h' with ⟨hp', -⟩ | ⟨-, h'⟩
  · rw [hp] at hp'
    cases hp'
  · exact h'.agrees

/-- Two snapshots. In the first one a key is written twice with the same value and a key of the
frozen storage is read; the second one purges. -/
def Sample.snapshotOps : List CacheOp :=
  [.beginSnapshot, .commitWrite (key 2) (item 4 (by decide) 600) 110, .commitRead (key 1) 115,
    .commitWrite (key 2) (item 4 (by decide) 600) 120, .endSnapshot,
    .commitWrite (key 3) (item 5 (by decide) 130) 125,
    .beginSnapshot, .commitPurgeExpired 250, .endSnapshot]

theorem snapshot_transparent_sample :
    ∃ answers₀ answers answers' st direct st',
      CacheState.run Sample.config .new
        [.commitWrite (Sample.key 1) (Sample.item 3 (by decide) 500) 100] = .ok (answers₀, st) ∧
      CacheState.run Sample.config st (Sample.snapshotOps.filter CacheOp.isCommit) =
        .ok (answers, direct) ∧
      CacheState.run Sample.config st Sample.snapshotOps = .ok (answers', st') ∧
      st'.storage.toContainers = direct.storage.toContainers := by
  have h : (do
      let (_, st) ← CacheState.run Sample.config .new
        [.commitWrite (Sample.key 1) (Sample.item 3 (by decide) 500) 100]
      let _ ← CacheState.run Sample.config st (Sample.snapshotOps.filter CacheOp.isCommit)
      let (_, st') ← CacheState.run Sample.config st Sample.snapshotOps
      return (st.snapshotInProgress, st'.snapshotInProgress,
        decide (Run.Along (sideBySide Sample.config)
        (fun p op => TransparentOp Sample.config p.1 p.2.storage.toContainers op) (st, st)
        Sample.snapshotOps))) =
      .ok (false, false, true) := by decide +kernel
  obtain ⟨⟨answers₀, st⟩, hreach, h⟩ := Run.bind_eq_ok.mp h
  obtain ⟨⟨answers, direct⟩, hdirect, h⟩ := Run.bind_eq_ok.mp h
  obtain ⟨⟨answers', st'⟩, hrun, h⟩ := Run.bind_eq_ok.mp h
  obtain ⟨hout, h⟩ := Prod.mk.inj (Except.ok.inj h)
  obtain ⟨hout', hcond⟩ := Prod.mk.inj h
  obtain ⟨_, _, hrun', hsame⟩ :=
    snapshot_transparent hreach hout (of_decide_eq_true hcond) hdirect
  cases hrun.symm.trans hrun'
  exact ⟨answers₀, answers, answers', st, direct, st', hreach, hdirect, hrun, hsame hout'⟩

/-- The storage holds 549 bytes of key 2. During a snapshot key 1 is written with 500 bytes and then
with 10. Made directly, the first write evicts key 2; both events point to the item of 10 bytes, so
the replay evicts nothing. -/
theorem rewrite_during_snapshot_diverges :
    CacheOp.NonDecreasing [.commitWrite (Sample.key 2) (Sample.item 500 (by decide) 500) 100,
      .beginSnapshot, .commitWrite (Sample.key 1) (Sample.item 500 (by decide) 500) 110,
      .commitWrite (Sample.key 1) (Sample.item 10 (by decide) 500) 120, .endSnapshot] ∧
    ∃ answers₀ answers answers' st direct st',
      CacheState.run Sample.config .new
        [.commitWrite (Sample.key 2) (Sample.item 500 (by decide) 500) 100] = .ok (answers₀, st) ∧
      st.snapshotInProgress = false ∧
      CacheState.run Sample.config st
        [.commitWrite (Sample.key 1) (Sample.item 500 (by decide) 500) 110,
          .commitWrite (Sample.key 1) (Sample.item 10 (by decide) 500) 120] =
        .ok (answers, direct) ∧
      CacheState.run Sample.config st
        [.beginSnapshot, .commitWrite (Sample.key 1) (Sample.item 500 (by decide) 500) 110,
          .commitWrite (Sample.key 1) (Sample.item 10 (by decide) 500) 120, .endSnapshot] =
        .ok (answers', st') ∧
      st'.snapshotInProgress = false ∧
      direct.storage.entries =
        .ok [(Sample.item 10 (by decide) 500).entry (Sample.key 1)] ∧
      st'.storage.entries =
        .ok [(Sample.item 10 (by decide) 500).entry (Sample.key 1),
          (Sample.item 500 (by decide) 500).entry (Sample.key 2)] := by
  refine ⟨by decide, ?_⟩
  have h : (do
      let (_, st) ← CacheState.run Sample.config .new
        [.commitWrite (Sample.key 2) (Sample.item 500 (by decide) 500) 100]
      let (_, direct) ← CacheState.run Sample.config st
        [.commitWrite (Sample.key 1) (Sample.item 500 (by decide) 500) 110,
          .commitWrite (Sample.key 1) (Sample.item 10 (by decide) 500) 120]
      let (_, st') ← CacheState.run Sample.config st
        [.beginSnapshot, .commitWrite (Sample.key 1) (Sample.item 500 (by decide) 500) 110,
          .commitWrite (Sample.key 1) (Sample.item 10 (by decide) 500) 120, .endSnapshot]
      return (st.snapshotInProgress, st'.snapshotInProgress, direct.storage.entries,
        st'.storage.entries)) =
      .ok (false, false, .ok [(Sample.item 10 (by decide) 500).entry (Sample.key 1)],
        .ok [(Sample.item 10 (by decide) 500).entry (Sample.key 1),
          (Sample.item 500 (by decide) 500).entry (Sample.key 2)]) := by decide +kernel
  obtain ⟨⟨answers₀, st⟩, hreach, h⟩ := Run.bind_eq_ok.mp h
  obtain ⟨⟨answers, direct⟩, hdirect, h⟩ := Run.bind_eq_ok.mp h
  obtain ⟨⟨answers', st'⟩, hrun, h⟩ := Run.bind_eq_ok.mp h
  obtain ⟨hout, h⟩ := Prod.mk.inj (Except.ok.inj h)
  obtain ⟨hout', h⟩ := Prod.mk.inj h
  obtain ⟨hentries, hentries'⟩ := Prod.mk.inj h
  exact ⟨answers₀, answers, answers', st, direct, st', hreach, hout, hdirect, hrun, hout',
    hentries, hentries'⟩

end LruCache
