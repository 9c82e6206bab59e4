import Mathlib.Data.List.Perm.Subperm
import LruCache.Commits
import LruCache.CacheState

/-!
# The overlay during a snapshot

What the commits of a snapshot do to the overlay. The frozen storage never changes. A write that
finds room, under a key that is writable in the overlay, stores its item and keeps every other
entry; without room the inherited `evict_lru_data` removes entries of the overlay.

A lookup goes to the overlay first and falls back to the frozen storage, also when the overlay holds
an expired item of the key.
-/

namespace LruCache

open NodeList

namespace Represents

variable {cfg : CacheConfig} {s s' : Containers} {R : List Record} {r : Record} {key : Key}

theorem stored_of_mem (h : Represents cfg s R) (hr : r ∈ R) : s.stored r.key = some r.entry := by
  have hd := deref_eq_ok.mp (h.deref_item hr)
  unfold Containers.stored
  rw [h.findEntry_of_mem hr]
  show (get? s.items r.itemAddr).bind _ = _
  rw [hd]
  rfl

theorem stored_of_not_mem (h : Represents cfg s R) (hk : key ∉ R.map Record.key) :
    s.stored key = none := by
  unfold Containers.stored
  rw [h.findEntry_eq_none_iff.mpr hk]
  rfl

theorem stored_eq_some_iff (h : Represents cfg s R) {e : Entry} :
    s.stored key = some e ↔ ∃ r ∈ R, r.key = key ∧ r.entry = e := by
  constructor
  · intro hs
    by_cases hk : key ∈ R.map Record.key
    · obtain ⟨r, hr, rfl⟩ := List.mem_map.mp hk
      rw [h.stored_of_mem hr] at hs
      exact ⟨r, hr, rfl, Option.some.inj hs⟩
    · rw [h.stored_of_not_mem hk] at hs
      cases hs
  · rintro ⟨r, hr, rfl, rfl⟩
    exact h.stored_of_mem hr

/-- Putting a record at the front changes what is stored under its key only. -/
theorem stored_put (h : Represents cfg s R)
    (h' : Represents cfg s' (r :: without Record.entry r.key R)) (k : Key) :
    s'.stored k = if k = r.key then some r.entry else s.stored k := by
  by_cases hk : k = r.key
  · rw [if_pos hk, hk]
    exact h'.stored_of_mem List.mem_cons_self
  · rw [if_neg hk]
    refine Option.ext fun e => ?_
    rw [h'.stored_eq_some_iff, h.stored_eq_some_iff]
    constructor
    · rintro ⟨x, hx, rfl, he⟩
      rcases List.mem_cons.mp hx with rfl | hx
      · exact absurd rfl hk
      · exact ⟨x, (mem_without.mp hx).1, rfl, he⟩
    · rintro ⟨x, hx, rfl, he⟩
      exact ⟨x, List.mem_cons_of_mem r ((mem_without (v := Record.entry)).mpr ⟨hx, hk⟩), rfl, he⟩

end Represents

namespace SnapshotStorage

/-- The write finds room in the overlay, as `evict_lru_data` computes it, or the overlay holds no
other key. -/
def HasRoom (cfg : CacheConfig) (frozen : Containers) (s : SnapshotStorage) (key : Key)
    (item : CacheItem) (writtenAt : Int64) : Prop :=
  (∃ required, getRequiredMemory (virtuals cfg frozen) s key item writtenAt = .ok required ∧
    narrow (cfg.cacheSize - s.usedMemory) ≥ required) ∨
  ∀ entry ∈ s.itemMap, entry.val.key = key

instance (cfg : CacheConfig) (frozen : Containers) (s : SnapshotStorage) (key : Key)
    (item : CacheItem) (w : Int64) : Decidable (s.HasRoom cfg frozen key item w) :=
  have : Decidable (∃ required,
      getRequiredMemory (virtuals cfg frozen) s key item w = .ok required ∧
        narrow (cfg.cacheSize - s.usedMemory) ≥ required) :=
    match getRequiredMemory (virtuals cfg frozen) s key item w with
    | .ok m => decidable_of_iff (narrow (cfg.cacheSize - s.usedMemory) ≥ m)
        ⟨fun hm => ⟨m, rfl, hm⟩, fun ⟨_, hm, hle⟩ => Except.ok.inj hm ▸ hle⟩
    | .error _ => .isFalse fun ⟨_, hm, _⟩ => nomatch hm
  inferInstanceAs (Decidable (_ ∨ _))

variable {cfg : CacheConfig} {frozen : Containers} {s s' : SnapshotStorage} {key : Key}
  {item : CacheItem} {w : Int64}

theorem getItem_of_overlay {n : Node CacheItem} (h : s.toContainers.getItem key w = .ok (some n)) :
    s.getItem frozen key w = .ok (some ⟨.overlay, n⟩) := by
  unfold getItem
  rw [h]
  rfl

theorem getItem_of_overlay_none (h : s.toContainers.getItem key w = .ok none) :
    s.getItem frozen key w = (do return (← frozen.getItem key w).map (Found.mk .frozen)) := by
  unfold getItem
  rw [h]
  rfl

/-- A read answers whether the lookup finds the key; it only appends an event. -/
theorem commitRead_eq_ok {b : Bool} (hs : s.commitRead frozen key w = .ok (b, s')) :
    ∃ found, s.getItem frozen key w = .ok found ∧ b = found.isSome ∧
      s'.toContainers = s.toContainers ∧
      s'.events = s.events ++ found.toList.map fun f => SnapshotEvent.of .read f 0 w := by
  obtain ⟨found, hfound, hs⟩ := Run.bind_eq_ok.mp hs
  refine ⟨found, hfound, ?_⟩
  cases found with
  | none =>
    cases hs
    exact ⟨rfl, rfl, (List.append_nil _).symm⟩
  | some f =>
    cases hs
    exact ⟨rfl, rfl, rfl⟩

/-- What neither the overlay nor the frozen storage has, the overlay does not have. -/
theorem own_of_getItem_none (h : getItem frozen s key w = .ok none) :
    s.toContainers.getItem key w = .ok none := by
  obtain ⟨own, hown, hfound⟩ := Run.bind_eq_ok.mp h
  cases own with
  | some n => cases hfound
  | none => exact hown

/-- An accepted write evicts from the overlay, stores the item there and records it. -/
theorem writeAccepted_eq_ok_iff :
    writeAccepted (virtuals cfg frozen) s key item w = .ok s' ↔
      ∃ m c found a c', getRequiredMemory (virtuals cfg frozen) s key item w = .ok m ∧
        s.toContainers.evictLruData cfg key m = .ok c ∧
        getItem frozen { s with toContainers := c } key w = .ok found ∧
        c.store cfg key item w = .ok (a, c') ∧ s.recordWrite a c' w = .ok s' := by
  constructor
  · intro hs
    obtain ⟨m, hm, hs⟩ := Run.bind_eq_ok.mp hs
    obtain ⟨t, ht, hs⟩ := Run.bind_eq_ok.mp hs
    obtain ⟨c, hc, ht⟩ := Run.bind_eq_ok.mp ht
    cases ht
    obtain ⟨_, hmap, hs⟩ := Run.bind_eq_ok.mp hs
    obtain ⟨found, hfound, hmap⟩ := Run.bind_eq_ok.mp hmap
    cases hmap
    refine ⟨m, c, found, ?_⟩
    unfold Containers.store
    cases found with
    | some f =>
      obtain ⟨own, hget, hs⟩ := Run.bind_eq_ok.mp hs
      have hget : c.getItem key w = .ok own := hget
      rw [hget]
      cases own with
      | some n =>
        obtain ⟨⟨a, c'⟩, hstore, hs⟩ := Run.bind_eq_ok.mp hs
        exact ⟨a, c', hm, hc, hfound, hstore, hs⟩
      | none =>
        obtain ⟨⟨a, c'⟩, hstore, hs⟩ := Run.bind_eq_ok.mp hs
        exact ⟨a, c', hm, hc, hfound, hstore, hs⟩
    | none =>
      obtain ⟨⟨a, c'⟩, hstore, hs⟩ := Run.bind_eq_ok.mp hs
      rw [own_of_getItem_none hfound]
      exact ⟨a, c', hm, hc, hfound, hstore, hs⟩
  · rintro ⟨m, c, found, a, c', hm, hc, hfound, hstore, hs⟩
    refine Run.bind_eq_ok.mpr ⟨m, hm, Run.bind_eq_ok.mpr ⟨{ s with toContainers := c }, ?_,
      Run.bind_eq_ok.mpr ⟨found.map fun f => f.node.val, ?_, ?_⟩⟩⟩
    · exact Run.bind_eq_ok.mpr ⟨c, hc, rfl⟩
    · exact Run.bind_eq_ok.mpr ⟨found, hfound, rfl⟩
    · obtain ⟨own, hget, hstore⟩ := Run.bind_eq_ok.mp hstore
      cases found with
      | some f =>
        refine Run.bind_eq_ok.mpr ⟨own, hget, ?_⟩
        cases own with
        | some n => exact Run.bind_eq_ok.mpr ⟨(a, c'), hstore, hs⟩
        | none => exact Run.bind_eq_ok.mpr ⟨(a, c'), hstore, hs⟩
      | none =>
        cases (own_of_getItem_none hfound).symm.trans hget
        exact Run.bind_eq_ok.mpr ⟨(a, c'), hstore, hs⟩

theorem recordWrite_eq_ok {a : Addr} {c : Containers} :
    s.recordWrite a c w = .ok s' ↔ ∃ stored, deref c.items a = .ok stored ∧
      s' = { s with
        toContainers := c
        events := s.events ++
          [SnapshotEvent.of .write ⟨.overlay, ⟨a, stored⟩⟩ stored.expiresAt w] } := by
  unfold recordWrite
  rw [Run.bind_eq_ok]
  exact exists_congr fun stored => and_congr_right fun _ =>
    ⟨fun h => (Except.ok.inj h).symm, fun h => congrArg _ h.symm⟩

end SnapshotStorage

namespace Represents

variable {cfg : CacheConfig} {frozen : Containers} {s s' : SnapshotStorage} {O : List Record}
  {key : Key} {item : CacheItem} {w : Int64}

/-- Room in the overlay means that its eviction removes nothing. -/
theorem survivors_eq_self_iff_hasRoom (h : Represents cfg s.toContainers O) {m : Int32}
    (hm : LruCache.getRequiredMemory (SnapshotStorage.virtuals cfg frozen) s key item w = .ok m) :
    survivors Record.entry cfg key m O = O ↔ s.HasRoom cfg frozen key item w := by
  have hused : s.usedMemory = (O.map fun r => r.entry.size).sum := h.used
  rw [survivors_eq_self_iff, ← hused]
  unfold SnapshotStorage.HasRoom
  refine or_congr ⟨fun hle => ⟨m, hm, hle⟩, ?_⟩ ⟨fun hall e he => ?_, fun hall r hr => ?_⟩
  · rintro ⟨m', hm', hle⟩
    cases hm.symm.trans hm'
    exact hle
  · obtain ⟨r, hr, rfl⟩ := (h.map.entries e).mp he
    exact hall r hr
  · exact hall _ (h.map.mem hr)

/-- A write with room, under a key that the overlay finds writable. -/
theorem snapshotWrite (h : Represents cfg s.toContainers O)
    (hroom : s.HasRoom cfg frozen key item w) (hw : s.toContainers.Writable key w)
    (hs : LruCache.writeAccepted (SnapshotStorage.virtuals cfg frozen) s key item w = .ok s') :
    ∃ r, r.entry = item.entry key ∧
      (∀ x ∈ O, x.key = key → r.entryAddr = x.entryAddr ∧ r.itemAddr = x.itemAddr) ∧
      Represents cfg s'.toContainers (r :: without Record.entry key O) ∧
      s'.events = s.events ++
        [SnapshotEvent.of .write ⟨.overlay, r.itemNode⟩ item.expiresAt w] := by
  obtain ⟨m, c, found, a, c', hm, hevict, -, hstore, hrecord⟩ :=
    SnapshotStorage.writeAccepted_eq_ok_iff.mp hs
  obtain ⟨stored, hstored, rfl⟩ := SnapshotStorage.recordWrite_eq_ok.mp hrecord
  obtain ⟨t, hevict', ht⟩ := h.evictLruData key m
  cases hevict'.symm.trans hevict
  have hwc := (h.writable_survivors ht).mpr hw
  rw [(h.survivors_eq_self_iff_hasRoom hm).mpr hroom] at ht
  obtain ⟨r, c'', hstore', hentry, haddr, h'⟩ :=
    ht.store item (ne_zero_of_store hstore) hwc
  cases hstore'.symm.trans hstore
  cases (h'.deref_item List.mem_cons_self).symm.trans hstored
  refine ⟨r, hentry, haddr, h', ?_⟩
  have hexp : r.item.expiresAt = item.expiresAt := congrArg Entry.expiresAt hentry
  rw [hexp]
  rfl

end Represents

/-- An accepted write removes no entry of the overlay and stores its item. -/
structure KeepsOverlay (s s' : Containers) (key : Key) (item : CacheItem) : Prop where
  entries : ∀ k, s.findEntry k ≠ none → s'.findEntry k ≠ none
  written : s'.stored key = some (item.entry key)

namespace Represents

variable {cfg : CacheConfig} {frozen : Containers} {s s' : SnapshotStorage} {O : List Record}
  {key : Key} {item : CacheItem} {w : Int64}

theorem keepsOverlay (h : Represents cfg s.toContainers O)
    (hroom : s.HasRoom cfg frozen key item w) (hw : s.toContainers.Writable key w)
    (hs : LruCache.writeAccepted (SnapshotStorage.virtuals cfg frozen) s key item w = .ok s') :
    KeepsOverlay s.toContainers s'.toContainers key item := by
  obtain ⟨r, hentry, -, h', -⟩ := h.snapshotWrite hroom hw hs
  have hkey : r.key = key := congrArg Entry.key hentry
  constructor
  · intro k hk hk'
    rw [h'.findEntry_eq_none_iff, List.map_cons, List.mem_cons, not_or] at hk'
    refine hk (h.findEntry_eq_none_iff.mpr fun hm => hk'.2 ?_)
    obtain ⟨x, hx, rfl⟩ := List.mem_map.mp hm
    exact List.mem_map_of_mem ((mem_without (v := Record.entry)).mpr
      ⟨hx, fun he => hk'.1 (he.trans hkey.symm)⟩)
  · rw [← hentry, ← hkey]
    exact h'.stored_of_mem List.mem_cons_self

/-- Without room some key of the overlay is gone after the eviction. -/
theorem exists_evicted (h : Represents cfg s.toContainers O) {m : Int32}
    (hm : LruCache.getRequiredMemory (SnapshotStorage.virtuals cfg frozen) s key item w = .ok m)
    (hroom : ¬ s.HasRoom cfg frozen key item w) :
    ∃ r ∈ O, r.key ≠ key ∧ r ∉ survivors Record.entry cfg key m O := by
  by_contra hnone
  refine hroom ((h.survivors_eq_self_iff_hasRoom hm).mp ?_)
  have hsub : O ⊆ survivors Record.entry cfg key m O := by
    intro r hr
    by_cases hk : r.key = key
    · exact mem_survivors_of_key hr hk
    · by_contra hgone
      exact hnone ⟨r, hr, hk, hgone⟩
  have hnodup : O.Nodup := List.Nodup.of_map _ h.keys_nodup
  exact survivors_sublist.eq_of_length_le (List.Nodup.subperm hnodup hsub).length_le

/-- The condition is exact: an accepted write keeps the overlay only with room and under a key that
the overlay finds writable. -/
theorem keepsOverlay_iff (h : Represents cfg s.toContainers O)
    (hrej : rejection cfg key item w = none)
    (hs : LruCache.writeAccepted (SnapshotStorage.virtuals cfg frozen) s key item w = .ok s') :
    KeepsOverlay s.toContainers s'.toContainers key item ↔
      s.HasRoom cfg frozen key item w ∧ s.toContainers.Writable key w := by
  refine ⟨fun hkeep => ?_, fun hc => h.keepsOverlay hc.1 hc.2 hs⟩
  obtain ⟨m, c, found, a, c', hm, hevict, -, hstore, hrecord⟩ :=
    SnapshotStorage.writeAccepted_eq_ok_iff.mp hs
  obtain ⟨stored, hstored, rfl⟩ := SnapshotStorage.recordWrite_eq_ok.mp hrecord
  obtain ⟨t, hevict', ht⟩ := h.evictLruData key m
  cases hevict'.symm.trans hevict
  have hi := ne_zero_of_store hstore
  have hw : s.toContainers.Writable key w := by
    -- the map would still lead to the expired item
    by_contra hw
    obtain ⟨r, hr, rfl, he, c'', hstore', hmap, hitems, hnodup⟩ :=
      ht.store_expired item hi fun h' => hw ((h.writable_survivors ht).mp h')
    cases hstore'.symm.trans hstore
    have hold : get? c'.items r.itemAddr = some r.item := by
      refine get?_of_mem hnodup (n := r.itemNode) ?_
      rw [hitems, ht.items]
      exact List.mem_cons_of_mem _ (List.mem_map_of_mem hr)
    have hfind : c'.findEntry r.key = some r.entryNode := by
      unfold Containers.findEntry
      rw [hmap]
      exact ht.findEntry_of_mem hr
    have hst : c'.stored r.key = some r.entry := by
      unfold Containers.stored
      rw [hfind]
      show (get? c'.items r.itemAddr).bind _ = _
      rw [hold]
      rfl
    have hsame : r.entry = item.entry r.key := Option.some.inj (hst.symm.trans hkeep.written)
    have hlt := unexpired_of_rejection_eq_none hrej
    rw [hsame] at he
    exact absurd hlt (Int64.not_lt.mpr (of_decide_eq_true he))
  refine ⟨?_, hw⟩
  by_contra hroom
  obtain ⟨x, hx, hxk, hgone⟩ := h.exists_evicted hm hroom
  obtain ⟨r, c'', hstore', hentry, -, h'⟩ :=
    ht.store item hi ((h.writable_survivors ht).mpr hw)
  cases hstore'.symm.trans hstore
  have hkept := hkeep.entries x.key (by rw [h.findEntry_of_mem hx]; exact Option.some_ne_none _)
  refine hkept (h'.findEntry_eq_none_iff.mpr fun hmem => ?_)
  obtain ⟨y, hy, hyk⟩ := List.mem_map.mp hmem
  rcases List.mem_cons.mp hy with rfl | hy
  · exact hxk (hyk.symm.trans (congrArg Entry.key hentry))
  · have hyS := (mem_without.mp hy).1
    rw [List.inj_on_of_nodup_map h.keys_nodup (survivors_sublist.subset hyS) hx hyk] at hyS
    exact hgone hyS

end Represents

/-! ## Outside a snapshot the overlay is empty -/

/-- The overlay holds nothing. -/
def SnapshotStorage.Clean (s : SnapshotStorage) : Prop :=
  s.toContainers = s.toContainers.clear ∧ s.events = []

namespace CacheState

variable {cfg : CacheConfig} {st st' : CacheState} {op : CacheOp} {a : Option Bool}

theorem storageOp?_eq_some (h : op.isCommit = true) : ∃ o, op.storageOp? = some o := by
  cases op with
  | commitRead key t => exact ⟨_, rfl⟩
  | commitWrite key item t => exact ⟨_, rfl⟩
  | commitPurgeExpired t => exact ⟨_, rfl⟩
  | beginSnapshot => cases h
  | endSnapshot => cases h

/-- A call leaves a snapshot in progress or the overlay empty. -/
theorem clean_step (h : st.snapshotInProgress = false → st.snapshotStorage.Clean)
    (hs : st.step cfg op = .ok (a, st')) :
    st'.snapshotInProgress = false → st'.snapshotStorage.Clean := by
  by_cases hop : op.isCommit = true
  · cases hp : st.snapshotInProgress with
    | true =>
      have hstep := step_snapshot hp hop hs
      intro hp'
      rw [hstep.inProgress_eq, hp] at hp'
      cases hp'
    | false =>
      obtain ⟨o, ho⟩ := storageOp?_eq_some hop
      rw [step_direct hp ho] at hs
      obtain ⟨⟨b, s⟩, -, hs⟩ := Run.bind_eq_ok.mp hs
      cases hs
      exact fun _ => h hp
  · cases op with
    | beginSnapshot =>
      cases hs
      intro hp
      cases hp
    | endSnapshot =>
      obtain ⟨u, hend, hs⟩ := Run.bind_eq_ok.mp hs
      obtain ⟨s, -, hu⟩ := Run.bind_eq_ok.mp hend
      cases hu
      cases hs
      exact fun _ => ⟨rfl, rfl⟩
    | commitRead key t => exact absurd rfl hop
    | commitWrite key item t => exact absurd rfl hop
    | commitPurgeExpired t => exact absurd rfl hop

/-- In every reachable state outside a snapshot the overlay is empty. -/
theorem clean_of_run {ops : List CacheOp} {answers : List (Option Bool)}
    (hrun : CacheState.run cfg .new ops = .ok (answers, st)) :
    st.snapshotInProgress = false → st.snapshotStorage.Clean := by
  refine Run.run_invariant (C := fun _ _ => True)
    (I := fun st => st.snapshotInProgress = false → st.snapshotStorage.Clean)
    (fun _ _ _ _ h _ hs => clean_step h hs) (fun _ => ⟨rfl, rfl⟩) ?_ hrun
  exact Run.along_true _ _

end CacheState

/-! ## The commits of a snapshot -/

/-- The write of a commit, when it passes its checks, finds room and a writable key in the
overlay. -/
def OverlaySafe (cfg : CacheConfig) (st : CacheState) : CacheOp → Prop
  | .commitWrite key item writtenAt => rejection cfg key item writtenAt = none →
    st.snapshotStorage.HasRoom cfg st.storage.toContainers key item writtenAt ∧
      st.snapshotStorage.toContainers.Writable key writtenAt
  | _ => True

instance (cfg : CacheConfig) (st : CacheState) : (op : CacheOp) → Decidable (OverlaySafe cfg st op)
  | .commitWrite key item writtenAt =>
    inferInstanceAs (Decidable (rejection cfg key item writtenAt = none →
      st.snapshotStorage.HasRoom cfg st.storage.toContainers key item writtenAt ∧
        st.snapshotStorage.toContainers.Writable key writtenAt))
  | .commitRead _ _ => .isTrue trivial
  | .commitPurgeExpired _ => .isTrue trivial
  | .beginSnapshot => .isTrue trivial
  | .endSnapshot => .isTrue trivial

/-- Note the item of a write that succeeded. -/
def noteWrite (latest : Key → Option CacheItem) : CacheOp × Option Bool → Key → Option CacheItem
  | (.commitWrite key item _, some true) => fun k => if k = key then some item else latest k
  | _ => latest

/-- The item of the last successful write of each key. -/
def latestWrite (ops : List CacheOp) (answers : List (Option Bool)) : Key → Option CacheItem :=
  (ops.zip answers).foldl noteWrite fun _ => none

/-- During a snapshot of `frozen`: the overlay holds the latest write of each key, and nothing
else. -/
structure Shadowing (cfg : CacheConfig) (frozen : CacheStorage) (latest : Key → Option CacheItem)
    (st : CacheState) : Prop where
  inProgress : st.snapshotInProgress = true
  storage : st.storage = frozen
  overlay : ∃ O, Represents cfg st.snapshotStorage.toContainers O
  stored : ∀ k, st.snapshotStorage.toContainers.stored k = (latest k).map fun item => item.entry k

namespace Shadowing

variable {cfg : CacheConfig} {frozen : CacheStorage} {latest : Key → Option CacheItem}
  {st st' : CacheState} {op : CacheOp} {a : Option Bool}

/-- A snapshot of a state with an empty overlay starts so. -/
theorem ofClean (h : st.snapshotStorage.Clean) :
    Shadowing cfg st.storage (fun _ => none) st.beginSnapshot where
  inProgress := rfl
  storage := rfl
  overlay := ⟨[], by
    show Represents cfg st.snapshotStorage.toContainers []
    rw [h.1]
    exact Represents.clear cfg _⟩
  stored k := by
    show st.snapshotStorage.toContainers.stored k = none
    rw [h.1]
    rfl

theorem step (h : Shadowing cfg frozen latest st) (hsafe : OverlaySafe cfg st op)
    (hop : op.isCommit = true) (hs : st.step cfg op = .ok (a, st')) :
    Shadowing cfg frozen (noteWrite latest (op, a)) st' := by
  have hstep := CacheState.step_snapshot h.inProgress hop hs
  have hp := hstep.inProgress_eq.trans h.inProgress
  have hst := hstep.storage_eq.trans h.storage
  cases hstep with
  | read hread =>
    obtain ⟨-, -, -, hsame, -⟩ := SnapshotStorage.commitRead_eq_ok hread
    obtain ⟨O, hO⟩ := h.overlay
    exact ⟨hp, hst, ⟨O, hsame ▸ hO⟩, fun k =>
      (congrArg (Containers.stored · k) hsame).trans (h.stored k)⟩
  | @write key item w _ _ hwrite =>
    obtain ⟨code, -, rfl, rfl⟩ | ⟨hrej, rfl, t, ht, rfl⟩ := LruCache.commitWrite_eq_ok.mp hwrite
    · exact ⟨hp, hst, h.overlay, h.stored⟩
    · obtain ⟨O, hO⟩ := h.overlay
      obtain ⟨hroom, hw⟩ := hsafe hrej
      obtain ⟨r, hentry, -, h', -⟩ := hO.snapshotWrite hroom hw ht
      obtain rfl : r.key = key := congrArg Entry.key hentry
      refine ⟨hp, hst, ⟨_, h'⟩, fun k => (hO.stored_put h' k).trans ?_⟩
      rw [hentry, h.stored k]
      simp only [noteWrite]
      by_cases hk : k = r.key
      · rw [if_pos hk, if_pos hk, hk]
        rfl
      · rw [if_neg hk, if_neg hk]
  | purge => exact ⟨hp, hst, h.overlay, h.stored⟩

/-- Commits that are safe for the overlay keep it. -/
theorem run {cs : List CacheOp} {answers : List (Option Bool)}
    (h : Shadowing cfg frozen (fun _ => none) st) (hcs : ∀ op ∈ cs, op.isCommit = true)
    (hsafe : Run.Along (CacheState.step cfg) (OverlaySafe cfg) st cs)
    (hrun : CacheState.run cfg st cs = .ok (answers, st')) :
    Shadowing cfg frozen (latestWrite cs answers) st' :=
  Run.run_fold (fun _ _ _ _ _ hJ hC hs => hJ.step hC.1 hC.2 hs) h (hsafe.and_forall hcs) hrun

end Shadowing

/-- Between `begin_snapshot` and `end_snapshot`, as long as the writes are safe for the overlay: the
frozen storage is unchanged and the overlay holds the latest value of every key written. A further
write that `commit_write` accepts keeps the overlay exactly when it is safe. -/
theorem overlay_keeps_writes {cfg : CacheConfig} {ops cs : List CacheOp}
    {answers answers' : List (Option Bool)} {st st' : CacheState}
    (hrun : CacheState.run cfg .new ops = .ok (answers, st))
    (hout : st.snapshotInProgress = false) (hcs : ∀ op ∈ cs, op.isCommit = true)
    (hsnap : CacheState.run cfg st.beginSnapshot cs = .ok (answers', st'))
    (hsafe : Run.Along (CacheState.step cfg) (OverlaySafe cfg) st.beginSnapshot cs) :
    st'.storage = st.storage ∧
    (∀ k item, latestWrite cs answers' k = some item →
      st'.snapshotStorage.toContainers.stored k = some (item.entry k)) ∧
    ∀ key item w st'', st'.commitWrite cfg key item w = .ok (true, st'') →
      (KeepsOverlay st'.snapshotStorage.toContainers st''.snapshotStorage.toContainers key item ↔
        OverlaySafe cfg st' (.commitWrite key item w)) := by
  have h := (Shadowing.ofClean (CacheState.clean_of_run hrun hout)).run hcs hsafe hsnap
  refine ⟨h.storage, fun k item hk => ?_, fun key item w st'' hwrite => ?_⟩
  · rw [h.stored k, hk]
    rfl
  · rw [CacheState.commitWrite, if_pos h.inProgress] at hwrite
    obtain ⟨⟨b, s⟩, hcommit, hst⟩ := Run.bind_eq_ok.mp hwrite
    cases hst
    obtain ⟨-, -, hb, -⟩ | ⟨hrej, -, t, ht, rfl⟩ := LruCache.commitWrite_eq_ok.mp hcommit
    · cases hb
    · obtain ⟨O, hO⟩ := h.overlay
      refine (hO.keepsOverlay_iff hrej ht).trans ⟨fun hc _ => hc, fun hc => hc hrej⟩

/-- Two keys are written during a snapshot of a third, one of them twice. -/
theorem overlay_keeps_writes_sample :
    ∃ answers answers' st st', CacheState.run Sample.config .new
        [.commitWrite (Sample.key 1) (Sample.item 3 (by decide) 500) 100] = .ok (answers, st) ∧
      CacheState.run Sample.config st.beginSnapshot
        [.commitWrite (Sample.key 2) (Sample.item 3 (by decide) 500) 110,
          .commitWrite (Sample.key 1) (Sample.item 5 (by decide) 500) 120,
          .commitWrite (Sample.key 2) (Sample.item 7 (by decide) 600) 130] = .ok (answers', st') ∧
      st'.storage = st.storage ∧
      st'.snapshotStorage.toContainers.stored (Sample.key 2) =
        some ((Sample.item 7 (by decide) 600).entry (Sample.key 2)) := by
  have h : (do
      let (_, st) ← CacheState.run Sample.config .new
        [.commitWrite (Sample.key 1) (Sample.item 3 (by decide) 500) 100]
      let (answers, _) ← CacheState.run Sample.config st.beginSnapshot
        [.commitWrite (Sample.key 2) (Sample.item 3 (by decide) 500) 110,
          .commitWrite (Sample.key 1) (Sample.item 5 (by decide) 500) 120,
          .commitWrite (Sample.key 2) (Sample.item 7 (by decide) 600) 130]
      return (st.snapshotInProgress, answers,
        decide (Run.Along (CacheState.step Sample.config) (OverlaySafe Sample.config)
          st.beginSnapshot
          [.commitWrite (Sample.key 2) (Sample.item 3 (by decide) 500) 110,
            .commitWrite (Sample.key 1) (Sample.item 5 (by decide) 500) 120,
            .commitWrite (Sample.key 2) (Sample.item 7 (by decide) 600) 130]))) =
      .ok (false, [some true, some true, some true], true) := by decide +kernel
  obtain ⟨⟨answers, st⟩, hrun, h⟩ := Run.bind_eq_ok.mp h
  obtain ⟨⟨answers', st'⟩, hsnap, h⟩ := Run.bind_eq_ok.mp h
  obtain ⟨hout, h⟩ := Prod.mk.inj (Except.ok.inj h)
  obtain ⟨rfl, hsafe⟩ := Prod.mk.inj h
  obtain ⟨hstorage, hstored, -⟩ :=
    overlay_keeps_writes hrun hout (by decide) hsnap (of_decide_eq_true hsafe)
  exact ⟨answers, _, st, st', hrun, hsnap, hstorage, hstored _ _ (by decide)⟩

/-- Two items of 549 bytes do not fit in 1024: the second write evicts the first one from the
overlay. -/
theorem overlay_evicts :
    ∃ answers st', CacheState.run Sample.config CacheState.new.beginSnapshot
        [.commitWrite (Sample.key 1) (Sample.item 500 (by decide) 500) 100,
          .commitWrite (Sample.key 2) (Sample.item 500 (by decide) 500) 110] = .ok (answers, st') ∧
      latestWrite [.commitWrite (Sample.key 1) (Sample.item 500 (by decide) 500) 100,
          .commitWrite (Sample.key 2) (Sample.item 500 (by decide) 500) 110] answers
        (Sample.key 1) = some (Sample.item 500 (by decide) 500) ∧
      st'.snapshotStorage.toContainers.stored (Sample.key 1) = none := by
  have h : (do
      let (answers, st) ← CacheState.run Sample.config CacheState.new.beginSnapshot
        [.commitWrite (Sample.key 1) (Sample.item 500 (by decide) 500) 100,
          .commitWrite (Sample.key 2) (Sample.item 500 (by decide) 500) 110]
      return (answers, st.snapshotStorage.toContainers.stored (Sample.key 1))) =
      .ok ([some true, some true], none) := by decide +kernel
  obtain ⟨⟨answers, st'⟩, hrun, h⟩ := Run.bind_eq_ok.mp h
  obtain ⟨rfl, hgone⟩ := Prod.mk.inj (Except.ok.inj h)
  exact ⟨_, st', hrun, by decide +kernel, hgone⟩

/-! ## Lookups -/

/-- The lookups of `k` at time `t` answer as if `item` were its only value: `item` with its data, or
nothing once it has expired. -/
structure Shadows (st : CacheState) (k : Key) (item : CacheItem) (t : Int64) : Prop where
  getItem : ∃ found, st.snapshotStorage.getItem st.storage.toContainers k t = .ok found ∧
    (found.map fun f => f.node.val.entry k) =
      if item.isExpired t then none else some (item.entry k)
  readThen : st.readThen k t =
    .ok (if item.isExpired t then (none, 0) else (some item.data, item.dataSize))
  read : st.read k t = .ok (if item.isExpired t then none else some item.data.bytes)
  commitRead : ∃ st', st.commitRead k t = .ok (!item.isExpired t, st')

/-- The item can be told from no item by its data: it has a byte, and `data_size` counts its
bytes. -/
def CacheItem.Readable (item : CacheItem) : Prop :=
  item.data.bytes ≠ [] ∧ item.dataSize.toNat = item.data.bytes.length

instance (item : CacheItem) : Decidable item.Readable := inferInstanceAs (Decidable (_ ∧ _))

theorem ItemData.pointer_eq_self_iff {data : ItemData} :
    data.pointer = some data ↔ data.bytes ≠ [] := by
  unfold ItemData.pointer
  split <;> simp_all

section Reading

variable {st : CacheState} {k : Key} {item : CacheItem} {t : Int64} {found : Option Found}

/-- What the lookup by `get_item` shows of an item. -/
theorem readThen_eq (hp : st.snapshotInProgress = true)
    (hfound : st.snapshotStorage.getItem st.storage.toContainers k t = .ok found)
    (hentry : (found.map fun f => f.node.val.entry k) =
      if item.isExpired t then none else some (item.entry k)) :
    st.readThen k t =
      .ok (if item.isExpired t then (none, 0) else (item.data.pointer, item.dataSize)) := by
  have hread : st.readThen k t = .ok (readItem (found.map fun f => f.node.val)) := by
    simp only [CacheState.readThen, CacheState.getItem, hp, hfound, Run.ok_bind, pure_bind, if_true]
    rfl
  rw [hread]
  cases found with
  | none =>
    rw [Option.map_none] at hentry ⊢
    split at hentry
    · next he => rw [if_pos he]; rfl
    · cases hentry
  | some f =>
    rw [Option.map_some] at hentry ⊢
    split at hentry
    · cases hentry
    · next he =>
      obtain ⟨-, hdata, hsize, -⟩ := Entry.mk.inj (Option.some.inj hentry)
      rw [if_neg he, readItem, hdata, hsize]

theorem read_eq_copyData {passed : Option ItemData × UInt64} (h : st.readThen k t = .ok passed) :
    st.read k t = copyData passed := by
  rw [CacheState.read, h, Run.ok_bind]

/-- An unexpired item is read back exactly when it is readable. -/
theorem read_unexpired_iff
    (h : st.readThen k t = .ok (item.data.pointer, item.dataSize)) :
    st.readThen k t = .ok (some item.data, item.dataSize) ∧
        st.read k t = .ok (some item.data.bytes) ↔
      item.Readable := by
  rw [read_eq_copyData h, h]
  constructor
  · rintro ⟨hthen, hread⟩
    have hpointer := (Prod.mk.inj (Except.ok.inj hthen)).1
    refine ⟨ItemData.pointer_eq_self_iff.mp hpointer, ?_⟩
    rw [hpointer, copyData] at hread
    split at hread
    · next hle =>
      have hlen := congrArg List.length (Option.some.inj (Except.ok.inj hread))
      rw [List.length_take] at hlen
      omega
    · cases hread
  · rintro ⟨hne, hsize⟩
    rw [ItemData.pointer_eq_self_iff.mpr hne]
    refine ⟨rfl, ?_⟩
    rw [copyData, if_pos (Nat.le_of_eq hsize), hsize, List.take_length]

theorem commitRead_eq (hp : st.snapshotInProgress = true)
    (hfound : st.snapshotStorage.getItem st.storage.toContainers k t = .ok found)
    (hentry : (found.map fun f => f.node.val.entry k) =
      if item.isExpired t then none else some (item.entry k)) :
    ∃ st', st.commitRead k t = .ok (!item.isExpired t, st') := by
  have hsome : found.isSome = !item.isExpired t := by
    have := congrArg Option.isSome hentry
    rw [Option.isSome_map] at this
    rw [this]
    split
    · next he => rw [he]; rfl
    · next he => rw [Bool.eq_false_iff.mpr he]; rfl
  rw [← hsome]
  unfold CacheState.commitRead SnapshotStorage.commitRead
  rw [if_pos hp, hfound]
  cases found <;> exact ⟨_, rfl⟩

/-- The answers of the lookups follow from the one of `get_item`, except that `read` and `read_then`
do not tell an item without bytes from no item. -/
theorem shadows_iff (hp : st.snapshotInProgress = true) :
    Shadows st k item t ↔
      (∃ found, st.snapshotStorage.getItem st.storage.toContainers k t = .ok found ∧
        (found.map fun f => f.node.val.entry k) =
          if item.isExpired t then none else some (item.entry k)) ∧
      (item.isExpired t = false → item.Readable) := by
  constructor
  · intro h
    obtain ⟨found, hfound, hentry⟩ := h.getItem
    refine ⟨h.getItem, fun he => ?_⟩
    have hthen := readThen_eq hp hfound hentry
    have hneg : ¬ item.isExpired t = true := Bool.eq_false_iff.mp he
    have hthen' := h.readThen
    have hread := h.read
    rw [if_neg hneg] at hthen hthen' hread
    exact (read_unexpired_iff hthen).mp ⟨hthen', hread⟩
  · rintro ⟨⟨found, hfound, hentry⟩, hreadable⟩
    have hthen := readThen_eq hp hfound hentry
    have hcommit := commitRead_eq hp hfound hentry
    cases he : item.isExpired t with
    | true =>
      rw [he, if_pos rfl] at hthen
      refine ⟨⟨found, hfound, hentry⟩, ?_, ?_, hcommit⟩
      · rw [he, if_pos rfl, hthen]
      · rw [he, if_pos rfl, read_eq_copyData hthen, copyData]
    | false =>
      have hneg : ¬ item.isExpired t = true := Bool.eq_false_iff.mp he
      rw [if_neg hneg] at hthen
      obtain ⟨hthen', hread⟩ := (read_unexpired_iff hthen).mpr (hreadable he)
      refine ⟨⟨found, hfound, hentry⟩, ?_, ?_, hcommit⟩
      · rw [if_neg hneg, hthen']
      · rw [if_neg hneg, hread]

end Reading

/-- During a snapshot whose writes are safe for the overlay, the lookups of a key written since
`begin_snapshot` are right exactly when the latest item is unexpired and can be told from no item,
or has expired and the frozen storage finds nothing under the key. -/
theorem lookup_shadows_iff {cfg : CacheConfig} {ops cs : List CacheOp}
    {answers answers' : List (Option Bool)} {st st' : CacheState}
    (hrun : CacheState.run cfg .new ops = .ok (answers, st))
    (hout : st.snapshotInProgress = false) (hcs : ∀ op ∈ cs, op.isCommit = true)
    (hsnap : CacheState.run cfg st.beginSnapshot cs = .ok (answers', st'))
    (hsafe : Run.Along (CacheState.step cfg) (OverlaySafe cfg) st.beginSnapshot cs)
    {k : Key} {item : CacheItem} (hk : latestWrite cs answers' k = some item) (t : Int64) :
    Shadows st' k item t ↔
      (t < item.expiresAt ∧ item.Readable) ∨
        (item.expiresAt ≤ t ∧ st.storage.toContainers.getItem k t = .ok none) := by
  have h := (Shadowing.ofClean (CacheState.clean_of_run hrun hout)).run hcs hsafe hsnap
  obtain ⟨O, hO⟩ := h.overlay
  have hstored : st'.snapshotStorage.toContainers.stored k = some (item.entry k) := by
    rw [h.stored k, hk]
    rfl
  obtain ⟨r, hr, rfl, hentry⟩ := hO.stored_eq_some_iff.mp hstored
  have hget := hO.getItem_of_mem hr t
  rw [shadows_iff h.inProgress, h.storage]
  have hexp : r.entry.isExpired t = item.isExpired t := by
    rw [hentry]
    rfl
  cases he : item.isExpired t with
  | false =>
    -- the overlay answers
    rw [hexp, he] at hget
    have hlt : t < item.expiresAt := Int64.not_le.mp (of_decide_eq_false he)
    constructor
    · rintro ⟨-, hreadable⟩
      exact .inl ⟨hlt, hreadable rfl⟩
    · rintro (⟨-, hreadable⟩ | ⟨hle, -⟩)
      · refine ⟨⟨_, SnapshotStorage.getItem_of_overlay hget, ?_⟩, fun _ => hreadable⟩
        show some r.entry = some (item.entry r.key)
        rw [hentry]
      · exact absurd hlt (Int64.not_lt.mpr hle)
  | true =>
    -- the lookup falls through to the frozen storage
    rw [hexp, he] at hget
    have hle : item.expiresAt ≤ t := of_decide_eq_true he
    rw [SnapshotStorage.getItem_of_overlay_none hget]
    constructor
    · rintro ⟨⟨found, hfound, hmap⟩, -⟩
      obtain ⟨n, hn, hfound⟩ := Run.bind_eq_ok.mp hfound
      refine .inr ⟨hle, ?_⟩
      rw [hn]
      cases n with
      | none => rfl
      | some n =>
        cases hfound
        cases hmap
    · rintro (⟨hlt, -⟩ | ⟨-, hnone⟩)
      · exact absurd hlt (Int64.not_lt.mpr hle)
      · rw [hnone]
        exact ⟨⟨none, rfl, rfl⟩, fun h => by cases h⟩

/-- A key of the frozen storage is overwritten and looked up before the new item expires. -/
theorem lookup_shadows_sample :
    ∃ answers answers' st st', CacheState.run Sample.config .new
        [.commitWrite (Sample.key 1) (Sample.item 3 (by decide) 500) 100] = .ok (answers, st) ∧
      CacheState.run Sample.config st.beginSnapshot
        [.commitWrite (Sample.key 1) (Sample.item 5 (by decide) 150) 110] = .ok (answers', st') ∧
      Shadows st' (Sample.key 1) (Sample.item 5 (by decide) 150) 120 := by
  have h : (do
      let (_, st) ← CacheState.run Sample.config .new
        [.commitWrite (Sample.key 1) (Sample.item 3 (by decide) 500) 100]
      let (answers, _) ← CacheState.run Sample.config st.beginSnapshot
        [.commitWrite (Sample.key 1) (Sample.item 5 (by decide) 150) 110]
      return (st.snapshotInProgress, answers,
        decide (Run.Along (CacheState.step Sample.config) (OverlaySafe Sample.config)
          st.beginSnapshot
          [.commitWrite (Sample.key 1) (Sample.item 5 (by decide) 150) 110]))) =
      .ok (false, [some true], true) := by decide +kernel
  obtain ⟨⟨answers, st⟩, hrun, h⟩ := Run.bind_eq_ok.mp h
  obtain ⟨⟨answers', st'⟩, hsnap, h⟩ := Run.bind_eq_ok.mp h
  obtain ⟨hout, h⟩ := Prod.mk.inj (Except.ok.inj h)
  obtain ⟨rfl, hsafe⟩ := Prod.mk.inj h
  exact ⟨answers, _, st, st', hrun, hsnap,
    (lookup_shadows_iff hrun hout (by decide) hsnap (of_decide_eq_true hsafe)
      (by decide) 120).mpr (.inl ⟨by decide, by decide⟩)⟩

/-- The newer item expires at 150 and the frozen one at 500: at 200 the lookups return the frozen
item. And a newer item without bytes is found by `get_item` at 120, but `read_then` passes a null
pointer and `read` returns one. -/
theorem lookup_not_shadowed :
    CacheOp.NonDecreasing [.commitWrite (Sample.key 1) (Sample.item 3 (by decide) 500) 100,
      .beginSnapshot, .commitWrite (Sample.key 1) (Sample.item 5 (by decide) 150) 110,
      .commitRead (Sample.key 1) 200] ∧
    (∃ answers answers' st st', CacheState.run Sample.config .new
        [.commitWrite (Sample.key 1) (Sample.item 3 (by decide) 500) 100] = .ok (answers, st) ∧
      CacheState.run Sample.config st.beginSnapshot
        [.commitWrite (Sample.key 1) (Sample.item 5 (by decide) 150) 110] = .ok (answers', st') ∧
      latestWrite [.commitWrite (Sample.key 1) (Sample.item 5 (by decide) 150) 110] answers'
        (Sample.key 1) = some (Sample.item 5 (by decide) 150) ∧
      st'.readThen (Sample.key 1) 200 =
        .ok (some (Sample.item 3 (by decide) 500).data, (Sample.item 3 (by decide) 500).dataSize) ∧
      ¬ Shadows st' (Sample.key 1) (Sample.item 5 (by decide) 150) 200) ∧
    ∃ answers st, CacheState.run Sample.config CacheState.new.beginSnapshot
        [.commitWrite (Sample.key 1) (Sample.item 0 (by decide) 500) 110] = .ok (answers, st) ∧
      latestWrite [.commitWrite (Sample.key 1) (Sample.item 0 (by decide) 500) 110] answers
        (Sample.key 1) = some (Sample.item 0 (by decide) 500) ∧
      (∃ f, st.snapshotStorage.getItem st.storage.toContainers (Sample.key 1) 120 = .ok (some f)) ∧
      st.readThen (Sample.key 1) 120 = .ok (none, 0) ∧ st.read (Sample.key 1) 120 = .ok none ∧
      ¬ Shadows st (Sample.key 1) (Sample.item 0 (by decide) 500) 120 := by
  refine ⟨by decide, ?_, ?_⟩
  · have h : (do
        let (_, st) ← CacheState.run Sample.config .new
          [.commitWrite (Sample.key 1) (Sample.item 3 (by decide) 500) 100]
        let (answers, st') ← CacheState.run Sample.config st.beginSnapshot
          [.commitWrite (Sample.key 1) (Sample.item 5 (by decide) 150) 110]
        let data ← st'.readThen (Sample.key 1) 200
        return (answers, data)) =
        .ok ([some true], some (Sample.item 3 (by decide) 500).data,
          (Sample.item 3 (by decide) 500).dataSize) := by decide +kernel
    obtain ⟨⟨answers, st⟩, hrun, h⟩ := Run.bind_eq_ok.mp h
    obtain ⟨⟨answers', st'⟩, hsnap, h⟩ := Run.bind_eq_ok.mp h
    obtain ⟨data, hdata, h⟩ := Run.bind_eq_ok.mp h
    obtain ⟨rfl, rfl⟩ := Prod.mk.inj (Except.ok.inj h)
    refine ⟨answers, _, st, st', hrun, hsnap, by decide, hdata, fun hshadow => ?_⟩
    exact absurd (hdata.symm.trans hshadow.readThen) (by decide)
  · have h : (do
        let (answers, st) ← CacheState.run Sample.config CacheState.new.beginSnapshot
          [.commitWrite (Sample.key 1) (Sample.item 0 (by decide) 500) 110]
        let found ← st.snapshotStorage.getItem st.storage.toContainers (Sample.key 1) 120
        let data ← st.readThen (Sample.key 1) 120
        return (answers, found.isSome, data)) = .ok ([some true], true, none, 0) := by
      decide +kernel
    obtain ⟨⟨answers, st⟩, hrun, h⟩ := Run.bind_eq_ok.mp h
    obtain ⟨found, hfound, h⟩ := Run.bind_eq_ok.mp h
    obtain ⟨data, hdata, h⟩ := Run.bind_eq_ok.mp h
    obtain ⟨rfl, hrest⟩ := Prod.mk.inj (Except.ok.inj h)
    obtain ⟨hsome, rfl⟩ := Prod.mk.inj hrest
    obtain ⟨f, rfl⟩ := Option.isSome_iff_exists.mp hsome
    refine ⟨_, st, hrun, by decide, ⟨f, hfound⟩, hdata, read_eq_copyData hdata, fun hshadow => ?_⟩
    exact absurd (hdata.symm.trans hshadow.readThen) (by decide)

end LruCache
