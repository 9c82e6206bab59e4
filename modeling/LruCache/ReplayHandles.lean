import LruCache.RepInv
import LruCache.Transparency

/-!
# The pointers of the events

A `snapshot_event` keeps a pointer to a key and to an item. A write takes both from the overlay, a
read takes the key from the storage that answered it. `end_snapshot` follows them later.

The overlay erases nothing as long as each write finds room in it, so its nodes stay. The replay
itself changes the frozen storage: an event may evict or purge an entry that a later event points
to. Such an entry is live when its event is reached exactly when its key has stayed in the contents
from `begin_snapshot` on.
-/

namespace LruCache

open NodeList

/-- The containers that a pointer of an event points into. -/
def Owner.of (overlay storage : Containers) : Owner → Containers
  | .overlay => overlay
  | .frozen => storage

/-- The entry that the key pointer of the event designates has not been erased, nor, for a write,
the element that its item pointer designates. -/
structure HandlesLive (overlay storage : Containers) (event : SnapshotEvent) : Prop where
  key : ∀ ref, event.key = some ref → ref.addr ∈ addrs (ref.owner.of overlay storage).itemMap
  item : event.type = .write → ∀ ref, event.item = some ref →
    ref.addr ∈ addrs (ref.owner.of overlay storage).items

/-! ## Recording -/

/-- Every element of `items_` points to a key of `item_map_`. -/
def Containers.Keyed (s : Containers) : Prop :=
  ∀ n ∈ s.items, ∃ a ∈ addrs s.itemMap, n.val.key = some a

/-- The events that the commits of a snapshot record, with pointers to live nodes. -/
inductive Recorded (overlay frozen : Containers) : SnapshotEvent → Prop
  | read {owner : Owner} {a : Addr} {item : Option Ref} {e t : Int64} :
      a ∈ addrs (owner.of overlay frozen).itemMap →
      Recorded overlay frozen ⟨.read, some ⟨owner, a⟩, item, e, t⟩
  | write {a b : Addr} {e t : Int64} :
      a ∈ addrs overlay.itemMap → b ∈ addrs overlay.items →
      Recorded overlay frozen ⟨.write, some ⟨.overlay, a⟩, some ⟨.overlay, b⟩, e, t⟩
  | purge {t : Int64} : Recorded overlay frozen ⟨.purge, none, none, 0, t⟩

/-- The overlay has erased no node that an event points to. -/
structure Recording (frozen : Containers) (s : SnapshotStorage) : Prop where
  keyed : s.toContainers.Keyed
  events : ∀ event ∈ s.events, Recorded s.toContainers frozen event

theorem Recorded.mono {overlay overlay' frozen : Containers} {event : SnapshotEvent}
    (hmap : addrs overlay.itemMap ⊆ addrs overlay'.itemMap)
    (hitems : addrs overlay.items ⊆ addrs overlay'.items) (h : Recorded overlay frozen event) :
    Recorded overlay' frozen event := by
  cases h with
  | @read owner a item e t ha =>
    have ha' : a ∈ addrs (owner.of overlay' frozen).itemMap := by
      cases owner with
      | overlay => exact hmap ha
      | frozen => exact ha
    exact .read ha'
  | write ha hb => exact .write (hmap ha) (hitems hb)
  | purge => exact .purge

/-- Only reads point into the frozen storage. -/
theorem Recorded.of_frozen {overlay frozen : Containers} {event : SnapshotEvent} {a : Addr}
    (h : Recorded overlay frozen event) (hkey : event.key = some ⟨.frozen, a⟩) :
    event.type = .read ∧ a ∈ addrs frozen.itemMap := by
  cases h with
  | read ha =>
    cases hkey
    exact ⟨rfl, ha⟩
  | write ha hb => cases hkey
  | purge => cases hkey

/-- Pointers into the overlay are live whatever happens to the storage. -/
theorem Recorded.live_of_overlay {overlay frozen storage : Containers} {event : SnapshotEvent}
    (h : Recorded overlay frozen event) (hne : ∀ a, event.key ≠ some ⟨.frozen, a⟩) :
    HandlesLive overlay storage event := by
  cases h with
  | @read owner a item e t ha =>
    cases owner with
    | overlay =>
      refine ⟨fun ref hkey => ?_, fun hwrite => nomatch hwrite⟩
      cases hkey
      exact ha
    | frozen => exact absurd rfl (hne a)
  | write ha hb =>
    refine ⟨fun ref hkey => ?_, fun _ ref hitem => ?_⟩
    · cases hkey
      exact ha
    · cases hitem
      exact hb
  | purge => exact ⟨fun _ hkey => (nomatch hkey), fun hwrite => nomatch hwrite⟩

theorem Represents.keyed {cfg : CacheConfig} {s : Containers} {R : List Record}
    (h : Represents cfg s R) : s.Keyed := by
  intro n hn
  obtain ⟨r, hr, rfl⟩ := h.mem_items.mp hn
  exact ⟨r.entryAddr, mem_addrs_of_mem (h.map.mem hr), rfl⟩

namespace Containers

variable {cfg : CacheConfig} {s s' : Containers} {key : Key} {item : CacheItem} {a : Addr}
  {w : Int64}

theorem mem_items_of_getItem {n : Node CacheItem} (hs : s.getItem key w = .ok (some n)) :
    n ∈ s.items := by
  unfold getItem at hs
  split at hs
  · cases hs
  · obtain ⟨it, hit, hs⟩ := Run.bind_eq_ok.mp hs
    split at hs
    · cases hs
    · cases hs
      exact mem_of_get? (deref_eq_ok.mp hit)

/-- Storing an item erases no node, and gives the item the key pointer of its entry. -/
theorem store_grows (h : s.Keyed) (hs : s.store cfg key item w = .ok (a, s')) :
    s'.Keyed ∧ addrs s.itemMap ⊆ addrs s'.itemMap ∧ addrs s.items ⊆ addrs s'.items := by
  obtain ⟨found, -, hs⟩ := Run.bind_eq_ok.mp hs
  cases found with
  | some _ =>
    obtain ⟨n, old, -, -, hold, -, hitems, hmap⟩ := updateItem_ok hs
    have haddrs : addrs s'.itemMap = addrs s.itemMap := by
      rcases hmap with hmap | ⟨b, slot, hmap⟩
      · rw [hmap]
      · rw [hmap, addrs_modify]
    rw [Keyed, haddrs, hitems]
    refine ⟨fun x hx => ?_, List.Subset.refl _, fun i hi => ?_⟩
    · rcases mem_modify.mp (mem_moveFront.mp hx) with ⟨hx, -⟩ | ⟨-, -, -, rfl⟩
      · exact h x hx
      · exact h ⟨a, old⟩ (mem_of_get? hold)
    · rw [← addrs_modify s.items a fun _ => { item with key := old.key }] at hi
      obtain ⟨x, hx, rfl⟩ := mem_addrs.mp hi
      exact mem_addrs_of_mem (mem_moveFront.mpr hx)
  | none =>
    obtain ⟨-, e, -, hitems, hmap⟩ := insertItem_ok hs
    have hentry : e ∈ addrs s'.itemMap ∧ addrs s.itemMap ⊆ addrs s'.itemMap := by
      rcases hmap with ⟨n, hf, rfl, hmap⟩ | ⟨-, -, -, b, slot, hmap⟩
      · rw [hmap]
        exact ⟨mem_addrs_of_mem (List.mem_of_find?_eq_some hf), List.Subset.refl _⟩
      · rw [hmap]
        exact ⟨List.mem_cons_self, List.subset_cons_self _ _⟩
    rw [Keyed, hitems]
    refine ⟨fun x hx => ?_, hentry.2, List.subset_cons_self _ _⟩
    rcases List.mem_cons.mp hx with rfl | hx
    · exact ⟨e, hentry.1, rfl⟩
    · obtain ⟨b, hb, hk⟩ := h x hx
      exact ⟨b, hentry.2 hb, hk⟩

/-- The loop passes over the elements whose key is the one it is called for. -/
theorem evictLoop_of_forall {m available : Int32} {fuel : Nat} {it : Option Addr}
    (hall : ∀ e ∈ s.itemMap, e.val.key = key)
    (hs : evictLoop key m fuel s available it = .ok s') : s' = s := by
  induction fuel generalizing it with
  | zero => cases hs
  | succ fuel ih =>
    unfold evictLoop at hs
    split at hs
    · cases hs
      rfl
    · next n hn =>
      obtain ⟨k, hk, hs⟩ := Run.bind_eq_ok.mp hs
      have hkey : k = key := by
        cases hp : n.val.key with
        | none =>
          rw [hp] at hk
          cases hk
        | some p =>
          rw [hp] at hk
          obtain ⟨e, he, hk⟩ := Run.bind_eq_ok.mp hk
          cases hk
          exact hall _ (mem_of_get? (deref_eq_ok.mp he))
      rw [if_pos hkey] at hs
      exact ih hs

end Containers

/-- With room the eviction of a write leaves the overlay as it is, whatever its state. -/
theorem SnapshotStorage.HasRoom.evictLruData {cfg : CacheConfig} {frozen c : Containers}
    {s : SnapshotStorage} {key : Key} {item : CacheItem} {w : Int64} {m : Int32}
    (h : s.HasRoom cfg frozen key item w)
    (hm : getRequiredMemory (SnapshotStorage.virtuals cfg frozen) s key item w = .ok m)
    (hs : s.toContainers.evictLruData cfg key m = .ok c) : c = s.toContainers := by
  unfold Containers.evictLruData at hs
  dsimp only at hs
  split at hs
  · cases hs
    rfl
  · next hlt =>
    rcases h with ⟨m', hm', hle⟩ | hall
    · cases hm.symm.trans hm'
      exact absurd hle hlt
    · exact Containers.evictLoop_of_forall hall hs

/-- The write of a commit, when it passes its checks, finds room in the overlay. -/
def RoomInOverlay (cfg : CacheConfig) (st : CacheState) : CacheOp → Prop
  | .commitWrite key item writtenAt => rejection cfg key item writtenAt = none →
    st.snapshotStorage.HasRoom cfg st.storage.toContainers key item writtenAt
  | _ => True

instance (cfg : CacheConfig) (st : CacheState) :
    (op : CacheOp) → Decidable (RoomInOverlay cfg st op)
  | .commitWrite key item writtenAt =>
    inferInstanceAs (Decidable (rejection cfg key item writtenAt = none →
      st.snapshotStorage.HasRoom cfg st.storage.toContainers key item writtenAt))
  | .commitRead _ _ => .isTrue trivial
  | .commitPurgeExpired _ => .isTrue trivial
  | .beginSnapshot => .isTrue trivial
  | .endSnapshot => .isTrue trivial

namespace Recording

variable {cfg : CacheConfig} {frozen : Containers} {s s' : SnapshotStorage} {key : Key}
  {item : CacheItem} {w : Int64}

theorem read (h : Recording frozen s) (hfrozen : frozen.Keyed) {b : Bool}
    (hs : s.commitRead frozen key w = .ok (b, s')) : Recording frozen s' := by
  obtain ⟨found, hfound, -, hsame, hevents⟩ := SnapshotStorage.commitRead_eq_ok hs
  refine ⟨hsame ▸ h.keyed, fun event hev => ?_⟩
  rw [hsame]
  rw [hevents] at hev
  rcases List.mem_append.mp hev with hev | hev
  · exact h.events event hev
  obtain ⟨f, hf, rfl⟩ := List.mem_map.mp hev
  obtain rfl := Option.mem_toList.mp hf
  obtain ⟨a, ha, hk⟩ : ∃ a ∈ addrs (f.owner.of s.toContainers frozen).itemMap,
      f.node.val.key = some a := by
    obtain ⟨own, hown, hfound⟩ := Run.bind_eq_ok.mp hfound
    cases own with
    | some n =>
      cases hfound
      exact h.keyed n (Containers.mem_items_of_getItem hown)
    | none =>
      obtain ⟨froz, hfroz, hfound⟩ := Run.bind_eq_ok.mp hfound
      cases froz with
      | none => cases hfound
      | some n =>
        cases hfound
        exact hfrozen n (Containers.mem_items_of_getItem hfroz)
  unfold SnapshotEvent.of
  rw [hk]
  exact .read ha

theorem write (h : Recording frozen s) (hroom : s.HasRoom cfg frozen key item w)
    (hs : writeAccepted (SnapshotStorage.virtuals cfg frozen) s key item w = .ok s') :
    Recording frozen s' := by
  obtain ⟨m, c, -, a, c', hm, hevict, -, hstore, hrecord⟩ :=
    SnapshotStorage.writeAccepted_eq_ok_iff.mp hs
  obtain ⟨stored, hstored, rfl⟩ := SnapshotStorage.recordWrite_eq_ok.mp hrecord
  cases hroom.evictLruData hm hevict
  obtain ⟨hkeyed, hmap, hitems⟩ := Containers.store_grows h.keyed hstore
  refine ⟨hkeyed, fun event hev => ?_⟩
  rcases List.mem_append.mp hev with hev | hev
  · exact (h.events event hev).mono hmap hitems
  · obtain rfl := List.mem_singleton.mp hev
    have hmem : (⟨a, stored⟩ : Node CacheItem) ∈ c'.items := mem_of_get? (deref_eq_ok.mp hstored)
    obtain ⟨p, hp, hk⟩ := hkeyed _ hmem
    have hk : stored.key = some p := hk
    unfold SnapshotEvent.of
    rw [hk]
    exact .write hp (mem_addrs_of_mem hmem)

/-- The commits of a snapshot keep the events and the nodes they point to. -/
theorem step {st st' : CacheState} {op : CacheOp} {a : Option Bool}
    (h : Recording st.storage.toContainers st.snapshotStorage)
    (hfrozen : st.storage.toContainers.Keyed) (hp : st.snapshotInProgress = true)
    (hop : op.isCommit = true) (hroom : RoomInOverlay cfg st op)
    (hs : st.step cfg op = .ok (a, st')) :
    st'.snapshotInProgress = true ∧ st'.storage = st.storage ∧
      Recording st'.storage.toContainers st'.snapshotStorage := by
  have hstep := CacheState.step_snapshot hp hop hs
  refine ⟨hstep.inProgress_eq.trans hp, hstep.storage_eq, ?_⟩
  rw [hstep.storage_eq]
  cases hstep with
  | read hread => exact h.read hfrozen hread
  | @write key item w _ _ hwrite =>
    obtain ⟨code, -, -, rfl⟩ | ⟨hrej, -, t, ht, rfl⟩ := LruCache.commitWrite_eq_ok.mp hwrite
    · exact ⟨h.keyed, h.events⟩
    · exact ⟨(h.write (hroom hrej) ht).keyed, (h.write (hroom hrej) ht).events⟩
  | purge =>
    refine ⟨h.keyed, fun event hev => ?_⟩
    rcases List.mem_append.mp hev with hev | hev
    · exact h.events event hev
    · obtain rfl := List.mem_singleton.mp hev
      exact .purge

/-- During a snapshot whose writes find room, the pointers of the events stay live as long as the
frozen storage is not touched. -/
theorem of_run {st st' : CacheState} {cs : List CacheOp} {answers : List (Option Bool)}
    (hclean : st.snapshotStorage.Clean) (hfrozen : st.storage.toContainers.Keyed)
    (hcs : ∀ op ∈ cs, op.isCommit = true)
    (hroom : Run.Along (CacheState.step cfg) (RoomInOverlay cfg) st.beginSnapshot cs)
    (hrun : CacheState.run cfg st.beginSnapshot cs = .ok (answers, st')) :
    st'.storage = st.storage ∧ Recording st.storage.toContainers st'.snapshotStorage := by
  have hnew : Recording st.storage.toContainers st.snapshotStorage := by
    constructor
    · rw [hclean.1]
      exact fun n hn => nomatch hn
    · rw [hclean.2]
      exact fun event hev => nomatch hev
  obtain ⟨-, hstorage, h⟩ := Run.run_invariant
    (I := fun u => u.snapshotInProgress = true ∧ u.storage = st.storage ∧
      Recording st.storage.toContainers u.snapshotStorage)
    (fun u op a u' ⟨hp, hst, hu⟩ hC hs => by
      rw [← hst] at hu hfrozen
      obtain ⟨hp', hst', hu'⟩ := hu.step hfrozen hp hC.2 hC.1 hs
      exact ⟨hp', hst'.trans hst, hst ▸ hst' ▸ hu'⟩)
    ⟨rfl, rfl, hnew⟩ (hroom.and_forall hcs) hrun
  exact ⟨hstorage, h⟩

end Recording

/-! ## Entries over time

Addresses are not reused, so an entry at an address that was allocated before is the entry that was
there before, with the same key. -/

/-- The entries of `s'` are entries of `s`, or new. -/
structure Descends (s s' : Containers) : Prop where
  le : s.nextAddr ≤ s'.nextAddr
  entries : ∀ e ∈ s'.itemMap, e.addr < s.nextAddr →
    ∃ o ∈ s.itemMap, o.addr = e.addr ∧ o.val.key = e.val.key

namespace Descends

variable {cfg : CacheConfig} {s s' s'' : Containers} {key : Key} {item : CacheItem} {w : Int64}

theorem refl (s : Containers) : Descends s s :=
  ⟨Nat.le_refl _, fun e he _ => ⟨e, he, rfl, rfl⟩⟩

theorem trans (h : Descends s s') (h' : Descends s' s'') : Descends s s'' := by
  refine ⟨Nat.le_trans h.le h'.le, fun e he hlt => ?_⟩
  obtain ⟨o, ho, ha, hk⟩ := h'.entries e he (Nat.lt_of_lt_of_le hlt h.le)
  obtain ⟨p, hp, hpa, hpk⟩ := h.entries o ho (ha ▸ hlt)
  exact ⟨p, hp, hpa.trans ha, hpk.trans hk⟩

/-- An erased entry stays erased. -/
theorem not_mem (h : Descends s s') {a : Addr} (hlt : a < s.nextAddr) (ha : a ∉ addrs s.itemMap) :
    a < s'.nextAddr ∧ a ∉ addrs s'.itemMap := by
  refine ⟨Nat.lt_of_lt_of_le hlt h.le, fun ha' => ha ?_⟩
  obtain ⟨e, he, rfl⟩ := mem_addrs.mp ha'
  obtain ⟨o, ho, hoa, -⟩ := h.entries e he hlt
  exact hoa ▸ mem_addrs_of_mem ho

theorem removeItem {it : Option Addr} (h : Descends s s')
    (hs : s'.removeItem key = .ok (it, s'')) : Descends s s'' := by
  obtain rfl | ⟨n, -, -, hmap, hnext⟩ := Containers.removeItem_ok hs
  · exact h
  · refine h.trans ⟨Nat.le_of_eq hnext.symm, fun e he _ => ?_⟩
    rw [hmap] at he
    exact ⟨e, (mem_erase.mp he).1, rfl, rfl⟩

theorem store {a : Addr} (hs : s.store cfg key item w = .ok (a, s')) : Descends s s' := by
  obtain ⟨found, -, hs⟩ := Run.bind_eq_ok.mp hs
  cases found with
  | some _ =>
    obtain ⟨n, old, -, -, -, hle, -, hmap⟩ := Containers.updateItem_ok hs
    refine ⟨hle, fun e he _ => ?_⟩
    rcases hmap with hmap | ⟨b, slot, hmap⟩
    · exact ⟨e, hmap ▸ he, rfl, rfl⟩
    · rw [hmap] at he
      rcases mem_modify.mp he with ⟨he, -⟩ | ⟨o, ho, ha, rfl⟩
      · exact ⟨e, he, rfl, rfl⟩
      · exact ⟨o, ho, ha, rfl⟩
  | none =>
    obtain ⟨-, p, hlt, -, hmap⟩ := Containers.insertItem_ok hs
    refine ⟨Nat.le_of_lt hlt, fun e he hold => ?_⟩
    rcases hmap with ⟨n, -, -, hmap⟩ | ⟨-, hp, -, b, slot, hmap⟩
    · exact ⟨e, hmap ▸ he, rfl, rfl⟩
    · rw [hmap] at he
      rcases List.mem_cons.mp he with rfl | he
      · exact absurd hold (Nat.not_lt.mpr (Nat.le_of_lt hp))
      · exact ⟨e, he, rfl, rfl⟩

theorem markAsRecentlyUsed (h : Descends s s') (key : Key) :
    Descends s (s'.markAsRecentlyUsed key) := by
  unfold Containers.markAsRecentlyUsed
  split
  · exact h
  · exact ⟨h.le, h.entries⟩

theorem step {s s' : CacheStorage} {op : StorageOp} {a : Option Bool}
    (hs : s.step cfg op = .ok (a, s')) : Descends s.toContainers s'.toContainers :=
  CacheStorage.step_induct (I := Descends s.toContainers) (fun h => h.markAsRecentlyUsed _)
    removeItem (fun _ _ h hstore => h.trans (store hstore))
    (fun h => ⟨h.le, fun _ he => nomatch he⟩)
    (refl _) hs

end Descends

/-! ## The replay -/

/-- The commits that the events stand for, their pointers followed before the replay begins. -/
def recordedOps (overlay frozen : Containers) (events : List SnapshotEvent) : List StorageOp :=
  events.filterMap fun event => (eventOp overlay frozen event).toOption

theorem recordedOps_snoc {overlay frozen : Containers} {events : List SnapshotEvent}
    {event : SnapshotEvent} {op : StorageOp} (h : eventOp overlay frozen event = .ok op) :
    recordedOps overlay frozen (events ++ [event]) = recordedOps overlay frozen events ++ [op] := by
  unfold recordedOps
  rw [List.filterMap_append, List.filterMap_cons, h]
  rfl

/-- Before the replay begins, every event stands for a commit. -/
theorem Recorded.eventOp_ok {overlay frozen : Containers} {event : SnapshotEvent}
    (h : Recorded overlay frozen event) : ∃ op, eventOp overlay frozen event = .ok op := by
  have hderef : ∀ {α : Type} {l : List (Node α)} {a : Addr}, a ∈ addrs l →
      ∃ v, deref l a = .ok v := by
    intro α l a ha
    obtain ⟨v, hv⟩ := Option.isSome_iff_exists.mp (get?_isSome_iff.mpr ha)
    exact ⟨v, deref_eq_ok.mpr hv⟩
  have hkey : ∀ {c : Containers} {a : Addr}, a ∈ addrs c.itemMap →
      ∃ k, c.derefKey (some a) = .ok k := by
    intro c a ha
    obtain ⟨e, he⟩ := hderef ha
    exact ⟨e.key, Run.bind_eq_ok.mpr ⟨e, he, rfl⟩⟩
  cases h with
  | @read owner a item e t ha =>
    obtain ⟨k, hk⟩ := hkey ha
    refine ⟨_, Run.bind_eq_ok.mpr ⟨k, ?_, rfl⟩⟩
    cases owner <;> exact hk
  | write ha hb =>
    obtain ⟨k, hk⟩ := hkey ha
    obtain ⟨it, hit⟩ := hderef hb
    exact ⟨_, Run.bind_eq_ok.mpr ⟨k, hk, Run.bind_eq_ok.mpr ⟨it, hit, rfl⟩⟩⟩
  | purge => exact ⟨_, rfl⟩

/-- A write, when it passes its checks, names a key that is not in the contents or that is
unexpired there. -/
def Contents.Safe (cfg : CacheConfig) (l : List Entry) : StorageOp → Prop
  | .commitWrite key item writtenAt => rejection cfg key item writtenAt = none →
    ∀ e ∈ l, e.key = key → e.isExpired writtenAt = false
  | _ => True

instance (cfg : CacheConfig) (l : List Entry) :
    (op : StorageOp) → Decidable (Contents.Safe cfg l op)
  | .commitWrite key item writtenAt =>
    inferInstanceAs (Decidable (rejection cfg key item writtenAt = none →
      ∀ e ∈ l, e.key = key → e.isExpired writtenAt = false))
  | .commitRead _ _ => .isTrue trivial
  | .commitPurge _ => .isTrue trivial
  | .evictLruData _ _ => .isTrue trivial
  | .clear => .isTrue trivial

/-- The key is in the contents at first and after each of the operations. -/
def Kept (cfg : CacheConfig) (l : List Entry) (ops : List StorageOp) (k : Key) : Prop :=
  Run.Throughout (Contents.step cfg) (fun l => k ∈ l.map Entry.key) l ops

instance (cfg : CacheConfig) (l : List Entry) (ops : List StorageOp) (k : Key) :
    Decidable (Kept cfg l ops k) := Run.decidableThroughout _ _ _ _

/-- After `ops` on the records `R₀`: the contents are those of the operations on the contents, and
an entry of `R₀` is live exactly when its key was kept. -/
structure Tracks (cfg : CacheConfig) (R₀ : List Record) (ops : List StorageOp) (s : Containers)
    (R : List Record) : Prop where
  represents : Represents cfg s R
  contents : R.map Record.entry = (Run.exec (Contents.step cfg) (R₀.map Record.entry) ops).2
  kept : ∀ r ∈ R₀, Kept cfg (R₀.map Record.entry) ops r.key →
    ∃ x ∈ R, x.key = r.key ∧ x.entryAddr = r.entryAddr
  gone : ∀ r ∈ R₀, ¬ Kept cfg (R₀.map Record.entry) ops r.key →
    r.entryAddr < s.nextAddr ∧ r.entryAddr ∉ addrs s.itemMap

namespace Tracks

variable {cfg : CacheConfig} {R₀ R : List Record} {ops : List StorageOp}

theorem nil {s : Containers} (h : Represents cfg s R₀) : Tracks cfg R₀ [] s R₀ where
  represents := h
  contents := rfl
  kept := fun r hr _ => ⟨r, hr, rfl, rfl⟩
  gone := by
    intro r hr hk
    refine absurd ?_ hk
    show r.key ∈ (R₀.map Record.entry).map Entry.key
    rw [List.map_map]
    exact List.mem_map_of_mem hr

/-- The pointer to an entry of `R₀` is live exactly when its key was kept. -/
theorem live_iff {s : Containers} (h : Tracks cfg R₀ ops s R) {r : Record} (hr : r ∈ R₀) :
    r.entryAddr ∈ addrs s.itemMap ↔ Kept cfg (R₀.map Record.entry) ops r.key := by
  constructor
  · intro ha
    by_contra hk
    exact (h.gone r hr hk).2 ha
  · intro hk
    obtain ⟨x, hx, -, ha⟩ := h.kept r hr hk
    rw [← ha]
    exact mem_addrs_of_mem (h.represents.map.mem hx)

theorem safe {s : CacheStorage} (h : Tracks cfg R₀ ops s.toContainers R) {op : StorageOp}
    (hop : Contents.Safe cfg
      (Run.exec (Contents.step cfg) (R₀.map Record.entry) ops).2 op) : op.Safe cfg s := by
  cases op with
  | commitWrite key item w =>
    intro hrej
    refine h.represents.writable_iff.mpr fun r hr hk => ?_
    rw [← h.contents] at hop
    exact hop hrej r.entry (List.mem_map_of_mem hr) hk
  | commitRead key t => trivial
  | commitPurge t => trivial
  | evictLruData key m => trivial
  | clear => trivial

theorem step {s s' : CacheStorage} (h : Tracks cfg R₀ ops s.toContainers R)
    (hi : cfg.purgeInterval ≠ 0) {op : StorageOp} {a : Option Bool}
    (hop : Contents.Safe cfg
      (Run.exec (Contents.step cfg) (R₀.map Record.entry) ops).2 op)
    (hs : s.step cfg op = .ok (a, s')) : ∃ R', Tracks cfg R₀ (ops ++ [op]) s'.toContainers R' := by
  have hdesc := Descends.step hs
  obtain ⟨b, u, R', hstep, h', hcontents, haddr⟩ := h.represents.step hi (h.safe hop)
  cases hstep.symm.trans hs
  have hexec : R'.map Record.entry =
      (Run.exec (Contents.step cfg) (R₀.map Record.entry) (ops ++ [op])).2 := by
    rw [Run.exec_snoc, ← h.contents, hcontents]
  have hmem : ∀ k, k ∈ (Contents.step cfg
      (Run.exec (Contents.step cfg) (R₀.map Record.entry) ops).2 op).2.map Entry.key ↔
      k ∈ R'.map Record.key := by
    intro k
    rw [← Run.exec_snoc, ← hexec, List.map_map]
    rfl
  refine ⟨R', h', hexec, fun r hr hk => ?_, fun r hr hk => ?_⟩
  · obtain ⟨hk, hlast⟩ := Run.throughout_snoc.mp hk
    obtain ⟨x, hx, hxk, hxa⟩ := h.kept r hr hk
    obtain ⟨y, hy, hyk⟩ := List.mem_map.mp ((hmem r.key).mp hlast)
    exact ⟨y, hy, hyk, (haddr y hy x hx (hxk.trans hyk.symm)).trans hxa⟩
  · by_cases hbefore : Kept cfg (R₀.map Record.entry) ops r.key
    · -- the key was dropped by this step, and its entry with it
      have hdropped : r.key ∉ R'.map Record.key := fun hm =>
        hk (Run.throughout_snoc.mpr ⟨hbefore, (hmem r.key).mpr hm⟩)
      obtain ⟨x, hx, hxk, hxa⟩ := h.kept r hr hbefore
      have hlt : r.entryAddr < s.nextAddr := hxa ▸ (h.represents.fresh x hx).1
      refine ⟨Nat.lt_of_lt_of_le hlt hdesc.le, fun ha => hdropped ?_⟩
      obtain ⟨e, he, hea⟩ := mem_addrs.mp ha
      obtain ⟨o, ho, hoa, hok⟩ := hdesc.entries e he (hea ▸ hlt)
      obtain rfl := eq_of_addr_eq h.represents.map.nodup ho (h.represents.map.mem hx)
        (hoa.trans (hea.trans hxa.symm))
      obtain ⟨y, hy, rfl⟩ := (h'.map.entries e).mp he
      exact List.mem_map.mpr ⟨y, hy, hok.symm.trans hxk⟩
    · obtain ⟨hlt, ha⟩ := h.gone r hr hbefore
      exact hdesc.not_mem hlt ha

/-- An event that the replay reaches with live pointers is the commit that was recorded. -/
theorem eventOp_eq {overlay frozen s : Containers} {event : SnapshotEvent} {op : StorageOp}
    (hR : Represents cfg frozen R₀) (h : Tracks cfg R₀ ops s R)
    (hrec : Recorded overlay frozen event) (hop : eventOp overlay s event = .ok op) :
    eventOp overlay frozen event = .ok op := by
  cases hrec with
  | write ha hb => exact hop
  | purge => exact hop
  | @read owner a item e t ha =>
    cases owner with
    | overlay => exact hop
    | frozen =>
      obtain ⟨k, hk, hop⟩ := Run.bind_eq_ok.mp hop
      obtain ⟨n, hn, rfl⟩ := mem_addrs.mp ha
      obtain ⟨r, hr, rfl⟩ := (hR.map.entries n).mp hn
      have hk : s.derefKey (some r.entryAddr) = .ok k := hk
      obtain ⟨x, hx, hxa, rfl⟩ := h.represents.derefKey_eq_ok hk
      have hxa : r.entryAddr = x.entryAddr := Option.some.inj hxa
      have hkept := (h.live_iff hr).mp (hxa ▸ mem_addrs_of_mem (h.represents.map.mem hx))
      obtain ⟨y, hy, hyk, hya⟩ := h.kept r hr hkept
      have hxy := List.inj_on_of_nodup_map h.represents.entries_nodup hy hx (hya.trans hxa)
      refine Run.bind_eq_ok.mpr ⟨x.key, ?_, hop⟩
      rw [← hxy, hyk]
      exact hR.derefKey hr

/-- The replay follows the recorded commits. -/
theorem replay {overlay : Containers} {frozen s : CacheStorage} {events : List SnapshotEvent}
    (hR : Represents cfg frozen.toContainers R₀) (hi : cfg.purgeInterval ≠ 0)
    (hrec : ∀ event ∈ events, Recorded overlay frozen.toContainers event)
    (hsafe : Run.Steps (Contents.step cfg) (Contents.Safe cfg) (R₀.map Record.entry)
      (recordedOps overlay frozen.toContainers events))
    (hs : LruCache.replay cfg overlay frozen events = .ok s) :
    ∃ R, Tracks cfg R₀ (recordedOps overlay frozen.toContainers events) s.toContainers R := by
  induction events using List.reverseRecOn generalizing s with
  | nil =>
    cases hs
    exact ⟨R₀, .nil hR⟩
  | append_singleton events event ih =>
    unfold LruCache.replay at hs
    rw [List.foldlM_append] at hs
    obtain ⟨s₁, hs₁, hs⟩ := Run.bind_eq_ok.mp hs
    rw [List.foldlM_cons] at hs
    obtain ⟨s₂, hevent, hs⟩ := Run.bind_eq_ok.mp hs
    cases hs
    rw [replayEvent_eq] at hevent
    obtain ⟨op, hop, hevent⟩ := Run.bind_eq_ok.mp hevent
    obtain ⟨⟨a, s₃⟩, hstep, hs₂⟩ := Run.bind_eq_ok.mp hevent
    cases hs₂
    obtain ⟨o, ho⟩ := (hrec event (by simp)).eventOp_ok
    rw [recordedOps_snoc ho] at hsafe ⊢
    obtain ⟨hsafe₁, hlast⟩ := Run.steps_snoc.mp hsafe
    obtain ⟨R, hR₁⟩ := ih (fun e he => hrec e (List.mem_append_left _ he)) hsafe₁ hs₁
    cases ho.symm.trans (hR₁.eventOp_eq hR (hrec event (by simp)) hop)
    exact hR₁.step hi hlast hstep

end Tracks

/-- During a snapshot of a storage with the representation invariant, as long as the writes find
room in the overlay: when the replay reaches an event, after commits that are safe for the contents,
the pointers of the event are live exactly when it takes its key from the overlay, or the frozen
storage's key has been kept since `begin_snapshot`. -/
theorem replay_handles_live_iff {cfg : CacheConfig} {ops₀ cs : List CacheOp}
    {answers₀ answers : List (Option Bool)} {st st' : CacheState} {l : List Entry}
    (hreach : CacheState.run cfg .new ops₀ = .ok (answers₀, st))
    (hout : st.snapshotInProgress = false) (hinv : RepInv cfg st.storage.toContainers)
    (hl : st.storage.entries = .ok l) (hcs : ∀ op ∈ cs, op.isCommit = true)
    (hsnap : CacheState.run cfg st.beginSnapshot cs = .ok (answers, st'))
    (hroom : Run.Along (CacheState.step cfg) (RoomInOverlay cfg) st.beginSnapshot cs)
    {before after : List SnapshotEvent} {event : SnapshotEvent}
    (hevents : st'.snapshotStorage.events = before ++ event :: after)
    (hsafe : Run.Steps (Contents.step cfg) (Contents.Safe cfg) l
      (recordedOps st'.snapshotStorage.toContainers st.storage.toContainers before))
    {s : CacheStorage}
    (hreplay : replay cfg st'.snapshotStorage.toContainers st'.storage before = .ok s) :
    HandlesLive st'.snapshotStorage.toContainers s.toContainers event ↔
      ∀ a k, event.key = some ⟨.frozen, a⟩ → st.storage.derefKey (some a) = .ok k →
        Kept cfg l
          (recordedOps st'.snapshotStorage.toContainers st.storage.toContainers before) k := by
  obtain ⟨R₀, hR⟩ := hinv.represents
  cases hR.entries.symm.trans hl
  obtain ⟨hstorage, hrec⟩ :=
    Recording.of_run (CacheState.clean_of_run hreach hout) hR.keyed hcs hroom
    hsnap
  rw [hstorage] at hreplay
  have hbefore : ∀ e ∈ before,
      Recorded st'.snapshotStorage.toContainers st.storage.toContainers e :=
    fun e he => hrec.events e (hevents ▸ List.mem_append_left _ he)
  have hevent := hrec.events event (by simp [hevents])
  by_cases hfrozen : ∃ a, event.key = some ⟨.frozen, a⟩
  · obtain ⟨a, hkey⟩ := hfrozen
    obtain ⟨hread, ha⟩ := hevent.of_frozen hkey
    obtain ⟨n, hn, rfl⟩ := mem_addrs.mp ha
    obtain ⟨r, hr, rfl⟩ := (hR.map.entries n).mp hn
    obtain ⟨b, -, -, ht⟩ := hR.buckets.bucket r hr
    obtain ⟨R, htracks⟩ := Tracks.replay hR (nextPurgeTime_eq_ok.mp ht).1 hbefore hsafe hreplay
    have hlive := htracks.live_iff hr
    constructor
    · intro h a k hkey' hk
      cases hkey.symm.trans hkey'
      cases (hR.derefKey hr).symm.trans hk
      exact hlive.mp (h.key _ hkey)
    · intro h
      refine ⟨fun ref hkey' => ?_, fun hwrite => ?_⟩
      · cases hkey.symm.trans hkey'
        exact hlive.mpr (h _ _ hkey (hR.derefKey hr))
      · rw [hread] at hwrite
        cases hwrite
  · have hne : ∀ a, event.key ≠ some ⟨.frozen, a⟩ := fun a hkey => hfrozen ⟨a, hkey⟩
    exact ⟨fun _ a _ hkey => absurd hkey (hne a), fun _ => hevent.live_of_overlay hne⟩

namespace Sample

/-- During a snapshot key 2 is written and key 1 read. -/
def readAfterWrite (item : CacheItem) : List CacheOp :=
  [.commitWrite (key 2) item 110, .commitRead (key 1) 120]

/-- The event of that write, in an empty overlay. -/
def writeEvent (expiresAt : Int64) : SnapshotEvent :=
  ⟨.write, some ⟨.overlay, 3⟩, some ⟨.overlay, 0⟩, expiresAt, 110⟩

/-- The event of that read, when the frozen storage holds one item. -/
def readEvent : SnapshotEvent := ⟨.read, some ⟨.frozen, 3⟩, some ⟨.frozen, 0⟩, 0, 120⟩

end Sample

/-- The replayed write of key 2 leaves key 1 in the storage, so the read still finds its entry. -/
theorem replay_handles_live_sample :
    ∃ answers₀ answers st st' s, CacheState.run Sample.config .new
        [.commitWrite (Sample.key 1) (Sample.item 3 (by decide) 500) 100] = .ok (answers₀, st) ∧
      CacheState.run Sample.config st.beginSnapshot
        (Sample.readAfterWrite (Sample.item 4 (by decide) 600)) = .ok (answers, st') ∧
      st'.snapshotStorage.events = [Sample.writeEvent 600, Sample.readEvent] ∧
      replay Sample.config st'.snapshotStorage.toContainers st'.storage [Sample.writeEvent 600] =
        .ok s ∧
      HandlesLive st'.snapshotStorage.toContainers s.toContainers Sample.readEvent := by
  have hinv : ∃ answers s, CacheStorage.run Sample.config .new
      [.commitWrite (Sample.key 1) (Sample.item 3 (by decide) 500) 100] = .ok (answers, s) ∧
      ∃ R, Represents Sample.config s.toContainers R :=
    Represents.of_safeRun (by decide) (by decide +kernel)
  obtain ⟨_, s₀, hs₀, R, hR⟩ := hinv
  have h : (do
      let (_, s₀) ← CacheStorage.run Sample.config .new
        [.commitWrite (Sample.key 1) (Sample.item 3 (by decide) 500) 100]
      let (_, st) ← CacheState.run Sample.config .new
        [.commitWrite (Sample.key 1) (Sample.item 3 (by decide) 500) 100]
      let l ← st.storage.entries
      let (_, st') ← CacheState.run Sample.config st.beginSnapshot
        (Sample.readAfterWrite (Sample.item 4 (by decide) 600))
      let _ ← replay Sample.config st'.snapshotStorage.toContainers st'.storage
        [Sample.writeEvent 600]
      return decide (st.snapshotInProgress = false ∧ s₀.toContainers = st.storage.toContainers ∧
        st'.snapshotStorage.events = [Sample.writeEvent 600, Sample.readEvent] ∧
        st.storage.derefKey (some 3) = Except.ok (Sample.key 1) ∧
        Run.Along (CacheState.step Sample.config) (RoomInOverlay Sample.config) st.beginSnapshot
          (Sample.readAfterWrite (Sample.item 4 (by decide) 600)) ∧
        Run.Steps (Contents.step Sample.config) (Contents.Safe Sample.config) l
          (recordedOps st'.snapshotStorage.toContainers st.storage.toContainers
            [Sample.writeEvent 600]) ∧
        Kept Sample.config l (recordedOps st'.snapshotStorage.toContainers
          st.storage.toContainers [Sample.writeEvent 600]) (Sample.key 1))) = .ok true := by
    decide +kernel
  obtain ⟨⟨_, t₀⟩, ht₀, h⟩ := Run.bind_eq_ok.mp h
  cases hs₀.symm.trans ht₀
  obtain ⟨⟨answers₀, st⟩, hreach, h⟩ := Run.bind_eq_ok.mp h
  obtain ⟨l, hl, h⟩ := Run.bind_eq_ok.mp h
  obtain ⟨⟨answers, st'⟩, hsnap, h⟩ := Run.bind_eq_ok.mp h
  obtain ⟨s, hreplay, h⟩ := Run.bind_eq_ok.mp h
  obtain ⟨hout, hsame, hevents, hkey, hroom, hsafe, hkept⟩ := of_decide_eq_true (Except.ok.inj h)
  refine ⟨answers₀, answers, st, st', s, hreach, hsnap, hevents, hreplay, ?_⟩
  have hsplit : st'.snapshotStorage.events =
      [Sample.writeEvent 600] ++ Sample.readEvent :: [] := hevents
  refine (replay_handles_live_iff hreach hout (hsame ▸ hR.repInv) hl (by decide) hsnap hroom hsplit
    hsafe hreplay).mpr fun a k ha hk => ?_
  cases ha
  cases hkey.symm.trans hk
  exact hkept

/-- The storage holds 549 bytes of key 1. The replayed write of 500 bytes under key 2 evicts it, and
the read, replayed next, follows a pointer to the erased entry. -/
theorem replay_erases_read_key :
    ∃ answers₀ answers st st' s, CacheState.run Sample.config .new
        [.commitWrite (Sample.key 1) (Sample.item 500 (by decide) 500) 100] = .ok (answers₀, st) ∧
      st.snapshotInProgress = false ∧
      CacheState.run Sample.config st.beginSnapshot
        (Sample.readAfterWrite (Sample.item 500 (by decide) 500)) = .ok (answers, st') ∧
      st'.snapshotStorage.events = [Sample.writeEvent 500, Sample.readEvent] ∧
      replay Sample.config st'.snapshotStorage.toContainers st'.storage [Sample.writeEvent 500] =
        .ok s ∧
      ¬ HandlesLive st'.snapshotStorage.toContainers s.toContainers Sample.readEvent ∧
      st'.endSnapshot Sample.config = .error .dangling := by
  have h : (do
      let (_, st) ← CacheState.run Sample.config .new
        [.commitWrite (Sample.key 1) (Sample.item 500 (by decide) 500) 100]
      let (_, st') ← CacheState.run Sample.config st.beginSnapshot
        (Sample.readAfterWrite (Sample.item 500 (by decide) 500))
      let s ← replay Sample.config st'.snapshotStorage.toContainers st'.storage
        [Sample.writeEvent 500]
      return (st.snapshotInProgress, st'.snapshotStorage.events, decide (3 ∈ addrs s.itemMap),
        st'.endSnapshot Sample.config)) =
      .ok (false, [Sample.writeEvent 500, Sample.readEvent], false, .error .dangling) := by
    decide +kernel
  obtain ⟨⟨answers₀, st⟩, hreach, h⟩ := Run.bind_eq_ok.mp h
  obtain ⟨⟨answers, st'⟩, hsnap, h⟩ := Run.bind_eq_ok.mp h
  obtain ⟨s, hreplay, h⟩ := Run.bind_eq_ok.mp h
  obtain ⟨hout, h⟩ := Prod.mk.inj (Except.ok.inj h)
  obtain ⟨hevents, h⟩ := Prod.mk.inj h
  obtain ⟨hgone, hend⟩ := Prod.mk.inj h
  refine ⟨answers₀, answers, st, st', s, hreach, hout, hsnap, hevents, hreplay,
    fun hlive => ?_, hend⟩
  exact of_decide_eq_false hgone (hlive.key _ rfl)

end LruCache
