import LruCache.RepInv
import LruCache.Transparency

/-!
# Rejected commits

`get_commit_code` documents why a commit fails: a key above `max_key_size`, data above
`max_item_size`, an expiry that is not after the commit, a key that is not found. The check of the
data size compares an unsigned number with zero, so it never fails, and `max_item_size` is not
enforced. A commit that is rejected leaves no trace in either storage.
-/

namespace LruCache

open NodeList

/-- The rejection of a write that the documentation gives. -/
def documentedRejection (cfg : CacheConfig) (key : Key) (item : CacheItem) (writtenAt : Int64) :
    Option CommitResult :=
  if key.size > cfg.maxKeySize then some .keyTooBig
  else if item.dataSize > cfg.maxItemSize then some .dataTooBig
  else if item.isExpired writtenAt then some .wrongExpiry
  else none

/-- The answer and the commit code of a write with this rejection. -/
def writeOutcome : Option CommitResult → Bool × Option CommitResult
  | some code => (false, some code)
  | none => (true, some .doneOk)

/-- The answer and the commit code of a read whose lookup gives `found`. -/
def readOutcome {α : Type} : Option α → Bool × Option CommitResult
  | some _ => (true, some .doneOk)
  | none => (false, some .notFound)

/-- The key is too big, or the data is not. -/
def SizeChecked (cfg : CacheConfig) (key : Key) (item : CacheItem) : Prop :=
  key.size > cfg.maxKeySize ∨ item.dataSize ≤ cfg.maxItemSize

instance (cfg : CacheConfig) (key : Key) (item : CacheItem) :
    Decidable (SizeChecked cfg key item) :=
  inferInstanceAs (Decidable (_ ∨ _))

theorem rejection_eq (cfg : CacheConfig) (key : Key) (item : CacheItem) (w : Int64) :
    rejection cfg key item w = if key.size > cfg.maxKeySize then some .keyTooBig
      else if item.isExpired w then some .wrongExpiry else none := by
  have hdata : ¬ item.dataSize < 0 := by
    rw [UInt64.lt_iff_toNat_lt]
    exact Nat.not_lt_zero _
  unfold rejection
  rw [if_neg hdata]

/-- The outcome is the documented one exactly when no check on the data size was due. -/
theorem writeOutcome_eq_iff {cfg : CacheConfig} {key : Key} {item : CacheItem} {w : Int64} :
    writeOutcome (rejection cfg key item w) = writeOutcome (documentedRejection cfg key item w) ↔
      SizeChecked cfg key item := by
  rw [rejection_eq]
  unfold documentedRejection SizeChecked
  by_cases hkey : key.size > cfg.maxKeySize
  · rw [if_pos hkey, if_pos hkey]
    exact ⟨fun _ => .inl hkey, fun _ => rfl⟩
  rw [if_neg hkey, if_neg hkey]
  by_cases hdata : item.dataSize > cfg.maxItemSize
  · rw [if_pos hdata]
    refine ⟨fun h => ?_, fun h => absurd (h.resolve_left hkey) (UInt64.not_le.mpr hdata)⟩
    split at h <;> cases h
  · rw [if_neg hdata]
    exact ⟨fun _ => .inr (UInt64.not_lt.mp hdata), fun _ => rfl⟩

theorem dataSize_le_of_rejection_eq_none {cfg : CacheConfig} {key : Key} {item : CacheItem}
    {w : Int64} (h : SizeChecked cfg key item) (hrej : rejection cfg key item w = none) :
    item.dataSize ≤ cfg.maxItemSize := by
  refine h.resolve_left fun hkey => ?_
  rw [rejection_eq, if_pos hkey] at hrej
  cases hrej

/-! ## The two storages -/

section Storages

variable {cfg : CacheConfig} {frozen : Containers} {key : Key} {item : CacheItem} {w : Int64}
  {b : Bool}

theorem CacheStorage.commitWrite_outcome {s s' : CacheStorage}
    (hs : s.commitWrite cfg key item w = .ok (b, s')) :
    (b, s'.commitCode) = writeOutcome (rejection cfg key item w) ∧
      (b = false → s'.toContainers = s.toContainers) := by
  obtain ⟨code, hrej, rfl, rfl⟩ | ⟨hrej, rfl, t, -, rfl⟩ := CacheStorage.commitWrite_eq_ok.mp hs
  · rw [hrej]
    exact ⟨rfl, fun _ => rfl⟩
  · rw [hrej]
    exact ⟨rfl, fun hb => nomatch hb⟩

theorem SnapshotStorage.commitWrite_outcome {s s' : SnapshotStorage}
    (hs : s.commitWrite cfg frozen key item w = .ok (b, s')) :
    (b, s'.commitCode) = writeOutcome (rejection cfg key item w) ∧
      (b = false → s'.toContainers = s.toContainers ∧ s'.events = s.events) := by
  obtain ⟨code, hrej, rfl, rfl⟩ | ⟨hrej, rfl, t, -, rfl⟩ := LruCache.commitWrite_eq_ok.mp hs
  · rw [hrej]
    exact ⟨rfl, fun _ => ⟨rfl, rfl⟩⟩
  · rw [hrej]
    exact ⟨rfl, fun hb => nomatch hb⟩

theorem CacheStorage.commitRead_outcome {s s' : CacheStorage}
    (hs : s.commitRead key w = .ok (b, s')) :
    ∃ found, s.toContainers.getItem key w = .ok found ∧
      (b, s'.commitCode) = readOutcome found ∧ (b = false → s'.toContainers = s.toContainers) := by
  obtain ⟨found, hfound, hs⟩ := Run.bind_eq_ok.mp hs
  refine ⟨found, hfound, ?_⟩
  cases found with
  | none =>
    cases hs
    exact ⟨rfl, fun _ => rfl⟩
  | some n =>
    cases hs
    exact ⟨rfl, fun hb => nomatch hb⟩

theorem SnapshotStorage.commitRead_outcome {s s' : SnapshotStorage}
    (hs : s.commitRead frozen key w = .ok (b, s')) :
    ∃ found, s.getItem frozen key w = .ok found ∧ (b, s'.commitCode) = readOutcome found ∧
      (b = false → s'.toContainers = s.toContainers ∧ s'.events = s.events) := by
  obtain ⟨found, hfound, hs⟩ := Run.bind_eq_ok.mp hs
  refine ⟨found, hfound, ?_⟩
  cases found with
  | none =>
    cases hs
    exact ⟨rfl, fun _ => ⟨rfl, rfl⟩⟩
  | some f =>
    cases hs
    exact ⟨rfl, fun hb => nomatch hb⟩

/-- Both commits return in every state with the invariant. -/
theorem RepInv.commits_return {s : CacheStorage} (h : RepInv cfg s.toContainers)
    (hi : cfg.purgeInterval ≠ 0) (key : Key) (item : CacheItem) (w : Int64) :
    (∃ b s', s.commitWrite cfg key item w = .ok (b, s')) ∧
      ∃ b s', s.commitRead key w = .ok (b, s') := by
  obtain ⟨R, hR⟩ := h.represents
  obtain ⟨t, ht⟩ := hR.writeAccepted_returns key item w hi
  constructor
  · cases hrej : rejection cfg key item w with
    | some code => exact ⟨_, _, CacheStorage.commitWrite_eq_ok.mpr (.inl ⟨code, hrej, rfl, rfl⟩)⟩
    | none => exact ⟨_, _, CacheStorage.commitWrite_eq_ok.mpr (.inr ⟨hrej, rfl, t, ht, rfl⟩)⟩
  · rcases hR.commitRead key w with ⟨-, hread⟩ | ⟨-, s', hread, -⟩
    · exact ⟨_, _, hread⟩
    · exact ⟨_, _, hread⟩

theorem RepInv.snapshotCommits_return {s : SnapshotStorage} (h : RepInv cfg s.toContainers)
    (hfrozen : Linked frozen) (hi : cfg.purgeInterval ≠ 0) (key : Key) (item : CacheItem)
    (w : Int64) :
    (∃ b s', s.commitWrite cfg frozen key item w = .ok (b, s')) ∧
      ∃ b s', s.commitRead frozen key w = .ok (b, s') := by
  obtain ⟨R, hR⟩ := h.represents
  obtain ⟨t, ht⟩ := hR.snapshotWrite_returns key item w hi hfrozen
  obtain ⟨found, hfound⟩ := hR.snapshotGetItem_returns hfrozen key w
  constructor
  · cases hrej : rejection cfg key item w with
    | some code => exact ⟨_, _, LruCache.commitWrite_eq_ok.mpr (.inl ⟨code, hrej, rfl, rfl⟩)⟩
    | none => exact ⟨_, _, LruCache.commitWrite_eq_ok.mpr (.inr ⟨hrej, rfl, t, ht, rfl⟩)⟩
  · unfold SnapshotStorage.commitRead
    rw [hfound, Run.ok_bind]
    cases found with
    | none => exact ⟨_, _, rfl⟩
    | some f => exact ⟨_, _, rfl⟩

end Storages

/-! ## What is stored -/

/-- No element of `items_` is larger than `max_item_size`. -/
def Containers.WithinMaxItemSize (cfg : CacheConfig) (s : Containers) : Prop :=
  ∀ n ∈ s.items, n.val.dataSize ≤ cfg.maxItemSize

/-- A write meets the condition on its key and its data. -/
def StorageOp.SizeChecked (cfg : CacheConfig) : StorageOp → Prop
  | .commitWrite key item _ => LruCache.SizeChecked cfg key item
  | _ => True

instance (cfg : CacheConfig) (op : StorageOp) : Decidable (op.SizeChecked cfg) :=
  match op with
  | .commitWrite key item _ => inferInstanceAs (Decidable (LruCache.SizeChecked cfg key item))
  | .commitRead _ _ => isTrue trivial
  | .commitPurge _ => isTrue trivial
  | .evictLruData _ _ => isTrue trivial
  | .clear => isTrue trivial

/-- The operation that a commit calls meets the condition. -/
def CacheOp.SizeChecked (cfg : CacheConfig) (op : CacheOp) : Prop :=
  ∀ o ∈ op.storageOp?, o.SizeChecked cfg

instance (cfg : CacheConfig) (op : CacheOp) : Decidable (op.SizeChecked cfg) :=
  inferInstanceAs (Decidable (∀ o ∈ op.storageOp?, o.SizeChecked cfg))

namespace Containers.WithinMaxItemSize

variable {cfg : CacheConfig} {s s' : Containers} {key : Key} {item : CacheItem} {w : Int64}
  {it : Option Addr}

theorem empty : WithinMaxItemSize cfg Containers.empty := fun _ hn => nomatch hn

theorem clear (s : Containers) : WithinMaxItemSize cfg s.clear := fun _ hn => nomatch hn

theorem markAsRecentlyUsed (h : WithinMaxItemSize cfg s) (key : Key) :
    WithinMaxItemSize cfg (s.markAsRecentlyUsed key) := by
  unfold Containers.markAsRecentlyUsed
  split
  · exact h
  · exact fun n hn => h n (mem_moveFront.mp hn)

theorem removeItem (h : WithinMaxItemSize cfg s) (hs : s.removeItem key = .ok (it, s')) :
    WithinMaxItemSize cfg s' := by
  obtain rfl | ⟨m, -, hitems, -⟩ := removeItem_ok hs
  · exact h
  · intro n hn
    rw [hitems] at hn
    exact h n (mem_erase.mp hn).1

theorem store (h : WithinMaxItemSize cfg s) {a : Addr} (hitem : item.dataSize ≤ cfg.maxItemSize)
    (hs : s.store cfg key item w = .ok (a, s')) : WithinMaxItemSize cfg s' := by
  obtain ⟨found, -, hs⟩ := Run.bind_eq_ok.mp hs
  intro n hn
  cases found with
  | some _ =>
    obtain ⟨_, old, -, -, -, -, hitems, -⟩ := updateItem_ok hs
    rw [hitems] at hn
    rcases mem_modify.mp (mem_moveFront.mp hn) with ⟨hn, -⟩ | ⟨-, -, -, rfl⟩
    · exact h n hn
    · exact hitem
  | none =>
    obtain ⟨-, e, -, hitems, -⟩ := insertItem_ok hs
    rw [hitems] at hn
    rcases List.mem_cons.mp hn with rfl | hn
    · exact hitem
    · exact h n hn

theorem step {s s' : CacheStorage} {op : StorageOp} {a : Option Bool}
    (h : WithinMaxItemSize cfg s.toContainers) (hop : op.SizeChecked cfg)
    (hs : s.step cfg op = .ok (a, s')) : WithinMaxItemSize cfg s'.toContainers := by
  refine CacheStorage.step_induct (fun hu => hu.markAsRecentlyUsed _) removeItem ?_
    (fun {u} _ => clear u) h hs
  rintro u u' k item w b rfl hrej hu hstore
  exact hu.store (dataSize_le_of_rejection_eq_none hop hrej) hstore

theorem snapshotWrite {s s' : SnapshotStorage} {frozen : Containers} {b : Bool}
    (h : WithinMaxItemSize cfg s.toContainers) (hchecked : SizeChecked cfg key item)
    (hs : s.commitWrite cfg frozen key item w = .ok (b, s')) :
    WithinMaxItemSize cfg s'.toContainers := by
  obtain ⟨code, -, -, rfl⟩ | ⟨hrej, -, u, hu, rfl⟩ := LruCache.commitWrite_eq_ok.mp hs
  · exact h
  · obtain ⟨m, c, -, a, c', -, hevict, -, hstore, hrecord⟩ :=
      SnapshotStorage.writeAccepted_eq_ok_iff.mp hu
    obtain ⟨stored, -, rfl⟩ := SnapshotStorage.recordWrite_eq_ok.mp hrecord
    exact (evictLruData_induct removeItem h hevict).store
      (dataSize_le_of_rejection_eq_none hchecked hrej) hstore

/-- The items of the events are stored somewhere, so they meet the condition too. -/
theorem eventOp {overlay storage : Containers} {event : SnapshotEvent} {op : StorageOp}
    (ho : WithinMaxItemSize cfg overlay) (hs : WithinMaxItemSize cfg storage)
    (hop : LruCache.eventOp overlay storage event = .ok op) : op.SizeChecked cfg := by
  unfold LruCache.eventOp at hop
  cases htype : event.type with
  | read =>
    rw [htype] at hop
    obtain ⟨k, -, hop⟩ := Run.bind_eq_ok.mp hop
    cases hop
    trivial
  | write =>
    rw [htype] at hop
    obtain ⟨k, -, hop⟩ := Run.bind_eq_ok.mp hop
    obtain ⟨it, hit, hop⟩ := Run.bind_eq_ok.mp hop
    cases hop
    right
    match hr : event.item with
    | none => rw [hr] at hit; cases hit
    | some ⟨.overlay, a⟩ =>
      rw [hr] at hit
      exact ho _ (mem_of_get? (deref_eq_ok.mp hit))
    | some ⟨.frozen, a⟩ =>
      rw [hr] at hit
      exact hs _ (mem_of_get? (deref_eq_ok.mp hit))
  | purge =>
    rw [htype] at hop
    cases hop
    trivial

end Containers.WithinMaxItemSize

/-- Neither storage holds an item above `max_item_size`. -/
structure CacheState.WithinMaxItemSize (cfg : CacheConfig) (st : CacheState) : Prop where
  storage : st.storage.toContainers.WithinMaxItemSize cfg
  overlay : st.snapshotStorage.toContainers.WithinMaxItemSize cfg

theorem CacheState.WithinMaxItemSize.step {cfg : CacheConfig} {st st' : CacheState} {op : CacheOp}
    {a : Option Bool} (h : st.WithinMaxItemSize cfg) (hop : op.SizeChecked cfg)
    (hs : st.step cfg op = .ok (a, st')) : st'.WithinMaxItemSize cfg := by
  by_cases hcommit : op.isCommit = true
  · cases hp : st.snapshotInProgress with
    | true =>
      have hstep := step_snapshot hp hcommit hs
      -- a snapshot does not touch the storage, and only a write stores in the overlay
      refine ⟨hstep.storage_eq ▸ h.storage, ?_⟩
      cases hstep with
      | read hread =>
        obtain ⟨-, -, -, hsame, -⟩ := SnapshotStorage.commitRead_eq_ok hread
        rw [hsame]
        exact h.overlay
      | write hwrite => exact h.overlay.snapshotWrite (hop _ rfl) hwrite
      | purge => exact h.overlay
    | false =>
      obtain ⟨o, ho⟩ := storageOp?_eq_some hcommit
      rw [step_direct hp ho] at hs
      obtain ⟨⟨b, s⟩, hstep, hs⟩ := Run.bind_eq_ok.mp hs
      cases hs
      exact ⟨h.storage.step (hop o ho) hstep, h.overlay⟩
  · cases op with
    | beginSnapshot =>
      cases hs
      exact ⟨h.storage, h.overlay⟩
    | endSnapshot =>
      obtain ⟨u, hend, hs⟩ := Run.bind_eq_ok.mp hs
      obtain ⟨s, hreplay, hu⟩ := Run.bind_eq_ok.mp hend
      cases hu
      cases hs
      -- a replayed write takes its item from the overlay or from what the storage holds by then
      exact ⟨replay_induct (fun hu hev hstep => hu.step (h.overlay.eventOp hu hev) hstep) h.storage
        hreplay, .clear _⟩
    | commitRead key t => exact absurd rfl hcommit
    | commitWrite key item t => exact absurd rfl hcommit
    | commitPurgeExpired t => exact absurd rfl hcommit

/-- No run whose writes all meet the condition stores an item above `max_item_size`. -/
theorem CacheState.WithinMaxItemSize.of_run {cfg : CacheConfig} {ops : List CacheOp}
    {answers : List (Option Bool)} {st : CacheState} (hops : ∀ op ∈ ops, op.SizeChecked cfg)
    (hrun : CacheState.run cfg .new ops = .ok (answers, st)) : st.WithinMaxItemSize cfg :=
  Run.run_invariant (fun _ _ _ _ h hop hs => h.step hop.2 hs) ⟨.empty, .empty⟩
    ((Run.along_true _ _).and_forall hops) hrun

theorem Containers.WithinMaxItemSize.of_run {cfg : CacheConfig} {ops : List StorageOp}
    {answers : List (Option Bool)} {s : CacheStorage} (hops : ∀ op ∈ ops, op.SizeChecked cfg)
    (hrun : CacheStorage.run cfg .new ops = .ok (answers, s)) :
    s.toContainers.WithinMaxItemSize cfg :=
  Run.run_invariant (I := fun s => s.toContainers.WithinMaxItemSize cfg)
    (fun _ _ _ _ h hop hs => h.step hop.2 hs) .empty ((Run.along_true _ _).and_forall hops) hrun

/-- A write has the documented outcome exactly when its key is too big or its data is not, and a
read always has. A rejected commit leaves the containers and the events as they were. When all
writes of a run meet the condition, no item above `max_item_size` is stored. -/
theorem commits_documented_iff (cfg : CacheConfig) (key : Key) (item : CacheItem) (w : Int64) :
    (∀ s : CacheStorage,
      (RepInv cfg s.toContainers → cfg.purgeInterval ≠ 0 →
        (∃ b s', s.commitWrite cfg key item w = .ok (b, s')) ∧
        ∃ b s', s.commitRead key w = .ok (b, s')) ∧
      (∀ b s', s.commitWrite cfg key item w = .ok (b, s') →
        ((b, s'.commitCode) = writeOutcome (documentedRejection cfg key item w) ↔
          SizeChecked cfg key item) ∧
        (b = false → s'.toContainers = s.toContainers)) ∧
      ∀ b s', s.commitRead key w = .ok (b, s') →
        ∃ found, s.toContainers.getItem key w = .ok found ∧
          (b, s'.commitCode) = readOutcome found ∧
          (b = false → s'.toContainers = s.toContainers)) ∧
    (∀ (frozen : Containers) (s : SnapshotStorage),
      (RepInv cfg s.toContainers → Linked frozen → cfg.purgeInterval ≠ 0 →
        (∃ b s', s.commitWrite cfg frozen key item w = .ok (b, s')) ∧
        ∃ b s', s.commitRead frozen key w = .ok (b, s')) ∧
      (∀ b s', s.commitWrite cfg frozen key item w = .ok (b, s') →
        ((b, s'.commitCode) = writeOutcome (documentedRejection cfg key item w) ↔
          SizeChecked cfg key item) ∧
        (b = false → s'.toContainers = s.toContainers ∧ s'.events = s.events)) ∧
      ∀ b s', s.commitRead frozen key w = .ok (b, s') →
        ∃ found, s.getItem frozen key w = .ok found ∧ (b, s'.commitCode) = readOutcome found ∧
          (b = false → s'.toContainers = s.toContainers ∧ s'.events = s.events)) ∧
    (∀ ops answers s, (∀ op ∈ ops, StorageOp.SizeChecked cfg op) →
      CacheStorage.run cfg .new ops = .ok (answers, s) → s.toContainers.WithinMaxItemSize cfg) ∧
    ∀ ops answers st, (∀ op ∈ ops, CacheOp.SizeChecked cfg op) →
      CacheState.run cfg .new ops = .ok (answers, st) → st.WithinMaxItemSize cfg := by
  refine ⟨fun s => ⟨fun h hi => h.commits_return hi key item w, fun b s' hs => ?_,
      fun b s' hs => CacheStorage.commitRead_outcome hs⟩,
    fun frozen s => ⟨fun h hf hi => h.snapshotCommits_return hf hi key item w, fun b s' hs => ?_,
      fun b s' hs => SnapshotStorage.commitRead_outcome hs⟩,
    fun ops answers s hops hrun => .of_run hops hrun,
    fun ops answers st hops hrun => .of_run hops hrun⟩
  · obtain ⟨houtcome, hsame⟩ := CacheStorage.commitWrite_outcome hs
    rw [houtcome]
    exact ⟨writeOutcome_eq_iff, hsame⟩
  · obtain ⟨houtcome, hsame⟩ := SnapshotStorage.commitWrite_outcome hs
    rw [houtcome]
    exact ⟨writeOutcome_eq_iff, hsame⟩

/-- A write, and in a snapshot one more write, a read and a write that has expired. -/
def Sample.checkedOps : List CacheOp :=
  [.commitWrite (key 1) (zeros 300 500) 100, .beginSnapshot,
    .commitWrite (key 2) (zeros 512 500) 110, .commitRead (key 1) 120,
    .commitWrite (key 1) (zeros 7 130) 130]

/-- The last write is rejected as documented, in the snapshot and in the frozen storage. -/
theorem commits_documented_sample :
    ∃ answers st, CacheState.run Sample.config .new Sample.checkedOps = .ok (answers, st) ∧
      answers = [some true, none, some true, some true, some false] ∧
      st.commitCode = some .wrongExpiry ∧ st.WithinMaxItemSize Sample.config ∧
      ∀ b s', st.storage.commitWrite Sample.config (Sample.key 1) (Sample.zeros 7 130) 130 =
          .ok (b, s') →
        (b, s'.commitCode) = (false, some .wrongExpiry) ∧
          s'.toContainers = st.storage.toContainers := by
  have h : (do
      let r ← CacheState.run Sample.config .new Sample.checkedOps
      return decide (r.1 = [some true, none, some true, some true, some false] ∧
        r.2.commitCode = some CommitResult.wrongExpiry)) = .ok true := by
    decide +kernel
  obtain ⟨⟨answers, st⟩, hrun, h⟩ := Run.bind_eq_ok.mp h
  obtain ⟨hanswers, hcode⟩ := of_decide_eq_true (Except.ok.inj h)
  obtain ⟨hstorage, -, -, hruns⟩ :=
    commits_documented_iff Sample.config (Sample.key 1) (Sample.zeros 7 130) 130
  refine ⟨answers, st, hrun, hanswers, hcode, hruns _ _ _ (by decide +kernel) hrun,
    fun b s' hs => ?_⟩
  obtain ⟨houtcome, hsame⟩ := (hstorage st.storage).2.1 b s' hs
  have houtcome := houtcome.mpr (by decide +kernel)
  exact ⟨houtcome, hsame (congrArg Prod.fst houtcome)⟩

/-- An item of 600 bytes is stored although `max_item_size` is 512, in either storage. -/
theorem oversized_item_stored :
    documentedRejection Sample.config (Sample.key 1) (Sample.zeros 600 500) 100 =
      some .dataTooBig ∧
    (∃ s, CacheStorage.new.commitWrite Sample.config (Sample.key 1)
        (Sample.zeros 600 500) 100 = .ok (true, s) ∧ s.commitCode = some .doneOk ∧
      ∃ n ∈ s.items, Sample.config.maxItemSize < n.val.dataSize) ∧
    ∃ s, SnapshotStorage.new.commitWrite Sample.config .empty (Sample.key 1)
        (Sample.zeros 600 500) 100 = .ok (true, s) ∧ s.commitCode = some .doneOk ∧
      ∃ n ∈ s.items, Sample.config.maxItemSize < n.val.dataSize := by
  have h : (do
      let r ← CacheStorage.new.commitWrite Sample.config (Sample.key 1) (Sample.zeros 600 500) 100
      let r' ← SnapshotStorage.new.commitWrite Sample.config .empty (Sample.key 1)
        (Sample.zeros 600 500) 100
      return decide ((r.1 = true ∧ r.2.commitCode = some CommitResult.doneOk ∧
          ∃ n ∈ r.2.items, Sample.config.maxItemSize < n.val.dataSize) ∧
        r'.1 = true ∧ r'.2.commitCode = some CommitResult.doneOk ∧
          ∃ n ∈ r'.2.items, Sample.config.maxItemSize < n.val.dataSize)) = .ok true := by
    decide +kernel
  obtain ⟨⟨b, s⟩, hs, h⟩ := Run.bind_eq_ok.mp h
  obtain ⟨⟨b', s'⟩, hs', h⟩ := Run.bind_eq_ok.mp h
  obtain ⟨⟨rfl, hcode, hitem⟩, rfl, hcode', hitem'⟩ := of_decide_eq_true (Except.ok.inj h)
  exact ⟨by decide, ⟨s, hs, hcode, hitem⟩, s', hs', hcode', hitem'⟩

end LruCache
