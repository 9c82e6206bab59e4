import LruCache.Connection

/-!
# Malformed streams

What `handle_connection` does to `data` on a stream that need not consist of requests. `Observed`
runs its loops and notes each change of `data`, each call of `resize` and each call of `dispatch`
beside the bytes received by then.

A header is believed as soon as it is complete: `resize` is called with the length it announces,
which may be negative or larger than all that has come, and the request is dispatched at once. This
does no harm only if the bytes announced are in the read that completes the header.
-/

namespace LruCache

/-- What can be noticed of `data`. -/
inductive ConnectionEvent
  /-- `data` holds `size` bytes, when `received` have come. -/
  | holds (size received : Nat)
  /-- `data.resize(n)` is called. -/
  | resize (n : Int64) (received : Nat)
  /-- `dispatch` is called for a header that announced `n` bytes, when `follow` bytes have come
  after the header. -/
  | dispatch (n : Int64) (follow : Nat)
deriving DecidableEq, Repr

/-- Nothing is held, resized to or dispatched that has not been received. -/
def ConnectionEvent.Harmless : ConnectionEvent → Prop
  | .holds size received => size ≤ received
  | .resize n received => 0 ≤ n.toInt ∧ n.toInt ≤ received
  | .dispatch n follow => n.toInt ≤ follow

instance (e : ConnectionEvent) : Decidable e.Harmless :=
  match e with
  | .holds size received => inferInstanceAs (Decidable (size ≤ received))
  | .resize n received => inferInstanceAs (Decidable (0 ≤ n.toInt ∧ n.toInt ≤ received))
  | .dispatch n follow => inferInstanceAs (Decidable (n.toInt ≤ follow))

/-- The variables of `handle_connection`, what `socket.read` has delivered, and the events. The
stream is counted from its start: `reach` is the place after the last byte put into `data`,
`headerEnd` the place after the last header taken from it. -/
structure Observed extends Connection where
  received : Nat
  reach : Nat
  headerEnd : Nat
  events : List ConnectionEvent
deriving DecidableEq, Repr

namespace Observed

open Connection (measure_dispatch_lt)

/-- The start of `handle_connection`. -/
def new : Observed := ⟨.new, 0, 0, 0, []⟩

/-- The first `if` of the inner loop. -/
def readHeader (o : Observed) : Except (Fault × Observed) Observed :=
  if o.expected < 0 then
    let header := (UInt64.ofNat (Bytes.toNat (o.data.take 8))).toInt64
    let left := (o.data.drop 8).length
    let events := o.events ++ [.holds left o.received, .resize header o.received]
    match o.toConnection.readHeader with
    | .ok c => .ok { o with
        toConnection := c
        headerEnd := o.reach - left
        events := events ++ [.holds c.data.length o.received] }
    | .error (e, c) => .error (e, { o with
        toConnection := c
        headerEnd := o.reach - left
        events := events })
  else .ok o

/-- The call of `dispatch`. -/
def dispatch (o : Observed) : Observed :=
  { o with
    toConnection := o.toConnection.dispatch
    events := o.events ++ [.dispatch o.expected (o.received - o.headerEnd),
      .holds o.toConnection.dispatch.data.length o.received] }

theorem readHeader_ok {o o' : Observed} (h : o.readHeader = .ok o') :
    o.toConnection.readHeader = .ok o'.toConnection := by
  unfold readHeader at h
  split at h
  · dsimp only at h
    split at h
    · next hc =>
      cases h
      exact hc
    · cases h
  · next hneg =>
    cases h
    unfold Connection.readHeader
    rw [if_neg hneg]

theorem readHeader_error {o o' : Observed} {e : Fault} (h : o.readHeader = .error (e, o')) :
    o.toConnection.readHeader = .error (e, o'.toConnection) := by
  unfold readHeader at h
  split at h
  · dsimp only at h
    split at h
    · cases h
    · next hc =>
      cases h
      exact hc
  · cases h

/-- The inner loop. -/
def drain (o : Observed) : Except (Fault × Observed) Observed :=
  if hc : o.toConnection.Ready then
    match h : o.readHeader with
    | .error e => .error e
    | .ok o' =>
      if UInt64.ofNat o'.data.length < o'.expected.toUInt64 then .ok o'
      else
        have : o'.toConnection.dispatch.measure < o.toConnection.measure :=
          measure_dispatch_lt hc (readHeader_ok h)
        o'.dispatch.drain
  else .ok o
termination_by o.toConnection.measure

/-- The outer loop. -/
def readLoop (o : Observed) : List (List UInt8) → Except (Fault × Observed) Observed
  | [] => .ok o
  | [] :: _ => .ok o
  | (b :: buf) :: reads => do
    let n := 1
    let data := o.data ++ (b :: buf).take n
    let received := o.received + (b :: buf).length
    let o ← drain { o with
      data := data
      received := received
      reach := o.received + n
      events := o.events ++ [.holds data.length received] }
    o.readLoop reads

/-- The result without the observations. -/
def forget : Except (Fault × Observed) Observed → Except (Fault × Connection) Connection
  | .ok o => .ok o.toConnection
  | .error (e, o) => .error (e, o.toConnection)

variable {o o' : Observed} {data : List UInt8} {d : List (List UInt8)}

theorem drain_of_not_ready (h : ¬ o.toConnection.Ready) : o.drain = .ok o := by
  rw [drain, dif_neg h]

theorem drain_of_error {e : Fault × Observed} (hc : o.toConnection.Ready)
    (h : o.readHeader = .error e) : o.drain = .error e := by
  rw [drain, dif_pos hc]
  split
  · next h' => exact h'.symm.trans h
  · next h' => cases h'.symm.trans h

theorem drain_of_readHeader (hc : o.toConnection.Ready) (h : o.readHeader = .ok o') :
    o.drain = if UInt64.ofNat o'.data.length < o'.expected.toUInt64 then .ok o'
      else o'.dispatch.drain := by
  rw [drain, dif_pos hc]
  split
  · next h' => cases h'.symm.trans h
  · next h' =>
    cases h'.symm.trans h
    rfl

/-- The observed inner loop is the inner loop. -/
theorem forget_drain (o : Observed) : forget o.drain = o.toConnection.drain := by
  induction o using drain.induct with
  | case1 o hc e h =>
    rw [drain_of_error hc h, Connection.drain_of_error hc (readHeader_error h)]
    rfl
  | case2 o hc o' h hshort =>
    rw [drain_of_readHeader hc h, if_pos hshort,
      Connection.drain_of_readHeader hc (readHeader_ok h), if_pos hshort]
    rfl
  | case3 o hc o' h hfull _ ih =>
    rw [drain_of_readHeader hc h, if_neg hfull, ih,
      Connection.drain_of_readHeader hc (readHeader_ok h), if_neg hfull]
    rfl
  | case4 o hc =>
    rw [drain_of_not_ready hc, Connection.drain_of_not_ready hc]
    rfl

theorem forget_bind {x : Except (Fault × Observed) Observed}
    {f : Observed → Except (Fault × Observed) Observed}
    {g : Connection → Except (Fault × Connection) Connection}
    (h : ∀ o, forget (f o) = g o.toConnection) : forget (x >>= f) = forget x >>= g := by
  cases x with
  | ok o => exact h o
  | error e => rfl

theorem forget_readLoop (o : Observed) (reads : List (List UInt8)) :
    forget (o.readLoop reads) = o.toConnection.readLoop reads := by
  induction reads generalizing o with
  | nil => rfl
  | cons r reads ih =>
    cases r with
    | nil => rfl
    | cons b buf =>
      show forget (drain _ >>= fun o => o.readLoop reads) = _
      rw [forget_bind (g := fun c => c.readLoop reads) ih, forget_drain]
      rfl

end Observed

/-- `handle_connection`, observed. -/
def observeConnection (readTimeout : Bool) (reads : List (List UInt8)) :
    Except (Fault × Observed) Observed :=
  if readTimeout then Observed.new.readLoop reads else .ok .new

/-- The observed run is the run. -/
theorem forget_observeConnection (readTimeout : Bool) (reads : List (List UInt8)) :
    Observed.forget (observeConnection readTimeout reads) = handleConnection readTimeout reads := by
  cases readTimeout with
  | true => exact Observed.forget_readLoop .new reads
  | false => rfl

/-- The events of a run, whether the call returns or throws. -/
def connectionEvents : Except (Fault × Observed) Observed → List ConnectionEvent
  | .ok o => o.events
  | .error (_, o) => o.events

/-- The first bytes of the reads spell headers, after `data`. Each announces a length that is not
negative, and no more bytes than follow in the read that completes it. -/
def HeadersCovered : List UInt8 → List (List UInt8) → Prop
  | _, [] => True
  | _, [] :: _ => True
  | data, (b :: buf) :: reads =>
    if data.length + 1 < 8 then HeadersCovered (data ++ [b]) reads
    else Bytes.toNat (data ++ [b]) < 2 ^ 63 ∧ Bytes.toNat (data ++ [b]) ≤ buf.length ∧
      HeadersCovered [] reads

/-! ## One header -/

/-- The value of a header as a `ssize_t`. -/
theorem toInt_header {n : Nat} (hn : n < 2 ^ 64) :
    (UInt64.ofNat n).toInt64.toInt = if n < 2 ^ 63 then (n : Int) else n - 2 ^ 64 := by
  have h : (UInt64.ofNat n).toInt64.toInt = ((UInt64.ofNat n).toNat : Int).bmod (2 ^ 64) :=
    BitVec.toInt_eq_toNat_bmod (UInt64.ofNat n).toBitVec
  rw [h, UInt64.toNat_ofNat_of_lt' hn, Int.bmod_def]
  split <;> omega

namespace Observed

open Connection (minus_one_lt not_ready_of_length_lt readHeader_eq)

variable {data : List UInt8} {d : List (List UInt8)} {received reach headerEnd : Nat}
  {events : List ConnectionEvent}

theorem drain_of_length_lt (h : data.length < 8) :
    drain ⟨⟨-1, data, d⟩, received, reach, headerEnd, events⟩ =
      .ok ⟨⟨-1, data, d⟩, received, reach, headerEnd, events⟩ := by
  have hidle : ¬ (⟨-1, data, d⟩ : Connection).Ready := not_ready_of_length_lt h
  exact drain_of_not_ready (o := ⟨⟨-1, data, d⟩, received, reach, headerEnd, events⟩) hidle

/-- What is observed when a header is complete. -/
def headerEvents (n : Int64) (received : Nat) : List ConnectionEvent :=
  [.holds 0 received, .resize n received]

/-- What is observed when the announced zeros are dispatched. -/
def bodyEvents (n : Nat) (received reach : Nat) : List ConnectionEvent :=
  [.holds n received, .dispatch (UInt64.ofNat n).toInt64 (received - reach), .holds 0 received]

theorem readHeader_header (hlen : data.length = 8) :
    readHeader ⟨⟨-1, data, d⟩, received, reach, headerEnd, events⟩ =
      if Bytes.toNat data < 2 ^ 63 then
        .ok ⟨⟨(UInt64.ofNat (Bytes.toNat data)).toInt64, List.replicate (Bytes.toNat data) 0, d⟩,
          received, reach, reach,
          events ++ headerEvents (UInt64.ofNat (Bytes.toNat data)).toInt64 received ++
            [.holds (Bytes.toNat data) received]⟩
      else
        .error (.thrown "std::length_error",
          ⟨⟨(UInt64.ofNat (Bytes.toNat data)).toInt64, [], d⟩, received, reach, reach,
            events ++ headerEvents (UInt64.ofNat (Bytes.toNat data)).toInt64 received⟩) := by
  have hleft : (data.drop 8).length = 0 := by rw [List.length_drop, hlen]
  unfold readHeader
  rw [if_pos minus_one_lt]
  simp only [readHeader_eq hlen, hleft, List.take_of_length_le (Nat.le_of_eq hlen)]
  by_cases hn : Bytes.toNat data < 2 ^ 63
  · simp only [if_pos hn, List.length_replicate]
    rfl
  · simp only [if_neg hn]
    rfl

theorem drain_header (hlen : data.length = 8) (hn : Bytes.toNat data < 2 ^ 63) :
    drain ⟨⟨-1, data, d⟩, received, reach, headerEnd, events⟩ =
      .ok ⟨⟨-1, [], d ++ [List.replicate (Bytes.toNat data) 0]⟩, received, reach, reach,
        events ++ headerEvents (UInt64.ofNat (Bytes.toNat data)).toInt64 received ++
          bodyEvents (Bytes.toNat data) received reach⟩ := by
  have hready : (⟨-1, data, d⟩ : Connection).Ready := .inl (Nat.le_of_eq hlen.symm)
  have hheader : readHeader ⟨⟨-1, data, d⟩, received, reach, headerEnd, events⟩ = _ :=
    (readHeader_header hlen).trans (if_pos hn)
  have hall : (List.replicate (Bytes.toNat data) (0 : UInt8)).length =
      (UInt64.ofNat (Bytes.toNat data)).toNat := by
    have hlt := Bytes.toNat_lt data
    rw [hlen] at hlt
    rw [List.length_replicate, UInt64.toNat_ofNat_of_lt' hlt]
  have hfull : ¬ UInt64.ofNat (List.replicate (Bytes.toNat data) (0 : UInt8)).length <
      (UInt64.ofNat (Bytes.toNat data)).toInt64.toUInt64 := by
    rw [List.length_replicate]
    exact UInt64.lt_irrefl _
  have hrest : Connection.dispatch ⟨(UInt64.ofNat (Bytes.toNat data)).toInt64,
      List.replicate (Bytes.toNat data) 0, d⟩ =
      ⟨-1, [], d ++ [List.replicate (Bytes.toNat data) 0]⟩ :=
    congrArg (Connection.mk _ · _) (List.drop_of_length_le (Nat.le_of_eq hall))
  rw [drain_of_readHeader hready hheader, if_neg hfull]
  unfold dispatch
  simp only [hrest]
  rw [drain_of_length_lt (by decide), List.append_assoc]
  rfl

theorem drain_negative_header (hlen : data.length = 8) (hn : ¬ Bytes.toNat data < 2 ^ 63) :
    ∃ e o, drain ⟨⟨-1, data, d⟩, received, reach, headerEnd, events⟩ = .error (e, o) ∧
      o.events = events ++ headerEvents (UInt64.ofNat (Bytes.toNat data)).toInt64 received :=
  ⟨_, _, drain_of_error (.inl (Nat.le_of_eq hlen.symm))
    ((readHeader_header hlen).trans (if_neg hn)), rfl⟩

/-! ## Runs -/

/-- A header that announces no more than follows it does no harm. -/
theorem harmless_header_iff {n received reach : Nat} (hn : n < 2 ^ 63) (hle : reach ≤ received) :
    (∀ e ∈ headerEvents (UInt64.ofNat n).toInt64 received ++ bodyEvents n received reach,
      e.Harmless) ↔ n ≤ received - reach := by
  have hint := toInt_header (Nat.lt_trans hn (by decide : (2 : Nat) ^ 63 < 2 ^ 64))
  rw [if_pos hn] at hint
  simp only [headerEvents, bodyEvents, List.cons_append, List.nil_append, List.forall_mem_cons,
    ConnectionEvent.Harmless, hint]
  constructor
  · rintro ⟨-, -, -, hdispatch, -⟩
    omega
  · intro h
    refine ⟨Nat.zero_le _, by omega, by omega, by omega, Nat.zero_le _, fun e he => nomatch he⟩

theorem not_harmless_negative {n received : Nat} (hn : ¬ n < 2 ^ 63) (hlt : n < 2 ^ 64) :
    ¬ ∀ e ∈ headerEvents (UInt64.ofNat n).toInt64 received, e.Harmless := by
  intro h
  have hresize : ConnectionEvent.Harmless (.resize (UInt64.ofNat n).toInt64 received) :=
    h _ (List.mem_cons_of_mem _ List.mem_cons_self)
  have hneg := hresize.1
  rw [toInt_header hlt, if_neg hn] at hneg
  omega

/-- The byte that a read puts into `data`, before the inner loop. -/
theorem readLoop_cons (b : UInt8) (buf : List UInt8) (reads : List (List UInt8)) :
    readLoop ⟨⟨-1, data, d⟩, received, reach, headerEnd, events⟩ ((b :: buf) :: reads) =
      drain ⟨⟨-1, data ++ [b], d⟩, received + (buf.length + 1), received + 1, headerEnd,
        events ++ [.holds (data.length + 1) (received + (buf.length + 1))]⟩ >>=
        fun o => o.readLoop reads := by
  rw [readLoop]
  simp only [List.take_succ_cons, List.take_zero, List.length_append, List.length_cons,
    List.length_nil, Nat.zero_add]

theorem readLoop_of_short {b : UInt8} {buf : List UInt8} {reads : List (List UInt8)}
    (hshort : data.length + 1 < 8) :
    readLoop ⟨⟨-1, data, d⟩, received, reach, headerEnd, events⟩ ((b :: buf) :: reads) =
      readLoop ⟨⟨-1, data ++ [b], d⟩, received + (buf.length + 1), received + 1, headerEnd,
        events ++ [.holds (data.length + 1) (received + (buf.length + 1))]⟩ reads := by
  have hlen : (data ++ [b]).length < 8 := by rwa [List.length_append]
  rw [readLoop_cons, drain_of_length_lt hlen, Run.ok_bind]

/-- Up to a header, bytes that come one by one are put into `data`. -/
theorem readLoop_bytes (bytes : List UInt8) (reads : List (List UInt8))
    (h : data.length + bytes.length < 8) :
    ∃ reach' events', readLoop ⟨⟨-1, data, d⟩, received, reach, headerEnd, events⟩
        (bytes.map (fun b => [b]) ++ reads) =
      readLoop ⟨⟨-1, data ++ bytes, d⟩, received + bytes.length, reach', headerEnd, events'⟩
        reads := by
  induction bytes generalizing data received reach events with
  | nil => exact ⟨reach, events, by rw [List.append_nil]; rfl⟩
  | cons b bytes ih =>
    rw [List.length_cons] at h
    have hlen : (data ++ [b]).length + bytes.length < 8 := by
      rw [List.length_append, List.length_singleton]
      omega
    rw [List.map_cons, List.cons_append, readLoop_of_short (by omega), List.length_nil,
      Nat.zero_add]
    obtain ⟨reach', events', hrun⟩ := ih hlen
    refine ⟨reach', events', hrun.trans ?_⟩
    rw [List.append_assoc, List.length_cons, Nat.add_assoc, Nat.add_comm 1]
    rfl

/-- Between two reads `expected` is -1 and `data` is shorter than a header. -/
theorem readLoop_harmless_iff {reads : List (List UInt8)} (hlen : data.length < 8)
    (hreceived : data.length ≤ received) :
    (∀ e ∈ connectionEvents (readLoop ⟨⟨-1, data, d⟩, received, reach, headerEnd, events⟩ reads),
      e.Harmless) ↔ (∀ e ∈ events, e.Harmless) ∧ HeadersCovered data reads := by
  induction reads generalizing data d received reach headerEnd events with
  | nil => exact (and_iff_left trivial).symm
  | cons r reads ih =>
    cases r with
    | nil => exact (and_iff_left trivial).symm
    | cons b buf =>
      have hone : (data ++ [b]).length = data.length + 1 := List.length_append
      have hmore : (∀ e ∈ events ++ [.holds (data.length + 1) (received + (buf.length + 1))],
          e.Harmless) ↔ ∀ e ∈ events, e.Harmless := by
        rw [List.forall_mem_append, List.forall_mem_singleton]
        refine and_iff_left ?_
        show _ ≤ _
        omega
      rw [HeadersCovered]
      by_cases hshort : data.length + 1 < 8
      · rw [readLoop_of_short hshort, if_pos hshort, ih (hone ▸ hshort) (by omega), hmore]
      · -- this byte completes a header, and the rest of the read follows it
        have h8 : (data ++ [b]).length = 8 := by omega
        have hlt := Bytes.toNat_lt (data ++ [b])
        rw [h8] at hlt
        rw [readLoop_cons, if_neg hshort]
        by_cases hn : Bytes.toNat (data ++ [b]) < 2 ^ 63
        · have hfollow : received + (buf.length + 1) - (received + 1) = buf.length := by omega
          rw [drain_header h8 hn, Run.ok_bind, ih (by decide) (Nat.zero_le _), List.append_assoc,
            List.forall_mem_append, hmore, harmless_header_iff hn (by omega), hfollow, and_assoc,
            and_iff_right hn]
        · -- a negative length throws, so that no later read is made
          obtain ⟨e, o, hdrain, hevents⟩ := drain_negative_header h8 hn
          rw [hdrain, Run.error_bind]
          show (∀ e ∈ o.events, _) ↔ _
          rw [hevents, List.forall_mem_append]
          exact ⟨fun h => absurd h.2 (not_harmless_negative hn hlt), fun h => absurd h.2.1 hn⟩

end Observed

/-- Every event of a run is harmless exactly when each header announces a length that is not
negative, and no more bytes than follow in the read that completes it. The events are those of
`handle_connection`. -/
theorem malformed_streams_harmless_iff (reads : List (List UInt8)) :
    Observed.forget (observeConnection true reads) = handleConnection true reads ∧
      connectionEvents (observeConnection false reads) = [] ∧
      ((∀ e ∈ connectionEvents (observeConnection true reads), e.Harmless) ↔
        HeadersCovered [] reads) := by
  refine ⟨forget_observeConnection true reads, rfl, ?_⟩
  show (∀ e ∈ connectionEvents (Observed.readLoop ⟨⟨-1, [], []⟩, 0, 0, 0, []⟩ reads), _) ↔ _
  rw [Observed.readLoop_harmless_iff (by decide) (Nat.zero_le _)]
  exact and_iff_right fun e he => nomatch he

/-- A body of one byte, in the read that completes its header. -/
def Sample.coveredReads : List (List UInt8) := [[1], [0], [0], [0], [0], [0], [0], [0, 7]]

theorem malformed_streams_harmless_sample :
    ∀ e ∈ connectionEvents (observeConnection true Sample.coveredReads), e.Harmless :=
  (malformed_streams_harmless_iff Sample.coveredReads).2.2.mpr (by
    simp [Sample.coveredReads, HeadersCovered, Bytes.toNat])

/-- A header that comes byte by byte is passed to `resize` when nothing else has come. -/
theorem headerEvents_subset (bytes : List UInt8) (b : UInt8) (hlen : bytes.length = 7) :
    Observed.headerEvents (UInt64.ofNat (Bytes.toNat (bytes ++ [b]))).toInt64 8 ++
        (if Bytes.toNat (bytes ++ [b]) < 2 ^ 63 then
          Observed.bodyEvents (Bytes.toNat (bytes ++ [b])) 8 8 else []) ⊆
      connectionEvents (observeConnection true (bytes.map (fun b => [b]) ++ [[b]])) := by
  have h8 : (bytes ++ [b]).length = 8 := by rw [List.length_append, hlen]; rfl
  have hseven : 0 + bytes.length = 7 := by rw [hlen]
  obtain ⟨reach, events, hrun⟩ : ∃ reach events, observeConnection true
      (bytes.map (fun b => [b]) ++ [[b]]) =
      Observed.readLoop ⟨⟨-1, [] ++ bytes, []⟩, 0 + bytes.length, reach, 0, events⟩ [[b]] :=
    Observed.readLoop_bytes bytes [[b]] (hseven ▸ (by decide : 7 < 8))
  rw [hrun, List.nil_append, hseven, Observed.readLoop_cons]
  by_cases hn : Bytes.toNat (bytes ++ [b]) < 2 ^ 63
  · rw [if_pos hn, Observed.drain_header h8 hn, Run.ok_bind]
    exact (List.append_assoc _ _ _).symm ▸ List.subset_append_right _ _
  · obtain ⟨e, o, hdrain, hevents⟩ := Observed.drain_negative_header h8 hn
    rw [if_neg hn, hdrain, Run.error_bind, List.append_nil]
    show _ ⊆ o.events
    rw [hevents]
    exact List.subset_append_right _ _

/-- The header -1 is passed to `resize`. A header of 1000 is passed to `resize` and makes `data`
hold 1000 bytes, and the request is dispatched, when nothing but the 8 bytes of the header has
come. -/
theorem malformed_streams_harm :
    (ConnectionEvent.resize (-1) 8 ∈
        connectionEvents (observeConnection true (List.replicate 8 [255])) ∧
      ¬ ConnectionEvent.Harmless (.resize (-1) 8)) ∧
    (ConnectionEvent.resize 1000 8 ∈
        connectionEvents (observeConnection true [[232], [3], [0], [0], [0], [0], [0], [0]]) ∧
      ¬ ConnectionEvent.Harmless (.resize 1000 8)) ∧
    (ConnectionEvent.holds 1000 8 ∈
        connectionEvents (observeConnection true [[232], [3], [0], [0], [0], [0], [0], [0]]) ∧
      ¬ ConnectionEvent.Harmless (.holds 1000 8)) ∧
    ConnectionEvent.dispatch 1000 0 ∈
        connectionEvents (observeConnection true [[232], [3], [0], [0], [0], [0], [0], [0]]) ∧
      ¬ ConnectionEvent.Harmless (.dispatch 1000 0) := by
  have hnegative := headerEvents_subset (List.replicate 7 255) 255 rfl
  have hlarge := headerEvents_subset [232, 3, 0, 0, 0, 0, 0] 0 rfl
  exact ⟨⟨hnegative (by decide), by decide⟩, ⟨hlarge (by decide), by decide⟩,
    ⟨hlarge (by decide), by decide⟩, hlarge (by decide), by decide⟩

end LruCache
