import LruCache.Basic
import LruCache.Lib.Run

/-!
# `network_manager::handle_connection`

The loop that puts the requests of a connection back together from what the socket delivers. A
request is sent as its length in 8 bytes, then its bytes.

In `while (n = socket.read(buf, sizeof(buf)) > 0)` the comparison binds tighter than the assignment,
so `n` is 1 for every read that delivers something, and one byte of it is appended.
-/

namespace LruCache

/-- `CHUNK_SIZE`. -/
def chunkSize : Nat := 1024

/-- The variables of `handle_connection`, with the bytes of each request passed to `dispatch`. -/
structure Connection where
  expected : Int64
  data : List UInt8
  dispatched : List (List UInt8)
deriving DecidableEq, Repr

/-- `data.resize(n)`: cut off, or filled up with zeros. The memory for a length that a vector can
have is taken to be there. -/
def resize (data : List UInt8) (n : UInt64) : Except Fault (List UInt8) :=
  if n.toNat < 2 ^ 63 then .ok (data.take n.toNat ++ List.replicate (n.toNat - data.length) 0)
  else .error (.thrown "std::length_error")

theorem length_resize {data data' : List UInt8} {n : UInt64} (h : resize data n = .ok data') :
    data'.length = n.toNat := by
  unfold resize at h
  split at h
  · cases h
    rw [List.length_append, List.length_take, List.length_replicate]
    omega
  · cases h

namespace Connection

/-- The variables at the start. -/
def new : Connection := ⟨-1, [], []⟩

/-- The first `if` of the inner loop. An exception leaves the variables as they are then. -/
def readHeader (c : Connection) : Except (Fault × Connection) Connection :=
  if c.expected < 0 then
    let expected := (UInt64.ofNat (Bytes.toNat (c.data.take 8))).toInt64
    let data := c.data.drop 8
    match resize data expected.toUInt64 with
    | .ok data => .ok { c with expected := expected, data := data }
    | .error e => .error (e, { c with expected := expected, data := data })
  else .ok c

/-- The rest of the inner loop's body past the `break`: the call of `dispatch`. -/
def dispatch (c : Connection) : Connection where
  expected := -1
  data := c.data.drop c.expected.toUInt64.toNat
  dispatched := c.dispatched ++ [c.data]

/-- The condition of the inner loop. -/
def Ready (c : Connection) : Prop := c.data.length ≥ 8 ∨ c.expected ≥ 0

instance (c : Connection) : Decidable c.Ready := inferInstanceAs (Decidable (_ ∨ _))

/-- A round of the inner loop uses up the header, or the announced length. -/
def measure (c : Connection) : Nat := c.data.length + if c.expected < 0 then 0 else 1

theorem length_readHeader {c c' : Connection} (hneg : c.expected < 0)
    (h : c.readHeader = .ok c') : c'.data.length = c'.expected.toUInt64.toNat := by
  unfold readHeader at h
  rw [if_pos hneg] at h
  dsimp only at h
  split at h
  · next hresize =>
    cases h
    exact length_resize hresize
  · cases h

theorem measure_dispatch (c : Connection) :
    c.dispatch.measure = c.data.length - c.expected.toUInt64.toNat := by
  have hneg : c.dispatch.expected < 0 := by
    show (-1 : Int64) < 0
    decide
  rw [measure, if_pos hneg]
  exact List.length_drop

theorem measure_dispatch_lt {c c' : Connection} (hc : c.Ready) (h : c.readHeader = .ok c') :
    c'.dispatch.measure < c.measure := by
  rw [measure_dispatch, measure]
  by_cases hneg : c.expected < 0
  · have hlen : c.data.length ≥ 8 := hc.resolve_right (Int64.not_le.mpr hneg)
    rw [length_readHeader hneg h]
    omega
  · unfold readHeader at h
    rw [if_neg hneg] at h
    cases h
    rw [if_neg hneg]
    omega

/-- The inner loop. -/
def drain (c : Connection) : Except (Fault × Connection) Connection :=
  if hc : c.Ready then
    match h : c.readHeader with
    | .error e => .error e
    | .ok c' =>
      if UInt64.ofNat c'.data.length < c'.expected.toUInt64 then .ok c'
      else
        have := measure_dispatch_lt hc h
        c'.dispatch.drain
  else .ok c
termination_by c.measure

/-- The outer loop, over what the calls of `socket.read` deliver. Nothing is the end of the
stream. -/
def readLoop (c : Connection) : List (List UInt8) → Except (Fault × Connection) Connection
  | [] => .ok c
  | [] :: _ => .ok c
  | (b :: buf) :: reads => do
    let n := 1
    let c ← drain { c with data := c.data ++ (b :: buf).take n }
    c.readLoop reads

end Connection

/-- `network_manager::handle_connection`, on a socket that takes the timeout or not. -/
def handleConnection (readTimeout : Bool) (reads : List (List UInt8)) :
    Except (Fault × Connection) Connection :=
  if readTimeout then Connection.new.readLoop reads else .ok .new

/-- The calls of `dispatch` made, whether the call returns or throws. -/
def dispatches : Except (Fault × Connection) Connection → List (List UInt8)
  | .ok c => c.dispatched
  | .error (_, c) => c.dispatched

/-! ## What the loops do -/

namespace Connection

variable {c c' : Connection} {data : List UInt8} {d : List (List UInt8)}

theorem drain_of_not_ready (h : ¬ c.Ready) : c.drain = .ok c := by
  rw [drain, dif_neg h]

theorem drain_of_error {e : Fault × Connection} (hc : c.Ready) (h : c.readHeader = .error e) :
    c.drain = .error e := by
  rw [drain, dif_pos hc]
  split
  · next h' => exact h'.symm.trans h
  · next h' => cases h'.symm.trans h

theorem drain_of_readHeader (hc : c.Ready) (h : c.readHeader = .ok c') :
    c.drain = if UInt64.ofNat c'.data.length < c'.expected.toUInt64 then .ok c'
      else c'.dispatch.drain := by
  rw [drain, dif_pos hc]
  split
  · next h' => cases h'.symm.trans h
  · next h' =>
    cases h'.symm.trans h
    rfl

theorem minus_one_lt : (-1 : Int64) < 0 := by decide

theorem not_ready_of_length_lt (h : data.length < 8) : ¬ (⟨-1, data, d⟩ : Connection).Ready := by
  rintro (hlen | hexp)
  · exact Nat.not_le.mpr h hlen
  · exact Int64.not_le.mpr minus_one_lt hexp

/-- A header is read when its last byte has come, so nothing follows it. -/
theorem readHeader_eq (hlen : data.length = 8) :
    readHeader ⟨-1, data, d⟩ =
      if Bytes.toNat data < 2 ^ 63 then
        .ok ⟨(UInt64.ofNat (Bytes.toNat data)).toInt64, List.replicate (Bytes.toNat data) 0, d⟩
      else
        .error (.thrown "std::length_error",
          ⟨(UInt64.ofNat (Bytes.toNat data)).toInt64, [], d⟩) := by
  have hsize : (UInt64.ofNat (Bytes.toNat data)).toNat = Bytes.toNat data := by
    have hlt := Bytes.toNat_lt data
    rw [hlen] at hlt
    exact UInt64.toNat_ofNat_of_lt' hlt
  have hback : (UInt64.ofNat (Bytes.toNat data)).toInt64.toUInt64 =
      UInt64.ofNat (Bytes.toNat data) := rfl
  unfold readHeader resize
  rw [if_pos minus_one_lt]
  simp only [List.take_of_length_le (Nat.le_of_eq hlen),
    List.drop_of_length_le (Nat.le_of_eq hlen), hback, hsize, List.take_nil, List.nil_append,
    List.length_nil, Nat.sub_zero]
  split
  · next h =>
    split at h
    · next hn =>
      cases h
      rw [if_pos hn]
    · cases h
  · next h =>
    split at h
    · cases h
    · next hn =>
      cases h
      rw [if_neg hn]

/-- As soon as a header is complete, `resize` fills the announced length with zeros, and these are
dispatched. -/
theorem drain_header (hlen : data.length = 8) (hn : Bytes.toNat data < 2 ^ 63) :
    drain ⟨-1, data, d⟩ = .ok ⟨-1, [], d ++ [List.replicate (Bytes.toNat data) 0]⟩ := by
  have hheader := (readHeader_eq (d := d) hlen).trans (if_pos hn)
  have hall := length_readHeader (c := ⟨-1, data, d⟩) minus_one_lt hheader
  have hfull : ¬ UInt64.ofNat (List.replicate (Bytes.toNat data) (0 : UInt8)).length <
      (UInt64.ofNat (Bytes.toNat data)).toInt64.toUInt64 := by
    rw [List.length_replicate]
    exact UInt64.lt_irrefl _
  have hdispatch : dispatch ⟨(UInt64.ofNat (Bytes.toNat data)).toInt64,
      List.replicate (Bytes.toNat data) 0, d⟩ =
      ⟨-1, [], d ++ [List.replicate (Bytes.toNat data) 0]⟩ :=
    congrArg (Connection.mk _ · _) (List.drop_of_length_le (Nat.le_of_eq hall))
  rw [drain_of_readHeader (.inl (Nat.le_of_eq hlen.symm)) hheader, if_neg hfull, hdispatch,
    drain_of_not_ready (not_ready_of_length_lt (by decide))]

/-- A negative length makes `resize` throw. -/
theorem drain_negative_header (hlen : data.length = 8) (hn : ¬ Bytes.toNat data < 2 ^ 63) :
    ∃ e c, drain ⟨-1, data, d⟩ = .error (e, c) ∧ c.dispatched = d :=
  ⟨_, _, drain_of_error (.inl (Nat.le_of_eq hlen.symm)) ((readHeader_eq hlen).trans (if_neg hn)),
    rfl⟩

end Connection

/-! ## The requests that are dispatched -/

/-- What arriving bytes make `handle_connection` dispatch when it sees them one by one: for each
header as many zeros as it announces. -/
def zeroRequests (l : List UInt8) : List (List UInt8) :=
  match h : Bytes.split 8 l with
  | none => []
  | some (header, rest) =>
    if Bytes.toNat header < 2 ^ 63 then
      have : rest.length < l.length := by
        obtain ⟨hlen, happend⟩ := Bytes.split_eq_some h
        rw [← happend, List.length_append, hlen]
        omega
      List.replicate (Bytes.toNat header) 0 :: zeroRequests rest
    else []
termination_by l.length

theorem zeroRequests_of_length_lt {l : List UInt8} (h : l.length < 8) : zeroRequests l = [] := by
  rw [zeroRequests]
  split
  · rfl
  · next hsplit =>
    obtain ⟨hlen, happend⟩ := Bytes.split_eq_some hsplit
    rw [← happend, List.length_append, hlen] at h
    omega

theorem zeroRequests_append {header : List UInt8} (hlen : header.length = 8) (rest : List UInt8) :
    zeroRequests (header ++ rest) =
      if Bytes.toNat header < 2 ^ 63 then
        List.replicate (Bytes.toNat header) 0 :: zeroRequests rest
      else [] := by
  have hsplit := Bytes.split_append header rest
  rw [hlen] at hsplit
  rw [zeroRequests]
  split
  · next h => cases h.symm.trans hsplit
  · next h =>
    cases h.symm.trans hsplit
    rfl

/-- The bytes of the reads that reach `data`: the first of each. -/
def firstBytes (reads : List (List UInt8)) : List UInt8 := reads.filterMap List.head?

/-- Between two reads `expected` is -1 and `data` is shorter than a header. -/
theorem Connection.readLoop_dispatches {reads : List (List UInt8)} (hreads : ∀ r ∈ reads, r ≠ [])
    {data : List UInt8} {d : List (List UInt8)} (hlen : data.length < 8) :
    dispatches (readLoop ⟨-1, data, d⟩ reads) = d ++ zeroRequests (data ++ firstBytes reads) := by
  induction reads generalizing data d with
  | nil =>
    rw [firstBytes, List.filterMap_nil, List.append_nil, zeroRequests_of_length_lt hlen,
      List.append_nil]
    rfl
  | cons r reads ih =>
    have hrest : ∀ x ∈ reads, x ≠ [] := fun x hx => hreads x (List.mem_cons_of_mem r hx)
    cases r with
    | nil => exact absurd rfl (hreads [] List.mem_cons_self)
    | cons b buf =>
      have hfirst : data ++ firstBytes ((b :: buf) :: reads) = (data ++ [b]) ++ firstBytes reads :=
        (List.append_assoc data [b] (firstBytes reads)).symm
      have hone : (data ++ [b]).length = data.length + 1 := List.length_append
      show dispatches (drain ⟨-1, data ++ [b], d⟩ >>= fun c => c.readLoop reads) = _
      rw [hfirst]
      rcases Nat.lt_or_eq_of_le (Nat.succ_le_of_lt hlen) with hlt | heq
      · rw [drain_of_not_ready (not_ready_of_length_lt (hone ▸ hlt)), Run.ok_bind]
        exact ih hrest (hone ▸ hlt)
      · have h8 : (data ++ [b]).length = 8 := hone.trans heq
        rw [zeroRequests_append h8]
        by_cases hn : Bytes.toNat (data ++ [b]) < 2 ^ 63
        · rw [drain_header h8 hn, Run.ok_bind, if_pos hn, ih hrest (by decide), List.append_assoc]
          rfl
        · obtain ⟨e, c, hdrain, hd⟩ := drain_negative_header (d := d) h8 hn
          rw [hdrain, Run.error_bind, if_neg hn, List.append_nil]
          exact hd

/-! ## Framing -/

/-- The bytes of a request. The bound is that of a `std::vector<uint8_t>`. -/
structure RequestBody where
  bytes : List UInt8
  length_lt : bytes.length < 2 ^ 63
deriving Repr

namespace RequestBody

/-- The length of the body, in 8 bytes. -/
def header (body : RequestBody) : List UInt8 := Bytes.ofNat 8 body.bytes.length

def frame (body : RequestBody) : List UInt8 := body.header ++ body.bytes

/-- Every byte of the body is zero. -/
def Blank (body : RequestBody) : Prop := ∀ b ∈ body.bytes, b = 0

instance (body : RequestBody) : Decidable body.Blank :=
  List.decidableBAll (fun b => b = 0) body.bytes

theorem length_header (body : RequestBody) : body.header.length = 8 := Bytes.length_ofNat 8 _

theorem toNat_header (body : RequestBody) : Bytes.toNat body.header = body.bytes.length :=
  Bytes.toNat_ofNat (Nat.lt_trans body.length_lt (by decide))

theorem blank_iff {body : RequestBody} :
    body.Blank ↔ List.replicate body.bytes.length 0 = body.bytes := by
  rw [eq_comm, List.eq_replicate_iff]
  exact ⟨fun h => ⟨rfl, h⟩, fun h => h.2⟩

theorem zeroRequests_header (body : RequestBody) (rest : List UInt8) :
    zeroRequests (body.header ++ rest) =
      List.replicate body.bytes.length 0 :: zeroRequests rest := by
  rw [zeroRequests_append body.length_header, body.toNat_header, if_pos body.length_lt]

end RequestBody

/-- A cut of the stream of the requests into reads. -/
structure Cut (bodies : List RequestBody) (reads : List (List UInt8)) : Prop where
  flatten_eq : reads.flatten = bodies.flatMap RequestBody.frame
  ne_nil : ∀ r ∈ reads, r ≠ []
  length_le : ∀ r ∈ reads, r.length ≤ chunkSize

/-- The requests come out of a stream of headers, one for each, if they are blank. -/
theorem zeroRequests_eq_iff {bodies : List RequestBody} {l : List UInt8} :
    zeroRequests l = bodies.map RequestBody.bytes ↔
      (∀ body ∈ bodies, body.Blank) ∧
        ∃ rest, l = bodies.flatMap RequestBody.header ++ rest ∧ zeroRequests rest = [] := by
  induction bodies generalizing l with
  | nil =>
    refine ⟨fun h => ⟨fun _ hb => (nomatch hb), l, rfl, h⟩, ?_⟩
    rintro ⟨-, rest, rfl, h⟩
    exact h
  | cons body bodies ih =>
    rw [List.forall_mem_cons, RequestBody.blank_iff, List.map_cons, List.flatMap_cons]
    constructor
    · intro h
      rcases Nat.lt_or_ge l.length 8 with hlt | hge
      · rw [zeroRequests_of_length_lt hlt] at h
        cases h
      · have htake : (l.take 8).length = 8 := List.length_take_of_le hge
        rw [← List.take_append_drop 8 l, zeroRequests_append htake] at h
        split at h
        · injection h with hbody hbodies
          obtain ⟨hblank, rest, hrest, hnil⟩ := ih.mp hbodies
          have hlen : Bytes.toNat (l.take 8) = body.bytes.length := by
            rw [← hbody, List.length_replicate]
          have hheader := Bytes.ofNat_toNat (l.take 8)
          rw [htake, hlen] at hheader
          refine ⟨⟨hlen ▸ hbody, hblank⟩, rest, ?_, hnil⟩
          rw [RequestBody.header, hheader, List.append_assoc, ← hrest, List.take_append_drop]
        · cases h
    · rintro ⟨⟨hbody, hblank⟩, rest, rfl, hnil⟩
      rw [List.append_assoc, RequestBody.zeroRequests_header, hbody,
        ih.mpr ⟨hblank, rest, rfl, hnil⟩]

theorem firstBytes_sublist (reads : List (List UInt8)) :
    (firstBytes reads).Sublist reads.flatten := by
  induction reads with
  | nil => exact List.Sublist.refl []
  | cons r reads ih =>
    cases r with
    | nil => exact ih
    | cons b buf => exact (ih.trans (List.sublist_append_right buf _)).cons_cons b

/-- A stream of blank requests holds no bytes but zeros outside the headers. So once the first bytes
have spelled the headers, only zeros are left. -/
theorem Cut.rest_blank {bodies : List RequestBody} {reads : List (List UInt8)}
    (h : Cut bodies reads) (hblank : ∀ body ∈ bodies, body.Blank) {rest : List UInt8}
    (hfirst : firstBytes reads = bodies.flatMap RequestBody.header ++ rest) :
    ∀ b ∈ rest, b = 0 := by
  have hframes : ∀ bodies : List RequestBody, (∀ body ∈ bodies, body.Blank) →
      (bodies.flatMap RequestBody.frame).filter (· != 0) =
        (bodies.flatMap RequestBody.header).filter (· != 0) := by
    intro bodies hblank
    rw [List.filter_flatMap, List.filter_flatMap]
    refine List.flatMap_congr fun body hbody => ?_
    have hbytes : body.bytes.filter (· != 0) = [] :=
      List.filter_eq_nil_iff.mpr fun b hb => by simp [hblank body hbody b hb]
    rw [RequestBody.frame, List.filter_append, hbytes, List.append_nil]
  have hsub := (firstBytes_sublist reads).filter (· != 0)
  rw [h.flatten_eq, hframes bodies hblank, hfirst, List.filter_append] at hsub
  have hlen := hsub.length_le
  rw [List.length_append] at hlen
  have hnil : rest.filter (· != 0) = [] := List.length_eq_zero_iff.mp (by omega)
  intro b hb
  simpa using List.filter_eq_nil_iff.mp hnil b hb

theorem zeroRequests_ne_nil {l : List UInt8} (hl : ∀ b ∈ l, b = 0) (hlen : 8 ≤ l.length) :
    zeroRequests l ≠ [] := by
  have htake : l.take 8 = List.replicate 8 0 :=
    List.eq_replicate_iff.mpr
      ⟨List.length_take_of_le hlen, fun b hb => hl b (List.mem_of_mem_take hb)⟩
  rw [← List.take_append_drop 8 l, htake, zeroRequests_append rfl, if_pos (by decide)]
  exact List.cons_ne_nil _ _

/-- The requests are dispatched as they were sent exactly when they consist of zeros and the first
bytes of the reads are their headers, with less than a header after them. -/
theorem dispatched_as_sent_iff {bodies : List RequestBody} {reads : List (List UInt8)}
    (h : Cut bodies reads) :
    dispatches (handleConnection true reads) = bodies.map RequestBody.bytes ↔
      (∀ body ∈ bodies, body.Blank) ∧
        ∃ rest, rest.length < 8 ∧ firstBytes reads = bodies.flatMap RequestBody.header ++ rest := by
  have hrun : dispatches (handleConnection true reads) = zeroRequests (firstBytes reads) :=
    Connection.readLoop_dispatches h.ne_nil (by decide)
  rw [hrun, zeroRequests_eq_iff]
  constructor
  · rintro ⟨hblank, rest, hfirst, hnil⟩
    refine ⟨hblank, rest, Nat.not_le.mp fun hlen => ?_, hfirst⟩
    exact zeroRequests_ne_nil (h.rest_blank hblank hfirst) hlen hnil
  · rintro ⟨hblank, rest, hlen, hfirst⟩
    exact ⟨hblank, rest, hfirst, zeroRequests_of_length_lt hlen⟩

namespace Sample

def body (b : UInt8) : RequestBody := ⟨[b], by simp⟩

/-- The frame of a body of one byte, one byte a read. -/
def byteReads (b : UInt8) : List (List UInt8) := [[1], [0], [0], [0], [0], [0], [0], [0], [b]]

/-- The frame of a body of one byte, in one read. -/
def oneRead (b : UInt8) : List (List UInt8) := [[1, 0, 0, 0, 0, 0, 0, 0, b]]

end Sample

theorem dispatched_as_sent_sample :
    Cut [Sample.body 0] (Sample.byteReads 0) ∧
      dispatches (handleConnection true (Sample.byteReads 0)) = [[0]] := by
  have h : Cut [Sample.body 0] (Sample.byteReads 0) := ⟨by decide, by decide, by decide⟩
  have hblank : ∀ body ∈ [Sample.body 0], body.Blank := by simp [Sample.body, RequestBody.Blank]
  exact ⟨h, (dispatched_as_sent_iff h).mpr ⟨hblank, [0], by decide, by decide⟩⟩

/-- A request that comes in one read is never dispatched; one that comes byte by byte is dispatched
before its body has come, as zeros. -/
theorem dispatched_depends_on_cut :
    Cut [Sample.body 7] (Sample.oneRead 7) ∧ Cut [Sample.body 7] (Sample.byteReads 7) ∧
      dispatches (handleConnection true (Sample.oneRead 7)) = [] ∧
      dispatches (handleConnection true (Sample.byteReads 7)) = [[0]] := by
  refine ⟨⟨by decide, by decide, by decide⟩, ⟨by decide, by decide, by decide⟩, ?_, ?_⟩
  · rw [handleConnection, if_pos rfl, Connection.new,
      Connection.readLoop_dispatches (by decide) (by decide), zeroRequests_of_length_lt (by decide)]
    rfl
  · rw [handleConnection, if_pos rfl, Connection.new,
      Connection.readLoop_dispatches (by decide) (by decide)]
    show [] ++ zeroRequests ((Sample.body 7).header ++ [7]) = [[0]]
    rw [RequestBody.zeroRequests_header, zeroRequests_of_length_lt (by decide)]
    rfl

end LruCache
