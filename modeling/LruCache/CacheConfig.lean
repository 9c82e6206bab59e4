import LruCache.CacheStorage

/-!
# `cache_config`

The configuration that `cache_config::from_file` loads, from `cache_config.cc` and the vendored
`ini.h`. The model begins after the constructor of `INIReader`, with the sections, keys and texts it
has read from the file. `Get` looks a text up, and the numbers are extracted from an
`istringstream`: white space is skipped, a sign is taken, digits are read up to the first other
character. No digits, or a number that does not fit, is an error; a minus sign negates modulo the
width. Nothing checks the numbers any further, so every `size_t` is a cache size and every
`unsigned short` a purge interval, zero included.
-/

namespace LruCache

/-- `std::runtime_error(what)`. -/
def runtimeError (what : String) : Fault := .thrown ("std::runtime_error: " ++ what)

/-- `inih::INIReader`: the sections of a file, each with its keys and their texts. -/
structure IniReader where
  values : List (String × List (String × String))
deriving DecidableEq, Repr

/-- `std::isspace`. -/
def isSpace (c : Char) : Bool := c.toNat == 32 || (decide (9 ≤ c.toNat) && decide (c.toNat ≤ 13))

/-- The sign in front of a number, and what follows it. -/
def extractSign : List Char → Bool × List Char
  | [] => (false, [])
  | c :: cs =>
    -- minus and plus
    if c.toNat = 45 then (true, cs) else if c.toNat = 43 then (false, cs) else (false, c :: cs)

/-- `operator>>` into an unsigned integer of the maximum `max`; `none` when it sets `failbit`. -/
def extractUnsigned (max : Nat) (text : List Char) : Option Nat :=
  let (negative, text) := extractSign (text.dropWhile isSpace)
  let digits := text.takeWhile Char.isDigit
  let n := Nat.ofDigitChars 10 digits 0
  if digits = [] then none
  else if max < n then none
  else some (if negative then (max + 1 - n) % (max + 1) else n)

namespace IniReader

/-- `INIReader::Get(section)`. -/
def getSection (r : IniReader) (sectionName : String) : Except Fault (List (String × String)) :=
  match r.values.lookup sectionName with
  | some keys => .ok keys
  | none => .error (runtimeError ("section '" ++ sectionName ++ "' not found."))

/-- `INIReader::Get<std::string>(section, name)`. -/
def get (r : IniReader) (sectionName name : String) : Except Fault String := do
  match (← r.getSection sectionName).lookup name with
  | some value => return value
  | none =>
    .error (runtimeError ("key '" ++ name ++ "' not found in section '" ++ sectionName ++ "'."))

/-- `INIReader::Converter<T>`, for an unsigned `T` of the maximum `max`. -/
def convert (max : Nat) (s : String) : Except Fault Nat :=
  match extractUnsigned max s.toList with
  | some n => .ok n
  | none => .error (runtimeError ("cannot parse value '" ++ s ++ "' to type<T>."))

/-- `INIReader::Get<T>(section, name)`, for an unsigned `T` of the maximum `max`. -/
def getUnsigned (r : IniReader) (max : Nat) (sectionName name : String) : Except Fault Nat := do
  convert max (← r.get sectionName name)

/-- `Get<unsigned short int>`. -/
def getUnsignedShort (r : IniReader) (sectionName name : String) : Except Fault UInt16 := do
  return UInt16.ofNat (← r.getUnsigned 65535 sectionName name)

/-- `Get<size_t>`. -/
def getSizeT (r : IniReader) (sectionName name : String) : Except Fault UInt64 := do
  return UInt64.ofNat (← r.getUnsigned (2 ^ 64 - 1) sectionName name)

end IniReader

/-- An address and a port. -/
structure Endpoint where
  address : String
  port : UInt16
deriving DecidableEq, Repr

/-- The `[raft]` section. The sizes that the file gives are narrowed to `int`. -/
structure RaftConfig where
  endpoint : Endpoint
  heartBeatInterval : Int32
  electionTimeoutLowerBound : Int32
  electionTimeoutUpperBound : Int32
  reservedLogItems : Int32
  snapshotDistance : Int32
  clientReqTimeout : Int32
deriving DecidableEq, Repr

/-- All fields of `cache_config`. -/
structure FullConfig where
  server : Endpoint
  discovery : Endpoint
  fallback : Endpoint
  cache : CacheConfig
  raft : RaftConfig
deriving DecidableEq, Repr

namespace CacheConfig

/-- An address and a port of a section. -/
def endpointFromFile (r : IniReader) (sectionName address port : String) :
    Except Fault Endpoint := do
  let address ← r.get sectionName address
  let port ← r.getUnsignedShort sectionName port
  return ⟨address, port⟩

/-- The `[cache]` section. The purge interval is read as an `unsigned short` into an `int`. -/
def cacheFromFile (r : IniReader) : Except Fault CacheConfig := do
  let cacheSize ← r.getSizeT "cache" "cache_size"
  let maxItemSize ← r.getSizeT "cache" "max_item_size"
  let maxKeySize ← r.getSizeT "cache" "max_key_size"
  let purgeInterval ← r.getUnsignedShort "cache" "purge_interval"
  return ⟨cacheSize, maxItemSize, maxKeySize, Int32.ofNat purgeInterval.toNat⟩

/-- The `[raft]` section. -/
def raftFromFile (r : IniReader) : Except Fault RaftConfig := do
  let endpoint ← endpointFromFile r "raft" "raft_host" "raft_port"
  let heartBeatInterval ← r.getSizeT "raft" "heart_beat_interval"
  let electionTimeoutLowerBound ← r.getSizeT "raft" "election_timeout_lower_bound"
  let electionTimeoutUpperBound ← r.getSizeT "raft" "election_timeout_upper_bound"
  let reservedLogItems ← r.getSizeT "raft" "reserved_log_items"
  let snapshotDistance ← r.getSizeT "raft" "snapshot_distance"
  let clientReqTimeout ← r.getSizeT "raft" "client_req_timeout"
  return ⟨endpoint, narrow heartBeatInterval, narrow electionTimeoutLowerBound,
    narrow electionTimeoutUpperBound, narrow reservedLogItems, narrow snapshotDistance,
    narrow clientReqTimeout⟩

/-- `cache_config::from_file`. -/
def fromFile (r : IniReader) : Except Fault FullConfig := do
  let server ← endpointFromFile r "server" "host" "port"
  let discovery ← endpointFromFile r "cluster" "discovery_address" "discovery_port"
  let fallback ← endpointFromFile r "cluster" "fallback_address" "fallback_port"
  let cache ← cacheFromFile r
  let raft ← raftFromFile r
  return ⟨server, discovery, fallback, cache, raft⟩

/-- Some file gives these values to the cache. -/
def Loadable (cfg : CacheConfig) : Prop := ∃ r config, fromFile r = .ok config ∧ config.cache = cfg

end CacheConfig

/-! ## The numbers that can be loaded -/

/-- The digits of a number are read back. -/
theorem extractUnsigned_toDigits {max n : Nat} (h : n ≤ max) :
    extractUnsigned max (Nat.toDigits 10 n) = some n := by
  have hdigit : ∀ c ∈ Nat.toDigits 10 n, c.isDigit = true := fun c hc =>
    Nat.isDigit_of_mem_toDigits (by decide) (by decide) hc
  have hlow : ∀ c ∈ Nat.toDigits 10 n, 48 ≤ c.toNat := by
    intro c hc
    have := hdigit c hc
    simp only [Char.isDigit, Bool.and_eq_true, decide_eq_true_eq] at this
    exact UInt32.le_iff_toNat_le.mp this.1
  have hspace : (Nat.toDigits 10 n).dropWhile isSpace = Nat.toDigits 10 n := by
    refine List.dropWhile_eq_self_iff.mpr fun hl => ?_
    have := hlow _ (List.getElem_mem hl)
    simp only [isSpace, Bool.or_eq_true, beq_iff_eq, Bool.and_eq_true, decide_eq_true_eq]
    omega
  have hsign : extractSign (Nat.toDigits 10 n) = (false, Nat.toDigits 10 n) := by
    match hd : Nat.toDigits 10 n with
    | [] => exact absurd hd Nat.toDigits_ne_nil
    | c :: cs =>
      have := hlow c (hd ▸ List.mem_cons_self)
      rw [extractSign, if_neg (by omega), if_neg (by omega)]
  have htake : (Nat.toDigits 10 n).takeWhile Char.isDigit = Nat.toDigits 10 n :=
    List.takeWhile_eq_self_iff.mpr hdigit
  unfold extractUnsigned
  rw [hspace, hsign]
  simp only [htake, Nat.ofDigitChars_ten_toDigits, if_neg Nat.toDigits_ne_nil,
    if_neg (Nat.not_lt.mpr h)]
  rfl

theorem IniReader.convert_toString {max n : Nat} (h : n ≤ max) :
    convert max (toString n) = .ok n := by
  have ht : (toString n).toList = Nat.toDigits 10 n := by
    rw [Nat.toString_eq_ofList_toDigits, String.toList_ofList]
  unfold convert
  rw [ht, extractUnsigned_toDigits h]

section

variable {r : IniReader} {sectionName name : String}

theorem IniReader.getSizeT_of_get {n : UInt64}
    (h : r.get sectionName name = .ok (toString n.toNat)) :
    r.getSizeT sectionName name = .ok n := by
  have hn : n.toNat ≤ 2 ^ 64 - 1 := Nat.le_sub_one_of_lt n.toNat_lt
  unfold getSizeT getUnsigned
  rw [h, Run.ok_bind, convert_toString hn]
  exact congrArg Except.ok UInt64.ofNat_toNat

theorem IniReader.getUnsignedShort_of_get {n : Nat} (hn : n < 2 ^ 16)
    (h : r.get sectionName name = .ok (toString n)) :
    r.getUnsignedShort sectionName name = .ok (UInt16.ofNat n) := by
  unfold getUnsignedShort getUnsigned
  rw [h, Run.ok_bind, convert_toString (Nat.le_of_lt_succ hn)]
  rfl

end

namespace Sample

/-- A file with the given `[cache]` section. -/
def iniReader (cfg : CacheConfig) : IniReader where
  values :=
    [("server", [("host", "127.0.0.1"), ("port", "7000")]),
      ("cluster", [("discovery_address", "127.0.0.1"), ("discovery_port", "7001"),
        ("fallback_address", "127.0.0.1"), ("fallback_port", "7002")]),
      ("cache", [("cache_size", toString cfg.cacheSize.toNat),
        ("max_item_size", toString cfg.maxItemSize.toNat),
        ("max_key_size", toString cfg.maxKeySize.toNat),
        ("purge_interval", toString cfg.purgeInterval.toInt.toNat)]),
      ("raft", [("raft_host", "127.0.0.1"), ("raft_port", "8000"), ("heart_beat_interval", "100"),
        ("election_timeout_lower_bound", "200"), ("election_timeout_upper_bound", "400"),
        ("reserved_log_items", "5"), ("snapshot_distance", "1000"),
        ("client_req_timeout", "3000")])]

end Sample

namespace CacheConfig

variable {cfg : CacheConfig}

/-- A purge interval is an `unsigned short`. -/
theorem purgeInterval_of_cacheFromFile {r : IniReader} (h : cacheFromFile r = .ok cfg) :
    0 ≤ cfg.purgeInterval.toInt ∧ cfg.purgeInterval.toInt < 2 ^ 16 := by
  obtain ⟨cacheSize, -, h⟩ := Run.bind_eq_ok.mp h
  obtain ⟨maxItemSize, -, h⟩ := Run.bind_eq_ok.mp h
  obtain ⟨maxKeySize, -, h⟩ := Run.bind_eq_ok.mp h
  obtain ⟨purgeInterval, -, h⟩ := Run.bind_eq_ok.mp h
  cases h
  have hlt := purgeInterval.toNat_lt
  show 0 ≤ (Int32.ofNat purgeInterval.toNat).toInt ∧
    (Int32.ofNat purgeInterval.toNat).toInt < 2 ^ 16
  rw [Int32.toInt_ofNat_of_lt (by omega)]
  omega

theorem cacheFromFile_iniReader
    (h : 0 ≤ cfg.purgeInterval.toInt ∧ cfg.purgeInterval.toInt < 2 ^ 16) :
    cacheFromFile (Sample.iniReader cfg) = .ok cfg := by
  have hinterval : (Sample.iniReader cfg).getUnsignedShort "cache" "purge_interval" =
      .ok (UInt16.ofNat cfg.purgeInterval.toInt.toNat) :=
    IniReader.getUnsignedShort_of_get (by omega) rfl
  have hback : Int32.ofNat (UInt16.ofNat cfg.purgeInterval.toInt.toNat).toNat =
      cfg.purgeInterval := by
    rw [UInt16.toNat_ofNat_of_lt' (by show _ < 2 ^ 16; omega)]
    refine Int32.toInt_inj.mp ?_
    rw [Int32.toInt_ofNat_of_lt (by omega)]
    omega
  unfold cacheFromFile
  rw [IniReader.getSizeT_of_get (n := cfg.cacheSize) rfl,
    IniReader.getSizeT_of_get (n := cfg.maxItemSize) rfl,
    IniReader.getSizeT_of_get (n := cfg.maxKeySize) rfl, hinterval]
  show Except.ok (⟨_, _, _, Int32.ofNat _⟩ : CacheConfig) = _
  rw [hback]

/-- What can be loaded: any sizes, and the intervals of an `unsigned short`. -/
theorem loadable_iff :
    cfg.Loadable ↔ 0 ≤ cfg.purgeInterval.toInt ∧ cfg.purgeInterval.toInt < 2 ^ 16 := by
  constructor
  · rintro ⟨r, config, h, rfl⟩
    obtain ⟨server, -, h⟩ := Run.bind_eq_ok.mp h
    obtain ⟨discovery, -, h⟩ := Run.bind_eq_ok.mp h
    obtain ⟨fallback, -, h⟩ := Run.bind_eq_ok.mp h
    obtain ⟨cache, hcache, h⟩ := Run.bind_eq_ok.mp h
    obtain ⟨raft, -, h⟩ := Run.bind_eq_ok.mp h
    cases h
    exact purgeInterval_of_cacheFromFile hcache
  · intro h
    have hserver : endpointFromFile (Sample.iniReader cfg) "server" "host" "port" =
        .ok ⟨"127.0.0.1", 7000⟩ := rfl
    have hdiscovery : endpointFromFile (Sample.iniReader cfg) "cluster" "discovery_address"
        "discovery_port" = .ok ⟨"127.0.0.1", 7001⟩ := rfl
    have hfallback : endpointFromFile (Sample.iniReader cfg) "cluster" "fallback_address"
        "fallback_port" = .ok ⟨"127.0.0.1", 7002⟩ := rfl
    have hraft : raftFromFile (Sample.iniReader cfg) =
        .ok ⟨⟨"127.0.0.1", 8000⟩, 100, 200, 400, 5, 1000, 3000⟩ := rfl
    refine ⟨Sample.iniReader cfg, ⟨⟨"127.0.0.1", 7000⟩, ⟨"127.0.0.1", 7001⟩, ⟨"127.0.0.1", 7002⟩,
      cfg, ⟨⟨"127.0.0.1", 8000⟩, 100, 200, 400, 5, 1000, 3000⟩⟩, ?_, rfl⟩
    unfold fromFile
    rw [hserver, hdiscovery, hfallback, cacheFromFile_iniReader h, hraft]
    rfl

end CacheConfig

end LruCache
