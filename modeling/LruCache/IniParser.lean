import LruCache.CacheConfig
import LruCache.Lib.Text

/-!
# The parser of configuration files

`ini_parse_stream` of the vendored `ini.h`, under the constructor of `INIReader` that
`cache_config::from_file` and `client_config::from_file` call. A file is the list of its bytes, each
as the character of its code.

The parser reads with `fgets` into a buffer that it doubles until a line fits, up to `INI_MAX_LINE`;
what lies behind a null byte is not seen. It stops at the first line that is neither blank, a
comment, a `[section]` nor a `name = value` pair. The buffer does not matter: for a file without
null bytes the lines are the text cut after every newline and after 1999 characters
(`parseStream_eq`). As long as the lines can be counted in an `int`, the files that are accepted are
those without a malformed line in which no key is given a text after a non-empty one, and the texts
are those of the last pairs (`accepts_iff`).
-/

namespace LruCache

/-- `INI_MAX_LINE`. -/
def iniMaxLine : Nat := 2000

/-- `MAX_SECTION`. -/
def maxSection : Nat := 50

/-! ## Characters -/

/-- `rstrip`. -/
def rstrip (s : List Char) : List Char := s.rdropWhile isSpace

/-- `lskip`. -/
def lskip (s : List Char) : List Char := s.dropWhile isSpace

/-- `find_chars_or_comment`: what lies before the character it points to, and the rest. `chars` is
empty for a null pointer. -/
def findCharsOrComment (chars : List Char) : Bool → List Char → List Char × List Char
  | _, [] => ([], [])
  | wasSpace, c :: s =>
    if c ∈ chars ∨ wasSpace = true ∧ c = ';' then ([], c :: s)
    else
      let r := findCharsOrComment chars (isSpace c) s
      (c :: r.1, r.2)

/-! ## Lines -/

/-- `fgets(str, num, stream)`: what is stored, and what is left. -/
def fgets (num : Nat) (stream : List Char) : Option (List Char × List Char) :=
  if stream = [] then none else some (Text.takeLine '\n' (num - 1) stream)

/-- The bytes of a block up to the first null. -/
def cString (block : List Char) : List Char := block.takeWhile fun c => c ≠ '\x00'

/-- The buffer for lines, of `max_line` bytes. -/
structure LineBuffer where
  maxLine : Nat
  one_lt : 1 < maxLine
  le_max : maxLine ≤ iniMaxLine

/-- The buffer that `ini_parse_stream` allocates, of `INI_INITIAL_ALLOC` bytes. -/
def LineBuffer.initial : LineBuffer := ⟨200, by decide, by decide⟩

/-- The buffer doubled, up to `INI_MAX_LINE`. -/
def LineBuffer.grow (b : LineBuffer) : LineBuffer where
  maxLine := min (b.maxLine * 2) iniMaxLine
  one_lt := by have := b.one_lt; unfold iniMaxLine; omega
  le_max := Nat.min_le_right _ _

/-- The inner loop: while the line fills the buffer without a newline, the buffer grows and more is
read. -/
def growLoop (b : LineBuffer) (line stream : List Char) : LineBuffer × List Char × List Char :=
  if line.length + 1 = b.maxLine ∧ line.getLast? ≠ some '\n' then
    match fgets (b.grow.maxLine - line.length) stream with
    | none => (b.grow, line, stream)
    | some (chunk, stream) =>
      if iniMaxLine ≤ b.grow.maxLine then (b.grow, line ++ cString chunk, stream)
      else growLoop b.grow (line ++ cString chunk) stream
  else (b, line, stream)
termination_by iniMaxLine - b.maxLine
decreasing_by
  have hone := b.one_lt
  unfold LineBuffer.grow iniMaxLine at *
  dsimp only at *
  omega

/-- The next line of the stream. -/
def readLine (b : LineBuffer) (stream : List Char) :
    Option (LineBuffer × List Char × List Char) :=
  match fgets b.maxLine stream with
  | none => none
  | some (chunk, stream) => some (growLoop b (cString chunk) stream)

/-- What a line of the file is. -/
inductive IniLine where
  | blank
  | header (name : List Char)
  | pair (name value : List Char)
  | malformed
deriving DecidableEq, Repr

/-- The branches of `ini_parse_stream` on a stripped line. `strchr` also finds the null at the end
of the prefixes, so an empty line is a comment. `strncpy0` cuts the name of a section. -/
def classify : List Char → IniLine
  | [] => .blank
  | c :: rest =>
    if c = ';' ∨ c = '#' then .blank
    else if c = '[' then
      match findCharsOrComment [']'] false rest with
      | (name, ']' :: _) => .header (name.take (maxSection - 1))
      | _ => .malformed
    else
      match findCharsOrComment ['=', ':'] false (c :: rest) with
      | (name, '=' :: value) | (name, ':' :: value) =>
        .pair (rstrip name) (rstrip (lskip (findCharsOrComment [] false value).1))
      | _ => .malformed

/-- The byte order mark that may stand at the start of the first line. -/
def skipByteOrderMark : List Char → List Char
  | 'ï' :: '»' :: '¿' :: line => line
  | line => line

/-! ## The reader -/

namespace IniReader

/-- `_values[section][name]`, when it is there. -/
def find? (r : IniReader) (sectionName name : String) : Option String :=
  (r.values.lookup sectionName).bind fun keys => keys.lookup name

/-- `_values[section][name] = value`. -/
def assign (r : IniReader) (sectionName name value : String) : IniReader :=
  ⟨Text.upsert sectionName (Text.upsert name value ((r.values.lookup sectionName).getD []))
    r.values⟩

/-- `INIReader::ValueHandler`. A key whose text is empty counts as absent. -/
def valueHandler (r : IniReader) (sectionName name value : String) : Except Fault IniReader :=
  if (r.find? sectionName name).getD "" = "" then .ok (r.assign sectionName name value)
  else
    .error (runtimeError ("duplicate key '" ++ name ++ "' in section '" ++ sectionName ++ "'."))

end IniReader

/-- The variables of `ini_parse_stream`, and the reader that the handler fills. -/
structure IniParser where
  lineno : Int32
  sectionName : List Char
  reader : IniReader
deriving DecidableEq, Repr

namespace IniParser

def initial : IniParser := ⟨0, [], ⟨[]⟩⟩

/-- The line after its byte order mark and the white space around it. -/
def start (p : IniParser) (line : List Char) : List Char :=
  lskip (rstrip (if p.lineno = 0 then skipByteOrderMark line else line))

/-- The effect of a line: the value of `error`, and the variables. -/
def apply (p : IniParser) : IniLine → Except Fault (Int32 × IniParser)
  | .blank => .ok (0, { p with lineno := p.lineno + 1 })
  | .header name => .ok (0, { p with lineno := p.lineno + 1, sectionName := name })
  | .pair name value => do
    let reader ← p.reader.valueHandler (.ofList p.sectionName) (.ofList name) (.ofList value)
    return (0, { p with lineno := p.lineno + 1, reader := reader })
  | .malformed => .ok (p.lineno + 1, { p with lineno := p.lineno + 1 })

/-- The body of the loop. -/
def feed (p : IniParser) (line : List Char) : Except Fault (Int32 × IniParser) :=
  p.apply (classify (p.start line))

end IniParser

/-! ## The loop -/

theorem fgets_eq_some {num : Nat} {stream chunk rest : List Char}
    (h : fgets num stream = some (chunk, rest)) :
    stream ≠ [] ∧ Text.takeLine '\n' (num - 1) stream = (chunk, rest) := by
  unfold fgets at h
  split at h
  · cases h
  · exact ⟨‹_›, Option.some.inj h⟩

theorem length_rest_le {num : Nat} {stream chunk rest : List Char}
    (h : fgets num stream = some (chunk, rest)) : chunk.length + rest.length = stream.length := by
  have happend := Text.takeLine_append '\n' (num - 1) stream
  rw [(fgets_eq_some h).2] at happend
  rw [← happend, List.length_append]

theorem growLoop_stream_le (b : LineBuffer) (line stream : List Char) :
    (growLoop b line stream).2.2.length ≤ stream.length := by
  fun_induction growLoop b line stream with
  | case1 => exact Nat.le_refl _
  | case2 b line stream _ chunk stream' hget =>
    have hlen := length_rest_le hget
    show stream'.length ≤ stream.length
    omega
  | case3 b line stream _ chunk stream' hget _ ih =>
    have hlen := length_rest_le hget
    omega
  | case4 => exact Nat.le_refl _

/-- Every line takes a byte off the stream at least. -/
theorem length_readLine_lt {b b' : LineBuffer} {stream line rest : List Char}
    (h : readLine b stream = some (b', line, rest)) : rest.length < stream.length := by
  unfold readLine at h
  split at h
  · cases h
  · rename_i chunk stream' hget
    obtain ⟨hne, htake⟩ := fgets_eq_some hget
    have hchunk : chunk ≠ [] := by
      obtain ⟨n, hn⟩ : ∃ n, b.maxLine - 1 = n + 1 := ⟨b.maxLine - 2, by have := b.one_lt; omega⟩
      have hcons := Text.takeLine_ne_nil '\n' n hne
      rwa [← hn, htake] at hcons
    have hpos := List.length_pos_iff.mpr hchunk
    have hlen := length_rest_le hget
    have hle := growLoop_stream_le b (cString chunk) stream'
    rw [Option.some.inj h] at hle
    dsimp only at hle
    omega

namespace IniParser

/-- The loop of `ini_parse_stream`: the value of `error`, and the variables. -/
def parseStream (b : LineBuffer) (p : IniParser) (stream : List Char) :
    Except Fault (Int32 × IniParser) :=
  match _h : readLine b stream with
  | none => .ok (0, p)
  | some (b', line, rest) =>
    match p.feed line with
    | .error fault => .error fault
    | .ok (error, p) => if error = 0 then parseStream b' p rest else .ok (error, p)
termination_by stream.length
decreasing_by exact length_readLine_lt _h

end IniParser

/-- `INIReader::ParseError` for a reader whose `_error` is `error`. -/
def IniReader.parseError (r : IniReader) (error : Int32) : Except Fault IniReader :=
  if error = 0 then .ok r
  else if error = -1 then .error (runtimeError "ini file not found.")
  else if error = -2 then .error (runtimeError "memory alloc error")
  else .error (runtimeError ("parse error on line no: " ++ toString error.toInt))

/-- `INIReader::INIReader(filename)`: `ini_parse` with `ValueHandler`, then `ParseError`. `none` is
a file that cannot be opened. -/
def IniReader.ofFile : Option (List Char) → Except Fault IniReader
  | none => parseError ⟨[]⟩ (-1)
  | some file =>
    match IniParser.initial.parseStream .initial file with
    | .error fault => .error fault
    | .ok (error, p) => p.reader.parseError error

/-- `cache_config::from_file`. -/
def CacheConfig.load (file : Option (List Char)) : Except Fault FullConfig := do
  fromFile (← IniReader.ofFile file)

/-- `client_config`. -/
structure ClientConfig where
  discovery : Endpoint
  fallback : Endpoint
deriving DecidableEq, Repr

/-- `client_config::from_file`. -/
def ClientConfig.load (file : Option (List Char)) : Except Fault ClientConfig := do
  let r ← IniReader.ofFile file
  let discovery ← CacheConfig.endpointFromFile r "cluster" "discovery_address" "discovery_port"
  let fallback ← CacheConfig.endpointFromFile r "cluster" "fallback_address" "fallback_port"
  return ⟨discovery, fallback⟩

/-! ## The buffer does not matter -/

/-- The most characters that a line has, its newline included. -/
def maxLineChars : Nat := iniMaxLine - 1

theorem cString_eq {block : List Char} (h : '\x00' ∉ block) : cString block = block := by
  unfold cString
  rw [List.takeWhile_eq_self_iff]
  intro c hc
  exact decide_eq_true fun heq => h (heq ▸ hc)

theorem notMem_takeLine {c : Char} {n : Nat} {stream : List Char} (h : c ∉ stream) :
    c ∉ (Text.takeLine '\n' n stream).1 ∧ c ∉ (Text.takeLine '\n' n stream).2 := by
  rw [← Text.takeLine_append '\n' n stream, List.mem_append, not_or] at h
  exact h

/-- However far the buffer has grown, the loop completes the line that has been begun. -/
theorem growLoop_eq (b : LineBuffer) (stream : List Char) (h : '\x00' ∉ stream) :
    (growLoop b (Text.takeLine '\n' (b.maxLine - 1) stream).1
        (Text.takeLine '\n' (b.maxLine - 1) stream).2).2 =
      Text.takeLine '\n' maxLineChars stream := by
  -- By induction on how far the buffer can still grow.
  induction hk : iniMaxLine - b.maxLine using Nat.strong_induction_on generalizing b with
  | _ k ih =>
  have hone := b.one_lt
  have hmax := b.le_max
  have hle := Text.length_takeLine_le '\n' (b.maxLine - 1) stream
  obtain ⟨m, hm⟩ : ∃ m, maxLineChars = (b.maxLine - 1) + m :=
    ⟨maxLineChars - (b.maxLine - 1), by unfold maxLineChars; omega⟩
  rw [growLoop]
  split
  · rename_i hfull
    obtain ⟨hlen, hlast⟩ := hfull
    have hlen : (Text.takeLine '\n' (b.maxLine - 1) stream).1.length = b.maxLine - 1 := by omega
    have hadd := fun n => Text.takeLine_add (m := n) hlen hlast
    have hgrow : b.grow.maxLine = min (b.maxLine * 2) iniMaxLine := rfl
    split
    · rename_i hget
      have hnil : (Text.takeLine '\n' (b.maxLine - 1) stream).2 = [] := by
        by_contra hne
        rw [fgets, if_neg hne] at hget
        cases hget
      rw [hm, hadd, hnil, Text.takeLine_nil, List.append_nil]
    · rename_i chunk rest hget
      have hchunk := (fgets_eq_some hget).2
      have hrest : '\x00' ∉ (Text.takeLine '\n' (b.maxLine - 1) stream).2 := (notMem_takeLine h).2
      have hnull : '\x00' ∉ chunk := by
        rw [← Text.takeLine_append '\n' _ (Text.takeLine '\n' (b.maxLine - 1) stream).2,
          hchunk] at hrest
        exact fun hmem => hrest (List.mem_append_left _ hmem)
      have hread := hadd (b.grow.maxLine - (b.maxLine - 1) - 1)
      rw [hlen] at hchunk
      have hsum : b.maxLine - 1 + (b.grow.maxLine - (b.maxLine - 1) - 1) = b.grow.maxLine - 1 := by
        omega
      rw [hchunk, hsum] at hread
      rw [cString_eq hnull]
      split
      · have hfull : b.grow.maxLine - 1 = maxLineChars := by
          unfold maxLineChars
          omega
        rw [← hfull, hread]
      · have hih := ih _ (by omega) b.grow rfl
        rw [hread] at hih
        exact hih
  · rename_i hended
    rw [hm, Text.takeLine_of_ended]
    by_cases hlast : (Text.takeLine '\n' (b.maxLine - 1) stream).1.getLast? = some '\n'
    · exact .inr hlast
    · have hlen : (Text.takeLine '\n' (b.maxLine - 1) stream).1.length + 1 ≠ b.maxLine :=
        fun hlen => hended ⟨hlen, hlast⟩
      exact .inl (by omega)

theorem readLine_eq {b : LineBuffer} {stream : List Char} (h : '\x00' ∉ stream)
    (hne : stream ≠ []) :
    ∃ b', readLine b stream =
      some (b', (Text.takeLine '\n' maxLineChars stream).1,
        (Text.takeLine '\n' maxLineChars stream).2) := by
  unfold readLine fgets
  rw [if_neg hne]
  dsimp only
  rw [cString_eq (notMem_takeLine h).1]
  refine ⟨_, congrArg some (Prod.ext rfl ?_)⟩
  exact growLoop_eq b stream h

namespace IniParser

/-- The loop over lines that have been read. -/
def feedAll (p : IniParser) : List (List Char) → Except Fault (Int32 × IniParser)
  | [] => .ok (0, p)
  | line :: rest =>
    match p.feed line with
    | .error fault => .error fault
    | .ok (error, p) => if error = 0 then feedAll p rest else .ok (error, p)

/-- For a file without null bytes the lines are the text cut after every newline and after every
1999 characters, whatever the buffer. -/
theorem parseStream_eq (b : LineBuffer) (p : IniParser) {stream : List Char}
    (h : '\x00' ∉ stream) :
    p.parseStream b stream = p.feedAll (Text.lines '\n' maxLineChars stream) := by
  induction hk : stream.length using Nat.strong_induction_on generalizing b p stream with
  | _ k ih =>
  rw [parseStream]
  by_cases hne : stream = []
  · subst hne
    rfl
  · obtain ⟨b', hread⟩ := readLine_eq (b := b) h hne
    rw [Text.lines_eq (by decide) hne, feedAll]
    split
    · rename_i hnone
      rw [hread] at hnone
      cases hnone
    · rename_i b'' line rest hsome
      have hlt := length_readLine_lt hsome
      rw [hread] at hsome
      cases hsome
      cases p.feed (Text.takeLine '\n' maxLineChars stream).1 with
      | error fault => rfl
      | ok r =>
        dsimp only
        rw [ih _ (hk ▸ hlt) _ _ (notMem_takeLine h).2 rfl]

/-! ## What is accepted -/

/-- The loop over lines that have been classified. -/
def applyAll (p : IniParser) : List IniLine → Except Fault (Int32 × IniParser)
  | [] => .ok (0, p)
  | item :: rest =>
    match p.apply item with
    | .error fault => .error fault
    | .ok (error, p) => if error = 0 then applyAll p rest else .ok (error, p)

/-- The lines of a file, classified. -/
def items : List (List Char) → List IniLine
  | [] => []
  | line :: rest =>
    classify (lskip (rstrip (skipByteOrderMark line))) ::
      rest.map fun line => classify (lskip (rstrip line))

theorem apply_lineno {p p' : IniParser} {item : IniLine} {error : Int32}
    (h : p.apply item = .ok (error, p')) : p'.lineno = p.lineno + 1 := by
  cases item with
  | pair name value =>
    obtain ⟨r, -, hr⟩ := Run.bind_eq_ok.mp h
    cases hr
    rfl
  | _ =>
    cases h
    rfl

/-- `n` more lines can be counted in an `int`. -/
def Counts (p : IniParser) (n : Nat) : Prop := 0 ≤ p.lineno.toInt ∧ p.lineno.toInt + n < 2 ^ 31

theorem Counts.toInt_succ {p : IniParser} {n : Nat} (h : p.Counts (n + 1)) :
    (p.lineno + 1).toInt = p.lineno.toInt + 1 := by
  obtain ⟨hpos, hlt⟩ := h
  have hone : (1 : Int32).toInt = 1 := rfl
  rw [Int32.toInt_add, hone, Int.bmod_eq_of_le (by omega) (by omega)]

theorem Counts.apply {p p' : IniParser} {item : IniLine} {error : Int32} {n : Nat}
    (h : p.Counts (n + 1)) (happly : p.apply item = .ok (error, p')) :
    p'.Counts n ∧ 0 < p'.lineno.toInt := by
  have hnext := h.toInt_succ
  rw [← apply_lineno happly] at hnext
  obtain ⟨hpos, hlt⟩ := h
  exact ⟨⟨by omega, by omega⟩, by omega⟩

theorem Counts.succ_ne_zero {p : IniParser} {n : Nat} (h : p.Counts (n + 1)) :
    p.lineno + 1 ≠ 0 := by
  intro hzero
  have hnext := h.toInt_succ
  have := h.1
  rw [hzero, Int32.toInt_zero] at hnext
  omega

theorem feedAll_eq_of_pos {p : IniParser} (h : 0 < p.lineno.toInt) {lines : List (List Char)}
    (hlines : p.Counts lines.length) :
    p.feedAll lines = p.applyAll (lines.map fun line => classify (lskip (rstrip line))) := by
  induction lines generalizing p with
  | nil => rfl
  | cons line rest ih =>
    have hne : p.lineno ≠ 0 := fun hzero => by
      rw [hzero] at h
      exact absurd h (by decide)
    have hstart : p.start line = lskip (rstrip line) := by
      unfold start
      rw [if_neg hne]
    rw [feedAll, List.map_cons, applyAll, feed, hstart]
    cases happly : p.apply (classify (lskip (rstrip line))) with
    | error fault => rfl
    | ok r =>
      obtain ⟨hrest, hpos⟩ := hlines.apply happly
      dsimp only
      rw [ih hpos hrest]

theorem counts_initial {n : Nat} (h : n < 2 ^ 31) : initial.Counts n :=
  ⟨Int.le_refl 0, by show 0 + (n : Int) < _; omega⟩

theorem feedAll_initial {lines : List (List Char)} (h : lines.length < 2 ^ 31) :
    initial.feedAll lines = initial.applyAll (items lines) := by
  cases lines with
  | nil => rfl
  | cons line rest =>
    rw [feedAll, items, applyAll]
    show (match initial.apply (classify (lskip (rstrip (skipByteOrderMark line)))) with
      | .error fault => _
      | .ok (error, p) => _) = _
    cases happly : initial.apply (classify (lskip (rstrip (skipByteOrderMark line)))) with
    | error fault => rfl
    | ok r =>
      obtain ⟨hrest, hpos⟩ := (counts_initial h).apply happly
      dsimp only
      rw [feedAll_eq_of_pos hpos hrest]

end IniParser

/-- A pair with the section that it stands in. -/
structure IniBinding where
  sectionName : String
  name : String
  value : String
deriving DecidableEq, Repr

namespace IniBinding

/-- What a text is looked up by. -/
def key (b : IniBinding) : String × String := (b.sectionName, b.name)

/-- The pairs of a file, behind lines that leave `sectionName` in force. -/
def ofItems (sectionName : List Char) : List IniLine → List IniBinding
  | [] => []
  | .header name :: rest => ofItems name rest
  | .pair name value :: rest =>
    ⟨.ofList sectionName, .ofList name, .ofList value⟩ :: ofItems sectionName rest
  | .blank :: rest | .malformed :: rest => ofItems sectionName rest

/-- No key is given a text after a text that is not empty. -/
def NoDuplicates (bindings : List IniBinding) : Prop :=
  bindings.Pairwise fun b b' => b.key = b'.key → b.value = ""

instance (bindings : List IniBinding) : Decidable (NoDuplicates bindings) :=
  inferInstanceAs (Decidable (List.Pairwise _ _))

end IniBinding

namespace IniReader

variable {r : IniReader}

/-- The reader with the pair. -/
def bind (r : IniReader) (b : IniBinding) : IniReader := r.assign b.sectionName b.name b.value

theorem find?_bind (b : IniBinding) (sectionName name : String) :
    (r.bind b).find? sectionName name =
      if b.key = (sectionName, name) then some b.value else r.find? sectionName name := by
  unfold bind assign find? IniBinding.key
  rw [Text.lookup_upsert]
  by_cases hs : sectionName = b.sectionName
  · subst hs
    rw [if_pos rfl, Option.bind_some, Text.lookup_upsert]
    by_cases hn : name = b.name
    · rw [if_pos hn, if_pos (by rw [hn])]
    · rw [if_neg hn, if_neg fun heq => hn (Prod.ext_iff.mp heq).2.symm]
      cases r.values.lookup b.sectionName <;> rfl
  · rw [if_neg hs, if_neg fun heq => hs (Prod.ext_iff.mp heq).1.symm]

/-- The texts after some pairs are those of the last pair for each key. -/
theorem find?_foldl_bind (bindings : List IniBinding) (sectionName name : String) :
    (bindings.foldl bind r).find? sectionName name =
      ((bindings.reverse.find? fun b => b.key = (sectionName, name)).map IniBinding.value).or
        (r.find? sectionName name) := by
  induction bindings generalizing r with
  | nil => rfl
  | cons b bindings ih =>
    rw [List.foldl_cons, ih, List.reverse_cons, List.find?_append, find?_bind, Option.map_or,
      Option.or_assoc]
    congr 1
    by_cases hb : b.key = (sectionName, name)
    · rw [if_pos hb, List.find?_singleton, if_pos (decide_eq_true hb)]
      rfl
    · rw [if_neg hb, List.find?_singleton, if_neg (by simpa using hb)]
      rfl

/-- The handler accepts a pair exactly when there is no text for it yet. -/
theorem valueHandler_eq_ok {b : IniBinding} {r' : IniReader} :
    r.valueHandler b.sectionName b.name b.value = .ok r' ↔
      (r.find? b.sectionName b.name).getD "" = "" ∧ r' = r.bind b := by
  unfold valueHandler
  by_cases h : (r.find? b.sectionName b.name).getD "" = ""
  · rw [if_pos h]
    exact ⟨fun heq => ⟨h, (Except.ok.inj heq).symm⟩, fun heq => congrArg Except.ok heq.2.symm⟩
  · rw [if_neg h]
    exact ⟨(fun heq => nomatch heq), fun heq => absurd heq.1 h⟩

/-- A later pair meets a text after `b` when it did before, or when `b` gives it one. -/
theorem vacant_bind {b b' : IniBinding} (h : (r.find? b.sectionName b.name).getD "" = "") :
    ((r.bind b).find? b'.sectionName b'.name).getD "" = "" ↔
      (r.find? b'.sectionName b'.name).getD "" = "" ∧ (b.key = b'.key → b.value = "") := by
  rw [find?_bind]
  by_cases hkey : b.key = b'.key
  · have hs : b.sectionName = b'.sectionName := (Prod.ext_iff.mp hkey).1
    have hn : b.name = b'.name := (Prod.ext_iff.mp hkey).2
    rw [hs, hn] at h
    rw [if_pos (show b.key = (b'.sectionName, b'.name) from hkey)]
    exact ⟨fun heq => ⟨h, fun _ => heq⟩, fun heq => heq.2 hkey⟩
  · rw [if_neg (show ¬ b.key = (b'.sectionName, b'.name) from hkey)]
    exact ⟨fun heq => ⟨heq, fun hc => absurd hc hkey⟩, fun heq => heq.1⟩

end IniReader

namespace IniParser

/-- What makes the rest of a file acceptable: no line is malformed, and no pair meets a text that is
already there or is given before it. -/
def Acceptable (p : IniParser) (list : List IniLine) : Prop :=
  .malformed ∉ list ∧
    (∀ b ∈ IniBinding.ofItems p.sectionName list,
      (p.reader.find? b.sectionName b.name).getD "" = "") ∧
    IniBinding.NoDuplicates (IniBinding.ofItems p.sectionName list)

theorem acceptable_pair {p : IniParser} {name value : List Char} {rest : List IniLine}
    {b : IniBinding} (hb : b = ⟨.ofList p.sectionName, .ofList name, .ofList value⟩)
    (h : (p.reader.find? b.sectionName b.name).getD "" = "") :
    p.Acceptable (.pair name value :: rest) ↔
      Acceptable ⟨p.lineno + 1, p.sectionName, p.reader.bind b⟩ rest := by
  unfold Acceptable IniBinding.NoDuplicates
  rw [IniBinding.ofItems, ← hb, List.pairwise_cons]
  simp only [List.mem_cons, reduceCtorEq, false_or, forall_eq_or_imp, IniReader.vacant_bind h]
  constructor
  · rintro ⟨hmal, ⟨-, hall⟩, hfirst, hrest⟩
    exact ⟨hmal, fun b' hb' => ⟨hall b' hb', hfirst b' hb'⟩, hrest⟩
  · rintro ⟨hmal, hall, hrest⟩
    exact ⟨hmal, ⟨h, fun b' hb' => (hall b' hb').1⟩, fun b' hb' => (hall b' hb').2, hrest⟩

theorem applyAll_eq_ok {p : IniParser} {list : List IniLine} {r : IniReader}
    (hlines : p.Counts list.length) :
    (∃ p', p.applyAll list = .ok (0, p') ∧ p'.reader = r) ↔
      p.Acceptable list ∧
        r = (IniBinding.ofItems p.sectionName list).foldl IniReader.bind p.reader := by
  -- One case for each kind of line; only a pair and a malformed line can end the run.
  induction list generalizing p with
  | nil =>
    constructor
    · rintro ⟨p', h, rfl⟩
      cases h
      exact ⟨⟨List.not_mem_nil, (fun _ h => nomatch h), List.Pairwise.nil⟩, rfl⟩
    · rintro ⟨-, rfl⟩
      exact ⟨p, rfl, rfl⟩
  | cons item rest ih =>
    cases item with
    | blank =>
      have hnext : p.apply .blank = .ok (0, { p with lineno := p.lineno + 1 }) := rfl
      refine Iff.trans (ih (hlines.apply hnext).1) ?_
      simp only [Acceptable, IniBinding.ofItems, List.mem_cons, reduceCtorEq, false_or]
    | header name =>
      have hnext : p.apply (.header name) =
          .ok (0, { p with lineno := p.lineno + 1, sectionName := name }) := rfl
      refine Iff.trans (ih (hlines.apply hnext).1) ?_
      simp only [Acceptable, IniBinding.ofItems, List.mem_cons, reduceCtorEq, false_or]
    | malformed =>
      constructor
      · rintro ⟨p', h, -⟩
        have hne := hlines.succ_ne_zero
        rw [applyAll, apply] at h
        dsimp only at h
        rw [if_neg hne] at h
        exact absurd (Prod.mk.inj (Except.ok.inj h)).1 hne
      · rintro ⟨⟨hmal, -⟩, -⟩
        exact absurd List.mem_cons_self hmal
    | pair name value =>
      obtain ⟨b, hb⟩ : ∃ b : IniBinding, b = ⟨.ofList p.sectionName, .ofList name, .ofList value⟩ :=
        ⟨_, rfl⟩
      have happly : p.apply (.pair name value) =
          (p.reader.valueHandler b.sectionName b.name b.value >>= fun reader =>
            .ok (0, { p with lineno := p.lineno + 1, reader := reader })) := by
        rw [hb]
        rfl
      rw [applyAll, happly]
      by_cases h : (p.reader.find? b.sectionName b.name).getD "" = ""
      · have hnext : p.apply (.pair name value) =
            .ok (0, ⟨p.lineno + 1, p.sectionName, p.reader.bind b⟩) := by
          rw [happly, IniReader.valueHandler_eq_ok.mpr ⟨h, rfl⟩]
          rfl
        rw [IniReader.valueHandler_eq_ok.mpr ⟨h, rfl⟩, acceptable_pair hb h, IniBinding.ofItems,
          List.foldl_cons, ← hb]
        exact ih (hlines.apply hnext).1
      · have herror : ∃ fault, p.reader.valueHandler b.sectionName b.name b.value = .error fault :=
          ⟨_, if_neg h⟩
        obtain ⟨fault, herror⟩ := herror
        rw [herror]
        constructor
        · rintro ⟨p', hp', -⟩
          cases hp'
        · rintro ⟨⟨-, hall, -⟩, -⟩
          refine absurd (hall b ?_) h
          rw [hb, IniBinding.ofItems]
          exact List.mem_cons_self

theorem applyAll_cons {p p' : IniParser} {item : IniLine} {rest : List IniLine}
    (h : p.applyAll (item :: rest) = .ok (0, p')) :
    ∃ q, p.apply item = .ok (0, q) ∧ q.applyAll rest = .ok (0, p') := by
  rw [applyAll] at h
  cases happly : p.apply item with
  | error fault =>
    rw [happly] at h
    cases h
  | ok res =>
    obtain ⟨error, q⟩ := res
    rw [happly] at h
    dsimp only at h
    by_cases hzero : error = 0
    · subst hzero
      rw [if_pos rfl] at h
      exact ⟨q, rfl, h⟩
    · rw [if_neg hzero] at h
      cases h
      exact absurd rfl hzero

theorem applyAll_append {p p' : IniParser} {front rest : List IniLine}
    (h : p.applyAll front = .ok (0, p')) : p.applyAll (front ++ rest) = p'.applyAll rest := by
  induction front generalizing p with
  | nil =>
    cases h
    rfl
  | cons item front ih =>
    obtain ⟨q, happly, hrest⟩ := applyAll_cons h
    rw [List.cons_append, applyAll, happly]
    exact ih hrest

theorem applyAll_lineno {p p' : IniParser} {list : List IniLine} (hlines : p.Counts list.length)
    (h : p.applyAll list = .ok (0, p')) : p'.lineno.toInt = p.lineno.toInt + list.length := by
  induction list generalizing p with
  | nil =>
    cases h
    exact (Int.add_zero _).symm
  | cons item list ih =>
    obtain ⟨q, happly, hrest⟩ := applyAll_cons h
    rw [ih (hlines.apply happly).1 hrest, apply_lineno happly, hlines.toInt_succ, List.length_cons]
    omega

end IniParser

/-- The lines of a file, each as what the parser takes it for. -/
def IniParser.itemsOf (file : List Char) : List IniLine :=
  items (Text.lines '\n' maxLineChars file)

/-- The lines of a file can be counted in an `int`. -/
def IniParser.CountableLines (file : List Char) : Prop :=
  (Text.lines '\n' maxLineChars file).length < 2 ^ 31

instance (file : List Char) : Decidable (IniParser.CountableLines file) :=
  inferInstanceAs (Decidable (_ < _))

theorem IniParser.length_itemsOf (file : List Char) :
    (itemsOf file).length = (Text.lines '\n' maxLineChars file).length := by
  unfold itemsOf
  cases Text.lines '\n' maxLineChars file with
  | nil => rfl
  | cons line rest => rw [items, List.length_cons, List.length_map, List.length_cons]

theorem IniParser.CountableLines.counts {file : List Char} (h : CountableLines file) :
    initial.Counts (itemsOf file).length :=
  counts_initial (by rw [length_itemsOf]; exact h)

/-- The pairs of a file. -/
def IniBinding.ofFile (file : List Char) : List IniBinding := ofItems [] (IniParser.itemsOf file)

namespace IniReader

theorem ofFile_eq {file : List Char} (h : '\x00' ∉ file) (hlines : IniParser.CountableLines file) :
    ofFile (some file) =
      match IniParser.initial.applyAll (IniParser.itemsOf file) with
      | .error fault => .error fault
      | .ok (error, p) => p.reader.parseError error := by
  unfold ofFile IniParser.itemsOf
  dsimp only
  rw [IniParser.parseStream_eq _ _ h, IniParser.feedAll_initial hlines]

/-- From one on the value is the number of a line. -/
theorem parseError_line {r : IniReader} {error : Int32} (h : 0 < error.toInt) :
    r.parseError error =
      .error (runtimeError ("parse error on line no: " ++ toString error.toInt)) := by
  have hne : ∀ n : Int32, n.toInt ≤ 0 → error ≠ n := fun n hn heq => by
    rw [heq] at h
    omega
  rw [parseError, if_neg (hne 0 (by decide)), if_neg (hne (-1) (by decide)),
    if_neg (hne (-2) (by decide))]

theorem parseError_eq_ok {r r' : IniReader} {error : Int32} :
    r.parseError error = .ok r' ↔ error = 0 ∧ r = r' := by
  unfold parseError
  split
  · next hzero => exact ⟨fun heq => ⟨hzero, Except.ok.inj heq⟩, fun heq => congrArg _ heq.2⟩
  · next hzero =>
    refine ⟨fun heq => ?_, fun heq => absurd heq.1 hzero⟩
    split at heq
    · cases heq
    · split at heq <;> cases heq

theorem ofFile_eq_ok {file : List Char} {r : IniReader} (h : '\x00' ∉ file)
    (hlines : IniParser.CountableLines file) :
    ofFile (some file) = .ok r ↔
      .malformed ∉ IniParser.itemsOf file ∧ IniBinding.NoDuplicates (IniBinding.ofFile file) ∧
        r = (IniBinding.ofFile file).foldl bind ⟨[]⟩ := by
  have hok : ofFile (some file) = .ok r ↔
      ∃ p', IniParser.initial.applyAll (IniParser.itemsOf file) = .ok (0, p') ∧ p'.reader = r := by
    rw [ofFile_eq h hlines]
    cases IniParser.initial.applyAll (IniParser.itemsOf file) with
    | error fault => exact ⟨(fun hc => nomatch hc), fun ⟨_, hc, _⟩ => nomatch hc⟩
    | ok res =>
      obtain ⟨error, p⟩ := res
      dsimp only
      rw [parseError_eq_ok]
      constructor
      · rintro ⟨rfl, rfl⟩
        exact ⟨p, rfl, rfl⟩
      · rintro ⟨p', heq, rfl⟩
        cases heq
        exact ⟨rfl, rfl⟩
  rw [hok, IniParser.applyAll_eq_ok hlines.counts, IniParser.Acceptable, and_assoc, and_assoc]
  exact and_congr_right fun _ => and_iff_right fun _ _ => rfl

/-- Which files the parser accepts, what it then holds, and what it says otherwise. A file without
null bytes whose lines can be counted in an `int` is accepted exactly when none of its lines is
malformed and no key is given a text after a non-empty one; each key then has the text of its last
pair. A malformed line behind acceptable ones is reported with its number. -/
theorem accepts_iff {file : List Char} (h : '\x00' ∉ file)
    (hlines : IniParser.CountableLines file) :
    ((∃ r, ofFile (some file) = .ok r) ↔
      .malformed ∉ IniParser.itemsOf file ∧ IniBinding.NoDuplicates (IniBinding.ofFile file)) ∧
    (∀ r, ofFile (some file) = .ok r → ∀ sectionName name,
      r.find? sectionName name =
        ((IniBinding.ofFile file).reverse.find? fun b => b.key = (sectionName, name)).map
          IniBinding.value) ∧
    ∀ front rest, IniParser.itemsOf file = front ++ .malformed :: rest → .malformed ∉ front →
      IniBinding.NoDuplicates (IniBinding.ofItems [] front) →
      ofFile (some file) =
        .error (runtimeError ("parse error on line no: " ++ toString (front.length + 1))) := by
  refine ⟨⟨?_, ?_⟩, ?_, ?_⟩
  · rintro ⟨r, hr⟩
    obtain ⟨hmal, hdup, -⟩ := (ofFile_eq_ok h hlines).mp hr
    exact ⟨hmal, hdup⟩
  · rintro ⟨hmal, hdup⟩
    exact ⟨_, (ofFile_eq_ok h hlines).mpr ⟨hmal, hdup, rfl⟩⟩
  · intro r hr sectionName name
    obtain ⟨-, -, rfl⟩ := (ofFile_eq_ok h hlines).mp hr
    rw [find?_foldl_bind]
    exact Option.or_none
  · intro front rest hitems hmal hdup
    have hfront : IniParser.initial.Acceptable front := ⟨hmal, fun _ _ => rfl, hdup⟩
    have hcounts := hlines.counts
    rw [hitems, List.length_append, List.length_cons] at hcounts
    have hbound : front.length + (rest.length + 1) < 2 ^ 31 := by
      have hlt := hcounts.2
      have hzero : IniParser.initial.lineno.toInt = 0 := rfl
      omega
    have hcounts' := IniParser.counts_initial (n := front.length) (by omega)
    obtain ⟨p', hp', -⟩ := (IniParser.applyAll_eq_ok hcounts').mpr ⟨hfront, rfl⟩
    have hlineno : p'.lineno.toInt = front.length :=
      (IniParser.applyAll_lineno hcounts' hp').trans (Int.zero_add _)
    have hp : p'.Counts (0 + 1) := ⟨by omega, by omega⟩
    have hnumber : (p'.lineno + 1).toInt = (front.length + 1 : Nat) := by
      rw [hp.toInt_succ, hlineno]
      rfl
    rw [ofFile_eq h hlines, hitems, IniParser.applyAll_append hp', IniParser.applyAll,
      IniParser.apply]
    dsimp only
    rw [if_neg hp.succ_ne_zero]
    dsimp only
    rw [parseError_line (by omega), hnumber]
    rfl

namespace Sample

/-- `[s]`, a comment, `k=1` and a line without a delimiter. -/
def file : List Char :=
  ['[', 's', ']', '\n', ' ', ';', 'c', '\n', 'k', '=', '1', ' ', ';', 'c', '\n', 'k', '\n']

/-- What the lines before the last one are. -/
def front : List IniLine := [.header ['s'], .blank, .pair ['k'] ['1']]

theorem itemsOf_file : IniParser.itemsOf file = front ++ .malformed :: [] := by decide +kernel

end Sample

theorem accepts_iff_sample :
    ofFile (some Sample.file) =
      .error (runtimeError ("parse error on line no: " ++ toString (Sample.front.length + 1))) :=
  (accepts_iff (by decide) (by decide +kernel)).2.2 Sample.front [] Sample.itemsOf_file
    (by decide) (by decide +kernel)

end IniReader

end LruCache
