import LruCache.IniParser
import LruCache.Lib.OrderedMap
import Mathlib.Data.String.Basic

/-!
# Writing a configuration file and reading it again

`INIWriter::write` prints the sections of a reader, each with its keys, in the order of their names.
Everything that the parser accepts can be printed and read again (`reread_written`): what it stores
has no white space at the ends, no delimiter where one would be found, and fits on a line, because
it came out of a line (`ofFile_sound`).
-/

namespace LruCache

/-! ## The writer -/

/-- The names of a table, as `std::set` lists them. -/
def names {α : Type} (table : List (String × α)) : List String :=
  (table.foldl (fun m e => m.set e.1 ()) (OrderedMap.empty : OrderedMap String Unit)).entries.map
    Prod.fst

namespace IniReader

/-- `INIReader::Sections`. -/
def sections (r : IniReader) : List String := names r.values

/-- `INIReader::Keys`. -/
def keys (r : IniReader) (sectionName : String) : Except Fault (List String) := do
  return names (← r.getSection sectionName)

/-- The line for a key. -/
def writeKey (r : IniReader) (sectionName key : String) : Except Fault (List Char) := do
  return key.toList ++ '=' :: (← r.get sectionName key).toList ++ ['\n']

/-- The lines for a section. -/
def writeSection (r : IniReader) (sectionName : String) : Except Fault (List Char) := do
  let lines ← (← r.keys sectionName).mapM (r.writeKey sectionName)
  return '[' :: sectionName.toList ++ [']', '\n'] ++ lines.flatten

/-- `INIWriter::write`: the contents of the new file. -/
def write (r : IniReader) : Except Fault (List Char) := do
  return (← r.sections.mapM r.writeSection).flatten

end IniReader

/-! ## Scanning -/

theorem rstrip_isPrefix (s : List Char) : rstrip s <+: s := List.rdropWhile_prefix _ s

theorem lskip_suffix (s : List Char) : lskip s <:+ s := List.dropWhile_suffix _

/-- Nothing in the text stops `find_chars_or_comment`. -/
def Clean (chars : List Char) (wasSpace : Bool) (s : List Char) : Prop :=
  findCharsOrComment chars wasSpace s = (s, [])

section Scanning

variable {chars : List Char} {wasSpace : Bool} {s t : List Char} {c : Char}

theorem findCharsOrComment_append (chars : List Char) (wasSpace : Bool) (s : List Char) :
    (findCharsOrComment chars wasSpace s).1 ++ (findCharsOrComment chars wasSpace s).2 = s := by
  induction s generalizing wasSpace with
  | nil => rfl
  | cons c s ih =>
    rw [findCharsOrComment]
    split
    · rfl
    · exact congrArg (c :: ·) (ih _)

theorem clean_cons : Clean chars wasSpace (c :: s) ↔
    ¬ (c ∈ chars ∨ wasSpace = true ∧ c = ';') ∧ Clean chars (isSpace c) s := by
  unfold Clean
  rw [findCharsOrComment]
  split
  · rename_i hstop
    exact ⟨(fun h => nomatch h), fun h => absurd hstop h.1⟩
  · rename_i hstop
    constructor
    · intro h
      obtain ⟨hfront, hrest⟩ := Prod.ext_iff.mp h
      exact ⟨hstop, Prod.ext (List.cons.inj hfront).2 hrest⟩
    · rintro ⟨-, h⟩
      rw [h]

theorem clean_fst (chars : List Char) (wasSpace : Bool) (s : List Char) :
    Clean chars wasSpace (findCharsOrComment chars wasSpace s).1 := by
  induction s generalizing wasSpace with
  | nil => rfl
  | cons c s ih =>
    rw [findCharsOrComment]
    split
    · rfl
    · rename_i hstop
      exact clean_cons.mpr ⟨hstop, ih _⟩

theorem Clean.of_isPrefix (h : Clean chars wasSpace s) (ht : t <+: s) : Clean chars wasSpace t := by
  induction t generalizing wasSpace s with
  | nil => rfl
  | cons c t ih =>
    obtain ⟨u, rfl⟩ := ht
    obtain ⟨hstop, hrest⟩ := clean_cons.mp h
    exact clean_cons.mpr ⟨hstop, ih hrest (List.prefix_append t u)⟩

theorem Clean.relax (h : Clean chars wasSpace s) : Clean chars false s := by
  cases s with
  | nil => rfl
  | cons c s =>
    obtain ⟨hstop, hrest⟩ := clean_cons.mp h
    refine clean_cons.mpr ⟨?_, hrest⟩
    rintro (hmem | ⟨hspace, -⟩)
    · exact hstop (.inl hmem)
    · cases hspace

theorem Clean.lskip (h : Clean chars false s) : Clean chars false (lskip s) := by
  induction s with
  | nil => exact h
  | cons c s ih =>
    unfold LruCache.lskip
    rw [List.dropWhile_cons]
    split
    · exact ih (clean_cons.mp h).2.relax
    · exact h

/-- A delimiter behind a clean text is where the scan stops. -/
theorem Clean.find (h : Clean chars wasSpace s) (hc : c ∈ chars) :
    findCharsOrComment chars wasSpace (s ++ c :: t) = (s, c :: t) := by
  induction s generalizing wasSpace with
  | nil =>
    rw [List.nil_append, findCharsOrComment, if_pos (.inl hc)]
  | cons a s ih =>
    obtain ⟨hstop, hrest⟩ := clean_cons.mp h
    rw [List.cons_append, findCharsOrComment, if_neg hstop, ih hrest]

end Scanning

/-! ## What a line can hold -/

/-- A line as it is read: a newline at its end only, no null byte, and not too long. -/
structure IsLine (line : List Char) : Prop where
  newline : '\n' ∉ line.dropLast
  null : '\x00' ∉ line
  length : line.length ≤ maxLineChars

/-- A text on a single line. -/
structure OneLine (text : List Char) : Prop where
  newline : '\n' ∉ text
  null : '\x00' ∉ text
  length : text.length ≤ maxLineChars

/-- A name of a section that `[name]` gives back. -/
structure PlainSection (name : List Char) : Prop where
  clean : Clean [']'] false name
  newline : '\n' ∉ name
  null : '\x00' ∉ name
  length : name.length ≤ maxSection - 1

/-- A key and a text that `key=text` gives back. -/
structure PlainEntry (name value : List Char) : Prop where
  name_clean : Clean ['=', ':'] false name
  name_head : ∀ c, name.head? = some c → isSpace c = false ∧ c ≠ ';' ∧ c ≠ '#' ∧ c ≠ '['
  name_right : rstrip name = name
  value_clean : Clean [] false value
  value_trimmed : Text.Trimmed isSpace value
  oneLine : OneLine (name ++ '=' :: value)

theorem IsLine.of_suffix {line line' : List Char} (h : IsLine line) (hs : line' <:+ line) :
    IsLine line' := by
  obtain ⟨t, rfl⟩ := hs
  refine ⟨fun hmem => h.newline ?_, fun hmem => h.null (List.mem_append_right _ hmem), ?_⟩
  · have hne : line' ≠ [] := by
      rintro rfl
      cases hmem
    rw [List.dropLast_append_of_ne_nil hne]
    exact List.mem_append_right _ hmem
  · have hlen := h.length
    rw [List.length_append] at hlen
    omega

theorem skipByteOrderMark_suffix (line : List Char) : skipByteOrderMark line <:+ line := by
  unfold skipByteOrderMark
  split
  · exact ⟨['ï', '»', '¿'], rfl⟩
  · exact List.suffix_rfl

theorem isSpace_newline : isSpace '\n' = true := by decide

/-- What is left of a line without its trailing white space has no newline. -/
theorem IsLine.newline_notMem_rstrip {line : List Char} (h : IsLine line) : '\n' ∉ rstrip line := by
  obtain ⟨t, ht⟩ := List.rdropWhile_prefix isSpace (l := line)
  intro hmem
  rcases List.eq_nil_or_concat t with rfl | ⟨t', c, rfl⟩
  · -- Nothing is stripped, so the last character is not the newline.
    rw [List.append_nil] at ht
    have hne : line ≠ [] := by
      rintro rfl
      cases hmem
    have hline : '\n' ∈ line := ht ▸ hmem
    rw [← List.dropLast_append_getLast hne, List.mem_append, List.mem_singleton] at hline
    have hlast := List.rdropWhile_eq_self_iff.mp ht hne
    rcases hline with hline | hline
    · exact h.newline hline
    · rw [← hline] at hlast
      exact hlast isSpace_newline
  · refine h.newline ?_
    rw [← ht, List.concat_eq_append, ← List.append_assoc, List.dropLast_concat]
    exact List.mem_append_left _ hmem

/-- What a line is classified by. -/
theorem IniParser.start_oneLine (p : IniParser) {line : List Char} (h : IsLine line) :
    OneLine (p.start line) ∧ Text.Trimmed isSpace (p.start line) := by
  unfold start
  obtain ⟨l, hl, hline⟩ : ∃ l, (if p.lineno = 0 then skipByteOrderMark line else line) = l ∧
      IsLine l := by
    split
    · exact ⟨_, rfl, h.of_suffix (skipByteOrderMark_suffix line)⟩
    · exact ⟨_, rfl, h⟩
  rw [hl]
  have hsuffix := lskip_suffix (rstrip l)
  have hfront := rstrip_isPrefix l
  refine ⟨⟨fun hmem => ?_, fun hmem => ?_, ?_⟩, Text.trimmed_dropWhile _ _⟩
  · exact hline.newline_notMem_rstrip (hsuffix.mem hmem)
  · exact hline.null (hfront.mem (hsuffix.mem hmem))
  · exact Nat.le_trans hsuffix.length_le (Nat.le_trans hfront.length_le hline.length)

theorem plainSection_of_classify {start name : List Char} (h : OneLine start)
    (hc : classify start = .header name) : PlainSection name := by
  unfold classify at hc
  split at hc
  · cases hc
  rename_i c rest
  split at hc
  · cases hc
  split at hc
  · split at hc
    · rename_i name' rest' hfind
      cases hc
      have happend := findCharsOrComment_append [']'] false rest
      rw [hfind] at happend
      have hmem : ∀ a, a ∈ name'.take (maxSection - 1) → a ∈ c :: rest := by
        intro a ha
        rw [← happend]
        exact List.mem_cons_of_mem _ (List.mem_append_left _ (List.mem_of_mem_take ha))
      have hclean := clean_fst [']'] false rest
      rw [hfind] at hclean
      exact ⟨hclean.of_isPrefix ⟨_, List.take_append_drop _ _⟩, fun ha => h.newline (hmem _ ha),
        fun ha => h.null (hmem _ ha), List.length_take_le _ _⟩
    · cases hc
  · split at hc <;> cases hc

/-- The part of a line before the delimiter and the part behind it. -/
theorem plainEntry_of_split {start front back : List Char} {d : Char} (h : OneLine start)
    (ht : Text.Trimmed isSpace start)
    (hhead : ∀ c, start.head? = some c → c ≠ ';' ∧ c ≠ '#' ∧ c ≠ '[')
    (hfind : findCharsOrComment ['=', ':'] false start = (front, d :: back)) :
    PlainEntry (rstrip front) (rstrip (lskip (findCharsOrComment [] false back).1)) := by
  have happend := findCharsOrComment_append ['=', ':'] false start
  have hclean := clean_fst ['=', ':'] false start
  rw [hfind] at happend hclean
  dsimp only at happend hclean
  have hback := findCharsOrComment_append [] false back
  have hvalue : ∀ a, a ∈ rstrip (lskip (findCharsOrComment [] false back).1) → a ∈ back := by
    intro a ha
    rw [← hback]
    exact List.mem_append_left _ ((lskip_suffix _).mem ((rstrip_isPrefix _).mem ha))
  have hmem : ∀ a, a ∈ rstrip front ∨ a ∈ rstrip (lskip (findCharsOrComment [] false back).1) →
      a ∈ start := by
    intro a ha
    rw [← happend]
    rcases ha with ha | ha
    · exact List.mem_append_left _ ((rstrip_isPrefix _).mem ha)
    · exact List.mem_append_right _ (List.mem_cons_of_mem _ (hvalue a ha))
  constructor
  · exact hclean.of_isPrefix (rstrip_isPrefix front)
  · intro c hc
    obtain ⟨t, hfront⟩ := rstrip_isPrefix front
    have hstart : start.head? = some c := by
      rw [← happend, ← hfront, List.head?_append, List.head?_append, hc]
      rfl
    exact ⟨ht.head hstart, hhead c hstart⟩
  · exact List.rdropWhile_idempotent _ _
  · exact (clean_fst [] false back).lskip.of_isPrefix (rstrip_isPrefix _)
  · exact Text.trimmed_rdropWhile _ _
  · refine ⟨fun hn => ?_, fun hn => ?_, ?_⟩
    · rw [List.mem_append, List.mem_cons] at hn
      rcases hn with hn | hn | hn
      · exact h.newline (hmem _ (.inl hn))
      · cases hn
      · exact h.newline (hmem _ (.inr hn))
    · rw [List.mem_append, List.mem_cons] at hn
      rcases hn with hn | hn | hn
      · exact h.null (hmem _ (.inl hn))
      · cases hn
      · exact h.null (hmem _ (.inr hn))
    · have hlen := h.length
      have hname := (rstrip_isPrefix front).length_le
      have hval := (rstrip_isPrefix (lskip (findCharsOrComment [] false back).1)).length_le
      have hskip := (lskip_suffix (findCharsOrComment [] false back).1).length_le
      rw [← happend, List.length_append, List.length_cons, ← hback, List.length_append] at hlen
      rw [List.length_append, List.length_cons]
      omega

theorem plainEntry_of_classify {start name value : List Char} (h : OneLine start)
    (ht : Text.Trimmed isSpace start) (hc : classify start = .pair name value) :
    PlainEntry name value := by
  unfold classify at hc
  split at hc
  · cases hc
  rename_i c rest
  split at hc
  · cases hc
  rename_i hcomment
  split at hc
  · split at hc <;> cases hc
  rename_i hbracket
  have hhead : ∀ a, (c :: rest).head? = some a → a ≠ ';' ∧ a ≠ '#' ∧ a ≠ '[' := by
    intro a ha
    cases ha
    exact ⟨fun heq => hcomment (.inl heq), fun heq => hcomment (.inr heq), hbracket⟩
  split at hc
  · rename_i hfind
    cases hc
    exact plainEntry_of_split h ht hhead hfind
  · rename_i hfind
    cases hc
    exact plainEntry_of_split h ht hhead hfind
  · cases hc

/-! ## What is printed is read again -/

theorem classify_section {name : List Char} (h : PlainSection name) :
    classify ('[' :: (name ++ [']'])) = .header name := by
  rw [classify, if_neg (by decide), if_pos rfl, h.clean.find (List.mem_singleton_self _)]
  exact congrArg IniLine.header (List.take_of_length_le h.length)

theorem classify_entry {name value : List Char} (h : PlainEntry name value) :
    classify (name ++ '=' :: value) = .pair name value := by
  have hfind : findCharsOrComment ['=', ':'] false (name ++ '=' :: value) = (name, '=' :: value) :=
    h.name_clean.find List.mem_cons_self
  have hvalue : rstrip (lskip (findCharsOrComment [] false value).1) = value := by
    rw [show findCharsOrComment [] false value = (value, []) from h.value_clean]
    show rstrip (lskip value) = value
    rw [show lskip value = value from h.value_trimmed.left]
    exact h.value_trimmed.right
  obtain ⟨c, rest, hcons⟩ := List.exists_cons_of_ne_nil
    (show name ++ '=' :: value ≠ [] from by simp)
  have hhead : c ≠ ';' ∧ c ≠ '#' ∧ c ≠ '[' := by
    cases name with
    | nil =>
      cases hcons
      decide
    | cons a name =>
      cases hcons
      exact (h.name_head _ rfl).2
  rw [hcons] at hfind ⊢
  rw [classify, if_neg (fun hc => hc.elim hhead.1 hhead.2.1), if_neg hhead.2.2, hfind]
  show IniLine.pair (rstrip name) _ = _
  rw [h.name_right, hvalue]

theorem trimmed_section (name : List Char) : Text.Trimmed isSpace ('[' :: (name ++ [']'])) := by
  refine Text.trimmed_of_head_last (fun a ha => ?_) (fun a ha => ?_)
  · cases ha
    decide
  · rw [← List.cons_append, List.getLast?_append] at ha
    cases ha
    decide

theorem trimmed_entry {name value : List Char} (h : PlainEntry name value) :
    Text.Trimmed isSpace (name ++ '=' :: value) := by
  refine Text.trimmed_of_head_last (fun a ha => ?_) (fun a ha => ?_)
  · cases name with
    | nil =>
      cases ha
      decide
    | cons c name =>
      cases ha
      exact (h.name_head _ rfl).1
  · rw [List.getLast?_append, List.getLast?_cons] at ha
    cases hlast : value.getLast? with
    | none =>
      rw [hlast] at ha
      cases ha
      decide
    | some c =>
      rw [hlast] at ha
      cases ha
      exact h.value_trimmed.last hlast

/-- A printed line, without its newline. -/
structure Printed (content : List Char) : Prop where
  oneLine : OneLine content
  trimmed : Text.Trimmed isSpace content

theorem PlainSection.printed {name : List Char} (h : PlainSection name) :
    Printed ('[' :: (name ++ [']'])) := by
  refine ⟨⟨?_, ?_, ?_⟩, trimmed_section name⟩
  · simpa using h.newline
  · simpa using h.null
  · have hlen := h.length
    rw [List.length_cons, List.length_append, List.length_singleton]
    unfold maxSection at hlen
    unfold maxLineChars iniMaxLine
    omega

theorem PlainEntry.printed {name value : List Char} (h : PlainEntry name value) :
    Printed (name ++ '=' :: value) :=
  ⟨h.oneLine, trimmed_entry h⟩

namespace IniParser

/-- A line after the first one, as what the parser takes it for. -/
def itemOf (line : List Char) : IniLine := classify (lskip (rstrip line))

theorem itemOf_printed {content : List Char} (h : Printed content) :
    itemOf content = classify content ∧ itemOf (content ++ ['\n']) = classify content := by
  have hstrip : lskip (rstrip content) = content := by
    rw [show rstrip content = content from h.trimmed.right]
    exact h.trimmed.left
  unfold itemOf
  constructor
  · rw [hstrip]
  · have hnewline : rstrip (content ++ ['\n']) = rstrip content :=
      List.rdropWhile_concat_pos _ _ _ isSpace_newline
    rw [hnewline, hstrip]

/-- The lines that are not blank. -/
def relevant (list : List IniLine) : List IniLine := list.filter fun item => item ≠ .blank

theorem relevant_cons (item : IniLine) (list : List IniLine) :
    relevant (item :: list) = relevant [item] ++ relevant list :=
  List.filter_append [item] list

theorem mem_relevant {item : IniLine} {list : List IniLine} (h : item ≠ .blank) :
    item ∈ relevant list ↔ item ∈ list := by
  unfold relevant
  rw [List.mem_filter]
  exact and_iff_left (decide_eq_true h)

theorem ofItems_relevant (sectionName : List Char) (list : List IniLine) :
    IniBinding.ofItems sectionName (relevant list) = IniBinding.ofItems sectionName list := by
  induction list generalizing sectionName with
  | nil => rfl
  | cons item list ih =>
    cases item with
    | header name => exact ih name
    | pair name value => exact congrArg (_ :: ·) (ih sectionName)
    | blank => exact ih sectionName
    | malformed => exact ih sectionName

/-- The contents, each on a line of its own. -/
def printLines (contents : List (List Char)) : List Char :=
  contents.flatMap fun content => content ++ ['\n']

theorem printLines_cons (content : List Char) (contents : List (List Char)) :
    printLines (content :: contents) = content ++ '\n' :: printLines contents := by
  rw [printLines, List.flatMap_cons, List.append_assoc]
  rfl

theorem relevant_printLines {contents : List (List Char)} (h : ∀ c ∈ contents, Printed c) :
    relevant ((Text.lines '\n' maxLineChars (printLines contents)).map itemOf) =
      relevant (contents.map classify) := by
  induction contents with
  | nil => rfl
  | cons content contents ih =>
    have hprinted := h content List.mem_cons_self
    have hitem := itemOf_printed hprinted
    have hrest := ih fun c hc => h c (List.mem_cons_of_mem _ hc)
    have hblank : relevant [itemOf ['\n']] = [] := by decide
    rw [printLines_cons, Text.lines_append (by decide) hprinted.oneLine.newline
      hprinted.oneLine.length, List.map_cons, relevant_cons (classify content), ← hrest]
    split
    next => rw [List.map_cons, relevant_cons, hitem.2]
    next => rw [List.map_cons, List.map_cons, relevant_cons, relevant_cons (itemOf ['\n']), hblank,
        hitem.1, List.nil_append]

/-- A file that begins with a bracket has no byte order mark. -/
theorem itemsOf_bracket {file : List Char} (h : file.head? = some '[') :
    itemsOf file = (Text.lines '\n' maxLineChars file).map itemOf := by
  obtain ⟨rest, rfl⟩ := List.head?_eq_some_iff.mp h
  have hfirst : skipByteOrderMark (Text.takeLine '\n' maxLineChars ('[' :: rest)).1 =
      (Text.takeLine '\n' maxLineChars ('[' :: rest)).1 := rfl
  unfold itemsOf
  rw [Text.lines_eq (by decide) (List.cons_ne_nil _ _), items, hfirst]
  rfl

end IniParser

/-! ## The contents of a reader -/

section Names

variable {α : Type}

theorem find?_foldl_set (table : List (String × α)) (m : OrderedMap String Unit) (k : String) :
    (table.foldl (fun m e => m.set e.1 ()) m).find? k =
      if (table.lookup k).isSome then some () else m.find? k := by
  induction table generalizing m with
  | nil => rfl
  | cons e table ih =>
    rw [List.foldl_cons, ih, OrderedMap.find?_set, List.lookup_cons]
    by_cases hk : k = e.1
    · rw [beq_iff_eq.mpr hk, if_pos hk, ite_self]
      rfl
    · rw [beq_eq_false_iff_ne.mpr hk, if_neg hk]

theorem mem_names {table : List (String × α)} {k : String} :
    k ∈ names table ↔ ∃ v, table.lookup k = some v := by
  have hfind := find?_foldl_set table OrderedMap.empty k
  unfold names
  rw [← Option.isSome_iff_exists]
  constructor
  · intro h
    obtain ⟨e, he, rfl⟩ := List.mem_map.mp h
    have hsome := OrderedMap.mem_entries.mp he
    rw [hfind] at hsome
    by_contra hnone
    rw [if_neg hnone] at hsome
    cases hsome
  · intro h
    rw [if_pos h] at hfind
    exact List.mem_map.mpr ⟨_, OrderedMap.mem_entries.mpr hfind, rfl⟩

theorem nodup_names (table : List (String × α)) : (names table).Nodup :=
  OrderedMap.nodup_keys _

end Names

namespace IniReader

variable {r : IniReader}

/-- The keys and texts of a section. -/
def keysOf (r : IniReader) (sectionName : String) : List (String × String) :=
  (r.values.lookup sectionName).getD []

theorem find?_eq (r : IniReader) (sectionName name : String) :
    r.find? sectionName name = (r.keysOf sectionName).lookup name := by
  unfold find? keysOf
  cases r.values.lookup sectionName <;> rfl

/-- The lines that the writer prints for a section. -/
def sectionContents (r : IniReader) (sectionName : String) : List (List Char) :=
  ('[' :: (sectionName.toList ++ [']'])) ::
    (names (r.keysOf sectionName)).map fun key =>
      key.toList ++ '=' :: ((r.find? sectionName key).getD "").toList

theorem get_eq_ok {sectionName name value : String} (h : r.find? sectionName name = some value) :
    r.get sectionName name = .ok value := by
  unfold find? at h
  obtain ⟨table, htable, hlookup⟩ := Option.bind_eq_some_iff.mp h
  unfold get getSection
  rw [htable, Run.ok_bind, hlookup]
  rfl

theorem writeKey_eq {sectionName key : String} (h : key ∈ names (r.keysOf sectionName)) :
    r.writeKey sectionName key =
      .ok (key.toList ++ '=' :: ((r.find? sectionName key).getD "").toList ++ ['\n']) := by
  obtain ⟨value, hvalue⟩ := mem_names.mp h
  rw [← find?_eq] at hvalue
  unfold writeKey
  rw [get_eq_ok hvalue, Run.ok_bind, hvalue]
  rfl

theorem writeSection_eq {sectionName : String} (h : sectionName ∈ r.sections) :
    r.writeSection sectionName = .ok (IniParser.printLines (r.sectionContents sectionName)) := by
  obtain ⟨table, htable⟩ := mem_names.mp h
  have hkeys : r.keys sectionName = .ok (names (r.keysOf sectionName)) := by
    unfold keys getSection keysOf
    rw [htable]
    rfl
  unfold writeSection
  rw [hkeys, Run.ok_bind, Run.mapM_eq_ok fun key hkey => writeKey_eq hkey, Run.ok_bind,
    sectionContents, IniParser.printLines_cons, IniParser.printLines, List.flatMap_map]
  simp only [List.cons_append, List.append_assoc, List.nil_append]
  rfl

theorem write_eq (r : IniReader) :
    r.write = .ok (IniParser.printLines (r.sections.flatMap r.sectionContents)) := by
  unfold write
  rw [Run.mapM_eq_ok fun sectionName hmem => writeSection_eq hmem, Run.ok_bind,
    IniParser.printLines, List.flatMap_assoc]
  rfl

/-- The pairs that the writer prints. -/
def bindings (r : IniReader) : List IniBinding :=
  r.sections.flatMap fun sectionName =>
    (names (r.keysOf sectionName)).map fun key =>
      ⟨sectionName, key, (r.find? sectionName key).getD ""⟩

theorem mem_bindings {b : IniBinding} :
    b ∈ r.bindings ↔ r.find? b.sectionName b.name = some b.value := by
  unfold bindings
  simp only [List.mem_flatMap, List.mem_map]
  constructor
  · rintro ⟨sectionName, -, key, hkey, rfl⟩
    obtain ⟨value, hvalue⟩ := mem_names.mp hkey
    rw [← find?_eq] at hvalue
    rw [hvalue]
    rfl
  · intro h
    refine ⟨b.sectionName, mem_names.mpr ?_, b.name, mem_names.mpr ⟨b.value, ?_⟩, ?_⟩
    · obtain ⟨table, htable, -⟩ := Option.bind_eq_some_iff.mp h
      exact ⟨table, htable⟩
    · rw [← find?_eq, h]
    · rw [h]
      rfl

/-- The writer prints every key once. -/
theorem noDuplicates_bindings (r : IniReader) : IniBinding.NoDuplicates r.bindings := by
  have hnodup : (r.bindings.map IniBinding.key).Nodup := by
    unfold bindings
    rw [List.map_flatMap, List.nodup_flatMap]
    refine ⟨fun sectionName _ => ?_, ?_⟩
    · rw [List.map_map]
      exact (nodup_names _).map fun key key' heq => (Prod.ext_iff.mp heq).2
    · refine (nodup_names r.values).imp fun hne => ?_
      intro k hk hk'
      dsimp only at hk hk'
      rw [List.map_map, List.mem_map] at hk hk'
      obtain ⟨key, -, rfl⟩ := hk
      obtain ⟨key', -, heq⟩ := hk'
      exact hne (Prod.ext_iff.mp heq).1.symm
  refine (List.pairwise_map.mp hnodup).imp fun hne heq => absurd heq hne

/-- The last pair that the writer prints for a key has the text of the reader. -/
theorem find?_bindings (sectionName name : String) :
    (r.bindings.reverse.find? fun b => b.key = (sectionName, name)).map IniBinding.value =
      r.find? sectionName name := by
  cases hfound : r.bindings.reverse.find? fun b => b.key = (sectionName, name) with
  | none =>
    cases hvalue : r.find? sectionName name with
    | none => rfl
    | some value =>
      have hmem : (⟨sectionName, name, value⟩ : IniBinding) ∈ r.bindings.reverse :=
        List.mem_reverse.mpr (mem_bindings.mpr hvalue)
      exact absurd (decide_eq_true rfl) (List.find?_eq_none.mp hfound _ hmem)
  | some b =>
    have hkey : b.key = (sectionName, name) := by simpa using List.find?_some hfound
    have hb := mem_bindings.mp (List.mem_reverse.mp (List.mem_of_find?_eq_some hfound))
    obtain ⟨hs, hn⟩ := Prod.ext_iff.mp hkey
    rw [show b.sectionName = sectionName from hs, show b.name = name from hn] at hb
    rw [hb]
    rfl

/-! ## What the parser stores -/

/-- A reader that can be printed and read again. -/
structure Sound (r : IniReader) : Prop where
  plainSection : ∀ sectionName table,
    r.values.lookup sectionName = some table → PlainSection sectionName.toList
  inhabited : ∀ sectionName table,
    r.values.lookup sectionName = some table → ∃ name value, r.find? sectionName name = some value
  plainEntry : ∀ sectionName name value,
    r.find? sectionName name = some value → PlainEntry name.toList value.toList

theorem sound_empty : Sound ⟨[]⟩ :=
  ⟨(fun _ _ h => nomatch h), (fun _ _ h => nomatch h), fun _ _ _ h => nomatch h⟩

theorem Sound.bind (h : r.Sound) {b : IniBinding} (hs : PlainSection b.sectionName.toList)
    (he : PlainEntry b.name.toList b.value.toList) : (r.bind b).Sound := by
  have hlookup : ∀ sectionName table, (r.bind b).values.lookup sectionName = some table →
      sectionName = b.sectionName ∨ ∃ table, r.values.lookup sectionName = some table := by
    intro sectionName table hsome
    unfold IniReader.bind assign at hsome
    rw [Text.lookup_upsert] at hsome
    split at hsome
    · exact .inl ‹_›
    · exact .inr ⟨table, hsome⟩
  refine ⟨fun sectionName table hsome => ?_, fun sectionName table hsome => ?_,
    fun sectionName name value hsome => ?_⟩
  · rcases hlookup sectionName table hsome with rfl | ⟨table, hold⟩
    · exact hs
    · exact h.plainSection sectionName table hold
  · rcases hlookup sectionName table hsome with rfl | ⟨table, hold⟩
    · exact ⟨b.name, b.value, (find?_bind b _ _).trans (if_pos rfl)⟩
    · obtain ⟨name, value, hvalue⟩ := h.inhabited sectionName table hold
      by_cases hkey : b.key = (sectionName, name)
      · exact ⟨name, b.value, by rw [find?_bind, if_pos hkey]⟩
      · exact ⟨name, value, by rw [find?_bind, if_neg hkey, hvalue]⟩
  · rw [find?_bind] at hsome
    split at hsome
    next hkey =>
      obtain ⟨-, hn⟩ := Prod.ext_iff.mp hkey
      cases hsome
      rw [← show b.name = name from hn]
      exact he
    next => exact h.plainEntry sectionName name value hsome

end IniReader

/-! ### Lines that are read -/

theorem cString_isPrefix (block : List Char) : cString block <+: block := List.takeWhile_prefix _

theorem null_notMem_cString (block : List Char) : '\x00' ∉ cString block := by
  intro hmem
  have hne := List.mem_takeWhile_imp hmem
  simp at hne

theorem newline_notMem_dropLast_cString {num : Nat} {stream chunk rest : List Char}
    (h : fgets num stream = some (chunk, rest)) : '\n' ∉ (cString chunk).dropLast := by
  have hchunk := Text.newline_notMem_dropLast '\n' (num - 1) stream
  rw [(fgets_eq_some h).2] at hchunk
  obtain ⟨t, ht⟩ := cString_isPrefix chunk
  rcases List.eq_nil_or_concat t with rfl | ⟨t', c, rfl⟩
  · rw [List.append_nil] at ht
    rwa [ht]
  · intro hmem
    refine hchunk ?_
    rw [← ht, List.concat_eq_append, ← List.append_assoc, List.dropLast_concat]
    exact List.mem_append_left _ (List.mem_of_mem_dropLast hmem)

theorem length_cString_le {num : Nat} {stream chunk rest : List Char}
    (h : fgets num stream = some (chunk, rest)) : (cString chunk).length ≤ num - 1 := by
  have hchunk := Text.length_takeLine_le '\n' (num - 1) stream
  rw [(fgets_eq_some h).2] at hchunk
  exact Nat.le_trans (cString_isPrefix chunk).length_le hchunk

/-- A line of which the buffer holds the front. -/
structure Begun (b : LineBuffer) (line : List Char) : Prop where
  newline : '\n' ∉ line.dropLast
  null : '\x00' ∉ line
  length : line.length ≤ b.maxLine - 1

theorem Begun.isLine {b : LineBuffer} {line : List Char} (h : Begun b line) : IsLine line := by
  have hmax := b.le_max
  refine ⟨h.newline, h.null, Nat.le_trans h.length ?_⟩
  unfold maxLineChars
  omega

theorem Begun.append {b : LineBuffer} {line stream chunk rest : List Char} (h : Begun b line)
    (hlast : line.getLast? ≠ some '\n')
    (hget : fgets (b.grow.maxLine - line.length) stream = some (chunk, rest)) :
    Begun b.grow (line ++ cString chunk) := by
  have hnewline : '\n' ∉ line := by
    intro hmem
    have hne : line ≠ [] := List.ne_nil_of_mem hmem
    rw [← List.dropLast_append_getLast hne, List.mem_append, List.mem_singleton] at hmem
    rcases hmem with hmem | hmem
    · exact h.newline hmem
    · exact hlast (hmem ▸ List.getLast?_eq_some_getLast hne)
  refine ⟨fun hmem => ?_, fun hmem => ?_, ?_⟩
  · by_cases hnil : cString chunk = []
    · rw [hnil, List.append_nil] at hmem
      exact h.newline hmem
    · rw [List.dropLast_append_of_ne_nil hnil, List.mem_append] at hmem
      exact hmem.elim hnewline (newline_notMem_dropLast_cString hget)
  · exact (List.mem_append.mp hmem).elim h.null (null_notMem_cString chunk)
  · have hlen := length_cString_le hget
    have hgrow : b.maxLine ≤ b.grow.maxLine :=
      Nat.le_min.mpr ⟨Nat.le_mul_of_pos_right _ (by decide), b.le_max⟩
    have hline := h.length
    have hone := b.one_lt
    rw [List.length_append]
    omega

theorem growLoop_isLine {b : LineBuffer} {line : List Char} (stream : List Char)
    (h : Begun b line) : IsLine (growLoop b line stream).2.1 := by
  fun_induction growLoop b line stream with
  | case1 => exact h.isLine
  | case2 b line stream hfull chunk rest hget => exact (h.append hfull.2 hget).isLine
  | case3 b line stream hfull chunk rest hget _ ih => exact ih (h.append hfull.2 hget)
  | case4 => exact h.isLine

theorem readLine_isLine {b b' : LineBuffer} {stream line rest : List Char}
    (h : readLine b stream = some (b', line, rest)) : IsLine line := by
  unfold readLine at h
  split at h
  · cases h
  · rename_i chunk stream' hget
    have hline := growLoop_isLine stream' (b := b)
      ⟨newline_notMem_dropLast_cString hget, null_notMem_cString chunk, length_cString_le hget⟩
    rw [Option.some.inj h] at hline
    exact hline

namespace IniParser

/-- Any file, with or without null bytes, is a sequence of lines to the loop. -/
theorem exists_lines (b : LineBuffer) (p : IniParser) (stream : List Char) :
    ∃ lines, (∀ line ∈ lines, IsLine line) ∧ p.parseStream b stream = p.feedAll lines := by
  induction hk : stream.length using Nat.strong_induction_on generalizing b p stream with
  | _ k ih =>
  rw [parseStream]
  split
  · exact ⟨[], (fun _ h => nomatch h), rfl⟩
  · rename_i b' line rest hread
    cases hfeed : p.feed line with
    | error fault =>
      refine ⟨[line], fun l hl => List.mem_singleton.mp hl ▸ readLine_isLine hread, ?_⟩
      rw [feedAll, hfeed]
    | ok res =>
      obtain ⟨lines, hlines, hrest⟩ := ih _ (hk ▸ length_readLine_lt hread) b' res.2 rest rfl
      refine ⟨line :: lines, ?_, ?_⟩
      · intro l hl
        rcases List.mem_cons.mp hl with rfl | hl
        · exact readLine_isLine hread
        · exact hlines l hl
      · rw [feedAll, hfeed]
        dsimp only
        rw [hrest]

/-- What the parser holds between two lines. -/
structure Sound (p : IniParser) : Prop where
  reader : p.reader.Sound
  sectionName : PlainSection p.sectionName

theorem sound_initial : initial.Sound :=
  ⟨IniReader.sound_empty, ⟨rfl, List.not_mem_nil, List.not_mem_nil, Nat.zero_le _⟩⟩

theorem Sound.feed {p p' : IniParser} {line : List Char} {error : Int32} (h : p.Sound)
    (hline : IsLine line) (hfeed : p.feed line = .ok (error, p')) : p'.Sound := by
  obtain ⟨hone, htrimmed⟩ := p.start_oneLine hline
  unfold IniParser.feed at hfeed
  cases hc : classify (p.start line) with
  | blank =>
    rw [hc] at hfeed
    cases hfeed
    exact ⟨h.reader, h.sectionName⟩
  | header name =>
    rw [hc] at hfeed
    cases hfeed
    exact ⟨h.reader, plainSection_of_classify hone hc⟩
  | malformed =>
    rw [hc] at hfeed
    cases hfeed
    exact ⟨h.reader, h.sectionName⟩
  | pair name value =>
    rw [hc] at hfeed
    obtain ⟨r, hr, hret⟩ := Run.bind_eq_ok.mp hfeed
    cases hret
    have hentry := plainEntry_of_classify hone htrimmed hc
    obtain ⟨-, rfl⟩ := (IniReader.valueHandler_eq_ok
      (b := ⟨.ofList p.sectionName, .ofList name, .ofList value⟩)).mp hr
    refine ⟨h.reader.bind ?_ ?_, h.sectionName⟩
    · rw [String.toList_ofList]
      exact h.sectionName
    · rw [String.toList_ofList, String.toList_ofList]
      exact hentry

theorem Sound.feedAll {p p' : IniParser} {lines : List (List Char)} {error : Int32} (h : p.Sound)
    (hlines : ∀ line ∈ lines, IsLine line) (hfeed : p.feedAll lines = .ok (error, p')) :
    p'.Sound := by
  induction lines generalizing p with
  | nil =>
    cases hfeed
    exact h
  | cons line lines ih =>
    rw [IniParser.feedAll] at hfeed
    cases hfirst : p.feed line with
    | error fault =>
      rw [hfirst] at hfeed
      cases hfeed
    | ok res =>
      have hnext := h.feed (hlines line List.mem_cons_self) hfirst
      rw [hfirst] at hfeed
      dsimp only at hfeed
      split at hfeed
      · exact ih hnext (fun l hl => hlines l (List.mem_cons_of_mem _ hl)) hfeed
      · cases hfeed
        exact hnext

end IniParser

namespace IniReader

variable {r r' : IniReader}

/-- Everything that a file gives can be printed. -/
theorem ofFile_sound {file : Option (List Char)} (h : ofFile file = .ok r) : r.Sound := by
  cases file with
  | none => exact absurd (parseError_eq_ok.mp h).1 (by decide)
  | some file =>
    obtain ⟨lines, hlines, hparse⟩ := IniParser.exists_lines .initial .initial file
    unfold ofFile at h
    dsimp only at h
    rw [hparse] at h
    split at h
    · cases h
    · rename_i error p hfeed
      obtain ⟨-, rfl⟩ := parseError_eq_ok.mp h
      exact (IniParser.sound_initial.feedAll hlines hfeed).reader

/-- A section is there when it has a key. -/
theorem Sound.lookup_eq_none (h : r.Sound) {sectionName : String} :
    r.values.lookup sectionName = none ↔ ∀ name, r.find? sectionName name = none := by
  constructor
  · intro hnone name
    unfold find?
    rw [hnone]
    rfl
  · intro hall
    cases htable : r.values.lookup sectionName with
    | none => rfl
    | some table =>
      obtain ⟨name, value, hvalue⟩ := h.inhabited sectionName table htable
      rw [hall name] at hvalue
      cases hvalue

/-- Two readers with the same texts answer every lookup alike, errors included. -/
theorem Sound.get_congr (h : r.Sound) (h' : r'.Sound)
    (heq : ∀ sectionName name, r'.find? sectionName name = r.find? sectionName name)
    (sectionName name : String) : r'.get sectionName name = r.get sectionName name := by
  cases hvalue : r.find? sectionName name with
  | some value => rw [get_eq_ok hvalue, get_eq_ok ((heq sectionName name).trans hvalue)]
  | none =>
    have hvalue' : r'.find? sectionName name = none := (heq sectionName name).trans hvalue
    have hiff : r'.values.lookup sectionName = none ↔ r.values.lookup sectionName = none := by
      rw [h'.lookup_eq_none, h.lookup_eq_none]
      simp only [heq]
    unfold find? at hvalue hvalue'
    unfold get getSection
    cases htable : r.values.lookup sectionName with
    | none =>
      rw [hiff.mpr htable]
    | some table =>
      obtain ⟨table', htable'⟩ : ∃ table', r'.values.lookup sectionName = some table' :=
        Option.ne_none_iff_exists'.mp fun hnone => by
          rw [hiff.mp hnone] at htable
          cases htable
      rw [htable, Option.bind_some] at hvalue
      rw [htable', Option.bind_some] at hvalue'
      rw [htable', Run.ok_bind, Run.ok_bind, hvalue, hvalue']

/-! ## Round trip -/

/-- What the printed lines of a section are. -/
def sectionItems (r : IniReader) (sectionName : String) : List IniLine :=
  .header sectionName.toList ::
    (names (r.keysOf sectionName)).map fun key =>
      .pair key.toList ((r.find? sectionName key).getD "").toList

theorem Sound.entry (h : r.Sound) {sectionName key : String}
    (hkey : key ∈ names (r.keysOf sectionName)) :
    PlainEntry key.toList ((r.find? sectionName key).getD "").toList := by
  obtain ⟨value, hvalue⟩ := mem_names.mp hkey
  rw [← find?_eq] at hvalue
  rw [hvalue]
  exact h.plainEntry sectionName key value hvalue

theorem Sound.section (h : r.Sound) {sectionName : String} (hmem : sectionName ∈ r.sections) :
    PlainSection sectionName.toList := by
  obtain ⟨table, htable⟩ := mem_names.mp hmem
  exact h.plainSection sectionName table htable

theorem Sound.printed (h : r.Sound) :
    ∀ content ∈ r.sections.flatMap r.sectionContents, Printed content := by
  intro content hcontent
  obtain ⟨sectionName, hmem, hcontent⟩ := List.mem_flatMap.mp hcontent
  rcases List.mem_cons.mp hcontent with rfl | hcontent
  · exact (h.section hmem).printed
  · obtain ⟨key, hkey, rfl⟩ := List.mem_map.mp hcontent
    exact (h.entry hkey).printed

theorem Sound.map_classify (h : r.Sound) :
    (r.sections.flatMap r.sectionContents).map classify = r.sections.flatMap r.sectionItems := by
  rw [List.map_flatMap]
  refine List.flatMap_congr fun sectionName hmem => ?_
  rw [sectionContents, List.map_cons, List.map_map, classify_section (h.section hmem), sectionItems]
  exact congrArg (_ :: ·) (List.map_congr_left fun key hkey => classify_entry (h.entry hkey))

theorem ofItems_pairs (sectionName : List Char) (l : List (List Char × List Char))
    (rest : List IniLine) :
    IniBinding.ofItems sectionName (l.map (fun e => .pair e.1 e.2) ++ rest) =
      l.map (fun e => ⟨.ofList sectionName, .ofList e.1, .ofList e.2⟩) ++
        IniBinding.ofItems sectionName rest := by
  induction l with
  | nil => rfl
  | cons e l ih => exact congrArg (_ :: ·) ih

theorem ofItems_sections (r : IniReader) (sectionName : List Char) (list : List String) :
    IniBinding.ofItems sectionName (list.flatMap r.sectionItems) =
      list.flatMap fun sectionName =>
        (names (r.keysOf sectionName)).map fun key =>
          ⟨sectionName, key, (r.find? sectionName key).getD ""⟩ := by
  induction list generalizing sectionName with
  | nil => rfl
  | cons name list ih =>
    have hpairs := ofItems_pairs name.toList ((names (r.keysOf name)).map fun key =>
      (key.toList, ((r.find? name key).getD "").toList)) (list.flatMap r.sectionItems)
    rw [List.map_map, List.map_map] at hpairs
    rw [List.flatMap_cons, List.flatMap_cons, ← ih name.toList]
    refine hpairs.trans ?_
    simp only [Function.comp_def, String.ofList_toList]

/-- The printed text, as what the parser takes its lines for. -/
theorem Sound.relevant_itemsOf (h : r.Sound) :
    IniParser.relevant
        (IniParser.itemsOf (IniParser.printLines (r.sections.flatMap r.sectionContents))) =
      IniParser.relevant (r.sections.flatMap r.sectionItems) := by
  rw [← h.map_classify, ← IniParser.relevant_printLines h.printed]
  cases r.sections with
  | nil => rfl
  | cons sectionName list =>
    refine congrArg IniParser.relevant (IniParser.itemsOf_bracket ?_)
    rw [List.flatMap_cons, sectionContents, List.cons_append, IniParser.printLines_cons]
    rfl

section Load

variable (h : ∀ sectionName name, r'.get sectionName name = r.get sectionName name)
include h

theorem fromFile_congr : CacheConfig.fromFile r' = CacheConfig.fromFile r := by
  simp only [CacheConfig.fromFile, CacheConfig.endpointFromFile, CacheConfig.cacheFromFile,
    CacheConfig.raftFromFile, getUnsignedShort, getSizeT, getUnsigned, h]

theorem endpointFromFile_congr (sectionName address port : String) :
    CacheConfig.endpointFromFile r' sectionName address port =
      CacheConfig.endpointFromFile r sectionName address port := by
  simp only [CacheConfig.endpointFromFile, getUnsignedShort, getUnsigned, h]

end Load

/-- Whatever file has been accepted, `INIWriter::write` prints what it holds. As long as the lines
of the text can be counted in an `int`, the text is accepted again and answers every lookup as the
file does, so that the same configurations of a node and of a client are loaded from it. -/
theorem reread_written {file : Option (List Char)} (h : ofFile file = .ok r) :
    ∃ text, r.write = .ok text ∧ (IniParser.CountableLines text →
      ∃ r', ofFile (some text) = .ok r' ∧
        (∀ sectionName name, r'.get sectionName name = r.get sectionName name) ∧
        CacheConfig.load (some text) = CacheConfig.load file ∧
        ClientConfig.load (some text) = ClientConfig.load file) := by
  have hsound := ofFile_sound h
  have hnull : '\x00' ∉ IniParser.printLines (r.sections.flatMap r.sectionContents) := by
    intro hmem
    obtain ⟨content, hcontent, hmem⟩ := List.mem_flatMap.mp hmem
    rw [List.mem_append, List.mem_singleton] at hmem
    rcases hmem with hmem | hmem
    · exact (hsound.printed content hcontent).oneLine.null hmem
    · cases hmem
  have hbindings : IniBinding.ofFile
      (IniParser.printLines (r.sections.flatMap r.sectionContents)) = r.bindings := by
    unfold IniBinding.ofFile
    rw [← IniParser.ofItems_relevant, hsound.relevant_itemsOf, IniParser.ofItems_relevant,
      ofItems_sections]
    rfl
  have hmalformed : .malformed ∉ IniParser.itemsOf
      (IniParser.printLines (r.sections.flatMap r.sectionContents)) := by
    rw [← IniParser.mem_relevant (by decide), hsound.relevant_itemsOf,
      IniParser.mem_relevant (by decide), List.mem_flatMap]
    rintro ⟨sectionName, -, hmem⟩
    rcases List.mem_cons.mp hmem with hmem | hmem
    · cases hmem
    · obtain ⟨key, -, heq⟩ := List.mem_map.mp hmem
      cases heq
  refine ⟨_, write_eq r, fun hlines => ?_⟩
  have hread := (ofFile_eq_ok hnull hlines).mpr
    ⟨hmalformed, hbindings ▸ r.noDuplicates_bindings, rfl⟩
  rw [hbindings] at hread
  have hfind : ∀ sectionName name, (r.bindings.foldl bind ⟨[]⟩).find? sectionName name =
      r.find? sectionName name := by
    intro sectionName name
    rw [find?_foldl_bind, find?_bindings]
    exact Option.or_none
  have hget := hsound.get_congr (ofFile_sound hread) hfind
  refine ⟨_, hread, hget, ?_, ?_⟩
  · unfold CacheConfig.load
    rw [hread, h, Run.ok_bind, Run.ok_bind, fromFile_congr hget]
  · unfold ClientConfig.load
    rw [hread, h, Run.ok_bind, Run.ok_bind, endpointFromFile_congr hget,
      endpointFromFile_congr hget]

namespace Sample

/-- ` k : 1 ;c` in `[s]`. -/
def spaced : List Char :=
  ['[', 's', ']', '\n', ' ', 'k', ' ', ':', ' ', '1', ' ', ';', 'c', '\n']

/-- What is read from it. -/
def reader : IniReader := ⟨[(.ofList ['s'], [(.ofList ['k'], .ofList ['1'])])]⟩

theorem ofFile_spaced : ofFile (some spaced) = .ok reader :=
  (ofFile_eq_ok (by decide) (by decide +kernel)).mpr
    ⟨by decide +kernel, by decide +kernel, by decide +kernel⟩

/-- What is printed. -/
def printed : List Char := ['[', 's', ']', '\n', 'k', '=', '1', '\n']

theorem write_reader : reader.write = .ok printed := by decide +kernel

end Sample

theorem reread_written_sample :
    ∃ r', Sample.reader.write = .ok Sample.printed ∧ ofFile (some Sample.printed) = .ok r' ∧
      (∀ sectionName name, r'.get sectionName name = Sample.reader.get sectionName name) ∧
      CacheConfig.load (some Sample.printed) = CacheConfig.load (some Sample.spaced) ∧
      ClientConfig.load (some Sample.printed) = ClientConfig.load (some Sample.spaced) := by
  obtain ⟨text, hwrite, hread⟩ := reread_written Sample.ofFile_spaced
  obtain rfl : Sample.printed = text := Except.ok.inj (Sample.write_reader.symm.trans hwrite)
  obtain ⟨r', hr'⟩ := hread (by decide +kernel)
  exact ⟨r', hwrite, hr'⟩

end IniReader

end LruCache
