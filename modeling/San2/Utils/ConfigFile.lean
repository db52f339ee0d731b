import San2.Library.FirstWrite
import San2.Library.LastWrite
import San2.Library.TextLines
import San2.Utils.Hex

/-!
# Configuration files

A line of a configuration file assigns a value to a key, unless nothing is left of it without its
comment. `load` ends at the first line that does neither if it parses strictly. What counts as a
blank differs: a line to be skipped has only spaces, keys and values end at tabs as well.
-/

namespace San2.Utils.Config

open TextLines

/-- `substr(0, pos)`, or `erase(pos)` where there is such a position. -/
def upTo (pos : Option ℕ) (line : Bytes) : Bytes :=
  match pos with
  | none => line
  | some pos => line.take pos

/-- `erase(0, pos)` -/
def eraseFront (pos : Option ℕ) (line : Bytes) : Bytes :=
  match pos with
  | none => []
  | some pos => line.drop pos

/-- `pos + 1`, which is zero for `npos`. -/
def next (pos : Option ℕ) : ℕ :=
  match pos with
  | none => 0
  | some pos => pos + 1

/-- `find_first_of` -/
def findFirstOf (chars line : Bytes) : Option ℕ := line.findIdx? fun c => c ∈ chars

/-- `find_first_not_of` -/
def findFirstNotOf (chars line : Bytes) : Option ℕ := line.findIdx? fun c => c ∉ chars

/-- `find_last_not_of` -/
def findLastNotOf (chars line : Bytes) : Option ℕ :=
  (line.reverse.findIdx? fun c => c ∉ chars).map fun back => line.length - 1 - back

/-- `tolower` in the C locale. -/
def tolower (c : UInt8) : UInt8 := if 0x41 ≤ c ∧ c ≤ 0x5A then c + 0x20 else c

/-- A tab and a space. -/
def tabAndSpace : Bytes := [0x09, 0x20]

/-- The contents of a configuration file, by key. -/
structure ConfigFile where
  contents : AList fun _ : Bytes => Bytes

namespace ConfigFile

/-- A new `ConfigFile` is empty. -/
def create : ConfigFile := ⟨∅⟩

/-- `ConfigFile::removeComment`: what stands before the first semicolon. -/
def removeComment (line : Bytes) : Bytes := upTo (findFirstOf [0x3B] line) line

/-- `ConfigFile::onlyWhitespace` -/
def onlyWhitespace (line : Bytes) : Bool := findFirstNotOf [0x20] line = none

/-- `ConfigFile::extractKey` -/
def extractKey (sepPos : Option ℕ) (line : Bytes) : Bytes :=
  let key := upTo sepPos line
  if findFirstOf [0x09] key ≠ none ∨ findFirstOf [0x20] key ≠ none then
    upTo (findFirstOf tabAndSpace key) key
  else key

/-- `ConfigFile::extractValue` -/
def extractValue (sepPos : Option ℕ) (line : Bytes) : Bytes :=
  let value := line.drop (next sepPos)
  let value := eraseFront (findFirstNotOf tabAndSpace value) value
  value.take (next (findLastNotOf tabAndSpace value))

/-- `ConfigFile::keyExists` -/
def keyExists (config : ConfigFile) (key : Bytes) : Bool :=
  let key := key.map tolower
  (config.contents.lookup key).isSome

/-- `ConfigFile::extractContents`: the last value of a key stays. -/
def extractContents (line : Bytes) (config : ConfigFile) : ConfigFile :=
  let line := eraseFront (findFirstNotOf tabAndSpace line) line
  let separatorPosition := findFirstOf [0x3D] line
  let key := extractKey separatorPosition line
  let value := extractValue separatorPosition line
  let key := key.map tolower
  if config.keyExists key then { config with contents := config.contents.insert key value }
  else { config with contents := (FirstWrite.insert key value config.contents).2 }

/-- `ConfigFile::validLine` -/
def validLine (line : Bytes) : Bool :=
  let temp := eraseFront (findFirstNotOf tabAndSpace line) line
  if temp[0]? = some 0x3D then false
  else (temp.drop (next (findFirstOf [0x3D] temp))).any fun c => c ≠ 0x20

/-- `ConfigFile::parseLine` -/
def parseLine (line : Bytes) (config : ConfigFile) : Bool × ConfigFile :=
  if findFirstOf [0x3D] line = none then (false, config)
  else if validLine line = false then (false, config)
  else (true, config.extractContents line)

/-- The loop over the lines, up to the result of `load`. -/
def loadLines (strictParsing : Bool) : List Bytes → ConfigFile → Bool × ConfigFile
  | [], config => (true, config)
  | line :: lines, config =>
    if line = [] then loadLines strictParsing lines config
    else
      let temp := removeComment line
      if onlyWhitespace temp then loadLines strictParsing lines config
      else
        let (ret, config) := parseLine temp config
        if ret = false ∧ strictParsing = true then (false, config)
        else loadLines strictParsing lines config

/-- `load` on the contents of the file, if it can be opened. -/
def load (file : Option Bytes) (strictParsing : Bool) (config : ConfigFile) : Bool × ConfigFile :=
  match file with
  | none => (false, config)
  | some content => loadLines strictParsing (lines 0x0A content) config

/-- `ConfigFile::getValue`: a key that is not there has an empty value. -/
def getValue (config : ConfigFile) (key : Bytes) : Bytes :=
  let key := key.map tolower
  if config.keyExists key = false then []
  else (config.contents.lookup key).getD []

end ConfigFile

/-! ## What a line means -/

/-- A space or a tab. -/
def blank (c : UInt8) : Bool := c = 0x20 || c = 0x09

/-- The line without everything from the first semicolon on. -/
def text (line : Bytes) : Bytes := line.takeWhile fun c => c ≠ 0x3B

/-- What stands before the first equals sign. -/
def beforeEquals (text : Bytes) : Bytes := text.takeWhile fun c => c ≠ 0x3D

/-- What stands after the first equals sign. -/
def afterEquals (text : Bytes) : Bytes := (text.dropWhile fun c => c ≠ 0x3D).drop 1

/-- There is an equals sign, not in front, and something else than spaces behind it. -/
def IsAssignment (line : Bytes) : Prop :=
  0x3D ∈ text line ∧ ((text line).dropWhile blank).head? ≠ some 0x3D ∧
    ∃ c ∈ afterEquals (text line), c ≠ 0x20

/-- Whether a line is an assignment can be computed. -/
instance (line : Bytes) : Decidable (IsAssignment line) := inferInstanceAs (Decidable (_ ∧ _))

/-- The key of an assignment. -/
def keyOf (line : Bytes) : Bytes :=
  (((beforeEquals (text line)).dropWhile blank).takeWhile fun c => !blank c).map tolower

/-- The value of an assignment. -/
def valueOf (line : Bytes) : Bytes := ((afterEquals (text line)).dropWhile blank).rdropWhile blank

/-- The value that the last assignment to a key among some lines has. -/
def lastValue (lines : List Bytes) (key : Bytes) : Bytes :=
  ((lines.reverse.find? fun line => IsAssignment line ∧ keyOf line = key.map tolower).map
    valueOf).getD []

/-- The line has only spaces and tabs, up to a comment. -/
def BlankLine (line : Bytes) : Prop := ∀ c ∈ text line, blank c = true

/-- Whether a line is blank can be computed. -/
instance (line : Bytes) : Decidable (BlankLine line) :=
  inferInstanceAs (Decidable (∀ c ∈ text line, _))

/-- The line is neither skipped nor an assignment. -/
def Bad (line : Bytes) : Prop := ¬IsAssignment line ∧ ∃ c ∈ text line, c ≠ 0x20

/-- Whether a line is bad can be computed. -/
instance (line : Bytes) : Decidable (Bad line) := inferInstanceAs (Decidable (_ ∧ _))

section

variable {chars line : Bytes}

/-- Up to a character that is found stand those that are not. -/
theorem upTo_findIdx? (p : UInt8 → Bool) (line : Bytes) :
    upTo (line.findIdx? p) line = line.takeWhile fun c => !p c := by
  induction line with
  | nil => rfl
  | cons c line ih =>
    rw [List.findIdx?_cons]
    cases hc : p c with
    | true => rw [if_pos rfl, List.takeWhile_cons_of_neg (by rw [hc]; decide), upTo, List.take_zero]
    | false =>
      rw [if_neg (by decide), List.takeWhile_cons_of_pos (by rw [hc]; rfl), ← ih]
      cases line.findIdx? p with
      | none => rfl
      | some pos => rfl

/-- Characters are dropped up to one that is found. -/
theorem eraseFront_findIdx? (p : UInt8 → Bool) (line : Bytes) :
    eraseFront (line.findIdx? p) line = line.dropWhile fun c => !p c := by
  induction line with
  | nil => rfl
  | cons c line ih =>
    rw [List.findIdx?_cons]
    cases hc : p c with
    | true =>
      rw [if_pos rfl, List.dropWhile_cons_of_neg (by rw [hc]; decide), eraseFront, List.drop_zero]
    | false =>
      rw [if_neg (by decide), List.dropWhile_cons_of_pos (by rw [hc]; rfl), ← ih]
      cases line.findIdx? p with
      | none => rfl
      | some pos => rfl

/-- What stands behind the first character with a property, where there is one. -/
theorem drop_next_findIdx? {p : UInt8 → Bool} (h : ∃ c ∈ line, p c = true) :
    line.drop (next (line.findIdx? p)) = (line.dropWhile fun c => !p c).drop 1 := by
  rw [← eraseFront_findIdx?]
  cases hpos : line.findIdx? p with
  | none =>
    obtain ⟨c, hc, hp⟩ := h
    rw [List.findIdx?_eq_none_iff.mp hpos c hc] at hp
    cases hp
  | some pos =>
    unfold next eraseFront
    rw [List.drop_drop]

/-- What remains of a line up to the last other character. -/
theorem take_next_findLastNotOf (chars line : Bytes) :
    line.take (next (findLastNotOf chars line)) = line.rdropWhile fun c => c ∈ chars := by
  have hback : (line.reverse.dropWhile fun c => decide (c ∈ chars)) =
      eraseFront (line.reverse.findIdx? fun c => c ∉ chars) line.reverse := by
    rw [eraseFront_findIdx?]
    congr 1
    funext c
    by_cases hc : c ∈ chars
    · simp [hc]
    · simp [hc]
  unfold findLastNotOf List.rdropWhile
  rw [hback]
  cases hpos : line.reverse.findIdx? fun c => c ∉ chars with
  | none => rfl
  | some back =>
    have hlt := (List.findIdx?_eq_some_iff_getElem.mp hpos).1
    rw [List.length_reverse] at hlt
    rw [Option.map_some, eraseFront, next, List.drop_reverse, List.reverse_reverse]
    congr 1
    omega

/-- To be none of a single character is to differ from it. -/
theorem not_mem_singleton (x : UInt8) : (fun c => !decide (c ∈ [x])) = fun c => decide (c ≠ x) := by
  funext c
  simp

/-- The characters of `tabAndSpace` are the blanks. -/
theorem mem_tabAndSpace : (fun c => decide (c ∈ tabAndSpace)) = blank := by
  funext c
  simp [tabAndSpace, blank, Bool.or_comm]

/-- Blanks are dropped at the front. -/
theorem eraseFront_findFirstNotOf (line : Bytes) :
    eraseFront (findFirstNotOf tabAndSpace line) line = line.dropWhile blank := by
  unfold findFirstNotOf
  rw [eraseFront_findIdx?, ← mem_tabAndSpace]
  congr 1
  funext c
  by_cases hc : c ∈ tabAndSpace
  · simp [hc]
  · simp [hc]

/-- A line up to the first occurrence of a character. -/
theorem upTo_findFirstOf_singleton (x : UInt8) (line : Bytes) :
    upTo (findFirstOf [x] line) line = line.takeWhile fun c => c ≠ x := by
  unfold findFirstOf
  rw [upTo_findIdx?, not_mem_singleton]

/-- A line up to the first blank. -/
theorem upTo_findFirstOf_tabAndSpace (line : Bytes) :
    upTo (findFirstOf tabAndSpace line) line = line.takeWhile fun c => !blank c := by
  unfold findFirstOf
  rw [upTo_findIdx?, ← mem_tabAndSpace]

/-- A character that is not found is not in the line. -/
theorem findFirstOf_singleton_eq_none {x : UInt8} :
    findFirstOf [x] line = none ↔ x ∉ line := by
  unfold findFirstOf
  rw [List.findIdx?_eq_none_iff]
  simp only [List.mem_singleton, decide_eq_false_iff_not]
  exact ⟨fun h hx => h x hx rfl, fun h c hc heq => h (heq ▸ hc)⟩

/-- What is behind the first equals sign, by its position. -/
theorem drop_next_findFirstOf (h : 0x3D ∈ line) :
    line.drop (next (findFirstOf [0x3D] line)) = afterEquals line := by
  unfold findFirstOf afterEquals
  rw [drop_next_findIdx? ⟨0x3D, h, by decide⟩, not_mem_singleton]

/-- Without its comment a line is its text. -/
theorem removeComment_eq (line : Bytes) : ConfigFile.removeComment line = text line :=
  upTo_findFirstOf_singleton 0x3B line

/-- Only spaces count as whitespace. -/
theorem onlyWhitespace_iff : ConfigFile.onlyWhitespace line = true ↔ ∀ c ∈ line, c = 0x20 := by
  unfold ConfigFile.onlyWhitespace findFirstNotOf
  rw [decide_eq_true_iff, List.findIdx?_eq_none_iff]
  simp only [List.mem_singleton, decide_eq_false_iff_not, not_not]

/-- Blanks are spaces and tabs. -/
theorem blank_iff {c : UInt8} : blank c = true ↔ c = 0x20 ∨ c = 0x09 := by
  unfold blank
  rw [Bool.or_eq_true, decide_eq_true_iff, decide_eq_true_iff]

/-- The key ends at the first blank, also where the source finds out first whether there is one. -/
theorem extractKey_eq (sepPos : Option ℕ) (line : Bytes) :
    ConfigFile.extractKey sepPos line = (upTo sepPos line).takeWhile fun c => !blank c := by
  unfold ConfigFile.extractKey
  dsimp only
  rw [upTo_findFirstOf_tabAndSpace]
  split_ifs with hfound
  · rfl
  · rw [not_or, not_not, not_not, findFirstOf_singleton_eq_none,
      findFirstOf_singleton_eq_none] at hfound
    refine (List.takeWhile_eq_self_iff.mpr ?_).symm
    intro c hc
    rw [Bool.not_eq_true', Bool.eq_false_iff]
    intro hblank
    rcases blank_iff.mp hblank with rfl | rfl
    · exact hfound.2 hc
    · exact hfound.1 hc

/-- The value is what follows the equals sign, without blanks at its ends. -/
theorem extractValue_eq (h : 0x3D ∈ line) :
    ConfigFile.extractValue (findFirstOf [0x3D] line) line =
      ((afterEquals line).dropWhile blank).rdropWhile blank := by
  unfold ConfigFile.extractValue
  dsimp only
  rw [take_next_findLastNotOf, eraseFront_findFirstNotOf, drop_next_findFirstOf h, mem_tabAndSpace]

/-- An equals sign is no blank. -/
theorem blank_ne_equals {c : UInt8} (h : blank c = true) : c ≠ 0x3D := by
  rintro rfl
  revert h
  decide

/-- Blanks in front do not hide an equals sign. -/
theorem mem_dropWhile_blank : 0x3D ∈ line.dropWhile blank ↔ 0x3D ∈ line := by
  induction line with
  | nil => rfl
  | cons c line ih =>
    cases hc : blank c with
    | true =>
      rw [List.dropWhile_cons_of_pos hc, ih, List.mem_cons, or_iff_right (blank_ne_equals hc).symm]
    | false => rw [List.dropWhile_cons_of_neg (by rw [hc]; decide)]

/-- Blanks in front belong to what stands before the equals sign. -/
theorem beforeEquals_dropWhile (line : Bytes) :
    beforeEquals (line.dropWhile blank) = (beforeEquals line).dropWhile blank := by
  unfold beforeEquals
  induction line with
  | nil => rfl
  | cons c line ih =>
    cases hc : blank c with
    | true =>
      rw [List.dropWhile_cons_of_pos hc, ih,
        List.takeWhile_cons_of_pos (by simpa using blank_ne_equals hc),
        List.dropWhile_cons_of_pos hc]
    | false =>
      rw [List.dropWhile_cons_of_neg (by rw [hc]; decide)]
      by_cases heq : c = 0x3D
      · rw [List.takeWhile_cons_of_neg (by simpa using heq), List.dropWhile_nil]
      · rw [List.takeWhile_cons_of_pos (by simpa using heq),
          List.dropWhile_cons_of_neg (by rw [hc]; decide)]

/-- Blanks in front do not change what stands after the equals sign. -/
theorem afterEquals_dropWhile (line : Bytes) :
    afterEquals (line.dropWhile blank) = afterEquals line := by
  unfold afterEquals
  induction line with
  | nil => rfl
  | cons c line ih =>
    cases hc : blank c with
    | true =>
      rw [List.dropWhile_cons_of_pos hc, ih,
        List.dropWhile_cons_of_pos (by simpa using blank_ne_equals hc)]
    | false => rw [List.dropWhile_cons_of_neg (by rw [hc]; decide)]

/-- A valid line has a key and a value. -/
theorem validLine_iff (h : 0x3D ∈ line) :
    ConfigFile.validLine line = true ↔
      (line.dropWhile blank).head? ≠ some 0x3D ∧ ∃ c ∈ afterEquals line, c ≠ 0x20 := by
  unfold ConfigFile.validLine
  dsimp only
  rw [eraseFront_findFirstNotOf, ← List.head?_eq_getElem?,
    drop_next_findFirstOf (mem_dropWhile_blank.mpr h), afterEquals_dropWhile]
  split_ifs with hfront
  · exact iff_of_false not_false fun hvalid => hvalid.1 hfront
  · rw [List.any_eq_true]
    simp only [decide_eq_true_eq]
    exact (and_iff_right hfront).symm

/-- Letters are made small once. -/
theorem tolower_tolower : ∀ c : UInt8, tolower (tolower c) = tolower c := by decide +kernel

/-- A key is made small once. -/
theorem map_tolower_map (key : Bytes) : (key.map tolower).map tolower = key.map tolower := by
  rw [List.map_map]
  exact List.map_congr_left fun c _ => tolower_tolower c

variable {config : ConfigFile}

/-- The key of a line is in lower case already, so that it is looked for as it is. -/
theorem keyExists_map (key : Bytes) :
    config.keyExists (key.map tolower) = (config.contents.lookup (key.map tolower)).isSome := by
  unfold ConfigFile.keyExists
  rw [map_tolower_map]

/-- Either way the key has the value afterwards. -/
theorem extractContents_eq (h : 0x3D ∈ text line) :
    config.extractContents (text line) =
      ⟨config.contents.insert (keyOf line) (valueOf line)⟩ := by
  have hkey : (ConfigFile.extractKey
      (findFirstOf [0x3D] ((text line).dropWhile blank))
      ((text line).dropWhile blank)).map tolower = keyOf line := by
    rw [extractKey_eq, upTo_findFirstOf_singleton]
    exact congrArg (fun before => (before.takeWhile fun c => !blank c).map tolower)
      (beforeEquals_dropWhile (text line))
  have hvalue : ConfigFile.extractValue
      (findFirstOf [0x3D] ((text line).dropWhile blank)) ((text line).dropWhile blank) =
      valueOf line := by
    rw [extractValue_eq (mem_dropWhile_blank.mpr h), afterEquals_dropWhile]
    rfl
  unfold ConfigFile.extractContents
  dsimp only
  rw [eraseFront_findFirstNotOf, hkey, hvalue]
  split_ifs with hexists
  · rfl
  · have habsent : keyOf line ∉ config.contents := by
      intro hmem
      refine hexists ?_
      unfold keyOf at hmem ⊢
      rw [keyExists_map]
      exact AList.lookup_isSome.mpr hmem
    rw [FirstWrite.insert_of_not_mem _ habsent]

/-- An assignment is stored, and nothing else is. -/
theorem parseLine_eq (line : Bytes) (config : ConfigFile) :
    config.parseLine (text line) =
      if IsAssignment line then (true, ⟨config.contents.insert (keyOf line) (valueOf line)⟩)
      else (false, config) := by
  unfold ConfigFile.parseLine
  by_cases hequals : 0x3D ∈ text line
  · rw [if_neg (mt findFirstOf_singleton_eq_none.mp (not_not.mpr hequals))]
    by_cases hvalid : ConfigFile.validLine (text line) = true
    · have hassignment : IsAssignment line := ⟨hequals, (validLine_iff hequals).mp hvalid⟩
      rw [if_neg (by rw [hvalid]; decide), if_pos hassignment, extractContents_eq hequals]
    · have hnone : ¬IsAssignment line := fun h => hvalid ((validLine_iff hequals).mpr h.2)
      rw [if_pos (Bool.eq_false_iff.mpr hvalid), if_neg hnone]
  · have hnone : ¬IsAssignment line := fun h => hequals h.1
    rw [if_pos (findFirstOf_singleton_eq_none.mpr hequals), if_neg hnone]

/-! ## The loop -/

/-- What a line does to the contents. -/
def assign (line : Bytes) (config : ConfigFile) : ConfigFile :=
  if IsAssignment line then ⟨config.contents.insert (keyOf line) (valueOf line)⟩ else config

/-- The turn of the loop for a line. -/
theorem loadLines_cons (strictParsing : Bool) (line : Bytes) (rest : List Bytes)
    (config : ConfigFile) :
    ConfigFile.loadLines strictParsing (line :: rest) config =
      if Bad line ∧ strictParsing = true then (false, config)
      else ConfigFile.loadLines strictParsing rest (assign line config) := by
  rw [ConfigFile.loadLines]
  dsimp only
  rw [removeComment_eq]
  by_cases hspaces : ∀ c ∈ text line, c = 0x20
  · have hgood : ¬(Bad line ∧ strictParsing = true) := by
      rintro ⟨⟨-, c, hc, hother⟩, -⟩
      exact hother (hspaces c hc)
    have hnone : ¬IsAssignment line := fun h => absurd (hspaces 0x3D h.1) (by decide)
    rw [if_pos (onlyWhitespace_iff.mpr hspaces), if_neg hgood, assign, if_neg hnone, ite_self]
  · have hline : line ≠ [] := by
      rintro rfl
      exact hspaces fun c hc => absurd hc List.not_mem_nil
    have hother : ∃ c ∈ text line, c ≠ 0x20 := by
      push Not at hspaces
      exact hspaces
    rw [if_neg hline, if_neg (mt onlyWhitespace_iff.mp hspaces), parseLine_eq, assign]
    by_cases hassignment : IsAssignment line
    · have hgood : ¬(Bad line ∧ strictParsing = true) := fun h => h.1.1 hassignment
      rw [if_pos hassignment, if_neg hgood, if_pos hassignment]
      exact if_neg fun h => Bool.noConfusion h.1
    · have hbad : Bad line := ⟨hassignment, hother⟩
      rw [if_neg hassignment, if_neg hassignment]
      by_cases hstrict : strictParsing = true
      · exact (if_pos ⟨rfl, hstrict⟩).trans (if_pos ⟨hbad, hstrict⟩).symm
      · exact (if_neg fun h => hstrict h.2).trans (if_neg fun h => hstrict h.2).symm

/-- The contents after all the lines. -/
def assignAll (ls : List Bytes) (config : ConfigFile) : ConfigFile :=
  ls.foldl (fun config line => assign line config) config

/-- Lines are read one after the other. -/
theorem assignAll_append (first second : List Bytes) :
    assignAll (first ++ second) config = assignAll second (assignAll first config) :=
  List.foldl_append

/-- Without a bad line all of them are read. -/
theorem loadLines_of_good {strictParsing : Bool} {ls : List Bytes}
    (h : ∀ line ∈ ls, ¬(Bad line ∧ strictParsing = true)) (rest : List Bytes) :
    ConfigFile.loadLines strictParsing (ls ++ rest) config =
      ConfigFile.loadLines strictParsing rest (assignAll ls config) := by
  induction ls generalizing config with
  | nil => rfl
  | cons line ls ih =>
    rw [List.cons_append, loadLines_cons, if_neg (h line List.mem_cons_self),
      ih fun other hother => h other (List.mem_cons_of_mem line hother)]
    rfl

/-- If no line stops the reading, all assignments are stored. -/
theorem loadLines_of_all_good {strictParsing : Bool} {ls : List Bytes}
    (h : ∀ line ∈ ls, ¬(Bad line ∧ strictParsing = true)) :
    ConfigFile.loadLines strictParsing ls config = (true, assignAll ls config) := by
  have hread := @loadLines_of_good config strictParsing ls h []
  rw [List.append_nil] at hread
  exact hread

/-- With a bad line `load` fails, and the lines in front of it have been read. -/
theorem loadLines_of_bad {ls : List Bytes} (h : ∃ line ∈ ls, Bad line) (rest : List Bytes) :
    ConfigFile.loadLines true (ls ++ rest) config =
      (false, assignAll (ls.takeWhile fun line => ¬Bad line) config) := by
  induction ls generalizing config with
  | nil =>
    obtain ⟨line, hline, -⟩ := h
    cases hline
  | cons line ls ih =>
    rw [List.cons_append, loadLines_cons]
    by_cases hbad : Bad line
    · rw [if_pos ⟨hbad, rfl⟩, List.takeWhile_cons_of_neg (by simpa using hbad)]
      rfl
    · have hrest : ∃ line ∈ ls, Bad line := by
        obtain ⟨other, hother, hbad'⟩ := h
        rcases List.mem_cons.mp hother with rfl | hother
        · exact absurd hbad' hbad
        · exact ⟨other, hother, hbad'⟩
      rw [if_neg fun h => hbad h.1, ih hrest, List.takeWhile_cons_of_pos (by simpa using hbad)]
      rfl

/-- A line that does nothing makes no difference. -/
theorem loadLines_insert {strictParsing : Bool} {inserted : Bytes}
    (hgood : ¬(Bad inserted ∧ strictParsing = true)) (hnone : ¬IsAssignment inserted)
    (before after : List Bytes) :
    ConfigFile.loadLines strictParsing (before ++ inserted :: after) config =
      ConfigFile.loadLines strictParsing (before ++ after) config := by
  induction before generalizing config with
  | nil =>
    rw [List.nil_append, List.nil_append, loadLines_cons, if_neg hgood, assign, if_neg hnone]
  | cons line before ih =>
    rw [List.cons_append, List.cons_append, loadLines_cons, loadLines_cons, ih]

/-- What a line does to the values. -/
def commandOf (line : Bytes) : LastWrite.Command fun _ : Bytes => Option Bytes :=
  if IsAssignment line then .write (keyOf line) (some (valueOf line)) else .keep

/-- A line is a command for the store of its key. -/
theorem lookup_assign (line : Bytes) (config : ConfigFile) :
    (fun key => (assign line config).contents.lookup key) =
      (commandOf line).apply (fun _ => none) fun key => config.contents.lookup key := by
  unfold assign commandOf
  funext key
  split_ifs with hassignment
  · change _ = Function.update (fun key => config.contents.lookup key) (keyOf line)
      (some (valueOf line)) key
    by_cases hkey : key = keyOf line
    · rw [hkey, AList.lookup_insert, Function.update_self]
    · rw [AList.lookup_insert_ne hkey, Function.update_of_ne hkey]
  · rfl

/-- Reading lines runs their commands. -/
theorem lookup_assignAll (ls : List Bytes) (config : ConfigFile) :
    (fun key => (assignAll ls config).contents.lookup key) =
      LastWrite.run (fun _ => none) (fun key => config.contents.lookup key)
        (ls.map commandOf) := by
  induction ls generalizing config with
  | nil => rfl
  | cons line ls ih =>
    have hrest := ih (assign line config)
    rw [lookup_assign] at hrest
    exact hrest

/-- The last write to a key is the last line that assigns to it. -/
theorem lastWrite_map_commandOf (key : Bytes) (ls : List Bytes) :
    LastWrite.lastWrite key (ls.map commandOf) =
      (ls.find? fun line => IsAssignment line ∧ keyOf line = key).map fun line =>
        some (valueOf line) := by
  induction ls with
  | nil => rfl
  | cons line ls ih =>
    rw [List.map_cons, List.find?_cons]
    unfold commandOf
    by_cases hassignment : IsAssignment line
    · by_cases hkey : keyOf line = key
      · simp [LastWrite.lastWrite, hassignment, hkey]
      · simp only [hassignment, hkey, if_true, and_false, decide_false, LastWrite.lastWrite,
          dif_neg, not_false_eq_true]
        exact ih
    · simp only [hassignment, if_false, false_and, decide_false, LastWrite.lastWrite]
      exact ih

/-- The value of a key is what is stored under it in small letters. -/
theorem getValue_eq (config : ConfigFile) (key : Bytes) :
    config.getValue key = (config.contents.lookup (key.map tolower)).getD [] := by
  unfold ConfigFile.getValue
  dsimp only
  rw [keyExists_map]
  cases config.contents.lookup (key.map tolower) with
  | none => rfl
  | some value => rfl

/-- A key has the value of the last assignment to it. -/
theorem getValue_assignAll (ls : List Bytes) (key : Bytes) :
    (assignAll ls ConfigFile.create).getValue key = lastValue ls key := by
  have hlookup := congrFun (lookup_assignAll ls ConfigFile.create) (key.map tolower)
  have hempty : (fun key => ConfigFile.create.contents.lookup key) =
      fun _ : Bytes => (none : Option Bytes) := by
    funext key
    exact AList.lookup_empty key
  rw [hempty, LastWrite.run_eq_held] at hlookup
  unfold LastWrite.held at hlookup
  rw [← List.map_reverse, lastWrite_map_commandOf] at hlookup
  rw [getValue_eq, hlookup]
  unfold lastValue
  cases ls.reverse.find? fun line => IsAssignment line ∧ keyOf line = key.map tolower with
  | none => rfl
  | some line => rfl

/-- Without a tab a blank line is skipped. -/
theorem bad_iff_of_blankLine (h : BlankLine line) : Bad line ↔ 0x09 ∈ text line := by
  constructor
  · rintro ⟨-, c, hc, hother⟩
    rcases blank_iff.mp (h c hc) with rfl | rfl
    · exact absurd rfl hother
    · exact hc
  · intro htab
    exact ⟨fun hassignment => blank_ne_equals (h 0x3D hassignment.1) rfl, 0x09, htab, by decide⟩

/-- A blank line assigns nothing. -/
theorem not_isAssignment_of_blankLine (h : BlankLine line) : ¬IsAssignment line :=
  fun hassignment => blank_ne_equals (h 0x3D hassignment.1) rfl

/-- After a successful load the values are those of the last assignments. -/
theorem getValue_of_load {strictParsing : Bool} {content : Bytes}
    (h : (ConfigFile.create.load (some content) strictParsing).1 = true) (key : Bytes) :
    (ConfigFile.create.load (some content) strictParsing).2.getValue key =
      lastValue (lines 0x0A content) key := by
  change (ConfigFile.loadLines strictParsing (lines 0x0A content) ConfigFile.create).1 = true at h
  change (ConfigFile.loadLines strictParsing (lines 0x0A content) ConfigFile.create).2.getValue
    key = _
  have hgood : ∀ line ∈ lines 0x0A content, ¬(Bad line ∧ strictParsing = true) := by
    rintro line hline ⟨hbad, rfl⟩
    have hstopped := @loadLines_of_bad ConfigFile.create _ ⟨line, hline, hbad⟩ []
    rw [List.append_nil] at hstopped
    rw [hstopped] at h
    cases h
  rw [loadLines_of_all_good hgood]
  exact getValue_assignAll _ key

/-- The values after `load` has stopped at a bad line. -/
theorem loadLines_stopped {before after : List Bytes} (hgood : ∀ line ∈ before, ¬Bad line)
    (hbad : ∃ line ∈ after, Bad line) :
    ConfigFile.loadLines true (before ++ after) ConfigFile.create =
      (false, assignAll (before ++ after.takeWhile fun line => ¬Bad line) ConfigFile.create) := by
  have hafter := @loadLines_of_bad (assignAll before ConfigFile.create) after hbad []
  rw [List.append_nil] at hafter
  rw [loadLines_of_good fun line hline h => hgood line hline h.1, hafter, assignAll_append]

/-- A line of spaces and a comment can be put in anywhere in a file. -/
theorem load_insert_spaces {front inserted : Bytes} (rest : Bytes)
    (hfront : front = [] ∨ ∃ text, front = text ++ [0x0A]) (hinserted : 0x0A ∉ inserted)
    (hblank : BlankLine inserted) (htab : 0x09 ∉ text inserted) (strictParsing : Bool) :
    ConfigFile.load (some (front ++ (inserted ++ 0x0A :: rest))) strictParsing config =
      ConfigFile.load (some (front ++ rest)) strictParsing config := by
  obtain ⟨hlines, hlines'⟩ := lines_insert hfront hinserted rest
  have hskipped : ¬(Bad inserted ∧ strictParsing = true) :=
    fun h => htab ((bad_iff_of_blankLine hblank).mp h.1)
  unfold ConfigFile.load
  dsimp only
  rw [hlines, hlines']
  exact loadLines_insert hskipped (not_isAssignment_of_blankLine hblank) _ _

/-- Inserting a blank line makes no difference, and the values are those of the last assignments,
unless the parsing is strict, the line has a tab, no line in front of it is bad, and the lines
behind it would have been read to the end or have changed a value. -/
theorem load_insert_blank_iff (strictParsing : Bool) (content content' : Bytes)
    (before after : List Bytes) (inserted : Bytes)
    (h : lines 0x0A content = before ++ after)
    (h' : lines 0x0A content' = before ++ inserted :: after) (hblank : BlankLine inserted) :
    (((ConfigFile.create.load (some content') strictParsing).1 =
          (ConfigFile.create.load (some content) strictParsing).1 ∧
        ∀ key, (ConfigFile.create.load (some content') strictParsing).2.getValue key =
          (ConfigFile.create.load (some content) strictParsing).2.getValue key) ∧
      ((ConfigFile.create.load (some content) strictParsing).1 = true →
        ∀ key, (ConfigFile.create.load (some content) strictParsing).2.getValue key =
          lastValue (lines 0x0A content) key)) ↔
    (strictParsing = false ∨ 0x09 ∉ text inserted ∨ (∃ line ∈ before, Bad line) ∨
      (∃ line ∈ after, Bad line) ∧
        ∀ key, lastValue (before ++ after.takeWhile fun line => ¬Bad line) key =
          lastValue before key) := by
  have hload : ConfigFile.create.load (some content) strictParsing =
      ConfigFile.loadLines strictParsing (before ++ after) ConfigFile.create :=
    congrArg (fun ls => ConfigFile.loadLines strictParsing ls ConfigFile.create) h
  have hload' : ConfigFile.create.load (some content') strictParsing =
      ConfigFile.loadLines strictParsing (before ++ inserted :: after) ConfigFile.create :=
    congrArg (fun ls => ConfigFile.loadLines strictParsing ls ConfigFile.create) h'
  rw [and_iff_left fun hloaded key => getValue_of_load hloaded key, hload, hload']
  have hsame : ∀ {x y : Bool × ConfigFile}, x = y →
      x.1 = y.1 ∧ ∀ key, x.2.getValue key = y.2.getValue key := by
    rintro x y rfl
    exact ⟨rfl, fun _ => rfl⟩
  by_cases hskipped : ¬(Bad inserted ∧ strictParsing = true)
  · refine iff_of_true
      (hsame (loadLines_insert hskipped (not_isAssignment_of_blankLine hblank) before after)) ?_
    rw [bad_iff_of_blankLine hblank] at hskipped
    cases strictParsing with
    | false => exact Or.inl rfl
    | true => exact Or.inr (Or.inl fun htab => hskipped ⟨htab, rfl⟩)
  obtain ⟨hbad, rfl⟩ := not_not.mp hskipped
  have htab : 0x09 ∈ text inserted := (bad_iff_of_blankLine hblank).mp hbad
  by_cases hbefore : ∃ line ∈ before, Bad line
  · refine iff_of_true (hsame ?_) (Or.inr (Or.inr (Or.inl hbefore)))
    rw [loadLines_of_bad hbefore, loadLines_of_bad hbefore]
  have hgood : ∀ line ∈ before, ¬Bad line :=
    fun line hline hline' => hbefore ⟨line, hline, hline'⟩
  have hstopped : ConfigFile.loadLines true (before ++ inserted :: after) ConfigFile.create =
      (false, assignAll before ConfigFile.create) := by
    rw [loadLines_stopped hgood ⟨inserted, List.mem_cons_self, hbad⟩,
      List.takeWhile_cons_of_neg (by simpa using hbad), List.append_nil]
  rw [hstopped, or_iff_right (by decide), or_iff_right (not_not.mpr htab), or_iff_right hbefore]
  by_cases hafter : ∃ line ∈ after, Bad line
  · rw [loadLines_stopped hgood hafter, and_iff_right hafter]
    simp only [getValue_assignAll, true_and]
    exact ⟨fun hvalues key => (hvalues key).symm, fun hvalues key => (hvalues key).symm⟩
  · have hall : ∀ line ∈ before ++ after, ¬(Bad line ∧ true = true) := by
      rintro line hline ⟨hline', -⟩
      rcases List.mem_append.mp hline with hmem | hmem
      · exact hbefore ⟨line, hmem, hline'⟩
      · exact hafter ⟨line, hmem, hline'⟩
    rw [loadLines_of_all_good hall]
    exact iff_of_false (fun hneutral => Bool.noConfusion hneutral.1) fun hvalues =>
      hafter hvalues.1

/-- A comment behind two spaces is put in between two assignments. -/
theorem load_insert_blank_comment :
    let content : Bytes := [0x41, 0x3D, 0x31, 0x0A, 0x61, 0x3D, 0x32]
    let content' : Bytes := [0x41, 0x3D, 0x31, 0x0A, 0x20, 0x20, 0x3B, 0x09, 0x0A, 0x61, 0x3D, 0x32]
    (ConfigFile.create.load (some content') true).1 =
        (ConfigFile.create.load (some content) true).1 ∧
      (ConfigFile.create.load (some content') true).2.getValue [0x41] =
        (ConfigFile.create.load (some content) true).2.getValue [0x41] ∧
      (ConfigFile.create.load (some content) true).2.getValue [0x41] = [0x32] := by
  have hneutral := (load_insert_blank_iff true [0x41, 0x3D, 0x31, 0x0A, 0x61, 0x3D, 0x32]
    [0x41, 0x3D, 0x31, 0x0A, 0x20, 0x20, 0x3B, 0x09, 0x0A, 0x61, 0x3D, 0x32]
    [[0x41, 0x3D, 0x31]] [[0x61, 0x3D, 0x32]] [0x20, 0x20, 0x3B, 0x09] (by decide +kernel)
    (by decide +kernel) (by decide +kernel)).mpr (Or.inr (Or.inl (by decide +kernel)))
  refine ⟨hneutral.1.1, hneutral.1.2 [0x41], ?_⟩
  rw [hneutral.2 (by decide +kernel)]
  decide +kernel

/-- A line with a tab makes strict parsing fail. -/
theorem load_insert_blank_tab :
    ¬∀ (strictParsing : Bool) (content content' : Bytes) (before after : List Bytes)
      (inserted : Bytes), lines 0x0A content = before ++ after →
      lines 0x0A content' = before ++ inserted :: after → BlankLine inserted →
      (ConfigFile.create.load (some content') strictParsing).1 =
        (ConfigFile.create.load (some content) strictParsing).1 := by
  intro h
  have htab := h true [0x61, 0x3D, 0x31] [0x09, 0x0A, 0x61, 0x3D, 0x31] [] [[0x61, 0x3D, 0x31]]
    [0x09] (by decide +kernel) (by decide +kernel) (by decide +kernel)
  revert htab
  decide +kernel

end

end San2.Utils.Config
