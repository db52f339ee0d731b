import Mathlib.Data.List.DropRight
import Mathlib.Tactic.Common

/-!
# Lines and words

A text is read line by line, up to a delimiter; what stands behind the last delimiter is a line
only if there is something. The words of a line are what stands between its blanks.
-/

namespace TextLines

variable {α : Type*}

/-- Where dropping stops. -/
theorem of_dropWhile_eq_cons {p : α → Bool} {text rest : List α} {c : α}
    (h : text.dropWhile p = c :: rest) : p c = false := by
  have hhead := List.head?_dropWhile_not p text
  rw [h] at hhead
  exact hhead

section

variable [DecidableEq α] {delim : α}

/-- The lines of a text, without their delimiters: what comes of reading up to the next delimiter
as long as there is something to read. -/
def lines (delim : α) : List α → List (List α)
  | [] => []
  | c :: text =>
    if c = delim then [] :: lines delim text
    else
      match lines delim text with
      | [] => [[c]]
      | line :: more => (c :: line) :: more

/-- A line without a delimiter in it is the first line of what begins with it. -/
theorem lines_append_line {line : List α} (h : delim ∉ line) (text : List α) :
    lines delim (line ++ delim :: text) = line :: lines delim text := by
  induction line with
  | nil => rw [List.nil_append, lines, if_pos rfl]
  | cons c line ih =>
    rw [List.mem_cons, not_or] at h
    rw [List.cons_append, lines, if_neg (Ne.symm h.1), ih h.2]

/-- Behind a delimiter the lines begin anew. -/
theorem lines_append (text rest : List α) :
    lines delim (text ++ delim :: rest) = lines delim (text ++ [delim]) ++ lines delim rest := by
  induction text with
  | nil => rw [List.nil_append, List.nil_append, lines, if_pos rfl, lines, if_pos rfl, lines,
      List.singleton_append]
  | cons c text ih =>
    rw [List.cons_append, List.cons_append, lines, lines, ih]
    split_ifs
    · rw [List.cons_append]
    · have hne : lines delim (text ++ [delim]) ≠ [] := by
        cases text with
        | nil =>
          rw [List.nil_append, lines, if_pos rfl]
          exact List.cons_ne_nil _ _
        | cons d text =>
          rw [List.cons_append, lines]
          split_ifs
          · exact List.cons_ne_nil _ _
          · cases lines delim (text ++ [delim]) with
            | nil => exact List.cons_ne_nil _ _
            | cons line more => exact List.cons_ne_nil _ _
      obtain ⟨line, more, heq⟩ := List.exists_cons_of_ne_nil hne
      rw [heq, List.cons_append, List.cons_append]

/-- A line that is put in between two lines, or in front of the first. -/
theorem lines_insert {front line : List α} (hfront : front = [] ∨ ∃ text, front = text ++ [delim])
    (hline : delim ∉ line) (rest : List α) :
    lines delim (front ++ rest) = lines delim front ++ lines delim rest ∧
      lines delim (front ++ (line ++ delim :: rest)) =
        lines delim front ++ line :: lines delim rest := by
  have hcut : ∀ rest, lines delim (front ++ rest) = lines delim front ++ lines delim rest := by
    intro rest
    obtain rfl | ⟨text, rfl⟩ := hfront
    · rw [List.nil_append, lines, List.nil_append]
    · rw [List.append_assoc, List.singleton_append, lines_append]
  refine ⟨hcut rest, ?_⟩
  rw [hcut, lines_append_line hline]

end

/-- What stands between the blanks of a line. -/
def words (blank : α → Bool) (line : List α) : List (List α) :=
  (line.splitOnP blank).filter fun word => !word.isEmpty

variable {blank : α → Bool} {c : α} {line word rest : List α}

/-- A blank between two texts keeps their words apart. -/
theorem words_append_cons (hc : blank c = true) (left right : List α) :
    words blank (left ++ c :: right) = words blank left ++ words blank right := by
  unfold words
  rw [List.splitOnP_append_cons left right hc, List.filter_append]

/-- An empty line has no words. -/
theorem words_nil : words blank [] = [] := rfl

/-- A blank in front adds no word. -/
theorem words_cons (hc : blank c = true) (line : List α) :
    words blank (c :: line) = words blank line := words_append_cons hc [] line

/-- Blanks in front of a line do not matter. -/
theorem words_blank_append (h : ∀ c ∈ rest, blank c = true) (line : List α) :
    words blank (rest ++ line) = words blank line := by
  induction rest with
  | nil => rfl
  | cons c rest ih =>
    rw [List.cons_append, words_cons (h c List.mem_cons_self)]
    exact ih fun d hd => h d (List.mem_cons_of_mem c hd)

/-- Nor do blanks behind it. -/
theorem words_append_blank (h : ∀ c ∈ rest, blank c = true) (line : List α) :
    words blank (line ++ rest) = words blank line := by
  cases rest with
  | nil => rw [List.append_nil]
  | cons c rest =>
    have hrest := words_blank_append (fun d hd => h d (List.mem_cons_of_mem c hd)) []
    rw [List.append_nil, words_nil] at hrest
    rw [words_append_cons (h c List.mem_cons_self), hrest, List.append_nil]

/-- A line of letters is a single word. -/
theorem words_of_word (h : ∀ c ∈ word, blank c = false) (hne : word ≠ []) :
    words blank word = [word] := by
  unfold words
  rw [List.splitOnP_eq_singleton h]
  cases word with
  | nil => exact absurd rfl hne
  | cons c word => rfl

/-- The first word goes from the first character that is no blank up to the next blank. -/
theorem words_eq_cons (h : line.dropWhile blank = c :: rest) :
    words blank line = (c :: rest).takeWhile (fun d => !blank d) ::
      words blank ((c :: rest).dropWhile fun d => !blank d) := by
  have hc : blank c = false := of_dropWhile_eq_cons h
  have hfront : words blank line = words blank (c :: rest) := by
    rw [← h]
    conv_lhs => rw [← List.takeWhile_append_dropWhile (p := blank) (l := line)]
    exact words_blank_append (fun d hd => List.mem_takeWhile_imp hd) _
  have hword : ∀ d ∈ (c :: rest).takeWhile fun d => !blank d, blank d = false := by
    intro d hd
    have hnot := List.mem_takeWhile_imp hd
    exact (Bool.not_eq_true' _).mp hnot
  have hne : (c :: rest).takeWhile (fun d => !blank d) ≠ [] := by
    rw [List.takeWhile_cons_of_pos (by rw [hc]; rfl)]
    exact List.cons_ne_nil _ _
  rw [hfront]
  conv_lhs => rw [← List.takeWhile_append_dropWhile (p := fun d => !blank d) (l := c :: rest)]
  cases hmore : (c :: rest).dropWhile fun d => !blank d with
  | nil => rw [List.append_nil, words_of_word hword hne, words_nil]
  | cons d more =>
    have hstop := of_dropWhile_eq_cons hmore
    have hd : blank d = true := (Bool.not_eq_false' _).mp hstop
    rw [words_append_cons hd, words_of_word hword hne, words_cons hd, List.singleton_append]

/-- A line without words is blank. -/
theorem words_eq_nil_iff : words blank line = [] ↔ ∀ c ∈ line, blank c = true := by
  constructor
  · intro h
    cases hrest : line.dropWhile blank with
    | nil => exact List.dropWhile_eq_nil_iff.mp hrest
    | cons c rest =>
      rw [words_eq_cons hrest] at h
      cases h
  · intro h
    have hblank := words_append_blank h []
    rw [List.nil_append, words_nil] at hblank
    exact hblank

end TextLines
