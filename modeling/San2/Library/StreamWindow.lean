import Mathlib.Data.List.Basic

/-!
# Windows on a stream

A reader sees the front of a stream through a window of bounded size and takes segments out
of it that end with a delimiter. A window that holds a delimiter, or is full, has seen all
that decides about the next segment.
-/

namespace StreamWindow

variable {α : Type*} [DecidableEq α]

/-- The length of the next segment without its delimiter, if the delimiter lies within the
first `capacity` elements. -/
def segmentEnd (delimiter : α) (capacity : ℕ) (stream : List α) : Option ℕ :=
  (stream.take capacity).findIdx? (· = delimiter)

variable {delimiter : α} {capacity : ℕ} {stream window : List α}

/-- A delimiter that is not there is not found. -/
theorem findIdx?_eq_none (h : delimiter ∉ stream) : stream.findIdx? (· = delimiter) = none := by
  rw [List.findIdx?_eq_none_iff]
  intro x hx
  exact decide_eq_false fun heq => h (heq ▸ hx)

/-- A delimiter that is not found is not there. -/
theorem not_mem_of_findIdx?_eq_none (h : stream.findIdx? (· = delimiter) = none) :
    delimiter ∉ stream := by
  intro hmem
  have hnot := List.findIdx?_eq_none_iff.mp h delimiter hmem
  exact absurd rfl (of_decide_eq_false hnot)

/-- A segment ends where its delimiter stands. -/
theorem segmentEnd_append {segment : List α} (rest : List α) (hnone : delimiter ∉ segment)
    (hlength : segment.length < capacity) :
    segmentEnd delimiter capacity (segment ++ delimiter :: rest) = some segment.length := by
  obtain ⟨more, hmore⟩ : ∃ n, capacity = segment.length + (n + 1) :=
    ⟨capacity - segment.length - 1, by omega⟩
  rw [segmentEnd, hmore, List.take_length_add_append, List.take_succ_cons, List.findIdx?_append,
    findIdx?_eq_none hnone]
  simp [List.findIdx?_cons]

/-- Without a delimiter in reach there is no segment. -/
theorem segmentEnd_eq_none (hnone : delimiter ∉ stream.take capacity) :
    segmentEnd delimiter capacity stream = none := findIdx?_eq_none hnone

/-- What a segment that has been found looks like. -/
theorem eq_of_segmentEnd {length : ℕ} (h : segmentEnd delimiter capacity stream = some length) :
    stream = stream.take length ++ delimiter :: stream.drop (length + 1) ∧
      delimiter ∉ stream.take length ∧ length < capacity ∧ length < stream.length := by
  obtain ⟨hlength, hfound, hbefore⟩ := List.findIdx?_eq_some_iff_getElem.mp h
  rw [List.length_take] at hlength
  have hstream : length < stream.length := by omega
  have hdelimiter : stream[length] = delimiter := by simpa using hfound
  refine ⟨?_, ?_, by omega, hstream⟩
  · rw [← hdelimiter, ← List.drop_eq_getElem_cons hstream, List.take_append_drop]
  · intro hmem
    obtain ⟨j, hj, hget⟩ := List.mem_iff_getElem.mp hmem
    rw [List.length_take] at hj
    have hnot := hbefore j (by omega)
    rw [List.getElem_take] at hget hnot
    exact hnot (decide_eq_true hget)

/-- A segment with its delimiter. -/
theorem take_succ_of_segmentEnd {length : ℕ}
    (h : segmentEnd delimiter capacity stream = some length) :
    stream.take (length + 1) = stream.take length ++ [delimiter] := by
  obtain ⟨hlength, hfound, -⟩ := List.findIdx?_eq_some_iff_getElem.mp h
  rw [List.length_take] at hlength
  have hstream : length < stream.length := by omega
  have hdelimiter : stream[length] = delimiter := by simpa using hfound
  rw [List.take_succ_eq_append_getElem hstream, hdelimiter]

/-- A window that is full or holds a delimiter decides. -/
theorem segmentEnd_of_isPrefix (hwindow : window <+: stream) (hcapacity : window.length ≤ capacity)
    (hdecides : delimiter ∈ window ∨ window.length = capacity) :
    segmentEnd delimiter capacity stream = window.findIdx? (· = delimiter) := by
  obtain ⟨rest, rfl⟩ := hwindow
  rcases hdecides with hmem | hfull
  · rw [segmentEnd, List.take_append, List.take_of_length_le hcapacity, List.findIdx?_append]
    have hfound : ∃ x, x ∈ window ∧ decide (x = delimiter) = true := ⟨delimiter, hmem, by simp⟩
    rw [List.findIdx?_eq_some_of_exists hfound]
    rfl
  · rw [segmentEnd, List.take_left' hfull]

end StreamWindow
