import Mathlib.Data.List.AList
import Mathlib.Data.List.Dedup

/-!
# Tables in which the first entry stays

An entry is inserted unless there is one for its key already. What such a table holds depends on
the first entry for each key alone, and it holds as many entries as there are keys.
-/

namespace FirstWrite

variable {κ ν : Type*} [DecidableEq κ]

/-- Insert an entry, unless there is one for its key. Whether it was inserted comes first. -/
def insert (key : κ) (value : ν) (table : AList fun _ : κ => ν) : Bool × AList fun _ : κ => ν :=
  if key ∈ table then (false, table) else (true, table.insert key value)

/-- The table after entries have been inserted one after the other. -/
def fill (entries : List (κ × ν)) (table : AList fun _ : κ => ν) : AList fun _ : κ => ν :=
  entries.foldl (fun table entry => (insert entry.1 entry.2 table).2) table

/-- The value of the first entry for a key. -/
def first (entries : List (κ × ν)) (key : κ) : Option ν :=
  (entries.find? fun entry => entry.1 = key).map Prod.snd

variable {table : AList fun _ : κ => ν}

/-- A key that is there keeps its value. -/
theorem insert_of_mem {key : κ} (value : ν) (h : key ∈ table) :
    insert key value table = (false, table) := if_pos h

/-- A new key gets its value. -/
theorem insert_of_not_mem {key : κ} (value : ν) (h : key ∉ table) :
    insert key value table = (true, table.insert key value) := if_neg h

/-- An insertion makes the table longer exactly if it takes place. -/
theorem length_keys_insert (key : κ) (value : ν) :
    (insert key value table).2.keys.length =
      if (insert key value table).1 then table.keys.length + 1 else table.keys.length := by
  by_cases hmem : key ∈ table
  · rw [insert_of_mem value hmem]
    rfl
  · have hkey : key ∉ table.keys := fun hkey => hmem (AList.mem_keys.mpr hkey)
    rw [insert_of_not_mem value hmem, AList.keys_insert, List.erase_of_not_mem hkey]
    rfl

/-- The first entry is inserted first. -/
theorem fill_cons (entry : κ × ν) (entries : List (κ × ν)) :
    fill (entry :: entries) table = fill entries (insert entry.1 entry.2 table).2 := rfl

/-- The first entry with a key is the first one in a list that begins with it. -/
theorem first_cons (entry : κ × ν) (entries : List (κ × ν)) (key : κ) :
    first (entry :: entries) key = if entry.1 = key then some entry.2 else first entries key := by
  unfold first
  rw [List.find?_cons]
  split_ifs with hkey
  · rw [decide_eq_true hkey]
    rfl
  · rw [decide_eq_false hkey]

/-- An insertion gives a key a value only if it has none. -/
theorem lookup_insert (key key' : κ) (value : ν) :
    (insert key value table).2.lookup key' =
      (table.lookup key').or (if key = key' then some value else none) := by
  by_cases hmem : key ∈ table
  · rw [insert_of_mem value hmem]
    split_ifs with hkey
    · obtain ⟨held, hheld⟩ := Option.isSome_iff_exists.mp (AList.lookup_isSome.mpr hmem)
      rw [← hkey, hheld, Option.some_or]
    · rw [Option.or_none]
  · rw [insert_of_not_mem value hmem]
    split_ifs with hkey
    · rw [← hkey, AList.lookup_insert, AList.lookup_eq_none.mpr hmem, Option.none_or]
    · rw [AList.lookup_insert_ne (Ne.symm hkey), Option.or_none]

/-- A key has the value that it had, or that of the first entry for it. -/
theorem lookup_fill (entries : List (κ × ν)) (key : κ) :
    (fill entries table).lookup key = (table.lookup key).or (first entries key) := by
  induction entries generalizing table with
  | nil => exact Option.or_none.symm
  | cons entry entries ih =>
    rw [fill_cons, ih, lookup_insert, first_cons, Option.or_assoc]
    congr 1
    split_ifs
    · rw [Option.some_or]
    · rw [Option.none_or]

/-- The keys of a filled table are those of the entries. -/
theorem mem_fill_empty (entries : List (κ × ν)) (key : κ) :
    key ∈ fill entries ∅ ↔ key ∈ entries.map Prod.fst := by
  rw [← AList.lookup_isSome, lookup_fill, AList.lookup_empty, Option.none_or]
  unfold first
  rw [Option.isSome_map, List.find?_isSome, List.mem_map]
  simp only [decide_eq_true_eq]

/-- There are as many entries in the table as there are keys. -/
theorem length_keys_fill (entries : List (κ × ν)) :
    (fill entries ∅ : AList fun _ : κ => ν).keys.length = (entries.map Prod.fst).dedup.length := by
  have hmem : ∀ key, key ∈ (fill entries ∅ : AList fun _ : κ => ν).keys ↔
      key ∈ (entries.map Prod.fst).dedup := by
    intro key
    rw [List.mem_dedup, ← AList.mem_keys]
    exact mem_fill_empty entries key
  have hnodup := (fill entries ∅ : AList fun _ : κ => ν).nodupKeys
  exact ((List.perm_ext_iff_of_nodup hnodup (List.nodup_dedup _)).mpr hmem).length_eq

end FirstWrite
