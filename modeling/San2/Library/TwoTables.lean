import Mathlib.Data.List.Basic

/-!
# Two tables for the keys of one space

Values of two kinds are registered under keys, each kind in a table of its own. A key belongs
to at most one of the tables as long as every registration looks at both of them. Registration
that looks only at its own table gives the same answers exactly while no key is used for both
kinds.
-/

namespace TwoTables

/-- Two tables that share their keys. -/
structure Tables (κ α β : Type) where
  first : List (κ × α)
  second : List (κ × β)

/-- A value of either kind with its key. -/
inductive Entry (κ α β : Type)
  | first (key : κ) (value : α)
  | second (key : κ) (value : β)

variable {κ α β : Type} [BEq κ]

/-- The key of an entry, whichever table it is for. -/
def Entry.key : Entry κ α β → κ
  | .first key _ => key
  | .second key _ => key

namespace Tables

/-- A table that already has the key is left alone. -/
def insertInto {γ : Type} (key : κ) (value : γ) (table : List (κ × γ)) : Bool × List (κ × γ) :=
  if (table.lookup key).isSome then (false, table) else (true, (key, value) :: table)

/-- Registration that looks at the table of its kind. -/
def insert (t : Tables κ α β) : Entry κ α β → Bool × Tables κ α β
  | .first key value =>
    ((insertInto key value t.first).1, { t with first := (insertInto key value t.first).2 })
  | .second key value =>
    ((insertInto key value t.second).1, { t with second := (insertInto key value t.second).2 })

/-- The table of the other kind has the key. -/
def elsewhere (t : Tables κ α β) : Entry κ α β → Bool
  | .first key _ => (t.second.lookup key).isSome
  | .second key _ => (t.first.lookup key).isSome

/-- The table of its kind has the key. -/
def present (t : Tables κ α β) : Entry κ α β → Bool
  | .first key _ => (t.first.lookup key).isSome
  | .second key _ => (t.second.lookup key).isSome

/-- Registration that looks at the other table as well. -/
def insertChecked (t : Tables κ α β) (entry : Entry κ α β) : Bool × Tables κ α β :=
  if t.elsewhere entry then (false, t) else t.insert entry

/-- Some table has the key. -/
def Taken (t : Tables κ α β) (key : κ) : Prop :=
  (t.first.lookup key).isSome = true ∨ (t.second.lookup key).isSome = true

/-- No key is in both tables. -/
def Exclusive (t : Tables κ α β) : Prop :=
  ∀ key, ¬((t.first.lookup key).isSome = true ∧ (t.second.lookup key).isSome = true)

/-- The value under a key; the first table is looked at first. -/
def find (t : Tables κ α β) (key : κ) : Option (Entry κ α β) :=
  match t.first.lookup key with
  | some value => some (.first key value)
  | none => (t.second.lookup key).map (Entry.second key)

/-- An empty pair of tables. -/
def empty : Tables κ α β := ⟨[], []⟩

/-- Entries that have been registered one after the other, and the answers. -/
def insertAll (insert : Tables κ α β → Entry κ α β → Bool × Tables κ α β) :
    List (Entry κ α β) → Tables κ α β → List (Entry κ α β × Bool) × Tables κ α β
  | [], t => ([], t)
  | entry :: entries, t =>
    let (answers, last) := insertAll insert entries (insert t entry).2
    ((entry, (insert t entry).1) :: answers, last)

/-- Every answer is right in its turn: false exactly for a key that is taken, and then nothing has
changed. In between no key is in both tables. -/
def Answered (insert : Tables κ α β → Entry κ α β → Bool × Tables κ α β) :
    List (Entry κ α β) → Tables κ α β → Prop
  | [], t => t.Exclusive
  | entry :: entries, t =>
    t.Exclusive ∧ ((insert t entry).1 = false ↔ t.Taken entry.key) ∧
      ((insert t entry).1 = false → (insert t entry).2 = t) ∧
      Answered insert entries (insert t entry).2

/-- Two entries of different kinds have one key. -/
def conflicts : Entry κ α β → Entry κ α β → Bool
  | .first key _, .second key' _ => key' == key
  | .second key _, .first key' _ => key' == key
  | .first _ _, .first _ _ => false
  | .second _ _, .second _ _ => false

/-- Empty tables share no key. -/
theorem exclusive_empty : (empty : Tables κ α β).Exclusive := by
  rintro key ⟨hfirst, -⟩
  cases hfirst

section InsertInto

variable {γ : Type} [LawfulBEq κ]

omit [LawfulBEq κ] in
/-- An insertion fails for a key that is in the table. -/
theorem insertInto_fst_eq_false_iff (key : κ) (value : γ) (table : List (κ × γ)) :
    (insertInto key value table).1 = false ↔ (table.lookup key).isSome = true := by
  unfold insertInto
  split_ifs with h
  · exact iff_of_true rfl h
  · exact iff_of_false (fun hfalse => nomatch hfalse) h

/-- What is in a table afterwards. -/
theorem isSome_lookup_insertInto (key : κ) (value : γ) (table : List (κ × γ)) (other : κ) :
    ((insertInto key value table).2.lookup other).isSome =
      ((table.lookup other).isSome || other == key) := by
  unfold insertInto
  split_ifs with h
  · cases hother : other == key with
    | false => rw [Bool.or_false]
    | true =>
      rw [eq_of_beq hother, h]
      rfl
  · cases hother : other == key with
    | false => simp only [List.lookup_cons, hother, Bool.or_false]
    | true => simp only [List.lookup_cons, hother, Bool.or_true, Option.isSome_some]

/-- What was in a table stays there. -/
theorem lookup_insertInto_of_some (key : κ) (value : γ) {table : List (κ × γ)} {other : κ}
    {old : γ} (h : table.lookup other = some old) :
    (insertInto key value table).2.lookup other = some old := by
  unfold insertInto
  split_ifs with hkey
  · exact h
  · cases hother : other == key with
    | false => simp only [List.lookup_cons, hother, h]
    | true =>
      rw [← eq_of_beq hother, h] at hkey
      exact absurd rfl hkey

/-- After a successful insertion the key has its value. -/
theorem lookup_insertInto_self {key : κ} {value : γ} {table : List (κ × γ)}
    (h : (insertInto key value table).1 = true) :
    (insertInto key value table).2.lookup key = some value := by
  unfold insertInto at h ⊢
  split_ifs at h ⊢
  exact List.lookup_cons_self

end InsertInto

variable [LawfulBEq κ]

omit [LawfulBEq κ] in
/-- An insertion into one of the tables fails for a key that is in this table. -/
theorem insert_eq_false_iff (t : Tables κ α β) (entry : Entry κ α β) :
    (t.insert entry).1 = false ↔ t.present entry = true := by
  cases entry with
  | first key value => exact insertInto_fst_eq_false_iff key value t.first
  | second key value => exact insertInto_fst_eq_false_iff key value t.second

omit [LawfulBEq κ] in
/-- A key that is present keeps its value. -/
theorem insert_of_present {t : Tables κ α β} {entry : Entry κ α β} (h : t.present entry = true) :
    t.insert entry = (false, t) := by
  cases entry with
  | first key value =>
    have hkey : (t.first.lookup key).isSome = true := h
    simp only [insert, insertInto, hkey, if_true]
  | second key value =>
    have hkey : (t.second.lookup key).isSome = true := h
    simp only [insert, insertInto, hkey, if_true]

omit [LawfulBEq κ] in
/-- A key is taken if it is in the table of the entry or in the other one. -/
theorem taken_iff (t : Tables κ α β) (entry : Entry κ α β) :
    t.Taken entry.key ↔ t.present entry = true ∨ t.elsewhere entry = true := by
  cases entry with
  | first key value => exact Iff.rfl
  | second key value => exact or_comm

omit [LawfulBEq κ] in
/-- A key that is in one table only is not in both. -/
theorem Exclusive.not_both {t : Tables κ α β} (h : t.Exclusive) (entry : Entry κ α β) :
    ¬(t.present entry = true ∧ t.elsewhere entry = true) := by
  cases entry with
  | first key value => exact h key
  | second key value => exact fun hboth => h key hboth.symm

/-- The other table of an entry, after a registration. -/
theorem elsewhere_insert (t : Tables κ α β) (entry other : Entry κ α β) :
    (t.insert entry).2.elsewhere other = (t.elsewhere other || conflicts entry other) := by
  cases entry with
  | first key value =>
    cases other with
    | first key' value' => exact (Bool.or_false _).symm
    | second key' value' => exact isSome_lookup_insertInto key value t.first key'
  | second key value =>
    cases other with
    | first key' value' => exact isSome_lookup_insertInto key value t.second key'
    | second key' value' => exact (Bool.or_false _).symm

/-- A key that the other table does not have may be registered. -/
theorem Exclusive.insert {t : Tables κ α β} (h : t.Exclusive) {entry : Entry κ α β}
    (helsewhere : t.elsewhere entry = false) : (t.insert entry).2.Exclusive := by
  cases entry with
  | first key value =>
    rintro other ⟨hfirst, hsecond⟩
    have hinto := isSome_lookup_insertInto key value t.first other
    rw [show ((insertInto key value t.first).2.lookup other).isSome = true from hfirst] at hinto
    rcases Bool.or_eq_true_iff.mp hinto.symm with hold | hsame
    · exact h other ⟨hold, hsecond⟩
    · rw [eq_of_beq hsame] at hsecond
      cases helsewhere.symm.trans hsecond
  | second key value =>
    rintro other ⟨hfirst, hsecond⟩
    have hinto := isSome_lookup_insertInto key value t.second other
    rw [show ((insertInto key value t.second).2.lookup other).isSome = true from hsecond] at hinto
    rcases Bool.or_eq_true_iff.mp hinto.symm with hold | hsame
    · exact h other ⟨hfirst, hold⟩
    · rw [eq_of_beq hsame] at hfirst
      cases helsewhere.symm.trans hfirst

/-- An insertion that checks both tables keeps them apart. -/
theorem Exclusive.insertChecked {t : Tables κ α β} (h : t.Exclusive) (entry : Entry κ α β) :
    (t.insertChecked entry).2.Exclusive := by
  unfold Tables.insertChecked
  split_ifs with helsewhere
  · exact h
  · exact h.insert (Bool.not_eq_true _ ▸ helsewhere)

/-- Registration that looks at both tables always answers right. -/
theorem answered_insertChecked {t : Tables κ α β} (h : t.Exclusive)
    (entries : List (Entry κ α β)) : Answered insertChecked entries t := by
  induction entries generalizing t with
  | nil => exact h
  | cons entry entries ih =>
    refine ⟨h, ?_, ?_, ih (h.insertChecked entry)⟩
    · rw [taken_iff]
      unfold insertChecked
      split_ifs with helsewhere
      · exact iff_of_true rfl (Or.inr helsewhere)
      · rw [insert_eq_false_iff, or_iff_left helsewhere]
    · unfold insertChecked
      split_ifs with helsewhere
      · exact fun _ => rfl
      · intro hfalse
        rw [insert_of_present ((insert_eq_false_iff t entry).mp hfalse)]

/-- Registration that looks at one table answers right exactly while no entry meets its key in
the table of the other kind. -/
theorem answered_insert_iff {t : Tables κ α β} (h : t.Exclusive) (entries : List (Entry κ α β)) :
    Answered insert entries t ↔ (∀ entry ∈ entries, t.elsewhere entry = false) ∧
      entries.Pairwise fun entry other => conflicts entry other = false := by
  induction entries generalizing t with
  | nil => exact iff_of_true h ⟨fun _ hmem => absurd hmem List.not_mem_nil, .nil⟩
  | cons entry entries ih =>
    have hunchanged : (t.insert entry).1 = false → (t.insert entry).2 = t := by
      intro hfalse
      rw [insert_of_present ((insert_eq_false_iff t entry).mp hfalse)]
    have hanswer : ((t.insert entry).1 = false ↔ t.Taken entry.key) ↔
        t.elsewhere entry = false := by
      rw [insert_eq_false_iff, taken_iff]
      constructor
      · intro hiff
        by_contra helsewhere
        have htrue : t.elsewhere entry = true := Bool.not_eq_false _ ▸ helsewhere
        exact h.not_both entry ⟨hiff.mpr (Or.inr htrue), htrue⟩
      · intro helsewhere
        rw [helsewhere]
        exact (or_iff_left Bool.false_ne_true).symm
    have hrest : ∀ other, (t.insert entry).2.elsewhere other = false ↔
        t.elsewhere other = false ∧ conflicts entry other = false := by
      intro other
      rw [elsewhere_insert, Bool.or_eq_false_iff]
    unfold Answered
    rw [hanswer, List.pairwise_cons]
    constructor
    · rintro ⟨-, helsewhere, -, hanswered⟩
      obtain ⟨hall, hpairwise⟩ := (ih (h.insert helsewhere)).mp hanswered
      refine ⟨?_, fun other hother => ((hrest other).mp (hall other hother)).2, hpairwise⟩
      intro other hother
      rcases List.mem_cons.mp hother with rfl | hother
      · exact helsewhere
      · exact ((hrest other).mp (hall other hother)).1
    · rintro ⟨hall, hentry, hpairwise⟩
      have helsewhere := hall entry List.mem_cons_self
      refine ⟨h, helsewhere, hunchanged, (ih (h.insert helsewhere)).mpr ⟨?_, hpairwise⟩⟩
      intro other hother
      exact (hrest other).mpr ⟨hall other (List.mem_cons_of_mem _ hother), hentry other hother⟩

/-- From empty tables the entries must not meet each other. -/
theorem answered_insert_empty_iff (entries : List (Entry κ α β)) :
    Answered insert entries empty ↔
      entries.Pairwise fun entry other => conflicts entry other = false := by
  rw [answered_insert_iff exclusive_empty]
  refine and_iff_right fun entry _ => ?_
  cases entry with
  | first key value => rfl
  | second key value => rfl

omit [LawfulBEq κ] in
/-- What is in the first table is found there. -/
theorem find_of_first {t : Tables κ α β} {key : κ} {value : α}
    (h : t.first.lookup key = some value) : t.find key = some (.first key value) := by
  rw [find, h]

omit [LawfulBEq κ] in
/-- What is only in the second table is found there. -/
theorem find_of_second {t : Tables κ α β} {key : κ} {value : β}
    (hfirst : t.first.lookup key = none) (h : t.second.lookup key = some value) :
    t.find key = some (.second key value) := by
  rw [find, hfirst, h]
  rfl

omit [LawfulBEq κ] in
/-- What is found is in the first table, or in the second one and not in the first. -/
theorem find_cases {t : Tables κ α β} {key : κ} {found : Entry κ α β}
    (h : t.find key = some found) :
    (∃ value, found = .first key value ∧ t.first.lookup key = some value) ∨
      ∃ value, found = .second key value ∧ t.first.lookup key = none ∧
        t.second.lookup key = some value := by
  cases hfirst : t.first.lookup key with
  | some value =>
    rw [find_of_first hfirst] at h
    exact Or.inl ⟨value, (Option.some.inj h).symm, rfl⟩
  | none =>
    cases hsecond : t.second.lookup key with
    | none =>
      rw [find, hfirst, hsecond] at h
      cases h
    | some value =>
      rw [find_of_second hfirst hsecond] at h
      exact Or.inr ⟨value, (Option.some.inj h).symm, rfl, rfl⟩

/-- What was found under a key is found afterwards. -/
theorem find_insertChecked_of_find {t : Tables κ α β} {key : κ} {found : Entry κ α β}
    (h : t.find key = some found) (entry : Entry κ α β) :
    (t.insertChecked entry).2.find key = some found := by
  unfold insertChecked
  split_ifs with helsewhere
  · exact h
  rcases find_cases h with ⟨value, rfl, hfirst⟩ | ⟨value, rfl, hfirst, hsecond⟩
  · cases entry with
    | first other value' => exact find_of_first (lookup_insertInto_of_some other value' hfirst)
    | second other value' => exact find_of_first hfirst
  · cases entry with
    | first other value' =>
      have hother : (key == other) = false := by
        rw [← Bool.not_eq_true]
        intro hsame
        rw [eq_of_beq hsame] at hsecond
        exact helsewhere (congrArg Option.isSome hsecond)
      have hnone := isSome_lookup_insertInto other value' t.first key
      rw [hfirst, hother] at hnone
      exact find_of_second (Option.not_isSome_iff_eq_none.mp (Bool.not_eq_true _ ▸ hnone)) hsecond
    | second other value' =>
      exact find_of_second hfirst (lookup_insertInto_of_some other value' hsecond)

/-- What has been registered is found. -/
theorem find_insertChecked_self {t : Tables κ α β} {entry : Entry κ α β}
    (h : (t.insertChecked entry).1 = true) :
    (t.insertChecked entry).2.find entry.key = some entry := by
  unfold insertChecked at h ⊢
  split_ifs at h ⊢ with helsewhere
  cases entry with
  | first key value => exact find_of_first (lookup_insertInto_self h)
  | second key value =>
    have hfirst : t.first.lookup key = none := Option.not_isSome_iff_eq_none.mp helsewhere
    exact find_of_second hfirst (lookup_insertInto_self h)

/-- What has been found is found after further insertions. -/
theorem find_insertAll_of_find {entries : List (Entry κ α β)} {t : Tables κ α β} {key : κ}
    {found : Entry κ α β} (h : t.find key = some found) :
    (insertAll insertChecked entries t).2.find key = some found := by
  induction entries generalizing t with
  | nil => exact h
  | cons entry entries ih => exact ih (find_insertChecked_of_find h entry)

/-- After any sequence of registrations that look at both tables, every entry whose registration
was answered with true is found under its key. -/
theorem find_insertAll {entries : List (Entry κ α β)} {t : Tables κ α β} {entry : Entry κ α β}
    (h : (entry, true) ∈ (insertAll insertChecked entries t).1) :
    (insertAll insertChecked entries t).2.find entry.key = some entry := by
  induction entries generalizing t with
  | nil => cases h
  | cons first entries ih =>
    rcases List.mem_cons.mp h with hfirst | hrest
    · obtain ⟨rfl, htrue⟩ := Prod.mk.inj hfirst
      have hlater : (insertAll insertChecked entries (t.insertChecked entry).2).2.find entry.key =
          some entry := find_insertAll_of_find (find_insertChecked_self htrue.symm)
      exact hlater
    · exact ih hrest

omit [LawfulBEq κ] in
/-- A key that no table has is registered. -/
theorem insertChecked_of_not_taken {t : Tables κ α β} {entry : Entry κ α β}
    (h : ¬ t.Taken entry.key) : (t.insertChecked entry).1 = true := by
  rw [taken_iff, not_or] at h
  unfold insertChecked
  rw [if_neg h.2, ← Bool.not_eq_false, insert_eq_false_iff]
  exact h.1

/-- A registration takes its own key and no other one. -/
theorem not_taken_insertChecked {t : Tables κ α β} {key : κ} {entry : Entry κ α β}
    (h : ¬ t.Taken key) (hne : (key == entry.key) = false) :
    ¬ (t.insertChecked entry).2.Taken key := by
  unfold insertChecked
  split_ifs with helsewhere
  · exact h
  cases entry with
  | first other value =>
    have hinto := isSome_lookup_insertInto other value t.first key
    rw [show (key == other) = false from hne, Bool.or_false] at hinto
    change ¬ (((insertInto other value t.first).2.lookup key).isSome = true ∨ _)
    rwa [hinto]
  | second other value =>
    have hinto := isSome_lookup_insertInto other value t.second key
    rw [show (key == other) = false from hne, Bool.or_false] at hinto
    change ¬ (_ ∨ ((insertInto other value t.second).2.lookup key).isSome = true)
    rwa [hinto]

/-- The first entry under a key that no table has is registered. -/
theorem mem_insertAll_of_find? {entries : List (Entry κ α β)} {t : Tables κ α β}
    {entry : Entry κ α β} (hfree : ¬ t.Taken entry.key)
    (h : entries.find? (fun other => entry.key == other.key) = some entry) :
    (entry, true) ∈ (insertAll insertChecked entries t).1 := by
  induction entries generalizing t with
  | nil => cases h
  | cons first entries ih =>
    cases hkey : entry.key == first.key with
    | true =>
      simp only [List.find?_cons, hkey] at h
      obtain rfl := Option.some.inj h
      have htrue := insertChecked_of_not_taken hfree
      exact List.mem_cons.mpr (Or.inl (by rw [htrue]))
    | false =>
      simp only [List.find?_cons, hkey] at h
      exact List.mem_cons_of_mem _ (ih (not_taken_insertChecked hfree hkey) h)

omit [LawfulBEq κ] in
/-- Both kinds of registration agree where they answer right. -/
theorem insertAll_insert_eq {t : Tables κ α β} {entries : List (Entry κ α β)}
    (h : Answered insert entries t) :
    insertAll insert entries t = insertAll insertChecked entries t := by
  induction entries generalizing t with
  | nil => rfl
  | cons entry entries ih =>
    obtain ⟨hexclusive, hanswer, -, hrest⟩ := h
    have helsewhere : ¬ t.elsewhere entry = true := by
      intro htrue
      rw [insert_eq_false_iff, taken_iff] at hanswer
      exact hexclusive.not_both entry ⟨hanswer.mpr (Or.inr htrue), htrue⟩
    have hsame : t.insertChecked entry = t.insert entry := if_neg helsewhere
    rw [insertAll, insertAll, hsame, ih hrest]

end Tables

end TwoTables
