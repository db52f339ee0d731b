import San2.Crypto.AesCrypt

/-!
# Key schedules

The macros of `aeskey.c` write the key schedule into the context, a group of
words at a time, and keep the last group in a local array. The encryption
schedule is written in order. The decryption schedule is written in the order of
decryption, and all words but those of the first and the last round key are mixed
backwards, from the second group on without mixing each word anew.
-/

namespace San2.Aes

open Utils
open scoped Rijndael

/-- The words of the context and the local array `ss`. Before a key is set up
both hold whatever was in memory. -/
structure KeyState where
  ks : ℕ → UInt32
  ss : ℕ → UInt32

/-- `ls_box` -/
def lsBox (host : ByteOrder) (x : UInt32) (c : ℕ) : UInt32 :=
  fourTables (tFl host) fun r => bval host x (Fin.ofNat 4 (8 + r - c))

/-- `inv_mcol`, which `ff` stands for. -/
def invMcol (host : ByteOrder) (x : UInt32) : UInt32 :=
  fourTables (tIm host) fun r => bval host x r

/-- The macro `v`: where a word of the schedule is stored when the round keys are
in reverse order. -/
def reversed (n i : ℕ) : ℕ := n + 2 * (i % 4) - i

/-- What the word at place `j` of a group is given from the words before it. -/
def groupTemp (host : ByteOrder) (nk i j : ℕ) (s : KeyState) : UInt32 :=
  if j = 0 then lsBox host (s.ss (nk - 1)) 3 ^^^ tRc host i
  else if j = 4 ∧ nk = 8 then lsBox host (s.ss 3) 0
  else s.ss (j - 1)

/-- One line of the macros that store each word as it is or mix it. -/
def expandWord (host : ByteOrder) (nk : ℕ) (position : ℕ → ℕ) (stored : UInt32 → UInt32) (i : ℕ)
    (s : KeyState) (j : ℕ) : KeyState :=
  let word := s.ss j ^^^ groupTemp host nk i j s
  ⟨Function.update s.ks (position (nk * i + nk + j)) (stored word), Function.update s.ss j word⟩

/-- The first `count` words of the group after group `i`. -/
def expandGroup (host : ByteOrder) (nk count : ℕ) (position : ℕ → ℕ) (stored : UInt32 → UInt32)
    (i : ℕ) (s : KeyState) : KeyState :=
  (List.range count).foldl (expandWord host nk position stored i) s

/-- One line of the macros that go on from mixed words. The mixed word is kept
behind the group in the local array. -/
def expandMixedWord (host : ByteOrder) (nk : ℕ) (position : ℕ → ℕ) (i : ℕ) (s : KeyState)
    (j : ℕ) : KeyState :=
  let temp := groupTemp host nk i j s
  let mixed := if j = 0 ∨ j = 4 ∧ nk = 8 then invMcol host temp else s.ss nk
  let word := mixed ^^^ s.ks (position (nk * i + j))
  ⟨Function.update s.ks (position (nk * i + nk + j)) word,
    Function.update (Function.update s.ss j (s.ss j ^^^ temp)) nk word⟩

/-- A group of key words for decryption after the first. -/
def expandMixedGroup (host : ByteOrder) (nk : ℕ) (position : ℕ → ℕ) (i : ℕ) (s : KeyState) :
    KeyState :=
  (List.range nk).foldl (expandMixedWord host nk position i) s

/-- `ke4` -/
def ke4 (host : ByteOrder) := expandGroup host 4 4 id id
/-- `kef6` -/
def kef6 (host : ByteOrder) := expandGroup host 6 4 id id
/-- `ke6` -/
def ke6 (host : ByteOrder) := expandGroup host 6 6 id id
/-- `kef8` -/
def kef8 (host : ByteOrder) := expandGroup host 8 4 id id
/-- `ke8` -/
def ke8 (host : ByteOrder) := expandGroup host 8 8 id id

/-- `kdf6` -/
def kdf6 (host : ByteOrder) := expandGroup host 6 6 (reversed 48) (invMcol host)
/-- `kd6` -/
def kd6 (host : ByteOrder) := expandMixedGroup host 6 (reversed 48)
/-- `kdl6` -/
def kdl6 (host : ByteOrder) := expandGroup host 6 4 (reversed 48) id
/-- `kdf8` -/
def kdf8 (host : ByteOrder) := expandGroup host 8 8 (reversed 56) (invMcol host)
/-- `kd8` -/
def kd8 (host : ByteOrder) := expandMixedGroup host 8 (reversed 56)
/-- `kdl8` -/
def kdl8 (host : ByteOrder) := expandGroup host 8 4 (reversed 56) id

/-- The words of the key, in the context and in the local array. -/
def loadKey (host : ByteOrder) (nk : ℕ) (position : ℕ → ℕ) (stored : UInt32 → UInt32)
    (key : Bytes) (memory : KeyState) : KeyState :=
  (List.range nk).foldl (fun s j =>
    let word := wordIn host key j
    ⟨Function.update s.ks (position j) (if j < 4 then word else stored word),
      Function.update s.ss j word⟩) memory

/-- The context after a key has been set up: `inf` is cleared and given the
number of rounds. -/
def KeyState.context (s : KeyState) (rounds : UInt8) : Context := ⟨s.ks, rounds * 16, 0⟩

/-- `aes_encrypt_key128` -/
def aesEncryptKey128 (host : ByteOrder) (key : FixedBytes 16) (memory : KeyState) : Context :=
  let s := loadKey host 4 id id key.val memory
  ((List.range 10).foldl (fun s i => ke4 host i s) s).context 10

/-- `aes_encrypt_key192` -/
def aesEncryptKey192 (host : ByteOrder) (key : FixedBytes 24) (memory : KeyState) : Context :=
  let s := loadKey host 6 id id key.val memory
  (kef6 host 7 ((List.range 7).foldl (fun s i => ke6 host i s) s)).context 12

/-- `aes_encrypt_key256` -/
def aesEncryptKey256 (host : ByteOrder) (key : FixedBytes 32) (memory : KeyState) : Context :=
  let s := loadKey host 8 id id key.val memory
  (kef8 host 6 ((List.range 6).foldl (fun s i => ke8 host i s) s)).context 14

/-- `aes_decrypt_key192` -/
def aesDecryptKey192 (host : ByteOrder) (key : FixedBytes 24) (memory : KeyState) : Context :=
  let s := kdf6 host 0 (loadKey host 6 (reversed 48) (invMcol host) key.val memory)
  (kdl6 host 7 ((List.range' 1 6).foldl (fun s i => kd6 host i s) s)).context 12

/-- `aes_decrypt_key256` -/
def aesDecryptKey256 (host : ByteOrder) (key : FixedBytes 32) (memory : KeyState) : Context :=
  let s := kdf8 host 0 (loadKey host 8 (reversed 56) (invMcol host) key.val memory)
  (kdl8 host 6 ((List.range' 1 5).foldl (fun s i => kd8 host i s) s)).context 14

/-- The last lines of `kdf4` and `kd4`: the accumulator `ss[4]` runs through the
words of the group before. -/
def accumulateWord (stored : UInt32 → UInt32) (i : ℕ) (s : KeyState) (j : ℕ) : KeyState :=
  let word := s.ss 4 ^^^ s.ks (reversed 40 (4 * i + j))
  ⟨Function.update s.ks (reversed 40 (4 * i + 4 + j)) (stored word), Function.update s.ss 4 word⟩

/-- The first group of the decryption schedule of a key of four words. The local
array becomes sums of the words of the group. -/
def kdf4 (host : ByteOrder) (i : ℕ) (s : KeyState) : KeyState :=
  let ss := Function.update s.ss 0 (s.ss 0 ^^^ s.ss 2 ^^^ s.ss 1 ^^^ s.ss 3)
  let ss := Function.update ss 1 (ss 1 ^^^ ss 3)
  let ss := Function.update ss 2 (ss 2 ^^^ ss 3)
  let ss := Function.update ss 4 (lsBox host (ss ((i + 3) % 4)) 3 ^^^ tRc host i)
  let ss := Function.update ss (i % 4) (ss (i % 4) ^^^ ss 4)
  (List.range 4).foldl (accumulateWord (invMcol host) i) ⟨s.ks, ss⟩

/-- `kd4` -/
def kd4 (host : ByteOrder) (i : ℕ) (s : KeyState) : KeyState :=
  let ss := Function.update s.ss 4 (lsBox host (s.ss ((i + 3) % 4)) 3 ^^^ tRc host i)
  let ss := Function.update ss (i % 4) (ss (i % 4) ^^^ ss 4)
  let ss := Function.update ss 4 (invMcol host (ss 4))
  (List.range 4).foldl (accumulateWord id i) ⟨s.ks, ss⟩

/-- `kdl4` -/
def kdl4 (host : ByteOrder) (i : ℕ) (s : KeyState) : KeyState :=
  let ss := Function.update s.ss 4 (lsBox host (s.ss ((i + 3) % 4)) 3 ^^^ tRc host i)
  let ss := Function.update ss (i % 4) (ss (i % 4) ^^^ ss 4)
  let ss := Function.update ss 0 (ss 0 ^^^ ss 1)
  let ks := Function.update s.ks (reversed 40 (4 * i + 4)) (ss 0 ^^^ ss 2 ^^^ ss 3)
  let ks := Function.update ks (reversed 40 (4 * i + 5)) (ss 1 ^^^ ss 3)
  let ks := Function.update ks (reversed 40 (4 * i + 6)) (ss 0)
  let ks := Function.update ks (reversed 40 (4 * i + 7)) (ss 1)
  ⟨ks, ss⟩

/-- `aes_decrypt_key128` -/
def aesDecryptKey128 (host : ByteOrder) (key : FixedBytes 16) (memory : KeyState) : Context :=
  let s := kdf4 host 0 (loadKey host 4 (reversed 40) id key.val memory)
  (kdl4 host 9 ((List.range' 1 8).foldl (fun s i => kd4 host i s) s)).context 10

/-- The words of a key as columns. -/
def keyColumns (key : Bytes) (j : ℕ) : Rijndael.Column Element := fun r => ⟨key.getD (4 * j + r) 0⟩

/-- `ls_box` with a rotation by three bytes is SubWord of RotWord. -/
theorem column_lsBox_three (host : ByteOrder) (x : UInt32) :
    column host (lsBox host x 3) = standard.subWord (Rijndael.rotWord (column host x)) := by
  rw [lsBox, column_fourTables_tFl]
  funext r
  fin_cases r <;> rfl

/-- `ls_box` without rotation is SubWord. -/
theorem column_lsBox_zero (host : ByteOrder) (x : UInt32) :
    column host (lsBox host x 0) = standard.subWord (column host x) := by
  rw [lsBox, column_fourTables_tFl]
  funext r
  fin_cases r <;> rfl

/-- `inv_mcol` is the inverse of MixColumns for a column. -/
theorem column_invMcol (host : ByteOrder) (x : UInt32) :
    column host (invMcol host x) = standard.invMixColumn (column host x) := by
  rw [invMcol, column_fourTables_tIm]
  rfl

/-- Reversed, the round keys come last first, each with its words in order. -/
theorem reversed_eq {n q r : ℕ} (hr : r < 4) : reversed n (4 * q + r) = n + r - 4 * q := by
  unfold reversed
  omega

/-- No two words are reversed to one place. -/
theorem reversed_injOn {n i j : ℕ} (hn : n % 4 = 0) (hi : i < n + 4) (hj : j < n + 4)
    (h : reversed n i = reversed n j) : i = j := by
  unfold reversed at h
  omega

/-- The first words of a schedule are in their places in the context. -/
def Written (host : ByteOrder) (position : ℕ → ℕ) (target : ℕ → Rijndael.Column Element)
    (count : ℕ) (ks : ℕ → UInt32) : Prop :=
  ∀ m < count, column host (ks (position m)) = target m

section Groups

variable {host : ByteOrder} {position : ℕ → ℕ} {target : ℕ → Rijndael.Column Element}
  {count : ℕ} {ks : ℕ → UInt32}

/-- One more word at a new place. -/
theorem Written.write (h : Written host position target count ks)
    (hposition : ∀ m < count, position m ≠ position count) {word : UInt32}
    (hword : column host word = target count) :
    Written host position target (count + 1) (Function.update ks (position count) word) := by
  intro m hm
  rcases Nat.lt_succ_iff_lt_or_eq.mp hm with hlt | rfl
  · rw [Function.update_of_ne (hposition m hlt)]
    exact h m hlt
  · rw [Function.update_self]
    exact hword

variable {nk : ℕ} {key : ℕ → Rijndael.Column Element} {i j : ℕ} {ss : ℕ → UInt32}

/-- The local array in the middle of a group: its first `j` words belong to the
group after group `i` already. -/
def Holds (host : ByteOrder) (nk : ℕ) (key : ℕ → Rijndael.Column Element) (i j : ℕ)
    (ss : ℕ → UInt32) : Prop :=
  ∀ r < nk, column host (ss r) = standard.expand nk key (nk * i + r + if r < j then nk else 0)

/-- When a group is complete the next one begins. -/
theorem Holds.next (h : Holds host nk key i nk ss) : Holds host nk key (i + 1) 0 ss := by
  intro r hr
  rw [h r hr, if_pos hr, if_neg (by omega)]
  congr 1
  ring

/-- The word that the code adds is the one the standard adds. -/
theorem Holds.groupTemp {s : KeyState} (h : Holds host nk key i j s.ss) (hj : j < nk)
    (hnk : nk = 4 ∨ nk = 6 ∨ nk = 8) (hi : i < 10) :
    column host (groupTemp host nk i j s) =
      standard.temp nk (nk * i + nk + j) (standard.expand nk key (nk * i + nk + j - 1)) := by
  have hmod : (nk * i + nk + j) % nk = j := by
    rw [← Nat.mul_succ, Nat.mul_add_mod, Nat.mod_eq_of_lt hj]
  have hdiv : (nk * i + nk + j) / nk = i + 1 := by
    rw [← Nat.mul_succ, Nat.mul_add_div (by omega), Nat.div_eq_of_lt hj, add_zero]
  rw [San2.Aes.groupTemp, Rijndael.temp, hmod, hdiv]
  by_cases hzero : j = 0
  · subst hzero
    rw [if_pos rfl, if_pos rfl, column_xor, column_lsBox_three, h (nk - 1) (by omega),
      if_neg (by omega), column_tRc host hi, Nat.add_sub_cancel]
    congr 4
    omega
  · have hprevious : ∀ r, r + 1 = j → column host (s.ss r) =
        standard.expand nk key (nk * i + nk + j - 1) := by
      intro r hr
      rw [h r (by omega), if_pos (by omega)]
      congr 1
      omega
    rw [if_neg hzero, if_neg hzero]
    by_cases hfour : j = 4 ∧ nk = 8
    · rw [if_pos hfour, if_pos (by omega), column_lsBox_zero, hprevious 3 (by omega)]
    · rw [if_neg hfour, if_neg (by omega), hprevious (j - 1) (by omega)]

/-- A word of the local array is replaced by the word of the next group. -/
theorem Holds.update {s : KeyState} (h : Holds host nk key i j s.ss) (hj : j < nk)
    (hnk : nk = 4 ∨ nk = 6 ∨ nk = 8) (hi : i < 10) :
    column host (s.ss j ^^^ San2.Aes.groupTemp host nk i j s) =
      standard.expand nk key (nk * i + nk + j) ∧
    Holds host nk key i (j + 1)
      (Function.update s.ss j (s.ss j ^^^ San2.Aes.groupTemp host nk i j s)) := by
  have hword : column host (s.ss j ^^^ San2.Aes.groupTemp host nk i j s) =
      standard.expand nk key (nk * i + nk + j) := by
    rw [column_xor, h j hj, if_neg (by omega), h.groupTemp hj hnk hi,
      standard.expand_of_le (i := nk * i + nk + j) (by omega) key (by omega)]
    congr 2
    omega
  refine ⟨hword, fun r hr => ?_⟩
  by_cases hrj : r = j
  · subst hrj
    rw [Function.update_self, hword, if_pos (by omega)]
    congr 1
    ring
  · rw [Function.update_of_ne hrj, h r hr]
    congr 2
    exact if_congr (by omega) rfl rfl

/-- Where the code is in the middle of the group after group `i`. -/
structure Expanding (host : ByteOrder) (position : ℕ → ℕ)
    (target : ℕ → Rijndael.Column Element) (nk : ℕ) (key : ℕ → Rijndael.Column Element)
    (i j : ℕ) (s : KeyState) : Prop where
  written : Written host position target (nk * i + nk + j) s.ks
  holds : Holds host nk key i j s.ss

/-- A group that is complete begins the next one. -/
theorem Expanding.next {s : KeyState} (h : Expanding host position target nk key i nk s) :
    Expanding host position target nk key (i + 1) 0 s := by
  refine ⟨?_, h.holds.next⟩
  have hcount : nk * (i + 1) + nk + 0 = nk * i + nk + nk := by ring
  rw [hcount]
  exact h.written

/-- The words of a group are written one after the other, where `stored` makes of
each word what belongs in its place. -/
theorem Expanding.group {stored : UInt32 → UInt32} {s : KeyState}
    (h : Expanding host position target nk key i 0 s) (hnk : nk = 4 ∨ nk = 6 ∨ nk = 8)
    (hi : i < 10) (limit : ℕ) (hlimit : nk * i + nk + count ≤ limit) (hcount : count ≤ nk)
    (hposition : ∀ m < limit, ∀ m' < m, position m' ≠ position m)
    (hstored : ∀ j < count, ∀ word,
      column host word = standard.expand nk key (nk * i + nk + j) →
        column host (stored word) = target (nk * i + nk + j)) :
    Expanding host position target nk key i count
      (expandGroup host nk count position stored i s) := by
  induction count with
  | zero => exact h
  | succ j ih =>
    have hprevious := ih (by omega) (by omega) fun j' hj' => hstored j' (by omega)
    obtain ⟨hword, hholds⟩ := hprevious.holds.update (by omega) hnk hi
    rw [expandGroup, List.range_succ, List.foldl_append]
    refine ⟨?_, hholds⟩
    exact hprevious.written.write (fun m hm => hposition _ (by omega) m hm)
      (hstored j (by omega) _ hword)

/-- The mixed words of a group are written one after the other. Each is the mixed
word `nk` places back plus the mixed temporary word. -/
theorem Expanding.mixedGroup {s : KeyState}
    (h : Expanding host position target nk key i 0 s) (hnk : nk = 4 ∨ nk = 6 ∨ nk = 8)
    (hi : i < 10) (limit : ℕ) (hlimit : nk * i + nk + nk ≤ limit)
    (hposition : ∀ m < limit, ∀ m' < m, position m' ≠ position m)
    (htarget : ∀ m < limit, nk * i ≤ m →
      target m = standard.invMixColumn (standard.expand nk key m)) :
    Expanding host position target nk key i nk
      (expandMixedGroup host nk position i s) := by
  have hwords : ∀ count ≤ nk,
      let s' := (List.range count).foldl (expandMixedWord host nk position i) s
      Expanding host position target nk key i count s' ∧
        (count ≠ 0 → column host (s'.ss nk) =
          standard.invMixColumn (standard.expand nk key (nk * i + nk + count - 1))) := by
    intro count hcount
    induction count with
    | zero => exact ⟨h, fun h => absurd rfl h⟩
    | succ j ih =>
      obtain ⟨hprevious, hmixed⟩ := ih (by omega)
      rw [List.range_succ, List.foldl_append]
      generalize (List.range j).foldl (expandMixedWord host nk position i) s = s at hprevious hmixed
      obtain ⟨-, hholds⟩ := hprevious.holds.update (by omega) hnk hi
      have htemp := hprevious.holds.groupTemp (by omega) hnk hi
      -- In either case the accumulator is the mixed temporary word.
      have haccumulator : column host (if j = 0 ∨ j = 4 ∧ nk = 8
          then invMcol host (San2.Aes.groupTemp host nk i j s) else s.ss nk) =
          standard.invMixColumn (column host (San2.Aes.groupTemp host nk i j s)) := by
        by_cases hfirst : j = 0 ∨ j = 4 ∧ nk = 8
        · rw [if_pos hfirst, column_invMcol]
        · have hmod : (nk * i + nk + j) % nk = j := by
            rw [← Nat.mul_succ, Nat.mul_add_mod, Nat.mod_eq_of_lt (by omega)]
          rw [if_neg hfirst, htemp, hmixed (by omega), Rijndael.temp, hmod, if_neg (by omega),
            if_neg (by omega)]
      have hword : column host ((if j = 0 ∨ j = 4 ∧ nk = 8
          then invMcol host (San2.Aes.groupTemp host nk i j s) else s.ss nk) ^^^
            s.ks (position (nk * i + j))) =
          standard.invMixColumn (standard.expand nk key (nk * i + nk + j)) := by
        have hback : nk * i + nk + j - nk = nk * i + j := by omega
        rw [column_xor, haccumulator, hprevious.written (nk * i + j) (by omega),
          htarget _ (by omega) (by omega), htemp, ← map_add,
          standard.expand_of_le (i := nk * i + nk + j) (by omega) key (by omega), hback, add_comm]
      refine ⟨⟨?_, fun r hr => ?_⟩, fun _ => ?_⟩
      · refine hprevious.written.write (fun m hm => hposition _ (by omega) m hm) ?_
        rw [htarget _ (by omega) (by omega)]
        exact hword
      · simp only [List.foldl_cons, List.foldl_nil, expandMixedWord]
        rw [Function.update_of_ne (by omega)]
        exact hholds r hr
      · simp only [List.foldl_cons, List.foldl_nil, expandMixedWord]
        rw [Function.update_self]
        exact hword
  exact (hwords nk le_rfl).1

/-- The words of the key come before the first group. -/
theorem expanding_loadKey {stored : UInt32 → UInt32} (bytes : Bytes) (memory : KeyState)
    (hposition : ∀ m < nk, ∀ m' < m, position m' ≠ position m)
    (hfirst : ∀ j < nk, j < 4 → target j = keyColumns bytes j)
    (hstored : ∀ j < nk, 4 ≤ j → ∀ word, column host word = keyColumns bytes j →
      column host (stored word) = target j) :
    Expanding host position target nk (keyColumns bytes) 0 0
      (loadKey host nk position stored bytes memory) := by
  have hwords : ∀ count ≤ nk,
      let s := loadKey host count position stored bytes memory
      Written host position target count s.ks ∧
        ∀ r < count, column host (s.ss r) = keyColumns bytes r := by
    intro count hcount
    induction count with
    | zero => exact ⟨fun _ h => absurd h (Nat.not_lt_zero _), fun _ h => absurd h (Nat.not_lt_zero _)⟩
    | succ j ih =>
      obtain ⟨hwritten, hss⟩ := ih (by omega)
      have hword : column host (wordIn host bytes j) = keyColumns bytes j :=
        column_wordIn host bytes j
      rw [loadKey, List.range_succ, List.foldl_append]
      refine ⟨hwritten.write (fun m hm => hposition j (by omega) m hm) ?_, fun r hr => ?_⟩
      · by_cases hj : j < 4
        · rw [if_pos hj, hfirst j (by omega) hj, hword]
        · rw [if_neg hj, hstored j (by omega) (by omega) _ hword]
      · by_cases hrj : r = j
        · subst hrj
          exact (congrArg _ (Function.update_self ..)).trans hword
        · exact (congrArg _ (Function.update_of_ne hrj ..)).trans (hss r (by omega))
  obtain ⟨hwritten, hss⟩ := hwords nk le_rfl
  refine ⟨by simpa using hwritten, fun r hr => ?_⟩
  rw [hss r hr, if_neg (by omega), standard.expand_of_lt _ (by omega)]
  congr 1
  omega

/-- Successive groups, each written by a step that completes it. -/
theorem Expanding.groups {s : KeyState} {first : ℕ}
    (h : Expanding host position target nk key first 0 s) (count : ℕ)
    (group : ℕ → KeyState → KeyState)
    (hgroup : ∀ i s, first ≤ i → i < first + count →
      Expanding host position target nk key i 0 s →
        Expanding host position target nk key i nk (group i s)) :
    Expanding host position target nk key (first + count) 0
      ((List.range' first count).foldl (fun s i => group i s) s) := by
  induction count with
  | zero => exact h
  | succ count ih =>
    have hprevious := ih fun i s hfirst hi => hgroup i s hfirst (by omega)
    rw [List.range'_concat, List.foldl_append]
    have hnext := (hgroup (first + count) _ (by omega) (by omega) hprevious).next
    simpa only [List.foldl_cons, List.foldl_nil, Nat.one_mul, Nat.add_assoc] using hnext

end Groups

/-- A schedule that is long enough makes an encryption context. -/
theorem Expanding.encrypts {host : ByteOrder} {nk i j : ℕ} {key : ℕ → Rijndael.Column Element}
    {s : KeyState} {rounds : UInt8} (hnk : nk = 4 ∨ nk = 6 ∨ nk = 8)
    (h : Expanding host id (standard.expand nk key) nk key i j s)
    (hcount : 4 * (Rijndael.roundCount nk + 1) ≤ nk * i + nk + j)
    (hrounds : rounds * 16 = UInt8.ofNat (16 * Rijndael.roundCount nk)) :
    (s.context rounds).Encrypts host nk key :=
  ⟨hnk, hrounds, fun m hm => h.written m (by omega)⟩

/-- One group of an encryption schedule. -/
theorem Expanding.encryptGroup {host : ByteOrder} {nk i : ℕ}
    {key : ℕ → Rijndael.Column Element} {s : KeyState}
    (h : Expanding host id (standard.expand nk key) nk key i 0 s) (count : ℕ)
    (hnk : nk = 4 ∨ nk = 6 ∨ nk = 8) (hi : i < 10) (hcount : count ≤ nk) :
    Expanding host id (standard.expand nk key) nk key i count
      (expandGroup host nk count id id i s) :=
  h.group hnk hi _ le_rfl hcount (fun _ _ _ h => h.ne) fun _ _ _ h => h

/-- The first words of the schedule are the key. -/
theorem expanding_encryptKey (host : ByteOrder) (nk : ℕ) (bytes : Bytes) (memory : KeyState) :
    Expanding host id (standard.expand nk (keyColumns bytes)) nk (keyColumns bytes) 0 0
      (loadKey host nk id id bytes memory) :=
  expanding_loadKey bytes memory (fun _ _ _ h => h.ne)
    (fun _ h _ => standard.expand_of_lt _ h) fun _ h _ _ hword => by
      rw [standard.expand_of_lt _ h]
      exact hword

/-- `aes_encrypt_key128` makes an encryption context. -/
theorem aesEncryptKey128_encrypts (host : ByteOrder) (key : FixedBytes 16) (memory : KeyState) :
    (aesEncryptKey128 host key memory).Encrypts host 4 (keyColumns key.val) := by
  rw [aesEncryptKey128, List.range_eq_range']
  have h := (expanding_encryptKey host 4 key.val memory).groups 10 (ke4 host)
    fun i s _ hi h => h.encryptGroup 4 (by decide) (by omega) le_rfl
  exact h.encrypts (by decide) (by decide) (by decide)

/-- `aes_encrypt_key192` makes an encryption context. -/
theorem aesEncryptKey192_encrypts (host : ByteOrder) (key : FixedBytes 24) (memory : KeyState) :
    (aesEncryptKey192 host key memory).Encrypts host 6 (keyColumns key.val) := by
  rw [aesEncryptKey192, List.range_eq_range']
  have h := (expanding_encryptKey host 6 key.val memory).groups 7 (ke6 host)
    fun i s _ hi h => h.encryptGroup 6 (by decide) (by omega) le_rfl
  have hlast := h.encryptGroup 4 (by decide) (by decide) (by decide)
  exact hlast.encrypts (by decide) (by decide) (by decide)

/-- `aes_encrypt_key256` makes an encryption context. -/
theorem aesEncryptKey256_encrypts (host : ByteOrder) (key : FixedBytes 32) (memory : KeyState) :
    (aesEncryptKey256 host key memory).Encrypts host 8 (keyColumns key.val) := by
  rw [aesEncryptKey256, List.range_eq_range']
  have h := (expanding_encryptKey host 8 key.val memory).groups 6 (ke8 host)
    fun i s _ hi h => h.encryptGroup 8 (by decide) (by omega) le_rfl
  have hlast := h.encryptGroup 4 (by decide) (by decide) (by decide)
  exact hlast.encrypts (by decide) (by decide) (by decide)

/-! ## Decryption schedules -/

/-- The words between the first and the last round key are stored mixed. -/
def decryptTarget (n nk : ℕ) (key : ℕ → Rijndael.Column Element) (m : ℕ) :
    Rijndael.Column Element :=
  if m < 4 ∨ n ≤ m then standard.expand nk key m
  else standard.invMixColumn (standard.expand nk key m)

/-- An earlier word is at another place. -/
theorem reversed_ne {n m m' : ℕ} (hn : n % 4 = 0) (hm : m < n + 4) (hlt : m' < m) :
    reversed n m' ≠ reversed n m :=
  fun h => hlt.ne (reversed_injOn hn (by omega) hm h)

/-- A reversed schedule that is complete is a decryption schedule. -/
theorem Written.decrypts {host : ByteOrder} {nk : ℕ} {key : ℕ → Rijndael.Column Element}
    {s : KeyState} {rounds : UInt8} (hnk : nk = 4 ∨ nk = 6 ∨ nk = 8)
    (h : Written host (reversed (4 * Rijndael.roundCount nk))
      (decryptTarget (4 * Rijndael.roundCount nk) nk key) (4 * (Rijndael.roundCount nk + 1)) s.ks)
    (hrounds : rounds * 16 = UInt8.ofNat (16 * Rijndael.roundCount nk)) :
    (s.context rounds).Decrypts host nk key := by
  have hshift : ((rounds * 16) >>> 2).toNat = 4 * Rijndael.roundCount nk := by
    rw [hrounds]
    obtain rfl | rfl | rfl := hnk <;> rfl
  have hword : ∀ q ≤ Rijndael.roundCount nk, ∀ c : Fin 4,
      column host (s.ks (4 * Rijndael.roundCount nk + c - 4 * q)) =
        decryptTarget (4 * Rijndael.roundCount nk) nk key (4 * q + c) := by
    intro q hq c
    rw [← reversed_eq c.isLt]
    exact h (4 * q + c) (by omega)
  refine ⟨hnk, hrounds, funext fun c => ?_, fun n hpos hn => funext fun c => ?_,
    funext fun c => ?_⟩
  · have hkey := hword (Rijndael.roundCount nk) le_rfl c
    rw [decryptTarget, if_pos (by omega), Nat.add_sub_cancel_left] at hkey
    simp only [wordState, Context.key, KeyState.context, Nat.mul_zero, Nat.zero_add]
    exact hkey
  · have hkey := hword n hn.le c
    have hplace : 4 * Rijndael.roundCount nk - 4 * n + c =
        4 * Rijndael.roundCount nk + c - 4 * n := by omega
    rw [decryptTarget, if_neg (by omega)] at hkey
    simp only [wordState, Context.rndKey, KeyState.context, hshift, hplace]
    exact hkey
  · have hkey := hword 0 (Nat.zero_le _) c
    rw [decryptTarget, if_pos (by omega)] at hkey
    simp only [wordState, Context.rndKey, KeyState.context, hshift]
    exact hkey

section Reversed

variable {host : ByteOrder} {nk n : ℕ} {key : ℕ → Rijndael.Column Element} {s : KeyState}

variable (host nk n) in
/-- The first words of a reversed schedule are the key, mixed where they have to be. -/
theorem expanding_decryptKey (bytes : Bytes) (memory : KeyState) (hn : n % 4 = 0) (hnk : nk ≤ n) :
    Expanding host (reversed n) (decryptTarget n nk (keyColumns bytes)) nk (keyColumns bytes) 0 0
      (loadKey host nk (reversed n) (invMcol host) bytes memory) := by
  refine expanding_loadKey bytes memory (fun m hm m' => reversed_ne hn (by omega)) ?_ ?_
  · intro j hj hfour
    rw [decryptTarget, if_pos (Or.inl hfour), standard.expand_of_lt _ hj]
  · intro j hj hfour word hword
    rw [decryptTarget, if_neg (by omega), standard.expand_of_lt _ hj, column_invMcol, hword]

/-- The first group, whose words are mixed one by one. -/
theorem Expanding.decryptFirst
    (h : Expanding host (reversed n) (decryptTarget n nk key) nk key 0 0 s)
    (hnk : nk = 4 ∨ nk = 6 ∨ nk = 8) (hn : n % 4 = 0) (hlimit : nk + nk ≤ n) :
    Expanding host (reversed n) (decryptTarget n nk key) nk key 1 0
      (expandGroup host nk nk (reversed n) (invMcol host) 0 s) := by
  refine (h.group hnk (by decide) n (by omega) le_rfl
    (fun m hm m' => reversed_ne hn (by omega)) ?_).next
  intro j hj word hword
  rw [decryptTarget, if_neg (by omega), column_invMcol, hword]

/-- A group in the middle, whose words go on from mixed ones. -/
theorem Expanding.decryptGroup {i : ℕ}
    (h : Expanding host (reversed n) (decryptTarget n nk key) nk key i 0 s)
    (hnk : nk = 4 ∨ nk = 6 ∨ nk = 8) (hn : n % 4 = 0) (hpos : 1 ≤ i) (hi : i < 10)
    (hlimit : nk * i + nk + nk ≤ n) :
    Expanding host (reversed n) (decryptTarget n nk key) nk key i nk
      (expandMixedGroup host nk (reversed n) i s) := by
  refine h.mixedGroup hnk hi n hlimit
    (fun m hm m' => reversed_ne hn (by omega)) ?_
  intro m hm hle
  have hfour : nk ≤ nk * i := Nat.le_mul_of_pos_right nk hpos
  rw [decryptTarget, if_neg (by omega)]

/-- The last round key, whose words are stored as they are. -/
theorem Expanding.decryptLast {i : ℕ}
    (h : Expanding host (reversed n) (decryptTarget n nk key) nk key i 0 s)
    (hnk : nk = 4 ∨ nk = 6 ∨ nk = 8) (hn : n % 4 = 0) (hi : i < 10) (hlimit : nk * i + nk = n) :
    Expanding host (reversed n) (decryptTarget n nk key) nk key i 4
      (expandGroup host nk 4 (reversed n) id i s) := by
  refine h.group hnk hi (n + 4) (by omega) (by omega)
    (fun m hm m' => reversed_ne hn hm) ?_
  intro j hj word hword
  rw [decryptTarget, if_pos (by omega)]
  exact hword

end Reversed

/-- `aes_decrypt_key192` makes a decryption context. -/
theorem aesDecryptKey192_decrypts (host : ByteOrder) (key : FixedBytes 24) (memory : KeyState) :
    (aesDecryptKey192 host key memory).Decrypts host 6 (keyColumns key.val) := by
  rw [aesDecryptKey192]
  have hload := expanding_decryptKey host 6 48 key.val memory (by decide) (by decide)
  have hfirst := hload.decryptFirst (by decide) (by decide) (by decide)
  have hgroups := hfirst.groups 6 (kd6 host) fun i s hpos hi h =>
    h.decryptGroup (by decide) (by decide) hpos (by omega) (by omega)
  have hlast := hgroups.decryptLast (by decide) (by decide) (by decide) (by decide)
  exact Written.decrypts (by decide) hlast.written (by decide)

/-- `aes_decrypt_key256` makes a decryption context. -/
theorem aesDecryptKey256_decrypts (host : ByteOrder) (key : FixedBytes 32) (memory : KeyState) :
    (aesDecryptKey256 host key memory).Decrypts host 8 (keyColumns key.val) := by
  rw [aesDecryptKey256]
  have hload := expanding_decryptKey host 8 56 key.val memory (by decide) (by decide)
  have hfirst := hload.decryptFirst (by decide) (by decide) (by decide)
  have hgroups := hfirst.groups 5 (kd8 host) fun i s hpos hi h =>
    h.decryptGroup (by decide) (by decide) hpos (by omega) (by omega)
  have hlast := hgroups.decryptLast (by decide) (by decide) (by decide) (by decide)
  exact Written.decrypts (by decide) hlast.written (by decide)

section Telescoped

variable {host : ByteOrder} {key : ℕ → Rijndael.Column Element} {i : ℕ}

/-- The local array holds sums of the words of group `i`, and the last word alone.
Which sum stands where turns with the group. -/
structure Sums (host : ByteOrder) (key : ℕ → Rijndael.Column Element) (i : ℕ)
    (ss : ℕ → UInt32) : Prop where
  all : column host (ss (i % 4)) = standard.expand 4 key (4 * i) +
    standard.expand 4 key (4 * i + 1) + standard.expand 4 key (4 * i + 2) +
      standard.expand 4 key (4 * i + 3)
  odd : column host (ss ((i + 1) % 4)) =
    standard.expand 4 key (4 * i + 1) + standard.expand 4 key (4 * i + 3)
  top : column host (ss ((i + 2) % 4)) =
    standard.expand 4 key (4 * i + 2) + standard.expand 4 key (4 * i + 3)
  last : column host (ss ((i + 3) % 4)) = standard.expand 4 key (4 * i + 3)

variable (key) in
/-- The words of the next group. -/
theorem expand_four (i : ℕ) :
    let t := standard.temp 4 (4 * i + 4) (standard.expand 4 key (4 * i + 3))
    standard.expand 4 key (4 * i + 4) = standard.expand 4 key (4 * i) + t ∧
      ∀ j < 3, standard.expand 4 key (4 * i + 4 + (j + 1)) =
        standard.expand 4 key (4 * i + (j + 1)) + standard.expand 4 key (4 * i + 4 + j) := by
  refine ⟨standard.expand_of_le (by decide) key (by omega), fun j hj => ?_⟩
  have hmod : (4 * i + 4 + (j + 1)) % 4 = j + 1 := by omega
  rw [standard.expand_of_le (i := 4 * i + 4 + (j + 1)) (by decide) key (by omega), Rijndael.temp,
    hmod, if_neg (by omega), if_neg (by omega)]
  congr 2
  omega

/-- The running sum gives the first word of the next group. -/
theorem Sums.temp {ss : ℕ → UInt32} (h : Sums host key i ss) (hi : i < 10) :
    column host (lsBox host (ss ((i + 3) % 4)) 3 ^^^ tRc host i) =
      standard.temp 4 (4 * i + 4) (standard.expand 4 key (4 * i + 3)) := by
  have hmod : (4 * i + 4) % 4 = 0 := by omega
  have hdiv : (4 * i + 4) / 4 - 1 = i := by omega
  rw [column_xor, column_lsBox_three, h.last, column_tRc host hi, Rijndael.temp, if_pos hmod, hdiv]

/-- Adding the temporary word to one sum turns the sums of a group into those of
the next. -/
theorem Sums.step {ss : ℕ → UInt32} (h : Sums host key i ss) {word : UInt32}
    (hword : column host word =
      standard.temp 4 (4 * i + 4) (standard.expand 4 key (4 * i + 3))) :
    Sums host key (i + 1) (Function.update ss (i % 4) (ss (i % 4) ^^^ word)) := by
  obtain ⟨hzero, hrest⟩ := expand_four key i
  have hone := hrest 0 (by decide)
  have htwo := hrest 1 (by decide)
  have hthree := hrest 2 (by decide)
  simp only [Nat.zero_add, Nat.reduceAdd, Nat.add_zero] at hone htwo hthree
  have hall : column host (ss (i % 4) ^^^ word) = standard.expand 4 key (4 * i + 4 + 3) := by
    rw [column_xor, h.all, hword, hthree, htwo, hone, hzero]
    abel
  have hturn : (i + 1 + 3) % 4 = i % 4 := by omega
  have hnext : 4 * (i + 1) = 4 * i + 4 := by ring
  constructor
  · rw [Function.update_of_ne (by omega), h.odd, hnext, hthree, htwo, hone, hzero]
    refine (one_smul (ZMod 2) _).symm.trans ?_
    match_scalars <;> decide
  · rw [Function.update_of_ne (by omega), h.top, hnext, hthree, htwo]
    refine (one_smul (ZMod 2) _).symm.trans ?_
    match_scalars <;> decide
  · rw [Function.update_of_ne (by omega), h.last, hnext, hthree]
    refine (one_smul (ZMod 2) _).symm.trans ?_
    match_scalars <;> decide
  · rw [hturn, Function.update_self, hall, hnext]

/-- Changes behind the four words do not matter. -/
theorem Sums.congr {ss ss' : ℕ → UInt32} (h : Sums host key i ss) (heq : ∀ r < 4, ss' r = ss r) :
    Sums host key i ss' := by
  have hlt : ∀ n : ℕ, n % 4 < 4 := fun n => Nat.mod_lt n (by decide)
  constructor
  · rw [heq _ (hlt _), h.all]
  · rw [heq _ (hlt _), h.odd]
  · rw [heq _ (hlt _), h.top]
  · rw [heq _ (hlt _), h.last]

/-- The accumulator runs through a group under a linear map: the identity where the
words of the group before are not mixed, the mixing where they are. -/
theorem Written.accumulate (stored : UInt32 → UInt32) {s : KeyState}
    {l : Rijndael.Column Element →ₗ[ZMod 2] Rijndael.Column Element}
    (h : Written host (reversed 40) (decryptTarget 40 4 key) (4 * i + 4) s.ks) (hi : i < 9)
    (htemp : column host (s.ss 4) =
      l (standard.temp 4 (4 * i + 4) (standard.expand 4 key (4 * i + 3))))
    (hbefore : ∀ j < 4, decryptTarget 40 4 key (4 * i + j) = l (standard.expand 4 key (4 * i + j)))
    (hstored : ∀ word j, j < 4 → column host word = l (standard.expand 4 key (4 * i + 4 + j)) →
      column host (stored word) = decryptTarget 40 4 key (4 * i + 4 + j)) :
    let s' := (List.range 4).foldl (accumulateWord stored i) s
    Written host (reversed 40) (decryptTarget 40 4 key) (4 * (i + 1) + 4) s'.ks ∧
      ∀ r < 4, s'.ss r = s.ss r := by
  obtain ⟨hzero, hrest⟩ := expand_four key i
  have hwords : ∀ count ≤ 4,
      let s' := (List.range count).foldl (accumulateWord stored i) s
      Written host (reversed 40) (decryptTarget 40 4 key) (4 * i + 4 + count) s'.ks ∧
        (∀ r < 4, s'.ss r = s.ss r) ∧
        (count < 4 → column host (s'.ss 4) = l (standard.expand 4 key (4 * i + 4 + count) +
          standard.expand 4 key (4 * i + count))) := by
    intro count hcount
    induction count with
    | zero =>
      refine ⟨h, fun _ _ => rfl, fun _ => htemp.trans (congrArg l ?_)⟩
      rw [Nat.add_zero (4 * i), Nat.add_zero (4 * i + 4), hzero,
        add_comm (standard.expand 4 key (4 * i)), RoundCipher.add_add_self]
    | succ j ih =>
      obtain ⟨hwritten, hss, haccumulator⟩ := ih (by omega)
      rw [List.range_succ, List.foldl_append]
      generalize (List.range j).foldl (accumulateWord stored i) s = s' at *
      have hword : column host (s'.ss 4 ^^^ s'.ks (reversed 40 (4 * i + j))) =
          l (standard.expand 4 key (4 * i + 4 + j)) := by
        rw [column_xor, haccumulator (by omega), hwritten _ (by omega), hbefore j (by omega),
          ← map_add, RoundCipher.add_add_self]
      refine ⟨?_, fun r hr => ?_, fun hj => ?_⟩
      · exact hwritten.write (fun m hm => reversed_ne (by decide) (by omega) hm)
          (hstored _ j (by omega) hword)
      · exact (Function.update_of_ne (by omega) ..).trans (hss r hr)
      · simp only [List.foldl_cons, List.foldl_nil, accumulateWord]
        rw [Function.update_self, hword, hrest j (by omega),
          add_comm (standard.expand 4 key (4 * i + (j + 1))), RoundCipher.add_add_self]
  obtain ⟨hwritten, hss, -⟩ := hwords 4 le_rfl
  exact ⟨hwritten, hss⟩

/-- The schedule after group `i`, and the local array that goes on from it. -/
structure Telescoped (host : ByteOrder) (key : ℕ → Rijndael.Column Element) (i : ℕ)
    (s : KeyState) : Prop where
  written : Written host (reversed 40) (decryptTarget 40 4 key) (4 * i + 4) s.ks
  sums : Sums host key i s.ss

/-- `kdf4` writes the first group and keeps its differences. -/
theorem kdf4_telescoped {s : KeyState}
    (h : Expanding host (reversed 40) (decryptTarget 40 4 key) 4 key 0 0 s) :
    Telescoped host key 1 (kdf4 host 0 s) := by
  have hword : ∀ r < 4, column host (s.ss r) = standard.expand 4 key r := by
    intro r hr
    rw [h.holds r hr, if_neg (by omega)]
    congr 1
    omega
  let ss := Function.update s.ss 0 (s.ss 0 ^^^ s.ss 2 ^^^ s.ss 1 ^^^ s.ss 3)
  let ss' := Function.update ss 1 (ss 1 ^^^ ss 3)
  let ss'' := Function.update ss' 2 (ss' 2 ^^^ ss' 3)
  have hsums : Sums host key 0 ss'' := by
    constructor
    · change column host (s.ss 0 ^^^ s.ss 2 ^^^ s.ss 1 ^^^ s.ss 3) = _
      simp only [column_xor, hword 0 (by decide), hword 1 (by decide), hword 2 (by decide),
        hword 3 (by decide)]
      abel
    · change column host (s.ss 1 ^^^ s.ss 3) = _
      rw [column_xor, hword 1 (by decide), hword 3 (by decide)]
    · change column host (s.ss 2 ^^^ s.ss 3) = _
      rw [column_xor, hword 2 (by decide), hword 3 (by decide)]
    · exact hword 3 (by decide)
  have htemp := hsums.temp (by decide)
  have hbehind : Sums host key 0 (Function.update ss'' 4 (lsBox host (ss'' 3) 3 ^^^ tRc host 0)) :=
    hsums.congr fun r hr => Function.update_of_ne (by omega) ..
  have hstep := hbehind.step htemp
  obtain ⟨hwritten, hss⟩ := Written.accumulate (l := LinearMap.id) (invMcol host)
    (s := ⟨s.ks, Function.update (Function.update ss'' 4 (lsBox host (ss'' 3) 3 ^^^ tRc host 0)) 0
      (ss'' 0 ^^^ (lsBox host (ss'' 3) 3 ^^^ tRc host 0))⟩) (i := 0)
    h.written (by decide) htemp
    (fun j hj => by rw [decryptTarget, if_pos (by omega)]; rfl)
    fun word j hj hword => by
      rw [decryptTarget, if_neg (by omega), column_invMcol, hword, LinearMap.id_apply]
  exact ⟨hwritten, hstep.congr hss⟩

/-- `kd4` writes a mixed group from the differences. -/
theorem kd4_telescoped {s : KeyState} (h : Telescoped host key i s) (hi : i < 9) (hpos : 1 ≤ i) :
    Telescoped host key (i + 1) (kd4 host i s) := by
  have hne : i % 4 ≠ 4 := by omega
  have htemp := h.sums.temp (by omega)
  simp only [kd4, Function.update_self, Function.update_of_ne hne, Function.update_of_ne hne.symm,
    Function.update_comm hne, Function.update_idem]
  generalize lsBox host (s.ss ((i + 3) % 4)) 3 ^^^ tRc host i = temp at htemp ⊢
  rw [Function.update_comm hne.symm]
  generalize hupdated : Function.update s.ss (i % 4) (s.ss (i % 4) ^^^ temp) = updated
  have hsums : Sums host key (i + 1) updated := hupdated ▸ h.sums.step htemp
  have haccumulator : column host (Function.update updated 4 (invMcol host temp) 4) =
      standard.invMixColumn
        (standard.temp 4 (4 * i + 4) (standard.expand 4 key (4 * i + 3))) := by
    rw [Function.update_self, column_invMcol, htemp]
  obtain ⟨hwritten, hss⟩ := Written.accumulate (l := standard.invMixColumn) id
    (s := ⟨s.ks, Function.update updated 4 (invMcol host temp)⟩) h.written hi haccumulator
    (fun j hj => by rw [decryptTarget, if_neg (by omega)])
    fun word j hj hword => by
      rw [decryptTarget, if_neg (by omega)]
      exact hword
  refine ⟨hwritten, (hsums.congr fun r hr => ?_).congr hss⟩
  exact Function.update_of_ne (by omega) ..

/-- The last group, whose words are taken from the sums. -/
theorem kdl4_written {s : KeyState} (h : Telescoped host key 9 s) :
    Written host (reversed 40) (decryptTarget 40 4 key) 44 (kdl4 host 9 s).ks := by
  have hsums := h.sums.step (h.sums.temp (by decide))
  set ss := Function.update s.ss (9 % 4)
    (s.ss (9 % 4) ^^^ (lsBox host (s.ss ((9 + 3) % 4)) 3 ^^^ tRc host 9)) with hss
  have hthree : column host (ss 1) = standard.expand 4 key 43 := hsums.last
  have hodd : column host (ss 3) = standard.expand 4 key 41 + standard.expand 4 key 43 := hsums.odd
  have htwo : column host (ss 0 ^^^ ss 1) = standard.expand 4 key 42 := by
    have htop : column host (ss 0) = standard.expand 4 key 42 + standard.expand 4 key 43 :=
      hsums.top
    rw [column_xor, htop, hthree, RoundCipher.add_add_self]
  have hone : column host (ss 1 ^^^ ss 3) = standard.expand 4 key 41 := by
    rw [column_xor, hodd, hthree, add_comm, RoundCipher.add_add_self]
  have hzero : column host (ss 0 ^^^ ss 1 ^^^ ss 2 ^^^ ss 3) = standard.expand 4 key 40 := by
    have hall : column host (ss 2) = standard.expand 4 key 40 + standard.expand 4 key 41 +
        standard.expand 4 key 42 + standard.expand 4 key 43 := hsums.all
    rw [column_xor, column_xor, htwo, hall, hodd]
    refine (one_smul (ZMod 2) _).symm.trans ?_
    match_scalars <;> decide
  have hword : ∀ j, 40 ≤ j → decryptTarget 40 4 key j = standard.expand 4 key j := fun j hj => by
    rw [decryptTarget, if_pos (Or.inr hj)]
  have hplace : ∀ m < 44, ∀ m' < m, reversed 40 m' ≠ reversed 40 m :=
    fun m hm m' => reversed_ne (by decide) hm
  have hforty := h.written.write (hplace 40 (by decide)) (hzero.trans (hword 40 (by decide)).symm)
  have hfortyOne := hforty.write (hplace 41 (by decide)) (hone.trans (hword 41 (by decide)).symm)
  have hfortyTwo := hfortyOne.write (hplace 42 (by decide)) (htwo.trans (hword 42 (by decide)).symm)
  exact hfortyTwo.write (hplace 43 (by decide)) (hthree.trans (hword 43 (by decide)).symm)

end Telescoped

/-- `aes_decrypt_key128` makes a decryption context. -/
theorem aesDecryptKey128_decrypts (host : ByteOrder) (key : FixedBytes 16) (memory : KeyState) :
    (aesDecryptKey128 host key memory).Decrypts host 4 (keyColumns key.val) := by
  rw [aesDecryptKey128]
  have hload : Expanding host (reversed 40) (decryptTarget 40 4 (keyColumns key.val)) 4
      (keyColumns key.val) 0 0 (loadKey host 4 (reversed 40) id key.val memory) := by
    refine expanding_loadKey key.val memory (fun m hm m' => reversed_ne (by decide) (by omega))
      (fun j hj hfour => ?_) (fun j hj hfour => absurd hj (by omega))
    rw [decryptTarget, if_pos (Or.inl hfour), standard.expand_of_lt _ hj]
  have hgroups : ∀ count ≤ 8, Telescoped host (keyColumns key.val) (1 + count)
      ((List.range' 1 count).foldl (fun s i => kd4 host i s)
        (kdf4 host 0 (loadKey host 4 (reversed 40) id key.val memory))) := by
    intro count hcount
    induction count with
    | zero => exact kdf4_telescoped hload
    | succ count ih =>
      have hcountNine : 1 + count < 9 := by omega
      rw [List.range'_concat, List.foldl_append, Nat.one_mul]
      exact kd4_telescoped (ih (by omega)) hcountNine (Nat.le_add_right 1 count)
  exact Written.decrypts (by decide) (kdl4_written (hgroups 8 le_rfl)) (by decide)

end San2.Aes
