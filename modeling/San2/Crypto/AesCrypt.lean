import San2.Crypto.AesTables

/-!
# Encryption and decryption of one block

`aes_encrypt` and `aes_decrypt` as they are compiled with four tables and full
unrolling. The state is four words; a context holds the key schedule as words.
Each round function is compared with a round of the standard on the columns that
the words hold, and the two unrolled functions with the rounds of the standard.
-/

namespace San2.Aes

open Utils
open scoped Rijndael

/-- The bytes of one block. -/
abbrev Block := FixedBytes 16

/-- A local array of four words, `b0` or `b1`. -/
abbrev Words := Fin 4 → UInt32

/-- `aes_encrypt_ctx` and `aes_decrypt_ctx`: the key schedule and the bytes 0 and
2 of `inf`, sixteen times the number of rounds and the position in a block. -/
structure Context where
  ks : ℕ → UInt32
  infB0 : UInt8
  infB2 : UInt8

/-- `word_in` -/
def wordIn (host : ByteOrder) (x : Bytes) (c : ℕ) : UInt32 :=
  bytes2word host (x.getD (4 * c) 0).toUInt32 (x.getD (4 * c + 1) 0).toUInt32
    (x.getD (4 * c + 2) 0).toUInt32 (x.getD (4 * c + 3) 0).toUInt32

/-- `state_in` -/
def stateIn (host : ByteOrder) (x : Block) (k : ℕ → UInt32) : Words :=
  fun c => wordIn host x.val c ^^^ k c

/-- `state_out` -/
def stateOut (host : ByteOrder) (x : Words) : Block :=
  ⟨List.ofFn fun i : Fin 16 => bval host (x (Fin.ofNat 4 (i / 4))) (Fin.ofNat 4 i),
    List.length_ofFn⟩

/-- The column from which row `r` of column `c` is taken. -/
def fwdVar (x : Words) (r c : Fin 4) : UInt32 :=
  x (![![0, 1, 2, 3], ![1, 2, 3, 0], ![2, 3, 0, 1], ![3, 0, 1, 2]] r c)

/-- `inv_var`: the word that a byte of a decryption round comes from. -/
def invVar (x : Words) (r c : Fin 4) : UInt32 :=
  x (![![0, 1, 2, 3], ![3, 0, 1, 2], ![2, 3, 0, 1], ![1, 2, 3, 0]] r c)

/-- `fwd_rnd` -/
def fwdRnd (host : ByteOrder) (x : Words) (k : ℕ → UInt32) : Words :=
  fun c => k c ^^^ fourTables (tFn host) fun r => bval host (fwdVar x r c) r

/-- `fwd_lrnd` -/
def fwdLrnd (host : ByteOrder) (x : Words) (k : ℕ → UInt32) : Words :=
  fun c => k c ^^^ fourTables (tFl host) fun r => bval host (fwdVar x r c) r

/-- `inv_rnd` -/
def invRnd (host : ByteOrder) (x : Words) (k : ℕ → UInt32) : Words :=
  fun c => k c ^^^ fourTables (tIn host) fun r => bval host (invVar x r c) r

/-- `inv_lrnd` -/
def invLrnd (host : ByteOrder) (x : Words) (k : ℕ → UInt32) : Words :=
  fun c => k c ^^^ fourTables (tIl host) fun r => bval host (invVar x r c) r

namespace Context

/-- The round key at a multiple of `N_COLS` words. -/
def key (cx : Context) (n : ℕ) : ℕ → UInt32 := fun c => cx.ks (4 * n + c)

/-- `rnd_key(-n)`, counted back from the last round key in memory. -/
def rndKey (cx : Context) (n : ℕ) : ℕ → UInt32 :=
  fun c => cx.ks ((cx.infB0 >>> 2).toNat - 4 * n + c)

/-- Full rounds of the encryption with the keys behind `kp`. -/
def fwdRounds (host : ByteOrder) (cx : Context) (kp : ℕ) (rounds : List ℕ) (b : Words) : Words :=
  rounds.foldl (fun b n => fwdRnd host b (cx.key (kp + n))) b

/-- Full rounds of the decryption. -/
def invRounds (host : ByteOrder) (cx : Context) (rounds : List ℕ) (b : Words) : Words :=
  rounds.foldl (fun b n => invRnd host b (cx.rndKey n)) b

/-- The last ten rounds of `aes_encrypt`. The cases of its switch fall through: each does
its two rounds and goes on with the next case, with `kp` moved past them. -/
def encrypt10 (host : ByteOrder) (cx : Context) (kp : ℕ) (b : Words) : Words :=
  fwdLrnd host (cx.fwdRounds host kp [1, 2, 3, 4, 5, 6, 7, 8, 9] b) (cx.key (kp + 10))

/-- The last twelve rounds of `aes_encrypt`. -/
def encrypt12 (host : ByteOrder) (cx : Context) (kp : ℕ) (b : Words) : Words :=
  cx.encrypt10 host (kp + 2) (cx.fwdRounds host kp [1, 2] b)

/-- The fourteen rounds of `aes_encrypt`. -/
def encrypt14 (host : ByteOrder) (cx : Context) (kp : ℕ) (b : Words) : Words :=
  cx.encrypt12 host (kp + 2) (cx.fwdRounds host kp [1, 2] b)

/-- The last ten rounds of `aes_decrypt`. -/
def decrypt10 (host : ByteOrder) (cx : Context) (b : Words) : Words :=
  invLrnd host (cx.invRounds host [9, 8, 7, 6, 5, 4, 3, 2, 1] b) (cx.rndKey 0)

/-- The last twelve rounds of `aes_decrypt`. -/
def decrypt12 (host : ByteOrder) (cx : Context) (b : Words) : Words :=
  cx.decrypt10 host (cx.invRounds host [11, 10] b)

/-- The fourteen rounds of `aes_decrypt`. -/
def decrypt14 (host : ByteOrder) (cx : Context) (b : Words) : Words :=
  cx.decrypt12 host (cx.invRounds host [13, 12] b)

end Context

/-- `aes_encrypt`; `none` is `EXIT_FAILURE`. -/
def aesEncrypt (host : ByteOrder) (input : Block) (cx : Context) : Option Block :=
  let b := stateIn host input (cx.key 0)
  if cx.infB0 = 14 * 16 then some (stateOut host (cx.encrypt14 host 0 b))
  else if cx.infB0 = 12 * 16 then some (stateOut host (cx.encrypt12 host 0 b))
  else if cx.infB0 = 10 * 16 then some (stateOut host (cx.encrypt10 host 0 b))
  else none

/-- `aes_decrypt`, on a key schedule in the order of decryption. -/
def aesDecrypt (host : ByteOrder) (input : Block) (cx : Context) : Option Block :=
  let b := stateIn host input (cx.key 0)
  if cx.infB0 = 14 * 16 then some (stateOut host (cx.decrypt14 host b))
  else if cx.infB0 = 12 * 16 then some (stateOut host (cx.decrypt12 host b))
  else if cx.infB0 = 10 * 16 then some (stateOut host (cx.decrypt10 host b))
  else none

/-- The state that a block of bytes stands for, column by column. -/
def blockState (x : Block) : Rijndael.State Element := fun c r => ⟨x.val.getD (4 * c + r) 0⟩

/-- The state that four words hold. -/
def wordState (host : ByteOrder) (x : Words) : Rijndael.State Element := fun c => column host (x c)

/-- A block is known by its state. -/
theorem blockState_injective : Function.Injective blockState := by
  intro x y h
  apply Subtype.ext
  apply List.ext_getElem (by rw [x.property, y.property])
  intro i hx hy
  have hi : i < 16 := by rwa [x.property] at hx
  have hbyte := congrArg Element.byte (congrFun₂ h ⟨i / 4, by omega⟩ ⟨i % 4, by omega⟩)
  have hindex : 4 * (i / 4) + i % 4 = i := by omega
  simp only [blockState, hindex] at hbyte
  rwa [List.getD_eq_getElem _ _ hx, List.getD_eq_getElem _ _ hy] at hbyte

/-- A word is read as a column. -/
theorem column_wordIn (host : ByteOrder) (x : Bytes) (c : ℕ) :
    column host (wordIn host x c) = fun r : Fin 4 => ⟨x.getD (4 * c + r) 0⟩ :=
  column_bytes2word host fun r => ⟨x.getD (4 * c + r) 0⟩

/-- The state after the input has been read and the first key added. -/
theorem wordState_stateIn (host : ByteOrder) (x : Block) (k : ℕ → UInt32) :
    wordState host (stateIn host x k) = blockState x + wordState host fun c => k c := by
  funext c
  simp only [wordState, stateIn, column_xor, column_wordIn, Pi.add_apply]
  rfl

/-- What is written is the state. -/
theorem blockState_stateOut (host : ByteOrder) (x : Words) :
    blockState (stateOut host x) = wordState host x := by
  funext c r
  have hindex : 4 * (c : ℕ) + r < 16 := by omega
  apply Element.ext
  simp only [blockState, wordState, column, stateOut]
  rw [List.getD_eq_getElem _ _ (by simpa using hindex), List.getElem_ofFn]
  have hcolumn : Fin.ofNat 4 ((4 * (c : ℕ) + r) / 4) = c := Fin.ext (by simp; omega)
  have hrow : Fin.ofNat 4 (4 * (c : ℕ) + r) = r := Fin.ext (by simp)
  simp only [hcolumn, hrow]

/-- ShiftRows: row `r` comes from `r` columns further on. -/
theorem fwdVar_eq (x : Words) (r c : Fin 4) : fwdVar x r c = x (c + r) := by
  fin_cases r <;> fin_cases c <;> rfl

/-- The inverse of ShiftRows: row `r` comes from `r` columns back. -/
theorem invVar_eq (x : Words) (r c : Fin 4) : invVar x r c = x (c - r) := by
  fin_cases r <;> fin_cases c <;> rfl

/-- A round of the encryption by tables is one of the standard. -/
theorem wordState_fwdRnd (host : ByteOrder) (x : Words) (k : ℕ → UInt32) :
    wordState host (fwdRnd host x k) =
      standard.rounds.round (wordState host x) (wordState host fun c => k c) := by
  funext c
  simp only [wordState, fwdRnd, column_xor, column_fourTables_tFn, fwdVar_eq]
  exact add_comm _ _

/-- The last round of the encryption by tables does not mix. -/
theorem wordState_fwdLrnd (host : ByteOrder) (x : Words) (k : ℕ → UInt32) :
    wordState host (fwdLrnd host x k) =
      standard.rounds.substitute (wordState host x) + wordState host fun c => k c := by
  funext c
  simp only [wordState, fwdLrnd, column_xor, column_fourTables_tFl, fwdVar_eq]
  exact add_comm _ _

/-- A round of the decryption by tables is one of the equivalent inverse cipher. -/
theorem wordState_invRnd (host : ByteOrder) (x : Words) (k : ℕ → UInt32) :
    wordState host (invRnd host x k) =
      standard.rounds.invRound (wordState host x) (wordState host fun c => k c) := by
  funext c
  simp only [wordState, invRnd, column_xor, column_fourTables_tIn, invVar_eq]
  exact add_comm _ _

/-- The last round of the decryption by tables does not mix. -/
theorem wordState_invLrnd (host : ByteOrder) (x : Words) (k : ℕ → UInt32) :
    wordState host (invLrnd host x k) =
      standard.rounds.substitute.symm (wordState host x) + wordState host fun c => k c := by
  funext c
  simp only [wordState, invLrnd, column_xor, column_fourTables_tIl, invVar_eq]
  exact add_comm _ _

/-- The context holds the encryption schedule of a key of `nk` words. -/
structure Context.Encrypts (host : ByteOrder) (nk : ℕ) (key : ℕ → Rijndael.Column Element)
    (cx : Context) : Prop where
  size : nk = 4 ∨ nk = 6 ∨ nk = 8
  infB0 : cx.infB0 = UInt8.ofNat (16 * Rijndael.roundCount nk)
  words : ∀ i < 4 * (Rijndael.roundCount nk + 1),
    column host (cx.ks i) = standard.expand nk key i

/-- The context holds the decryption schedule: the round keys in reverse order,
all but the first and the last mixed backwards. -/
structure Context.Decrypts (host : ByteOrder) (nk : ℕ) (key : ℕ → Rijndael.Column Element)
    (cx : Context) : Prop where
  size : nk = 4 ∨ nk = 6 ∨ nk = 8
  infB0 : cx.infB0 = UInt8.ofNat (16 * Rijndael.roundCount nk)
  first : wordState host (fun c => cx.key 0 c) =
    Rijndael.roundKey (standard.expand nk key) (Rijndael.roundCount nk)
  middle : ∀ n, 0 < n → n < Rijndael.roundCount nk →
    wordState host (fun c => cx.rndKey n c) =
      standard.mixColumns.symm (Rijndael.roundKey (standard.expand nk key) n)
  last : wordState host (fun c => cx.rndKey 0 c) = Rijndael.roundKey (standard.expand nk key) 0

section Rounds

variable {host : ByteOrder} {nk : ℕ} {key : ℕ → Rijndael.Column Element} {cx : Context}

/-- The schedule of an encryption context has the round keys in order. -/
theorem Context.Encrypts.roundKey (h : cx.Encrypts host nk key) {n : ℕ}
    (hn : n ≤ Rijndael.roundCount nk) :
    wordState host (fun c => cx.key n c) = Rijndael.roundKey (standard.expand nk key) n :=
  funext fun c => h.words (4 * n + c) (by omega)

/-- Several rounds of the encryption. -/
theorem Context.Encrypts.fwdRounds (h : cx.Encrypts host nk key) (kp : ℕ) {rounds : List ℕ}
    (hrounds : ∀ n ∈ rounds, kp + n ≤ Rijndael.roundCount nk) (b : Words) :
    wordState host (cx.fwdRounds host kp rounds b) =
      (rounds.map fun n => Rijndael.roundKey (standard.expand nk key) (kp + n)).foldl
        standard.rounds.round (wordState host b) := by
  induction rounds generalizing b with
  | nil => rfl
  | cons n rounds ih =>
    have hrest := ih (fun m hm => hrounds m (List.mem_cons_of_mem n hm)) (fwdRnd host b (cx.key (kp + n)))
    rw [wordState_fwdRnd, h.roundKey (hrounds n List.mem_cons_self)] at hrest
    exact hrest

/-- Several rounds of the decryption, with mixed round keys. -/
theorem Context.Decrypts.invRounds (h : cx.Decrypts host nk key) {rounds : List ℕ}
    (hrounds : ∀ n ∈ rounds, 0 < n ∧ n < Rijndael.roundCount nk) (b : Words) :
    wordState host (cx.invRounds host rounds b) =
      (rounds.map fun n => standard.mixColumns.symm
        (Rijndael.roundKey (standard.expand nk key) n)).foldl
        standard.rounds.invRound (wordState host b) := by
  induction rounds generalizing b with
  | nil => rfl
  | cons n rounds ih =>
    have hrest := ih (fun m hm => hrounds m (List.mem_cons_of_mem n hm)) (invRnd host b (cx.rndKey n))
    obtain ⟨hpos, hlt⟩ := hrounds n List.mem_cons_self
    rw [wordState_invRnd, h.middle n hpos hlt] at hrest
    exact hrest

/-- The last ten rounds. -/
theorem Context.Encrypts.encrypt10 (h : cx.Encrypts host nk key) {kp : ℕ}
    (hkp : kp + 10 = Rijndael.roundCount nk) (b : Words) :
    wordState host (cx.encrypt10 host kp b) =
      standard.rounds.substitute (([1, 2, 3, 4, 5, 6, 7, 8, 9].map fun n =>
        Rijndael.roundKey (standard.expand nk key) (kp + n)).foldl standard.rounds.round
          (wordState host b)) +
        Rijndael.roundKey (standard.expand nk key) (Rijndael.roundCount nk) := by
  have hrounds : ∀ n ∈ [1, 2, 3, 4, 5, 6, 7, 8, 9], kp + n ≤ Rijndael.roundCount nk := by
    simp only [List.mem_cons, List.not_mem_nil, or_false]
    omega
  rw [Context.encrypt10, wordState_fwdLrnd, h.fwdRounds kp hrounds, h.roundKey hkp.le, hkp]

/-- The last ten rounds of a decryption. -/
theorem Context.Decrypts.decrypt10 (h : cx.Decrypts host nk key) (b : Words) :
    wordState host (cx.decrypt10 host b) =
      standard.rounds.substitute.symm (([9, 8, 7, 6, 5, 4, 3, 2, 1].map fun n =>
        standard.mixColumns.symm (Rijndael.roundKey (standard.expand nk key) n)).foldl
          standard.rounds.invRound (wordState host b)) +
        Rijndael.roundKey (standard.expand nk key) 0 := by
  have hrounds : ∀ n ∈ [9, 8, 7, 6, 5, 4, 3, 2, 1], 0 < n ∧ n < Rijndael.roundCount nk := by
    have hsize := h.size
    simp only [List.mem_cons, List.not_mem_nil, or_false, Rijndael.roundCount]
    omega
  rw [Context.decrypt10, wordState_invLrnd, h.invRounds hrounds, h.last]

/-- Encryption in a context that holds an encryption schedule is the cipher of the
standard. -/
theorem aesEncrypt_of_encrypts (h : cx.Encrypts host nk key) (x : Block) :
    ∃ y, aesEncrypt host x cx = some y ∧
      blockState y = standard.cipher nk key (blockState x) := by
  have hfirst : wordState host (stateIn host x (cx.key 0)) =
      blockState x + Rijndael.roundKey (standard.expand nk key) 0 := by
    rw [wordState_stateIn, h.roundKey (Nat.zero_le _)]
  obtain ⟨rfl | rfl | rfl, hinf, -⟩ := id h
  · refine ⟨_, by rw [aesEncrypt, hinf]; rfl, ?_⟩
    rw [blockState_stateOut, h.encrypt10 rfl, hfirst]
    rfl
  · refine ⟨_, by rw [aesEncrypt, hinf]; rfl, ?_⟩
    have hmiddle : Rijndael.middleKeys 6 (standard.expand 6 key) =
        ([1, 2].map fun n => Rijndael.roundKey (standard.expand 6 key) (0 + n)) ++
          [1, 2, 3, 4, 5, 6, 7, 8, 9].map fun n =>
            Rijndael.roundKey (standard.expand 6 key) (2 + n) := rfl
    rw [blockState_stateOut, Context.encrypt12, h.encrypt10 rfl, h.fwdRounds 0 (by decide), hfirst,
      Rijndael.cipher, hmiddle, RoundCipher.encrypt, List.foldl_append]
  · refine ⟨_, by rw [aesEncrypt, hinf]; rfl, ?_⟩
    have hmiddle : Rijndael.middleKeys 8 (standard.expand 8 key) =
        ([1, 2].map fun n => Rijndael.roundKey (standard.expand 8 key) (0 + n)) ++
          ([1, 2].map fun n => Rijndael.roundKey (standard.expand 8 key) (2 + n)) ++
            [1, 2, 3, 4, 5, 6, 7, 8, 9].map fun n =>
              Rijndael.roundKey (standard.expand 8 key) (4 + n) := rfl
    rw [blockState_stateOut, Context.encrypt14, Context.encrypt12, h.encrypt10 rfl,
      h.fwdRounds 2 (by decide), h.fwdRounds 0 (by decide), hfirst, Rijndael.cipher, hmiddle,
      RoundCipher.encrypt, List.foldl_append, List.foldl_append]

/-- Decryption in a context that holds a decryption schedule is the inverse cipher
of the standard. -/
theorem aesDecrypt_of_decrypts (h : cx.Decrypts host nk key) (x : Block) :
    ∃ y, aesDecrypt host x cx = some y ∧
      blockState y = standard.invCipher nk key (blockState x) := by
  have hfirst : wordState host (stateIn host x (cx.key 0)) =
      blockState x + Rijndael.roundKey (standard.expand nk key) (Rijndael.roundCount nk) := by
    rw [wordState_stateIn, h.first]
  obtain ⟨rfl | rfl | rfl, hinf, -, -, -⟩ := id h
  · refine ⟨_, by rw [aesDecrypt, hinf]; rfl, ?_⟩
    rw [blockState_stateOut, h.decrypt10, hfirst]
    rfl
  · refine ⟨_, by rw [aesDecrypt, hinf]; rfl, ?_⟩
    have hmiddle : (Rijndael.middleKeys 6 (standard.expand 6 key)).reverse =
        ([11, 10].map fun n => Rijndael.roundKey (standard.expand 6 key) n) ++
          [9, 8, 7, 6, 5, 4, 3, 2, 1].map fun n =>
            Rijndael.roundKey (standard.expand 6 key) n := rfl
    rw [blockState_stateOut, Context.decrypt12, h.decrypt10, h.invRounds (by decide), hfirst,
      Rijndael.invCipher, hmiddle, RoundCipher.decrypt, List.map_append, List.foldl_append,
      List.map_map, List.map_map]
    rfl
  · refine ⟨_, by rw [aesDecrypt, hinf]; rfl, ?_⟩
    have hmiddle : (Rijndael.middleKeys 8 (standard.expand 8 key)).reverse =
        ([13, 12].map fun n => Rijndael.roundKey (standard.expand 8 key) n) ++
          ([11, 10].map fun n => Rijndael.roundKey (standard.expand 8 key) n) ++
            [9, 8, 7, 6, 5, 4, 3, 2, 1].map fun n =>
              Rijndael.roundKey (standard.expand 8 key) n := rfl
    rw [blockState_stateOut, Context.decrypt14, Context.decrypt12, h.decrypt10,
      h.invRounds (by decide), h.invRounds (by decide), hfirst, Rijndael.invCipher, hmiddle,
      RoundCipher.decrypt, List.map_append, List.map_append, List.foldl_append, List.foldl_append,
      List.map_map, List.map_map, List.map_map]
    rfl

end Rounds

end San2.Aes
