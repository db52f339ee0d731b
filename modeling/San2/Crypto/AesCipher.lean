import San2.Crypto.AesCounter
import San2.Crypto.AesKey

/-!
# The cipher as its callers see it

A key is set up with a length in bytes or in bits, and blocks are then encrypted
or decrypted under the context. The two sides of a connection need not have the
same byte order, and what was in memory before a key was set up does not matter.
-/

namespace San2.Aes

open Utils

/-- The bytes behind a pointer to a key. -/
abbrev KeyPointer := ℕ → UInt8

/-- What a key set-up function reads through the pointer. -/
def KeyPointer.read (key : KeyPointer) (size : ℕ) : FixedBytes size :=
  ⟨List.ofFn fun i : Fin size => key i, List.length_ofFn⟩

/-- `aes_encrypt_key`; `none` is `EXIT_FAILURE`. -/
def aesEncryptKey (host : ByteOrder) (key : KeyPointer) (keyLen : ℤ) (memory : KeyState) :
    Option Context :=
  if keyLen = 16 ∨ keyLen = 128 then some (aesEncryptKey128 host (key.read 16) memory)
  else if keyLen = 24 ∨ keyLen = 192 then some (aesEncryptKey192 host (key.read 24) memory)
  else if keyLen = 32 ∨ keyLen = 256 then some (aesEncryptKey256 host (key.read 32) memory)
  else none

/-- `aes_decrypt_key` -/
def aesDecryptKey (host : ByteOrder) (key : KeyPointer) (keyLen : ℤ) (memory : KeyState) :
    Option Context :=
  if keyLen = 16 ∨ keyLen = 128 then some (aesDecryptKey128 host (key.read 16) memory)
  else if keyLen = 24 ∨ keyLen = 192 then some (aesDecryptKey192 host (key.read 24) memory)
  else if keyLen = 32 ∨ keyLen = 256 then some (aesDecryptKey256 host (key.read 32) memory)
  else none

/-- The key lengths of the standard in words, each given in bytes or in bits. -/
def KeyLength (keyLen : ℤ) (nk : ℕ) : Prop :=
  (nk = 4 ∨ nk = 6 ∨ nk = 8) ∧ (keyLen = 4 * nk ∨ keyLen = 32 * nk)

/-- The words of a key as columns of the standard. -/
def KeyPointer.columns (key : KeyPointer) (j : ℕ) : Rijndael.Column Element :=
  fun r => ⟨key (4 * j + r)⟩

/-- The columns of the bytes that are read are those behind the pointer. -/
theorem keyColumns_read (key : KeyPointer) {size nk : ℕ} (hsize : size = 4 * nk) {j : ℕ}
    (hj : j < nk) : keyColumns (key.read size).val j = key.columns j := by
  funext r
  have hindex : 4 * j + r < (List.ofFn fun i : Fin size => key i).length := by
    rw [List.length_ofFn]
    omega
  simp only [keyColumns, KeyPointer.read, KeyPointer.columns]
  rw [List.getD_eq_getElem _ _ hindex, List.getElem_ofFn]

/-- A schedule depends on the words of the key only. -/
theorem expand_congr {nk : ℕ} (hnk : 0 < nk) {key key' : ℕ → Rijndael.Column Element}
    (h : ∀ j < nk, key j = key' j) (i : ℕ) :
    standard.expand nk key i = standard.expand nk key' i := by
  induction i using Nat.strong_induction_on with
  | _ i ih =>
    rcases Nat.lt_or_ge i nk with hlt | hge
    · rw [standard.expand_of_lt _ hlt, standard.expand_of_lt _ hlt, h i hlt]
    · rw [standard.expand_of_le hnk _ hge, standard.expand_of_le hnk _ hge, ih _ (by omega),
        ih _ (by omega)]

/-- The expanded key depends on the bytes that are read only. -/
theorem expand_read (key : KeyPointer) {size nk : ℕ} (hsize : size = 4 * nk) (hnk : 0 < nk) :
    standard.expand nk (keyColumns (key.read size).val) = standard.expand nk key.columns :=
  funext fun i => expand_congr hnk (fun _ hj => keyColumns_read key hsize hj) i

/-- Keys with the same expansion make the same encryption contexts. -/
theorem Context.Encrypts.of_expand {host : ByteOrder} {nk : ℕ}
    {key key' : ℕ → Rijndael.Column Element} {cx : Context} (h : cx.Encrypts host nk key)
    (hexpand : standard.expand nk key = standard.expand nk key') : cx.Encrypts host nk key' :=
  ⟨h.size, h.infB0, hexpand ▸ h.words⟩

/-- Keys with the same expansion make the same decryption contexts. -/
theorem Context.Decrypts.of_expand {host : ByteOrder} {nk : ℕ}
    {key key' : ℕ → Rijndael.Column Element} {cx : Context} (h : cx.Decrypts host nk key)
    (hexpand : standard.expand nk key = standard.expand nk key') : cx.Decrypts host nk key' :=
  ⟨h.size, h.infB0, hexpand ▸ h.first, hexpand ▸ h.middle, hexpand ▸ h.last⟩

/-- For every length that is allowed the context of `aes_encrypt_key` encrypts. -/
theorem aesEncryptKey_encrypts (host : ByteOrder) (key : KeyPointer) (memory : KeyState)
    {keyLen : ℤ} {nk : ℕ} (h : KeyLength keyLen nk) :
    ∃ cx, aesEncryptKey host key keyLen memory = some cx ∧ cx.Encrypts host nk key.columns := by
  obtain ⟨rfl | rfl | rfl, hlength⟩ := h
  · refine ⟨_, if_pos (by omega), ?_⟩
    exact (aesEncryptKey128_encrypts host _ memory).of_expand (expand_read key rfl (by decide))
  · refine ⟨_, (if_neg (by omega)).trans (if_pos (by omega)), ?_⟩
    exact (aesEncryptKey192_encrypts host _ memory).of_expand (expand_read key rfl (by decide))
  · refine ⟨_, (if_neg (by omega)).trans ((if_neg (by omega)).trans (if_pos (by omega))), ?_⟩
    exact (aesEncryptKey256_encrypts host _ memory).of_expand (expand_read key rfl (by decide))

/-- For every length that is allowed the context of `aes_decrypt_key` decrypts. -/
theorem aesDecryptKey_decrypts (host : ByteOrder) (key : KeyPointer) (memory : KeyState)
    {keyLen : ℤ} {nk : ℕ} (h : KeyLength keyLen nk) :
    ∃ cx, aesDecryptKey host key keyLen memory = some cx ∧ cx.Decrypts host nk key.columns := by
  obtain ⟨rfl | rfl | rfl, hlength⟩ := h
  · refine ⟨_, if_pos (by omega), ?_⟩
    exact (aesDecryptKey128_decrypts host _ memory).of_expand (expand_read key rfl (by decide))
  · refine ⟨_, (if_neg (by omega)).trans (if_pos (by omega)), ?_⟩
    exact (aesDecryptKey192_decrypts host _ memory).of_expand (expand_read key rfl (by decide))
  · refine ⟨_, (if_neg (by omega)).trans ((if_neg (by omega)).trans (if_pos (by omega))), ?_⟩
    exact (aesDecryptKey256_decrypts host _ memory).of_expand (expand_read key rfl (by decide))

/-- The set-up accepts the lengths of the standard and no others. -/
theorem aesEncryptKey_eq_none_iff (host : ByteOrder) (key : KeyPointer) (memory : KeyState)
    (keyLen : ℤ) :
    aesEncryptKey host key keyLen memory = none ↔ ∀ nk, ¬ KeyLength keyLen nk := by
  constructor
  · intro hnone nk hlength
    obtain ⟨cx, hcx, -⟩ := aesEncryptKey_encrypts host key memory hlength
    exact Option.some_ne_none cx (hcx.symm.trans hnone)
  · intro h
    have hfour : ¬ (keyLen = 16 ∨ keyLen = 128) := fun hlength => h 4 ⟨by decide, hlength⟩
    have hsix : ¬ (keyLen = 24 ∨ keyLen = 192) := fun hlength => h 6 ⟨by decide, hlength⟩
    have height : ¬ (keyLen = 32 ∨ keyLen = 256) := fun hlength => h 8 ⟨by decide, hlength⟩
    rw [aesEncryptKey, if_neg hfour, if_neg hsix, if_neg height]

/-- `aes_encrypt` computes the cipher of the standard. -/
theorem aesEncrypt_eq_some_iff {host : ByteOrder} {nk : ℕ} {key : ℕ → Rijndael.Column Element}
    {cx : Context} (h : cx.Encrypts host nk key) (x y : Block) :
    aesEncrypt host x cx = some y ↔ blockState y = standard.cipher nk key (blockState x) := by
  obtain ⟨z, hz, hstate⟩ := aesEncrypt_of_encrypts h x
  rw [hz, Option.some.injEq, ← hstate, blockState_injective.eq_iff, eq_comm]

/-- `aes_decrypt` inverts the cipher of the standard. -/
theorem aesDecrypt_eq_some_iff {host : ByteOrder} {nk : ℕ} {key : ℕ → Rijndael.Column Element}
    {cx : Context} (h : cx.Decrypts host nk key) (x y : Block) :
    aesDecrypt host y cx = some x ↔ blockState y = standard.cipher nk key (blockState x) := by
  obtain ⟨z, hz, hstate⟩ := aesDecrypt_of_decrypts h y
  rw [hz, Option.some.injEq, ← blockState_injective.eq_iff, hstate]
  constructor
  · intro hx
    rw [← hx, standard.cipher_invCipher]
  · intro hy
    rw [hy, standard.invCipher_cipher]

/-- Setting up a key and encrypting a block gives the cipher of the standard. -/
theorem aesEncryptKey_aesEncrypt (host : ByteOrder) (key : KeyPointer) (memory : KeyState)
    (keyLen : ℤ) :
    (∀ nk, KeyLength keyLen nk → ∃ cx, aesEncryptKey host key keyLen memory = some cx ∧
      ∀ x, ∃ y, aesEncrypt host x cx = some y ∧
        blockState y = standard.cipher nk key.columns (blockState x)) ∧
    ((∀ nk, ¬ KeyLength keyLen nk) → aesEncryptKey host key keyLen memory = none) := by
  refine ⟨fun nk hlength => ?_, (aesEncryptKey_eq_none_iff host key memory keyLen).mpr⟩
  obtain ⟨cx, hcx, hencrypts⟩ := aesEncryptKey_encrypts host key memory hlength
  exact ⟨cx, hcx, aesEncrypt_of_encrypts hencrypts⟩

/-- What one side encrypts the other decrypts, and nothing else decrypts to it. -/
theorem aesDecrypt_iff_aesEncrypt (host host' : ByteOrder) (key : KeyPointer)
    (memory memory' : KeyState) (keyLen : ℤ) :
    (aesDecryptKey host' key keyLen memory').isSome =
      (aesEncryptKey host key keyLen memory).isSome ∧
    ∀ ecx dcx, aesEncryptKey host key keyLen memory = some ecx →
      aesDecryptKey host' key keyLen memory' = some dcx → ∀ x y,
        aesEncrypt host x ecx = some y ↔ aesDecrypt host' y dcx = some x := by
  refine ⟨?_, fun ecx dcx henc hdec x y => ?_⟩
  · simp only [aesDecryptKey, aesEncryptKey, apply_ite Option.isSome, Option.isSome_some]
  · have hsome : aesEncryptKey host key keyLen memory ≠ none := by rw [henc]; exact nofun
    rw [Ne, aesEncryptKey_eq_none_iff] at hsome
    push Not at hsome
    obtain ⟨nk, hlength⟩ := hsome
    obtain ⟨ecx', hecx, hencrypts⟩ := aesEncryptKey_encrypts host key memory hlength
    obtain ⟨dcx', hdcx, hdecrypts⟩ := aesDecryptKey_decrypts host' key memory' hlength
    obtain rfl : ecx' = ecx := Option.some.inj (hecx.symm.trans henc)
    obtain rfl : dcx' = dcx := Option.some.inj (hdcx.symm.trans hdec)
    rw [aesEncrypt_eq_some_iff hencrypts, aesDecrypt_eq_some_iff hdecrypts]

open DragonSRP

/-- The block function of `aes_ctr_crypt` under a context of `aes_encrypt_key256`.
The set-up has given the context its rounds, so that `aes_encrypt` does not fail. -/
def blockCipher (host : ByteOrder) (memory : KeyState) : BlockCipher :=
  fun key x => (aesEncrypt host x (aesEncryptKey256 host key memory)).getD x

/-- The block cipher of the datagrams is the cipher of the standard with eight key words. -/
theorem blockState_blockCipher (host : ByteOrder) (memory : KeyState) (key : AesKey) (x : Block) :
    blockState (blockCipher host memory key x) =
      standard.cipher 8 (keyColumns key.val) (blockState x) := by
  obtain ⟨y, hy, hstate⟩ := aesEncrypt_of_encrypts (aesEncryptKey256_encrypts host key memory) x
  rw [blockCipher, hy, Option.getD_some, hstate]

/-- Different blocks have different encryptions. -/
theorem blockCipher_injective (host : ByteOrder) (memory : KeyState) (key : AesKey) :
    Function.Injective (blockCipher host memory key) := by
  intro x y h
  have hstate := congrArg blockState h
  rw [blockState_blockCipher, blockState_blockCipher] at hstate
  have hcipher := congrArg (standard.invCipher 8 (keyColumns key.val)) hstate
  rw [standard.invCipher_cipher, standard.invCipher_cipher] at hcipher
  exact blockState_injective hcipher

/-- Neither the byte order nor the memory before the set-up shows in a block. -/
theorem blockCipher_eq (host host' : ByteOrder) (memory memory' : KeyState) :
    blockCipher host memory = blockCipher host' memory' := by
  funext key x
  apply blockState_injective
  rw [blockState_blockCipher, blockState_blockCipher]

/-- The block number in the counter buffer of block `k`. -/
def usedNumber (host : ByteOrder) (k : ℕ) : ℕ :=
  match host with
  | .bigEndian => 1
  | .littleEndian => if k % 2 = 0 then 1 else 256

/-- The counter buffer of block `k`, as the increments leave it. -/
def usedBlock (host : ByteOrder) (aes : AesCounter) (sequenceNumber : UInt64) (k : ℕ) : Block :=
  ⟨counterBlock aes.mSecretIV sequenceNumber (usedNumber host k), length_counterBlock ..⟩

/-- To swap two cells again undoes it. -/
theorem incSource_involutive (host : ByteOrder) : Function.Involutive (incSource host) :=
  incSource_incSource host

/-- After some increments each cell holds what was in the cell it comes from. -/
theorem cells_iterate (host : ByteOrder) (m : CounterMemory) (k i : ℕ) :
    ((increment host)^[k] m).cells i = m.cells ((incSource host)^[k] i) := by
  induction k generalizing m with
  | zero => rfl
  | succ k ih =>
    rw [Function.iterate_succ_apply, ih, Function.iterate_succ_apply']
    rfl

/-- One increment on a little-endian host swaps the bytes of the block number. -/
theorem counterBlock_incSource (secretIV : FixedBytes aesCounterSecretIVLen)
    (sequenceNumber : UInt64) {i : ℕ} (hi : i < 16) :
    (counterBlock secretIV sequenceNumber 1)[incSource .littleEndian i]? =
      (counterBlock secretIV sequenceNumber 256)[i]? := by
  have hbefore : (secretIV.val ++ BigEndian.bytes 8 sequenceNumber.toNat).length = 14 := by
    have hIV : secretIV.val.length = 6 := secretIV.property
    rw [List.length_append, hIV, BigEndian.length_bytes]
  rw [counterBlock, counterBlock]
  generalize secretIV.val ++ BigEndian.bytes 8 sequenceNumber.toNat = before at hbefore
  have hcases : i < 14 ∨ i = 14 ∨ i = 15 := by omega
  rcases hcases with hlt | rfl | rfl
  · have hsource : incSource .littleEndian i = i := by
      simp only [incSource]
      grind
    rw [hsource, List.getElem?_append_left (by omega), List.getElem?_append_left (by omega)]
  · rw [List.getElem?_append_right (by rw [hbefore]; decide),
      List.getElem?_append_right (by omega), hbefore]
    rfl
  · rw [List.getElem?_append_right (by rw [hbefore]; decide),
      List.getElem?_append_right (by omega), hbefore]
    rfl

/-- The counter block after some increments is the one used for that block. -/
theorem ctrBuf_iterate (host : ByteOrder) (aes : AesCounter) (sequenceNumber : UInt64)
    (m : CounterMemory) (k : ℕ) :
    ((increment host)^[k] (preparedMemory host aes sequenceNumber m)).ctrBuf =
      usedBlock host aes sequenceNumber k := by
  apply Subtype.ext
  apply List.ext_getElem
  · exact (CounterMemory.ctrBuf _).property.trans (usedBlock ..).property.symm
  intro i hi hused
  have hlt : i < 16 := (usedBlock host aes sequenceNumber k).property ▸ hused
  rw [CounterMemory.getElem_ctrBuf, cells_iterate, preparedMemory_cells]
  have hplace : (counterBlock aes.mSecretIV sequenceNumber 1)[(incSource host)^[k] i]? =
      (counterBlock aes.mSecretIV sequenceNumber (usedNumber host k))[i]? := by
    cases host with
    | bigEndian =>
      have hsource : incSource .bigEndian = id := rfl
      rw [hsource, Function.iterate_id]
      rfl
    | littleEndian =>
      have hinvolutive := incSource_involutive .littleEndian
      rcases Nat.even_or_odd' k with ⟨half, rfl | rfl⟩
      · have hnumber : usedNumber .littleEndian (2 * half) = 1 := if_pos (by omega)
        rw [hinvolutive.iterate_two_mul, id, hnumber]
      · have hnumber : usedNumber .littleEndian (2 * half + 1) = 256 := if_neg (by omega)
        rw [hinvolutive.iterate_two_mul_add_one, hnumber]
        exact counterBlock_incSource _ _ hlt
  have hnumbered : i < (counterBlock aes.mSecretIV sequenceNumber (usedNumber host k)).length :=
    hused
  rw [hplace, List.getElem?_eq_getElem hnumbered, Option.getD_some]
  rfl

/-- A datagram is combined with the blocks of the cipher over the counter buffers. -/
theorem encrypt_blockCipher (host : ByteOrder) (memory : KeyState) (aes : AesCounter)
    {datain : Bytes} {sequenceNumber : UInt64} (hpos : 0 < datain.length)
    (hmax : datain.length ≤ aesMaxPacketOct) (hseq : sequenceNumber ≠ 0xFFFFFFFFFFFFFFFF) :
    aes.encrypt host (blockCipher host memory) datain sequenceNumber =
      .ok (CounterMode.xorBytes datain
        ((List.range (blockCount datain.length)).flatMap fun k =>
          (blockCipher host memory aes.mKey (usedBlock host aes sequenceNumber k)).val)) := by
  rw [AesCounter.encrypt_eq host _ aes hpos hmax hseq, datagramKeystream, aesKeystream,
    CounterMode.keystream, ← List.range_map_iterate, List.flatMap_map]
  simp only [ctrBuf_iterate]

/-- What `encrypt` writes is a text combined with blocks of the standard cipher,
where the schedule is computed anew for every datagram. -/
theorem encrypt_standard (host : ByteOrder) (memory : KeyState) (aes : AesCounter)
    (datain dataout : Bytes) (sequenceNumber : UInt64)
    (h : aes.encrypt host (blockCipher host memory) datain sequenceNumber = .ok dataout) :
    ∃ blocks : ℕ → Block,
      (∀ k, blockState (blocks k) = standard.cipher 8 (keyColumns aes.mKey.val)
        (blockState (usedBlock host aes sequenceNumber k))) ∧
      dataout = CounterMode.xorBytes datain
        ((List.range (blockCount datain.length)).flatMap fun k => (blocks k).val) := by
  obtain ⟨hpos, hmax, hseq⟩ := (AesCounter.encrypt_ok_iff ..).mp ⟨_, h⟩
  rw [encrypt_blockCipher host memory aes hpos hmax hseq] at h
  exact ⟨_, fun k => blockState_blockCipher .., (Except.ok.inj h).symm⟩

/-- A text of three blocks, of which the last is cut short. -/
theorem encrypt_standard_three_blocks : ∃ dataout, ∃ blocks : ℕ → Block,
    AesCounter.encrypt .littleEndian (blockCipher .littleEndian ⟨fun _ => 1, fun _ => 1⟩)
      ⟨.replicate 6 3, .replicate 32 9⟩ (List.replicate 40 5) 7 = .ok dataout ∧
    (∀ k, blockState (blocks k) = standard.cipher 8 (keyColumns (List.replicate 32 9))
      (blockState (usedBlock .littleEndian ⟨.replicate 6 3, .replicate 32 9⟩ 7 k))) ∧
    dataout = CounterMode.xorBytes (List.replicate 40 5) ((List.range (blockCount 40)).flatMap
      fun k => (blocks k).val) := by
  obtain ⟨dataout, hok⟩ := (AesCounter.encrypt_ok_iff .littleEndian
    (blockCipher .littleEndian ⟨fun _ => 1, fun _ => 1⟩) ⟨.replicate 6 3, .replicate 32 9⟩
    (List.replicate 40 5) 7).mpr ⟨by decide, by decide, by decide⟩
  obtain ⟨blocks, hblocks, hout⟩ := encrypt_standard _ _ _ _ _ _ hok
  exact ⟨dataout, blocks, hok, hblocks, hout⟩

/-- A keystream of at least two blocks begins with these two. -/
theorem flatMap_range_two (blocks : ℕ → Bytes) {n : ℕ} (hn : 2 ≤ n) :
    ∃ rest, (List.range n).flatMap blocks = blocks 0 ++ (blocks 1 ++ rest) := by
  obtain ⟨more, rfl⟩ := Nat.exists_eq_add_of_le' hn
  exact ⟨((List.range more).map (· + 2)).flatMap blocks, by
    rw [List.range_succ_eq_map, List.range_succ_eq_map]
    simp [List.flatMap_cons, List.flatMap_map]⟩

/-- The second blocks of the two keystreams differ. -/
theorem usedBlock_one_ne (aes : AesCounter) (sequenceNumber : UInt64) :
    usedBlock .bigEndian aes sequenceNumber 1 ≠ usedBlock .littleEndian aes sequenceNumber 1 := by
  intro h
  have hbytes : BigEndian.bytes 2 1 = BigEndian.bytes 2 256 :=
    List.append_cancel_left (congrArg Subtype.val h)
  exact absurd hbytes (by decide)

/-- Two hosts of different byte order understand each other's datagrams of one
block, and not those of two full blocks or more. -/
theorem encrypt_host (memory memory' : KeyState) (aes : AesCounter) (datain : Bytes)
    (sequenceNumber : UInt64) (hpos : 0 < datain.length)
    (hmax : datain.length ≤ aesMaxPacketOct) (hseq : sequenceNumber ≠ 0xFFFFFFFFFFFFFFFF) :
    (datain.length ≤ 16 →
      aes.encrypt .bigEndian (blockCipher .bigEndian memory) datain sequenceNumber =
        aes.encrypt .littleEndian (blockCipher .littleEndian memory') datain sequenceNumber) ∧
    (32 ≤ datain.length →
      aes.encrypt .bigEndian (blockCipher .bigEndian memory) datain sequenceNumber ≠
        aes.encrypt .littleEndian (blockCipher .littleEndian memory') datain sequenceNumber) := by
  rw [blockCipher_eq .littleEndian .bigEndian memory' memory,
    encrypt_blockCipher .bigEndian memory aes hpos hmax hseq]
  have hlittle := encrypt_blockCipher .littleEndian memory aes hpos hmax hseq
  rw [blockCipher_eq .littleEndian .bigEndian memory memory] at hlittle
  rw [hlittle]
  have hinjective := blockCipher_injective .bigEndian memory aes.mKey
  generalize blockCipher .bigEndian memory aes.mKey = cipher at *
  refine ⟨fun hone => ?_, fun htwo h => ?_⟩
  · have hcount : blockCount datain.length = 1 := by
      simp only [blockCount]
      omega
    have hsame : usedBlock .bigEndian aes sequenceNumber 0 =
        usedBlock .littleEndian aes sequenceNumber 0 := rfl
    rw [hcount, List.range_one, List.flatMap_singleton, List.flatMap_singleton, hsame]
  · have hcount : 2 ≤ blockCount datain.length := by
      simp only [blockCount]
      omega
    obtain ⟨rest, hrest⟩ := flatMap_range_two
      (fun k => (cipher (usedBlock .bigEndian aes sequenceNumber k)).val) hcount
    obtain ⟨rest', hrest'⟩ := flatMap_range_two
      (fun k => (cipher (usedBlock .littleEndian aes sequenceNumber k)).val) hcount
    have hsize : ∀ x : Block, (cipher x).val.length = 16 := fun x => (cipher x).property
    have hfirst : (datain.take 16).length = 16 := by rw [List.length_take]; omega
    have hsecond : ((datain.drop 16).take 16).length = 16 := by
      rw [List.length_take, List.length_drop]
      omega
    have hpieces : datain =
        datain.take 16 ++ ((datain.drop 16).take 16 ++ (datain.drop 16).drop 16) := by
      rw [List.take_append_drop, List.take_append_drop]
    rw [hrest, hrest', hpieces] at h
    have hxor := Except.ok.inj h
    rw [CounterMode.xorBytes_append (by rw [hfirst, hsize]),
      CounterMode.xorBytes_append (by rw [hsecond, hsize]),
      CounterMode.xorBytes_append (by rw [hfirst, hsize]),
      CounterMode.xorBytes_append (by rw [hsecond, hsize])] at hxor
    obtain ⟨-, htail⟩ := List.append_inj hxor (by simp only [CounterMode.length_xorBytes, hsize])
    obtain ⟨hsame, -⟩ := List.append_inj htail (by simp only [CounterMode.length_xorBytes, hsize])
    have hblocks := CounterMode.xorBytes_cancel (by rw [hsecond, hsize]) (by rw [hsecond, hsize]) hsame
    exact usedBlock_one_ne aes sequenceNumber (hinjective (Subtype.ext hblocks))

/-- For two blocks of zeros the two hosts disagree. -/
theorem encrypt_host_two_blocks :
    AesCounter.encrypt .bigEndian (blockCipher .bigEndian ⟨fun _ => 0, fun _ => 0⟩)
        ⟨.replicate 6 0, .replicate 32 0⟩ (List.replicate 32 0) 7 ≠
      AesCounter.encrypt .littleEndian (blockCipher .littleEndian ⟨fun _ => 0, fun _ => 0⟩)
        ⟨.replicate 6 0, .replicate 32 0⟩ (List.replicate 32 0) 7 :=
  (encrypt_host _ _ _ (List.replicate 32 0) 7 (by decide) (by decide) (by decide)).2 (by decide)

end San2.Aes
