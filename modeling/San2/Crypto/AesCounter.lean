import San2.Library.CounterMode
import San2.Utils.CDataPack

/-!
# The counter blocks of a datagram

`AesCounter::encrypt` builds a 16-byte counter buffer from the secret IV, the
sequence number of the datagram and a block counter, and hands it to
`aes_ctr_crypt` together with `aes_custom_inc`. The buffer is the last member of
the object, so the memory behind it is part of the model: the increment runs on
cells addressed from the start of the buffer, and every cell it loads or stores
is recorded.
-/

namespace San2.DragonSRP

open Utils

/-- `AesException` -/
structure AesException where
  what : String
  deriving DecidableEq, Repr

/-- `DREL_AES_BLOCKLEN_BYTES` -/
abbrev aesBlocklenBytes : ℕ := 16

/-- `DREL_AESCOUNTER_SECRETIVLEN` -/
abbrev aesCounterSecretIVLen : ℕ := 6

/-- `DREL_AES_KEYLEN` -/
abbrev aesKeylen : ℕ := 32

/-- `DREL_AES_MAXPACKETOCT` -/
abbrev aesMaxPacketOct : ℕ := 65534

/-- A block of AES. -/
abbrev AesBlock := FixedBytes aesBlocklenBytes

/-- A key of 256 bits. -/
abbrev AesKey := FixedBytes aesKeylen

/-- The AES-256 permutation of one block under a key. -/
abbrev BlockCipher := AesKey → AesBlock → AesBlock

/-- The memory from the first byte of `ctr_buf` on. -/
@[ext] structure CounterMemory where
  cells : ℕ → UInt8
  /-- The offsets that `aes_custom_inc` has loaded from or stored to. -/
  touched : List ℕ
  deriving Inhabited

/-- Code that works on the counter memory and may throw. -/
abbrev CounterM := StateT CounterMemory (Except AesException)

namespace CounterMemory

/-- The sixteen bytes of the array itself. -/
def ctrBuf (m : CounterMemory) : AesBlock :=
  ⟨List.ofFn fun i : Fin aesBlocklenBytes => m.cells i, List.length_ofFn⟩

/-- `memcpy` to an offset. -/
def copy (m : CounterMemory) (position : ℕ) (bytes : Bytes) : CounterMemory :=
  { m with
    cells := fun k =>
      if k < position then m.cells k else bytes[k - position]?.getD (m.cells k) }

/-- The word at an offset, as the host reads it. -/
def word (host : ByteOrder) (m : CounterMemory) (position : ℕ) : UInt16 :=
  UInt16.ofNat (host.load [m.cells position, m.cells (position + 1)])

/-- Record that both bytes of a word have been used. -/
def touch (m : CounterMemory) (position : ℕ) : CounterMemory :=
  { m with touched := m.touched ++ [position, position + 1] }

end CounterMemory

/-- Load the word that a pointer to `std::uint16_t` refers to. -/
def loadUint16 (host : ByteOrder) (position : ℕ) : CounterM UInt16 := do
  let m ← get
  set (m.touch position)
  return m.word host position

/-- Store a word through a pointer to `std::uint16_t`. -/
def storeUint16 (host : ByteOrder) (position : ℕ) (word : UInt16) : CounterM Unit :=
  modify fun m => (m.copy position (host.store 2 word.toNat)).touch position

/-- `aes_custom_inc`, the function that counts up between blocks. -/
def aesCustomInc (host : ByteOrder) : CounterM Unit := do
  let blockCounter := aesCounterSecretIVLen + 8
  storeUint16 host blockCounter (Endian.sanUBe16toh host (← loadUint16 host blockCounter))
  if (← loadUint16 host blockCounter) = 0xFFFF then
    throw ⟨"Block counter exceeded!"⟩
  -- `*blockCounter++` moves the pointer to the next word; the word it pointed to stays.
  let blockCounter := blockCounter + 2
  storeUint16 host blockCounter (Endian.sanUHtobe16 host (← loadUint16 host blockCounter))

/-- `aes_encrypt_ctx`: the key schedule, named by its key, and the position in a
block that an earlier call left unfinished. -/
structure AesEncryptCtx where
  key : AesKey
  bPos : ℕ

/-- The key set-up clears the position in the block and cannot fail. -/
def aesEncryptKey256 (key : AesKey) : AesEncryptCtx := ⟨key, 0⟩

/-- What one call of `aes_ctr_crypt` writes to `obuf`, and the counter blocks it
has passed to the cipher. -/
structure CtrOutput where
  obuf : Bytes
  fed : List AesBlock

/-- `BFR_LENGTH` -/
abbrev bfrLength : ℕ := 8 * aesBlocklenBytes

/-- Copy the counter buffer into `n` successive blocks of the work buffer, with
an increment after each. -/
def aesCtrFill (host : ByteOrder) : ℕ → CounterM (List AesBlock)
  | 0 => return []
  | n + 1 => do
    let block := (← get).ctrBuf
    aesCustomInc host
    return block :: (← aesCtrFill host n)

/-- The loop of `aes_ctr_crypt` over pieces of at most `bfrLength` bytes. -/
def aesCtrLoop (host : ByteOrder) (cipher : BlockCipher) (key : AesKey) (ibuf : Bytes) :
    CounterM CtrOutput :=
  if _ : ibuf = [] then return ⟨[], []⟩
  else do
    let blen := min ibuf.length bfrLength
    let full ← aesCtrFill host (blen / aesBlocklenBytes)
    let m ← get
    let blocks := if blen % aesBlocklenBytes = 0 then full else full ++ [m.ctrBuf]
    let rest ← aesCtrLoop host cipher key (ibuf.drop blen)
    return ⟨CounterMode.xorBytes (ibuf.take blen)
      (blocks.flatMap fun block => (cipher key block).val) ++ rest.obuf, blocks ++ rest.fed⟩
termination_by ibuf.length
decreasing_by
  have hpos := List.length_pos_iff.mpr ‹ibuf ≠ []›
  have hlength : bfrLength = 128 := rfl
  simp only [List.length_drop]
  omega

/-- `aes_ctr_crypt`: the bytes that an earlier call has left first, then whole blocks. -/
def aesCtrCrypt (host : ByteOrder) (cipher : BlockCipher) (ctx : AesEncryptCtx) (ibuf : Bytes) :
    CounterM CtrOutput := do
  if ctx.bPos = 0 then aesCtrLoop host cipher ctx.key ibuf
  else
    -- The rest of a block that an earlier call has begun.
    let block := (← get).ctrBuf
    let count := aesBlocklenBytes - ctx.bPos
    let head := CounterMode.xorBytes (ibuf.take count) ((cipher ctx.key block).val.drop ctx.bPos)
    if ibuf.length ≤ count then return ⟨head, [block]⟩
    else
      aesCustomInc host
      let rest ← aesCtrLoop host cipher ctx.key (ibuf.drop count)
      return ⟨head ++ rest.obuf, block :: rest.fed⟩

/-- The members of an `AesCounter`. -/
structure AesCounter where
  mSecretIV : FixedBytes aesCounterSecretIVLen
  mKey : AesKey
  deriving DecidableEq

namespace AesCounter

/-- The constructor of the class. -/
def create (secretIV key : Bytes) : Except AesException AesCounter :=
  if hIV : secretIV.length = aesCounterSecretIVLen then
    if hkey : key.length = aesKeylen then .ok ⟨⟨secretIV, hIV⟩, ⟨key, hkey⟩⟩
    else .error ⟨"Worng key length"⟩
  else .error ⟨"Worng secretIV length"⟩

/-- Encrypt a text in an object whose counter buffer stands in the given memory.
The result is the memory afterwards with the output and the blocks it used. -/
def encryptIn (host : ByteOrder) (cipher : BlockCipher) (aes : AesCounter) (datain : Bytes)
    (sequenceNumber : UInt64) : CounterM CtrOutput := do
  modify fun m => m.copy 0 (List.replicate aesBlocklenBytes 0)
  if datain.length = 0 ∨ aesMaxPacketOct < datain.length then
    throw ⟨"Invalid input plaintext message length"⟩
  if sequenceNumber = 0xFFFFFFFFFFFFFFFF then
    throw ⟨"Packet counter exceeded - IV"⟩
  modify fun m => m.copy 0 aes.mSecretIV.val
  let beSequencenumber := Endian.sanSBe64toh host sequenceNumber.toInt64
  modify fun m => m.copy aesCounterSecretIVLen (host.store 8 beSequencenumber.toNat)
  let blockCounter := Endian.sanUHtobe16 host 1
  modify fun m => m.copy (aesCounterSecretIVLen + 8) (host.store 2 blockCounter.toNat)
  aesCtrCrypt host cipher (aesEncryptKey256 aes.mKey) datain

/-- The text that one call of `encrypt` writes. What the memory behind the buffer
held before does not matter, see `encryptIn_obuf`. The stores of `aes_custom_inc` to the
two bytes behind the buffer are dropped here: in the 64-bit layout of an object they hit
padding, which nothing reads. -/
def encrypt (host : ByteOrder) (cipher : BlockCipher) (aes : AesCounter) (datain : Bytes)
    (sequenceNumber : UInt64) : Except AesException Bytes :=
  ((aes.encryptIn host cipher datain sequenceNumber).run ⟨fun _ => 0, []⟩).map
    fun result => result.1.obuf

end AesCounter

/-- Where the increment takes each cell from: on a little-endian host it swaps
the bytes of the block counter and of the word behind the buffer. -/
def incSource (host : ByteOrder) (k : ℕ) : ℕ :=
  match host with
  | .bigEndian => k
  | .littleEndian => if k = 14 then 15 else if k = 15 then 14 else
      if k = 16 then 17 else if k = 17 then 16 else k

/-- The effect of one increment that does not throw. -/
def increment (host : ByteOrder) (m : CounterMemory) : CounterMemory where
  cells k := m.cells (incSource host k)
  touched := m.touched ++ [14, 15, 14, 15, 14, 15, 16, 17, 16, 17]

/-- The block counter has not reached its last value. -/
def CounterMemory.Running (m : CounterMemory) : Prop :=
  ¬ (m.cells 14 = 0xFF ∧ m.cells 15 = 0xFF)

/-- Converting a word in memory between host and big-endian order swaps its two
bytes on a little-endian host and changes nothing on a big-endian one. -/
theorem store_sanUBe16toh_load (host : ByteOrder) (a b : UInt8) :
    host.store 2 (Endian.sanUBe16toh host (UInt16.ofNat (host.load [a, b]))).toNat =
      match host with
      | .bigEndian => [a, b]
      | .littleEndian => [b, a] := by
  have hlength : BigEndian.value [a, b] < 256 ^ 2 := BigEndian.value_lt [a, b]
  have hvalue : BigEndian.value [a, b] < 2 ^ 16 := hlength
  have hbytes := BigEndian.bytes_value [a, b]
  rw [Endian.sanUBe16toh_load host rfl, UInt16.toNat_ofNat_of_lt' hvalue]
  cases host with
  | bigEndian => exact hbytes
  | littleEndian =>
    simp only [ByteOrder.store]
    exact congrArg List.reverse hbytes

/-- A load reads the word and touches its cells. -/
@[simp] theorem loadUint16_run (host : ByteOrder) (position : ℕ) (m : CounterMemory) :
    (loadUint16 host position).run m = .ok (m.word host position, m.touch position) := rfl

/-- A store writes the word and touches its cells. -/
@[simp] theorem storeUint16_run (host : ByteOrder) (position : ℕ) (word : UInt16)
    (m : CounterMemory) :
    (storeUint16 host position word).run m =
      .ok ((), (m.copy position (host.store 2 word.toNat)).touch position) := rfl

/-- A word loaded, converted between host and big-endian order, and stored back. -/
def CounterMemory.convert (host : ByteOrder) (m : CounterMemory) (position : ℕ) :
    CounterMemory :=
  ((m.touch position).copy position
    (host.store 2 (Endian.sanUBe16toh host (m.word host position)).toNat)).touch position

/-- A conversion in place swaps the two cells of the word on a little-endian
host and leaves every other cell alone. -/
theorem CounterMemory.convert_cells (host : ByteOrder) (m : CounterMemory) (position k : ℕ) :
    (m.convert host position).cells k =
      if k = position then m.cells (if host = .littleEndian then position + 1 else position)
      else if k = position + 1 then
        m.cells (if host = .littleEndian then position else position + 1)
      else m.cells k := by
  simp only [convert, touch, copy, word, store_sanUBe16toh_load]
  rcases Nat.lt_trichotomy k position with h | h | h
  · simp [h, show k ≠ position by omega, show k ≠ position + 1 by omega]
  · cases host <;> simp [h]
  · obtain ⟨j, rfl⟩ := Nat.exists_eq_add_of_lt h
    have hsub : position + j + 1 - position = j + 1 := by omega
    cases j with
    | zero => cases host <;> simp
    | succ j => cases host <;> simp [hsub] <;> omega

/-- After the first conversion the host reads the block counter, which equals
its last value only when both bytes are at theirs. -/
theorem word_convert_ne {host : ByteOrder} {m : CounterMemory} (h : m.Running) :
    (m.convert host 14).word host 14 ≠ 0xFFFF := by
  have hword : (m.convert host 14).word host 14 =
      UInt16.ofNat (BigEndian.value [m.cells 14, m.cells 15]) := by
    simp only [CounterMemory.word, CounterMemory.convert_cells]
    cases host <;> simp [ByteOrder.load]
  have hvalue : BigEndian.value [m.cells 14, m.cells 15] =
      256 * (m.cells 14).toNat + (m.cells 15).toNat := by simp [BigEndian.value]
  have ha := (m.cells 14).toNat_lt
  have hb := (m.cells 15).toNat_lt
  intro heq
  rw [hword] at heq
  have hnat := congrArg UInt16.toNat heq
  rw [UInt16.toNat_ofNat', hvalue] at hnat
  have hmod : (256 * (m.cells 14).toNat + (m.cells 15).toNat) % 2 ^ 16 =
      256 * (m.cells 14).toNat + (m.cells 15).toNat := Nat.mod_eq_of_lt (by omega)
  have hlast : (0xFFFF : UInt16).toNat = 65535 := rfl
  rw [hmod, hlast] at hnat
  refine h ⟨UInt8.toNat_inj.mp ?_, UInt8.toNat_inj.mp ?_⟩
  · change (m.cells 14).toNat = 255
    omega
  · change (m.cells 15).toNat = 255
    omega

/-- The increment converts the word of the block counter and then the word
behind the buffer. -/
theorem convert_convert (host : ByteOrder) (m : CounterMemory) :
    ((m.convert host 14).touch 14).convert host 16 = increment host m := by
  have hcells : ∀ k, (((m.convert host 14).touch 14).convert host 16).cells k =
      (increment host m).cells k := by
    intro k
    have htouch : ((m.convert host 14).touch 14).cells = (m.convert host 14).cells := rfl
    simp only [CounterMemory.convert_cells, htouch, increment, incSource]
    cases host
    · grind
    · grind
  have htouched : (((m.convert host 14).touch 14).convert host 16).touched =
      (increment host m).touched := by
    simp [CounterMemory.convert, CounterMemory.touch, CounterMemory.copy, increment]
  exact CounterMemory.ext (funext hcells) htouched

/-- Unless the block counter is at its last value, the increment returns, and
its only effect is that of `increment`. -/
theorem aesCustomInc_run (host : ByteOrder) {m : CounterMemory} (h : m.Running) :
    (aesCustomInc host).run m = .ok ((), increment host m) := by
  unfold aesCustomInc
  simp only [StateT.run_bind, loadUint16_run, storeUint16_run]
  simp only [bind, Except.bind]
  split
  · rename_i hlast
    exact absurd hlast (word_convert_ne h)
  · rw [← convert_convert]
    rfl

/-- Swapping the same cells again restores them. -/
theorem incSource_incSource (host : ByteOrder) (k : ℕ) : incSource host (incSource host k) = k := by
  cases host
  · rfl
  · simp only [incSource]
    grind

/-- The block counter never reaches its last value by increments. -/
theorem CounterMemory.Running.increment {m : CounterMemory} (h : m.Running) (host : ByteOrder) :
    (increment host m).Running := by
  rintro ⟨ha, hb⟩
  cases host with
  | bigEndian => exact h ⟨ha, hb⟩
  | littleEndian => exact h ⟨hb, ha⟩

/-- An increment keeps the counter running. -/
theorem CounterMemory.Running.iterate {m : CounterMemory} (h : m.Running) (host : ByteOrder)
    (n : ℕ) : ((DragonSRP.increment host)^[n] m).Running := by
  induction n with
  | zero => exact h
  | succ n ih =>
    rw [Function.iterate_succ_apply']
    exact ih.increment host

/-! ## What counter mode does -/

/-- Filling `n` blocks copies the buffer before each of `n` increments. -/
theorem aesCtrFill_run (host : ByteOrder) (n : ℕ) {m : CounterMemory} (h : m.Running) :
    (aesCtrFill host n).run m =
      .ok ((List.iterate (increment host) m n).map CounterMemory.ctrBuf,
        (increment host)^[n] m) := by
  induction n generalizing m with
  | zero => rfl
  | succ n ih =>
    simp only [aesCtrFill, StateT.run_bind, StateT.run_get, StateT.run_pure]
    simp only [pure, Except.pure, bind, Except.bind, aesCustomInc_run host h,
      ih (h.increment host)]
    rfl

/-- The keystream of a counter memory under a key. -/
def aesKeystream (host : ByteOrder) (cipher : BlockCipher) (key : AesKey) (m : CounterMemory)
    (n : ℕ) : Bytes :=
  CounterMode.keystream (increment host) (fun m => (cipher key m.ctrBuf).val) m n

/-- The number of blocks a text of the given length uses. -/
def blockCount (len : ℕ) : ℕ := (len + 15) / 16

/-- The blocks of one piece: the full ones, and the buffer once more when the
piece ends inside a block. -/
theorem fed_piece (host : ByteOrder) (m : CounterMemory) (blen : ℕ) :
    (if blen % 16 = 0 then
        (List.iterate (increment host) m (blen / 16)).map CounterMemory.ctrBuf
      else (List.iterate (increment host) m (blen / 16)).map CounterMemory.ctrBuf ++
        [((increment host)^[blen / 16] m).ctrBuf]) =
      (List.iterate (increment host) m (blockCount blen)).map CounterMemory.ctrBuf := by
  by_cases hfull : blen % 16 = 0
  · have hcount : blockCount blen = blen / 16 := by
      simp only [blockCount]
      omega
    rw [if_pos hfull, hcount]
  · have hcount : blockCount blen = blen / 16 + 1 := by
      simp only [blockCount]
      omega
    rw [if_neg hfull, hcount, List.iterate_add, List.map_append]
    rfl

/-- The cipher applied to the blocks of a piece is a part of the keystream. -/
theorem flatMap_fed (host : ByteOrder) (cipher : BlockCipher) (key : AesKey) (m : CounterMemory)
    (n : ℕ) :
    ((List.iterate (increment host) m n).map CounterMemory.ctrBuf).flatMap
      (fun block => (cipher key block).val) = aesKeystream host cipher key m n := by
  rw [List.flatMap_map]
  rfl

/-- A keystream of `n` blocks has `16 * n` bytes. -/
theorem length_aesKeystream (host : ByteOrder) (cipher : BlockCipher) (key : AesKey)
    (m : CounterMemory) (n : ℕ) : (aesKeystream host cipher key m n).length = n * 16 :=
  CounterMode.length_keystream (increment host)
    (fun m : CounterMemory => (cipher key m.ctrBuf).property) m n

/-- The keystream goes on from the counter that it has reached. -/
theorem aesKeystream_add (host : ByteOrder) (cipher : BlockCipher) (key : AesKey)
    (m : CounterMemory) (a b : ℕ) :
    aesKeystream host cipher key m (a + b) =
      aesKeystream host cipher key m a ++
        aesKeystream host cipher key ((increment host)^[a] m) b :=
  CounterMode.keystream_add _ _ m a b

/-- The loop combines the text with the keystream of successive counter blocks
and increments the counter once after each full block. -/
theorem aesCtrLoop_run (host : ByteOrder) (cipher : BlockCipher) (key : AesKey) (ibuf : Bytes)
    {m : CounterMemory} (h : m.Running) :
    (aesCtrLoop host cipher key ibuf).run m = .ok
      (⟨CounterMode.xorBytes ibuf (aesKeystream host cipher key m (blockCount ibuf.length)),
        (List.iterate (increment host) m (blockCount ibuf.length)).map CounterMemory.ctrBuf⟩,
      (increment host)^[ibuf.length / 16] m) := by
  induction hlen : ibuf.length using Nat.strong_induction_on generalizing ibuf m with
  | h len ih =>
    rw [aesCtrLoop]
    by_cases hnil : ibuf = []
    · subst hnil
      subst hlen
      rfl
    · rw [dif_neg hnil]
      have hpos : 0 < ibuf.length := List.length_pos_iff.mpr hnil
      have hmax : bfrLength = 128 := rfl
      generalize hblen : min ibuf.length bfrLength = blen
      have hrest := ih (len - blen) (by omega) (ibuf.drop blen)
        (h.iterate host (blen / 16)) (by rw [List.length_drop, hlen])
      simp only [StateT.run_bind, StateT.run_get, StateT.run_pure]
      simp only [pure, Except.pure, bind, Except.bind, aesCtrFill_run host _ h, hrest,
        fed_piece]
      rw [flatMap_fed]
      rcases Nat.lt_or_ge 128 len with hlong | hshort
      · -- A whole work buffer: eight increments lead to the counter of the next piece.
        obtain ⟨rest, rfl⟩ := Nat.exists_eq_add_of_lt hlong
        obtain rfl : blen = 128 := by omega
        have hsub : 128 + rest + 1 - 128 = rest + 1 := by omega
        have hcount : blockCount (128 + rest + 1) = 8 + blockCount (rest + 1) := by
          simp only [blockCount]
          omega
        have hincs : (128 + rest + 1) / 16 = (rest + 1) / 16 + 8 := by omega
        have htake : (ibuf.take 128).length = (aesKeystream host cipher key m 8).length := by
          rw [length_aesKeystream, List.length_take]
          omega
        have hfull : blockCount 128 = 8 := rfl
        have hstep : 128 / 16 = 8 := rfl
        rw [hsub, hcount, hincs, hfull, hstep, Function.iterate_add_apply, List.iterate_add,
          List.map_append, aesKeystream_add, ← CounterMode.xorBytes_append htake,
          List.take_append_drop]
      · -- The last piece.
        obtain rfl : blen = len := by omega
        rw [Nat.sub_self, List.drop_of_length_le hlen.le, List.take_of_length_le hlen.le]
        simp [blockCount, CounterMode.xorBytes]

/-- The counter block that belongs to the block with the given number: secret
IV, sequence number and block number in big-endian order. -/
def counterBlock (secretIV : FixedBytes aesCounterSecretIVLen) (sequenceNumber : UInt64)
    (number : ℕ) : Bytes :=
  secretIV.val ++ BigEndian.bytes 8 sequenceNumber.toNat ++ BigEndian.bytes 2 number

/-- The memory that `encrypt` hands to `aes_ctr_crypt`. -/
def preparedMemory (host : ByteOrder) (aes : AesCounter) (sequenceNumber : UInt64)
    (m : CounterMemory) : CounterMemory :=
  ((((m.copy 0 (List.replicate aesBlocklenBytes 0)).copy 0 aes.mSecretIV.val).copy
    aesCounterSecretIVLen
      (host.store 8 (Endian.sanSBe64toh host sequenceNumber.toInt64).toNat)).copy
    (aesCounterSecretIVLen + 8) (host.store 2 (Endian.sanUHtobe16 host 1).toNat))

/-- Two copies to adjacent places are one copy. -/
theorem CounterMemory.copy_copy (m : CounterMemory) {position next : ℕ} {a b : Bytes}
    (hnext : next = position + a.length) :
    (m.copy position a).copy next b = m.copy position (a ++ b) := by
  subst hnext
  refine CounterMemory.ext (funext fun k => ?_) rfl
  simp only [copy]
  by_cases hbefore : k < position
  · simp [hbefore]
    omega
  · by_cases hfirst : k < position + a.length
    · rw [if_pos hfirst, if_neg hbefore, if_neg hbefore,
        List.getElem?_append_left (by omega : k - position < a.length)]
    · have hnone : a[k - position]? = none := List.getElem?_eq_none (by omega)
      rw [if_neg hfirst, if_neg hbefore, if_neg hbefore, hnone,
        List.getElem?_append_right (by omega : a.length ≤ k - position), Nat.sub_sub]
      rfl

/-- A counter block has 16 bytes. -/
theorem length_counterBlock (secretIV : FixedBytes aesCounterSecretIVLen)
    (sequenceNumber : UInt64) (number : ℕ) :
    (counterBlock secretIV sequenceNumber number).length = 16 := by
  simp [counterBlock, secretIV.property]

/-- The buffer starts as the counter block of block number one; the memory
behind it is left alone. -/
theorem preparedMemory_cells (host : ByteOrder) (aes : AesCounter) (sequenceNumber : UInt64)
    (m : CounterMemory) (k : ℕ) :
    (preparedMemory host aes sequenceNumber m).cells k =
      (counterBlock aes.mSecretIV sequenceNumber 1)[k]?.getD (m.cells k) := by
  have hIV : aes.mSecretIV.val.length = 6 := aes.mSecretIV.property
  have hlength := length_counterBlock aes.mSecretIV sequenceNumber 1
  rw [preparedMemory, Endian.store_sanSBe64toh, Endian.store_sanUHtobe16,
    CounterMemory.copy_copy _ (by simp), CounterMemory.copy_copy _ (by simp [hIV]),
    ← List.append_assoc]
  change (counterBlock aes.mSecretIV sequenceNumber 1)[k]?.getD
    ((List.replicate 16 0)[k]?.getD (m.cells k)) = _
  by_cases hk : k < 16
  · simp [hk, hlength]
  · simp [hk, hlength]

/-- The cells of the block counter start as zero and one. -/
theorem preparedMemory_counter (host : ByteOrder) (aes : AesCounter) (sequenceNumber : UInt64)
    (m : CounterMemory) :
    (preparedMemory host aes sequenceNumber m).cells 14 = 0 ∧
      (preparedMemory host aes sequenceNumber m).cells 15 = 1 := by
  have hbefore : (aes.mSecretIV.val ++ BigEndian.bytes 8 sequenceNumber.toNat).length = 14 := by
    have hIV : aes.mSecretIV.val.length = 6 := aes.mSecretIV.property
    simp
    omega
  rw [preparedMemory_cells, preparedMemory_cells, counterBlock]
  constructor
  · rw [List.getElem?_append_right (by omega), hbefore]
    rfl
  · rw [List.getElem?_append_right (by omega), hbefore]
    rfl

/-- `encrypt` prepares a counter that can be incremented. -/
theorem preparedMemory_running (host : ByteOrder) (aes : AesCounter) (sequenceNumber : UInt64)
    (m : CounterMemory) : (preparedMemory host aes sequenceNumber m).Running := by
  obtain ⟨hfirst, -⟩ := preparedMemory_counter host aes sequenceNumber m
  rintro ⟨hlast, -⟩
  rw [hfirst] at hlast
  exact absurd hlast (by decide)

/-- A call in the accepted range returns the text combined with the keystream of
the prepared memory, after one increment for each full block. -/
theorem AesCounter.encryptIn_run (host : ByteOrder) (cipher : BlockCipher) (aes : AesCounter)
    {datain : Bytes} {sequenceNumber : UInt64} (hpos : 0 < datain.length)
    (hmax : datain.length ≤ aesMaxPacketOct) (hseq : sequenceNumber ≠ 0xFFFFFFFFFFFFFFFF)
    (m : CounterMemory) :
    (aes.encryptIn host cipher datain sequenceNumber).run m =
      let start := preparedMemory host aes sequenceNumber m
      .ok (⟨CounterMode.xorBytes datain
          (aesKeystream host cipher aes.mKey start (blockCount datain.length)),
        (List.iterate (increment host) start (blockCount datain.length)).map
          CounterMemory.ctrBuf⟩,
      (increment host)^[datain.length / 16] start) := by
  have hrange : ¬ (datain.length = 0 ∨ aesMaxPacketOct < datain.length) := by omega
  have hloop := aesCtrLoop_run host cipher aes.mKey datain
    (preparedMemory_running host aes sequenceNumber m)
  simp only [encryptIn, hrange, hseq, if_false]
  exact hloop

/-- The keystream of one datagram. -/
def datagramKeystream (host : ByteOrder) (cipher : BlockCipher) (aes : AesCounter)
    (sequenceNumber : UInt64) (len : ℕ) : Bytes :=
  aesKeystream host cipher aes.mKey (preparedMemory host aes sequenceNumber ⟨fun _ => 0, []⟩)
    (blockCount len)

/-- The keystream depends only on the sixteen cells of the buffer. -/
theorem aesKeystream_congr (host : ByteOrder) (cipher : BlockCipher) (key : AesKey)
    {m m' : CounterMemory} (h : ∀ k < 16, m.cells k = m'.cells k) (n : ℕ) :
    aesKeystream host cipher key m n = aesKeystream host cipher key m' n := by
  have hinside : ∀ k < 16, incSource host k < 16 := by
    intro k hk
    cases host
    · exact hk
    · simp only [incSource]
      grind
  refine CounterMode.keystream_congr (r := fun m m' => ∀ k < 16, m.cells k = m'.cells k)
    ?_ ?_ h n
  · intro m m' hcells k hk
    exact hcells _ (hinside k hk)
  · intro m m' hcells
    have hbuf : m.ctrBuf = m'.ctrBuf := by
      apply Subtype.ext
      simp only [CounterMemory.ctrBuf]
      exact congrArg List.ofFn (funext fun i => hcells i i.isLt)
    simp only [hbuf]

namespace AesCounter

/-- In the accepted range the output is the text combined with the keystream of
its datagram, whatever the memory held before. -/
theorem encryptIn_obuf (host : ByteOrder) (cipher : BlockCipher) (aes : AesCounter)
    {datain : Bytes} {sequenceNumber : UInt64} (hpos : 0 < datain.length)
    (hmax : datain.length ≤ aesMaxPacketOct) (hseq : sequenceNumber ≠ 0xFFFFFFFFFFFFFFFF)
    (m : CounterMemory) :
    ((aes.encryptIn host cipher datain sequenceNumber).run m).map
        (fun result => result.1.obuf) =
      .ok (CounterMode.xorBytes datain
        (datagramKeystream host cipher aes sequenceNumber datain.length)) := by
  rw [encryptIn_run host cipher aes hpos hmax hseq m]
  have hcells : ∀ k < 16, (preparedMemory host aes sequenceNumber m).cells k =
      (preparedMemory host aes sequenceNumber ⟨fun _ => 0, []⟩).cells k := by
    intro k hk
    have hlength := length_counterBlock aes.mSecretIV sequenceNumber 1
    rw [preparedMemory_cells, preparedMemory_cells, List.getElem?_eq_getElem (by omega)]
    rfl
  simp only [Except.map, datagramKeystream,
    aesKeystream_congr host cipher aes.mKey hcells (blockCount datain.length)]

/-- What `encrypt` returns for every text that it accepts. -/
theorem encrypt_eq (host : ByteOrder) (cipher : BlockCipher) (aes : AesCounter)
    {datain : Bytes} {sequenceNumber : UInt64} (hpos : 0 < datain.length)
    (hmax : datain.length ≤ aesMaxPacketOct) (hseq : sequenceNumber ≠ 0xFFFFFFFFFFFFFFFF) :
    aes.encrypt host cipher datain sequenceNumber =
      .ok (CounterMode.xorBytes datain
        (datagramKeystream host cipher aes sequenceNumber datain.length)) :=
  encryptIn_obuf host cipher aes hpos hmax hseq ⟨fun _ => 0, []⟩

/-- Outside the accepted range `encrypt` throws. -/
theorem encrypt_error (host : ByteOrder) (cipher : BlockCipher) (aes : AesCounter)
    (datain : Bytes) (sequenceNumber : UInt64)
    (h : datain.length = 0 ∨ aesMaxPacketOct < datain.length ∨
      sequenceNumber = 0xFFFFFFFFFFFFFFFF) :
    ∃ e, aes.encrypt host cipher datain sequenceNumber = .error e := by
  by_cases hrange : datain.length = 0 ∨ aesMaxPacketOct < datain.length
  · refine ⟨⟨"Invalid input plaintext message length"⟩, ?_⟩
    simp only [encrypt, encryptIn, hrange, if_true]
    rfl
  · have hseq : sequenceNumber = 0xFFFFFFFFFFFFFFFF := by
      rcases h with h | h | h
      · exact absurd (Or.inl h) hrange
      · exact absurd (Or.inr h) hrange
      · exact h
    refine ⟨⟨"Packet counter exceeded - IV"⟩, ?_⟩
    simp only [encrypt, encryptIn, hrange, hseq, if_true, if_false]
    rfl

/-- The accepted range, and the length of what is returned. -/
theorem encrypt_ok_iff (host : ByteOrder) (cipher : BlockCipher) (aes : AesCounter)
    (datain : Bytes) (sequenceNumber : UInt64) :
    (∃ dataout, aes.encrypt host cipher datain sequenceNumber = .ok dataout) ↔
      0 < datain.length ∧ datain.length ≤ aesMaxPacketOct ∧
        sequenceNumber ≠ 0xFFFFFFFFFFFFFFFF := by
  constructor
  · rintro ⟨dataout, hok⟩
    by_contra hrange
    obtain ⟨e, herror⟩ := encrypt_error host cipher aes datain sequenceNumber (by grind)
    rw [herror] at hok
    exact absurd hok (by simp)
  · rintro ⟨hpos, hmax, hseq⟩
    exact ⟨_, encrypt_eq host cipher aes hpos hmax hseq⟩

/-- Encrypting an encrypted text under the same sequence number gives the text
back: the other side decrypts with `encrypt`. -/
theorem encrypt_encrypt (host : ByteOrder) (cipher : BlockCipher) (aes : AesCounter)
    {datain dataout : Bytes} {sequenceNumber : UInt64}
    (h : aes.encrypt host cipher datain sequenceNumber = .ok dataout) :
    dataout.length = datain.length ∧
      aes.encrypt host cipher dataout sequenceNumber = .ok datain := by
  obtain ⟨hpos, hmax, hseq⟩ := (encrypt_ok_iff host cipher aes datain sequenceNumber).mp ⟨_, h⟩
  rw [encrypt_eq host cipher aes hpos hmax hseq] at h
  have hkeystream : datain.length ≤
      (datagramKeystream host cipher aes sequenceNumber datain.length).length := by
    rw [datagramKeystream, length_aesKeystream, blockCount]
    omega
  have hlength : dataout.length = datain.length := by
    rw [← Except.ok.inj h, CounterMode.length_xorBytes]
    omega
  refine ⟨hlength, ?_⟩
  rw [encrypt_eq host cipher aes (by omega) (by omega) hseq, hlength, ← Except.ok.inj h,
    CounterMode.xorBytes_xorBytes hkeystream]

end AesCounter

/-- The buffer of a memory, byte by byte. -/
theorem CounterMemory.getElem_ctrBuf (m : CounterMemory) {k : ℕ}
    (hk : k < m.ctrBuf.val.length) : m.ctrBuf.val[k] = m.cells k :=
  List.getElem_ofFn _

/-- The first counter block has the number 1 behind IV and sequence number. -/
theorem ctrBuf_preparedMemory (host : ByteOrder) (aes : AesCounter) (sequenceNumber : UInt64)
    (m : CounterMemory) :
    (preparedMemory host aes sequenceNumber m).ctrBuf.val =
      counterBlock aes.mSecretIV sequenceNumber 1 := by
  have hlength := length_counterBlock aes.mSecretIV sequenceNumber 1
  apply List.ext_getElem
  · rw [hlength]
    exact (preparedMemory host aes sequenceNumber m).ctrBuf.property
  · intro k hk hblock
    rw [CounterMemory.getElem_ctrBuf, preparedMemory_cells, List.getElem?_eq_getElem hblock]
    rfl

/-- On a big-endian host an increment leaves the buffer as it is. -/
theorem ctrBuf_increment_bigEndian (m : CounterMemory) :
    (increment .bigEndian m).ctrBuf = m.ctrBuf := rfl

/-- On a little-endian host two increments leave the buffer as it is. -/
theorem ctrBuf_increment_littleEndian (m : CounterMemory) :
    (increment .littleEndian (increment .littleEndian m)).ctrBuf = m.ctrBuf := by
  apply Subtype.ext
  simp only [CounterMemory.ctrBuf, increment, incSource_incSource]

/-- No increment leads from the first counter block to the second. -/
theorem ctrBuf_increment_ne (host : ByteOrder) (aes : AesCounter) (sequenceNumber : UInt64)
    (m : CounterMemory) :
    (increment host (preparedMemory host aes sequenceNumber m)).ctrBuf.val ≠
      counterBlock aes.mSecretIV sequenceNumber 2 := by
  obtain ⟨hfirst, hsecond⟩ := preparedMemory_counter host aes sequenceNumber m
  intro heq
  have hlength := length_counterBlock aes.mSecretIV sequenceNumber 2
  have hbefore : (aes.mSecretIV.val ++ BigEndian.bytes 8 sequenceNumber.toNat).length = 14 := by
    have hIV : aes.mSecretIV.val.length = 6 := aes.mSecretIV.property
    simp
    omega
  have hget : (increment host (preparedMemory host aes sequenceNumber m)).cells 15 = 2 := by
    rw [← CounterMemory.getElem_ctrBuf _ (by rw [heq, hlength]; decide)]
    simp only [heq, counterBlock]
    rw [List.getElem_append_right (by omega)]
    simp only [hbefore]
    rfl
  cases host with
  | bigEndian =>
    have hone : (1 : UInt8) = 2 := hsecond.symm.trans hget
    exact absurd hone (by decide)
  | littleEndian =>
    have hzero : (0 : UInt8) = 2 := hfirst.symm.trans hget
    exact absurd hzero (by decide)

/-- The longest text whose counter blocks are pairwise distinct. -/
def distinctLimit : ByteOrder → ℕ
  | .bigEndian => 16
  | .littleEndian => 32

/-- The blocks repeat with a period of one block on a big-endian host and of two
blocks on a little-endian host. -/
theorem nodup_fed_iff (host : ByteOrder) (aes : AesCounter) (sequenceNumber : UInt64)
    (m : CounterMemory) (len : ℕ) :
    ((List.iterate (increment host) (preparedMemory host aes sequenceNumber m)
      (blockCount len)).map CounterMemory.ctrBuf).Nodup ↔ len ≤ distinctLimit host := by
  generalize hstart : preparedMemory host aes sequenceNumber m = start
  cases host with
  | bigEndian =>
    constructor
    · intro hnodup
      by_contra hlong
      refine CounterMode.not_nodup_of_period 1 ?_ ?_ ?_ hnodup
      · decide
      · exact ctrBuf_increment_bigEndian start
      · simp only [distinctLimit, blockCount] at *
        omega
    · intro hshort
      have hcount : blockCount len = 0 ∨ blockCount len = 1 := by
        simp only [distinctLimit, blockCount] at *
        omega
      rcases hcount with hcount | hcount <;> simp [hcount, List.iterate]
  | littleEndian =>
    constructor
    · intro hnodup
      by_contra hlong
      refine CounterMode.not_nodup_of_period 2 ?_ ?_ ?_ hnodup
      · decide
      · exact ctrBuf_increment_littleEndian start
      · simp only [distinctLimit, blockCount] at *
        omega
    · intro hshort
      have hcount : blockCount len = 0 ∨ blockCount len = 1 ∨ blockCount len = 2 := by
        simp only [distinctLimit, blockCount] at *
        omega
      have hne : start.ctrBuf ≠ (increment .littleEndian start).ctrBuf := by
        obtain ⟨hfirst, hsecond⟩ := preparedMemory_counter .littleEndian aes sequenceNumber m
        rw [hstart] at hfirst hsecond
        intro heq
        have hcell := CounterMemory.getElem_ctrBuf start
          (k := 14) (by rw [start.ctrBuf.property]; decide)
        simp only [heq] at hcell
        rw [CounterMemory.getElem_ctrBuf] at hcell
        have hone : (1 : UInt8) = 0 := hsecond.symm.trans (hcell.trans hfirst)
        exact absurd hone (by decide)
      rcases hcount with hcount | hcount | hcount <;> simp [hcount, List.iterate, hne]

/-- What the counter blocks of one datagram must satisfy: they are pairwise
distinct, the buffer after `i` increments carries the block number `i + 1` for
every `i` up to the number of full blocks, and the increments stay inside the
sixteen bytes of the buffer. -/
structure FreshCounterBlocks (aes : AesCounter) (sequenceNumber : UInt64) (len : ℕ)
    (out : CtrOutput) (m : CounterMemory) : Prop where
  distinct : out.fed.Nodup
  fed : ∀ (i : ℕ) (hi : i < out.fed.length),
    out.fed[i].val = counterBlock aes.mSecretIV sequenceNumber (i + 1)
  final : m.ctrBuf.val = counterBlock aes.mSecretIV sequenceNumber (len / 16 + 1)
  inside : ∀ offset ∈ m.touched, offset < aesBlocklenBytes

/-- A text without a full block meets the requirement. -/
theorem freshCounterBlocks_of_lt (host : ByteOrder) (aes : AesCounter) (sequenceNumber : UInt64)
    {len : ℕ} (hshort : len < 16) (obuf : Bytes) (cells : ℕ → UInt8) :
    let start := preparedMemory host aes sequenceNumber ⟨cells, []⟩
    FreshCounterBlocks aes sequenceNumber len
      ⟨obuf, (List.iterate (increment host) start (blockCount len)).map CounterMemory.ctrBuf⟩
      ((increment host)^[len / 16] start) := by
  intro start
  have hbuf : start.ctrBuf.val = counterBlock aes.mSecretIV sequenceNumber 1 :=
    ctrBuf_preparedMemory host aes sequenceNumber ⟨cells, []⟩
  have hincs : len / 16 = 0 := by omega
  have hlimit : len ≤ distinctLimit host := by
    cases host <;> simp only [distinctLimit] <;> omega
  refine ⟨(nodup_fed_iff host aes sequenceNumber _ len).mpr hlimit, ?_, ?_, ?_⟩
  · intro i hi
    have hzero : i = 0 := by
      simp only [List.length_map, List.length_iterate, blockCount] at hi
      omega
    subst hzero
    simpa using hbuf
  · rw [hincs]
    exact hbuf
  · rw [hincs]
    intro offset hoffset
    exact absurd hoffset List.not_mem_nil

/-- A full block makes an increment that misses the second counter block. -/
theorem not_freshCounterBlocks (host : ByteOrder) (aes : AesCounter) (sequenceNumber : UInt64)
    {len : ℕ} (hlong : 16 ≤ len) (obuf : Bytes) (cells : ℕ → UInt8) :
    let start := preparedMemory host aes sequenceNumber ⟨cells, []⟩
    ¬ FreshCounterBlocks aes sequenceNumber len
      ⟨obuf, (List.iterate (increment host) start (blockCount len)).map CounterMemory.ctrBuf⟩
      ((increment host)^[len / 16] start) := by
  rintro start ⟨-, hfed, hfinal, -⟩
  have hne : (increment host start).ctrBuf.val ≠ counterBlock aes.mSecretIV sequenceNumber 2 :=
    ctrBuf_increment_ne host aes sequenceNumber ⟨cells, []⟩
  rcases Nat.lt_or_ge 16 len with hmore | hexact
  · -- The buffer after the increment is fed to the cipher.
    have hlength : 1 < ((List.iterate (increment host) start (blockCount len)).map
        CounterMemory.ctrBuf).length := by
      simp only [List.length_map, List.length_iterate, blockCount]
      omega
    have hsecond := hfed 1 hlength
    refine hne ?_
    simpa using hsecond
  · -- The increment is the last thing that happens.
    obtain rfl : len = 16 := by omega
    exact hne hfinal

/-- The counter blocks of a datagram are as required exactly when the text has
no full block. Beyond the second block on a little-endian host, and beyond the
first on a big-endian one, they repeat. -/
theorem counterBlocks_fresh_iff (host : ByteOrder) (cipher : BlockCipher) (aes : AesCounter)
    (datain : Bytes) (sequenceNumber : UInt64) (hpos : 0 < datain.length)
    (hmax : datain.length ≤ 65534) (hseq : sequenceNumber ≠ 0xFFFFFFFFFFFFFFFF)
    (cells : ℕ → UInt8) :
    ∃ out m, (aes.encryptIn host cipher datain sequenceNumber).run ⟨cells, []⟩ = .ok (out, m) ∧
      (FreshCounterBlocks aes sequenceNumber datain.length out m ↔ datain.length ≤ 15) ∧
      (out.fed.Nodup ↔ datain.length ≤ distinctLimit host) := by
  refine ⟨_, _, AesCounter.encryptIn_run host cipher aes hpos hmax hseq ⟨cells, []⟩, ?_, ?_⟩
  · constructor
    · intro hfresh
      by_contra hlong
      exact not_freshCounterBlocks host aes sequenceNumber (by omega) _ cells hfresh
    · intro hshort
      exact freshCounterBlocks_of_lt host aes sequenceNumber (by omega) _ cells
  · exact nodup_fed_iff host aes sequenceNumber _ _

/-- The hypotheses hold of a text of one byte, and the conclusion of its blocks. -/
theorem counterBlocks_fresh_one_byte :
    ∃ out m, ((⟨FixedBytes.replicate 6 1, FixedBytes.replicate 32 2⟩ : AesCounter).encryptIn
        .littleEndian (fun _ block => block) [7] 1).run ⟨fun _ => 0, []⟩ = .ok (out, m) ∧
      (FreshCounterBlocks ⟨FixedBytes.replicate 6 1, FixedBytes.replicate 32 2⟩ 1 1 out m ↔
        1 ≤ 15) ∧ (out.fed.Nodup ↔ 1 ≤ distinctLimit .littleEndian) :=
  counterBlocks_fresh_iff .littleEndian (fun _ block => block) _ [7] 1 (by decide) (by decide)
    (by decide) (fun _ => 0)

/-- A text of three blocks on a little-endian host is encrypted with counter
blocks that are not as required: the third is the first again. -/
theorem counterBlocks_not_fresh_three_blocks :
    ∃ out m, ((⟨FixedBytes.replicate 6 1, FixedBytes.replicate 32 2⟩ : AesCounter).encryptIn
        .littleEndian (fun _ block => block) (List.replicate 48 7) 1).run ⟨fun _ => 0, []⟩ =
          .ok (out, m) ∧
      ¬ FreshCounterBlocks ⟨FixedBytes.replicate 6 1, FixedBytes.replicate 32 2⟩ 1 48 out m ∧
      ¬ out.fed.Nodup := by
  refine ⟨_, _, AesCounter.encryptIn_run _ _ _ (by decide) (by decide) (by decide) _, ?_, ?_⟩
  · exact not_freshCounterBlocks .littleEndian _ 1 (by decide) _ _
  · rw [List.length_replicate, nodup_fed_iff]
    decide

end San2.DragonSRP
