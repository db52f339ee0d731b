import San2.Crypto.Datagram

/-!
# Datagrams in the caller's buffers

`encryptAndAuthenticate` and `decryptAndVerifyMac` get pointers and lengths. They build the
input of the MAC in the output buffer, with the sequence number behind the ciphertext, and
the encryptor then overwrites the number with the digest. Here the buffer is followed step
by step, with lengths that are `unsigned int`. What is left in it is what the functions on
byte strings say, and so the packets that are accepted are the encryptor's.
-/

namespace San2.DragonSRP

open Utils

namespace Outcome

variable {α β : Type}

/-- What comes next goes on from what has been returned. -/
protected def bind (call : Outcome α) (next : α → Outcome β) : Outcome β :=
  match call with
  | .fault => .fault
  | .throws e => .throws e
  | .returns a => next a

/-- What is returned is converted. -/
protected def map (f : α → β) (call : Outcome α) : Outcome β :=
  call.bind fun a => .returns (f a)

/-- Calls one after the other; the first that does not return ends them. -/
instance : Monad Outcome where
  pure := .returns
  bind := Outcome.bind

/-- What has been returned goes on. -/
@[simp] theorem bind_returns (a : α) (next : α → Outcome β) :
    (Outcome.returns a >>= next) = next a := rfl

/-- What throws is not gone on with. -/
@[simp] theorem bind_throws (e : CryptoException) (next : α → Outcome β) :
    (Outcome.throws e >>= next) = .throws e := rfl

/-- What has left its buffer is not gone on with. -/
@[simp] theorem bind_fault (next : α → Outcome β) :
    ((Outcome.fault : Outcome α) >>= next) = .fault := rfl

/-- What is returned is mapped. -/
@[simp] theorem map_returns (f : α → β) (a : α) : (returns a).map f = .returns (f a) := rfl

/-- What throws returns nothing to map. -/
@[simp] theorem map_throws (f : α → β) (e : CryptoException) :
    (throws e : Outcome α).map f = .throws e := rfl

/-- A fault returns nothing to map. -/
@[simp] theorem map_fault (f : α → β) : (fault : Outcome α).map f = .fault := rfl

end Outcome

/-- A pointer and a length of type `unsigned int`. -/
structure Packet where
  data : Bytes
  small : data.length < UInt32.size

namespace Packet

/-- The length of a packet as the code has it. -/
def len (packet : Packet) : UInt32 := UInt32.ofNat packet.data.length

/-- Packets are short enough for their length. -/
@[simp] theorem toNat_len (packet : Packet) : packet.len.toNat = packet.data.length :=
  UInt32.toNat_ofNat_of_lt' packet.small

end Packet

namespace DatagramBuffer

/-- `memcpy` to a position of a buffer. -/
def memcpy (out : Bytes) (position : ℕ) (source : Bytes) : Outcome Bytes :=
  if position + source.length ≤ out.length then
    .returns (out.take position ++ source ++ out.drop (position + source.length))
  else .fault

/-- `AesCounter::encrypt` of the first bytes of `datain`. Its length is an `int`, and one
that is negative is refused like zero. -/
def encrypt (p : Platform) (aes : AesCounter) (datain dataout : Bytes) (len : UInt32)
    (sequenceNumber : UInt64) : Outcome Bytes :=
  match aes.encrypt p.host p.cipher (datain.take len.toInt32.toInt.toNat) sequenceNumber with
  | .error e => .throws (.aes e)
  | .ok text => memcpy dataout 0 text

/-- The sequence number as it is copied behind the ciphertext. -/
def sequenceBytes (p : Platform) (sequenceNumber : UInt64) : Bytes :=
  p.host.store 8 (Endian.sanUHtobe64 p.host sequenceNumber).toNat

/-- The buffer and `*outLen` after `encryptAndAuthenticate`. -/
def encryptAndAuthenticate (p : Platform) (enc : DatagramEncryptor) (plaintext : Packet)
    (sequenceNumber : UInt64) (out : Bytes) : Outcome (Bytes × UInt32) := do
  let plaintextLen := plaintext.len
  let out ← encrypt p enc.aesCtr plaintext.data out plaintextLen sequenceNumber
  let out ← memcpy out plaintextLen.toNat (sequenceBytes p sequenceNumber)
  let toCalculate := out.take (plaintextLen.toNat + 8)
  let digest := enc.hmac.hmac p.osslSha1 toCalculate
  -- append just digest (overwrite sequence number)
  let out ← memcpy out plaintextLen.toNat (digest.take truncDigestSize)
  return (out, plaintextLen + 12)

/-- The buffer and `*dataOutLen` after `decryptAndVerifyMac`. -/
def decryptAndVerifyMac (p : Platform) (dec : DatagramDecryptor) (dataIn : Packet)
    (dataOut : Bytes) (expectedSequenceNumber : UInt64) : Outcome (Bytes × UInt32) :=
  let dataInLen := dataIn.len
  if dataInLen ≤ 12 then .throws (.dsrp ⟨"Malformed packet decryption attempt"⟩)
  else do
    let dataOut ← memcpy dataOut 0 (dataIn.data.take (dataInLen - 12).toNat)
    let dataOut ← memcpy dataOut (dataInLen.toNat - 12) (sequenceBytes p expectedSequenceNumber)
    let toCompute := dataOut.take (dataInLen.toNat - 12 + 8)
    let correctDigest := dec.hmac.hmac p.osslSha1 toCompute
    if correctDigest.take truncDigestSize ≠
        (dataIn.data.drop (dataInLen.toNat - 12)).take truncDigestSize then
      .throws (.dsrp ⟨"Mac signature inccorect. Possible attack detected."⟩)
    else do
      let dataOutLen := dataInLen - 12
      let dataOut ← encrypt p dec.aesCtr dataIn.data dataOut dataOutLen expectedSequenceNumber
      return (dataOut, dataOutLen)

/-- The bytes that the caller finds in its buffer, as many as the length says. -/
def written (call : Outcome (Bytes × UInt32)) : Outcome Bytes :=
  call.map fun result => result.1.take result.2.toNat

/-- What fits is copied. -/
theorem memcpy_of_le {out source : Bytes} {position : ℕ}
    (h : position + source.length ≤ out.length) :
    memcpy out position source =
      .returns (out.take position ++ source ++ out.drop (position + source.length)) := if_pos h

/-- What does not fit is written behind the buffer. -/
theorem memcpy_of_lt {out source : Bytes} {position : ℕ}
    (h : out.length < position + source.length) : memcpy out position source = .fault :=
  if_neg (Nat.not_le.mpr h)

/-- A sequence number has eight bytes. -/
@[simp] theorem length_sequenceBytes (p : Platform) (sequenceNumber : UInt64) :
    (sequenceBytes p sequenceNumber).length = 8 := ByteOrder.length_store _ _ _

/-- The conversion to `int` keeps a length below 2³¹, and makes a larger one negative. -/
theorem toNat_toInt_toInt32 (len : UInt32) :
    len.toInt32.toInt.toNat = if len.toNat < 2147483648 then len.toNat else 0 := by
  have hint : len.toInt32.toInt =
      if 2 * len.toNat < 2 ^ 32 then (len.toNat : ℤ) else (len.toNat : ℤ) - (2 ^ 32 : ℕ) :=
    BitVec.toInt_eq_toNat_cond len.toBitVec
  have hlt : len.toNat < 4294967296 := len.toNat_lt
  rw [hint]
  split_ifs <;> omega

/-- The cipher refuses a text that is empty or too long. -/
theorem encrypt_of_invalid_length (p : Platform) (aes : AesCounter) {datain : Bytes}
    (sequenceNumber : UInt64) (h : datain.length = 0 ∨ aesMaxPacketOct < datain.length) :
    aes.encrypt p.host p.cipher datain sequenceNumber =
      .error ⟨"Invalid input plaintext message length"⟩ := by
  simp only [AesCounter.encrypt, AesCounter.encryptIn, h, if_true]
  rfl

/-- As far as `encrypt` is concerned the length stays what it was. -/
theorem encrypt_eq (p : Platform) (aes : AesCounter) {datain : Bytes} (dataout : Bytes)
    {len : UInt32} (sequenceNumber : UInt64) (h : len.toNat ≤ datain.length) :
    encrypt p aes datain dataout len sequenceNumber =
      match aes.encrypt p.host p.cipher (datain.take len.toNat) sequenceNumber with
      | .error e => .throws (.aes e)
      | .ok text => memcpy dataout 0 text := by
  unfold encrypt
  rw [toNat_toInt_toInt32]
  split_ifs with hint
  · rfl
  · have hlong : aesMaxPacketOct < (datain.take len.toNat).length := by
      have hpacket : aesMaxPacketOct = 65534 := rfl
      rw [List.length_take]
      omega
    rw [encrypt_of_invalid_length p aes sequenceNumber (Or.inr hlong),
      encrypt_of_invalid_length p aes sequenceNumber (Or.inl (by simp))]

/-- A copy to the front of a buffer. -/
theorem memcpy_zero {out source : Bytes} (h : source.length ≤ out.length) :
    memcpy out 0 source = .returns (source ++ out.drop source.length) := by
  rw [memcpy_of_le (by omega), List.take_zero, List.nil_append, Nat.zero_add]

/-- What stands in front of the copied bytes stays. -/
theorem memcpy_append {front rest source : Bytes} {position : ℕ}
    (hposition : front.length = position) (h : source.length ≤ rest.length) :
    memcpy (front ++ rest) position source =
      .returns (front ++ source ++ rest.drop source.length) := by
  have hroom : position + source.length ≤ (front ++ rest).length := by
    rw [List.length_append]
    omega
  rw [memcpy_of_le hroom, List.take_left' hposition, ← hposition, List.drop_append]
  simp

/-- A copy that does not fit behind the front. -/
theorem memcpy_append_fault {front rest source : Bytes} {position : ℕ}
    (hposition : front.length = position) (h : rest.length < source.length) :
    memcpy (front ++ rest) position source = .fault := by
  apply memcpy_of_lt
  rw [List.length_append]
  omega

/-- A ciphertext and behind it the sequence number are copied to the start of a buffer. -/
theorem memcpy_numbered {β : Type} (p : Platform) (out ciphertext : Bytes)
    (sequenceNumber : UInt64) (next : Bytes → Outcome β) :
    (memcpy out 0 ciphertext >>= fun out =>
      memcpy out ciphertext.length (sequenceBytes p sequenceNumber) >>= next) =
      if out.length < ciphertext.length + 8 then .fault
      else next
        (ciphertext ++ sequenceBytes p sequenceNumber ++ out.drop (ciphertext.length + 8)) := by
  by_cases hciphertext : out.length < ciphertext.length
  · -- the ciphertext itself does not fit
    rw [memcpy_of_lt (by omega), if_pos (by omega)]
    rfl
  rw [memcpy_zero (by omega), Outcome.bind_returns]
  by_cases hnumber : out.length < ciphertext.length + 8
  · rw [memcpy_append_fault rfl (by rw [List.length_drop, length_sequenceBytes]; omega),
      if_pos hnumber]
    rfl
  · rw [memcpy_append rfl (by rw [List.length_drop, length_sequenceBytes]; omega),
      Outcome.bind_returns, length_sequenceBytes, List.drop_drop, if_neg hnumber]

/-- The digest is taken of the first bytes of the buffer, up to the sequence number. -/
theorem hmac_take_eq (p : Platform) (cipher : DatagramCipher) (ciphertext rest : Bytes)
    (sequenceNumber : UInt64) :
    (cipher.hmac.hmac p.osslSha1
      ((ciphertext ++ sequenceBytes p sequenceNumber ++ rest).take (ciphertext.length + 8))).take
        truncDigestSize = cipher.truncDigest p ciphertext sequenceNumber := by
  have hlength : (ciphertext ++ sequenceBytes p sequenceNumber).length = ciphertext.length + 8 := by
    rw [List.length_append, length_sequenceBytes]
  rw [List.take_left' hlength]
  rfl

/-- The packet stands at the start of the buffer, and behind it what was there before. -/
theorem encryptAndAuthenticate_eq (p : Platform) (enc : DatagramEncryptor) (plaintext : Packet)
    (sequenceNumber : UInt64) (out : Bytes) :
    encryptAndAuthenticate p enc plaintext sequenceNumber out =
      (DatagramEncryptor.encryptAndAuthenticate p enc out.length plaintext.data
        sequenceNumber).map fun packet =>
          (packet ++ out.drop packet.length, UInt32.ofNat packet.length) := by
  have htrunc : truncDigestSize = 12 := rfl
  unfold encryptAndAuthenticate DatagramEncryptor.encryptAndAuthenticate
  dsimp only
  rw [encrypt_eq p enc.aesCtr out sequenceNumber plaintext.toNat_len.le, plaintext.toNat_len,
    List.take_length]
  cases hencrypt : enc.aesCtr.encrypt p.host p.cipher plaintext.data sequenceNumber with
  | error e => rfl
  | ok ciphertext =>
    obtain ⟨hlength, -⟩ := AesCounter.encrypt_encrypt p.host p.cipher enc.aesCtr hencrypt
    dsimp only
    rw [← hlength, memcpy_numbered]
    by_cases hnumber : out.length < ciphertext.length + 8
    · rw [if_pos hnumber, if_pos (by omega)]
      rfl
    rw [if_neg hnumber, hmac_take_eq, List.append_assoc]
    -- the digest takes the place of the sequence number and four bytes more
    have hrest : (sequenceBytes p sequenceNumber ++ out.drop (ciphertext.length + 8)).length =
        out.length - ciphertext.length := by
      rw [List.length_append, length_sequenceBytes, List.length_drop]
      omega
    by_cases hdigest : out.length < ciphertext.length + truncDigestSize
    · rw [memcpy_append_fault rfl (by rw [hrest, DatagramCipher.length_truncDigest]; omega),
        if_pos hdigest]
      rfl
    have hbehind : (sequenceBytes p sequenceNumber ++ out.drop (ciphertext.length + 8)).drop 12 =
        out.drop (ciphertext.length + 12) := by
      have hnone : (sequenceBytes p sequenceNumber).drop 12 = [] := by
        rw [List.drop_eq_nil_iff, length_sequenceBytes]
        decide
      rw [List.drop_append, hnone, List.nil_append, length_sequenceBytes, List.drop_drop]
    have hlen : UInt32.ofNat (ciphertext.length + 12) = plaintext.len + 12 := by
      rw [UInt32.ofNat_add, hlength]
      rfl
    rw [memcpy_append rfl (by rw [hrest, DatagramCipher.length_truncDigest]; omega),
      if_neg hdigest, DatagramCipher.length_truncDigest, hbehind, Outcome.map_returns,
      List.length_append, DatagramCipher.length_truncDigest, hlen]
    rfl

/-- The text stands at the start of the buffer, and behind it the sequence number that the
MAC was computed with. -/
theorem decryptAndVerifyMac_eq (p : Platform) (dec : DatagramDecryptor) (dataIn : Packet)
    (dataOut : Bytes) (sequenceNumber : UInt64) :
    decryptAndVerifyMac p dec dataIn dataOut sequenceNumber =
      (DatagramDecryptor.decryptAndVerifyMac p dec dataOut.length dataIn.data
        sequenceNumber).map fun text =>
          (text ++ sequenceBytes p sequenceNumber ++ dataOut.drop (text.length + 8),
            UInt32.ofNat text.length) := by
  have htrunc : truncDigestSize = 12 := rfl
  unfold decryptAndVerifyMac DatagramDecryptor.decryptAndVerifyMac
  dsimp only
  have hshort : dataIn.len ≤ 12 ↔ dataIn.data.length ≤ truncDigestSize := by
    rw [UInt32.le_iff_toNat_le, Packet.toNat_len]
    rfl
  by_cases hmalformed : dataIn.data.length ≤ truncDigestSize
  · rw [if_pos (hshort.mpr hmalformed), if_pos hmalformed]
    rfl
  rw [if_neg (mt hshort.mp hmalformed), if_neg hmalformed]
  have htwelve : (12 : UInt32) ≤ dataIn.len := by
    rw [UInt32.le_iff_toNat_le, Packet.toNat_len]
    exact (not_le.mp hmalformed).le
  have hlen : (dataIn.len - 12).toNat = dataIn.data.length - truncDigestSize := by
    rw [UInt32.toNat_sub_of_le _ _ htwelve, Packet.toNat_len]
    rfl
  have htwelve' : dataIn.data.length - 12 = dataIn.data.length - truncDigestSize := rfl
  rw [hlen, Packet.toNat_len, htwelve']
  obtain ⟨ciphertext, hciphertext⟩ :
    ∃ ciphertext, dataIn.data.take (dataIn.data.length - truncDigestSize) = ciphertext := ⟨_, rfl⟩
  have hlength : ciphertext.length = dataIn.data.length - truncDigestSize := by
    rw [← hciphertext, List.length_take]
    omega
  have hdigest : (dataIn.data.drop (dataIn.data.length - truncDigestSize)).take truncDigestSize =
      dataIn.data.drop (dataIn.data.length - truncDigestSize) := by
    rw [List.take_of_length_le]
    rw [List.length_drop]
    omega
  rw [hdigest, hciphertext, ← hlength, memcpy_numbered]
  by_cases hnumber : dataOut.length < ciphertext.length + 8
  · rw [if_pos hnumber, if_pos hnumber]
    rfl
  rw [if_neg hnumber, if_neg hnumber, hmac_take_eq]
  by_cases hmac : dec.truncDigest p ciphertext sequenceNumber =
      dataIn.data.drop ciphertext.length
  · have hfits : (dataIn.len - 12).toNat ≤ dataIn.data.length := by omega
    rw [if_neg (not_not.mpr hmac), if_neg (not_not.mpr hmac),
      encrypt_eq p dec.aesCtr _ sequenceNumber hfits, hlen, hciphertext]
    cases hdecrypt : dec.aesCtr.encrypt p.host p.cipher ciphertext sequenceNumber with
    | error e => rfl
    | ok text =>
      obtain ⟨htext, -⟩ := AesCounter.encrypt_encrypt p.host p.cipher dec.aesCtr hdecrypt
      have hback : UInt32.ofNat text.length = dataIn.len - 12 := by
        rw [htext, hlength, ← hlen, UInt32.ofNat_toNat]
      have hover : (ciphertext ++ sequenceBytes p sequenceNumber ++
          dataOut.drop (ciphertext.length + 8)).drop text.length =
            sequenceBytes p sequenceNumber ++ dataOut.drop (text.length + 8) := by
        rw [htext, List.append_assoc, List.drop_left]
      dsimp only
      rw [memcpy_zero (by simp; omega), Outcome.bind_returns, Outcome.map_returns, hback, hover,
        List.append_assoc]
      rfl
  · rw [if_pos hmac, if_pos hmac]
    rfl

/-- The caller finds the bytes that are followed by anything else. -/
theorem written_map {call : Outcome Bytes} (rest : Bytes → Bytes)
    (h : ∀ data, call = .returns data → data.length < UInt32.size) :
    written (call.map fun data => (data ++ rest data, UInt32.ofNat data.length)) = call := by
  cases call with
  | fault => rfl
  | throws e => rfl
  | returns data =>
    have hlen := UInt32.toNat_ofNat_of_lt' (h data rfl)
    rw [written, Outcome.map_returns, Outcome.map_returns]
    dsimp only
    rw [hlen, List.take_left]

/-- Written into a buffer, a datagram is the one of the encryptor. -/
theorem written_encrypt (p : Platform) (enc : DatagramEncryptor) (plaintext : Packet)
    (sequenceNumber : UInt64) (out : Bytes) :
    written (encryptAndAuthenticate p enc plaintext sequenceNumber out) =
      DatagramEncryptor.encryptAndAuthenticate p enc out.length plaintext.data sequenceNumber := by
  rw [encryptAndAuthenticate_eq]
  refine written_map (fun packet => out.drop packet.length) ?_
  intro packet hreturns
  have htrunc : truncDigestSize = 12 := rfl
  have hpacket : aesMaxPacketOct = 65534 := rfl
  have hsize : UInt32.size = 4294967296 := rfl
  obtain ⟨hpos, hmax, hseq, hcapacity⟩ := encryptAndAuthenticate_returns hreturns
  obtain ⟨ciphertext, hlength, -, hcall⟩ := encryptAndAuthenticate_eq_returns p enc out.length hpos
    hmax hseq hcapacity
  rw [hcall] at hreturns
  rw [← Outcome.returns.inj hreturns, List.length_append, DatagramCipher.length_truncDigest]
  omega

/-- Written into a buffer, a text is the one of the decryptor. -/
theorem written_decrypt (p : Platform) (dec : DatagramDecryptor) (dataIn : Packet)
    (sequenceNumber : UInt64) (dataOut : Bytes) :
    written (decryptAndVerifyMac p dec dataIn dataOut sequenceNumber) =
      DatagramDecryptor.decryptAndVerifyMac p dec dataOut.length dataIn.data sequenceNumber := by
  have hsplit := decryptAndVerifyMac_eq p dec dataIn dataOut sequenceNumber
  simp only [List.append_assoc] at hsplit
  rw [hsplit]
  refine written_map
    (fun text => sequenceBytes p sequenceNumber ++ dataOut.drop (text.length + 8)) ?_
  intro text hreturns
  obtain ⟨ciphertext, -, -, hdata, hdecrypt⟩ := decryptAndVerifyMac_eq_returns.mp hreturns
  obtain ⟨hlength, -⟩ := AesCounter.encrypt_encrypt p.host p.cipher dec.aesCtr hdecrypt
  have hsmall := dataIn.small
  rw [hdata, List.length_append] at hsmall
  omega

/-- Everything that is produced under a sequence number is accepted under it, and nothing
else is. -/
structure Exact (p : Platform) (enc : DatagramEncryptor) (dec : DatagramDecryptor)
    (sequenceNumber : UInt64) : Prop where
  roundTrip : ∀ (plaintext : Packet) (out : Bytes), 0 < plaintext.data.length →
    plaintext.data.length ≤ aesMaxPacketOct →
    plaintext.data.length + truncDigestSize ≤ out.length →
      ∃ packet : Packet,
        written (encryptAndAuthenticate p enc plaintext sequenceNumber out) =
          .returns packet.data ∧
        ∀ dataOut : Bytes, plaintext.data.length + 8 ≤ dataOut.length →
          written (decryptAndVerifyMac p dec packet dataOut sequenceNumber) =
            .returns plaintext.data
  produced : ∀ (packet plaintext : Packet) (dataOut out : Bytes),
    written (decryptAndVerifyMac p dec packet dataOut sequenceNumber) = .returns plaintext.data →
    plaintext.data.length + truncDigestSize ≤ out.length →
      written (encryptAndAuthenticate p enc plaintext sequenceNumber out) = .returns packet.data
  accepted_iff : ∀ (packet : Packet) (dataOut : Bytes),
    packet.data.length - truncDigestSize + 8 ≤ dataOut.length →
      ((∃ result, decryptAndVerifyMac p dec packet dataOut sequenceNumber = .returns result) ↔
        ∃ plaintext out,
          written (encryptAndAuthenticate p enc plaintext sequenceNumber out) =
            .returns packet.data)
  rejected : ∀ (packet : Packet) (dataOut : Bytes),
    packet.data.length - truncDigestSize + 8 ≤ dataOut.length →
    (∀ plaintext out, written (encryptAndAuthenticate p enc plaintext sequenceNumber out) ≠
      .returns packet.data) →
      ∃ e, decryptAndVerifyMac p dec packet dataOut sequenceNumber = .throws e
  altered : ∀ (packet : Packet) (ciphertext digest dataOut : Bytes),
    packet.data = ciphertext ++ digest → digest.length = truncDigestSize →
    ciphertext.length + 8 ≤ dataOut.length →
    dec.truncDigest p ciphertext sequenceNumber ≠ digest →
      ∃ e, decryptAndVerifyMac p dec packet dataOut sequenceNumber = .throws e

section Exactness

variable {p : Platform} {cipher : DatagramCipher} {sequenceNumber : UInt64}

/-- A packet that is accepted has been produced from the text that is found in it. -/
theorem encrypt_of_decrypt {capacity : ℕ} {packet text : Bytes}
    (h : DatagramDecryptor.decryptAndVerifyMac p cipher capacity packet sequenceNumber =
      .returns text) (capacity' : ℕ) (hcapacity : text.length + truncDigestSize ≤ capacity') :
    DatagramEncryptor.encryptAndAuthenticate p cipher capacity' text sequenceNumber =
      .returns packet := by
  obtain ⟨ciphertext, -, -, rfl, hdecrypt⟩ := decryptAndVerifyMac_eq_returns.mp h
  obtain ⟨hlength, hencrypt⟩ := AesCounter.encrypt_encrypt p.host p.cipher cipher.aesCtr hdecrypt
  unfold DatagramEncryptor.encryptAndAuthenticate
  rw [hencrypt]
  exact if_neg (not_lt.mpr hcapacity)

/-- A packet that has been produced is accepted, and the text is found in it. -/
theorem decrypt_of_encrypt {capacity : ℕ} {packet text : Bytes}
    (h : DatagramEncryptor.encryptAndAuthenticate p cipher capacity text sequenceNumber =
      .returns packet) (capacity' : ℕ) (hcapacity : text.length + 8 ≤ capacity') :
    packet.length = text.length + truncDigestSize ∧
      DatagramDecryptor.decryptAndVerifyMac p cipher capacity' packet sequenceNumber =
        .returns text := by
  obtain ⟨hpos, hmax, hseq, hroom⟩ := encryptAndAuthenticate_returns h
  obtain ⟨ciphertext, hlength, hdecrypt, hcall⟩ := encryptAndAuthenticate_eq_returns p cipher
    capacity hpos hmax hseq hroom
  rw [hcall] at h
  rw [← Outcome.returns.inj h, List.length_append, DatagramCipher.length_truncDigest, hlength]
  exact ⟨rfl, decryptAndVerifyMac_append p cipher (by omega) (by omega) hdecrypt⟩

/-- With enough room a call ends with a text or an exception. -/
theorem decrypt_returns_or_throws (packet : Packet) {dataOut : Bytes}
    (hroom : packet.data.length - truncDigestSize + 8 ≤ dataOut.length) :
    (∃ result, decryptAndVerifyMac p cipher packet dataOut sequenceNumber = .returns result) ∨
      ∃ e, decryptAndVerifyMac p cipher packet dataOut sequenceNumber = .throws e := by
  rw [decryptAndVerifyMac_eq]
  cases hcall : DatagramDecryptor.decryptAndVerifyMac p cipher dataOut.length packet.data
      sequenceNumber with
  | fault => exact absurd (decryptAndVerifyMac_fault hcall) (not_lt.mpr hroom)
  | throws e => exact Or.inr ⟨e, rfl⟩
  | returns text => exact Or.inl ⟨_, rfl⟩

/-- The call on buffers returns exactly if the one on texts does. -/
theorem returns_iff (packet : Packet) (dataOut : Bytes) :
    (∃ result, decryptAndVerifyMac p cipher packet dataOut sequenceNumber = .returns result) ↔
      ∃ text, DatagramDecryptor.decryptAndVerifyMac p cipher dataOut.length packet.data
        sequenceNumber = .returns text := by
  rw [decryptAndVerifyMac_eq]
  cases DatagramDecryptor.decryptAndVerifyMac p cipher dataOut.length packet.data
      sequenceNumber with
  | fault => simp
  | throws e => simp
  | returns text => simp

/-- What is accepted has been produced, and what has been produced is accepted. -/
theorem returns_iff_written (packet : Packet) {dataOut : Bytes}
    (hroom : packet.data.length - truncDigestSize + 8 ≤ dataOut.length) :
    (∃ result, decryptAndVerifyMac p cipher packet dataOut sequenceNumber = .returns result) ↔
      ∃ plaintext out, written (encryptAndAuthenticate p cipher plaintext sequenceNumber out) =
        .returns packet.data := by
  rw [returns_iff]
  constructor
  · rintro ⟨text, hdecrypt⟩
    obtain ⟨ciphertext, -, -, hdata, haes⟩ := decryptAndVerifyMac_eq_returns.mp hdecrypt
    obtain ⟨hlength, -⟩ := AesCounter.encrypt_encrypt p.host p.cipher cipher.aesCtr haes
    have hsmall : text.length < UInt32.size := by
      have hpacket := packet.small
      rw [hdata, List.length_append] at hpacket
      omega
    have hout : text.length + truncDigestSize ≤
        (List.replicate (text.length + truncDigestSize) (0 : UInt8)).length :=
      List.length_replicate.ge
    refine ⟨⟨text, hsmall⟩, List.replicate (text.length + truncDigestSize) 0, ?_⟩
    rw [written_encrypt]
    exact encrypt_of_decrypt hdecrypt _ hout
  · rintro ⟨plaintext, out, hwritten⟩
    rw [written_encrypt] at hwritten
    obtain ⟨hlength, hdecrypt⟩ := decrypt_of_encrypt hwritten
      (plaintext.data.length + 8) le_rfl
    have hfits : plaintext.data.length + 8 ≤ dataOut.length := by omega
    exact ⟨_, (decrypt_of_encrypt hwritten dataOut.length hfits).2⟩

end Exactness

/-- The encryptor and the decryptor of the same keys. For every sequence number but the
last, the packets accepted are exactly those produced. -/
theorem datagrams_exact {p : Platform} {encryptionKey IV macKey : Bytes} {enc dec : DatagramCipher}
    (henc : DatagramCipher.create p encryptionKey IV macKey = .ok enc)
    (hdec : DatagramCipher.create p encryptionKey IV macKey = .ok dec) {sequenceNumber : UInt64}
    (hseq : sequenceNumber ≠ 0xFFFFFFFFFFFFFFFF) : Exact p enc dec sequenceNumber := by
  obtain rfl : enc = dec := Except.ok.inj (henc.symm.trans hdec)
  exact {
    roundTrip := by
      intro plaintext out hpos hmax hout
      have htrunc : truncDigestSize = 12 := rfl
      have hpacket : aesMaxPacketOct = 65534 := rfl
      have hsize : UInt32.size = 4294967296 := rfl
      obtain ⟨ciphertext, hlength, -, hcall⟩ := encryptAndAuthenticate_eq_returns p enc out.length
        hpos hmax hseq hout
      have hsmall : (ciphertext ++ enc.truncDigest p ciphertext sequenceNumber).length <
          UInt32.size := by
        rw [List.length_append, DatagramCipher.length_truncDigest]
        omega
      refine ⟨⟨_, hsmall⟩, ?_, ?_⟩
      · rw [written_encrypt]
        exact hcall
      · intro dataOut hroom
        rw [written_decrypt]
        exact (decrypt_of_encrypt hcall dataOut.length hroom).2
    produced := by
      intro packet plaintext dataOut out hwritten hout
      rw [written_decrypt] at hwritten
      rw [written_encrypt]
      exact encrypt_of_decrypt hwritten out.length hout
    accepted_iff := fun packet dataOut hroom => returns_iff_written packet hroom
    rejected := by
      intro packet dataOut hroom hnone
      refine (decrypt_returns_or_throws packet hroom).resolve_left fun hreturns => ?_
      obtain ⟨plaintext, out, hwritten⟩ := (returns_iff_written packet hroom).mp hreturns
      exact hnone plaintext out hwritten
    altered := by
      intro packet ciphertext digest dataOut hdata hdigest hroom hne
      have hlength : packet.data.length - truncDigestSize = ciphertext.length := by
        rw [hdata, List.length_append, hdigest, Nat.add_sub_cancel]
      refine (decrypt_returns_or_throws packet (hlength ▸ hroom)).resolve_left fun hreturns => ?_
      obtain ⟨text, hdecrypt⟩ := (returns_iff packet dataOut).mp hreturns
      obtain ⟨ciphertext', -, -, hdata', -⟩ := decryptAndVerifyMac_eq_returns.mp hdecrypt
      have hparts := List.append_inj' (hdata.symm.trans hdata')
        (hdigest.trans (DatagramCipher.length_truncDigest _ _ _ _).symm)
      rw [hparts.1] at hne
      exact hne hparts.2.symm }

/-- A machine with a hash function of small values. -/
def samplePlatform : Platform where
  host := .littleEndian
  cipher _ block := block
  sha1 data := ⟨List.replicate 19 0 ++ [UInt8.ofNat ((data.map UInt8.toNat).sum % 7)], by simp⟩

/-- Keys of zeros on both sides. -/
theorem datagrams_exact_zero_keys :
    ∃ cipher, DatagramCipher.create samplePlatform (List.replicate 32 0) (List.replicate 6 0)
      (List.replicate 20 0) = .ok cipher ∧ Exact samplePlatform cipher cipher 7 := by
  obtain ⟨cipher, hcipher⟩ := @DatagramCipher.create_eq_ok samplePlatform (List.replicate 32 0)
    (List.replicate 6 0) (List.replicate 20 0) (by decide) (by decide) (by decide)
  exact ⟨cipher, hcipher, datagrams_exact hcipher hcipher (by decide)⟩

end DatagramBuffer

end San2.DragonSRP
