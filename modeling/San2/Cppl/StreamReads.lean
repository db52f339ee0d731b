import San2.Cppl.BufferProcessor
import San2.Library.StreamWindow

/-!
# Lines from any transport

`BufferProcessor::read` is left to the subclasses. Here it is any function that keeps to the
contract: a read that succeeds stores between one byte and the number it was asked for, and a
read that fails reports zero bytes. How the incoming bytes are split into reads is then up to
the transport. A processor on Linux does the same as one whose transport answers as
`cppl_nix_read` does.
-/

namespace San2.Cppl

open San2.Network StoppingProgram StreamWindow

/-- What a call of `read` returns and stores. -/
structure ReadReturn where
  code : ErrorCode
  data : Bytes
  bytesRead : UInt32

/-- One call of `read`, for every `dataSize` that it may be called with. -/
structure TransportRead where
  answer : UInt32 → ReadReturn
  length_le : ∀ dataSize, (answer dataSize).data.length ≤ dataSize.toNat
  success : ∀ dataSize, dataSize ≠ 0 → (answer dataSize).code = .success →
    0 < (answer dataSize).data.length ∧
      (answer dataSize).bytesRead.toNat = (answer dataSize).data.length
  failure : ∀ dataSize, (answer dataSize).code ≠ .success → (answer dataSize).bytesRead = 0

/-- `bytesRead` never says more than has been stored. -/
theorem TransportRead.bytesRead_le (read : TransportRead) {dataSize : UInt32}
    (hsize : dataSize ≠ 0) :
    (read.answer dataSize).bytesRead.toNat ≤ (read.answer dataSize).data.length := by
  by_cases hcode : (read.answer dataSize).code = .success
  · exact (read.success dataSize hsize hcode).2.le
  · rw [read.failure dataSize hcode]
    exact Nat.zero_le _

/-- A read by which the given bytes can be received. -/
def TransportRead.ofBytes (bytes : Bytes) (h : bytes ≠ []) : TransportRead where
  answer dataSize :=
    ⟨.success, bytes.take dataSize.toNat, UInt32.ofNat (bytes.take dataSize.toNat).length⟩
  length_le dataSize := List.length_take_le _ _
  success dataSize hsize _ := by
    have hpositive : 0 < dataSize.toNat :=
      Nat.pos_of_ne_zero fun hzero => hsize (UInt32.toNat_inj.mp hzero)
    have hbytes : 0 < bytes.length := List.length_pos_iff.mpr h
    have hlt := dataSize.toNat_lt
    refine ⟨?_, UInt32.toNat_ofNat_of_lt' ?_⟩
    · rw [List.length_take]
      omega
    · exact (List.length_take_le _ _).trans_lt hlt
  failure _ hcode := absurd rfl hcode

/-- A turn of the loop in `readDelimeter`: what `isTerminated` says and the read, if it comes
to that. -/
structure TransportTurn where
  terminated : Bool
  read : TransportRead

/-- Over any transport `read` always returns and always stores a count. -/
instance : Subclass TransportTurn where
  isTerminated := TransportTurn.terminated
  indeterminate _ := 0
  read turn dataSize :=
    let result := turn.read.answer dataSize
    some ⟨result.code, some result.bytesRead, result.data⟩

/-- A `BufferProcessor` over any transport. -/
abbrev BufferedStream := BufferProcessor TransportTurn

/-- The bytes that a read has stored and counted. -/
def ReadRecord.stored {τ : Type} [Subclass τ] (read : ReadRecord τ) : Bytes :=
  read.result.data.take (read.result.bytesRead.getD (Subclass.indeterminate read.turn)).toNat

namespace BufferProcessor

variable {τ : Type}

/-- The filled part of the buffer. -/
def buffered (s : BufferProcessor τ) : Bytes := s.mReadBuffer.1.take s.mReadBufferLen.toNat

/-- The bytes read so far. -/
def received [Subclass τ] (s : BufferProcessor τ) : Bytes := s.reads.flatMap ReadRecord.stored

end BufferProcessor

namespace BufferedStream

open BufferProcessor

/-- The buffer is a window on what has been received and not yet handed out. -/
structure Window (s : BufferedStream) : Prop where
  len_le : s.mReadBufferLen.toNat ≤ readBufferSize
  stream : s.handedOut ++ s.buffered = s.received

/-- Nothing is in a new buffer, and nothing has been received. -/
theorem window_create (memory : FixedBytes readBufferSize) :
    Window (create memory : BufferedStream) := by
  refine ⟨Nat.zero_le _, ?_⟩
  simp [create, buffered, received]

/-- The length says how much is in the buffer. -/
theorem Window.length_buffered {s : BufferedStream} (h : s.Window) :
    s.buffered.length = s.mReadBufferLen.toNat := by
  have hlen := h.len_le
  have hbuffer := s.mReadBuffer.2
  rw [buffered, List.length_take]
  omega

/-- The buffer holds no more than its size. -/
theorem Window.length_le {s : BufferedStream} (h : s.Window) :
    s.buffered.length ≤ readBufferSize := h.length_buffered ▸ h.len_le

/-- What has not been handed out is what the buffer holds. -/
theorem Window.drop_received {s : BufferedStream} (h : s.Window) :
    s.received.drop s.handedOut.length = s.buffered := by
  rw [← h.stream, List.drop_left]

/-- From one state to the other bytes have been read and none handed out. -/
structure Reads (s s' : BufferedStream) : Prop where
  window : s'.Window
  handedOut : s'.handedOut = s.handedOut
  received : s.received <+: s'.received

/-- To read nothing is to read some bytes, namely none. -/
theorem Window.reads_self {s : BufferedStream} (h : s.Window) : s.Reads s :=
  ⟨h, rfl, List.prefix_rfl⟩

/-- Where nothing more has been read, the buffer is the same. -/
theorem Reads.buffered_eq {s s' : BufferedStream} (h : s.Reads s') (hs : s.Window)
    (hreceived : s'.received = s.received) : s'.buffered = s.buffered := by
  rw [← h.window.drop_received, ← hs.drop_received, h.handedOut, hreceived]

/-- The bytes that a read has stored come after those of the buffer. -/
theorem take_overwrite {buffer : FixedBytes readBufferSize} {position : ℕ} {data : Bytes}
    (h : position + data.length ≤ readBufferSize) {count : ℕ} (hcount : count ≤ data.length) :
    (overwrite buffer position data h).1.take (position + count) =
      buffer.1.take position ++ data.take count := by
  have hposition : (buffer.1.take position).length = position := by
    have hbuffer := buffer.2
    rw [List.length_take]
    omega
  change (buffer.1.take position ++ data ++ buffer.1.drop (position + data.length)).take
    (position + count) = _
  rw [List.append_assoc, List.take_append, List.take_of_length_le (by omega), hposition,
    Nat.add_sub_cancel_left, List.take_append_of_le_length hcount]

/-- The number of bytes that `fillBuffer` asks for. -/
theorem Window.toNat_missing {s : BufferedStream} (h : s.Window) :
    (UInt32.ofNat readBufferSize - s.mReadBufferLen).toNat =
      readBufferSize - s.mReadBufferLen.toNat := by
  have hsize : (UInt32.ofNat readBufferSize).toNat = readBufferSize := rfl
  have hle : s.mReadBufferLen ≤ UInt32.ofNat readBufferSize := by
    rw [UInt32.le_iff_toNat_le, hsize]
    exact h.len_le
  rw [UInt32.toNat_sub_of_le _ _ hle, hsize]

/-- With room in the buffer it asks for something. -/
theorem Window.missing_ne_zero {s : BufferedStream} (h : s.Window)
    (hroom : s.buffered.length < readBufferSize) :
    UInt32.ofNat readBufferSize - s.mReadBufferLen ≠ 0 := by
  intro hzero
  have hmissing := h.toNat_missing
  have hnone : (0 : UInt32).toNat = 0 := rfl
  rw [hzero, hnone, ← h.length_buffered] at hmissing
  omega

/-- One more read adds the bytes that it has stored. -/
theorem received_concat {s s' : BufferedStream} {read : ReadRecord TransportTurn}
    (h : s'.reads = s.reads ++ [read]) : s'.received = s.received ++ read.stored := by
  unfold received
  rw [h, List.flatMap_append, List.flatMap_singleton]

/-- A read with room in the buffer: a successful one stores something, a failing one
nothing. -/
theorem Window.ends_fillBuffer {s : BufferedStream} (h : s.Window)
    (hroom : s.buffered.length < readBufferSize) (turn : TransportTurn) :
    ∃ (dataSize : UInt32) (s' : BufferedStream), dataSize ≠ 0 ∧
      Ends (fillBuffer turn) s (.ok (turn.read.answer dataSize).code) s' ∧ s.Reads s' ∧
      ((turn.read.answer dataSize).code = .success → s.received.length < s'.received.length) ∧
      ((turn.read.answer dataSize).code ≠ .success → s'.received = s.received) := by
  have hlen := h.length_buffered
  have hle := h.len_le
  have hmissing := h.toNat_missing
  have hnonzero := h.missing_ne_zero hroom
  generalize hdataSize : UInt32.ofNat readBufferSize - s.mReadBufferLen = dataSize at *
  have hdata := turn.read.length_le dataSize
  have hbytesRead := turn.read.bytesRead_le hnonzero
  have hsuccess := turn.read.success dataSize hnonzero
  have hfailure := turn.read.failure dataSize
  have hread : Subclass.read turn dataSize = some ⟨(turn.read.answer dataSize).code,
    some (turn.read.answer dataSize).bytesRead, (turn.read.answer dataSize).data⟩ := rfl
  generalize hresult : turn.read.answer dataSize = result at *
  have hfits : s.mReadBufferLen.toNat + result.data.length ≤ readBufferSize := by omega
  have hgrown : (s.mReadBufferLen + result.bytesRead).toNat =
      s.mReadBufferLen.toNat + result.bytesRead.toNat := by
    have hnumber : readBufferSize = 1024 := rfl
    rw [UInt32.toNat_add]
    omega
  let record : ReadRecord TransportTurn := ⟨s.mReadBufferLen, dataSize, turn,
    ⟨result.code, some result.bytesRead, result.data⟩, s.mReadBufferLen + result.bytesRead⟩
  let s' : BufferedStream := { s with
    mReadBuffer := overwrite s.mReadBuffer s.mReadBufferLen.toNat result.data hfits
    mReadBufferLen := s.mReadBufferLen + result.bytesRead
    reads := s.reads ++ [record] }
  have hstored : s'.received = s.received ++ record.stored := received_concat rfl
  have hreceived : s'.received = s.received ++ result.data.take result.bytesRead.toNat := hstored
  refine ⟨dataSize, s', hnonzero, ?_, ⟨⟨?_, ?_⟩, rfl, ?_⟩, ?_, ?_⟩
  · rw [hresult]
    refine ends_get_bind ?_
    rw [hdataSize, if_neg hnonzero, if_neg (Nat.not_lt.mpr hle), hread]
    simp only [dif_pos hfits]
    exact ends_set_bind (ends_pure _ _)
  · change (s.mReadBufferLen + result.bytesRead).toNat ≤ readBufferSize
    omega
  · rw [hreceived, buffered, hgrown, take_overwrite hfits hbytesRead, ← List.append_assoc]
    exact congrArg (· ++ _) h.stream
  · exact hreceived ▸ List.prefix_append _ _
  · intro hcode
    have hcounted := hsuccess (hresult ▸ hcode)
    rw [hreceived, List.length_append, List.length_take]
    omega
  · intro hcode
    rw [hreceived, hfailure (hresult ▸ hcode)]
    exact List.append_nil _

/-- With a full buffer `fillBuffer` does not read. -/
theorem Window.ends_fillBuffer_full {s : BufferedStream} (h : s.Window)
    (hfull : s.buffered.length = readBufferSize) (turn : TransportTurn) :
    Ends (fillBuffer turn) s (.ok .success) s := by
  have hlen : s.mReadBufferLen = UInt32.ofNat readBufferSize := by
    rw [← UInt32.toNat_inj, ← h.length_buffered, hfull]
    rfl
  have hmissing : UInt32.ofNat readBufferSize - s.mReadBufferLen = 0 := by
    rw [hlen, UInt32.sub_self]
  refine ends_get_bind ?_
  rw [if_pos hmissing]
  exact ends_pure _ _

/-- The bytes behind those taken out move to the front. -/
theorem take_shift {buffer : FixedBytes readBufferSize} {count len : ℕ}
    (h : count ≤ len ∧ len ≤ readBufferSize) :
    (shift buffer count len h).1.take (len - count) = (buffer.1.take len).drop count := by
  have hbuffer := buffer.2
  have hlength : ((buffer.1.drop count).take (len - count)).length = len - count := by
    rw [List.length_take, List.length_drop]
    omega
  rw [List.drop_take]
  exact List.take_left' hlength

/-- What the caller has no room for stays in the buffer. -/
theorem ends_extractBuffer_small {outputBufferSize extractCount : UInt32} (s : BufferedStream)
    (h : outputBufferSize < extractCount) :
    Ends (extractBuffer outputBufferSize extractCount) s (.ok (.bufferToSmall, [])) s := by
  refine ends_get_bind ?_
  rw [if_pos h]
  exact ends_pure _ _

/-- To take nothing violates the assertion. -/
theorem Window.ends_extractBuffer_zero {s : BufferedStream} (h : s.Window)
    (outputBufferSize : UInt32) :
    Ends (extractBuffer outputBufferSize 0) s (.error .aborted) s := by
  have hbounds : (0 : UInt32).toNat ≤ s.mReadBufferLen.toNat ∧
      s.mReadBufferLen.toNat ≤ readBufferSize := ⟨Nat.zero_le _, h.len_le⟩
  refine ends_get_bind ?_
  rw [if_neg (UInt32.not_lt.mpr UInt32.zero_le), dif_pos hbounds, if_pos (Or.inl rfl)]
  exact ends_throw _ _

/-- Bytes that are there are taken from the front. -/
theorem Window.ends_extractBuffer {outputBufferSize extractCount : UInt32} {s : BufferedStream}
    (h : s.Window) (hpositive : extractCount ≠ 0) (hcount : extractCount.toNat ≤ s.buffered.length)
    (hsize : extractCount ≤ outputBufferSize) :
    ∃ s' : BufferedStream, Ends (extractBuffer outputBufferSize extractCount) s
        (.ok (.success, s.buffered.take extractCount.toNat)) s' ∧
      s'.Window ∧ s'.received = s.received ∧
      s'.handedOut = s.handedOut ++ s.buffered.take extractCount.toNat := by
  rw [h.length_buffered] at hcount
  have hbounds : extractCount.toNat ≤ s.mReadBufferLen.toNat ∧
      s.mReadBufferLen.toNat ≤ readBufferSize := ⟨hcount, h.len_le⟩
  have htaken : s.mReadBuffer.1.take extractCount.toNat =
      s.buffered.take extractCount.toNat := by
    rw [buffered, List.take_take, Nat.min_eq_left hcount]
  have hlen : (s.mReadBufferLen - extractCount).toNat =
      s.mReadBufferLen.toNat - extractCount.toNat :=
    UInt32.toNat_sub_of_le _ _ (UInt32.le_iff_toNat_le.mpr hcount)
  have hzero : ¬(extractCount = 0 ∨ s.mReadBufferLen = 0) := by
    rintro (hcontra | hcontra)
    · exact hpositive hcontra
    · rw [hcontra] at hcount
      exact hpositive (UInt32.toNat_inj.mp (Nat.le_zero.mp hcount))
  let s' : BufferedStream := { s with
    mReadBuffer := shift s.mReadBuffer extractCount.toNat s.mReadBufferLen.toNat hbounds
    mReadBufferLen := s.mReadBufferLen - extractCount
    handedOut := s.handedOut ++ s.buffered.take extractCount.toNat }
  have hbuffered : s'.buffered = s.buffered.drop extractCount.toNat := by
    unfold buffered
    rw [hlen, take_shift]
  refine ⟨s', ends_get_bind ?_, ⟨?_, ?_⟩, rfl, rfl⟩
  · rw [if_neg (UInt32.not_lt.mpr hsize), dif_pos hbounds, if_neg hzero, htaken]
    exact ends_set_bind (ends_pure _ _)
  · change (s.mReadBufferLen - extractCount).toNat ≤ readBufferSize
    omega
  · calc s.handedOut ++ s.buffered.take extractCount.toNat ++ s'.buffered
      _ = s.handedOut ++ s.buffered := by
        rw [hbuffered, List.append_assoc, List.take_append_drop]
      _ = s.received := h.stream

/-- `findCharacter` finds the first one in the filled part. -/
theorem Window.ends_findCharacter {s : BufferedStream} (h : s.Window) (delimeter : UInt8) :
    Ends (findCharacter delimeter) s (.ok (s.buffered.findIdx? (· = delimeter))) s := by
  have hlen : ¬readBufferSize < s.mReadBufferLen.toNat := Nat.not_lt.mpr h.len_le
  refine ends_get_bind ?_
  unfold BufferProcessor.buffered
  cases (s.mReadBuffer.1.take s.mReadBufferLen.toNat).findIdx? (· = delimeter) with
  | some index => exact ends_pure _ _
  | none =>
    simp only [if_neg hlen]
    exact ends_pure _ _

/-- `bufferFull` says whether the filled part is the whole buffer. -/
theorem Window.ends_bufferFull {s : BufferedStream} (h : s.Window) :
    Ends bufferFull s (.ok (decide (s.buffered.length = readBufferSize))) s := by
  have hfull : s.mReadBufferLen = UInt32.ofNat readBufferSize ↔
      s.buffered.length = readBufferSize := by
    rw [h.length_buffered, ← UInt32.toNat_inj]
    exact Iff.rfl
  refine ends_get_bind ?_
  rw [← decide_eq_decide.mpr hfull]
  exact ends_pure _ _

end BufferedStream

namespace BufferProcessor

variable {τ τ' : Type} [Subclass τ] [Subclass τ']

/-- Two turns, of two subclasses, in which the same happens. -/
structure AnswersAs (turn : τ) (turn' : τ') : Prop where
  isTerminated : Subclass.isTerminated turn = Subclass.isTerminated turn'
  read : ∀ dataSize, dataSize ≠ 0 → ∃ result result',
    Subclass.read turn dataSize = some result ∧ Subclass.read turn' dataSize = some result' ∧
      result.code = result'.code ∧ result.data = result'.data ∧
      result.bytesRead.getD (Subclass.indeterminate turn) =
        result'.bytesRead.getD (Subclass.indeterminate turn')

/-- Two processors with the same members, which have read and handed out the same bytes. -/
structure Alike (s : BufferProcessor τ) (t : BufferProcessor τ') : Prop where
  mReadBuffer : s.mReadBuffer = t.mReadBuffer
  mReadBufferLen : s.mReadBufferLen = t.mReadBufferLen
  received : s.received = t.received
  handedOut : s.handedOut = t.handedOut

/-- Programs that look at processors which are alike find the same members. -/
theorem agree_members {α : Type} {next : BufferProcessor τ → BufferM τ α}
    {next' : BufferProcessor τ' → BufferM τ' α}
    (h : ∀ buffer len reads reads' handedOut,
      Alike ⟨buffer, len, reads, handedOut⟩ ⟨buffer, len, reads', handedOut⟩ →
      AgreeFrom Alike ⟨buffer, len, reads, handedOut⟩ ⟨buffer, len, reads', handedOut⟩
        (next ⟨buffer, len, reads, handedOut⟩) (next' ⟨buffer, len, reads', handedOut⟩)) :
    Agree Alike (get >>= next) (get >>= next') := by
  refine agree_get_bind fun s t hst => ?_
  obtain ⟨buffer, len, reads, handedOut⟩ := s
  obtain ⟨buffer', len', reads', handedOut'⟩ := t
  obtain ⟨rfl, rfl, hreceived, rfl⟩ := hst
  exact h buffer len reads reads' handedOut ⟨rfl, rfl, hreceived, rfl⟩

/-- With reads that answer alike `fillBuffer` does the same. -/
theorem agree_fillBuffer {turn : τ} {turn' : τ'} (h : AnswersAs turn turn') :
    Agree Alike (fillBuffer turn) (fillBuffer turn') := by
  refine agree_members fun buffer len reads reads' handedOut halike => ?_
  dsimp only
  by_cases hfull : UInt32.ofNat readBufferSize - len = 0
  · simp only [if_pos hfull]
    exact agreeFrom_pure halike _
  simp only [if_neg hfull]
  by_cases hlen : readBufferSize < len.toNat
  · simp only [if_pos hlen]
    exact agreeFrom_throw halike _
  simp only [if_neg hlen]
  obtain ⟨⟨code, bytesRead, data⟩, ⟨code', bytesRead', data'⟩, hread, hread', hcode, hdata, hcount⟩ :=
    h.read _ hfull
  obtain rfl : code = code' := hcode
  obtain rfl : data = data' := hdata
  dsimp only at hcount
  simp only [hread, hread']
  by_cases hfits : len.toNat + data.length ≤ readBufferSize
  · simp only [dif_pos hfits]
    refine ⟨rfl, rfl, congrArg (len + ·) hcount, ?_, rfl⟩
    have hreceived := halike.received
    unfold received at hreceived
    change (reads ++ [_]).flatMap _ = (reads' ++ [_]).flatMap _
    rw [List.flatMap_append, List.flatMap_append, hreceived, List.flatMap_singleton,
      List.flatMap_singleton]
    unfold ReadRecord.stored
    rw [hcount]
  · simp only [dif_neg hfits]
    exact agreeFrom_throw halike _

/-- `extractBuffer` depends on the members only. -/
theorem agree_extractBuffer (outputBufferSize extractCount : UInt32) :
    Agree (Alike : BufferProcessor τ → BufferProcessor τ' → Prop)
      (extractBuffer outputBufferSize extractCount)
      (extractBuffer outputBufferSize extractCount) := by
  refine agree_members fun buffer len reads reads' handedOut halike => ?_
  dsimp only
  by_cases hsmall : extractCount > outputBufferSize
  · simp only [if_pos hsmall]
    exact agreeFrom_pure halike _
  simp only [if_neg hsmall]
  by_cases hbounds : extractCount.toNat ≤ len.toNat ∧ len.toNat ≤ readBufferSize
  · simp only [dif_pos hbounds]
    by_cases hzero : extractCount = 0 ∨ len = 0
    · simp only [if_pos hzero]
      exact agreeFrom_throw halike _
    · simp only [if_neg hzero]
      exact ⟨rfl, rfl, rfl, halike.received, rfl⟩
  · simp only [dif_neg hbounds]
    exact agreeFrom_throw halike _

/-- `findCharacter` depends on the members only. -/
theorem agree_findCharacter (delimeter : UInt8) :
    Agree (Alike : BufferProcessor τ → BufferProcessor τ' → Prop) (findCharacter delimeter)
      (findCharacter delimeter) := by
  refine agree_members fun buffer len reads reads' handedOut halike => ?_
  dsimp only
  cases (buffer.1.take len.toNat).findIdx? (· = delimeter) with
  | some index => exact agreeFrom_pure halike _
  | none => exact agree_ite (agree_throw _) (agree_pure _) _ _ halike

/-- `bufferFull` depends on the members only. -/
theorem agree_bufferFull :
    Agree (Alike : BufferProcessor τ → BufferProcessor τ' → Prop) bufferFull bufferFull :=
  agree_members fun _ _ _ _ _ halike => agreeFrom_pure halike _

/-- `extractSome` depends on the members only. -/
theorem agree_extractSome (bufferSize : UInt32) :
    Agree (Alike : BufferProcessor τ → BufferProcessor τ' → Prop) (extractSome bufferSize)
      (extractSome bufferSize) :=
  agree_members fun _ _ _ _ _ halike => agree_extractBuffer _ _ _ _ halike

/-- With a read that answers alike `readSome` does the same. -/
theorem agree_readSome (bufferSize : UInt32) {turn : τ} {turn' : τ'} (h : AnswersAs turn turn') :
    Agree Alike (readSome bufferSize turn) (readSome bufferSize turn') := by
  refine agree_members fun buffer len reads reads' handedOut halike => ?_
  refine agree_ite ?_ (agree_extractSome bufferSize) _ _ halike
  exact agree_bind (agree_fillBuffer h) fun rval =>
    agree_ite (agree_pure (rval, [])) (agree_extractSome bufferSize)

/-- Each turn of the loop does the same, so the whole loop does. -/
theorem agree_readDelimeter (outputSize : UInt32) {turns : List τ} {turns' : List τ'}
    (h : List.Forall₂ AnswersAs turns turns') :
    Agree Alike (readDelimeter outputSize turns) (readDelimeter outputSize turns') := by
  induction h with
  | nil => exact agree_throw _
  | cons hturn _ ih =>
    unfold readDelimeter
    rw [hturn.isTerminated]
    refine agree_ite (agree_pure _) (agree_bind (agree_findCharacter _) fun found => ?_)
    cases found with
    | some index => exact agree_extractBuffer _ _
    | none =>
      refine agree_bind agree_bufferFull fun full => agree_ite (agree_pure _) ?_
      exact agree_bind (agree_fillBuffer hturn) fun rval =>
        agree_ite (agree_throw _) (agree_ite (agree_pure _) ih)

/-- A processor on Linux returns the lines that one over another transport does, if the reads
answer as its reads do. -/
theorem agree_readLine (lineSize : UInt32) {turns : List τ} {turns' : List τ'}
    (h : List.Forall₂ AnswersAs turns turns') :
    Agree Alike (readLine lineSize turns) (readLine lineSize turns') :=
  agree_bind (agree_readDelimeter lineSize h) fun _ => agree_ite (agree_pure _) (agree_pure _)

/-- What a read on Linux returns whose `recv`, if it is called, does not fail: success with
the bytes that have arrived and their number, or no success and no bytes. -/
theorem cpplNixRead_cases {dataSize : UInt32} {env : ReadEnv} {result : ReadResult ErrorCode}
    (h : cpplNixRead.read dataSize env = some result)
    (hrecv : cpplNixRead.ReachesRecv env → env.recv ≠ .failed) :
    (∃ (bytes : Bytes) (bytesRead : UInt32), bytes ≠ [] ∧ bytesRead.toNat = bytes.length ∧
      result = ⟨.success, some bytesRead, bytes⟩) ∨
    result.code ≠ .success ∧ result.data = [] ∧
      (cpplNixRead.ReachesRecv env → result.bytesRead = some 0) ∧
      (¬cpplNixRead.ReachesRecv env → result.bytesRead = none) := by
  by_cases hreaches : cpplNixRead.ReachesRecv env
  · cases hreceived : env.recv with
    | failed => exact absurd hreceived (hrecv hreaches)
    | received bytes =>
      by_cases hnil : bytes.take (cpplNixRead.limit dataSize.toNat) = []
      · rw [Reader.read_nix_closed (fun _ _ => rfl) hreaches hreceived hnil,
          Option.some.injEq] at h
        subst h
        exact Or.inr ⟨by decide, rfl, fun _ => rfl, fun hnot => absurd hreaches hnot⟩
      · have hcount := Reader.toNat_ofInt_received cpplNixRead bytes dataSize
        rw [Reader.read_nix_received (fun _ _ => rfl) hreaches hreceived hnil,
          Option.some.injEq] at h
        subst h
        exact Or.inl ⟨_, _, hnil, hcount, rfl⟩
  · obtain ⟨hnone, hdata, hcode⟩ := Reader.read_of_not_reachesRecv hreaches h
    exact Or.inr ⟨hcode, hdata, fun hcontra => absurd hcontra hreaches, fun _ => hnone⟩

/-- A read on Linux that returns, whose `recv` does not fail and which leaves a count of zero
if it ends before `recv`, keeps to the contract. -/
theorem exists_answersAs {turn : ReadTurn}
    (hreturns : ∀ dataSize, ∃ result, cpplNixRead.read dataSize turn.env = some result)
    (hrecv : cpplNixRead.ReachesRecv turn.env → turn.env.recv ≠ .failed)
    (hindeterminate : ¬cpplNixRead.ReachesRecv turn.env → turn.indeterminate = 0) :
    ∃ turn' : TransportTurn, AnswersAs turn turn' := by
  choose result hresult using hreturns
  have hcases := fun dataSize => cpplNixRead_cases (hresult dataSize) hrecv
  have hnone {dataSize : UInt32} (hcode : (result dataSize).code ≠ .success) :
      (result dataSize).bytesRead.getD turn.indeterminate = 0 := by
    rcases hcases dataSize with ⟨bytes, bytesRead, -, -, heq⟩ | ⟨-, -, hreached, hunreached⟩
    · rw [heq] at hcode
      exact absurd rfl hcode
    · by_cases hreaches : cpplNixRead.ReachesRecv turn.env
      · rw [hreached hreaches, Option.getD_some]
      · rw [hunreached hreaches, Option.getD_none, hindeterminate hreaches]
  have hsome {dataSize : UInt32} (hcode : (result dataSize).code = .success) :
      0 < (result dataSize).data.length ∧
        ((result dataSize).bytesRead.getD turn.indeterminate).toNat =
          (result dataSize).data.length := by
    rcases hcases dataSize with ⟨bytes, bytesRead, hne, hcount, heq⟩ | ⟨hcontra, -⟩
    · rw [heq, Option.getD_some]
      exact ⟨List.length_pos_iff.mpr hne, hcount⟩
    · exact absurd hcode hcontra
  let read : TransportRead := {
    answer := fun dataSize => ⟨(result dataSize).code, (result dataSize).data,
      (result dataSize).bytesRead.getD turn.indeterminate⟩
    length_le := fun dataSize => Reader.length_data_le (hresult dataSize)
    success := fun _ _ hcode => hsome hcode
    failure := fun _ hcode => hnone hcode }
  exact ⟨⟨turn.terminated, read⟩, rfl, fun dataSize _ =>
    ⟨_, _, hresult dataSize, rfl, rfl, rfl, rfl⟩⟩

end BufferProcessor

end San2.Cppl
