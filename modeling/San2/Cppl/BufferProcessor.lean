import San2.Network.SocketReader
import San2.Library.StoppingProgram

/-!
# The read buffer of a pipe

`BufferProcessor` collects what it reads in a buffer of 1024 bytes and hands out lines and
blocks from its front. How it reads is left to the subclasses; on Linux `read` is
`cppl_nix_read`. A call that violates an assertion, leaves the buffer or does not return stops
the program. Every read is recorded, and every byte that is handed out.
-/

namespace San2.Cppl

open San2.Network StoppingProgram

/-- `ErrorCode` -/
inductive ErrorCode
  | success
  | failure
  | terminated
  | timeout
  | peerDisconnect
  | requestDisconnect
  | illegalCharacterReceived
  | segmentTooLong
  | bufferToSmall
  deriving DecidableEq, Repr

/-- The checks after `select` in `cppl_nix_read`. -/
def turn (event : SelectEvent) : Option WaitEnd :=
  if event.interrupted then
    if event.terminated then some .terminated else none
  else if event.terminated then some .terminated
  else if event.selRval = 0 then none
  else if event.selRval < 0 then some .failed
  else some .readable

/-- `cppl_nix_read` -/
def cpplNixRead : Reader ErrorCode where
  success := .success
  failure := .failure
  terminated := .terminated
  turn := turn
  limit dataSize := dataSize
  check bytesRead _ := nixCheck .peerDisconnect .failure bytesRead
  limit_le _ := le_rfl
  failure_ne := by decide
  terminated_ne := by decide
  check_ne h := nixCheck_ne (by decide) (by decide) h

/-- The result of a call is sound exactly when `recv`, if it is called, does not fail. -/
theorem sound_cpplNixRead_iff {dataSize : UInt32} {env : ReadEnv}
    {result : ReadResult ErrorCode} (h : cpplNixRead.read dataSize env = some result) :
    cpplNixRead.Sound dataSize env result ↔
      (cpplNixRead.ReachesRecv env → env.recv ≠ .failed) :=
  Reader.sound_nix_iff (fun _ _ => rfl) h

/-- `mReadBufferSize` -/
abbrev readBufferSize : ℕ := 1024

/-- A subclass of `BufferProcessor`: what its methods do, by what one turn of a reading loop is
told. -/
class Subclass (τ : Type) where
  /-- `isTerminated()` at the beginning of the turn. -/
  isTerminated : τ → Bool
  /-- What the variable `bytesRead` holds before anything is stored in it. -/
  indeterminate : τ → UInt32
  /-- `read`, with the number of bytes asked for. There is no result if it does not return. -/
  read : τ → UInt32 → Option (ReadResult ErrorCode)

/-- One call of `read` by `fillBuffer`. -/
structure ReadRecord (τ : Type) where
  lenBefore : UInt32
  dataSize : UInt32
  turn : τ
  result : ReadResult ErrorCode
  lenAfter : UInt32

/-- The members of a `BufferProcessor`, the reads so far and what has been handed out. -/
structure BufferProcessor (τ : Type) where
  mReadBuffer : FixedBytes readBufferSize
  mReadBufferLen : UInt32
  reads : List (ReadRecord τ)
  handedOut : Bytes

/-- A method of a `BufferProcessor`. -/
abbrev BufferM (τ : Type) := Program Stop (BufferProcessor τ)

/-- A buffer in which bytes have been overwritten. -/
def overwrite (buffer : FixedBytes readBufferSize) (position : ℕ) (data : Bytes)
    (h : position + data.length ≤ readBufferSize) : FixedBytes readBufferSize :=
  ⟨buffer.1.take position ++ data ++ buffer.1.drop (position + data.length), by
    have hbuffer := buffer.2
    simp only [List.length_append, List.length_take, List.length_drop, hbuffer]
    omega⟩

/-- A buffer whose first `count` bytes have been taken out, of `len` that were filled. -/
def shift (buffer : FixedBytes readBufferSize) (count len : ℕ)
    (h : count ≤ len ∧ len ≤ readBufferSize) : FixedBytes readBufferSize :=
  ⟨(buffer.1.drop count).take (len - count) ++ buffer.1.drop (len - count), by
    have hbuffer := buffer.2
    simp only [List.length_append, List.length_take, List.length_drop, hbuffer]
    omega⟩

namespace BufferProcessor

variable {τ : Type}

/-- `BufferProcessor::BufferProcessor` leaves the buffer as it is. -/
def create (memory : FixedBytes readBufferSize) : BufferProcessor τ := ⟨memory, 0, [], []⟩

/-- `BufferProcessor::fillBuffer`. The length grows by `bytesRead` whatever `read` returns. -/
def fillBuffer [Subclass τ] (turn : τ) : BufferM τ ErrorCode := do
  let s ← get
  let remainingLen := UInt32.ofNat readBufferSize - s.mReadBufferLen
  if remainingLen = 0 then return .success
  else if readBufferSize < s.mReadBufferLen.toNat then throw .outOfBounds
  else
    match Subclass.read turn remainingLen with
    | none => throw .waiting
    | some result =>
      if h : s.mReadBufferLen.toNat + result.data.length ≤ readBufferSize then
        let lenAfter := s.mReadBufferLen + result.bytesRead.getD (Subclass.indeterminate turn)
        let record : ReadRecord τ := ⟨s.mReadBufferLen, remainingLen, turn, result, lenAfter⟩
        set { s with
          mReadBuffer := overwrite s.mReadBuffer s.mReadBufferLen.toNat result.data h
          mReadBufferLen := lenAfter
          reads := s.reads ++ [record] }
        return result.code
      else throw .outOfBounds

/-- `BufferProcessor::extractBuffer` with `cppl_extract_buffer`: the code and the bytes that
were taken out. -/
def extractBuffer (outputBufferSize extractCount : UInt32) : BufferM τ (ErrorCode × Bytes) := do
  let s ← get
  if extractCount > outputBufferSize then return (.bufferToSmall, [])
  else if h : extractCount.toNat ≤ s.mReadBufferLen.toNat ∧
      s.mReadBufferLen.toNat ≤ readBufferSize then
    if extractCount = 0 ∨ s.mReadBufferLen = 0 then throw .aborted
    else
      let output := s.mReadBuffer.1.take extractCount.toNat
      set { s with
        mReadBuffer := shift s.mReadBuffer extractCount.toNat s.mReadBufferLen.toNat h
        mReadBufferLen := s.mReadBufferLen - extractCount
        handedOut := s.handedOut ++ output }
      return (.success, output)
  else throw .aborted

/-- `findCharacter` on the filled part of the buffer. -/
def findCharacter (delimeter : UInt8) : BufferM τ (Option ℕ) := do
  let s ← get
  match (s.mReadBuffer.1.take s.mReadBufferLen.toNat).findIdx? (· = delimeter) with
  | some index => return some index
  | none => if readBufferSize < s.mReadBufferLen.toNat then throw .outOfBounds else return none

/-- `BufferProcessor::bufferFull` -/
def bufferFull : BufferM τ Bool := do
  let s ← get
  return s.mReadBufferLen = UInt32.ofNat readBufferSize

/-- The second half of `BufferProcessor::readSome`. -/
def extractSome (bufferSize : UInt32) : BufferM τ (ErrorCode × Bytes) := do
  let s ← get
  let bytesRead := if bufferSize ≥ s.mReadBufferLen then s.mReadBufferLen else bufferSize
  extractBuffer bufferSize bytesRead

/-- `BufferProcessor::readSome` -/
def readSome [Subclass τ] (bufferSize : UInt32) (turn : τ) : BufferM τ (ErrorCode × Bytes) := do
  let s ← get
  if bufferSize > s.mReadBufferLen then
    let rval ← fillBuffer turn
    if rval ≠ .success then return (rval, [])
    else extractSome bufferSize
  else extractSome bufferSize

/-- `BufferProcessor::readDelimeter`, which always looks for a line feed. When the turns are used
up, the loop goes on. -/
def readDelimeter [Subclass τ] (outputSize : UInt32) : List τ → BufferM τ (ErrorCode × Bytes)
  | [] => throw .waiting
  | turn :: turns => do
    if Subclass.isTerminated turn then return (.terminated, [])
    else
      match ← findCharacter 0x0A with
      | some index => extractBuffer outputSize (UInt32.ofNat (index + 1))
      | none =>
        if ← bufferFull then return (.segmentTooLong, [])
        else
          let rval ← fillBuffer turn
          if rval = .failure then throw .aborted
          else if rval ≠ .success then return (rval, [])
          else readDelimeter outputSize turns

/-- The characters that `readLine` refuses. -/
def illegal (c : UInt8) : Bool := c ≤ 9 || (11 ≤ c && c ≤ 31)

/-- What `readLine` does with a line. -/
def checkLine (line : Bytes) : ErrorCode × Bytes :=
  if line = [] then (.success, line)
  else if line.any illegal then (.illegalCharacterReceived, line)
  else if line.getLast? ≠ some 0x0A then (.failure, line)
  else (.success, line.dropLast ++ [0])

/-- `BufferProcessor::readLine`: the code and the terminated string. -/
def readLine [Subclass τ] (lineSize : UInt32) (turns : List τ) : BufferM τ (ErrorCode × Bytes) := do
  let (rval, line) ← readDelimeter lineSize turns
  if rval ≠ .success then return (rval, line)
  else return checkLine line

end BufferProcessor

/-- A call on a `BufferProcessor`, with all that it is told. -/
inductive BufferCall (τ : Type)
  | readSome (bufferSize : UInt32) (turn : τ)
  | readDelimeter (outputSize : UInt32) (turns : List τ)
  | readLine (lineSize : UInt32) (turns : List τ)

/-- The call is made. -/
def BufferCall.perform {τ : Type} [Subclass τ] : BufferCall τ → BufferM τ (ErrorCode × Bytes)
  | readSome bufferSize turn => BufferProcessor.readSome bufferSize turn
  | readDelimeter outputSize turns => BufferProcessor.readDelimeter outputSize turns
  | readLine lineSize turns => BufferProcessor.readLine lineSize turns

/-- A new `BufferProcessor` on which the calls have been made, one after the other until one
of them stops the program. -/
def BufferProcessor.runCalls {τ : Type} [Subclass τ] (memory : FixedBytes readBufferSize)
    (calls : List (BufferCall τ)) : BufferProcessor τ :=
  after (runAll (calls.map BufferCall.perform)) (create memory)

/-- What one turn of a reading loop is told on Linux. -/
structure ReadTurn where
  terminated : Bool
  indeterminate : UInt32
  env : ReadEnv

/-- On Linux `read` is `cppl_nix_read`. -/
instance : Subclass ReadTurn where
  isTerminated := ReadTurn.terminated
  indeterminate := ReadTurn.indeterminate
  read turn dataSize := cpplNixRead.read dataSize turn.env

/-- The read is sound and the length that it leaves is one of the buffer. -/
structure ReadRecord.Safe (read : ReadRecord ReadTurn) : Prop where
  sound : cpplNixRead.Sound read.dataSize read.turn.env read.result
  lenAfter_le : read.lenAfter.toNat ≤ readBufferSize

/-- The read does not fail in `recv`, and if it ends before that, what `bytesRead` holds by
chance does no harm. -/
structure ReadRecord.Regular (read : ReadRecord ReadTurn) : Prop where
  recv : cpplNixRead.ReachesRecv read.turn.env → read.turn.env.recv ≠ .failed
  indeterminate : ¬cpplNixRead.ReachesRecv read.turn.env →
    (read.lenBefore + read.turn.indeterminate).toNat ≤ readBufferSize

/-- The length never exceeds the size of the buffer, and all reads are sound. -/
structure BufferProcessor.Safe (s : BufferProcessor ReadTurn) : Prop where
  mReadBufferLen_le : s.mReadBufferLen.toNat ≤ readBufferSize
  reads : ∀ read ∈ s.reads, read.Safe

/-- All reads are regular. -/
def BufferProcessor.Regular (s : BufferProcessor ReadTurn) : Prop := ∀ read ∈ s.reads, read.Regular

/-- A read that begins with a valid length and asks for what is missing is safe exactly when
it is regular. -/
theorem ReadRecord.safe_iff_regular {len : UInt32} {turn : ReadTurn}
    {result : ReadResult ErrorCode} (hlen : len.toNat ≤ readBufferSize)
    (h : cpplNixRead.read (UInt32.ofNat readBufferSize - len) turn.env = some result) :
    let read : ReadRecord ReadTurn := ⟨len, UInt32.ofNat readBufferSize - len, turn, result,
      len + result.bytesRead.getD turn.indeterminate⟩
    read.Safe ↔ read.Regular := by
  have hsound := sound_cpplNixRead_iff h
  have hmissing : (UInt32.ofNat readBufferSize - len).toNat = readBufferSize - len.toNat := by
    have hsize : (UInt32.ofNat readBufferSize).toNat = readBufferSize := rfl
    rw [UInt32.toNat_sub_of_le _ _ (UInt32.le_iff_toNat_le.mpr (hsize ▸ hlen)), hsize]
  intro read
  by_cases hreaches : cpplNixRead.ReachesRecv turn.env
  · constructor
    · intro hsafe
      exact ⟨hsound.mp hsafe.sound, fun hcontra => absurd hreaches hcontra⟩
    · intro hregular
      refine ⟨hsound.mpr hregular.recv, ?_⟩
      cases hrecv : turn.env.recv with
      | failed => exact absurd hrecv (hregular.recv hreaches)
      | received bytes =>
        have hcount := Reader.toNat_ofInt_received cpplNixRead bytes
          (UInt32.ofNat readBufferSize - len)
        have hlimit := cpplNixRead.limit_le (UInt32.ofNat readBufferSize - len).toNat
        have hstored := Reader.bytesRead_of_reachesRecv hreaches h
        rw [hrecv] at hstored
        rw [List.length_take] at hcount
        simp only [read, hstored, Option.getD_some, UInt32.toNat_add, hcount]
        omega
  · have hnone := (Reader.read_of_not_reachesRecv hreaches h).1
    have hafter : read.lenAfter = len + turn.indeterminate := by
      simp only [read, hnone, Option.getD_none]
    constructor
    · intro hsafe
      exact ⟨hsound.mp hsafe.sound, fun _ => hafter ▸ hsafe.lenAfter_le⟩
    · intro hregular
      exact ⟨hsound.mpr hregular.recv, hafter ▸ hregular.indeterminate hreaches⟩

namespace BufferProcessor

/-- So far the buffer is safe exactly when the reads are regular. -/
def Inv (s : BufferProcessor ReadTurn) : Prop := s.Safe ↔ s.Regular

/-- A new buffer has read nothing. -/
theorem inv_create (memory : FixedBytes readBufferSize) :
    (create memory : BufferProcessor ReadTurn).Inv := by
  constructor
  · intro _ read hread
    exact absurd hread List.not_mem_nil
  · intro _
    exact ⟨Nat.zero_le _, fun read hread => absurd hread List.not_mem_nil⟩

/-- One more read, and the length that it leaves. -/
theorem Inv.read {s s' : BufferProcessor ReadTurn} (h : s.Inv)
    (hlen : s.mReadBufferLen.toNat ≤ readBufferSize) {read : ReadRecord ReadTurn}
    (hreads : s'.reads = s.reads ++ [read]) (hafter : s'.mReadBufferLen = read.lenAfter)
    (hread : read.Safe ↔ read.Regular) : s'.Inv := by
  constructor
  · intro hsafe
    have hall := hsafe.reads
    rw [hreads, List.forall_mem_append, List.forall_mem_singleton] at hall
    have hregular := h.mp ⟨hlen, hall.1⟩
    rw [Regular, hreads, List.forall_mem_append, List.forall_mem_singleton]
    exact ⟨hregular, hread.mp hall.2⟩
  · intro hregular
    rw [Regular, hreads, List.forall_mem_append, List.forall_mem_singleton] at hregular
    have hlast := hread.mpr hregular.2
    refine ⟨hafter ▸ hlast.lenAfter_le, ?_⟩
    rw [hreads, List.forall_mem_append, List.forall_mem_singleton]
    exact ⟨(h.mpr hregular.1).reads, hlast⟩

/-- Taking bytes out of the buffer reads nothing and leaves a valid length valid. -/
theorem Inv.extract {s s' : BufferProcessor ReadTurn} (h : s.Inv)
    (hlen : s.mReadBufferLen.toNat ≤ readBufferSize) (hreads : s'.reads = s.reads)
    (hafter : s'.mReadBufferLen.toNat ≤ readBufferSize) : s'.Inv := by
  have hregular : s'.Regular ↔ s.Regular := by rw [Regular, Regular, hreads]
  constructor
  · intro hsafe
    exact hregular.mpr (h.mp ⟨hlen, hreads ▸ hsafe.reads⟩)
  · intro hreg
    exact ⟨hafter, hreads ▸ (h.mpr (hregular.mp hreg)).reads⟩

/-- A read is recorded with the length that it leaves, so it is safe exactly if it is regular. -/
theorem keeps_fillBuffer (turn : ReadTurn) : Keeps Inv (fillBuffer turn) := by
  refine keeps_get_bind fun s => ?_
  by_cases hfull : UInt32.ofNat readBufferSize - s.mReadBufferLen = 0
  · rw [if_pos hfull]
    exact keepsFrom_pure s _
  rw [if_neg hfull]
  by_cases hlen : readBufferSize < s.mReadBufferLen.toNat
  · rw [if_pos hlen]
    exact keeps_throw _ s
  rw [if_neg hlen]
  cases hread : Subclass.read turn (UInt32.ofNat readBufferSize - s.mReadBufferLen) with
  | none => exact keeps_throw _ s
  | some result =>
    simp only
    by_cases hfits : s.mReadBufferLen.toNat + result.data.length ≤ readBufferSize
    · rw [dif_pos hfits]
      intro hinv
      exact hinv.read (not_lt.mp hlen) rfl rfl
        (ReadRecord.safe_iff_regular (not_lt.mp hlen) hread)
    · rw [dif_neg hfits]
      exact keeps_throw _ s

/-- Bytes that are taken out were in the buffer. -/
theorem keeps_extractBuffer (outputBufferSize extractCount : UInt32) :
    Keeps Inv (extractBuffer outputBufferSize extractCount) := by
  refine keeps_get_bind fun s => ?_
  by_cases hsmall : extractCount > outputBufferSize
  · rw [if_pos hsmall]
    exact keepsFrom_pure s _
  rw [if_neg hsmall]
  by_cases hcount : extractCount.toNat ≤ s.mReadBufferLen.toNat ∧
      s.mReadBufferLen.toNat ≤ readBufferSize
  · rw [dif_pos hcount]
    by_cases hzero : extractCount = 0 ∨ s.mReadBufferLen = 0
    · rw [if_pos hzero]
      exact keeps_throw _ s
    · rw [if_neg hzero]
      intro hinv
      have hafter : (s.mReadBufferLen - extractCount).toNat ≤ readBufferSize := by
        rw [UInt32.toNat_sub_of_le _ _ (UInt32.le_iff_toNat_le.mpr hcount.1)]
        omega
      exact hinv.extract hcount.2 rfl hafter
  · rw [dif_neg hcount]
    exact keeps_throw _ s

/-- To look for a character changes nothing. -/
theorem keeps_findCharacter (delimeter : UInt8) : Keeps Inv (findCharacter delimeter) := by
  refine keeps_get_bind fun s => ?_
  split
  · exact keepsFrom_pure s _
  · exact keeps_ite (keeps_throw _) (keeps_pure _) s

/-- To ask whether the buffer is full changes nothing. -/
theorem keeps_bufferFull : Keeps Inv bufferFull :=
  keeps_get_bind fun s => keepsFrom_pure s _

/-- `extractSome` takes bytes out. -/
theorem keeps_extractSome (bufferSize : UInt32) : Keeps Inv (extractSome bufferSize) :=
  keeps_get_bind fun s => keeps_extractBuffer _ _ s

/-- `readSome` may read and may take bytes out. -/
theorem keeps_readSome (bufferSize : UInt32) (turn : ReadTurn) :
    Keeps Inv (readSome bufferSize turn) := by
  refine keeps_get_bind fun s => ?_
  have hfill : Keeps Inv (fillBuffer turn >>= fun rval =>
      if rval ≠ .success then pure (rval, []) else extractSome bufferSize) :=
    keeps_bind (keeps_fillBuffer turn) fun rval =>
      keeps_ite (keeps_pure _) (keeps_extractSome bufferSize)
  exact keeps_ite hfill (keeps_extractSome bufferSize) s

/-- Each turn of the loop keeps the invariant, so the whole loop does. -/
theorem keeps_readDelimeter (outputSize : UInt32) (turns : List ReadTurn) :
    Keeps Inv (readDelimeter outputSize turns) := by
  induction turns with
  | nil => exact keeps_throw _
  | cons turn turns ih =>
    refine keeps_ite (keeps_pure _) (keeps_bind (keeps_findCharacter _) fun found => ?_)
    cases found with
    | some index => exact keeps_extractBuffer _ _
    | none =>
      refine keeps_bind keeps_bufferFull fun full => keeps_ite (keeps_pure _) ?_
      exact keeps_bind (keeps_fillBuffer turn) fun rval =>
        keeps_ite (keeps_throw _) (keeps_ite (keeps_pure _) ih)

/-- What `readLine` does with a line changes nothing. -/
theorem keeps_readLine (lineSize : UInt32) (turns : List ReadTurn) :
    Keeps Inv (readLine lineSize turns) :=
  keeps_bind (keeps_readDelimeter lineSize turns) fun _ =>
    keeps_ite (keeps_pure _) (keeps_pure _)

end BufferProcessor

/-- Every call keeps the invariant. -/
theorem BufferCall.keeps_perform (call : BufferCall ReadTurn) :
    Keeps BufferProcessor.Inv call.perform := by
  cases call with
  | readSome bufferSize turn => exact BufferProcessor.keeps_readSome bufferSize turn
  | readDelimeter outputSize turns => exact BufferProcessor.keeps_readDelimeter outputSize turns
  | readLine lineSize turns => exact BufferProcessor.keeps_readLine lineSize turns

/-- After any sequence of calls the buffer is safe exactly when all reads were regular. -/
theorem BufferProcessor.inv_runCalls (memory : FixedBytes readBufferSize)
    (calls : List (BufferCall ReadTurn)) : (runCalls memory calls).Inv := by
  refine keeps_runAll (fun program hprogram => ?_) _ (inv_create memory)
  obtain ⟨call, -, rfl⟩ := List.mem_map.mp hprogram
  exact call.keeps_perform

end San2.Cppl
