import San2.Tcp.TcpHelper
import San2.Cppl.BufferProcessor

/-!
# What the readers of the two transports do to their buffers

`TcpStreamRW::readSomeAppend` reads into a buffer of its own and copies from there as many
bytes as the reader reports. Together with the buffer of a pipe these are the places where
the number that a reader reports is trusted.
-/

namespace San2.Comm

open San2.Network San2.Tcp.TcpHelper San2.Cppl StoppingProgram
open San2.Tcp (TcpErrorCode)

/-- One call of `readSomeAppend`. -/
structure AppendRecord where
  maxCount : UInt32
  env : ReadEnv
  result : ReadResult TcpErrorCode
  /-- The number of bytes that are copied out of the buffer. -/
  copied : ℕ

/-- The buffer of a `TcpStreamRW`, and the calls so far. -/
structure RsapBuffer (maxSingleReadSize : ℕ) where
  rsapBuffer : FixedBytes maxSingleReadSize
  appends : List AppendRecord

/-- A call of `readSomeAppend`, with all that it is told. -/
structure AppendCall where
  maxCount : UInt32
  /-- What the variable `bytesRead` holds before anything is stored in it. -/
  indeterminate : UInt32
  env : ReadEnv

variable {maxSingleReadSize : ℕ}

/-- The bytes at the beginning of the buffer have been overwritten. -/
def refill (buffer : FixedBytes maxSingleReadSize) (data : Bytes)
    (h : data.length ≤ maxSingleReadSize) : FixedBytes maxSingleReadSize :=
  ⟨data ++ buffer.1.drop data.length, by
    have hbuffer := buffer.2
    simp only [List.length_append, List.length_drop, hbuffer]
    omega⟩

/-- The number of bytes that `readSomeAppend` copies. -/
def copyCount (code : TcpErrorCode) (bytesRead : UInt32) : ℕ :=
  if code ≠ .success then 0
  else if bytesRead ≤ 0 then 0
  else bytesRead.toNat

/-- `TcpStreamRW::readSomeAppend`: the returned `int` and the bytes that are appended. -/
def AppendCall.readSomeAppend (platform : Platform) (call : AppendCall) :
    Program Stop (RsapBuffer maxSingleReadSize) (ℤ × Bytes) := do
  let s ← get
  match (sockReadStream platform).read call.maxCount call.env with
  | none => throw .waiting
  | some result =>
    if h : result.data.length ≤ maxSingleReadSize then
      let bytesRead := result.bytesRead.getD call.indeterminate
      let copied := copyCount result.code bytesRead
      let record : AppendRecord := ⟨call.maxCount, call.env, result, copied⟩
      set (RsapBuffer.mk (refill s.rsapBuffer result.data h) (s.appends ++ [record]))
      if result.code ≠ .success then return (-1, [])
      else if bytesRead ≤ 0 then return (-1, [])
      else if maxSingleReadSize < copied then throw .outOfBounds
      else return (unsignedToInt bytesRead, (refill s.rsapBuffer result.data h).1.take copied)
    else throw .outOfBounds

namespace AppendRecord

/-- The read is sound and no more than `maxCount` bytes are copied. -/
structure Safe (platform : Platform) (append : AppendRecord) : Prop where
  sound : (sockReadStream platform).Sound append.maxCount append.env append.result
  copied_le : append.copied ≤ append.maxCount.toNat

/-- The result of `recv` is not misjudged. -/
def Regular (platform : Platform) (append : AppendRecord) : Prop :=
  (sockReadStream platform).ReachesRecv append.env →
    ¬Misjudged platform append.maxCount append.env

/-- A call is safe exactly when its `recv` is not misjudged. -/
theorem safe_iff_regular {platform : Platform} {call : AppendCall}
    {result : ReadResult TcpErrorCode}
    (h : (sockReadStream platform).read call.maxCount call.env = some result) :
    let append : AppendRecord := ⟨call.maxCount, call.env, result,
      copyCount result.code (result.bytesRead.getD call.indeterminate)⟩
    append.Safe platform ↔ append.Regular platform := by
  intro append
  have hsound := sound_iff h
  constructor
  · intro hsafe
    exact hsound.mp hsafe.sound
  · intro hregular
    refine ⟨hsound.mpr hregular, ?_⟩
    change copyCount result.code (result.bytesRead.getD call.indeterminate) ≤ _
    unfold copyCount
    split_ifs with hcode hzero
    · exact Nat.zero_le _
    · exact Nat.zero_le _
    · obtain ⟨bytesRead, hstored, -, hle⟩ :=
        (hsound.mpr hregular).bytesRead (not_not.mp hcode)
      rw [hstored, Option.getD_some]
      exact UInt32.le_iff_toNat_le.mp hle

end AppendRecord

namespace RsapBuffer

/-- All calls are safe. -/
def Safe (platform : Platform) (s : RsapBuffer maxSingleReadSize) : Prop :=
  ∀ append ∈ s.appends, append.Safe platform

/-- All calls are regular. -/
def Regular (platform : Platform) (s : RsapBuffer maxSingleReadSize) : Prop :=
  ∀ append ∈ s.appends, append.Regular platform

/-- So far the calls are safe exactly when they are regular. -/
def Inv (platform : Platform) (s : RsapBuffer maxSingleReadSize) : Prop :=
  s.Safe platform ↔ s.Regular platform

/-- One more call. -/
theorem Inv.append {platform : Platform} {s s' : RsapBuffer maxSingleReadSize}
    (h : s.Inv platform) {append : AppendRecord} (happends : s'.appends = s.appends ++ [append])
    (hcall : append.Safe platform ↔ append.Regular platform) : s'.Inv platform := by
  simp only [Inv, Safe, Regular, happends, List.forall_mem_append, List.forall_mem_singleton]
  exact and_congr h hcall

/-- A call of `readSomeAppend` keeps the invariant, however its `recv` ends. -/
theorem keeps_readSomeAppend (platform : Platform) (call : AppendCall) :
    Keeps (Inv platform : RsapBuffer maxSingleReadSize → Prop)
      (call.readSomeAppend platform) := by
  refine keeps_get_bind fun s => ?_
  cases hread : (sockReadStream platform).read call.maxCount call.env with
  | none => exact keeps_throw _ s
  | some result =>
    simp only
    by_cases hfits : result.data.length ≤ maxSingleReadSize
    · rw [dif_pos hfits]
      intro hinv
      -- Whatever follows the record leaves it as it is.
      exact keeps_ite (keeps_pure _) (keeps_ite (keeps_pure _)
        (keeps_ite (keeps_throw _) (keeps_pure _))) _
        (hinv.append rfl (AppendRecord.safe_iff_regular hread))
    · rw [dif_neg hfits]
      exact keeps_throw _ s

/-- A new `TcpStreamRW` on which the calls have been made, one after the other until one of
them stops the program. -/
def runCalls (platform : Platform) (memory : FixedBytes maxSingleReadSize)
    (calls : List AppendCall) : RsapBuffer maxSingleReadSize :=
  after (runAll (calls.map (AppendCall.readSomeAppend platform))) ⟨memory, []⟩

/-- After any sequence of calls all of them were safe exactly when all were regular. -/
theorem inv_runCalls (platform : Platform) (memory : FixedBytes maxSingleReadSize)
    (calls : List AppendCall) : (runCalls platform memory calls).Inv platform := by
  have hstart : Inv platform (⟨memory, []⟩ : RsapBuffer maxSingleReadSize) := by
    simp [Inv, Safe, Regular]
  refine keeps_runAll (fun program hprogram => ?_) _ hstart
  obtain ⟨call, -, rfl⟩ := List.mem_map.mp hprogram
  exact keeps_readSomeAppend platform call

end RsapBuffer

/-- A single read of either transport is sound exactly when its `recv` is not misjudged. A
sequence of calls keeps the length of a pipe's buffer within the buffer, or copies at most
`maxCount` bytes each time, with sound reads only, exactly when all its reads are regular. -/
theorem reads_safe_iff (platform : Platform) (dataSize : UInt32) (env : ReadEnv)
    (pipeMemory : FixedBytes readBufferSize)
    (pipeCalls : List (BufferCall ReadTurn))
    (memory : FixedBytes maxSingleReadSize) (calls : List AppendCall) :
    (∀ result, cpplNixRead.read dataSize env = some result →
      (cpplNixRead.Sound dataSize env result ↔
        (cpplNixRead.ReachesRecv env → env.recv ≠ .failed))) ∧
    (∀ result, (sockReadStream platform).read dataSize env = some result →
      ((sockReadStream platform).Sound dataSize env result ↔
        ((sockReadStream platform).ReachesRecv env → ¬Misjudged platform dataSize env))) ∧
    ((BufferProcessor.runCalls pipeMemory pipeCalls).Safe ↔
      (BufferProcessor.runCalls pipeMemory pipeCalls).Regular) ∧
    ((RsapBuffer.runCalls platform memory calls).Safe platform ↔
      (RsapBuffer.runCalls platform memory calls).Regular platform) := by
  refine ⟨?_, ?_, ?_, ?_⟩
  · intro result hread
    exact sound_cpplNixRead_iff hread
  · intro result hread
    exact sound_iff hread
  · exact BufferProcessor.inv_runCalls pipeMemory pipeCalls
  · exact RsapBuffer.inv_runCalls platform memory calls

/-- A call that finds the socket readable and whose `recv` ends as given. -/
def readableEnv (recv : RecvResult) : ReadEnv := ⟨true, [⟨false, false, 1⟩], recv, false⟩

/-- Two bytes that arrive are reported by both readers, and each buffer stays as it should. -/
theorem reads_safe_iff_sample :
    cpplNixRead.Sound 16 (readableEnv (.received [104, 105])) ⟨.success, some 2, [104, 105]⟩ ∧
      (sockReadStream .linux).Sound 16 (readableEnv (.received [104, 105]))
        ⟨.success, some 2, [104, 105]⟩ ∧
      (BufferProcessor.runCalls (FixedBytes.replicate _ 0)
        [.readSome 1 ⟨false, 0, readableEnv (.received [104, 105])⟩]).Safe ∧
      (RsapBuffer.runCalls .linux (FixedBytes.replicate 16 0)
        [⟨16, 0, readableEnv (.received [104, 105])⟩]).Safe .linux := by
  have hreads := reads_safe_iff .linux 16 (readableEnv (.received [104, 105]))
    (FixedBytes.replicate _ 0) [.readSome 1 ⟨false, 0, readableEnv (.received [104, 105])⟩]
    (FixedBytes.replicate 16 0) [⟨16, 0, readableEnv (.received [104, 105])⟩]
  obtain ⟨hpipe, hsocket, hpipeCalls, hcalls⟩ := hreads
  refine ⟨(hpipe _ (by decide)).mpr (by decide), (hsocket _ (by decide)).mpr (by decide),
    hpipeCalls.mpr ?_, hcalls.mpr ?_⟩
  · rintro read hread
    obtain rfl := List.mem_singleton.mp hread
    exact ⟨fun _ => by decide, fun hreaches => absurd (by decide) hreaches⟩
  · rintro append happend
    obtain rfl := List.mem_singleton.mp happend
    exact fun _ => by decide

/-- After a connection reset `recv` returns -1 and the readers report 4294967295 bytes. An
empty buffer of a pipe then has that length, and `readSomeAppend` copies that many bytes. -/
theorem not_reads_safe :
    cpplNixRead.read 1024 (readableEnv .failed) = some ⟨.success, some 4294967295, []⟩ ∧
      (sockReadStream .linux).read 16 (readableEnv .failed) =
        some ⟨.success, some 4294967295, []⟩ ∧
      ¬(∀ dataSize env result, cpplNixRead.read dataSize env = some result →
        cpplNixRead.Sound dataSize env result) ∧
      ¬(∀ platform dataSize env result,
        (sockReadStream platform).read dataSize env = some result →
          (sockReadStream platform).Sound dataSize env result) ∧
      (BufferProcessor.runCalls (FixedBytes.replicate _ 0)
        [.readSome 1 (ReadTurn.mk false 0 (readableEnv .failed))]).mReadBufferLen =
          4294967295 ∧
      (RsapBuffer.runCalls .linux (FixedBytes.replicate 16 0)
        [⟨16, 0, readableEnv .failed⟩]).appends.map AppendRecord.copied = [4294967295] := by
  refine ⟨by decide, by decide, fun h => ?_, fun h => ?_, ?_, ?_⟩
  · have hsound := h 1024 (readableEnv .failed) _ rfl
    exact (hsound.failed (by decide) rfl) rfl
  · have hsound := h .linux 16 (readableEnv .failed) _ rfl
    exact (hsound.failed (by decide) rfl) rfl
  · rfl
  · rfl

end San2.Comm
