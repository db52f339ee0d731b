import San2.Stream.CIStreamRW

/-!
# Streams over a TCP socket

`sock_sendall_stream` repeats `select` and `send` until the kernel has taken all
bytes. What the environment does is a script: each turn of the loop consumes one
event, and a script that ends inside the loop leaves the call without a result.
The receiving side gets the bytes that the peer's kernel has accepted, in pieces
whose sizes are arbitrary.
-/

namespace San2

namespace Tcp

/-- `ErrorCode` of the TCP classes. -/
inductive TcpErrorCode
  | success
  | failure
  | terminated
  | timeout
  | peerDisconnect
  | requestDisconnect
  | illegalCharacterReceived
  | segmentTooLong
  | bufferToSmall
  deriving DecidableEq, Repr

/-- What a call of `send` reports after the socket was found writable. -/
inductive SendResult
  /-- The kernel took this many bytes, or all that were left if those are fewer. -/
  | accepted (n : ℕ)
  /-- `errno` is `EPIPE` or `ECONNRESET`. -/
  | disconnected
  /-- Any other error, `n == -1`. -/
  | failed
  deriving DecidableEq, Repr

/-- One turn of the loop in `sock_sendall_stream`. -/
structure SendEvent where
  /-- `select` was interrupted, `errno == EINTR`. -/
  interrupted : Bool
  /-- `thr->isTerminated()` -/
  terminated : Bool
  selRval : ℤ
  send : SendResult
  deriving DecidableEq, Repr

/-- What one turn of the loop leads to. -/
inductive SendTurn
  /-- The loop starts over. -/
  | again
  /-- The function returns an error. -/
  | stop (code : TcpErrorCode)
  /-- `send` has been called and accepts this many bytes. -/
  | took (n : ℕ)
  deriving DecidableEq, Repr

/-- The checks between `select` and the end of the loop body, in their order. -/
def SendEvent.turn (event : SendEvent) : SendTurn :=
  if event.interrupted then
    if event.terminated then .stop .terminated else .again
  else if event.terminated then .stop .terminated
  else if event.selRval = 0 then .again
  else if event.selRval < 0 then .stop .failure
  else match event.send with
    | .disconnected => .stop .peerDisconnect
    | .failed => .stop .failure
    | .accepted n => .took n

/-- The turn reports neither an error nor the termination of the thread. -/
def SendEvent.benign (event : SendEvent) : Bool :=
  match event.turn with
  | .stop _ => false
  | _ => true

/-- The kernel takes at least one byte. -/
def SendEvent.progress (event : SendEvent) : Bool :=
  match event.turn with
  | .took n => decide (0 < n)
  | _ => false

/-- An error is never reported as success. -/
theorem SendEvent.turn_stop_ne_success {event : SendEvent} {code : TcpErrorCode}
    (h : event.turn = .stop code) : code ≠ .success := by
  rintro rfl
  simp only [turn] at h
  grind

/-- A connected socket as one end sees it. -/
structure Socket where
  /-- The descriptor is not -1. -/
  isOpen : Bool
  sendEvents : List SendEvent
  /-- The bytes that the kernel has accepted so far. -/
  wire : Bytes
  /-- The bytes that are still to be received before the peer closes. -/
  incoming : Bytes
  /-- The sizes in which the coming calls of `recv` deliver them. -/
  splits : ℕ → ℕ

/-- The loop of `sock_sendall_stream`: `total` bytes of the first `len` of `buf`
have been sent. The result carries the return code and the final `*len`. -/
def sockSendallLoop (buf : Bytes) (len : ℕ) :
    List SendEvent → ℕ → Bytes → Option ((TcpErrorCode × ℕ) × List SendEvent × Bytes)
  | [], total, wire => if total < len then none else some ((.success, total), [], wire)
  | event :: events, total, wire =>
    if total < len then
      match event.turn with
      | .again => sockSendallLoop buf len events total wire
      | .stop code => some ((code, total), events, wire)
      | .took n =>
        let n := min n (len - total)
        sockSendallLoop buf len events (total + n) (wire ++ (buf.drop total).take n)
    else some ((.success, total), event :: events, wire)

/-- `len` is an `int`; a negative one makes the loop condition false at once. -/
def sockSendallStream (buf : Bytes) (len : ℤ) : StateT Socket Option TcpErrorCode := fun s =>
  if !s.isOpen then some (.failure, s)
  else
    match sockSendallLoop buf len.toNat s.sendEvents 0 s.wire with
    | none => none
    | some ((code, _), events, wire) => some (code, { s with sendEvents := events, wire := wire })

/-- `recv` on a readable socket: some of the bytes that are there, or none when
the peer has closed the connection. -/
def sockReadStream (dataSize : ℕ) : StateT Socket Option (Option Bytes) := fun s =>
  if s.incoming = [] ∨ dataSize = 0 then some (none, s)
  else
    let bytesRead := max 1 (min (s.splits 0) (min dataSize s.incoming.length))
    some (some (s.incoming.take bytesRead),
      { s with incoming := s.incoming.drop bytesRead, splits := fun k => s.splits (k + 1) })

/-- Two pieces taken one after the other are one piece. -/
theorem append_take_drop (buf wire : Bytes) (total m n : ℕ) :
    wire ++ (buf.drop total).take m ++ (buf.drop (total + m)).take n =
      wire ++ (buf.drop total).take (m + n) := by
  rw [List.append_assoc, List.take_add, List.drop_drop]

/-- Whatever happens, the loop hands over a prefix of what was left to send, and
it reports success only when that was everything. -/
theorem sockSendallLoop_safe {buf : Bytes} {len : ℕ} {events : List SendEvent} {total : ℕ}
    {wire : Bytes} {code : TcpErrorCode} {total' : ℕ} {events' : List SendEvent} {wire' : Bytes}
    (htotal : total ≤ len)
    (h : sockSendallLoop buf len events total wire = some ((code, total'), events', wire')) :
    ∃ n, total + n = total' ∧ total' ≤ len ∧ (code = .success → total' = len) ∧
      wire' = wire ++ (buf.drop total).take n := by
  induction events generalizing total wire with
  | nil =>
    simp only [sockSendallLoop] at h
    by_cases hdone : total < len
    · simp [hdone] at h
    · simp only [hdone, if_false, Option.some.injEq, Prod.mk.injEq] at h
      obtain ⟨⟨-, rfl⟩, -, rfl⟩ := h
      exact ⟨0, rfl, htotal, fun _ => by omega, by simp⟩
  | cons event events ih =>
    simp only [sockSendallLoop] at h
    by_cases hdone : total < len
    · rw [if_pos hdone] at h
      cases hturn : event.turn with
      | again =>
        rw [hturn] at h
        exact ih htotal h
      | stop reported =>
        simp only [hturn, Option.some.injEq, Prod.mk.injEq] at h
        obtain ⟨⟨rfl, rfl⟩, -, rfl⟩ := h
        have hne := SendEvent.turn_stop_ne_success hturn
        exact ⟨0, rfl, htotal, fun hsuccess => absurd hsuccess hne, by simp⟩
      | took n =>
        rw [hturn] at h
        obtain ⟨rest, hsum, hle, hsuccess, hwire⟩ := ih (by omega) h
        refine ⟨min n (len - total) + rest, by omega, hle, hsuccess, ?_⟩
        rw [hwire, append_take_drop]
    · simp only [hdone, if_false, Option.some.injEq, Prod.mk.injEq] at h
      obtain ⟨⟨-, rfl⟩, -, rfl⟩ := h
      exact ⟨0, rfl, htotal, fun _ => by omega, by simp⟩

/-- Without errors, and with a turn that makes progress for every byte that is
left, the loop sends everything. It uses up at most one such turn for a byte. -/
theorem sockSendallLoop_live (buf wire : Bytes) {len total : ℕ} {events : List SendEvent}
    (htotal : total ≤ len) (hbenign : ∀ event ∈ events, event.benign)
    (henough : len - total ≤ events.countP SendEvent.progress) :
    ∃ used events', events = used ++ events' ∧
      events.countP SendEvent.progress ≤ events'.countP SendEvent.progress + (len - total) ∧
      sockSendallLoop buf len events total wire =
        some ((.success, len), events', wire ++ (buf.drop total).take (len - total)) := by
  induction events generalizing total wire with
  | nil =>
    have hdone : ¬ total < len := by
      simp only [List.countP_nil] at henough
      omega
    obtain rfl : total = len := by omega
    exact ⟨[], [], rfl, by simp, by simp [sockSendallLoop]⟩
  | cons event events ih =>
    simp only [sockSendallLoop]
    by_cases hdone : total < len
    · rw [if_pos hdone]
      have hrest : ∀ event ∈ events, event.benign :=
        fun event h => hbenign event (List.mem_cons_of_mem _ h)
      cases hturn : event.turn with
      | again =>
        have hidle : ¬ event.progress = true := by simp [SendEvent.progress, hturn]
        rw [List.countP_cons_of_neg hidle] at henough
        obtain ⟨used, events', rfl, hcount, hrun⟩ := ih wire htotal hrest henough
        refine ⟨event :: used, events', rfl, ?_, hrun⟩
        rwa [List.countP_cons_of_neg hidle]
      | stop code =>
        have hstop := hbenign event List.mem_cons_self
        simp [SendEvent.benign, hturn] at hstop
      | took n =>
        rcases Nat.eq_zero_or_pos n with rfl | hpos
        · have hidle : ¬ event.progress = true := by simp [SendEvent.progress, hturn]
          rw [List.countP_cons_of_neg hidle] at henough
          obtain ⟨used, events', rfl, hcount, hrun⟩ := ih wire htotal hrest henough
          refine ⟨event :: used, events', rfl, ?_, by simpa using hrun⟩
          rwa [List.countP_cons_of_neg hidle]
        · have hprogress : event.progress = true := by simp [SendEvent.progress, hturn, hpos]
          rw [List.countP_cons_of_pos hprogress] at henough
          obtain ⟨used, events', rfl, hcount, hrun⟩ :=
            @ih (wire ++ (buf.drop total).take (min n (len - total)))
              (total + min n (len - total)) (by omega) hrest (by omega)
          refine ⟨event :: used, events', rfl, ?_, ?_⟩
          · rw [List.countP_cons_of_pos hprogress]
            omega
          · have hsum : min n (len - total) + (len - (total + min n (len - total))) =
                len - total := by omega
            rw [append_take_drop, hsum] at hrun
            exact hrun
    · rw [if_neg hdone]
      obtain rfl : total = len := by omega
      exact ⟨[], event :: events, rfl, by simp, by simp⟩

end Tcp

namespace Comm

open Tcp San2.Stream

/-- The value of an `int` that is initialised with an `unsigned int`. -/
def unsignedToInt (n : UInt32) : ℤ := n.toInt32.toInt

/-- `TcpStreamRW::writeSome`: the size of the data is kept in an `unsigned int`,
passed as an `int` and returned as an `int`. -/
def writeSome (data : Bytes) : StateT Socket Option ℤ := do
  let dataSize := UInt32.ofNat data.length
  if (← sockSendallStream data (unsignedToInt dataSize)) = .success then
    return unsignedToInt dataSize
  else return -1

/-- Sizes below 2^31 survive the conversions. -/
theorem unsignedToInt_ofNat {n : ℕ} (h : n < 2 ^ 31) : unsignedToInt (UInt32.ofNat n) = n := by
  rw [unsignedToInt, UInt32.toInt32_ofNat', Int32.toInt_ofNat_of_lt h]

/-- The returned `int` is never more than the size it was converted from. -/
theorem unsignedToInt_le (n : ℕ) : unsignedToInt (UInt32.ofNat n) ≤ n := by
  rw [unsignedToInt, UInt32.toInt32_ofNat', Int32.toInt_ofNat', Int.bmod_def]
  have hsize : Int32.size = 4294967296 := rfl
  rw [hsize]
  split <;> omega

/-- What is received is a nonempty piece of what was there. -/
theorem sockReadStream_some {dataSize : ℕ} {s s' : Socket} {bytes : Bytes}
    (h : sockReadStream dataSize s = some (some bytes, s')) :
    s.incoming = bytes ++ s'.incoming ∧ 0 < bytes.length ∧ bytes.length ≤ dataSize ∧
      s'.isOpen = s.isOpen ∧ s'.sendEvents = s.sendEvents ∧ s'.wire = s.wire := by
  unfold sockReadStream at h
  by_cases hclosed : s.incoming = [] ∨ dataSize = 0
  · rw [if_pos hclosed] at h
    simp at h
  · have hpending : 0 < s.incoming.length := List.length_pos_iff.mpr fun h => hclosed (Or.inl h)
    have hsize : dataSize ≠ 0 := fun h => hclosed (Or.inr h)
    rw [if_neg hclosed] at h
    simp only [Option.some.injEq, Prod.mk.injEq] at h
    obtain ⟨rfl, rfl⟩ := h
    refine ⟨(List.take_append_drop _ _).symm, ?_, ?_, rfl, rfl, rfl⟩
    · rw [List.length_take]
      omega
    · rw [List.length_take]
      omega

/-- A call of `recv` either takes a piece of what is there or, when nothing is
left, reports the end of the stream. -/
theorem sockReadStream_cases {dataSize : ℕ} (hsize : 0 < dataSize) (s : Socket) :
    (s.incoming = [] ∧ sockReadStream dataSize s = some (none, s)) ∨
      ∃ bytes s', sockReadStream dataSize s = some (some bytes, s') := by
  unfold sockReadStream
  by_cases hclosed : s.incoming = []
  · left
    exact ⟨hclosed, by simp [hclosed]⟩
  · right
    have hne : dataSize ≠ 0 := by omega
    simp [hclosed, hne]

/-- `TcpStreamRW` with the given size of its read buffer. -/
def TcpStreamRW (maxSingleReadSize : ℕ) (hpos : 0 < maxSingleReadSize) : CIStreamRW Socket where
  m_maxSingleReadSize := maxSingleReadSize
  maxSingleReadSize_pos := hpos
  readSomeAppend := sockReadStream
  writeSome := writeSome
  readSomeAppend_length h := by
    obtain ⟨-, hpos, hle, -⟩ := sockReadStream_some h
    exact ⟨hpos, hle⟩
  writeSome_le {data s n s'} h := by
    simp only [writeSome, StateT.run_bind, Option.bind_eq_bind, Option.bind_eq_some_iff] at h
    obtain ⟨⟨code, s₁⟩, -, h⟩ := h
    have hle := unsignedToInt_le data.length
    split at h <;> simp only [StateT.run_pure, Option.pure_def, Option.some.injEq,
      Prod.mk.injEq] at h <;> omega

variable {maxSingleReadSize : ℕ} (hsize : 0 < maxSingleReadSize)

/-- However `recv` splits the stream, the reading loop takes exactly the next
`num` bytes, or all that is left when that is less, and then it fails. -/
theorem readExactNumBytesAppend_tcp (out : Bytes) (num : ℕ) (s : Socket) :
    ∃ s', (TcpStreamRW maxSingleReadSize hsize).readExactNumBytesAppend out num s =
        some ((decide (num ≤ s.incoming.length), out ++ s.incoming.take num), s') ∧
      s'.incoming = s.incoming.drop num ∧ s'.isOpen = s.isOpen ∧
      s'.sendEvents = s.sendEvents ∧ s'.wire = s.wire := by
  induction num using Nat.strong_induction_on generalizing out s with
  | h num ih =>
    by_cases hnum : 0 < num
    · have hcount := (TcpStreamRW maxSingleReadSize hsize).maxCount_pos hnum
      rcases sockReadStream_cases hcount s with ⟨hnil, hread⟩ | ⟨bytes, s₁, hread⟩
      · refine ⟨s, ?_, by simp [hnil], rfl, rfl, rfl⟩
        rw [CIStreamRW.readExactNumBytesAppend_none (TcpStreamRW maxSingleReadSize hsize) hnum out
          hread, hnil]
        simp
        omega
      · obtain ⟨hincoming, hpos, -, hopen, hevents, hwire⟩ := sockReadStream_some hread
        have hle : bytes.length ≤ num :=
          (sockReadStream_some hread).2.2.1.trans (CIStreamRW.maxCount_le _ num)
        obtain ⟨s', hrun, hrest, hopen', hevents', hwire'⟩ :=
          ih (num - bytes.length) (by omega) (out ++ bytes) s₁
        refine ⟨s', ?_, ?_, hopen'.trans hopen, hevents'.trans hevents, hwire'.trans hwire⟩
        · rw [CIStreamRW.readExactNumBytesAppend_some (TcpStreamRW maxSingleReadSize hsize) hnum out
            hread, hrun, hincoming,
            List.take_append, List.take_of_length_le hle, List.length_append, List.append_assoc]
          have hiff : num - bytes.length ≤ s₁.incoming.length ↔
              num ≤ bytes.length + s₁.incoming.length := by omega
          simp only [hiff]
        · rw [hrest, hincoming, List.drop_append, List.drop_of_length_le hle, List.nil_append]
    · obtain rfl : num = 0 := by omega
      exact ⟨s, by simp, rfl, rfl, rfl, rfl⟩

/-- What a call of `writeSome` leaves behind: some of the data is on the wire, no more than
the size that it works with, and unless it fails exactly that much. -/
theorem writeSome_sent {data : Bytes} {s s' : Socket} {n : ℤ}
    (h : writeSome data s = some (n, s')) :
    let size := unsignedToInt (UInt32.ofNat data.length)
    ∃ k, s' = { s with sendEvents := s'.sendEvents, wire := s.wire ++ data.take k } ∧
      k ≤ size.toNat ∧ (n = -1 ∨ n = size ∧ size.toNat ≤ k) := by
  intro size
  have hsplit : ∃ code, sockSendallStream data size s = some (code, s') ∧
      n = if code = .success then size else -1 := by
    simp only [writeSome, bind, StateT.bind, Option.bind_eq_some_iff] at h
    obtain ⟨⟨code, s₁⟩, hsend, h⟩ := h
    refine ⟨code, ?_⟩
    by_cases hcode : code = .success
    · simp only [hcode, if_true] at h ⊢
      obtain ⟨hn, rfl⟩ := Prod.mk.inj (Option.some.inj h)
      exact ⟨hcode ▸ hsend, hn.symm⟩
    · simp only [hcode, if_false] at h ⊢
      obtain ⟨hn, rfl⟩ := Prod.mk.inj (Option.some.inj h)
      exact ⟨hsend, hn.symm⟩
  obtain ⟨code, hsend, hn⟩ := hsplit
  unfold sockSendallStream at hsend
  cases hopen : s.isOpen with
  | false =>
    simp only [hopen, Bool.not_false, if_true, Option.some.injEq, Prod.mk.injEq] at hsend
    obtain ⟨rfl, rfl⟩ := hsend
    exact ⟨0, by simp [← hopen], Nat.zero_le _, Or.inl (by simpa using hn)⟩
  | true =>
    simp only [hopen, Bool.not_true] at hsend
    cases hloop : sockSendallLoop data size.toNat s.sendEvents 0 s.wire with
    | none => simp [hloop] at hsend
    | some result =>
      obtain ⟨⟨reported, total'⟩, events', wire'⟩ := result
      obtain ⟨k, hk, hle, hsuccess, hwire⟩ := sockSendallLoop_safe (Nat.zero_le _) hloop
      simp only [hloop, Bool.false_eq_true, if_false, Option.some.injEq, Prod.mk.injEq] at hsend
      obtain ⟨rfl, rfl⟩ := hsend
      refine ⟨k, by simp [hwire], by omega, ?_⟩
      by_cases hcode : reported = .success
      · right
        have htotal := hsuccess hcode
        exact ⟨by simpa [hcode] using hn, by omega⟩
      · left
        simpa [hcode] using hn

/-- Data below 2^31 bytes are all on the wire if the result is positive. -/
theorem writeSome_safe {data : Bytes} (hlength : data.length < 2 ^ 31) {s s' : Socket} {n : ℤ}
    (h : writeSome data s = some (n, s')) :
    ∃ k, s' = { s with sendEvents := s'.sendEvents, wire := s.wire ++ data.take k } ∧
      (n = -1 ∨ n = data.length ∧ data.length ≤ k) := by
  obtain ⟨k, hstate, -, hn⟩ := writeSome_sent h
  rw [unsignedToInt_ofNat hlength, Int.toNat_natCast] at hn
  exact ⟨k, hstate, hn⟩

/-- On an open socket without errors, and with a turn that makes progress for
every byte, `writeSome` writes everything. -/
theorem writeSome_live {data : Bytes} (hlength : data.length < 2 ^ 31) {s : Socket}
    (hopen : s.isOpen = true) (hbenign : ∀ event ∈ s.sendEvents, event.benign)
    (henough : data.length ≤ s.sendEvents.countP SendEvent.progress) :
    ∃ used events', s.sendEvents = used ++ events' ∧
      s.sendEvents.countP SendEvent.progress ≤
        events'.countP SendEvent.progress + data.length ∧
      writeSome data s = some ((data.length : ℤ),
        { s with sendEvents := events', wire := s.wire ++ data }) := by
  obtain ⟨used, events', hevents, hcount, hrun⟩ := sockSendallLoop_live data s.wire
    (Nat.zero_le data.length) hbenign (by simpa using henough)
  refine ⟨used, events', hevents, by simpa using hcount, ?_⟩
  rw [List.drop_zero, Nat.sub_zero, List.take_length] at hrun
  simp [writeSome, sockSendallStream, unsignedToInt_ofNat hlength, hopen, hrun, StateT.bind, bind]
  rfl

/-- Once the data is written the loop of `writeAll` ends. -/
theorem writeAll_tcp (data : Bytes) (hlength : data.length < 2 ^ 31) (s : Socket) :
    (TcpStreamRW maxSingleReadSize hsize).writeAll data s =
      if data = [] then some (true, s)
      else (writeSome data s).map fun (n, s') => (decide (0 < n), s') := by
  rw [CIStreamRW.writeAll]
  split
  · rfl
  · rename_i hne
    have hpos : 0 < data.length := List.length_pos_iff.mpr hne
    cases hwrite : writeSome data s with
    | none =>
      have hrun : ((TcpStreamRW maxSingleReadSize hsize).writeSome data).run s = none := hwrite
      rw [hrun]
      rfl
    | some result =>
      obtain ⟨n, s'⟩ := result
      have hrun : ((TcpStreamRW maxSingleReadSize hsize).writeSome data).run s = some (n, s') :=
        hwrite
      rw [hrun]
      obtain ⟨k, -, rfl | ⟨rfl, -⟩⟩ := writeSome_safe hlength hwrite
      · simp
      · have hn : ¬ (data.length : ℤ) ≤ 0 := by omega
        simp only [hn, if_false, Int.toNat_natCast, List.drop_length, Option.map_some]
        rw [CIStreamRW.writeAll]
        simp [hpos]

/-- Whatever happens on the socket, `writeAll` puts a prefix of the data on the
wire, and all of it when it reports success. -/
theorem writeAll_tcp_safe {data : Bytes} (hlength : data.length < 2 ^ 31) {s s' : Socket}
    {ok : Bool}
    (h : (TcpStreamRW maxSingleReadSize hsize).writeAll data s = some (ok, s')) :
    ∃ k, s' = { s with sendEvents := s'.sendEvents, wire := s.wire ++ data.take k } ∧
      (ok = true → data.length ≤ k) := by
  rw [writeAll_tcp hsize data hlength] at h
  by_cases hnil : data = []
  · rw [if_pos hnil, Option.some.injEq, Prod.mk.injEq] at h
    obtain ⟨-, rfl⟩ := h
    exact ⟨0, by simp, fun _ => by simp [hnil]⟩
  · rw [if_neg hnil, Option.map_eq_some_iff] at h
    obtain ⟨⟨n, s₁⟩, hwrite, hresult⟩ := h
    obtain ⟨hok, rfl⟩ := Prod.mk.inj hresult
    obtain ⟨k, hstate, rfl | ⟨-, hk⟩⟩ := writeSome_safe hlength hwrite
    · refine ⟨k, hstate, fun htrue => ?_⟩
      rw [htrue] at hok
      exact absurd hok (by decide)
    · exact ⟨k, hstate, fun _ => hk⟩

/-- On an open socket without errors, and with a turn that makes progress for
every byte, `writeAll` writes everything. -/
theorem writeAll_tcp_live {data : Bytes} (hlength : data.length < 2 ^ 31) {s : Socket}
    (hopen : s.isOpen = true) (hbenign : ∀ event ∈ s.sendEvents, event.benign)
    (henough : data.length ≤ s.sendEvents.countP SendEvent.progress) :
    ∃ used events', s.sendEvents = used ++ events' ∧
      s.sendEvents.countP SendEvent.progress ≤
        events'.countP SendEvent.progress + data.length ∧
      (TcpStreamRW maxSingleReadSize hsize).writeAll data s = some (true,
        { s with sendEvents := events', wire := s.wire ++ data }) := by
  rw [writeAll_tcp hsize data hlength]
  by_cases hnil : data = []
  · refine ⟨[], s.sendEvents, rfl, by omega, ?_⟩
    simp [hnil]
  · obtain ⟨used, events', hevents, hcount, hwrite⟩ :=
      writeSome_live hlength hopen hbenign henough
    refine ⟨used, events', hevents, hcount, ?_⟩
    have hpos : 0 < data.length := List.length_pos_iff.mpr hnil
    simp [hnil, hwrite, hpos]

/-- An `unsigned int` from 2^31 on is negative as an `int`. -/
theorem unsignedToInt_eq (n : ℕ) :
    unsignedToInt (UInt32.ofNat n) =
      if n % 2 ^ 32 < 2 ^ 31 then ((n % 2 ^ 32 : ℕ) : ℤ)
      else ((n % 2 ^ 32 : ℕ) : ℤ) - 2 ^ 32 := by
  rw [unsignedToInt, UInt32.toInt32_ofNat', Int32.toInt_ofNat', Int.bmod_def]
  have hsize : Int32.size = 4294967296 := rfl
  rw [hsize]
  split_ifs <;> omega

/-- What a call of `writeSome` leaves behind for data of any size: the size that it works
with is the remainder modulo 2^32, and nothing is sent when that is negative as an `int`. -/
theorem writeSome_any {data : Bytes} {s s' : Socket} {n : ℤ}
    (h : writeSome data s = some (n, s')) :
    ∃ k, s' = { s with sendEvents := s'.sendEvents, wire := s.wire ++ data.take k } ∧
      k ≤ data.length % 2 ^ 32 ∧ (2 ^ 31 ≤ data.length % 2 ^ 32 → k = 0) ∧
      (0 < n → n = (data.length % 2 ^ 32 : ℕ) ∧ k = data.length % 2 ^ 32) := by
  have hint := unsignedToInt_eq data.length
  have hmod : data.length % 2 ^ 32 < 2 ^ 32 := Nat.mod_lt _ (by decide)
  obtain ⟨k, hstate, hle, hn⟩ := writeSome_sent h
  refine ⟨k, hstate, ?_, ?_, ?_⟩
  · split_ifs at hint <;> omega
  · intro hlarge
    rw [if_neg (not_lt.mpr hlarge)] at hint
    omega
  · intro hpos
    obtain rfl | ⟨hsize, hsent⟩ := hn
    · exact absurd hpos (by decide)
    · split_ifs at hint <;> omega

/-- The first turn of `writeAll`. -/
theorem writeAll_of_ne {data : Bytes} (hne : data ≠ []) {s s' : Socket} {n : ℤ}
    (h : writeSome data s = some (n, s')) :
    (TcpStreamRW maxSingleReadSize hsize).writeAll data s =
      if n ≤ 0 then some (false, s')
      else (TcpStreamRW maxSingleReadSize hsize).writeAll (data.drop n.toNat) s' := by
  have hrun : ((TcpStreamRW maxSingleReadSize hsize).writeSome data).run s = some (n, s') := h
  rw [CIStreamRW.writeAll, if_neg hne, hrun]

/-- A call of `writeAll` that returns has made its first turn. -/
theorem writeSome_of_writeAll {data : Bytes} (hne : data ≠ []) {s s' : Socket} {ok : Bool}
    (h : (TcpStreamRW maxSingleReadSize hsize).writeAll data s = some (ok, s')) :
    ∃ n s₁, writeSome data s = some (n, s₁) := by
  cases hwrite : writeSome data s with
  | none =>
    have hrun : ((TcpStreamRW maxSingleReadSize hsize).writeSome data).run s = none := hwrite
    rw [CIStreamRW.writeAll, if_neg hne, hrun] at h
    exact absurd h (by simp)
  | some result => exact ⟨result.1, result.2, rfl⟩

/-- `writeAll` for data of any size: it reports success only for data below 2^31 bytes that
are all on the wire, and never sends more than the remainder modulo 2^32. -/
theorem writeAll_any {data : Bytes} (hne : data ≠ []) {s s' : Socket} {ok : Bool}
    (h : (TcpStreamRW maxSingleReadSize hsize).writeAll data s = some (ok, s')) :
    ∃ k, s'.wire = s.wire ++ data.take k ∧ k ≤ data.length % 2 ^ 32 ∧
      (2 ^ 31 ≤ data.length % 2 ^ 32 → k = 0) ∧
      (ok = true → data.length < 2 ^ 31 ∧ k = data.length) := by
  obtain ⟨n, s₁, hwrite⟩ := writeSome_of_writeAll hsize hne h
  obtain ⟨k, hstate, hle, hlarge, hall⟩ := writeSome_any hwrite
  have hwire : s₁.wire = s.wire ++ data.take k := by rw [hstate]
  rw [writeAll_of_ne hsize hne hwrite] at h
  by_cases hn : n ≤ 0
  · rw [if_pos hn] at h
    obtain ⟨rfl, rfl⟩ := Prod.mk.inj (Option.some.inj h)
    exact ⟨k, hwire, hle, hlarge, fun hok => absurd hok (by simp)⟩
  rw [if_neg hn] at h
  obtain ⟨hsent, hk⟩ := hall (not_le.mp hn)
  have hsmall : data.length % 2 ^ 32 < 2 ^ 31 := by
    by_contra hcontra
    have hzero := hlarge (not_lt.mp hcontra)
    omega
  have hrest : (data.drop n.toNat).length % 2 ^ 32 = 0 := by
    rw [List.length_drop, hsent, Int.toNat_natCast]
    omega
  by_cases hnil : data.drop n.toNat = []
  · -- Everything has been sent at once.
    rw [hnil, CIStreamRW.writeAll, if_pos rfl] at h
    obtain ⟨-, rfl⟩ := Prod.mk.inj (Option.some.inj h)
    have hlength := List.drop_eq_nil_iff.mp hnil
    have hmod : data.length % 2 ^ 32 ≤ data.length := Nat.mod_le _ _
    exact ⟨k, hwire, hle, hlarge, fun _ => by omega⟩
  · -- The size of what is left is zero as an `unsigned int`.
    obtain ⟨n', s₂, hwrite'⟩ := writeSome_of_writeAll hsize hnil h
    obtain ⟨k', hstate', hle', -, hall'⟩ := writeSome_any hwrite'
    have hn' : n' ≤ 0 := by
      by_contra hcontra
      have hpositive := (hall' (not_le.mp hcontra)).1
      omega
    rw [writeAll_of_ne hsize hnil hwrite', if_pos hn'] at h
    obtain ⟨rfl, rfl⟩ := Prod.mk.inj (Option.some.inj h)
    have hk' : k' = 0 := by omega
    refine ⟨k, ?_, hle, hlarge, fun hok => absurd hok (by simp)⟩
    rw [hstate', hk', List.take_zero, List.append_nil, hwire]

/-- A turn of the loop in which the kernel takes everything that is offered, up to `n` bytes. -/
def takes (n : ℕ) : SendEvent := ⟨false, false, 1, .accepted n⟩

/-- One turn sends what `writeSome` takes for the size of the data. -/
theorem writeSome_takes {data : Bytes} {size : ℕ} (hsize : data.length % 2 ^ 32 = size)
    (hint : size < 2 ^ 31) (s : Socket) (hopen : s.isOpen = true)
    (hevents : s.sendEvents = [takes size]) (hpos : 0 < size) :
    writeSome data s = some ((size : ℤ),
      { s with sendEvents := [], wire := s.wire ++ data.take size }) := by
  have hloop : sockSendallLoop data size [takes size] 0 s.wire =
      some ((.success, size), [], s.wire ++ data.take size) := by
    have hturn : (takes size).turn = .took size := rfl
    simp [sockSendallLoop, hturn, hpos]
  have hunsigned : unsignedToInt (UInt32.ofNat data.length) = (size : ℤ) := by
    rw [unsignedToInt_eq, hsize, if_pos hint]
  simp only [writeSome, hunsigned, sockSendallStream, bind, StateT.bind, hopen, hevents,
    Int.toNat_natCast, hloop]
  rfl

/-- Where the size is zero as an `unsigned int`, nothing is sent. -/
theorem writeSome_zero {data : Bytes} (hsize : data.length % 2 ^ 32 = 0) (s : Socket)
    (hopen : s.isOpen = true) (hevents : s.sendEvents = []) :
    writeSome data s = some (0, s) := by
  have hunsigned : unsignedToInt (UInt32.ofNat data.length) = 0 := by
    rw [unsignedToInt_eq, hsize]
    rfl
  obtain ⟨isOpen, sendEvents, wire, incoming, splits⟩ := s
  simp only at hopen hevents
  simp only [writeSome, hunsigned, sockSendallStream, bind, StateT.bind, hopen, hevents]
  rfl

/-- A socket that takes as much as it is offered gets the remainder of the size modulo 2^32,
and the operation is reported to have failed if that was not everything. -/
theorem writeAll_takes {data : Bytes} {size : ℕ} (hlength : data.length % 2 ^ 32 = size)
    (hint : size < 2 ^ 31) (hpos : 0 < size) (s : Socket) (hopen : s.isOpen = true)
    (hevents : s.sendEvents = [takes size]) :
    (TcpStreamRW maxSingleReadSize hsize).writeAll data s =
      some (decide (data.length = size),
        { s with sendEvents := [], wire := s.wire ++ data.take size }) := by
  have hne : data ≠ [] := by
    rintro rfl
    rw [List.length_nil, Nat.zero_mod] at hlength
    omega
  have hpositive : ¬(size : ℤ) ≤ 0 := by omega
  rw [writeAll_of_ne hsize hne (writeSome_takes hlength hint s hopen hevents hpos),
    if_neg hpositive, Int.toNat_natCast]
  by_cases hall : data.length = size
  · have hnil : data.drop size = [] := List.drop_eq_nil_iff.mpr hall.le
    rw [hnil, CIStreamRW.writeAll, if_pos rfl, decide_eq_true hall]
  · have hrest : (data.drop size).length % 2 ^ 32 = 0 := by
      rw [List.length_drop]
      omega
    have hnil : data.drop size ≠ [] := by
      intro hnil
      have hle := List.drop_eq_nil_iff.mp hnil
      have hmod : data.length % 2 ^ 32 ≤ data.length := Nat.mod_le _ _
      omega
    have hzero := writeSome_zero hrest
      { s with sendEvents := [], wire := s.wire ++ data.take size } hopen rfl
    rw [writeAll_of_ne hsize hnil hzero, if_pos le_rfl, decide_eq_false hall]

end Comm

end San2
