import San2.Library.Framing
import San2.Stream.CLenValueSeparator
import San2.Tcp.TcpStreamRW

/-!
# RPC channels

`CIRpcChannel` puts the identifier of a function in front of its packed
arguments and hands the result to `sendDatagram`. `StreamRpcChannel` implements
datagrams by length-prefixed messages on a byte stream. The whole stack is shown
to be a framing of the pairs of identifier and payload, so every stream of calls
is delivered, whatever the sizes of the pieces in which it is written and read.
-/

namespace San2

namespace Rpc

open Utils

/-- `SAN_RPC_MAX_FID` -/
def sanRpcMaxFid : UInt32 := 65000

/-- The interface of a channel with states in `σ`. A call that has to wait for
more than the state holds has no result. -/
structure CIRpcChannel (σ : Type) where
  sendDatagram : Bytes → StateT σ Option Bool
  recvDatagram : StateT σ Option (Bool × Bytes)

namespace CIRpcChannel

variable {σ : Type} (channel : CIRpcChannel σ)

/-- `CIRpcChannel::sendData` -/
def sendData (host : ByteOrder) (funcId : UInt32) (data : Bytes) : StateT σ Option Bool :=
  if sanRpcMaxFid < funcId then return false
  else
    let fid := Endian.sanUHtobe16 host funcId.toUInt16
    channel.sendDatagram (host.store 2 fid.toNat ++ data)

/-- `recvData` assigns its first argument only when it succeeds. -/
def recvData (host : ByteOrder) (funcIdOut : UInt32) :
    StateT σ Option (Bool × UInt32 × Bytes) := do
  let (ok, out) ← channel.recvDatagram
  if !ok then return (false, funcIdOut, out)
  if out.length < 2 then return (false, funcIdOut, out)
  let fid := Endian.sanUBe16toh host (UInt16.ofNat (host.load (out.take 2)))
  return (true, fid.toUInt32, out.drop 2)

/-- Successive calls of `sendData` and their results. -/
def sendMany (host : ByteOrder) : List (UInt32 × Bytes) → StateT σ Option (List Bool)
  | [] => return []
  | (funcId, data) :: messages => do
    let ok ← channel.sendData host funcId data
    return ok :: (← sendMany host messages)

/-- Successive calls of `recvData` on the same variable, and their results. -/
def recvMany (host : ByteOrder) : ℕ → UInt32 → StateT σ Option (List (Bool × UInt32 × Bytes))
  | 0, _ => return []
  | n + 1, funcIdOut => do
    let (ok, funcIdOut, out) ← channel.recvData host funcIdOut
    return (ok, funcIdOut, out) :: (← recvMany host n funcIdOut)

/-- What `recvData` makes of a datagram. -/
theorem recvData_of_recvDatagram (host : ByteOrder) (funcIdOut : UInt32) {s s' : σ} {ok : Bool}
    {out : Bytes} (h : channel.recvDatagram s = some ((ok, out), s')) :
    channel.recvData host funcIdOut s = some (if ok = true ∧ 2 ≤ out.length
      then (true, UInt32.ofNat (BigEndian.value (out.take 2)), out.drop 2)
      else (false, funcIdOut, out), s') := by
  simp only [recvData, bind, StateT.bind, h, Option.bind_some]
  cases ok with
  | false => rfl
  | true =>
    by_cases hshort : out.length < 2
    · simp only [hshort, if_true, Nat.not_le.mpr hshort]
      rfl
    · have hlt : BigEndian.value (out.take 2) < 2 ^ 16 := by
        have hle : (out.take 2).length ≤ 2 := by simp
        exact (BigEndian.value_lt _).trans_le (Nat.pow_le_pow_right (by decide) hle)
      have hfid : (UInt16.ofNat (BigEndian.value (out.take 2))).toUInt32 =
          UInt32.ofNat (BigEndian.value (out.take 2)) := by
        apply UInt32.toNat_inj.mp
        rw [UInt16.toNat_toUInt32, UInt16.toNat_ofNat_of_lt' hlt,
          UInt32.toNat_ofNat_of_lt' (hlt.trans (by decide))]
      rw [Endian.sanUBe16toh_load host (by simp; omega), hfid]
      simp only [hshort, if_false, Nat.not_lt.mp hshort]
      rfl

/-- The datagram that carries an identifier and a payload. -/
def datagram (funcId : UInt32) (data : Bytes) : Bytes :=
  BigEndian.bytes 2 funcId.toNat ++ data

/-- Identifiers in the accepted range are sent in two bytes. -/
theorem sendData_of_le (host : ByteOrder) {funcId : UInt32} (h : funcId ≤ sanRpcMaxFid)
    (data : Bytes) :
    channel.sendData host funcId data = channel.sendDatagram (datagram funcId data) := by
  have hmax : funcId.toNat ≤ 65000 := UInt32.le_iff_toNat_le.mp h
  have haccepted : ¬ sanRpcMaxFid < funcId := UInt32.not_lt.mpr h
  have hfid : funcId.toUInt16.toNat = funcId.toNat := by
    rw [UInt32.toNat_toUInt16, Nat.mod_eq_of_lt (by omega)]
  simp only [sendData, if_neg haccepted, Endian.store_sanUHtobe16, hfid, datagram]

/-- A datagram received whole gives its identifier and payload back. -/
theorem recvData_datagram (host : ByteOrder) (funcIdOut : UInt32) {s s' : σ} {funcId : UInt32}
    (hid : funcId ≤ sanRpcMaxFid) {data : Bytes}
    (h : channel.recvDatagram s = some ((true, datagram funcId data), s')) :
    channel.recvData host funcIdOut s = some ((true, funcId, data), s') := by
  have hmax : funcId.toNat ≤ 65000 := UInt32.le_iff_toNat_le.mp hid
  have hlt : funcId.toNat < 256 ^ 2 := by omega
  have hlength : 2 ≤ (datagram funcId data).length := by simp [datagram]
  rw [channel.recvData_of_recvDatagram host funcIdOut h, if_pos ⟨rfl, hlength⟩, datagram,
    List.take_left' (BigEndian.length_bytes _ _), List.drop_left' (BigEndian.length_bytes _ _),
    BigEndian.value_bytes_of_lt hlt, UInt32.ofNat_toNat]

end CIRpcChannel

end Rpc

namespace Comm

open Utils San2.Stream

/-- The channel ignores the timeout of `recvDatagram`. -/
def StreamRpcChannel {σ : Type} (host : ByteOrder) (rw : CIStreamRW σ) : Rpc.CIRpcChannel σ where
  sendDatagram := CLenValueSeparator.writeMessage rw host
  recvDatagram := CLenValueSeparator.readMessage rw host

end Comm

namespace Rpc

open Utils Tcp

/-- One message: the length of the datagram, and in it identifier and payload. -/
def frame (funcId : UInt32) (data : Bytes) : Bytes :=
  BigEndian.bytes 4 (2 + data.length) ++ (BigEndian.bytes 2 funcId.toNat ++ data)

/-- What a receiver makes of a stream: nothing while the next message is not
complete, or when the datagram is too short for an identifier. -/
def parseFrame (stream : Bytes) : Option ((UInt32 × Bytes) × Bytes) :=
  let size := BigEndian.value (stream.take 4)
  let body := (stream.drop 4).take size
  if stream.length < 4 ∨ stream.length - 4 < size ∨ size < 2 then none
  else some ((UInt32.ofNat (BigEndian.value (body.take 2)), body.drop 2),
    (stream.drop 4).drop size)

/-- A whole frame is parsed, whatever follows it. -/
theorem parseFrame_frame {funcId : UInt32} {data : Bytes} (hid : funcId.toNat < 2 ^ 16)
    (hlength : 2 + data.length < 2 ^ 32) (rest : Bytes) :
    parseFrame (frame funcId data ++ rest) = some ((funcId, data), rest) := by
  have hsize : (BigEndian.value ((frame funcId data ++ rest).take 4)) = 2 + data.length := by
    rw [frame, List.append_assoc, List.take_left' (BigEndian.length_bytes _ _),
      BigEndian.value_bytes_of_lt hlength]
  have hdrop : (frame funcId data ++ rest).drop 4 =
      (BigEndian.bytes 2 funcId.toNat ++ data) ++ rest := by
    rw [frame, List.append_assoc, List.drop_left' (BigEndian.length_bytes _ _)]
  have hbody : (BigEndian.bytes 2 funcId.toNat ++ data).length = 2 + data.length := by simp
  have htotal : (frame funcId data ++ rest).length = 4 + (2 + data.length) + rest.length := by
    simp [frame]
    omega
  have hguard : ¬ ((frame funcId data ++ rest).length < 4 ∨
      (frame funcId data ++ rest).length - 4 < 2 + data.length ∨ 2 + data.length < 2) := by omega
  simp only [parseFrame, hsize, if_neg hguard, hdrop]
  rw [List.take_left' hbody, List.drop_left' hbody, List.take_left' (BigEndian.length_bytes _ _),
    List.drop_left' (BigEndian.length_bytes _ _), BigEndian.value_bytes_of_lt hid,
    UInt32.ofNat_toNat]

/-- What comes out of the part of a frame whose size is the remainder modulo 2^32: a message
with a part of the data. -/
theorem parseFrame_take {funcId : UInt32} {data : Bytes} {size : ℕ} (hid : funcId.toNat < 2 ^ 16)
    (hsize : (frame funcId data).length % 2 ^ 32 = size) (hlong : 6 ≤ size) :
    parseFrame ((frame funcId data).take size) = some ((funcId, data.take (size - 6)), []) := by
  have hlength : (frame funcId data).length = 6 + data.length := by
    simp [frame]
    omega
  have hhead : (frame funcId data).take size = BigEndian.bytes 4 (2 + data.length) ++
      (BigEndian.bytes 2 funcId.toNat ++ data.take (size - 6)) := by
    rw [frame, List.take_append, List.take_append, BigEndian.length_bytes, BigEndian.length_bytes,
      List.take_of_length_le (by rw [BigEndian.length_bytes]; omega),
      List.take_of_length_le (by rw [BigEndian.length_bytes]; omega), Nat.sub_sub]
  have hvalue : BigEndian.value (BigEndian.bytes 4 (2 + data.length)) = size - 4 := by
    rw [BigEndian.value_bytes]
    omega
  have hbody : (BigEndian.bytes 2 funcId.toNat ++ data.take (size - 6)).length = size - 4 := by
    rw [List.length_append, BigEndian.length_bytes, List.length_take]
    omega
  have htotal : (BigEndian.bytes 4 (2 + data.length) ++
      (BigEndian.bytes 2 funcId.toNat ++ data.take (size - 6))).length = size := by
    rw [List.length_append, hbody, BigEndian.length_bytes]
    omega
  have hguard : ¬(size < 4 ∨ size - 4 < size - 4 ∨ size - 4 < 2) := by omega
  simp only [parseFrame, hhead, List.take_left' (BigEndian.length_bytes _ _),
    List.drop_left' (BigEndian.length_bytes _ _), hvalue, htotal, if_neg hguard]
  rw [← hbody, List.take_length, List.drop_length, List.take_left' (BigEndian.length_bytes _ _),
    List.drop_left' (BigEndian.length_bytes _ _), BigEndian.value_bytes_of_lt hid,
    UInt32.ofNat_toNat]

/-- A frame that is cut off is not parsed. -/
theorem parseFrame_of_prefix {funcId : UInt32} {data part : Bytes}
    (hlength : 2 + data.length < 2 ^ 32) (hpart : part <+: frame funcId data)
    (hne : part ≠ frame funcId data) : parseFrame part = none := by
  have htotal : (frame funcId data).length = 4 + (2 + data.length) := by simp [frame]
  have hshort : part.length < (frame funcId data).length := by
    refine lt_of_le_of_ne hpart.length_le fun heq => hne ?_
    exact hpart.eq_of_length heq
  by_cases hheader : part.length < 4
  · simp [parseFrame, hheader]
  · have htake : part.take 4 = BigEndian.bytes 4 (2 + data.length) := by
      have hprefix : part.take 4 <+: frame funcId data := (List.take_prefix 4 part).trans hpart
      have hframe : BigEndian.bytes 4 (2 + data.length) <+: frame funcId data :=
        List.prefix_append _ _
      have hlen : (part.take 4).length = (BigEndian.bytes 4 (2 + data.length)).length := by
        simp
        omega
      exact (List.prefix_of_prefix_length_le hprefix hframe hlen.le).eq_of_length hlen
    have hsize : BigEndian.value (part.take 4) = 2 + data.length := by
      rw [htake, BigEndian.value_bytes_of_lt hlength]
    have hbody : part.length - 4 < 2 + data.length := by omega
    simp [parseFrame, hsize, hbody]

/-- The messages that `sendData` accepts and whose frames have a size that fits
in an `int`. -/
def Sendable (message : UInt32 × Bytes) : Prop :=
  message.1 ≤ sanRpcMaxFid ∧ (frame message.1 message.2).length < 2 ^ 31

/-- A frame has six bytes more than the data. -/
theorem length_frame (funcId : UInt32) (data : Bytes) :
    (frame funcId data).length = 6 + data.length := by
  simp [frame]
  omega

/-- What can be sent has an identifier of 16 bits and a length of 32 bits. -/
theorem Sendable.bounds {message : UInt32 × Bytes} (h : Sendable message) :
    message.1.toNat < 2 ^ 16 ∧ 2 + message.2.length < 2 ^ 32 := by
  obtain ⟨hid, hlength⟩ := h
  rw [length_frame] at hlength
  have hmax : message.1.toNat ≤ 65000 := UInt32.le_iff_toNat_le.mp hid
  omega

/-- The wire format is a framing of the sendable messages. -/
def rpcFraming : Framing (UInt32 × Bytes) UInt8 where
  valid := Sendable
  encode message := frame message.1 message.2
  decode := parseFrame
  decode_encode h rest := parseFrame_frame h.bounds.1 h.bounds.2 rest
  decode_prefix h _ hpart hne := parseFrame_of_prefix h.bounds.2 hpart hne

variable {maxSingleReadSize : ℕ} (hsize : 0 < maxSingleReadSize)

/-- The channel of an RPC peer that is connected by TCP. -/
def tcpChannel (host : ByteOrder) : CIRpcChannel Socket :=
  Comm.StreamRpcChannel host (Comm.TcpStreamRW maxSingleReadSize hsize)

/-- `sendData` writes the frame of its message, whose length is reduced to 32 bits. -/
theorem sendData_tcp_any (host : ByteOrder) {funcId : UInt32} (hid : funcId ≤ sanRpcMaxFid)
    (data : Bytes) :
    (tcpChannel hsize host).sendData host funcId data =
      (Comm.TcpStreamRW maxSingleReadSize hsize).writeAll (frame funcId data) := by
  have hdatagram : (CIRpcChannel.datagram funcId data).length = 2 + data.length := by
    simp [CIRpcChannel.datagram]
  have hlength : (UInt32.ofNat (2 + data.length)).toNat = (2 + data.length) % 256 ^ 4 :=
    UInt32.toNat_ofNat'
  rw [CIRpcChannel.sendData_of_le _ host hid]
  simp only [tcpChannel, Comm.StreamRpcChannel, Stream.CLenValueSeparator.writeMessage, hdatagram,
    Endian.store_sanUHtobe32, hlength, BigEndian.bytes_mod]
  rfl

/-- `sendData` writes the frame of its message. -/
theorem sendData_tcp (host : ByteOrder) {message : UInt32 × Bytes} (h : Sendable message) :
    (tcpChannel hsize host).sendData host message.1 message.2 =
      (Comm.TcpStreamRW maxSingleReadSize hsize).writeAll (frame message.1 message.2) :=
  sendData_tcp_any hsize host h.1 message.2

/-- Four bytes denote a number that fits in 32 bits. -/
theorem value_take_four_lt (stream : Bytes) : BigEndian.value (stream.take 4) < 2 ^ 32 := by
  have hle : (stream.take 4).length ≤ 4 := by simp
  exact (BigEndian.value_lt _).trans_le (Nat.pow_le_pow_right (by decide) hle)

/-- A stream that ends inside the length of a message gives no datagram. -/
theorem recvDatagram_tcp_of_lt (host : ByteOrder) {s : Socket} (h : s.incoming.length < 4) :
    ∃ s', (tcpChannel hsize host).recvDatagram s = some ((false, []), s') := by
  obtain ⟨s₁, hheader, -⟩ := Comm.readExactNumBytesAppend_tcp hsize [] 4 s
  have hshort : decide (4 ≤ s.incoming.length) = false := by simpa using h
  rw [hshort] at hheader
  refine ⟨s₁, ?_⟩
  simp only [tcpChannel, Comm.StreamRpcChannel, Stream.CLenValueSeparator.readMessage, bind,
    StateT.bind, hheader]
  rfl

/-- Otherwise the datagram is what follows the length, if the stream holds that
much. -/
theorem recvDatagram_tcp_of_le (host : ByteOrder) {s : Socket} (h : 4 ≤ s.incoming.length) :
    let size := BigEndian.value (s.incoming.take 4)
    ∃ s', (tcpChannel hsize host).recvDatagram s =
        some ((decide (size ≤ s.incoming.length - 4), (s.incoming.drop 4).take size), s') ∧
      s'.incoming = (s.incoming.drop 4).drop size := by
  intro size
  obtain ⟨s₁, hheader, hincoming₁, -⟩ := Comm.readExactNumBytesAppend_tcp hsize [] 4 s
  obtain ⟨s₂, hbody, hincoming₂, -⟩ := Comm.readExactNumBytesAppend_tcp hsize [] size s₁
  rw [hincoming₁] at hbody hincoming₂
  have hlong : decide (4 ≤ s.incoming.length) = true := by simpa using h
  have hnumber : (Endian.sanUBe32toh host
      (UInt32.ofNat (host.load ((s.incoming.take 4).take 4)))).toNat = size := by
    rw [List.take_take, Nat.min_self, Endian.sanUBe32toh_load host (by simp; omega),
      UInt32.toNat_ofNat_of_lt' (value_take_four_lt _)]
  refine ⟨s₂, ?_, hincoming₂⟩
  rw [hlong] at hheader
  simp only [tcpChannel, Comm.StreamRpcChannel, Stream.CLenValueSeparator.readMessage, bind,
    StateT.bind, hheader, Option.bind_some, List.nil_append, Bool.not_true, Bool.false_eq_true,
    if_false, hnumber]
  simpa using hbody

/-- `recvData` on a socket is the parser of the wire format applied to the bytes
that will arrive, whatever their pieces are. -/
theorem recvData_tcp (host : ByteOrder) (funcIdOut : UInt32) (s : Socket) :
    (∀ {message rest}, parseFrame s.incoming = some (message, rest) →
      ∃ s', (tcpChannel hsize host).recvData host funcIdOut s =
        some ((true, message.1, message.2), s') ∧ s'.incoming = rest) ∧
    (parseFrame s.incoming = none →
      ∃ out s', (tcpChannel hsize host).recvData host funcIdOut s =
        some ((false, funcIdOut, out), s')) := by
  by_cases hheader : s.incoming.length < 4
  · -- The stream ends inside the length.
    obtain ⟨s', hrecv⟩ := recvDatagram_tcp_of_lt hsize host hheader
    have hdata := (tcpChannel hsize host).recvData_of_recvDatagram host funcIdOut hrecv
    refine ⟨fun hparse => ?_, fun _ => ⟨[], s', by simpa using hdata⟩⟩
    simp [parseFrame, hheader] at hparse
  · obtain ⟨s', hrecv, hincoming⟩ := recvDatagram_tcp_of_le hsize host (not_lt.mp hheader)
    have hdata := (tcpChannel hsize host).recvData_of_recvDatagram host funcIdOut hrecv
    generalize hnumber : BigEndian.value (s.incoming.take 4) = size at hdata hincoming
    by_cases hcut : s.incoming.length - 4 < size
    · -- The stream ends inside the datagram.
      have hfail : ¬ size ≤ s.incoming.length - 4 := not_le.mpr hcut
      refine ⟨fun hparse => ?_, fun _ => ⟨_, s', by simpa [hfail] using hdata⟩⟩
      simp [parseFrame, hnumber, hcut] at hparse
    · have hlength : ((s.incoming.drop 4).take size).length = size := by
        rw [List.length_take, List.length_drop]
        omega
      by_cases hid : size < 2
      · -- The datagram has no room for an identifier.
        have hfail : ¬ 2 ≤ size := not_le.mpr hid
        refine ⟨fun hparse => ?_, fun _ => ⟨_, s', by simpa [hlength, hfail] using hdata⟩⟩
        simp [parseFrame, hnumber, hid] at hparse
      · have hok : size ≤ s.incoming.length - 4 ∧ 2 ≤ size := by omega
        refine ⟨fun hparse => ⟨s', ?_, ?_⟩, fun hparse => ?_⟩
        · simp only [parseFrame, hnumber, hheader, hcut, hid, or_self, if_false,
            Option.some.injEq, Prod.mk.injEq] at hparse
          obtain ⟨rfl, -⟩ := hparse
          simpa only [hlength, hok, decide_true, and_self, if_true] using hdata
        · simp only [parseFrame, hnumber, hheader, hcut, hid, or_self, if_false,
            Option.some.injEq, Prod.mk.injEq] at hparse
          exact hincoming.trans hparse.2
        · simp [parseFrame, hnumber, hheader, hcut, hid] at hparse

/-- Successive calls receive what the parser finds in the stream, one message
after the other. -/
theorem recvMany_tcp (host : ByteOrder) (funcIdOut : UInt32) {n : ℕ} {s : Socket}
    {messages : List (UInt32 × Bytes)} {rest : Bytes}
    (h : rpcFraming.decodeMany n s.incoming = some (messages, rest)) :
    ∃ s', (tcpChannel hsize host).recvMany host n funcIdOut s =
      some (messages.map fun message => (true, message), s') ∧ s'.incoming = rest := by
  induction n generalizing funcIdOut s messages with
  | zero =>
    obtain ⟨rfl, rfl⟩ := Prod.mk.inj (Option.some.inj h)
    exact ⟨s, rfl, rfl⟩
  | succ n ih =>
    simp only [Framing.decodeMany, Option.bind_eq_bind, Option.bind_eq_some_iff] at h
    obtain ⟨⟨message, stream⟩, hfirst, ⟨later, rest'⟩, hlater, hresult⟩ := h
    obtain ⟨rfl, rfl⟩ := Prod.mk.inj (Option.some.inj hresult)
    obtain ⟨s₁, hrecv, rfl⟩ := (recvData_tcp hsize host funcIdOut s).1 hfirst
    obtain ⟨s', hrest, hincoming⟩ := ih message.1 hlater
    refine ⟨s', ?_, hincoming⟩
    simp only [CIRpcChannel.recvMany, bind, StateT.bind, hrecv, Option.bind_some, hrest]
    rfl

/-- When every call of `sendData` has returned true, the wire holds the frames of
the messages in order, whatever happened on the socket. -/
theorem sendMany_tcp_safe (host : ByteOrder) {messages : List (UInt32 × Bytes)}
    (hmessages : ∀ message ∈ messages, Sendable message) {s s' : Socket} {oks : List Bool}
    (h : (tcpChannel hsize host).sendMany host messages s = some (oks, s'))
    (hoks : ∀ ok ∈ oks, ok = true) : s'.wire = s.wire ++ rpcFraming.encodeAll messages := by
  induction messages generalizing s oks with
  | nil =>
    obtain ⟨-, rfl⟩ := Prod.mk.inj (Option.some.inj h)
    simp
  | cons message messages ih =>
    have hfirst := hmessages message List.mem_cons_self
    simp only [CIRpcChannel.sendMany, bind, StateT.bind, Option.bind_eq_some_iff] at h
    obtain ⟨⟨ok, s₁⟩, hsend, ⟨later, s₂⟩, hlater, hresult⟩ := h
    obtain ⟨rfl, rfl⟩ := Prod.mk.inj (Option.some.inj hresult)
    rw [sendData_tcp hsize host hfirst] at hsend
    obtain ⟨k, hstate, hall⟩ := Comm.writeAll_tcp_safe hsize hfirst.2 hsend
    have hwire : s₁.wire = s.wire ++ frame message.1 message.2 := by
      rw [hstate, List.take_of_length_le (hall (hoks ok List.mem_cons_self))]
    rw [ih (fun m hm => hmessages m (List.mem_cons_of_mem _ hm)) hlater
      (fun b hb => hoks b (List.mem_cons_of_mem _ hb)), hwire, List.append_assoc]
    rfl

/-- Every call of `sendData` returns true on an open socket without errors that
takes enough pieces, whatever their sizes are. -/
theorem sendMany_tcp_live (host : ByteOrder) {messages : List (UInt32 × Bytes)}
    (hmessages : ∀ message ∈ messages, Sendable message) {s : Socket} (hopen : s.isOpen = true)
    (hbenign : ∀ event ∈ s.sendEvents, event.benign)
    (henough : (messages.map fun message => (frame message.1 message.2).length).sum ≤
      s.sendEvents.countP SendEvent.progress) :
    ∃ s', (tcpChannel hsize host).sendMany host messages s =
      some (List.replicate messages.length true, s') := by
  induction messages generalizing s with
  | nil => exact ⟨s, rfl⟩
  | cons message messages ih =>
    have hfirst := hmessages message List.mem_cons_self
    rw [List.map_cons, List.sum_cons] at henough
    obtain ⟨used, events', hevents, hcount, hwrite⟩ :=
      Comm.writeAll_tcp_live hsize hfirst.2 hopen hbenign (by omega)
    obtain ⟨s', hrest⟩ := @ih (fun m hm => hmessages m (List.mem_cons_of_mem _ hm))
      { s with sendEvents := events', wire := s.wire ++ frame message.1 message.2 } hopen
      (fun event hevent => hbenign event (by
        rw [hevents]
        exact List.mem_append_right _ hevent))
      (by
        change _ ≤ events'.countP SendEvent.progress
        omega)
    refine ⟨s', ?_⟩
    simp only [CIRpcChannel.sendMany, bind, StateT.bind, sendData_tcp hsize host hfirst, hwrite,
      Option.bind_some, hrest]
    rfl

/-- A receiver whose stream is a part of the wire gets exactly the messages that
are whole in it, in order, and then a failure; the whole wire gives all of them. -/
def Delivers (host : ByteOrder) (messages : List (UInt32 × Bytes)) (wire : Bytes) : Prop :=
  ∀ (r : Socket) (funcIdOut : UInt32), r.incoming <+: wire →
    ∃ n rest r', rpcFraming.CutAt messages r.incoming n rest ∧
      (tcpChannel hsize host).recvMany host n funcIdOut r =
        some ((messages.take n).map fun message => (true, message), r') ∧
      r'.incoming = rest ∧ (r.incoming = wire → n = messages.length) ∧
      ∀ funcIdOut', ∃ out r'', (tcpChannel hsize host).recvData host funcIdOut' r' =
        some ((false, funcIdOut', out), r'')

/-- The calls of `sendData` succeed over every pattern of partial writes, and once
they have, the receiver gets exactly their messages over every pattern of partial
reads. A stream that ends inside a message gives the messages in front of it and
fails for this one. -/
theorem tcpChannel_delivers {sendSize recvSize : ℕ} (hsend : 0 < sendSize)
    (hrecv : 0 < recvSize) (sender receiver : ByteOrder) (messages : List (UInt32 × Bytes))
    (hmessages : ∀ message ∈ messages, Sendable message) :
    (∀ s : Socket, s.isOpen = true → (∀ event ∈ s.sendEvents, event.benign) →
      (messages.map fun message => (frame message.1 message.2).length).sum ≤
        s.sendEvents.countP SendEvent.progress →
      ∃ s', (tcpChannel hsend sender).sendMany sender messages s =
        some (List.replicate messages.length true, s')) ∧
    ∀ (s s' : Socket) (oks : List Bool), s.wire = [] →
      (tcpChannel hsend sender).sendMany sender messages s = some (oks, s') →
      (∀ ok ∈ oks, ok = true) → Delivers hrecv receiver messages s'.wire := by
  constructor
  · intro s hopen hbenign henough
    exact sendMany_tcp_live hsend sender hmessages hopen hbenign henough
  · intro s s' oks hempty hrun hoks r funcIdOut hprefix
    have hwire := sendMany_tcp_safe hsend sender hmessages hrun hoks
    rw [hempty, List.nil_append] at hwire
    rw [hwire] at hprefix
    obtain ⟨n, rest, hcut, hdecode, hnone, hall⟩ :=
      rpcFraming.decodeMany_prefix hmessages rfl hprefix
    obtain ⟨r', hmany, rfl⟩ := recvMany_tcp hrecv receiver funcIdOut hdecode
    refine ⟨n, _, r', hcut, hmany, rfl, fun heq => hall (heq.trans hwire), fun funcIdOut' => ?_⟩
    exact (recvData_tcp hrecv receiver funcIdOut' r').2 hnone

/-- Two messages, one without a payload, are written to a socket that takes one byte at a
time, and delivered. -/
theorem tcpChannel_delivers_two_messages :
    ∃ s', (tcpChannel (Nat.zero_lt_succ 1999) .littleEndian).sendMany .littleEndian
        [(7, [9]), (65000, [])]
        ⟨true, List.replicate 13 ⟨false, false, 1, .accepted 1⟩, [], [], fun _ => 1⟩ =
          some ([true, true], s') ∧
      Delivers (Nat.zero_lt_succ 2047) .bigEndian [(7, [9]), (65000, [])] s'.wire := by
  obtain ⟨hlive, hsafe⟩ := tcpChannel_delivers (Nat.zero_lt_succ 1999) (Nat.zero_lt_succ 2047)
    .littleEndian .bigEndian [(7, [9]), (65000, [])]
    (by simp only [List.mem_cons, List.not_mem_nil, or_false, forall_eq_or_imp, forall_eq,
          Sendable, length_frame]; decide)
  obtain ⟨s', hrun⟩ := hlive
    ⟨true, List.replicate 13 ⟨false, false, 1, .accepted 1⟩, [], [], fun _ => 1⟩ rfl
    (by decide) (by decide)
  exact ⟨s', hrun, hsafe _ s' _ rfl hrun (by decide)⟩

end Rpc

end San2
