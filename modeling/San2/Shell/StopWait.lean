import San2.Network.CCapsule

/-!
# Reliable messages over capsules

`StopWaitTx` sends a request in a capsule and repeats it until a reply with the
same sequence number arrives or its tries are used up. `StopWaitRx` passes a
request with the expected sequence number to `processDatagram` and answers every
other one with the capsule it has sent last.
-/

namespace San2.Shell

open Utils Network

/-- The start-of-frame byte of every message. -/
def sof : UInt8 := 0x53

/-- A message: start of frame, sequence number in big-endian order, payload. -/
def message (host : ByteOrder) (seq : UInt64) (payload : Bytes) : Bytes :=
  [sof] ++ CDataPack.packUint64 host seq ++ payload

/-- Below the last one, the next sequence number is the next number. -/
theorem toNat_succ {seq : UInt64} (h : seq ≠ 0xFFFFFFFFFFFFFFFF) :
    (seq + 1).toNat = seq.toNat + 1 := by
  have hlt := seq.toNat_lt
  have hne : seq.toNat ≠ 2 ^ 64 - 1 := fun heq => h (UInt64.toNat_inj.mp heq)
  rw [UInt64.toNat_add]
  exact Nat.mod_eq_of_lt (by simp only [UInt64.toNat_one]; omega)

/-- `StopWaitTx`: the client's end of the protocol, with the number its next request will have. -/
structure StopWaitTx where
  m_repetitions : ℕ
  m_serverAddress : SanAddress
  m_serverPort : UInt16
  m_clientAddress : SanAddress
  m_clientPort : UInt16
  m_expectedSeqNum : UInt64
  deriving DecidableEq

/-- How one try of `sendReliableMessage` ends; the payload is what `response`
holds then. -/
inductive TryResult
  | success (response : Bytes)
  | failure (response : Bytes)
  | again (response : Bytes)
  deriving DecidableEq

/-- What the connector does in one try: whether it accepts the capsule, and the
capsule that arrives before the timeout. -/
structure Try where
  sendCapsule : Bool
  waitForCapsule : Option CCapsule

namespace StopWaitTx

/-- `getNextSequenceNumber`: the number that the next request will have. -/
def getNextSequenceNumber (tx : StopWaitTx) : UInt64 := tx.m_expectedSeqNum

/-- The serialized capsule of a request. The capsule is a new object, whose other
members hold whatever its memory held. -/
def serializedCapsule (host : ByteOrder) (object : CCapsule) (tx : StopWaitTx) (request : Bytes) :
    Bytes :=
  let data := message host tx.m_expectedSeqNum request
  let capsule := object.setDSdata host tx.m_serverPort tx.m_clientPort data
  let capsule := capsule.setDestinationAddress tx.m_serverAddress
  (capsule.setSourceAddress tx.m_clientAddress).pack host

/-- `awaitDatagram` overwrites `data` only when it succeeds. -/
def awaitDatagram (host : ByteOrder) (tx : StopWaitTx) (data : Bytes)
    (arrived : Option CCapsule) : Bool × Bytes :=
  match arrived with
  | none => (false, data)
  | some capsule =>
    let (ok, dstport, srcport) := capsule.getPortsDS host 0 0
    if !ok then (false, data)
    else if dstport ≠ tx.m_clientPort then (false, data)
    else if srcport ≠ tx.m_serverPort then (false, data)
    else if capsule.srcAddress ≠ tx.m_serverAddress then (false, data)
    else (true, capsule.data.drop 4)

/-- One turn of the loop of `sendReliableMessage` after the capsule was sent. -/
def awaitResponse (host : ByteOrder) (tx : StopWaitTx) (response : Bytes)
    (arrived : Option CCapsule) : TryResult :=
  let (ok, response) := tx.awaitDatagram host response arrived
  if !ok then .again response
  else if response.length < 9 then .failure response
  else if response.head? ≠ some sof then .failure response
  else if CDataPack.unpackUint64 host response 1 ≠ tx.m_expectedSeqNum then .again response
  else .success (response.drop 9)

/-- The loop of `sendReliableMessage` with the tries that are left. -/
def sendLoop (host : ByteOrder) (tx : StopWaitTx) :
    ℕ → (ℕ → Try) → Bytes → (Bool × Bytes) × StopWaitTx
  | 0, _, response => ((false, response), tx)
  | tries + 1, connector, response =>
    if !(connector 0).sendCapsule then ((false, response), tx)
    else match tx.awaitResponse host response (connector 0).waitForCapsule with
      | .again response => sendLoop host tx tries (fun k => connector (k + 1)) response
      | .failure response => ((false, response), tx)
      | .success response =>
        ((true, response), { tx with m_expectedSeqNum := tx.m_expectedSeqNum + 1 })

/-- The result of `sendReliableMessage`, the response and the sender afterwards,
for what the connector does in the tries of the call. -/
def sendReliableMessage (host : ByteOrder) (tx : StopWaitTx) (connector : ℕ → Try) :
    (Bool × Bytes) × StopWaitTx :=
  tx.sendLoop host tx.m_repetitions connector []

/-- The sequence number advances exactly when a message was answered. -/
theorem sendLoop_expectedSeqNum (host : ByteOrder) (tx : StopWaitTx) (tries : ℕ)
    (connector : ℕ → Try) (response : Bytes) :
    (tx.sendLoop host tries connector response).2 =
      if (tx.sendLoop host tries connector response).1.1 then
        { tx with m_expectedSeqNum := tx.m_expectedSeqNum + 1 }
      else tx := by
  induction tries generalizing connector response with
  | zero => rfl
  | succ tries ih =>
    simp only [sendLoop]
    by_cases hsend : (connector 0).sendCapsule = true
    · simp only [hsend, Bool.not_true, Bool.false_eq_true, if_false]
      cases tx.awaitResponse host response (connector 0).waitForCapsule with
      | success response => rfl
      | failure response => rfl
      | again response => exact ih _ response
    · simp [hsend]

/-- What a wait ends with does not depend on what `response` held before, unless
nothing usable has arrived. -/
theorem awaitResponse_cases (host : ByteOrder) (tx : StopWaitTx) (arrived : Option CCapsule) :
    (∀ response, tx.awaitResponse host response arrived = .again response) ∨
      ∃ result, ∀ response, tx.awaitResponse host response arrived = result := by
  have hdatagram : (∀ data, tx.awaitDatagram host data arrived = (false, data)) ∨
      ∃ received, ∀ data, tx.awaitDatagram host data arrived = (true, received) := by
    unfold awaitDatagram
    cases arrived with
    | none => exact .inl fun data => rfl
    | some capsule =>
      dsimp only
      split_ifs
      · exact .inl fun data => rfl
      · exact .inl fun data => rfl
      · exact .inl fun data => rfl
      · exact .inl fun data => rfl
      · exact .inr ⟨_, fun data => rfl⟩
  obtain hfalse | ⟨received, htrue⟩ := hdatagram
  · left
    intro response
    simp [awaitResponse, hfalse response]
  · right
    refine ⟨tx.awaitResponse host [] arrived, fun response => ?_⟩
    simp only [awaitResponse, htrue]

/-- A request is answered within the given tries: up to some try every capsule is sent,
what arrives before is passed over, and then the reply with its number arrives. -/
def Answered (host : ByteOrder) (tx : StopWaitTx) (tries : ℕ) (connector : ℕ → Try) : Prop :=
  ∃ k < tries, (∀ j ≤ k, (connector j).sendCapsule = true) ∧
    (∀ j < k, ∃ response, tx.awaitResponse host [] (connector j).waitForCapsule =
      .again response) ∧
    ∃ response, tx.awaitResponse host [] (connector k).waitForCapsule = .success response

/-- A try that is passed over leaves the question to the tries behind it. -/
theorem answered_succ_iff {host : ByteOrder} {tx : StopWaitTx} {tries : ℕ}
    {connector : ℕ → Try} {response : Bytes} (hsend : (connector 0).sendCapsule = true)
    (hagain : tx.awaitResponse host [] (connector 0).waitForCapsule = .again response) :
    tx.Answered host (tries + 1) connector ↔
      tx.Answered host tries fun k => connector (k + 1) := by
  constructor
  · rintro ⟨k, hk, hall, hbefore, hlast⟩
    cases k with
    | zero =>
      obtain ⟨taken, htaken⟩ := hlast
      rw [hagain] at htaken
      cases htaken
    | succ k =>
      exact ⟨k, by omega, fun j hj => hall (j + 1) (by omega),
        fun j hj => hbefore (j + 1) (by omega), hlast⟩
  · rintro ⟨k, hk, hall, hbefore, hlast⟩
    refine ⟨k + 1, by omega, fun j hj => ?_, fun j hj => ?_, hlast⟩
    · cases j with
      | zero => exact hsend
      | succ j => exact hall j (by omega)
    · cases j with
      | zero => exact ⟨response, hagain⟩
      | succ j => exact hbefore j (by omega)

/-- `sendReliableMessage` returns true exactly for an answered request. -/
theorem sendLoop_eq_true_iff (host : ByteOrder) (tx : StopWaitTx) (tries : ℕ)
    (connector : ℕ → Try) (response : Bytes) :
    (tx.sendLoop host tries connector response).1.1 = true ↔
      tx.Answered host tries connector := by
  induction tries generalizing connector response with
  | zero => simp [sendLoop, Answered]
  | succ tries ih =>
    unfold sendLoop
    by_cases hsend : (connector 0).sendCapsule = true
    · simp only [hsend, Bool.not_true, Bool.false_eq_true, if_false]
      obtain hagain | ⟨result, hresult⟩ := tx.awaitResponse_cases host (connector 0).waitForCapsule
      · rw [hagain response]
        exact (ih _ response).trans (answered_succ_iff hsend (hagain [])).symm
      · rw [hresult response]
        cases result with
        | again received =>
          exact (ih _ received).trans (answered_succ_iff hsend (hresult [])).symm
        | success received =>
          refine iff_of_true rfl ⟨0, Nat.succ_pos tries, fun j hj => ?_, fun j hj => ?_,
            received, hresult []⟩
          · rwa [Nat.le_zero.mp hj]
          · exact absurd hj (Nat.not_lt_zero j)
        | failure received =>
          refine iff_of_false (by simp) ?_
          rintro ⟨k, -, -, hbefore, taken, htaken⟩
          cases k with
          | zero =>
            rw [hresult []] at htaken
            cases htaken
          | succ k =>
            obtain ⟨again, hagain⟩ := hbefore 0 (Nat.succ_pos k)
            rw [hresult []] at hagain
            cases hagain
    · rw [Bool.not_eq_true] at hsend
      simp only [hsend, Bool.not_false, if_true, Bool.false_eq_true, false_iff]
      rintro ⟨k, -, hall, -⟩
      rw [hall 0 (Nat.zero_le k)] at hsend
      cases hsend

end StopWaitTx

/-- `StopWaitRx`: the server's end, with the number expected and the last response. -/
structure StopWaitRx where
  m_serverAddress : SanAddress
  m_serverPort : UInt16
  m_clientAddress : SanAddress
  m_clientPort : UInt16
  m_expectedSeqNum : UInt64
  m_lastSerializedCapsule : Bytes
  deriving DecidableEq

/-- A new receiver. -/
def StopWaitRx.create (serverAddress : SanAddress) (serverPort : UInt16)
    (clientAddress : SanAddress) (clientPort : UInt16) : StopWaitRx :=
  ⟨serverAddress, serverPort, clientAddress, clientPort, 1, []⟩

/-- What a call of `incommingCapsule` does: its result, the receiver and the
session afterwards, the capsules it has passed to the connector, and the request
and response of a successful `processDatagram`. -/
structure Handled (σ : Type) where
  result : Bool
  rx : StopWaitRx
  session : σ
  sent : List Bytes
  processed : Option (UInt64 × Bytes × Bytes)

namespace StopWaitRx

/-- The serialized capsule of a response. -/
def serializedCapsule (host : ByteOrder) (object : CCapsule) (rx : StopWaitRx)
    (response : Bytes) : Bytes :=
  let dataOut := message host rx.m_expectedSeqNum response
  let txcapsule := object.setSourceAddress rx.m_serverAddress
  let txcapsule := txcapsule.setDestinationAddress rx.m_clientAddress
  (txcapsule.setDSdata host rx.m_clientPort rx.m_serverPort dataOut).pack host

/-- The checks of `incommingCapsule` in front of the sequence number: the sequence
number and the payload of an acceptable capsule. -/
def parseCapsule (host : ByteOrder) (rx : StopWaitRx) (rxcapsule : CCapsule) :
    Option (UInt64 × Bytes) :=
  let rxcapsuleData := rxcapsule.data.drop 4
  if rxcapsule.srcAddress ≠ rx.m_clientAddress then none
  else
    let (ok, _, srcport) := rxcapsule.getPortsDS host 0 0
    if !ok then none
    else if srcport ≠ rx.m_clientPort then none
    else if rxcapsuleData.length < 9 then none
    else if rxcapsuleData.head? ≠ some sof then none
    else some (CDataPack.unpackUint64 host rxcapsuleData 1, rxcapsuleData.drop 9)

/-- `incommingCapsule` with the session state in `σ` that `processDatagram` works
on. The connector accepts capsules or not, as `sendCapsule` says. -/
def incommingCapsule {σ : Type} (host : ByteOrder)
    (processDatagram : UInt64 → Bytes → StateT σ Option (Bool × Bytes)) (sendCapsule : Bool)
    (object : CCapsule) (rx : StopWaitRx) (session : σ) (rxcapsule : CCapsule) :
    Option (Handled σ) :=
  match rx.parseCapsule host rxcapsule with
  | none => some ⟨false, rx, session, [], none⟩
  | some (rxseq, request) =>
    if rxseq ≠ rx.m_expectedSeqNum then
      some ⟨true, rx, session, [rx.m_lastSerializedCapsule], none⟩
    else
      match processDatagram rxseq request session with
      | none => none
      | some ((false, _), session) => some ⟨false, rx, session, [], none⟩
      | some ((true, response), session) =>
        let serializedCapsule := rx.serializedCapsule host object response
        some ⟨sendCapsule, { rx with
            m_expectedSeqNum := rx.m_expectedSeqNum + 1
            m_lastSerializedCapsule := serializedCapsule },
          session, [serializedCapsule], some (rxseq, request, response)⟩

end StopWaitRx

/-- The part of a capsule's journey that the ends have no influence on: the object
that it is unpacked into and the hop count it arrives with. -/
structure Transit where
  object : CCapsule
  hop : UInt16

/-- Unpack a serialized capsule at the other end. -/
def deliver (host : ByteOrder) (transit : Transit) (serialized : Bytes) : Option CCapsule :=
  let (ok, capsule) := transit.object.unpack host serialized
  if ok then some { capsule with hop := transit.hop } else none

/-- Wherever the bytes are delivered, they are a datagram capsule of the given
source with the given ports and message. -/
def Carries (srcAddress : SanAddress) (dstport srcport : UInt16) (seq : UInt64) (payload : Bytes)
    (serialized : Bytes) : Prop :=
  ∀ host transit, ∃ capsule, deliver host transit serialized = some capsule ∧
    capsule.srcAddress = srcAddress ∧
    capsule.getPortsDS host 0 0 = (true, dstport, srcport) ∧
    capsule.data.drop 4 = sof :: (BigEndian.bytes 8 seq.toNat ++ payload)

/-- A message on the wire: the start byte, eight bytes of sequence number in network order, the
payload. -/
theorem message_eq (host : ByteOrder) (seq : UInt64) (payload : Bytes) :
    message host seq payload = sof :: (BigEndian.bytes 8 seq.toNat ++ payload) := by
  simp [message]

/-- The header of a message is read back from its bytes. -/
theorem unpack_message (host : ByteOrder) (seq : UInt64) (payload : Bytes) :
    let data := sof :: (BigEndian.bytes 8 seq.toNat ++ payload)
    9 ≤ data.length ∧ data.head? = some sof ∧ CDataPack.unpackUint64 host data 1 = seq ∧
      data.drop 9 = payload := by
  refine ⟨by simp, rfl, ?_, ?_⟩
  · exact CDataPack.unpackUint64_append host [sof] payload seq 1 rfl
  · exact List.drop_left' (BigEndian.length_bytes 8 _)

/-- A datagram capsule carries its message. -/
theorem carries_pack (sender : ByteOrder) (capsule : CCapsule) (dstport srcport : UInt16)
    (seq : UInt64) (payload : Bytes)
    (hdata : capsule.data = BigEndian.bytes 2 dstport.toNat ++ BigEndian.bytes 2 srcport.toNat ++
      message sender seq payload) (hDS : capsule.flagDS = true) :
    Carries capsule.srcAddress dstport srcport seq payload (capsule.pack sender) := by
  intro host transit
  refine ⟨{ capsule with interfaceAddress := transit.object.interfaceAddress, hop := transit.hop },
    ?_, rfl, ?_, ?_⟩
  · simp only [deliver, CCapsule.unpack_pack sender host capsule transit.object, if_true]
  · have hports := CCapsule.getPortsDS_setDSdata sender host capsule dstport srcport
      (message sender seq payload) 0 0
    simp only [CCapsule.setDSdata, CCapsule.setDS, CCapsule.getPortsDS,
      CDataPack.packUint16_eq] at hports
    simpa only [CCapsule.getPortsDS, hdata, hDS] using hports
  · have hlength : (BigEndian.bytes 2 dstport.toNat ++ BigEndian.bytes 2 srcport.toNat).length =
        4 := by simp
    rw [← message_eq sender]
    simp only [hdata]
    exact List.drop_left' hlength

/-- The capsule of a request carries it. -/
theorem StopWaitTx.carries (host : ByteOrder) (object : CCapsule) (tx : StopWaitTx)
    (request : Bytes) :
    Carries tx.m_clientAddress tx.m_serverPort tx.m_clientPort tx.m_expectedSeqNum request
      (tx.serializedCapsule host object request) :=
  carries_pack host _ _ _ _ _ (by simp [CCapsule.setDSdata, CCapsule.setDestinationAddress,
    CCapsule.setSourceAddress]) rfl

/-- The capsule of a response carries it. -/
theorem StopWaitRx.carries (host : ByteOrder) (object : CCapsule) (rx : StopWaitRx)
    (response : Bytes) :
    Carries rx.m_serverAddress rx.m_clientPort rx.m_serverPort rx.m_expectedSeqNum response
      (rx.serializedCapsule host object response) :=
  carries_pack host _ _ _ _ _ (by simp [CCapsule.setDSdata, CCapsule.setSourceAddress,
    CCapsule.setDestinationAddress]) rfl

/-- The receiver parses the capsule of its client. -/
theorem Carries.parseCapsule {rx : StopWaitRx} {dstport : UInt16} {seq : UInt64}
    {payload serialized : Bytes}
    (h : Carries rx.m_clientAddress dstport rx.m_clientPort seq payload serialized)
    {host : ByteOrder} {transit : Transit} {capsule : CCapsule}
    (hdeliver : deliver host transit serialized = some capsule) :
    rx.parseCapsule host capsule = some (seq, payload) := by
  obtain ⟨capsule', hdeliver', haddress, hports, hdata⟩ := h host transit
  obtain rfl := Option.some.inj (hdeliver.symm.trans hdeliver')
  obtain ⟨hlength, hhead, hseq, hpayload⟩ := unpack_message host seq payload
  simp only [StopWaitRx.parseCapsule, haddress, hports, hdata, ne_eq, not_true_eq_false,
    if_false, Bool.not_true, Bool.false_eq_true, Nat.not_lt.mpr hlength, hhead, hseq, hpayload]

/-- The sender takes the payload of a reply with its sequence number and tries
again on any other number. -/
theorem Carries.awaitResponse {tx : StopWaitTx} {seq : UInt64} {payload serialized : Bytes}
    (h : Carries tx.m_serverAddress tx.m_clientPort tx.m_serverPort seq payload serialized)
    {host : ByteOrder} {transit : Transit} {capsule : CCapsule}
    (hdeliver : deliver host transit serialized = some capsule) (response : Bytes) :
    tx.awaitResponse host response (some capsule) =
      if seq = tx.m_expectedSeqNum then .success payload
      else .again (sof :: (BigEndian.bytes 8 seq.toNat ++ payload)) := by
  obtain ⟨capsule', hdeliver', haddress, hports, hdata⟩ := h host transit
  obtain rfl := Option.some.inj (hdeliver.symm.trans hdeliver')
  obtain ⟨hlength, hhead, hseq, hpayload⟩ := unpack_message host seq payload
  have hawait : tx.awaitDatagram host response (some capsule) =
      (true, sof :: (BigEndian.bytes 8 seq.toNat ++ payload)) := by
    simp [StopWaitTx.awaitDatagram, hports, haddress, hdata]
  simp only [StopWaitTx.awaitResponse, hawait, Bool.not_true, Bool.false_eq_true, if_false,
    Nat.not_lt.mpr hlength, hhead, ne_eq, not_true_eq_false, hseq, hpayload, ite_not]

/-- Two capsule objects that agree in the members that neither sender assigns. -/
def SameRest (object object' : CCapsule) : Prop :=
  object.flagDX = object'.flagDX ∧ object.appId = object'.appId ∧ object.hop = object'.hop

/-- The capsule of a request shows these members of its object. -/
theorem StopWaitTx.serializedCapsule_eq_iff (host : ByteOrder) (tx : StopWaitTx)
    (request : Bytes) (object object' : CCapsule) :
    tx.serializedCapsule host object request = tx.serializedCapsule host object' request ↔
      SameRest object object' := by
  unfold StopWaitTx.serializedCapsule
  rw [CCapsule.pack_eq_iff]
  simp [CCapsule.setDSdata, CCapsule.setDS, CCapsule.setDestinationAddress,
    CCapsule.setSourceAddress, SameRest]

/-- And so does the capsule of a response. -/
theorem StopWaitRx.serializedCapsule_eq_iff (host : ByteOrder) (rx : StopWaitRx)
    (response : Bytes) (object object' : CCapsule) :
    rx.serializedCapsule host object response = rx.serializedCapsule host object' response ↔
      SameRest object object' := by
  unfold StopWaitRx.serializedCapsule
  rw [CCapsule.pack_eq_iff]
  simp [CCapsule.setDSdata, CCapsule.setDS, CCapsule.setDestinationAddress,
    CCapsule.setSourceAddress, SameRest]

/-- Only a response that was processed is made of a new object. -/
theorem StopWaitRx.sent_of_processed {σ : Type} {host : ByteOrder}
    {processDatagram : UInt64 → Bytes → StateT σ Option (Bool × Bytes)} {sendCapsule : Bool}
    {object : CCapsule} {rx : StopWaitRx} {session : σ} {rxcapsule : CCapsule}
    {handled : Handled σ}
    (hhandled : rx.incommingCapsule host processDatagram sendCapsule object session rxcapsule =
      some handled) {seq : UInt64} {request response : Bytes}
    (hprocessed : handled.processed = some (seq, request, response)) :
    handled.sent = [rx.serializedCapsule host object response] ∧
      ∃ session', rx.parseCapsule host rxcapsule = some (rx.m_expectedSeqNum, request) ∧
        processDatagram rx.m_expectedSeqNum request session =
          some ((true, response), session') := by
  cases hparse : rx.parseCapsule host rxcapsule with
  | none =>
    simp only [incommingCapsule, hparse] at hhandled
    obtain rfl := Option.some.inj hhandled
    cases hprocessed
  | some header =>
    obtain ⟨rxseq, rxrequest⟩ := header
    simp only [incommingCapsule, hparse] at hhandled
    by_cases hseq : rxseq = rx.m_expectedSeqNum
    · subst hseq
      simp only [ne_eq, not_true_eq_false, if_false] at hhandled
      cases hresult : processDatagram rx.m_expectedSeqNum rxrequest session with
      | none => simp [hresult] at hhandled
      | some result =>
        obtain ⟨⟨ok, rxresponse⟩, session'⟩ := result
        cases ok with
        | false =>
          simp only [hresult] at hhandled
          obtain rfl := Option.some.inj hhandled
          cases hprocessed
        | true =>
          simp only [hresult] at hhandled
          obtain rfl := Option.some.inj hhandled
          simp only [Option.some.injEq, Prod.mk.injEq] at hprocessed
          obtain ⟨-, rfl, rfl⟩ := hprocessed
          exact ⟨rfl, session', rfl, hresult⟩
    · simp only [ne_eq, hseq, not_false_eq_true, if_true] at hhandled
      obtain rfl := Option.some.inj hhandled
      cases hprocessed

end San2.Shell
