import San2.Crypto.HashInterface

/-!
# The messages of the shell

A client sends the messages A (username and public value), B (proof) and C
(protected request), a server answers with P, Q and R. Every message begins with
the protocol byte and its type, and a server's message goes on with an error code.

A constructor or parser returns a negative code when it refuses its input.
-/

namespace San2.Shell

open DragonSRP

/-- `ENC_PROTOCOL_ID` -/
abbrev encProtocolId : UInt8 := 0x45

/-- `ENC_MIN_CLIENT_HEADER` -/
abbrev encMinClientHeader : ℕ := 2
/-- `ENC_MIN_SERVER_HEADER` -/
abbrev encMinServerHeader : ℕ := 3

/-- `ENC_MAX_USERNAME` -/
abbrev encMaxUsername : ℕ := 32
/-- `ENC_MIN_USERNAME` -/
abbrev encMinUsername : ℕ := 1
/-- `ENC_MAX_SRPA` -/
abbrev encMaxSrpA : ℕ := 1024
/-- `ENC_MIN_SRPA` -/
abbrev encMinSrpA : ℕ := 64
/-- `ENC_MAX_SRPB` -/
abbrev encMaxSrpB : ℕ := 1024
/-- `ENC_MIN_SRPB` -/
abbrev encMinSrpB : ℕ := 64
/-- `ENC_MAX_SALT` -/
abbrev encMaxSalt : ℕ := 64
/-- `ENC_MIN_SALT` -/
abbrev encMinSalt : ℕ := 16
/-- `ENC_MAX_M1` -/
abbrev encMaxM1 : ℕ := 512
/-- `ENC_MIN_M1` -/
abbrev encMinM1 : ℕ := 16
/-- `ENC_MAX_M2` -/
abbrev encMaxM2 : ℕ := 512
/-- `ENC_MIN_M2` -/
abbrev encMinM2 : ℕ := 16

/-- `ENC_MSGTYPE_A` -/
abbrev encMsgTypeA : UInt8 := 0x41
/-- `ENC_MSGTYPE_B` -/
abbrev encMsgTypeB : UInt8 := 0x42
/-- `ENC_MSGTYPE_C` -/
abbrev encMsgTypeC : UInt8 := 0x43
/-- `ENC_MSGTYPE_P` -/
abbrev encMsgTypeP : UInt8 := 0x50
/-- `ENC_MSGTYPE_Q` -/
abbrev encMsgTypeQ : UInt8 := 0x51
/-- `ENC_MSGTYPE_R` -/
abbrev encMsgTypeR : UInt8 := 0x52

/-- The first three checks of every parser. -/
def checkHeader (minimum : ℕ) (msgType : UInt8) (messageIn : Bytes) : Except ℤ Unit :=
  if messageIn.length < minimum then throw (-1)
  else if messageIn[0]? ≠ some encProtocolId then throw (-2)
  else if messageIn[1]? ≠ some msgType then throw (-3)
  else return ()

/-- The bounds of a field, with the code for each of them. -/
def checkSize (minimum maximum : ℕ) (below above : ℤ) (field : Bytes) : Except ℤ Unit :=
  if field.length < minimum then throw below
  else if maximum < field.length then throw above
  else return ()

/-- A message of the client: header and content. -/
def clientMessage (msgType : UInt8) (content : Bytes) : Bytes :=
  [encProtocolId, msgType] ++ content

/-- A message of the server: header, error code and content. -/
def serverMessage (msgType errorCode : UInt8) (content : Bytes) : Bytes :=
  [encProtocolId, msgType, errorCode] ++ content

/-- The header check passes exactly on messages that are long enough and start with the two header
bytes. -/
theorem checkHeader_eq_ok {minimum : ℕ} {msgType : UInt8} {messageIn : Bytes} {u : Unit} :
    checkHeader minimum msgType messageIn = .ok u ↔
      minimum ≤ messageIn.length ∧ messageIn[0]? = some encProtocolId ∧
        messageIn[1]? = some msgType := by
  simp only [checkHeader, ite_throw_eq_ok, pure_eq_ok, not_lt, ne_eq, not_not, and_true]

/-- The size check passes exactly on lengths within both bounds. -/
theorem checkSize_eq_ok {minimum maximum : ℕ} {below above : ℤ} {field : Bytes} {u : Unit} :
    checkSize minimum maximum below above field = .ok u ↔
      minimum ≤ field.length ∧ field.length ≤ maximum := by
  simp only [checkSize, ite_throw_eq_ok, pure_eq_ok, not_lt, and_true]

/-- A header is accepted together with a content that is long enough. -/
theorem checkHeader_clientMessage {minimum : ℕ} {msgType : UInt8} {content : Bytes}
    (h : minimum ≤ 2 + content.length) :
    checkHeader minimum msgType (clientMessage msgType content) = .ok () := by
  rw [checkHeader_eq_ok]
  refine ⟨?_, rfl, rfl⟩
  unfold clientMessage
  rw [List.length_append, List.length_cons, List.length_singleton]
  omega

/-- A server message of its own type passes the header check. -/
theorem checkHeader_serverMessage {minimum : ℕ} {msgType errorCode : UInt8} {content : Bytes}
    (h : minimum ≤ 3 + content.length) :
    checkHeader minimum msgType (serverMessage msgType errorCode content) = .ok () := by
  rw [checkHeader_eq_ok]
  refine ⟨?_, rfl, rfl⟩
  simp only [serverMessage, List.length_append, List.length_cons, List.length_nil]
  omega

/-- E + A + username + 0x00 + srpA -/
def enc_construct_A_message (username srpA : Bytes) : Except ℤ Bytes := do
  checkSize encMinUsername encMaxUsername (-1) (-2) username
  checkSize encMinSrpA encMaxSrpA (-3) (-4) srpA
  return clientMessage encMsgTypeA (username ++ [0x00] ++ srpA)

/-- The username and the public value. The search for the terminator runs one step too
far: it reads `beyond`, the byte behind the message, and where that is not zero either,
takes it for the last character of the username and leaves the public value empty. -/
def enc_parse_A_message (beyond : UInt8) (messageIn : Bytes) : Except ℤ (Bytes × Bytes) := do
  checkHeader (encMinClientHeader + encMinUsername + encMinSrpA) encMsgTypeA messageIn
  let content := messageIn.drop encMinClientHeader
  let username := content.takeWhile (· ≠ 0x00)
  if username.length < content.length then
    return (username, content.drop (username.length + 1))
  else if beyond = 0x00 then throw (-4)
  else return (content ++ [beyond], [])

/-- `enc_construct_P_message_success` as a value: an error code, or the message. -/
def enc_construct_P_message_success (salt srpB : Bytes) : Except ℤ Bytes := do
  checkSize encMinSalt encMaxSalt (-1) (-2) salt
  checkSize encMinSrpB encMaxSrpB (-3) (-4) srpB
  if 255 < salt.length then throw (-5)
  return serverMessage encMsgTypeP 0 ([UInt8.ofNat salt.length] ++ salt ++ srpB)

/-- A P message is built exactly from a salt of 16 to 64 bytes and a B of 64 to 1024. -/
theorem enc_construct_P_message_success_eq_ok {salt srpB out : Bytes} :
    enc_construct_P_message_success salt srpB = .ok out ↔
      16 ≤ salt.length ∧ salt.length ≤ 64 ∧ 64 ≤ srpB.length ∧ srpB.length ≤ 1024 ∧
        out = serverMessage encMsgTypeP 0 ([UInt8.ofNat salt.length] ++ salt ++ srpB) := by
  simp only [enc_construct_P_message_success, bind_eq_ok, checkSize_eq_ok, exists_and_left,
    exists_const, encMinSalt, encMaxSalt, encMinSrpB, encMaxSrpB]
  constructor
  · rintro ⟨⟨hmin, hmax⟩, ⟨hminB, hmaxB⟩, h⟩
    rw [if_neg (by omega)] at h
    exact ⟨hmin, hmax, hminB, hmaxB, (pure_eq_ok.mp h).symm⟩
  · rintro ⟨hmin, hmax, hminB, hmaxB, rfl⟩
    refine ⟨⟨hmin, hmax⟩, ⟨hminB, hmaxB⟩, ?_⟩
    rw [if_neg (by omega)]
    rfl

/-- It always returns 0. -/
def enc_construct_P_message_fail (errorCode : UInt8) : Bytes :=
  serverMessage encMsgTypeP errorCode []

/-- The error code, the salt and the public value. -/
def enc_parse_P_message (messageIn : Bytes) : Except ℤ (UInt8 × Bytes × Bytes) := do
  checkHeader encMinServerHeader encMsgTypeP messageIn
  let errorCode := messageIn.getD 2 0
  if errorCode ≠ 0 then return (errorCode, [], [])
  if messageIn.length < encMinServerHeader + 1 + encMinSalt + encMinSrpB then throw (-4)
  let saltSize := (messageIn.getD 3 0).toNat
  if saltSize < encMinSalt ∨ encMaxSalt < saltSize then throw (-5)
  let salt := (messageIn.drop 4).take saltSize
  let srpB := messageIn.drop (4 + saltSize)
  checkSize encMinSalt encMaxSalt (-6) (-7) salt
  checkSize encMinSrpB encMaxSrpB (-8) (-9) srpB
  return (errorCode, salt, srpB)

/-- A challenge is parsed back. -/
theorem enc_parse_construct_P_message_success {salt srpB out : Bytes}
    (h : enc_construct_P_message_success salt srpB = .ok out) :
    enc_parse_P_message out = .ok (0, salt, srpB) := by
  obtain ⟨hmin, hmax, hminB, hmaxB, hout⟩ := enc_construct_P_message_success_eq_ok.mp h
  have hbyte : salt.length < UInt8.size := by
    have hvalues : UInt8.size = 256 := rfl
    omega
  have hsize : (UInt8.ofNat salt.length).toNat = salt.length := UInt8.toNat_ofNat_of_lt' hbyte
  have herror : out.getD 2 0 = 0 := by rw [hout]; rfl
  have hstored : out.getD 3 0 = UInt8.ofNat salt.length := by rw [hout]; rfl
  have hlength : out.length = 4 + salt.length + srpB.length := by
    simp only [hout, serverMessage, List.length_append, List.length_cons, List.length_nil]
    omega
  have hlong : ¬out.length < encMinServerHeader + 1 + encMinSalt + encMinSrpB :=
    not_lt.mpr (show 84 ≤ out.length by omega)
  have hbounds : ¬(salt.length < encMinSalt ∨ encMaxSalt < salt.length) :=
    not_or.mpr ⟨not_lt.mpr hmin, not_lt.mpr hmax⟩
  have hsalt : (out.drop 4).take salt.length = salt := by
    rw [hout]
    exact List.take_left
  have hsrpB : out.drop (4 + salt.length) = srpB := by
    rw [hout, ← List.drop_drop]
    exact List.drop_left
  have hheader : checkHeader encMinServerHeader encMsgTypeP out = .ok () := by
    rw [hout]
    exact checkHeader_serverMessage (Nat.le_add_right _ _)
  have hsaltSize : checkSize encMinSalt encMaxSalt (-6) (-7) salt = .ok () :=
    checkSize_eq_ok.mpr ⟨hmin, hmax⟩
  have hsrpBSize : checkSize encMinSrpB encMaxSrpB (-8) (-9) srpB = .ok () :=
    checkSize_eq_ok.mpr ⟨hminB, hmaxB⟩
  simp only [enc_parse_P_message, hheader, herror, hstored, hsize, hsalt, hsrpB, if_neg hlong,
    if_neg hbounds, hsaltSize, hsrpBSize]
  rfl

/-- A refusal is parsed back without a challenge. -/
theorem enc_parse_construct_P_message_fail {errorCode : UInt8} (h : errorCode ≠ 0) :
    enc_parse_P_message (enc_construct_P_message_fail errorCode) = .ok (errorCode, [], []) := by
  unfold enc_parse_P_message enc_construct_P_message_fail
  rw [checkHeader_serverMessage (Nat.le_add_right _ _)]
  exact if_pos h

/-- `enc_construct_B_message` as a value. -/
def enc_construct_B_message (srpM1 : Bytes) : Except ℤ Bytes := do
  checkSize encMinM1 encMaxM1 (-1) (-2) srpM1
  return clientMessage encMsgTypeB srpM1

/-- `enc_parse_B_message` as a value. -/
def enc_parse_B_message (messageIn : Bytes) : Except ℤ Bytes := do
  checkHeader (encMinClientHeader + encMinM1) encMsgTypeB messageIn
  let srpM1 := messageIn.drop encMinClientHeader
  checkSize encMinM1 encMaxM1 (-4) (-4) srpM1
  return srpM1

/-- A proof is parsed back. -/
theorem enc_parse_construct_B_message {srpM1 out : Bytes}
    (h : enc_construct_B_message srpM1 = .ok out) : enc_parse_B_message out = .ok srpM1 := by
  obtain ⟨_, hchecked, h⟩ := bind_eq_ok.mp h
  obtain ⟨hmin, hmax⟩ := checkSize_eq_ok.mp hchecked
  rw [← pure_eq_ok.mp h, enc_parse_B_message,
    checkHeader_clientMessage (Nat.add_le_add_left hmin 2)]
  have hsrpM1 : (clientMessage encMsgTypeB srpM1).drop encMinClientHeader = srpM1 := rfl
  have hsize : checkSize encMinM1 encMaxM1 (-4) (-4) srpM1 = .ok () :=
    checkSize_eq_ok.mpr ⟨hmin, hmax⟩
  simp only [hsrpM1, hsize]
  rfl

/-- It always returns 0. -/
def enc_construct_Q_message_fail (errorCode : UInt8) : Bytes :=
  serverMessage encMsgTypeQ errorCode []

/-- `enc_construct_Q_message_success` as a value. -/
def enc_construct_Q_message_success (srpM2 : Bytes) : Except ℤ Bytes := do
  checkSize encMinM2 encMaxM2 (-1) (-2) srpM2
  return serverMessage encMsgTypeQ 0 srpM2

/-- A Q message is built exactly from an M2 of 16 to 512 bytes. -/
theorem enc_construct_Q_message_success_eq_ok {srpM2 out : Bytes} :
    enc_construct_Q_message_success srpM2 = .ok out ↔
      16 ≤ srpM2.length ∧ srpM2.length ≤ 512 ∧ out = serverMessage encMsgTypeQ 0 srpM2 := by
  simp only [enc_construct_Q_message_success, bind_eq_ok, checkSize_eq_ok, exists_and_left,
    exists_const, pure_eq_ok, and_assoc]
  rw [eq_comm (a := out)]

/-- The error code and the proof of the server. -/
def enc_parse_Q_message (messageIn : Bytes) : Except ℤ (UInt8 × Bytes) := do
  checkHeader encMinServerHeader encMsgTypeQ messageIn
  let errorCode := messageIn.getD 2 0
  if errorCode ≠ 0 then return (errorCode, [])
  if messageIn.length < encMinServerHeader + encMinM2 then throw (-4)
  return (errorCode, messageIn.drop encMinServerHeader)

/-- Any proof that is long enough is accepted. -/
theorem enc_parse_Q_message_serverMessage {srpM2 : Bytes} (h : 16 ≤ srpM2.length) :
    enc_parse_Q_message (serverMessage encMsgTypeQ 0 srpM2) = .ok (0, srpM2) := by
  have herror : (serverMessage encMsgTypeQ 0 srpM2).getD 2 0 = 0 := rfl
  have hsrpM2 : (serverMessage encMsgTypeQ 0 srpM2).drop encMinServerHeader = srpM2 := rfl
  have hlength : (serverMessage encMsgTypeQ 0 srpM2).length = 3 + srpM2.length := by
    rw [serverMessage, List.length_append]
    rfl
  have hlong : ¬(serverMessage encMsgTypeQ 0 srpM2).length < encMinServerHeader + encMinM2 :=
    not_lt.mpr (show 19 ≤ (serverMessage encMsgTypeQ 0 srpM2).length by omega)
  have hheader : checkHeader encMinServerHeader encMsgTypeQ (serverMessage encMsgTypeQ 0 srpM2) =
      .ok () := checkHeader_serverMessage (Nat.le_add_right _ _)
  simp only [enc_parse_Q_message, hheader, herror, hsrpM2, if_neg hlong]
  rfl

/-- The proof of the server is parsed back. -/
theorem enc_parse_construct_Q_message_success {srpM2 out : Bytes}
    (h : enc_construct_Q_message_success srpM2 = .ok out) :
    enc_parse_Q_message out = .ok (0, srpM2) := by
  obtain ⟨hmin, -, rfl⟩ := enc_construct_Q_message_success_eq_ok.mp h
  exact enc_parse_Q_message_serverMessage hmin

/-- A refusal is parsed back without a proof. -/
theorem enc_parse_construct_Q_message_fail {errorCode : UInt8} (h : errorCode ≠ 0) :
    enc_parse_Q_message (enc_construct_Q_message_fail errorCode) = .ok (errorCode, []) := by
  unfold enc_parse_Q_message enc_construct_Q_message_fail
  rw [checkHeader_serverMessage (Nat.le_add_right _ _)]
  exact if_pos h

/-- It always returns 0. -/
def enc_construct_C_message (request : Bytes) : Bytes := clientMessage encMsgTypeC request

/-- `enc_parse_C_message` as a value. -/
def enc_parse_C_message (messageIn : Bytes) : Except ℤ Bytes := do
  checkHeader encMinClientHeader encMsgTypeC messageIn
  return messageIn.drop encMinClientHeader

/-- It always returns 0. -/
def enc_construct_R_message (response : Bytes) (errorCode : UInt8) : Bytes :=
  serverMessage encMsgTypeR errorCode response

/-- The response and the error code. -/
def enc_parse_R_message (messageIn : Bytes) : Except ℤ (Bytes × UInt8) := do
  checkHeader encMinServerHeader encMsgTypeR messageIn
  return (messageIn.drop encMinServerHeader, messageIn.getD 2 0)

/-- A request is parsed back. -/
@[simp] theorem enc_parse_construct_C_message (request : Bytes) :
    enc_parse_C_message (enc_construct_C_message request) = .ok request := by
  unfold enc_parse_C_message enc_construct_C_message
  rw [checkHeader_clientMessage (Nat.le_add_right _ _)]
  rfl

/-- Nothing is parsed but a request. -/
theorem enc_parse_C_message_eq_ok {messageIn request : Bytes} :
    enc_parse_C_message messageIn = .ok request ↔ messageIn = enc_construct_C_message request := by
  constructor
  · intro h
    obtain ⟨_, hheader, h⟩ := bind_eq_ok.mp h
    obtain ⟨-, hprotocol, htype⟩ := checkHeader_eq_ok.mp hheader
    rw [← pure_eq_ok.mp h]
    match messageIn with
    | [] => cases hprotocol
    | [_] => cases htype
    | protocol :: msgType :: content =>
      obtain rfl := Option.some.inj hprotocol
      obtain rfl := Option.some.inj htype
      rfl
  · rintro rfl
    exact enc_parse_construct_C_message request

/-- A response is parsed back with its error code. -/
@[simp] theorem enc_parse_construct_R_message (response : Bytes) (errorCode : UInt8) :
    enc_parse_R_message (enc_construct_R_message response errorCode) =
      .ok (response, errorCode) := by
  unfold enc_parse_R_message enc_construct_R_message
  rw [checkHeader_serverMessage (Nat.le_add_right _ _)]
  rfl

end San2.Shell
