import Mathlib.Data.List.Basic
import San2.Shell.MessageConstructor

/-!
# Messages in the caller's buffers

The constructors and parsers of the messages P, Q, B, C, R and D write into buffers
of the caller: they resize a buffer, which may hold anything, and assign its bytes one
by one. What they leave there is what the functions on byte strings say, and the
six messages are told apart by their second byte.
-/

namespace San2.Shell

open DragonSRP

/-- `ENC_MSGTYPE_D` -/
abbrev encMsgTypeD : UInt8 := 0x44

namespace MessageBuffer

/-- `std::copy` of a whole byte string to a position of a buffer. -/
def copyTo (out source : Bytes) (position : ℕ) : Bytes :=
  out.take position ++ source ++ out.drop (position + source.length)

/-- The two bytes in front of every message. -/
def setHeader (msgType : UInt8) (out : Bytes) : Bytes :=
  (out.set 0 encProtocolId).set 1 msgType

/-- `enc_construct_P_message_success`: salt and B behind the header, the salt's length in between;
a length out of bounds leaves the output as it was. -/
def enc_construct_P_message_success (salt srpB out : Bytes) : ℤ × Bytes :=
  if salt.length < encMinSalt then (-1, out)
  else if salt.length > encMaxSalt then (-2, out)
  else if srpB.length < encMinSrpB then (-3, out)
  else if srpB.length > encMaxSrpB then (-4, out)
  else if salt.length > 255 then (-5, out)
  else
    let saltSize := UInt8.ofNat salt.length
    let out := resize [] (encMinServerHeader + 1 + salt.length + srpB.length)
    let out := ((setHeader encMsgTypeP out).set 2 0).set 3 saltSize
    let out := copyTo out salt (encMinServerHeader + 1)
    (0, copyTo out srpB (encMinServerHeader + 1 + saltSize.toNat))

/-- `enc_construct_P_message_fail`: the header alone, with the error code. -/
def enc_construct_P_message_fail (errorCode : UInt8) (out : Bytes) : ℤ × Bytes :=
  (0, (setHeader encMsgTypeP (resize out encMinServerHeader)).set 2 errorCode)

/-- `enc_construct_B_message`: M1 behind a client header. -/
def enc_construct_B_message (srpM1 out : Bytes) : ℤ × Bytes :=
  if srpM1.length < encMinM1 then (-1, out)
  else if srpM1.length > encMaxM1 then (-2, out)
  else
    let out := setHeader encMsgTypeB (resize out (encMinClientHeader + srpM1.length))
    (0, copyTo out srpM1 encMinClientHeader)

/-- `enc_construct_Q_message_fail`: the header alone, with the error code. -/
def enc_construct_Q_message_fail (errorCode : UInt8) (out : Bytes) : ℤ × Bytes :=
  (0, (setHeader encMsgTypeQ (resize out encMinServerHeader)).set 2 errorCode)

/-- `enc_construct_Q_message_success`: M2 behind a server header whose error code is 0. -/
def enc_construct_Q_message_success (srpM2 out : Bytes) : ℤ × Bytes :=
  if srpM2.length < encMinM2 then (-1, out)
  else if srpM2.length > encMaxM2 then (-2, out)
  else
    let out := (setHeader encMsgTypeQ (resize out (encMinServerHeader + srpM2.length))).set 2 0
    (0, copyTo out srpM2 encMinServerHeader)

/-- `enc_construct_C_message`: the request behind a client header, with no bound on its length. -/
def enc_construct_C_message (request out : Bytes) : ℤ × Bytes :=
  let out := setHeader encMsgTypeC (resize out (encMinClientHeader + request.length))
  (0, copyTo out request encMinClientHeader)

/-- `enc_construct_R_message`: the response behind a server header, with no bound on its
length. -/
def enc_construct_R_message (response : Bytes) (errorCode : UInt8) (out : Bytes) : ℤ × Bytes :=
  let out := (setHeader encMsgTypeR (resize out (encMinServerHeader + response.length))).set 2
    errorCode
  (0, copyTo out response encMinServerHeader)

/-- `enc_construct_D_message`: the client header alone. -/
def enc_construct_D_message (out : Bytes) : ℤ × Bytes :=
  (0, setHeader encMsgTypeD (resize out encMinClientHeader))

/-- The code of the header checks of a parser, 0 if the header is accepted. -/
def headerCode (minimum : ℕ) (msgType : UInt8) (messageIn : Bytes) : ℤ :=
  if messageIn.length < minimum then -1
  else if messageIn[0]? ≠ some encProtocolId then -2
  else if messageIn[1]? ≠ some msgType then -3
  else 0

/-- `enc_parse_P_message`: an error code of the server clears salt and B. -/
def enc_parse_P_message (messageIn : Bytes) (errorCode : UInt8) (salt srpB : Bytes) :
    ℤ × UInt8 × Bytes × Bytes :=
  let code := headerCode encMinServerHeader encMsgTypeP messageIn
  if code ≠ 0 then (code, errorCode, salt, srpB)
  else
    let errorCode := messageIn.getD 2 0
    if errorCode ≠ 0 then (0, errorCode, [], [])
    else if messageIn.length < encMinServerHeader + 1 + encMinSalt + encMinSrpB then
      (-4, errorCode, salt, srpB)
    else
      let saltSize := (messageIn.getD 3 0).toNat
      if saltSize < encMinSalt ∨ encMaxSalt < saltSize then (-5, errorCode, salt, srpB)
      else
        let salt := copyTo (resize salt saltSize) ((messageIn.drop 4).take saltSize) 0
        let srpBSize := messageIn.length - encMinServerHeader - 1 - saltSize
        let srpB := copyTo (resize srpB srpBSize) (messageIn.drop (4 + saltSize)) 0
        if salt.length < encMinSalt then (-6, errorCode, salt, srpB)
        else if salt.length > encMaxSalt then (-7, errorCode, salt, srpB)
        else if srpB.length < encMinSrpB then (-8, errorCode, salt, srpB)
        else if srpB.length > encMaxSrpB then (-9, errorCode, salt, srpB)
        else (0, errorCode, salt, srpB)

/-- `enc_parse_B_message`: M1 is all that stands behind the header. -/
def enc_parse_B_message (messageIn srpM1 : Bytes) : ℤ × Bytes :=
  let code := headerCode (encMinClientHeader + encMinM1) encMsgTypeB messageIn
  if code ≠ 0 then (code, srpM1)
  else
    let m1size := messageIn.length - encMinClientHeader
    if m1size < encMinM1 ∨ encMaxM1 < m1size then (-4, srpM1)
    else (0, copyTo (resize srpM1 m1size) (messageIn.drop (messageIn.length - m1size)) 0)

/-- `enc_parse_Q_message`: an error code of the server clears M2, which has no upper bound here. -/
def enc_parse_Q_message (messageIn : Bytes) (errorCode : UInt8) (srpM2 : Bytes) :
    ℤ × UInt8 × Bytes :=
  let code := headerCode encMinServerHeader encMsgTypeQ messageIn
  if code ≠ 0 then (code, errorCode, srpM2)
  else
    let errorCode := messageIn.getD 2 0
    if errorCode ≠ 0 then (0, errorCode, [])
    else if messageIn.length < encMinServerHeader + encMinM2 then (-4, errorCode, srpM2)
    else
      let m2size := messageIn.length - encMinServerHeader
      (0, errorCode, copyTo (resize srpM2 m2size) (messageIn.drop encMinServerHeader) 0)

/-- `enc_parse_C_message`: the request is all that stands behind the header. -/
def enc_parse_C_message (messageIn request : Bytes) : ℤ × Bytes :=
  let code := headerCode encMinClientHeader encMsgTypeC messageIn
  if code ≠ 0 then (code, request)
  else
    let requestSize := messageIn.length - encMinClientHeader
    let request := resize request requestSize
    if requestSize > 0 then (0, copyTo request (messageIn.drop (messageIn.length - requestSize)) 0)
    else (0, request)

/-- `enc_parse_R_message`: the response and the error code, for every code. -/
def enc_parse_R_message (messageIn response : Bytes) (errorCode : UInt8) : ℤ × Bytes × UInt8 :=
  let code := headerCode encMinServerHeader encMsgTypeR messageIn
  if code ≠ 0 then (code, response, errorCode)
  else
    let errorCode := messageIn.getD 2 0
    let responseSize := messageIn.length - encMinServerHeader
    let response := resize response responseSize
    if responseSize > 0 then (0, copyTo response (messageIn.drop encMinServerHeader) 0, errorCode)
    else (0, response, errorCode)

/-- `enc_parse_D_message`: the code alone, as a D message has no contents. -/
def enc_parse_D_message (messageIn : Bytes) : ℤ :=
  if messageIn.length ≠ encMinClientHeader then -1
  else if messageIn[0]? ≠ some encProtocolId then -2
  else if messageIn[1]? ≠ some encMsgTypeD then -3
  else 0

/-- A buffer of the right size is overwritten completely. -/
theorem copyTo_all {out source : Bytes} (h : out.length = source.length) :
    copyTo out source 0 = source := by
  unfold copyTo
  rw [List.take_zero, List.nil_append, Nat.zero_add, ← h, List.drop_length, List.append_nil]

/-- The header replaces the first two bytes. -/
theorem setHeader_cons (msgType b0 b1 : UInt8) (rest : Bytes) :
    setHeader msgType (b0 :: b1 :: rest) = encProtocolId :: msgType :: rest := rfl

/-- A buffer with room for a header of two bytes and a content. -/
theorem copyTo_client {msgType : UInt8} {out content : Bytes}
    (h : out.length = 2 + content.length) :
    copyTo (setHeader msgType out) content 2 = clientMessage msgType content := by
  match out, h with
  | [], h =>
    rw [List.length_nil] at h
    omega
  | [_], h =>
    simp only [List.length_singleton] at h
    omega
  | b0 :: b1 :: rest, h =>
    have hrest : rest.length ≤ content.length := by
      simp only [List.length_cons] at h
      omega
    rw [setHeader_cons]
    simp [copyTo, clientMessage, Nat.add_comm 2, hrest]

/-- A buffer with room for a header of three bytes and a content. -/
theorem copyTo_server {msgType errorCode : UInt8} {out content : Bytes}
    (h : out.length = 3 + content.length) :
    copyTo ((setHeader msgType out).set 2 errorCode) content 3 =
      serverMessage msgType errorCode content := by
  match out, h with
  | [], h =>
    rw [List.length_nil] at h
    omega
  | [_], h =>
    simp only [List.length_singleton] at h
    omega
  | [_, _], h =>
    simp only [List.length_cons, List.length_nil] at h
    omega
  | b0 :: b1 :: b2 :: rest, h =>
    have hrest : rest.length ≤ content.length := by
      simp only [List.length_cons] at h
      omega
    rw [setHeader_cons]
    simp [copyTo, serverMessage, Nat.add_comm 3, hrest]

/-- A buffer with room for a header, the size of the salt, the salt and the public value. -/
theorem copyTo_P {saltSize : UInt8} {out salt srpB : Bytes}
    (h : out.length = 4 + salt.length + srpB.length) (hsize : saltSize.toNat = salt.length) :
    copyTo (copyTo (((setHeader encMsgTypeP out).set 2 0).set 3 saltSize) salt 4) srpB
      (4 + saltSize.toNat) = serverMessage encMsgTypeP 0 ([saltSize] ++ salt ++ srpB) := by
  have hfour : 4 ≤ out.length := by omega
  obtain ⟨b0, b1, b2, b3, rest, rfl⟩ : ∃ b0 b1 b2 b3 rest, out = b0 :: b1 :: b2 :: b3 :: rest := by
    match out, hfour with
    | b0 :: b1 :: b2 :: b3 :: rest, _ => exact ⟨b0, b1, b2, b3, rest, rfl⟩
  have hrest : rest.length = salt.length + srpB.length := by
    simp only [List.length_cons] at h
    omega
  have hinner : copyTo (((setHeader encMsgTypeP (b0 :: b1 :: b2 :: b3 :: rest)).set 2 0).set 3
      saltSize) salt 4 =
        (encProtocolId :: encMsgTypeP :: 0 :: saltSize :: salt) ++ rest.drop salt.length := by
    rw [setHeader_cons]
    simp [copyTo, Nat.add_comm 4]
  have hlength : (encProtocolId :: encMsgTypeP :: 0 :: saltSize :: salt).length =
      4 + saltSize.toNat := by
    simp only [List.length_cons, hsize]
    omega
  have hnothing : ((encProtocolId :: encMsgTypeP :: 0 :: saltSize :: salt) ++
      rest.drop salt.length).drop (4 + saltSize.toNat + srpB.length) = [] := by
    rw [List.drop_eq_nil_iff, List.length_append, hlength, List.length_drop]
    omega
  rw [hinner, copyTo, List.take_left' hlength, hnothing, List.append_nil]
  rfl

/-- A call returns 0 and the message that the constructor on byte strings gives, or the
code with which it refuses and the buffer as it was. -/
def Writes (result : Except ℤ Bytes) (out : Bytes) (call : ℤ × Bytes) : Prop :=
  match result with
  | .ok message => call = (0, message)
  | .error code => code ≠ 0 ∧ call = (code, out)

/-- A field within its bounds, checked by both in the same order. -/
theorem Writes.of_checkSize {minimum maximum : ℕ} {below above : ℤ} {field out : Bytes}
    {rest : Except ℤ Bytes} {call : ℤ × Bytes} (hbelow : below ≠ 0) (habove : above ≠ 0)
    (h : field.length ≤ maximum → Writes rest out call) :
    Writes (checkSize minimum maximum below above field >>= fun _ => rest) out
      (if field.length < minimum then (below, out)
        else if field.length > maximum then (above, out) else call) := by
  unfold checkSize
  split_ifs with hmin hmax
  · exact ⟨hbelow, rfl⟩
  · exact ⟨habove, rfl⟩
  · exact h (not_lt.mp hmax)

/-- A call that returns 0 has constructed the message. -/
theorem Writes.ok {result : Except ℤ Bytes} {out message : Bytes} {call : ℤ × Bytes}
    (h : Writes result out call) (hcall : call = (0, message)) : result = .ok message := by
  cases result with
  | ok constructed =>
    have hmessage : ((0 : ℤ), message) = (0, constructed) := hcall.symm.trans h
    rw [(Prod.mk.inj hmessage).2]
  | error code =>
    obtain ⟨hcode, hrefused⟩ := h
    have hzero : (0, message) = (code, out) := hcall.symm.trans hrefused
    exact absurd (Prod.mk.inj hzero).1.symm hcode

/-- A call that refuses leaves the buffer as it was. -/
theorem Writes.unchanged {result : Except ℤ Bytes} {out : Bytes} {call : ℤ × Bytes}
    (h : Writes result out call) (hcode : call.1 ≠ 0) : call.2 = out := by
  cases result with
  | ok message =>
    have hzero : call = (0, message) := h
    rw [hzero] at hcode
    exact absurd rfl hcode
  | error code =>
    obtain ⟨_, hrefused⟩ := h
    rw [hrefused]

/-- The call with its output buffer writes the P message of the value model, and nothing when a
length is refused. -/
theorem enc_construct_P_message_success_writes (salt srpB out : Bytes) :
    Writes (Shell.enc_construct_P_message_success salt srpB) out
      (enc_construct_P_message_success salt srpB out) := by
  apply Writes.of_checkSize (by decide) (by decide)
  intro hmax
  apply Writes.of_checkSize (by decide) (by decide)
  intro hmaxB
  -- the bound of the salt is below 256
  have hshort : salt.length ≤ 64 := hmax
  rw [if_neg (by omega), if_neg (by omega)]
  have hbyte : salt.length < UInt8.size := by
    have hvalues : UInt8.size = 256 := rfl
    omega
  have hsalt : (UInt8.ofNat salt.length).toNat = salt.length := UInt8.toNat_ofNat_of_lt' hbyte
  have hout : (resize [] (encMinServerHeader + 1 + salt.length + srpB.length)).length =
      4 + salt.length + srpB.length := length_resize _ _
  exact congrArg (Prod.mk 0) (copyTo_P hout hsalt)

/-- The call with its output buffer writes the B message of the value model. -/
theorem enc_construct_B_message_writes (srpM1 out : Bytes) :
    Writes (Shell.enc_construct_B_message srpM1) out (enc_construct_B_message srpM1 out) := by
  have hout : (resize out (encMinClientHeader + srpM1.length)).length = 2 + srpM1.length :=
    length_resize _ _
  apply Writes.of_checkSize (by decide) (by decide)
  intro hmax
  exact congrArg (Prod.mk 0) (copyTo_client hout)

/-- The call with its output buffer writes the Q message of the value model. -/
theorem enc_construct_Q_message_success_writes (srpM2 out : Bytes) :
    Writes (Shell.enc_construct_Q_message_success srpM2) out
      (enc_construct_Q_message_success srpM2 out) := by
  have hout : (resize out (encMinServerHeader + srpM2.length)).length = 3 + srpM2.length :=
    length_resize _ _
  apply Writes.of_checkSize (by decide) (by decide)
  intro hmax
  exact congrArg (Prod.mk 0) (copyTo_server hout)

/-- The C message does not depend on the buffer's former contents. -/
theorem enc_construct_C_message_eq (request out : Bytes) :
    enc_construct_C_message request out = (0, Shell.enc_construct_C_message request) := by
  have hout : (resize out (encMinClientHeader + request.length)).length = 2 + request.length :=
    length_resize _ _
  exact congrArg (Prod.mk 0) (copyTo_client hout)

/-- The R message does not depend on the buffer's former contents. -/
theorem enc_construct_R_message_eq (response : Bytes) (errorCode : UInt8) (out : Bytes) :
    enc_construct_R_message response errorCode out =
      (0, Shell.enc_construct_R_message response errorCode) := by
  have hout : (resize out (encMinServerHeader + response.length)).length = 3 + response.length :=
    length_resize _ _
  exact congrArg (Prod.mk 0) (copyTo_server hout)

/-- A server's message that is all header. -/
theorem setHeader_resize_server (msgType errorCode : UInt8) (out : Bytes) :
    (setHeader msgType (resize out encMinServerHeader)).set 2 errorCode =
      serverMessage msgType errorCode [] := by
  obtain ⟨b0, b1, b2, hthree⟩ := List.length_eq_three.mp (length_resize out encMinServerHeader)
  rw [hthree]
  rfl

/-- A client's message that is all header. -/
theorem setHeader_resize_client (msgType : UInt8) (out : Bytes) :
    setHeader msgType (resize out encMinClientHeader) = clientMessage msgType [] := by
  obtain ⟨b0, b1, htwo⟩ := List.length_eq_two.mp (length_resize out encMinClientHeader)
  rw [htwo]
  rfl

/-- The P message of a failure does not depend on the buffer's former contents. -/
theorem enc_construct_P_message_fail_eq (errorCode : UInt8) (out : Bytes) :
    enc_construct_P_message_fail errorCode out =
      (0, Shell.enc_construct_P_message_fail errorCode) :=
  congrArg (Prod.mk 0) (setHeader_resize_server encMsgTypeP errorCode out)

/-- The Q message of a failure does not depend on the buffer's former contents. -/
theorem enc_construct_Q_message_fail_eq (errorCode : UInt8) (out : Bytes) :
    enc_construct_Q_message_fail errorCode out =
      (0, Shell.enc_construct_Q_message_fail errorCode) :=
  congrArg (Prod.mk 0) (setHeader_resize_server encMsgTypeQ errorCode out)

/-- The D message does not depend on the buffer's former contents. -/
theorem enc_construct_D_message_eq (out : Bytes) :
    enc_construct_D_message out = (0, clientMessage encMsgTypeD []) :=
  congrArg (Prod.mk 0) (setHeader_resize_client encMsgTypeD out)

/-- The header checks of the parsers on byte strings. -/
theorem checkHeader_eq (minimum : ℕ) (msgType : UInt8) (messageIn : Bytes) :
    checkHeader minimum msgType messageIn =
      if headerCode minimum msgType messageIn = 0 then .ok ()
      else .error (headerCode minimum msgType messageIn) := by
  unfold checkHeader headerCode
  split_ifs <;> first | rfl | omega

/-- The header of a message is accepted by the parser of its type only. -/
theorem headerCode_eq_zero_iff {minimum : ℕ} {msgType : UInt8} {messageIn : Bytes} :
    headerCode minimum msgType messageIn = 0 ↔
      minimum ≤ messageIn.length ∧ messageIn[0]? = some encProtocolId ∧
        messageIn[1]? = some msgType := by
  unfold headerCode
  split_ifs with hmin hprotocol htype
  · exact iff_of_false (by decide) fun h => absurd h.1 (not_le.mpr hmin)
  · exact iff_of_false (by decide) fun h => hprotocol h.2.1
  · exact iff_of_false (by decide) fun h => htype h.2.2
  · exact iff_of_true rfl ⟨not_lt.mp hmin, not_not.mp hprotocol, not_not.mp htype⟩

/-- Copying into a buffer resized to the source's length makes it the source. -/
theorem copyTo_resize {buffer source : Bytes} {size : ℕ} (h : source.length = size) :
    copyTo (resize buffer size) source 0 = source := by
  apply copyTo_all
  rw [length_resize, h]

/-- Nothing is copied where there is nothing to copy. -/
theorem resize_zero_of_not_pos {buffer source : Bytes} (h : ¬source.length > 0) :
    resize buffer source.length = source := by
  have hempty : source.length = 0 := Nat.eq_zero_of_not_pos h
  rw [hempty, List.length_eq_zero_iff.mp hempty]
  exact List.length_eq_zero_iff.mp (length_resize buffer 0)

/-- A call returns 0 and the outputs that the parser on byte strings gives, or the code
with which it refuses. -/
def Reads {α : Type} (result : Except ℤ α) (call : ℤ × α) : Prop :=
  match result with
  | .ok value => call = (0, value)
  | .error code => code ≠ 0 ∧ call.1 = code

/-- The header checks come first. -/
theorem Reads.of_header {α : Type} {minimum : ℕ} {msgType : UInt8} {messageIn : Bytes}
    {rest : Except ℤ α} {call : ℤ × α} {outputs : α}
    (h : headerCode minimum msgType messageIn = 0 → Reads rest call) :
    Reads (checkHeader minimum msgType messageIn >>= fun _ => rest)
      (if headerCode minimum msgType messageIn ≠ 0 then
        (headerCode minimum msgType messageIn, outputs) else call) := by
  rw [checkHeader_eq]
  by_cases hheader : headerCode minimum msgType messageIn = 0
  · rw [if_pos hheader, if_neg (not_not.mpr hheader)]
    exact h hheader
  · rw [if_neg hheader, if_pos hheader]
    exact ⟨hheader, rfl⟩

/-- A field within its bounds, checked by both in the same order. -/
theorem Reads.of_checkSize {α : Type} {minimum maximum : ℕ} {below above : ℤ} {field : Bytes}
    {rest : Except ℤ α} {call : ℤ × α} {outputs : α} (hbelow : below ≠ 0) (habove : above ≠ 0)
    (h : Reads rest call) :
    Reads (checkSize minimum maximum below above field >>= fun _ => rest)
      (if field.length < minimum then (below, outputs)
        else if field.length > maximum then (above, outputs) else call) := by
  unfold checkSize
  split_ifs with hmin hmax
  · exact ⟨hbelow, rfl⟩
  · exact ⟨habove, rfl⟩
  · exact h

/-- The call with its outputs reads what the value model parses from a P message. -/
theorem enc_parse_P_message_reads (messageIn : Bytes) (errorCode : UInt8) (salt srpB : Bytes) :
    Reads (Shell.enc_parse_P_message messageIn)
      (enc_parse_P_message messageIn errorCode salt srpB) := by
  apply Reads.of_header
  intro hheader
  by_cases herror : messageIn.getD 2 0 ≠ 0
  · simp only [herror, if_true, not_false_eq_true, ne_eq]
    rfl
  by_cases hlength : messageIn.length < encMinServerHeader + 1 + encMinSalt + encMinSrpB
  · simp only [herror, if_false, hlength, if_true]
    exact ⟨by decide, rfl⟩
  by_cases hsize : (messageIn.getD 3 0).toNat < encMinSalt ∨
      encMaxSalt < (messageIn.getD 3 0).toNat
  · simp only [herror, if_false, hlength, hsize, if_true]
    exact ⟨by decide, rfl⟩
  simp only [herror, if_false, hlength, hsize]
  have hlong : 84 ≤ messageIn.length := not_lt.mp hlength
  have hmax : (messageIn.getD 3 0).toNat ≤ 64 := not_lt.mp (not_or.mp hsize).2
  have hsalt : ((messageIn.drop 4).take (messageIn.getD 3 0).toNat).length =
      (messageIn.getD 3 0).toNat := by
    rw [List.length_take, List.length_drop]
    omega
  have hsrpB : (messageIn.drop (4 + (messageIn.getD 3 0).toNat)).length =
      messageIn.length - 3 - 1 - (messageIn.getD 3 0).toNat := by
    rw [List.length_drop]
    omega
  rw [copyTo_resize hsalt, copyTo_resize hsrpB]
  apply Reads.of_checkSize (by decide) (by decide)
  apply Reads.of_checkSize (by decide) (by decide)
  exact rfl

/-- The call with its outputs reads what the value model parses from a B message. -/
theorem enc_parse_B_message_reads (messageIn srpM1 : Bytes) :
    Reads (Shell.enc_parse_B_message messageIn) (enc_parse_B_message messageIn srpM1) := by
  apply Reads.of_header
  intro hheader
  have hlength : 18 ≤ messageIn.length := (headerCode_eq_zero_iff.mp hheader).1
  have hstart : messageIn.length - (messageIn.length - encMinClientHeader) = 2 := by
    have htwo : encMinClientHeader = 2 := rfl
    omega
  have hsrpM1 : (messageIn.drop 2).length = messageIn.length - encMinClientHeader :=
    List.length_drop
  simp only [hstart]
  rw [copyTo_resize hsrpM1, ← hsrpM1]
  -- one code stands for both bounds
  by_cases hmin : (messageIn.drop 2).length < encMinM1
  · rw [if_pos (Or.inl hmin), checkSize, if_pos hmin]
    exact ⟨by decide, rfl⟩
  by_cases hmax : encMaxM1 < (messageIn.drop 2).length
  · rw [if_pos (Or.inr hmax), checkSize, if_neg hmin, if_pos hmax]
    exact ⟨by decide, rfl⟩
  rw [if_neg (not_or.mpr ⟨hmin, hmax⟩), checkSize, if_neg hmin, if_neg hmax]
  rfl

/-- The call with its outputs reads what the value model parses from a Q message. -/
theorem enc_parse_Q_message_reads (messageIn : Bytes) (errorCode : UInt8) (srpM2 : Bytes) :
    Reads (Shell.enc_parse_Q_message messageIn)
      (enc_parse_Q_message messageIn errorCode srpM2) := by
  apply Reads.of_header
  intro hheader
  by_cases herror : messageIn.getD 2 0 ≠ 0
  · simp only [herror, if_true, not_false_eq_true, ne_eq]
    rfl
  by_cases hlength : messageIn.length < encMinServerHeader + encMinM2
  · simp only [herror, if_false, hlength, if_true]
    exact ⟨by decide, rfl⟩
  simp only [herror, if_false, hlength]
  rw [copyTo_resize List.length_drop]
  rfl

/-- The call with its outputs reads what the value model parses from a C message. -/
theorem enc_parse_C_message_reads (messageIn request : Bytes) :
    Reads (Shell.enc_parse_C_message messageIn) (enc_parse_C_message messageIn request) := by
  apply Reads.of_header
  intro hheader
  have hlength : 2 ≤ messageIn.length := (headerCode_eq_zero_iff.mp hheader).1
  have hstart : messageIn.length - (messageIn.length - encMinClientHeader) = 2 := by
    have htwo : encMinClientHeader = 2 := rfl
    omega
  have hrequest : (messageIn.drop 2).length = messageIn.length - encMinClientHeader :=
    List.length_drop
  simp only [hstart]
  rw [← hrequest]
  split_ifs with hempty
  · rw [copyTo_resize rfl]
    rfl
  · rw [resize_zero_of_not_pos hempty]
    rfl

/-- The call with its outputs reads what the value model parses from an R message. -/
theorem enc_parse_R_message_reads (messageIn response : Bytes) (errorCode : UInt8) :
    Reads (Shell.enc_parse_R_message messageIn)
      (enc_parse_R_message messageIn response errorCode) := by
  apply Reads.of_header
  intro hheader
  have hresponse : (messageIn.drop encMinServerHeader).length =
      messageIn.length - encMinServerHeader := List.length_drop
  rw [← hresponse]
  split_ifs with hempty
  · rw [copyTo_resize rfl]
    rfl
  · rw [resize_zero_of_not_pos hempty]
    rfl

/-! ## Messages and their readers -/

/-- The messages with a fixed header. -/
inductive MsgKind where
  | P | Q | B | C | R | D
  deriving DecidableEq, Repr

/-- The type byte of each kind of message. -/
def MsgKind.msgType : MsgKind → UInt8
  | .P => encMsgTypeP
  | .Q => encMsgTypeQ
  | .B => encMsgTypeB
  | .C => encMsgTypeC
  | .R => encMsgTypeR
  | .D => encMsgTypeD

/-- A buffer after a constructor of the kind returned 0. -/
inductive Constructed : MsgKind → Bytes → Prop where
  | P_success {salt srpB out message : Bytes}
      (h : enc_construct_P_message_success salt srpB out = (0, message)) : Constructed .P message
  | P_fail {errorCode : UInt8} {out message : Bytes}
      (h : enc_construct_P_message_fail errorCode out = (0, message)) : Constructed .P message
  | Q_success {srpM2 out message : Bytes}
      (h : enc_construct_Q_message_success srpM2 out = (0, message)) : Constructed .Q message
  | Q_fail {errorCode : UInt8} {out message : Bytes}
      (h : enc_construct_Q_message_fail errorCode out = (0, message)) : Constructed .Q message
  | B {srpM1 out message : Bytes}
      (h : enc_construct_B_message srpM1 out = (0, message)) : Constructed .B message
  | C {request out message : Bytes}
      (h : enc_construct_C_message request out = (0, message)) : Constructed .C message
  | R {response : Bytes} {errorCode : UInt8} {out message : Bytes}
      (h : enc_construct_R_message response errorCode out = (0, message)) : Constructed .R message
  | D {out message : Bytes}
      (h : enc_construct_D_message out = (0, message)) : Constructed .D message

/-- What the caller of a parser passes for its outputs. -/
structure Outputs where
  field : Bytes
  srpB : Bytes
  errorCode : UInt8
  deriving DecidableEq, Repr

/-- The code that the parser of a kind returns. -/
def parse (kind : MsgKind) (messageIn : Bytes) (outputs : Outputs) : ℤ :=
  match kind with
  | .P => (enc_parse_P_message messageIn outputs.errorCode outputs.field outputs.srpB).1
  | .Q => (enc_parse_Q_message messageIn outputs.errorCode outputs.field).1
  | .B => (enc_parse_B_message messageIn outputs.field).1
  | .C => (enc_parse_C_message messageIn outputs.field).1
  | .R => (enc_parse_R_message messageIn outputs.field outputs.errorCode).1
  | .D => enc_parse_D_message messageIn

/-- Where the value model yields a value, the call returns 0 and exactly that value. -/
theorem Reads.eq {α : Type} {result : Except ℤ α} {call : ℤ × α} {value : α}
    (h : Reads result call) (hresult : result = .ok value) : call = (0, value) := by
  rw [hresult] at h
  exact h

/-- A parser that returns 0 has accepted the header. -/
theorem Reads.header {α : Type} {minimum : ℕ} {msgType : UInt8} {messageIn : Bytes}
    {rest : Except ℤ α} {call : ℤ × α}
    (h : Reads (checkHeader minimum msgType messageIn >>= fun _ => rest) call)
    (hcode : call.1 = 0) : messageIn[1]? = some msgType := by
  rw [checkHeader_eq] at h
  by_cases hheader : headerCode minimum msgType messageIn = 0
  · exact (headerCode_eq_zero_iff.mp hheader).2.2
  · rw [if_neg hheader] at h
    obtain ⟨hrefused, hcall⟩ := h
    exact absurd (hcall.symm.trans hcode) hrefused

/-- The second byte of a message decides which parser may accept it. -/
theorem msgType_of_parse {kind : MsgKind} {messageIn : Bytes} {outputs : Outputs}
    (h : parse kind messageIn outputs = 0) : messageIn[1]? = some kind.msgType := by
  cases kind with
  | P => exact (enc_parse_P_message_reads _ _ _ _).header h
  | Q => exact (enc_parse_Q_message_reads _ _ _).header h
  | B => exact (enc_parse_B_message_reads _ _).header h
  | C => exact (enc_parse_C_message_reads _ _).header h
  | R => exact (enc_parse_R_message_reads _ _ _).header h
  | D =>
    have hcode : enc_parse_D_message messageIn = 0 := h
    unfold enc_parse_D_message at hcode
    split_ifs at hcode with hlength hprotocol htype
    exact not_not.mp htype

/-- A constructor writes the type of its message into the second byte. -/
theorem Constructed.msgType {kind : MsgKind} {message : Bytes} (h : Constructed kind message) :
    message[1]? = some kind.msgType := by
  cases h with
  | P_success h =>
    have hmessage := (enc_construct_P_message_success_writes _ _ _).ok h
    obtain ⟨-, -, -, -, rfl⟩ := enc_construct_P_message_success_eq_ok.mp hmessage
    rfl
  | P_fail h =>
    rw [enc_construct_P_message_fail_eq] at h
    rw [← (Prod.mk.inj h).2]
    rfl
  | Q_success h =>
    have hmessage := (enc_construct_Q_message_success_writes _ _).ok h
    obtain ⟨-, -, rfl⟩ := enc_construct_Q_message_success_eq_ok.mp hmessage
    rfl
  | Q_fail h =>
    rw [enc_construct_Q_message_fail_eq] at h
    rw [← (Prod.mk.inj h).2]
    rfl
  | B h =>
    obtain ⟨_, -, hmessage⟩ := bind_eq_ok.mp ((enc_construct_B_message_writes _ _).ok h)
    rw [← pure_eq_ok.mp hmessage]
    rfl
  | C h =>
    rw [enc_construct_C_message_eq] at h
    rw [← (Prod.mk.inj h).2]
    rfl
  | R h =>
    rw [enc_construct_R_message_eq] at h
    rw [← (Prod.mk.inj h).2]
    rfl
  | D h =>
    rw [enc_construct_D_message_eq] at h
    rw [← (Prod.mk.inj h).2]
    rfl

/-- Different kinds have different type bytes, so no parser accepts a message of another kind. -/
theorem MsgKind.msgType_injective {kind other : MsgKind} (h : kind.msgType = other.msgType) :
    kind = other := by
  cases kind <;> cases other <;> first | rfl | exact absurd h (by decide)

/-- A message is refused by the parser of every other type. -/
theorem Constructed.refused {kind other : MsgKind} {message : Bytes} (outputs : Outputs)
    (h : Constructed kind message) (hother : other ≠ kind) : parse other message outputs ≠ 0 := by
  intro hzero
  have htype : some other.msgType = some kind.msgType :=
    (msgType_of_parse hzero).symm.trans h.msgType
  exact hother (MsgKind.msgType_injective (Option.some.inj htype))

/-- The parser of the message A refuses them as well. -/
theorem Constructed.refused_by_A {kind : MsgKind} {message : Bytes} (beyond : UInt8)
    (h : Constructed kind message) :
    ∃ code, code ≠ 0 ∧ enc_parse_A_message beyond message = .error code := by
  have hheader : headerCode (encMinClientHeader + encMinUsername + encMinSrpA) encMsgTypeA
      message ≠ 0 := by
    intro hzero
    have htype : some encMsgTypeA = some kind.msgType :=
      (headerCode_eq_zero_iff.mp hzero).2.2.symm.trans h.msgType
    cases kind <;> exact absurd (Option.some.inj htype) (by decide)
  refine ⟨_, hheader, ?_⟩
  unfold enc_parse_A_message
  rw [checkHeader_eq, if_neg hheader]
  rfl

/-- What the constructors put in is what the parsers give back, whatever the buffers held
before. A refused construction leaves its buffer alone, and no message is taken for
one of another type. -/
structure Codec : Prop where
  P_success : ∀ salt srpB out message,
    enc_construct_P_message_success salt srpB out = (0, message) →
      ∀ errorCode oldSalt oldSrpB,
        enc_parse_P_message message errorCode oldSalt oldSrpB = (0, 0, salt, srpB)
  P_fail : ∀ errorCode out, errorCode ≠ 0 →
    (enc_construct_P_message_fail errorCode out).1 = 0 ∧
      ∀ oldErrorCode salt srpB,
        enc_parse_P_message (enc_construct_P_message_fail errorCode out).2 oldErrorCode salt
          srpB = (0, errorCode, [], [])
  Q_success : ∀ srpM2 out message,
    enc_construct_Q_message_success srpM2 out = (0, message) →
      ∀ errorCode oldSrpM2, enc_parse_Q_message message errorCode oldSrpM2 = (0, 0, srpM2)
  Q_fail : ∀ errorCode out, errorCode ≠ 0 →
    (enc_construct_Q_message_fail errorCode out).1 = 0 ∧
      ∀ oldErrorCode srpM2,
        enc_parse_Q_message (enc_construct_Q_message_fail errorCode out).2 oldErrorCode srpM2 =
          (0, errorCode, [])
  B : ∀ srpM1 out message, enc_construct_B_message srpM1 out = (0, message) →
    ∀ oldSrpM1, enc_parse_B_message message oldSrpM1 = (0, srpM1)
  C : ∀ request out, (enc_construct_C_message request out).1 = 0 ∧
    ∀ oldRequest,
      enc_parse_C_message (enc_construct_C_message request out).2 oldRequest = (0, request)
  R : ∀ response errorCode out, (enc_construct_R_message response errorCode out).1 = 0 ∧
    ∀ oldResponse oldErrorCode,
      enc_parse_R_message (enc_construct_R_message response errorCode out).2 oldResponse
        oldErrorCode = (0, response, errorCode)
  D : ∀ out, (enc_construct_D_message out).1 = 0 ∧
    enc_parse_D_message (enc_construct_D_message out).2 = 0
  refused : ∀ kind other message outputs, Constructed kind message → other ≠ kind →
    parse other message outputs ≠ 0
  refused_by_A : ∀ kind message beyond, Constructed kind message →
    ∃ code, code ≠ 0 ∧ enc_parse_A_message beyond message = .error code
  unchanged_P_success : ∀ salt srpB out,
    (enc_construct_P_message_success salt srpB out).1 ≠ 0 →
      (enc_construct_P_message_success salt srpB out).2 = out
  unchanged_Q_success : ∀ srpM2 out, (enc_construct_Q_message_success srpM2 out).1 ≠ 0 →
    (enc_construct_Q_message_success srpM2 out).2 = out
  unchanged_B : ∀ srpM1 out, (enc_construct_B_message srpM1 out).1 ≠ 0 →
    (enc_construct_B_message srpM1 out).2 = out

/-- The six messages with a fixed header form a codec: each parser inverts its constructor and
refuses every other kind. -/
theorem fixedHeader_codec : Codec where
  P_success salt srpB out message h errorCode oldSalt oldSrpB := by
    have hmessage := (enc_construct_P_message_success_writes salt srpB out).ok h
    exact (enc_parse_P_message_reads message errorCode oldSalt oldSrpB).eq
      (enc_parse_construct_P_message_success hmessage)
  P_fail errorCode out herror := by
    rw [enc_construct_P_message_fail_eq]
    refine ⟨rfl, fun oldErrorCode salt srpB => ?_⟩
    exact (enc_parse_P_message_reads _ oldErrorCode salt srpB).eq
      (enc_parse_construct_P_message_fail herror)
  Q_success srpM2 out message h errorCode oldSrpM2 := by
    have hmessage := (enc_construct_Q_message_success_writes srpM2 out).ok h
    exact (enc_parse_Q_message_reads message errorCode oldSrpM2).eq
      (enc_parse_construct_Q_message_success hmessage)
  Q_fail errorCode out herror := by
    rw [enc_construct_Q_message_fail_eq]
    refine ⟨rfl, fun oldErrorCode srpM2 => ?_⟩
    exact (enc_parse_Q_message_reads _ oldErrorCode srpM2).eq
      (enc_parse_construct_Q_message_fail herror)
  B srpM1 out message h oldSrpM1 := by
    have hmessage := (enc_construct_B_message_writes srpM1 out).ok h
    exact (enc_parse_B_message_reads message oldSrpM1).eq
      (enc_parse_construct_B_message hmessage)
  C request out := by
    rw [enc_construct_C_message_eq]
    refine ⟨rfl, fun oldRequest => ?_⟩
    exact (enc_parse_C_message_reads _ oldRequest).eq (enc_parse_construct_C_message request)
  R response errorCode out := by
    rw [enc_construct_R_message_eq]
    refine ⟨rfl, fun oldResponse oldErrorCode => ?_⟩
    exact (enc_parse_R_message_reads _ oldResponse oldErrorCode).eq
      (enc_parse_construct_R_message response errorCode)
  D out := by
    rw [enc_construct_D_message_eq]
    exact ⟨rfl, rfl⟩
  refused _ _ _ outputs h hother := h.refused outputs hother
  refused_by_A _ _ beyond h := h.refused_by_A beyond
  unchanged_P_success salt srpB out h :=
    (enc_construct_P_message_success_writes salt srpB out).unchanged h
  unchanged_Q_success srpM2 out h :=
    (enc_construct_Q_message_success_writes srpM2 out).unchanged h
  unchanged_B srpM1 out h := (enc_construct_B_message_writes srpM1 out).unchanged h

end MessageBuffer

end San2.Shell
