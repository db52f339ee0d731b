import San2.Shell.UsernameMessage

/-!
# Messages rebuilt from their fields

A parser that accepts a message hands out its fields. The constructor of the message,
called with these fields, should build the same bytes again: then the bounds of both sides
agree, and nothing is let in that could not have been sent.
-/

namespace San2.Shell

open DragonSRP

/-- A message with an accepted header of a client is its header and the rest. -/
theorem eq_clientMessage {minimum : ℕ} {msgType : UInt8} {messageIn : Bytes} {u : Unit}
    (h : checkHeader minimum msgType messageIn = .ok u) :
    messageIn = clientMessage msgType (messageIn.drop 2) := by
  obtain ⟨-, hprotocol, htype⟩ := checkHeader_eq_ok.mp h
  match messageIn with
  | [] => cases hprotocol
  | [_] => cases htype
  | protocol :: msgType' :: content =>
    obtain rfl := Option.some.inj hprotocol
    obtain rfl := Option.some.inj htype
    rfl

/-- A message with an accepted header of a server has an error code as well. -/
theorem eq_serverMessage {minimum : ℕ} {msgType : UInt8} {messageIn : Bytes} {u : Unit}
    (hminimum : 3 ≤ minimum) (h : checkHeader minimum msgType messageIn = .ok u) :
    messageIn = serverMessage msgType (messageIn.getD 2 0) (messageIn.drop 3) := by
  obtain ⟨hlength, -, -⟩ := checkHeader_eq_ok.mp h
  have hlong : 2 < messageIn.length := by omega
  have hclient := eq_clientMessage h
  rw [List.drop_eq_getElem_cons hlong] at hclient
  rw [List.getD_eq_getElem _ _ hlong]
  exact hclient

/-- What was parsed from a B message builds that message again. -/
theorem enc_construct_parse_B_message {messageIn srpM1 : Bytes}
    (h : enc_parse_B_message messageIn = .ok srpM1) :
    enc_construct_B_message srpM1 = .ok messageIn := by
  obtain ⟨_, hheader, h⟩ := bind_eq_ok.mp h
  obtain ⟨_, hsize, h⟩ := bind_eq_ok.mp h
  have hsrpM1 : messageIn.drop 2 = srpM1 := pure_eq_ok.mp h
  have hbounds : checkSize encMinM1 encMaxM1 (-1) (-2) srpM1 = .ok () := by
    rw [← hsrpM1]
    exact checkSize_eq_ok.mpr (checkSize_eq_ok.mp hsize)
  have hmessage := eq_clientMessage hheader
  rw [hsrpM1] at hmessage
  rw [enc_construct_B_message, hbounds, hmessage]
  rfl

/-- A proof of the server has been bounded from below only. -/
theorem enc_parse_Q_message_eq_ok_zero {messageIn srpM2 : Bytes}
    (h : enc_parse_Q_message messageIn = .ok (0, srpM2)) :
    16 ≤ srpM2.length ∧ messageIn = serverMessage encMsgTypeQ 0 srpM2 := by
  obtain ⟨_, hheader, h⟩ := bind_eq_ok.mp h
  have hmessage := eq_serverMessage le_rfl hheader
  by_cases herror : messageIn.getD 2 0 = 0
  · by_cases hshort : messageIn.length < encMinServerHeader + encMinM2
    · simp only [herror, hshort, ne_eq, not_true_eq_false, if_false, if_true] at h
      obtain ⟨_, hthrow, -⟩ := bind_eq_ok.mp h
      exact absurd hthrow throw_ne_ok
    · simp only [herror, hshort, ne_eq, not_true_eq_false, if_false] at h
      have hsrpM2 : messageIn.drop 3 = srpM2 := (Prod.mk.inj (pure_eq_ok.mp h)).2
      have hlong : 19 ≤ messageIn.length := not_lt.mp hshort
      rw [herror, hsrpM2] at hmessage
      refine ⟨?_, hmessage⟩
      rw [← hsrpM2, List.length_drop]
      omega
  · simp only [herror, ne_eq, not_false_eq_true, if_true] at h
    exact absurd (Prod.mk.inj (pure_eq_ok.mp h)).1 herror

/-- `enc_parse_R_message` accepts exactly the R messages. -/
theorem enc_parse_R_message_eq_ok {messageIn response : Bytes} {errorCode : UInt8} :
    enc_parse_R_message messageIn = .ok (response, errorCode) ↔
      messageIn = enc_construct_R_message response errorCode := by
  constructor
  · intro h
    obtain ⟨_, hheader, h⟩ := bind_eq_ok.mp h
    have hfields := pure_eq_ok.mp h
    obtain ⟨hresponse, herror⟩ := Prod.mk.inj hfields
    have hmessage := eq_serverMessage le_rfl hheader
    rw [herror, hresponse] at hmessage
    exact hmessage
  · rintro rfl
    exact enc_parse_construct_R_message response errorCode

/-- The size byte of a challenge and the two fields behind it. -/
theorem drop_three_eq {messageIn : Bytes} (h : 4 ≤ messageIn.length) :
    messageIn.drop 3 = [messageIn.getD 3 0] ++
      (messageIn.drop 4).take (messageIn.getD 3 0).toNat ++
        messageIn.drop (4 + (messageIn.getD 3 0).toNat) := by
  have hlong : 3 < messageIn.length := by omega
  rw [List.append_assoc, ← List.drop_drop, List.take_append_drop,
    List.drop_eq_getElem_cons hlong, List.getD_eq_getElem _ _ hlong]
  rfl

/-- What was parsed from a P message without an error builds that message again. -/
theorem enc_construct_parse_P_message_success {messageIn salt srpB : Bytes}
    (h : enc_parse_P_message messageIn = .ok (0, salt, srpB)) :
    enc_construct_P_message_success salt srpB = .ok messageIn := by
  obtain ⟨_, hheader, h⟩ := bind_eq_ok.mp h
  have hmessage := eq_serverMessage le_rfl hheader
  by_cases herror : messageIn.getD 2 0 = 0
  · by_cases hshort : messageIn.length < encMinServerHeader + 1 + encMinSalt + encMinSrpB
    · simp only [herror, hshort, ne_eq, not_true_eq_false, if_false, if_true] at h
      obtain ⟨_, hthrow, -⟩ := bind_eq_ok.mp h
      exact absurd hthrow throw_ne_ok
    by_cases hsize : (messageIn.getD 3 0).toNat < encMinSalt ∨
        encMaxSalt < (messageIn.getD 3 0).toNat
    · simp only [herror, hshort, hsize, ne_eq, not_true_eq_false, if_false, if_true] at h
      obtain ⟨_, hthrow, -⟩ := bind_eq_ok.mp h
      exact absurd hthrow throw_ne_ok
    simp only [herror, hshort, hsize, ne_eq, not_true_eq_false, if_false] at h
    obtain ⟨_, hsaltSize, h⟩ := bind_eq_ok.mp h
    obtain ⟨_, hsrpBSize, h⟩ := bind_eq_ok.mp h
    have hfields := Prod.mk.inj (Prod.mk.inj (pure_eq_ok.mp h)).2
    have hlong : 84 ≤ messageIn.length := not_lt.mp hshort
    have hmax : (messageIn.getD 3 0).toNat ≤ 64 := not_lt.mp (not_or.mp hsize).2
    have hstored : salt.length = (messageIn.getD 3 0).toNat := by
      rw [← hfields.1, List.length_take, List.length_drop]
      omega
    have hbyte : UInt8.ofNat salt.length = messageIn.getD 3 0 := by
      rw [hstored, UInt8.ofNat_toNat]
    have hcontent := drop_three_eq (by omega : 4 ≤ messageIn.length)
    rw [herror, hcontent, hfields.1, hfields.2, ← hbyte] at hmessage
    rw [hfields.1] at hsaltSize
    rw [hfields.2] at hsrpBSize
    obtain ⟨hminSalt, hmaxSalt⟩ := checkSize_eq_ok.mp hsaltSize
    obtain ⟨hminSrpB, hmaxSrpB⟩ := checkSize_eq_ok.mp hsrpBSize
    exact enc_construct_P_message_success_eq_ok.mpr
      ⟨hminSalt, hmaxSalt, hminSrpB, hmaxSrpB, hmessage⟩
  · simp only [herror, ne_eq, not_false_eq_true, if_true] at h
    exact absurd (Prod.mk.inj (pure_eq_ok.mp h)).1 herror

namespace MessageBuffer

/-- A call that returns 0 has found what the parser on byte strings finds. -/
theorem Reads.ok {α : Type} {result : Except ℤ α} {call : ℤ × α} {value : α}
    (h : Reads result call) (hcall : call = (0, value)) : result = .ok value := by
  cases result with
  | ok found =>
    have hvalue : ((0 : ℤ), value) = (0, found) := hcall.symm.trans h
    rw [(Prod.mk.inj hvalue).2]
  | error code =>
    obtain ⟨hcode, hrefused⟩ := h
    rw [hcall] at hrefused
    exact absurd hrefused.symm hcode

/-- A message that the constructor on byte strings accepts is left in the buffer. -/
theorem Writes.eq {result : Except ℤ Bytes} {out message : Bytes} {call : ℤ × Bytes}
    (h : Writes result out call) (hresult : result = .ok message) : call = (0, message) := by
  rw [hresult] at h
  exact h

/-- `enc_parse_D_message` accepts the D message alone. -/
theorem eq_of_enc_parse_D_message {messageIn : Bytes} (h : enc_parse_D_message messageIn = 0) :
    messageIn = clientMessage encMsgTypeD [] := by
  unfold enc_parse_D_message at h
  split_ifs at h with hlength hprotocol htype
  obtain ⟨b0, b1, rfl⟩ := List.length_eq_two.mp (not_not.mp hlength)
  obtain rfl := Option.some.inj (not_not.mp hprotocol)
  obtain rfl := Option.some.inj (not_not.mp htype)
  rfl

/-- A terminator that leaves a username and a public value of the sizes that the
constructor of the message A accepts. -/
structure TerminatorInBounds (messageIn : Bytes) : Prop where
  terminated : Terminated messageIn
  minUsername : encMinUsername ≤ (beforeTerminator messageIn 2).length
  maxUsername : (beforeTerminator messageIn 2).length ≤ encMaxUsername
  minSrpA : encMinSrpA + 3 + (beforeTerminator messageIn 2).length ≤ messageIn.length
  maxSrpA : messageIn.length ≤ encMaxSrpA + 3 + (beforeTerminator messageIn 2).length

/-- A content with a zero byte is what stands in front of it, the byte and the rest. -/
theorem eq_takeWhile_append_of_mem {content : Bytes} (h : 0x00 ∈ content) :
    content = content.takeWhile (· ≠ 0x00) ++
      0x00 :: content.drop ((content.takeWhile (· ≠ 0x00)).length + 1) := by
  induction content with
  | nil => cases h
  | cons byte content ih =>
    by_cases hzero : byte = 0x00
    · simp [hzero]
    · have hrest := ih ((List.mem_cons.mp h).resolve_left fun heq => hzero heq.symm)
      rw [List.takeWhile_cons_of_pos (by simpa using hzero), List.length_cons, List.drop_succ_cons,
        List.cons_append, ← hrest]

/-- A terminated message is its header, the username, the terminator and the rest. -/
theorem eq_of_terminated {messageIn : Bytes} (h : headerCodeA messageIn = 0)
    (hzero : Terminated messageIn) :
    messageIn = clientMessage encMsgTypeA (beforeTerminator messageIn 2 ++ [0x00] ++
      messageIn.drop (2 + (beforeTerminator messageIn 2).length + 1)) := by
  have hheader : checkHeader 67 encMsgTypeA messageIn = .ok () :=
    checkHeader_eq_ok.mpr (headerCode_eq_zero_iff.mp h)
  have hcontent := eq_takeWhile_append_of_mem hzero
  rw [List.drop_drop, List.append_cons] at hcontent
  have hmessage := eq_clientMessage hheader
  rw [hcontent] at hmessage
  exact hmessage

/-- The fields of an accepted message A rebuild it exactly if they are within the bounds,
or else nothing has been accepted. -/
theorem enc_construct_parse_A_message_iff (beyond : UInt8) (messageIn username srpA : Bytes) :
    ((enc_parse_A_message beyond messageIn username srpA).code = 0 →
      Shell.enc_construct_A_message (enc_parse_A_message beyond messageIn username srpA).username
        (enc_parse_A_message beyond messageIn username srpA).srpA = .ok messageIn) ↔
      (headerCodeA messageIn = 0 →
        TerminatorInBounds messageIn ∨ ¬Terminated messageIn ∧ beyond = 0x00) := by
  by_cases hheader : headerCodeA messageIn = 0
  · simp only [hheader, forall_const]
    by_cases hzero : Terminated messageIn
    · have hlength := (terminated_iff hheader).mp hzero
      have hmessage := eq_of_terminated hheader hzero
      rw [enc_parse_A_message_of_terminated beyond username srpA hheader hzero]
      simp only [forall_const, hzero, not_true_eq_false, false_and, or_false]
      rw [enc_construct_A_message_eq_ok, List.length_drop]
      constructor
      · rintro ⟨hmin, hmax, hminA, hmaxA, -⟩
        exact ⟨hzero, hmin, hmax, show 64 + 3 + _ ≤ _ by omega, show _ ≤ 1024 + 3 + _ by omega⟩
      · rintro ⟨-, hmin, hmax, hminA, hmaxA⟩
        have hminA' : 64 + 3 + (beforeTerminator messageIn 2).length ≤ messageIn.length := hminA
        have hmaxA' : messageIn.length ≤ 1024 + 3 + (beforeTerminator messageIn 2).length := hmaxA
        exact ⟨hmin, hmax, by omega, by omega, hmessage⟩
    · rw [enc_parse_A_message_of_not_terminated beyond username srpA hheader hzero]
      have hout : ¬TerminatorInBounds messageIn := fun hbounds => hzero hbounds.terminated
      by_cases hbeyond : beyond = 0x00
      · simp [hbeyond, hzero]
      · simp only [hbeyond, if_false, forall_const, hout, and_false, or_self, iff_false]
        intro hbuilt
        -- the public value is empty
        obtain ⟨-, -, hminA, -⟩ := enc_construct_A_message_eq_ok.mp hbuilt
        exact absurd hminA (by decide)
  · rw [enc_parse_A_message_of_refused beyond username srpA hheader]
    simp [hheader]

/-- Whatever a parser accepts is built again from its fields, whatever stands in the
buffers of the callers. -/
structure Rebuilt (beyond : UInt8) (messageIn : Bytes) : Prop where
  A : ∀ username srpA, (enc_parse_A_message beyond messageIn username srpA).code = 0 →
    Shell.enc_construct_A_message (enc_parse_A_message beyond messageIn username srpA).username
      (enc_parse_A_message beyond messageIn username srpA).srpA = .ok messageIn
  P : ∀ oldErrorCode oldSalt oldSrpB salt srpB out,
    enc_parse_P_message messageIn oldErrorCode oldSalt oldSrpB = (0, 0, salt, srpB) →
      enc_construct_P_message_success salt srpB out = (0, messageIn)
  B : ∀ oldSrpM1 srpM1 out, enc_parse_B_message messageIn oldSrpM1 = (0, srpM1) →
    enc_construct_B_message srpM1 out = (0, messageIn)
  Q : ∀ oldErrorCode oldSrpM2 srpM2 out,
    enc_parse_Q_message messageIn oldErrorCode oldSrpM2 = (0, 0, srpM2) →
      enc_construct_Q_message_success srpM2 out = (0, messageIn)
  C : ∀ oldRequest request out, enc_parse_C_message messageIn oldRequest = (0, request) →
    enc_construct_C_message request out = (0, messageIn)
  R : ∀ oldResponse oldErrorCode response errorCode out,
    enc_parse_R_message messageIn oldResponse oldErrorCode = (0, response, errorCode) →
      enc_construct_R_message response errorCode out = (0, messageIn)
  D : ∀ out, enc_parse_D_message messageIn = 0 → enc_construct_D_message out = (0, messageIn)

/-- A proof of the server that is longer than its constructor allows. -/
def OversizedQ (messageIn : Bytes) : Prop :=
  headerCode encMinServerHeader encMsgTypeQ messageIn = 0 ∧ messageIn.getD 2 0 = 0 ∧
    encMinServerHeader + encMaxM2 < messageIn.length

/-- A Q message with an M2 of more than 512 bytes is one that the parser accepts and the
constructor refuses. -/
theorem oversizedQ_serverMessage {srpM2 : Bytes} (h : 512 < srpM2.length) :
    OversizedQ (serverMessage encMsgTypeQ 0 srpM2) := by
  refine ⟨headerCode_eq_zero_iff.mpr ⟨Nat.le_add_left _ _, rfl, rfl⟩, rfl, ?_⟩
  have hlength : (serverMessage encMsgTypeQ 0 srpM2).length = 3 + srpM2.length := by
    rw [serverMessage, List.length_append]
    rfl
  exact show 515 < (serverMessage encMsgTypeQ 0 srpM2).length by omega

/-- Parsing and building give a Q message back exactly when it is not oversized. -/
theorem enc_construct_parse_Q_message_iff (messageIn : Bytes) :
    (∀ oldErrorCode oldSrpM2 srpM2 out,
      enc_parse_Q_message messageIn oldErrorCode oldSrpM2 = (0, 0, srpM2) →
        enc_construct_Q_message_success srpM2 out = (0, messageIn)) ↔ ¬OversizedQ messageIn := by
  constructor
  · rintro hbuilt ⟨hheader, herror, hlong⟩
    have hlong' : 515 < messageIn.length := hlong
    have hheader' : checkHeader 3 encMsgTypeQ messageIn = .ok () :=
      checkHeader_eq_ok.mpr (headerCode_eq_zero_iff.mp hheader)
    have heq := eq_serverMessage le_rfl hheader'
    have hmin : 16 ≤ (messageIn.drop 3).length := by
      rw [List.length_drop]
      omega
    have hresult := enc_parse_Q_message_serverMessage hmin
    rw [herror] at heq
    rw [← heq] at hresult
    have hparsed := (enc_parse_Q_message_reads messageIn 0 []).eq hresult
    have hmessage := (enc_construct_Q_message_success_writes _ _).ok (hbuilt 0 [] _ [] hparsed)
    obtain ⟨-, hmax, -⟩ := enc_construct_Q_message_success_eq_ok.mp hmessage
    rw [List.length_drop] at hmax
    omega
  · intro hbounded oldErrorCode oldSrpM2 srpM2 out hparsed
    have hresult := (enc_parse_Q_message_reads messageIn oldErrorCode oldSrpM2).ok hparsed
    obtain ⟨hmin, hmessage⟩ := enc_parse_Q_message_eq_ok_zero hresult
    have hmax : srpM2.length ≤ 512 := by
      by_contra hlong
      apply hbounded
      rw [hmessage]
      exact oversizedQ_serverMessage (not_le.mp hlong)
    exact (enc_construct_Q_message_success_writes srpM2 out).eq
      (enc_construct_Q_message_success_eq_ok.mpr ⟨hmin, hmax, hmessage⟩)

/-- The only messages that are let in without being rebuilt are the message A whose
terminator is missing or leaves fields out of bounds, and the oversized message Q. -/
theorem rebuilt_iff (beyond : UInt8) (messageIn : Bytes) :
    Rebuilt beyond messageIn ↔
      (headerCodeA messageIn = 0 →
        TerminatorInBounds messageIn ∨ ¬Terminated messageIn ∧ beyond = 0x00) ∧
      ¬OversizedQ messageIn := by
  constructor
  · intro h
    refine ⟨?_, (enc_construct_parse_Q_message_iff messageIn).mp h.Q⟩
    exact (enc_construct_parse_A_message_iff beyond messageIn [] []).mp (h.A [] [])
  · rintro ⟨hA, hQ⟩
    exact {
      A := fun username srpA =>
        (enc_construct_parse_A_message_iff beyond messageIn username srpA).mpr hA
      P := by
        intro oldErrorCode oldSalt oldSrpB salt srpB out hparsed
        have hresult := (enc_parse_P_message_reads _ oldErrorCode oldSalt oldSrpB).ok hparsed
        exact (enc_construct_P_message_success_writes salt srpB out).eq
          (enc_construct_parse_P_message_success hresult)
      B := by
        intro oldSrpM1 srpM1 out hparsed
        have hresult := (enc_parse_B_message_reads messageIn oldSrpM1).ok hparsed
        exact (enc_construct_B_message_writes srpM1 out).eq (enc_construct_parse_B_message hresult)
      Q := (enc_construct_parse_Q_message_iff messageIn).mpr hQ
      C := by
        intro oldRequest request out hparsed
        have hresult := (enc_parse_C_message_reads messageIn oldRequest).ok hparsed
        rw [enc_construct_C_message_eq, ← enc_parse_C_message_eq_ok.mp hresult]
      R := by
        intro oldResponse oldErrorCode response errorCode out hparsed
        have hresult := (enc_parse_R_message_reads messageIn oldResponse oldErrorCode).ok hparsed
        rw [enc_construct_R_message_eq, ← enc_parse_R_message_eq_ok.mp hresult]
      D := by
        intro out hparsed
        rw [enc_construct_D_message_eq, ← eq_of_enc_parse_D_message hparsed] }

/-- A proof of 513 bytes is accepted by the parser, and its constructor refuses it. -/
theorem not_rebuilt_oversized :
    ¬Rebuilt 0x00 (serverMessage encMsgTypeQ 0 (List.replicate 513 0x00)) := by
  intro h
  have hlong : 512 < (List.replicate 513 (0x00 : UInt8)).length := by
    rw [List.length_replicate]
    decide
  exact (enc_construct_parse_Q_message_iff _).mp h.Q (oversizedQ_serverMessage hlong)

end MessageBuffer

end San2.Shell
