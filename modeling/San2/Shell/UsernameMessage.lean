import Mathlib.Data.List.TakeWhile
import San2.Shell.MessageBuffers

/-!
# The message A in memory

The username of an A message ends with a zero byte, so a username that contains one is
cut short by the parser. The parser searches the terminator with an iterator whose loop
goes on up to the end of the message and not only to the byte in front of it. Here every
position is recorded that the loop dereferences, and every range that is copied.
-/

namespace San2.Shell

open DragonSRP

/-- The byte at a position of a message, or the one behind it. -/
def byteAt (beyond : UInt8) (messageIn : Bytes) (position : ℕ) : UInt8 :=
  messageIn.getD position beyond

/-- Where a search stops, and the positions that it has dereferenced. -/
structure Search where
  iter : ℕ
  dereferenced : List ℕ
  deriving DecidableEq

/-- The loop `for (; iter <= messageIn.end(); iter++)`. -/
def searchTerminator (beyond : UInt8) (messageIn : Bytes) (iter : ℕ) : Search :=
  if iter ≤ messageIn.length then
    if byteAt beyond messageIn iter = 0x00 then ⟨iter, [iter]⟩
    else
      let rest := searchTerminator beyond messageIn (iter + 1)
      ⟨rest.iter, iter :: rest.dereferenced⟩
  else ⟨iter, []⟩
termination_by messageIn.length + 1 - iter

/-- `std::copy` of a range to the end of an empty vector. A range that starts behind its
end has no bytes. -/
def copyRange (beyond : UInt8) (messageIn : Bytes) (range : ℕ × ℕ) : Bytes :=
  (List.range' range.1 (range.2 - range.1)).map (byteAt beyond messageIn)

/-- A call of `enc_parse_A_message`. -/
structure ParseACall where
  code : ℤ
  username : Bytes
  srpA : Bytes
  dereferenced : List ℕ
  copied : List (ℕ × ℕ)
  deriving DecidableEq

namespace MessageBuffer

/-- `enc_parse_A_message` with the bytes it reads and writes past the end of the message; `beyond`
is the byte that lies there. -/
def enc_parse_A_message (beyond : UInt8) (messageIn username srpA : Bytes) : ParseACall :=
  let code := headerCode (encMinClientHeader + encMinUsername + encMinSrpA) encMsgTypeA messageIn
  if code ≠ 0 then ⟨code, username, srpA, [], []⟩
  else
    let search := searchTerminator beyond messageIn encMinClientHeader
    if search.iter = messageIn.length then ⟨-4, username, srpA, search.dereferenced, []⟩
    else
      let usernameRange := (encMinClientHeader, search.iter)
      let srpARange := (search.iter + 1, messageIn.length)
      ⟨0, copyRange beyond messageIn usernameRange, copyRange beyond messageIn srpARange,
        search.dereferenced, [usernameRange, srpARange]⟩

end MessageBuffer

/-- The bytes in front of the terminator that a search from a position would find. -/
def beforeTerminator (messageIn : Bytes) (iter : ℕ) : Bytes :=
  (messageIn.drop iter).takeWhile (· ≠ 0x00)

/-- The bytes before the terminator are among those left in the message. -/
theorem length_beforeTerminator_le (messageIn : Bytes) (iter : ℕ) :
    (beforeTerminator messageIn iter).length ≤ messageIn.length - iter := by
  unfold beforeTerminator
  have hle := (List.takeWhile_prefix (l := messageIn.drop iter) (p := (· ≠ 0x00))).length_le
  rwa [List.length_drop] at hle

/-- The bytes from a position on begin with the byte there. -/
theorem drop_eq_byteAt_cons (beyond : UInt8) {messageIn : Bytes} {iter : ℕ}
    (h : iter < messageIn.length) :
    messageIn.drop iter = byteAt beyond messageIn iter :: messageIn.drop (iter + 1) := by
  rw [List.drop_eq_getElem_cons h, byteAt, List.getD_eq_getElem _ _ h]

/-- At a zero byte the scan stops with nothing. -/
theorem beforeTerminator_of_zero {beyond : UInt8} {messageIn : Bytes} {iter : ℕ}
    (h : iter < messageIn.length) (hzero : byteAt beyond messageIn iter = 0x00) :
    beforeTerminator messageIn iter = [] := by
  rw [beforeTerminator, drop_eq_byteAt_cons beyond h, hzero]
  rfl

/-- At any other byte the scan takes it and goes on. -/
theorem beforeTerminator_of_ne {beyond : UInt8} {messageIn : Bytes} {iter : ℕ}
    (h : iter < messageIn.length) (hne : byteAt beyond messageIn iter ≠ 0x00) :
    beforeTerminator messageIn iter =
      byteAt beyond messageIn iter :: beforeTerminator messageIn (iter + 1) := by
  rw [beforeTerminator, drop_eq_byteAt_cons beyond h,
    List.takeWhile_cons_of_pos (by simpa using hne)]
  rfl

/-- The loop passes the bytes in front of the terminator. Without a terminator it goes on
to the byte behind the message, and stops there only if that happens to be zero. -/
theorem searchTerminator_eq (beyond : UInt8) {messageIn : Bytes} {iter : ℕ}
    (h : iter ≤ messageIn.length) :
    searchTerminator beyond messageIn iter =
      ⟨if iter + (beforeTerminator messageIn iter).length < messageIn.length ∨ beyond = 0x00 then
          iter + (beforeTerminator messageIn iter).length
        else messageIn.length + 1,
        List.range' iter ((beforeTerminator messageIn iter).length + 1)⟩ := by
  obtain ⟨left, hleft⟩ : ∃ left, iter + left = messageIn.length := ⟨_, Nat.add_sub_cancel' h⟩
  induction left generalizing iter with
  | zero =>
    obtain rfl : iter = messageIn.length := by omega
    have hbyte : byteAt beyond messageIn messageIn.length = beyond := by
      rw [byteAt, List.getD_eq_default _ _ le_rfl]
    have hnone : beforeTerminator messageIn messageIn.length = [] := by
      rw [beforeTerminator, List.drop_length, List.takeWhile_nil]
    have hpast : searchTerminator beyond messageIn (messageIn.length + 1) =
        ⟨messageIn.length + 1, []⟩ := by
      rw [searchTerminator, if_neg (by omega)]
    rw [searchTerminator, if_pos le_rfl, hbyte, hpast, hnone]
    by_cases hbeyond : beyond = 0x00
    · simp [hbeyond]
    · simp [hbeyond]
  | succ left ih =>
    have hlt : iter < messageIn.length := by omega
    rw [searchTerminator, if_pos h]
    by_cases hzero : byteAt beyond messageIn iter = 0x00
    · simp [hzero, beforeTerminator_of_zero hlt hzero, hlt]
    · have hrest := ih (by omega : iter + 1 ≤ messageIn.length) (by omega)
      rw [if_neg hzero, hrest, beforeTerminator_of_ne hlt hzero, List.length_cons]
      have hcomm : iter + 1 + (beforeTerminator messageIn (iter + 1)).length =
          iter + ((beforeTerminator messageIn (iter + 1)).length + 1) := by omega
      have hrange : iter :: List.range' (iter + 1)
          ((beforeTerminator messageIn (iter + 1)).length + 1) =
            List.range' iter ((beforeTerminator messageIn (iter + 1)).length + 1 + 1) :=
        List.range'_succ.symm
      rw [hcomm]
      exact congrArg (Search.mk _) hrange

/-- A message with a zero byte behind its header. -/
def Terminated (messageIn : Bytes) : Prop := 0x00 ∈ messageIn.drop encMinClientHeader

/-- Whether a message has a zero byte behind its header can be computed. -/
instance (messageIn : Bytes) : Decidable (Terminated messageIn) :=
  inferInstanceAs (Decidable (0x00 ∈ messageIn.drop encMinClientHeader))

/-- There is a zero byte left exactly when the scan stops before the end of the message. -/
theorem zero_mem_drop_iff {messageIn : Bytes} {iter : ℕ} (h : iter ≤ messageIn.length) :
    0x00 ∈ messageIn.drop iter ↔
      iter + (beforeTerminator messageIn iter).length < messageIn.length := by
  obtain ⟨left, hleft⟩ : ∃ left, iter + left = messageIn.length := ⟨_, Nat.add_sub_cancel' h⟩
  induction left generalizing iter with
  | zero =>
    obtain rfl : iter = messageIn.length := by omega
    simp
  | succ left ih =>
    have hlt : iter < messageIn.length := by omega
    rw [drop_eq_byteAt_cons 0x00 hlt, List.mem_cons]
    by_cases hzero : byteAt 0x00 messageIn iter = 0x00
    · rw [beforeTerminator_of_zero hlt hzero, List.length_nil, Nat.add_zero]
      exact iff_of_true (Or.inl hzero.symm) hlt
    · have hrest := ih (by omega : iter + 1 ≤ messageIn.length) (by omega)
      rw [beforeTerminator_of_ne hlt hzero, List.length_cons, hrest]
      have hne : (0x00 : UInt8) ≠ byteAt 0x00 messageIn iter := fun heq => hzero heq.symm
      simp only [hne, false_or]
      omega

/-- A range within the message is copied as it is, whatever lies beyond. -/
theorem copyRange_eq (beyond : UInt8) {messageIn : Bytes} {start stop : ℕ}
    (hstart : start ≤ stop) (hstop : stop ≤ messageIn.length) :
    copyRange beyond messageIn (start, stop) = (messageIn.drop start).take (stop - start) := by
  apply List.ext_getElem
  · simp only [copyRange, List.length_map, List.length_range', List.length_take,
      List.length_drop]
    omega
  · intro k hk hk'
    simp only [copyRange, List.length_map, List.length_range'] at hk
    have hbyte : start + k < messageIn.length := by omega
    simp [copyRange, byteAt, hbyte]

/-- The range that goes one byte too far takes that byte along. -/
theorem copyRange_beyond (beyond : UInt8) {messageIn : Bytes} {start : ℕ}
    (hstart : start ≤ messageIn.length) :
    copyRange beyond messageIn (start, messageIn.length + 1) =
      messageIn.drop start ++ [beyond] := by
  have hsize : messageIn.length + 1 - start = (messageIn.length - start) + 1 := by omega
  have hlast : start + (messageIn.length - start) = messageIn.length := by omega
  have hinside : (List.range' start (messageIn.length - start)).map (byteAt beyond messageIn) =
      messageIn.drop start := by
    have hcopied := copyRange_eq beyond hstart le_rfl
    rwa [List.take_of_length_le List.length_drop.le] at hcopied
  have hbeyond : byteAt beyond messageIn messageIn.length = beyond := by
    rw [byteAt, List.getD_eq_default _ _ le_rfl]
  rw [copyRange, hsize, List.range'_1_concat, List.map_append, hinside, hlast]
  rw [List.map_singleton, hbeyond]

namespace MessageBuffer

/-- The code of the header checks for a message A. -/
abbrev headerCodeA (messageIn : Bytes) : ℤ :=
  headerCode (encMinClientHeader + encMinUsername + encMinSrpA) encMsgTypeA messageIn

/-- The header check of an A message asks for at least 67 bytes. -/
theorem length_of_headerCodeA {messageIn : Bytes} (h : headerCodeA messageIn = 0) :
    67 ≤ messageIn.length := (headerCode_eq_zero_iff.mp h).1

/-- A message is terminated exactly when the scan for its username stops within it. -/
theorem terminated_iff {messageIn : Bytes} (h : headerCodeA messageIn = 0) :
    Terminated messageIn ↔ 2 + (beforeTerminator messageIn 2).length < messageIn.length :=
  zero_mem_drop_iff (le_trans (by decide) (length_of_headerCodeA h))

/-- A message refused by the header check leaves both outputs alone and touches no byte past the
end. -/
theorem enc_parse_A_message_of_refused (beyond : UInt8) {messageIn : Bytes}
    (username srpA : Bytes) (h : headerCodeA messageIn ≠ 0) :
    enc_parse_A_message beyond messageIn username srpA =
      ⟨headerCodeA messageIn, username, srpA, [], []⟩ := by
  rw [enc_parse_A_message, if_pos h]

/-- A message with a terminator is cut there. -/
theorem enc_parse_A_message_of_terminated (beyond : UInt8) {messageIn : Bytes}
    (username srpA : Bytes) (h : headerCodeA messageIn = 0) (hzero : Terminated messageIn) :
    enc_parse_A_message beyond messageIn username srpA =
      ⟨0, beforeTerminator messageIn 2,
        messageIn.drop (2 + (beforeTerminator messageIn 2).length + 1),
        List.range' 2 ((beforeTerminator messageIn 2).length + 1),
        [(2, 2 + (beforeTerminator messageIn 2).length),
          (2 + (beforeTerminator messageIn 2).length + 1, messageIn.length)]⟩ := by
  have hlength := length_of_headerCodeA h
  have hfound := (terminated_iff h).mp hzero
  have hsearch := searchTerminator_eq beyond (by omega : 2 ≤ messageIn.length)
  rw [if_pos (Or.inl hfound)] at hsearch
  have husername := copyRange_eq beyond (Nat.le_add_right 2 _) hfound.le
  rw [Nat.add_sub_cancel_left] at husername
  have hprefix : (messageIn.drop 2).take (beforeTerminator messageIn 2).length =
      beforeTerminator messageIn 2 :=
    List.prefix_iff_eq_take.mp (List.takeWhile_prefix _) |>.symm
  have hsrpA := copyRange_eq beyond (Nat.succ_le_of_lt hfound) le_rfl
  rw [List.take_of_length_le List.length_drop.le] at hsrpA
  rw [enc_parse_A_message, if_neg (not_not.mpr h), hsearch, if_neg hfound.ne]
  simp only [husername, hprefix, hsrpA, Nat.succ_eq_add_one]

/-- Without a terminator the byte behind the message decides. -/
theorem enc_parse_A_message_of_not_terminated (beyond : UInt8) {messageIn : Bytes}
    (username srpA : Bytes) (h : headerCodeA messageIn = 0) (hzero : ¬Terminated messageIn) :
    enc_parse_A_message beyond messageIn username srpA =
      if beyond = 0x00 then
        ⟨-4, username, srpA, List.range' 2 (messageIn.length - 2 + 1), []⟩
      else
        ⟨0, messageIn.drop 2 ++ [beyond], [], List.range' 2 (messageIn.length - 2 + 1),
          [(2, messageIn.length + 1), (messageIn.length + 2, messageIn.length)]⟩ := by
  have hlength := length_of_headerCodeA h
  have hpassed := mt (terminated_iff h).mpr hzero
  have hall : (beforeTerminator messageIn 2).length = messageIn.length - 2 := by
    have hle := length_beforeTerminator_le messageIn 2
    omega
  have hend : 2 + (messageIn.length - 2) = messageIn.length := by omega
  have hsearch := searchTerminator_eq beyond (by omega : 2 ≤ messageIn.length)
  rw [hall, hend] at hsearch
  simp only [lt_irrefl, false_or] at hsearch
  rw [enc_parse_A_message, if_neg (not_not.mpr h), hsearch]
  by_cases hbeyond : beyond = 0x00
  · simp only [hbeyond, if_true]
  · simp only [hbeyond, if_false]
    have husername := copyRange_beyond beyond (by omega : 2 ≤ messageIn.length)
    have hsrpA : copyRange beyond messageIn (messageIn.length + 1 + 1, messageIn.length) = [] := by
      rw [copyRange, Nat.sub_eq_zero_of_le (by omega)]
      rfl
    rw [if_neg (by omega)]
    simp only [husername, hsrpA]

/-- The parser in memory does what the parser on byte strings says. -/
theorem enc_parse_A_message_reads (beyond : UInt8) (messageIn username srpA : Bytes) :
    Reads (Shell.enc_parse_A_message beyond messageIn)
      ((enc_parse_A_message beyond messageIn username srpA).code,
        (enc_parse_A_message beyond messageIn username srpA).username,
        (enc_parse_A_message beyond messageIn username srpA).srpA) := by
  unfold Shell.enc_parse_A_message
  rw [checkHeader_eq]
  by_cases hheader : headerCodeA messageIn = 0
  · have hlength : (messageIn.drop 2).length = messageIn.length - 2 := List.length_drop
    have hlong := length_of_headerCodeA hheader
    have hfound := terminated_iff hheader
    have hbefore : (messageIn.drop encMinClientHeader).takeWhile (· ≠ 0x00) =
        beforeTerminator messageIn 2 := rfl
    rw [if_pos hheader]
    by_cases hzero : Terminated messageIn
    · have hinside : (beforeTerminator messageIn 2).length < (messageIn.drop 2).length := by
        have hlt := hfound.mp hzero
        omega
      simp only [enc_parse_A_message_of_terminated beyond username srpA hheader hzero, hbefore,
        hinside, if_true, List.drop_drop]
      rfl
    · have hpassed : ¬(beforeTerminator messageIn 2).length < (messageIn.drop 2).length := by
        have hnot := mt hfound.mpr hzero
        omega
      simp only [enc_parse_A_message_of_not_terminated beyond username srpA hheader hzero, hbefore,
        hpassed, if_false]
      by_cases hbeyond : beyond = 0x00
      · simp only [hbeyond, if_true]
        exact ⟨by decide, rfl⟩
      · simp only [hbeyond, if_false]
        rfl
  · rw [if_neg hheader, enc_parse_A_message_of_refused beyond username srpA hheader]
    exact ⟨hheader, rfl⟩

/-- A call reads inside its message, and -4 says that there is no terminator. -/
structure SafeCall (messageIn : Bytes) (call : ParseACall) : Prop where
  below : ∀ position ∈ call.dereferenced, position < messageIn.length
  ordered : ∀ range ∈ call.copied, range.1 ≤ range.2
  inside : ∀ range ∈ call.copied, range.2 ≤ messageIn.length
  code_eq_iff : call.code = -4 ↔ headerCodeA messageIn = 0 ∧ ¬Terminated messageIn

/-- The header check does not return the code of a username that is not terminated. -/
theorem headerCode_ne_neg_four (minimum : ℕ) (msgType : UInt8) (messageIn : Bytes) :
    headerCode minimum msgType messageIn ≠ -4 := by
  unfold headerCode
  split_ifs <;> decide

/-- A refused message makes a safe call. -/
theorem safeCall_of_refused (beyond : UInt8) {messageIn : Bytes} (username srpA : Bytes)
    (h : headerCodeA messageIn ≠ 0) :
    SafeCall messageIn (enc_parse_A_message beyond messageIn username srpA) := by
  rw [enc_parse_A_message_of_refused beyond username srpA h]
  exact {
    below := by simp
    ordered := by simp
    inside := by simp
    code_eq_iff := iff_of_false (headerCode_ne_neg_four _ _ _) fun hheader => h hheader.1 }

/-- A message with a zero byte behind its header makes a safe call, whatever lies beyond it. -/
theorem safeCall_of_terminated (beyond : UInt8) {messageIn : Bytes} (username srpA : Bytes)
    (h : headerCodeA messageIn = 0) (hzero : Terminated messageIn) :
    SafeCall messageIn (enc_parse_A_message beyond messageIn username srpA) := by
  have hfound := (terminated_iff h).mp hzero
  rw [enc_parse_A_message_of_terminated beyond username srpA h hzero]
  have hcode : ¬(0 : ℤ) = -4 := by decide
  refine ⟨?_, ?_, ?_, iff_of_false hcode fun hheader => hheader.2 hzero⟩
  · intro position hposition
    obtain ⟨-, hlt⟩ := List.mem_range'_1.mp hposition
    omega
  · simp only [List.mem_cons, List.not_mem_nil, or_false, forall_eq_or_imp, forall_eq]
    omega
  · simp only [List.mem_cons, List.not_mem_nil, or_false, forall_eq_or_imp, forall_eq]
    omega

/-- Without a terminator the byte behind the message is read. -/
theorem length_mem_dereferenced (beyond : UInt8) {messageIn : Bytes} (username srpA : Bytes)
    (h : headerCodeA messageIn = 0) (hzero : ¬Terminated messageIn) :
    messageIn.length ∈ (enc_parse_A_message beyond messageIn username srpA).dereferenced := by
  have hlong := length_of_headerCodeA h
  have hmem : messageIn.length ∈ List.range' 2 (messageIn.length - 2 + 1) :=
    List.mem_range'_1.mpr ⟨by omega, by omega⟩
  rw [enc_parse_A_message_of_not_terminated beyond username srpA h hzero]
  split_ifs <;> exact hmem

/-- Each turn of the loop reads one position. -/
theorem length_dereferenced_le (beyond : UInt8) (messageIn username srpA : Bytes) :
    (enc_parse_A_message beyond messageIn username srpA).dereferenced.length ≤
      messageIn.length := by
  by_cases hheader : headerCodeA messageIn = 0
  · have hlong := length_of_headerCodeA hheader
    by_cases hzero : Terminated messageIn
    · have hfound := (terminated_iff hheader).mp hzero
      rw [enc_parse_A_message_of_terminated beyond username srpA hheader hzero,
        List.length_range']
      omega
    · rw [enc_parse_A_message_of_not_terminated beyond username srpA hheader hzero]
      split_ifs
      all_goals
        rw [List.length_range']
        omega
  · rw [enc_parse_A_message_of_refused beyond username srpA hheader]
    exact Nat.zero_le _

/-- The loop comes to an end for every message. It stays inside the message unless the
header is accepted and no zero byte follows it. -/
theorem enc_parse_A_message_safe_iff (beyond : UInt8) (messageIn username srpA : Bytes) :
    (enc_parse_A_message beyond messageIn username srpA).dereferenced.length ≤
        messageIn.length ∧
      (SafeCall messageIn (enc_parse_A_message beyond messageIn username srpA) ↔
        headerCodeA messageIn ≠ 0 ∨ Terminated messageIn) := by
  refine ⟨length_dereferenced_le beyond messageIn username srpA, ?_, ?_⟩
  · intro hsafe
    by_contra hneither
    obtain ⟨hheader, hzero⟩ := not_or.mp hneither
    have hread := length_mem_dereferenced beyond username srpA (not_not.mp hheader) hzero
    exact absurd (hsafe.below _ hread) (lt_irrefl _)
  · intro h
    by_cases hheader : headerCodeA messageIn = 0
    · exact safeCall_of_terminated beyond username srpA hheader
        (h.resolve_left (not_not.mpr hheader))
    · exact safeCall_of_refused beyond username srpA hheader

/-- A header and 65 letters: the loop reads the byte behind the message and takes it for the
last letter of the username. The range of the public value then starts behind its end. -/
theorem enc_parse_A_message_reads_beyond :
    ¬SafeCall ([0x45, 0x41] ++ List.replicate 65 0x61)
      (enc_parse_A_message 0x7a ([0x45, 0x41] ++ List.replicate 65 0x61) [] []) := by
  have hheader : headerCodeA ([0x45, 0x41] ++ List.replicate 65 0x61) = 0 := by decide
  have hzero : ¬Terminated ([0x45, 0x41] ++ List.replicate 65 0x61) := by decide
  intro hsafe
  exact absurd (hsafe.below _ (length_mem_dereferenced 0x7a [] [] hheader hzero)) (lt_irrefl _)

/-- An A message is built exactly from a username of 1 to 32 bytes and an A of 64 to 1024. -/
theorem enc_construct_A_message_eq_ok {username srpA message : Bytes} :
    Shell.enc_construct_A_message username srpA = .ok message ↔
      1 ≤ username.length ∧ username.length ≤ 32 ∧ 64 ≤ srpA.length ∧ srpA.length ≤ 1024 ∧
        message = clientMessage encMsgTypeA (username ++ [0x00] ++ srpA) := by
  simp only [Shell.enc_construct_A_message, bind_eq_ok, checkSize_eq_ok, exists_and_left,
    exists_const, pure_eq_ok, and_assoc]
  rw [eq_comm (a := message)]

/-- A username without a zero byte is what stands in front of the terminator. -/
theorem beforeTerminator_constructed {username : Bytes} (srpA : Bytes) (h : 0x00 ∉ username) :
    beforeTerminator (clientMessage encMsgTypeA (username ++ [0x00] ++ srpA)) 2 = username := by
  have hall : ∀ byte ∈ username, decide (byte ≠ 0x00) = true := by
    intro byte hbyte
    exact decide_eq_true fun hzero => h (hzero ▸ hbyte)
  have hcontent : (clientMessage encMsgTypeA (username ++ [0x00] ++ srpA)).drop 2 =
      username ++ 0x00 :: srpA := by
    simp [clientMessage]
  rw [beforeTerminator, hcontent, List.takeWhile_append_of_pos hall]
  simp

/-- The username and the public value come back exactly if the username has no zero byte. -/
theorem enc_parse_construct_A_message_iff (beyond : UInt8)
    {username srpA message : Bytes} (oldUsername oldSrpA : Bytes)
    (h : Shell.enc_construct_A_message username srpA = .ok message) :
    ((enc_parse_A_message beyond message oldUsername oldSrpA).code = 0 ∧
      (enc_parse_A_message beyond message oldUsername oldSrpA).username = username ∧
      (enc_parse_A_message beyond message oldUsername oldSrpA).srpA = srpA) ↔
        0x00 ∉ username := by
  obtain ⟨hmin, hmax, hminA, hmaxA, rfl⟩ := enc_construct_A_message_eq_ok.mp h
  have hlength : (clientMessage encMsgTypeA (username ++ [0x00] ++ srpA)).length =
      3 + username.length + srpA.length := by
    simp only [clientMessage, List.length_append, List.length_cons, List.length_nil]
    omega
  have hheader : headerCodeA (clientMessage encMsgTypeA (username ++ [0x00] ++ srpA)) = 0 :=
    headerCode_eq_zero_iff.mpr ⟨by rw [hlength]; exact show 67 ≤ _ by omega, rfl, rfl⟩
  have hzero : Terminated (clientMessage encMsgTypeA (username ++ [0x00] ++ srpA)) := by
    have hmem : (0x00 : UInt8) ∈ username ++ [0x00] ++ srpA := by simp
    exact hmem
  rw [enc_parse_A_message_of_terminated beyond oldUsername oldSrpA hheader hzero]
  constructor
  · rintro ⟨-, husername, -⟩ hmem
    -- what stands in front of the terminator has no zero byte
    rw [← husername] at hmem
    have hne := List.mem_takeWhile_imp hmem
    exact absurd hne (by decide)
  · intro hnone
    have hbefore := beforeTerminator_constructed srpA hnone
    have hcontent : clientMessage encMsgTypeA (username ++ [0x00] ++ srpA) =
        ([encProtocolId, encMsgTypeA] ++ username ++ [0x00]) ++ srpA := by
      simp [clientMessage]
    have hsrpA : (clientMessage encMsgTypeA (username ++ [0x00] ++ srpA)).drop
        (2 + username.length + 1) = srpA := by
      rw [hcontent]
      exact List.drop_left' (by simp; omega)
    refine ⟨rfl, hbefore, ?_⟩
    rw [hbefore]
    exact hsrpA

/-- A username without a zero byte comes back from its message. -/
theorem enc_parse_construct_A_message_of_letter :
    let message := clientMessage encMsgTypeA ([0x61] ++ [0x00] ++ List.replicate 64 0x33)
    (enc_parse_A_message 0x7a message [] []).code = 0 ∧
      (enc_parse_A_message 0x7a message [] []).username = [0x61] ∧
      (enc_parse_A_message 0x7a message [] []).srpA = List.replicate 64 0x33 :=
  (enc_parse_construct_A_message_iff 0x7a [] []
    (enc_construct_A_message_eq_ok.mpr
      ⟨by decide, by decide, by decide, by decide, rfl⟩)).mpr (by decide)

/-- The username "a", zero, "b" is accepted by the constructor and parsed as "a". -/
theorem enc_parse_construct_A_message_cut :
    Shell.enc_construct_A_message [0x61, 0x00, 0x62] (List.replicate 64 0x33) =
        .ok (clientMessage encMsgTypeA
          ([0x61, 0x00, 0x62] ++ [0x00] ++ List.replicate 64 0x33)) ∧
      (enc_parse_A_message 0x7a (clientMessage encMsgTypeA
        ([0x61, 0x00, 0x62] ++ [0x00] ++ List.replicate 64 0x33)) [] []).code = 0 ∧
      (enc_parse_A_message 0x7a (clientMessage encMsgTypeA
        ([0x61, 0x00, 0x62] ++ [0x00] ++ List.replicate 64 0x33)) [] []).username = [0x61] := by
  have hheader : headerCodeA
      (clientMessage encMsgTypeA ([0x61, 0x00, 0x62] ++ [0x00] ++ List.replicate 64 0x33)) = 0 := by
    decide
  refine ⟨enc_construct_A_message_eq_ok.mpr ⟨by decide, by decide, by decide, by decide, rfl⟩, ?_⟩
  rw [enc_parse_A_message_of_terminated 0x7a [] [] hheader (by decide)]
  exact ⟨rfl, rfl⟩

end MessageBuffer

end San2.Shell
