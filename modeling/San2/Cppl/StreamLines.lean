import San2.Cppl.StreamReads

/-!
# Lines do not depend on the reads

What a call returns that looks for a line feed is decided by the bytes of the stream after
those handed out, however they were split into reads. A call that is disturbed before the
buffer has decided takes nothing.
-/

namespace San2.Cppl

open San2.Network StoppingProgram StreamWindow

namespace BufferedStream

open BufferProcessor

/-- The next segment of a stream up to its line feed, for a caller with room for `outputSize`
bytes. A segment that is too long for the buffer or for the caller stays where it is. -/
def nextSegment (outputSize : UInt32) (stream : Bytes) : ErrorCode × Bytes :=
  match segmentEnd 0x0A readBufferSize stream with
  | none => (.segmentTooLong, [])
  | some length =>
    if outputSize.toNat < length + 1 then (.bufferToSmall, [])
    else (.success, stream.take (length + 1))

/-- The next line of a stream, as a terminated string. A line with another control character
is refused. -/
def nextLine (lineSize : UInt32) (stream : Bytes) : ErrorCode × Bytes :=
  let (rval, line) := nextSegment lineSize stream
  if rval ≠ .success then (rval, line)
  else if ∃ c ∈ line.dropLast, c < 0x20 then (.illegalCharacterReceived, line)
  else (.success, line.dropLast ++ [0])

/-- A segment that is returned ends with its only line feed. -/
theorem nextSegment_success {outputSize : UInt32} {stream : Bytes}
    (h : (nextSegment outputSize stream).1 = .success) :
    ∃ text, 0x0A ∉ text ∧ (nextSegment outputSize stream).2 = text ++ [0x0A] := by
  unfold nextSegment at *
  cases hsegment : segmentEnd 0x0A readBufferSize stream with
  | none => simp [hsegment] at h
  | some length =>
    simp only [hsegment] at h ⊢
    by_cases hsmall : outputSize.toNat < length + 1
    · simp [hsmall] at h
    · obtain ⟨-, hnone, -, -⟩ := eq_of_segmentEnd hsegment
      rw [if_neg hsmall]
      exact ⟨stream.take length, hnone, take_succ_of_segmentEnd hsegment⟩

/-- A segment that is not too long, as long as there is room for it. -/
theorem nextSegment_append {text : Bytes} (rest : Bytes) (outputSize : UInt32)
    (hnone : 0x0A ∉ text) (hlength : text.length < readBufferSize) :
    nextSegment outputSize (text ++ 0x0A :: rest) =
      if outputSize.toNat < text.length + 1 then (.bufferToSmall, [])
      else (.success, text ++ [0x0A]) := by
  have hsegment := segmentEnd_append rest hnone hlength
  have htaken := take_succ_of_segmentEnd hsegment
  rw [List.take_left] at htaken
  simp only [nextSegment, hsegment, htaken]

/-- A line that is not too long is returned without its line feed, or refused. -/
theorem nextLine_append {text : Bytes} (rest : Bytes) (lineSize : UInt32) (hnone : 0x0A ∉ text)
    (hlength : text.length < readBufferSize) :
    nextLine lineSize (text ++ 0x0A :: rest) =
      if lineSize.toNat < text.length + 1 then (.bufferToSmall, [])
      else if ∃ c ∈ text, c < 0x20 then (.illegalCharacterReceived, text ++ [0x0A])
      else (.success, text ++ [0]) := by
  rw [nextLine, nextSegment_append rest lineSize hnone hlength]
  by_cases hsmall : lineSize.toNat < text.length + 1
  · simp only [if_pos hsmall]
    rfl
  · simp only [if_neg hsmall, ne_eq, not_true_eq_false, if_false, List.dropLast_concat]

/-- A line that the buffer cannot hold is not returned. -/
theorem nextLine_tooLong {stream : Bytes} (lineSize : UInt32)
    (hnone : 0x0A ∉ stream.take readBufferSize) :
    nextLine lineSize stream = (.segmentTooLong, []) := by
  rw [nextLine, nextSegment, segmentEnd_eq_none hnone]
  rfl

/-- Except for the line feed `readLine` refuses the characters below the blank. -/
theorem illegal_iff {c : UInt8} (hc : c ≠ 0x0A) : illegal c = true ↔ c < 0x20 := by
  have hne : c.toNat ≠ 10 := fun heq => hc (UInt8.toNat_inj.mp heq)
  simp only [illegal, Bool.or_eq_true, Bool.and_eq_true, decide_eq_true_eq,
    UInt8.le_iff_toNat_le, UInt8.lt_iff_toNat_lt]
  change c.toNat ≤ 9 ∨ 11 ≤ c.toNat ∧ c.toNat ≤ 31 ↔ c.toNat < 32
  omega

/-- On a segment `readLine` returns the line that it holds. -/
theorem checkLine_eq {text : Bytes} (h : 0x0A ∉ text) :
    checkLine (text ++ [0x0A]) =
      if ∃ c ∈ text, c < 0x20 then (.illegalCharacterReceived, text ++ [0x0A])
      else (.success, text ++ [0]) := by
  have hillegal : (text ++ [0x0A]).any illegal = true ↔ ∃ c ∈ text, c < 0x20 := by
    have hfeed : illegal 0x0A = false := by decide
    rw [List.any_append, List.any_cons, hfeed, List.any_nil, Bool.or_false, Bool.or_false,
      List.any_eq_true]
    constructor
    · rintro ⟨c, hmem, hc⟩
      exact ⟨c, hmem, (illegal_iff fun heq => h (heq ▸ hmem)).mp hc⟩
    · rintro ⟨c, hmem, hc⟩
      exact ⟨c, hmem, (illegal_iff fun heq => h (heq ▸ hmem)).mpr hc⟩
  have hnil : text ++ [0x0A] ≠ [] := List.append_ne_nil_of_right_ne_nil _ (List.cons_ne_nil _ _)
  rw [checkLine, if_neg hnil]
  by_cases hcontrol : ∃ c ∈ text, c < 0x20
  · rw [if_pos (hillegal.mpr hcontrol), if_pos hcontrol]
  · rw [if_neg (mt hillegal.mp hcontrol), if_neg hcontrol, List.getLast?_concat,
      List.dropLast_concat, if_neg (not_not.mpr rfl)]

/-- The buffer does not hold a segment and is not full. -/
def Undecided (s : BufferedStream) : Prop :=
  0x0A ∉ s.buffered ∧ s.buffered.length < readBufferSize

/-- What a call returns that is disturbed before the buffer has decided. -/
inductive Disturbed (s s' : BufferedStream) (turns : List TransportTurn) :
    Except Stop (ErrorCode × Bytes) → Prop
  | terminated {turn : TransportTurn} (hturn : turn ∈ turns) (hterminated : turn.terminated) :
      Disturbed s s' turns (.ok (.terminated, []))
  | aborted {turn : TransportTurn} {dataSize : UInt32} (hturn : turn ∈ turns)
      (hsize : dataSize ≠ 0) (hcode : (turn.read.answer dataSize).code = .failure)
      (hundecided : s'.Undecided) : Disturbed s s' turns (.error .aborted)
  | failed {turn : TransportTurn} {dataSize : UInt32} (hturn : turn ∈ turns)
      (hsize : dataSize ≠ 0) (hsuccess : (turn.read.answer dataSize).code ≠ .success)
      (hfailure : (turn.read.answer dataSize).code ≠ .failure) (hundecided : s'.Undecided) :
      Disturbed s s' turns (.ok ((turn.read.answer dataSize).code, []))
  | waiting (hread : s.received.length + turns.length ≤ s'.received.length) :
      Disturbed s s' turns (.error .waiting)

/-- What is certain of a call that looks for a line feed: it gives what the stream holds next
and takes the segment, or it is disturbed and takes nothing. -/
structure Seeks (next : Bytes → ErrorCode × Bytes) (outputSize : UInt32)
    (turns : List TransportTurn) (s : BufferedStream) (result : Except Stop (ErrorCode × Bytes))
    (s' : BufferedStream) : Prop where
  window : s'.Window
  received : s.received <+: s'.received
  ends :
    (∀ stream, s'.received <+: stream →
      result = .ok (next (stream.drop s.handedOut.length)) ∧
      s'.handedOut =
        s.handedOut ++ (nextSegment outputSize (stream.drop s.handedOut.length)).2) ∨
    s'.handedOut = s.handedOut ∧ Disturbed s s' turns result

/-- What disturbs a call in a later turn disturbs it after one more read. -/
theorem Disturbed.of_reads {s s₁ s' : BufferedStream} {turn : TransportTurn}
    {turns : List TransportTurn} {result : Except Stop (ErrorCode × Bytes)}
    (h : Disturbed s₁ s' turns result) (hgrown : s.received.length < s₁.received.length) :
    Disturbed s s' (turn :: turns) result := by
  cases h with
  | terminated hturn hterminated =>
    exact .terminated (List.mem_cons_of_mem turn hturn) hterminated
  | aborted hturn hsize hcode hundecided =>
    exact .aborted (List.mem_cons_of_mem turn hturn) hsize hcode hundecided
  | failed hturn hsize hsuccess hfailure hundecided =>
    exact .failed (List.mem_cons_of_mem turn hturn) hsize hsuccess hfailure hundecided
  | waiting hread =>
    refine .waiting ?_
    rw [List.length_cons]
    omega

/-- What is looked for after a read that handed out nothing. -/
theorem Seeks.of_reads {next : Bytes → ErrorCode × Bytes} {outputSize : UInt32}
    {s s₁ s' : BufferedStream} {turn : TransportTurn} {turns : List TransportTurn}
    {result : Except Stop (ErrorCode × Bytes)} (h : Seeks next outputSize turns s₁ result s')
    (hreads : s.Reads s₁) (hgrown : s.received.length < s₁.received.length) :
    Seeks next outputSize (turn :: turns) s result s' := by
  have hends := h.ends
  rw [hreads.handedOut] at hends
  refine ⟨h.window, hreads.received.trans h.received, hends.imp_right ?_⟩
  rintro ⟨hhanded, hdisturbed⟩
  exact ⟨hhanded, hdisturbed.of_reads hgrown⟩

/-- What is in the buffer comes next in the stream. -/
theorem Window.buffered_isPrefix {s : BufferedStream} (h : s.Window) {stream : Bytes}
    (hstream : s.received <+: stream) : s.buffered <+: stream.drop s.handedOut.length := by
  obtain ⟨rest, rfl⟩ := hstream
  rw [← h.stream, List.append_assoc, List.drop_left]
  exact List.prefix_append _ _

/-- A window that decides, seen on any stream that goes on from it. -/
theorem Window.segmentEnd_drop {s : BufferedStream} (h : s.Window)
    (hdecides : 0x0A ∈ s.buffered ∨ s.buffered.length = readBufferSize) {stream : Bytes}
    (hstream : s.received <+: stream) :
    segmentEnd 0x0A readBufferSize (stream.drop s.handedOut.length) =
      s.buffered.findIdx? (· = 0x0A) :=
  segmentEnd_of_isPrefix (h.buffered_isPrefix hstream) h.length_le hdecides

/-- A segment in the buffer is handed out, if there is room for it. -/
theorem Window.ends_segment {s : BufferedStream} (h : s.Window) (outputSize : UInt32)
    (turns : List TransportTurn) {index : ℕ}
    (hindex : s.buffered.findIdx? (· = 0x0A) = some index) :
    ∃ result s', Ends (extractBuffer outputSize (UInt32.ofNat (index + 1))) s result s' ∧
      Seeks (nextSegment outputSize) outputSize turns s result s' := by
  obtain ⟨hlength, hfound, -⟩ := List.findIdx?_eq_some_iff_getElem.mp hindex
  have hmem : (0x0A : UInt8) ∈ s.buffered := by
    have hfeed : s.buffered[index] = 0x0A := by simpa using hfound
    exact hfeed ▸ List.getElem_mem hlength
  have hsegment {stream : Bytes} (hstream : s.received <+: stream) :
      segmentEnd 0x0A readBufferSize (stream.drop s.handedOut.length) = some index :=
    (h.segmentEnd_drop (Or.inl hmem) hstream).trans hindex
  have hcount : (UInt32.ofNat (index + 1)).toNat = index + 1 := by
    have hnumber : readBufferSize = 1024 := rfl
    have hle := h.length_le
    rw [UInt32.toNat_ofNat_of_lt']
    change index + 1 < 2 ^ 32
    omega
  by_cases hsmall : outputSize.toNat < index + 1
  · have hlt : outputSize < UInt32.ofNat (index + 1) := by
      rw [UInt32.lt_iff_toNat_lt, hcount]
      exact hsmall
    refine ⟨_, s, ends_extractBuffer_small s hlt, h, List.prefix_rfl, Or.inl ?_⟩
    intro stream hstream
    rw [nextSegment, hsegment hstream]
    simp only [if_pos hsmall, List.append_nil, and_self]
  · have hpositive : UInt32.ofNat (index + 1) ≠ 0 := by
      intro hzero
      rw [hzero] at hcount
      exact Nat.succ_ne_zero index hcount.symm
    have hsize : UInt32.ofNat (index + 1) ≤ outputSize := by
      rw [UInt32.le_iff_toNat_le, hcount]
      exact Nat.not_lt.mp hsmall
    have hle : (UInt32.ofNat (index + 1)).toNat ≤ s.buffered.length := hcount.trans_le hlength
    obtain ⟨s', hends, hwindow, hreceived, hhanded⟩ := h.ends_extractBuffer hpositive hle hsize
    refine ⟨_, s', hends, hwindow, hreceived ▸ List.prefix_rfl, Or.inl ?_⟩
    intro stream hstream
    rw [hreceived] at hstream
    have htaken : (stream.drop s.handedOut.length).take (index + 1) =
        s.buffered.take (index + 1) := by
      obtain ⟨rest, hrest⟩ := h.buffered_isPrefix hstream
      rw [← hrest, List.take_append_of_le_length hlength]
    rw [nextSegment, hsegment hstream]
    simp only [if_neg hsmall, htaken, hhanded, hcount, and_self]

/-- The buffer is full and holds no line feed. -/
theorem Window.ends_tooLong {s : BufferedStream} (h : s.Window) (outputSize : UInt32)
    (turns : List TransportTurn) (hnone : s.buffered.findIdx? (· = 0x0A) = none)
    (hfull : s.buffered.length = readBufferSize) :
    Seeks (nextSegment outputSize) outputSize turns s (.ok (.segmentTooLong, [])) s := by
  refine ⟨h, List.prefix_rfl, Or.inl ?_⟩
  intro stream hstream
  rw [nextSegment, (h.segmentEnd_drop (Or.inr hfull) hstream).trans hnone]
  simp only [List.append_nil, and_self]

/-- A disturbed call has handed out nothing. -/
theorem Reads.seeks {next : Bytes → ErrorCode × Bytes} {outputSize : UInt32}
    {s s' : BufferedStream} {turns : List TransportTurn}
    {result : Except Stop (ErrorCode × Bytes)} (h : s.Reads s')
    (hdisturbed : Disturbed s s' turns result) : Seeks next outputSize turns s result s' :=
  ⟨h.window, h.received, Or.inr ⟨h.handedOut, hdisturbed⟩⟩

/-- Each turn takes the segment, ends the loop or reads more bytes for the turns after it. -/
theorem Window.ends_readDelimeter (outputSize : UInt32) (turns : List TransportTurn)
    {s : BufferedStream} (h : s.Window) :
    ∃ result s', Ends (readDelimeter outputSize turns) s result s' ∧
      Seeks (nextSegment outputSize) outputSize turns s result s' := by
  induction turns generalizing s with
  | nil =>
    exact ⟨_, s, ends_throw _ _, h.reads_self.seeks (.waiting le_rfl)⟩
  | cons turn turns ih =>
    unfold readDelimeter
    by_cases hterminated : Subclass.isTerminated turn = true
    · rw [if_pos hterminated]
      exact ⟨_, s, ends_pure _ _,
        h.reads_self.seeks (.terminated List.mem_cons_self hterminated)⟩
    rw [if_neg hterminated]
    have hfind := h.ends_findCharacter 0x0A
    cases hfound : s.buffered.findIdx? (· = 0x0A) with
    | some index =>
      rw [hfound] at hfind
      obtain ⟨result, s', hends, hseeks⟩ := h.ends_segment outputSize (turn :: turns) hfound
      exact ⟨result, s', hfind.bind_ok hends, hseeks⟩
    | none =>
      rw [hfound] at hfind
      have hbufferFull := h.ends_bufferFull
      by_cases hfull : s.buffered.length = readBufferSize
      · rw [decide_eq_true hfull] at hbufferFull
        exact ⟨_, s, hfind.bind_ok (hbufferFull.bind_ok (ends_pure _ _)),
          h.ends_tooLong outputSize (turn :: turns) hfound hfull⟩
      · rw [decide_eq_false hfull] at hbufferFull
        have hroom : s.buffered.length < readBufferSize :=
          lt_of_le_of_ne h.length_le hfull
        obtain ⟨dataSize, s₁, hsize, hfill, hreads, hgrown, hsame⟩ :=
          h.ends_fillBuffer hroom turn
        have hturn : turn ∈ turn :: turns := List.mem_cons_self
        have hundecided (hcode : (turn.read.answer dataSize).code ≠ .success) : s₁.Undecided := by
          rw [Undecided, hreads.buffered_eq h (hsame hcode)]
          exact ⟨not_mem_of_findIdx?_eq_none hfound, hroom⟩
        by_cases hfailure : (turn.read.answer dataSize).code = .failure
        · refine ⟨_, s₁, hfind.bind_ok (hbufferFull.bind_ok (hfill.bind_ok ?_)),
            hreads.seeks (.aborted hturn hsize hfailure ?_)⟩
          · rw [if_pos hfailure]
            exact ends_throw _ _
          · exact hundecided fun hsuccess => by rw [hsuccess] at hfailure; cases hfailure
        by_cases hsuccess : (turn.read.answer dataSize).code = .success
        · obtain ⟨result, s', hends, hseeks⟩ := ih hreads.window
          refine ⟨result, s', hfind.bind_ok (hbufferFull.bind_ok (hfill.bind_ok ?_)),
            hseeks.of_reads hreads (hgrown hsuccess)⟩
          rw [if_neg hfailure, if_neg (not_not.mpr hsuccess)]
          exact hends
        · refine ⟨_, s₁, hfind.bind_ok (hbufferFull.bind_ok (hfill.bind_ok ?_)),
            hreads.seeks (.failed hturn hsize hsuccess hfailure (hundecided hsuccess))⟩
          rw [if_neg hfailure, if_pos hsuccess]
          exact ends_pure _ _

/-- What `readLine` makes of the segment is the next line. -/
theorem nextLine_eq (lineSize : UInt32) (stream : Bytes) :
    nextLine lineSize stream =
      if (nextSegment lineSize stream).1 ≠ .success then nextSegment lineSize stream
      else checkLine (nextSegment lineSize stream).2 := by
  unfold nextLine
  by_cases hsuccess : (nextSegment lineSize stream).1 = .success
  · obtain ⟨text, hnone, htext⟩ := nextSegment_success hsuccess
    simp only [hsuccess, ne_eq, not_true_eq_false, if_false, htext, List.dropLast_concat,
      checkLine_eq hnone]
  · simp only [ne_eq, hsuccess, not_false_eq_true, if_true]

/-- A disturbed call does not return success. -/
theorem Disturbed.ne_success {s s' : BufferedStream} {turns : List TransportTurn}
    {rval : ErrorCode} {line : Bytes} (h : Disturbed s s' turns (.ok (rval, line))) :
    rval ≠ .success := by
  cases h with
  | terminated hturn hterminated => decide
  | failed hturn hsize hsuccess hfailure hundecided => exact hsuccess

/-- `readLine` gives the next line and takes its segment, or it is disturbed and takes nothing. -/
theorem Window.ends_readLine (lineSize : UInt32) (turns : List TransportTurn)
    {s : BufferedStream} (h : s.Window) :
    ∃ result s', Ends (readLine lineSize turns) s result s' ∧
      Seeks (nextLine lineSize) lineSize turns s result s' := by
  obtain ⟨result, s', hends, hseeks⟩ := h.ends_readDelimeter lineSize turns
  cases result with
  | error stop =>
    refine ⟨_, s', Ends.bind_error _ hends, hseeks.window, hseeks.received, ?_⟩
    rcases hseeks.ends with hgives | hdisturbed
    · cases (hgives s'.received List.prefix_rfl).1
    · exact Or.inr hdisturbed
  | ok segment =>
    obtain ⟨rval, line⟩ := segment
    have hline : Ends (readLine lineSize turns) s
        (.ok (if rval ≠ .success then (rval, line) else checkLine line)) s' := by
      refine hends.bind_ok ?_
      by_cases hsuccess : rval ≠ .success
      · simp only [if_pos hsuccess]
        exact ends_pure _ _
      · simp only [if_neg hsuccess]
        exact ends_pure _ _
    refine ⟨_, s', hline, hseeks.window, hseeks.received, ?_⟩
    rcases hseeks.ends with hgives | ⟨hhanded, hdisturbed⟩
    · refine Or.inl fun stream hstream => ?_
      obtain ⟨hresult, hhanded⟩ := hgives stream hstream
      have hsegment := Except.ok.inj hresult
      rw [nextLine_eq, ← hsegment]
      exact ⟨rfl, hsegment ▸ hhanded⟩
    · rw [if_pos hdisturbed.ne_success]
      exact Or.inr ⟨hhanded, hdisturbed⟩

/-- What is certain of a call of `readSome`: it gives the bytes that come next, at least one and
at most as many as there is room for, or it gives nothing. -/
structure TakesSome (bufferSize : UInt32) (s : BufferedStream)
    (result : Except Stop (ErrorCode × Bytes)) (s' : BufferedStream) : Prop where
  window : s'.Window
  received : s.received <+: s'.received
  ends :
    (∃ block, block ≠ [] ∧ block = (s'.received.drop s.handedOut.length).take bufferSize.toNat ∧
      result = .ok (.success, block) ∧ s'.handedOut = s.handedOut ++ block) ∨
    s'.handedOut = s.handedOut ∧ ((∃ code, code ≠ .success ∧ result = .ok (code, [])) ∨
      bufferSize = 0 ∧ result = .error .aborted)

/-- `extractSome` takes the smaller of the two numbers. -/
theorem ends_extractSome_count {bufferSize count : UInt32} {s s' : BufferedStream}
    {result : Except Stop (ErrorCode × Bytes)}
    (hcount : (if bufferSize ≥ s.mReadBufferLen then s.mReadBufferLen
      else bufferSize) = count)
    (h : Ends (extractBuffer bufferSize count) s result s') :
    Ends (extractSome bufferSize) s result s' := by
  subst hcount
  exact ends_get_bind h

/-- As many bytes as there is room for, if there are any. -/
theorem Window.ends_extractSome {s : BufferedStream} (h : s.Window) {bufferSize : UInt32}
    (hbytes : bufferSize ≠ 0 → s.buffered ≠ []) :
    ∃ result s', Ends (extractSome bufferSize) s result s' ∧ TakesSome bufferSize s result s' := by
  have hlen := h.length_buffered
  by_cases hzero : bufferSize = 0
  · have hcount : (if bufferSize ≥ s.mReadBufferLen then s.mReadBufferLen
        else bufferSize) = 0 := by
      split_ifs with hge
      · rw [hzero] at hge
        exact UInt32.le_zero_iff.mp hge
      · exact hzero
    exact ⟨_, s, ends_extractSome_count hcount (h.ends_extractBuffer_zero bufferSize), h,
      List.prefix_rfl, Or.inr ⟨rfl, Or.inr ⟨hzero, rfl⟩⟩⟩
  · generalize hcount : (if bufferSize ≥ s.mReadBufferLen then s.mReadBufferLen
      else bufferSize) = count
    have hmin : count.toNat = min bufferSize.toNat s.buffered.length := by
      rw [← hcount, hlen]
      split_ifs with hge
      · exact (Nat.min_eq_right (UInt32.le_iff_toNat_le.mp hge)).symm
      · have hlt := UInt32.lt_iff_toNat_lt.mp (UInt32.not_le.mp hge)
        exact (Nat.min_eq_left hlt.le).symm
    have hpositive : 0 < min bufferSize.toNat s.buffered.length :=
      Nat.lt_min.mpr ⟨Nat.pos_of_ne_zero fun h0 => hzero (UInt32.toNat_inj.mp h0),
        List.length_pos_iff.mpr (hbytes hzero)⟩
    have hne : count ≠ 0 := by
      intro h0
      rw [h0] at hmin
      exact hpositive.ne hmin
    have hle : count.toNat ≤ s.buffered.length := hmin.trans_le (Nat.min_le_right _ _)
    have hsize : count ≤ bufferSize :=
      UInt32.le_iff_toNat_le.mpr (hmin.trans_le (Nat.min_le_left _ _))
    have hblock : s.buffered.take count.toNat = s.buffered.take bufferSize.toNat := by
      rw [hmin, List.take_eq_take_min, Nat.min_assoc, Nat.min_self, ← List.take_eq_take_min]
    obtain ⟨s', hends, hwindow, hreceived, hhanded⟩ := h.ends_extractBuffer hne hle hsize
    rw [hblock] at hends hhanded
    refine ⟨_, s', ends_extractSome_count hcount hends, hwindow, hreceived ▸ List.prefix_rfl,
      Or.inl ⟨s.buffered.take bufferSize.toNat, ?_, ?_, rfl, hhanded⟩⟩
    · rw [← hblock]
      exact List.ne_nil_of_length_pos (by rw [List.length_take]; omega)
    · rw [hreceived, h.drop_received]

/-- A call of `fillBuffer` that succeeds leaves bytes in the buffer. -/
theorem Window.ends_fillBuffer_some {s : BufferedStream} (h : s.Window) (turn : TransportTurn) :
    ∃ rval s₁, Ends (fillBuffer turn) s (.ok rval) s₁ ∧ s.Reads s₁ ∧
      (rval = .success → s₁.buffered ≠ []) := by
  by_cases hfull : s.buffered.length = readBufferSize
  · refine ⟨_, s, h.ends_fillBuffer_full hfull turn, h.reads_self, fun _ hnil => ?_⟩
    rw [hnil] at hfull
    cases hfull
  · have hroom : s.buffered.length < readBufferSize := lt_of_le_of_ne h.length_le hfull
    obtain ⟨dataSize, s₁, -, hends, hreads, hgrown, -⟩ := h.ends_fillBuffer hroom turn
    refine ⟨_, s₁, hends, hreads, fun hsuccess hnil => ?_⟩
    have hlonger := hgrown hsuccess
    rw [← h.stream, ← hreads.window.stream, hreads.handedOut, hnil, List.append_nil,
      List.length_append] at hlonger
    omega

/-- `readSome` gives what is in the buffer, after a read if there is too little. -/
theorem Window.ends_readSome (bufferSize : UInt32) (turn : TransportTurn) {s : BufferedStream}
    (h : s.Window) :
    ∃ result s', Ends (readSome bufferSize turn) s result s' ∧
      TakesSome bufferSize s result s' := by
  by_cases hmore : bufferSize > s.mReadBufferLen
  · obtain ⟨rval, s₁, hfill, hreads, hbytes⟩ := h.ends_fillBuffer_some turn
    by_cases hsuccess : rval = .success
    · have hsome : bufferSize ≠ 0 → s₁.buffered ≠ [] := fun _ => hbytes hsuccess
      obtain ⟨result, s', hends, htakes⟩ := hreads.window.ends_extractSome hsome
      have hstart := htakes.ends
      rw [hreads.handedOut] at hstart
      refine ⟨result, s', ends_get_bind ?_, htakes.window,
        hreads.received.trans htakes.received, hstart⟩
      rw [if_pos hmore]
      refine hfill.bind_ok ?_
      rw [if_neg (not_not.mpr hsuccess)]
      exact hends
    · refine ⟨_, s₁, ends_get_bind ?_, hreads.window, hreads.received,
        Or.inr ⟨hreads.handedOut, Or.inl ⟨rval, hsuccess, rfl⟩⟩⟩
      rw [if_pos hmore]
      refine hfill.bind_ok ?_
      rw [if_pos hsuccess]
      exact ends_pure _ _
  · have hbytes : bufferSize ≠ 0 → s.buffered ≠ [] := by
      intro hne hnil
      have hlen := h.length_buffered
      rw [hnil] at hlen
      have hle := UInt32.le_iff_toNat_le.mp (UInt32.not_lt.mp hmore)
      rw [← hlen] at hle
      exact hne (UInt32.toNat_inj.mp (Nat.le_zero.mp hle))
    obtain ⟨result, s', hends, htakes⟩ := h.ends_extractSome hbytes
    refine ⟨result, s', ends_get_bind ?_, htakes⟩
    rw [if_neg hmore]
    exact hends

end BufferedStream

/-- What is certain of a call. -/
def BufferCall.Meets (s : BufferedStream) (result : Except Stop (ErrorCode × Bytes))
    (s' : BufferedStream) : BufferCall TransportTurn → Prop
  | readSome bufferSize _ => BufferedStream.TakesSome bufferSize s result s'
  | readDelimeter outputSize turns =>
    BufferedStream.Seeks (BufferedStream.nextSegment outputSize) outputSize turns s result s'
  | readLine lineSize turns =>
    BufferedStream.Seeks (BufferedStream.nextLine lineSize) lineSize turns s result s'

namespace BufferedStream

open BufferProcessor

/-- Every call ends, with what is certain of it. -/
theorem Window.ends_perform {s : BufferedStream} (h : s.Window) (call : BufferCall TransportTurn) :
    ∃ result s', Ends call.perform s result s' ∧ call.Meets s result s' := by
  cases call with
  | readSome bufferSize turn => exact h.ends_readSome bufferSize turn
  | readDelimeter outputSize turns => exact h.ends_readDelimeter outputSize turns
  | readLine lineSize turns => exact h.ends_readLine lineSize turns

/-- What is certain of a call holds of its result. -/
theorem Window.meets {s : BufferedStream} (h : s.Window) (call : BufferCall TransportTurn) :
    call.Meets s (outcome call.perform s) (after call.perform s) := by
  obtain ⟨result, s', ⟨rfl, rfl⟩, hmeets⟩ := h.ends_perform call
  exact hmeets

/-- Every call keeps the window. -/
theorem keeps_perform (call : BufferCall TransportTurn) : Keeps Window call.perform := by
  intro s h
  have hmeets := h.meets call
  cases call with
  | readSome bufferSize turn => exact hmeets.window
  | readDelimeter outputSize turns => exact hmeets.window
  | readLine lineSize turns => exact hmeets.window

/-- After any calls the buffer is a window on the stream. -/
theorem window_runCalls (memory : FixedBytes readBufferSize)
    (calls : List (BufferCall TransportTurn)) : Window (runCalls memory calls) := by
  refine keeps_runAll (fun program hprogram => ?_) _ (window_create memory)
  obtain ⟨call, -, rfl⟩ := List.mem_map.mp hprogram
  exact keeps_perform call

/-- The turns of a loop in which nothing goes wrong, as many as a line can need. -/
structure Undisturbed (turns : List TransportTurn) : Prop where
  length : readBufferSize < turns.length
  terminated : ∀ turn ∈ turns, turn.terminated = false
  success : ∀ turn ∈ turns, ∀ dataSize, dataSize ≠ 0 →
    (turn.read.answer dataSize).code = .success

/-- The lines that a stream holds for callers with room for the given numbers of bytes. -/
def nextLines : List UInt32 → Bytes → List (ErrorCode × Bytes)
  | [], _ => []
  | lineSize :: lineSizes, stream =>
    nextLine lineSize stream ::
      nextLines lineSizes (stream.drop (nextSegment lineSize stream).2.length)

/-- Calls of `readLine`, one after the other. -/
def readLines : List (UInt32 × List TransportTurn) →
    BufferM TransportTurn (List (ErrorCode × Bytes))
  | [] => return []
  | (lineSize, turns) :: calls => do
    let line ← readLine lineSize turns
    let lines ← readLines calls
    return line :: lines

/-- With undisturbed turns a call is not disturbed: at most as many reads succeed as there
are places in the buffer. -/
theorem Undisturbed.not_disturbed {turns : List TransportTurn} (hturns : Undisturbed turns)
    {s s' : BufferedStream} (h : s.Window) (h' : s'.Window) (hhanded : s'.handedOut = s.handedOut)
    {result : Except Stop (ErrorCode × Bytes)} : ¬Disturbed s s' turns result := by
  intro hdisturbed
  cases hdisturbed with
  | terminated hturn hterminated =>
    rw [hturns.terminated _ hturn] at hterminated
    cases hterminated
  | aborted hturn hsize hcode hundecided =>
    rw [hturns.success _ hturn _ hsize] at hcode
    cases hcode
  | failed hturn hsize hsuccess hfailure hundecided =>
    exact hsuccess (hturns.success _ hturn _ hsize)
  | waiting hread =>
    have hlength := hturns.length
    have hwindow := h'.length_le
    rw [← h.stream, ← h'.stream, hhanded, List.length_append, List.length_append] at hread
    omega

/-- Undisturbed calls return the lines of the stream. -/
theorem Window.ends_readLines (calls : List (UInt32 × List TransportTurn)) {s : BufferedStream}
    (h : s.Window) (hcalls : ∀ call ∈ calls, Undisturbed call.2) :
    ∃ lines, ∃ s' : BufferedStream, Ends (readLines calls) s (.ok lines) s' ∧ s'.Window ∧
      s.received <+: s'.received ∧ ∀ stream, s'.received <+: stream →
        lines = nextLines (calls.map Prod.fst) (stream.drop s.handedOut.length) := by
  induction calls generalizing s with
  | nil => exact ⟨[], s, ends_pure _ _, h, List.prefix_rfl, fun _ _ => rfl⟩
  | cons call calls ih =>
    obtain ⟨lineSize, turns⟩ := call
    have hturns : Undisturbed turns := hcalls _ List.mem_cons_self
    obtain ⟨result, s₁, hends, hseeks⟩ := h.ends_readLine lineSize turns
    have hgives := hseeks.ends.resolve_right fun hcontra =>
      hturns.not_disturbed h hseeks.window hcontra.1 hcontra.2
    obtain ⟨lines, s', hrest, hwindow, hreceived, hlines⟩ :=
      ih hseeks.window fun call hcall => hcalls call (List.mem_cons_of_mem _ hcall)
    rw [(hgives s₁.received List.prefix_rfl).1] at hends
    refine ⟨_, s', hends.bind_ok (hrest.bind_ok (ends_pure _ _)), hwindow,
      hseeks.received.trans hreceived, fun stream hstream => ?_⟩
    obtain ⟨hline, hhanded⟩ := hgives stream (hreceived.trans hstream)
    have hfirst := (hgives s₁.received List.prefix_rfl).1.symm.trans hline
    rw [Except.ok.inj hfirst, hlines stream hstream, hhanded, List.length_append,
      ← List.drop_drop]
    rfl

/-- The lines that undisturbed calls return are decided by the stream. -/
theorem Window.outcome_readLines {calls : List (UInt32 × List TransportTurn)} {s : BufferedStream}
    (h : s.Window) (hcalls : ∀ call ∈ calls, Undisturbed call.2) {stream : Bytes}
    (hstream : (after (readLines calls) s).received <+: stream) :
    outcome (readLines calls) s =
      .ok (nextLines (calls.map Prod.fst) (stream.drop s.handedOut.length)) := by
  obtain ⟨lines, s', ⟨hresult, rfl⟩, -, -, hlines⟩ := h.ends_readLines calls hcalls
  rw [hresult, hlines stream hstream]

/-- On Linux a call whose reads keep to the contract returns the next line of the stream. -/
theorem Window.outcome_readLine_nix {s : BufferedStream} (h : s.Window)
    {nix : BufferProcessor ReadTurn} (halike : Alike nix s) {turns : List ReadTurn}
    {turns' : List TransportTurn} (hturns : List.Forall₂ AnswersAs turns turns')
    (hundisturbed : Undisturbed turns') {lineSize : UInt32} {stream : Bytes}
    (hstream : (after (readLine lineSize turns) nix).received <+: stream) :
    outcome (readLine lineSize turns) nix =
      .ok (nextLine lineSize (stream.drop nix.handedOut.length)) := by
  obtain ⟨houtcome, hafter⟩ := agree_readLine lineSize hturns nix s halike
  obtain ⟨result, s', ⟨hresult, rfl⟩, hseeks⟩ := h.ends_readLine lineSize turns'
  have hgives := hseeks.ends.resolve_right fun hcontra =>
    hundisturbed.not_disturbed h hseeks.window hcontra.1 hcontra.2
  rw [hafter.received] at hstream
  rw [houtcome, hresult, halike.handedOut]
  exact (hgives stream hstream).1

/-- At any time the buffer holds what has been read and not handed out, and the lines that
the next calls return are decided by the stream: two processors that have handed out the same
bytes of it return the same lines, whatever was called and read before and however the stream
is split into reads. -/
theorem lines_independent_of_splitting (memory₁ memory₂ : FixedBytes readBufferSize)
    (calls₁ calls₂ : List (BufferCall TransportTurn)) :
    let s₁ : BufferedStream := runCalls memory₁ calls₁
    let s₂ : BufferedStream := runCalls memory₂ calls₂
    s₁.Window ∧
    (∀ call : BufferCall TransportTurn, call.Meets s₁ (outcome call.perform s₁) (after call.perform s₁)) ∧
    ∀ lines₁ lines₂ stream, lines₁.map Prod.fst = lines₂.map Prod.fst →
      s₁.handedOut = s₂.handedOut →
      (∀ call ∈ lines₁, Undisturbed call.2) → (∀ call ∈ lines₂, Undisturbed call.2) →
      (after (readLines lines₁) s₁).received <+: stream →
      (after (readLines lines₂) s₂).received <+: stream →
      outcome (readLines lines₁) s₁ =
        .ok (nextLines (lines₁.map Prod.fst) (stream.drop s₁.handedOut.length)) ∧
      outcome (readLines lines₂) s₂ = outcome (readLines lines₁) s₁ := by
  intro s₁ s₂
  have h₁ : s₁.Window := window_runCalls memory₁ calls₁
  have h₂ : s₂.Window := window_runCalls memory₂ calls₂
  refine ⟨h₁, h₁.meets, ?_⟩
  intro lines₁ lines₂ stream hsizes hhanded hundisturbed₁ hundisturbed₂ hstream₁ hstream₂
  have hresult₁ := h₁.outcome_readLines hundisturbed₁ hstream₁
  have hresult₂ := h₂.outcome_readLines hundisturbed₂ hstream₂
  refine ⟨hresult₁, ?_⟩
  rw [hresult₁, hresult₂, hsizes, hhanded]

/-- Turns in which the pieces are read and then single line feeds. -/
def turnsOf (pieces : List {bytes : Bytes // bytes ≠ []}) : List TransportTurn :=
  pieces.map (fun piece => ⟨false, .ofBytes piece.1 piece.2⟩) ++
    List.replicate (readBufferSize + 1) ⟨false, .ofBytes [0x0A] (by decide)⟩

/-- Reads that succeed do not disturb a call. -/
theorem undisturbed_turnsOf (pieces : List {bytes : Bytes // bytes ≠ []}) :
    Undisturbed (turnsOf pieces) := by
  have hturn : ∀ turn ∈ turnsOf pieces, turn.terminated = false ∧
      ∀ dataSize, (turn.read.answer dataSize).code = .success := by
    intro turn hmem
    rcases List.mem_append.mp hmem with hpiece | hfeed
    · obtain ⟨piece, -, rfl⟩ := List.mem_map.mp hpiece
      exact ⟨rfl, fun _ => rfl⟩
    · rw [List.eq_of_mem_replicate hfeed]
      exact ⟨rfl, fun _ => rfl⟩
  refine ⟨?_, fun turn hmem => (hturn turn hmem).1, fun turn hmem n _ => (hturn turn hmem).2 n⟩
  rw [turnsOf, List.length_append, List.length_replicate]
  exact Nat.lt_add_left _ (Nat.lt_succ_self _)

/-- A line in two reads, the second of which goes on behind it, and in one. -/
theorem lines_independent_of_splitting_hi :
    let memory : FixedBytes readBufferSize :=
      ⟨List.replicate readBufferSize 0, List.length_replicate⟩
    outcome (readLines
      [(8, turnsOf [⟨[0x68], by decide⟩, ⟨[0x69, 0x0A, 0x21], by decide⟩])])
        (runCalls memory []) = .ok [(.success, [0x68, 0x69, 0])] ∧
    outcome (readLines [(8, turnsOf [⟨[0x68, 0x69], by decide⟩])]) (runCalls memory []) =
      .ok [(.success, [0x68, 0x69, 0])] := by
  intro memory
  have h := (lines_independent_of_splitting memory memory [] []).2.2
    [(8, turnsOf [⟨[0x68], by decide⟩, ⟨[0x69, 0x0A, 0x21], by decide⟩])]
    [(8, turnsOf [⟨[0x68, 0x69], by decide⟩])] [0x68, 0x69, 0x0A, 0x21] rfl rfl
    (List.forall_mem_singleton.mpr (undisturbed_turnsOf _))
    (List.forall_mem_singleton.mpr (undisturbed_turnsOf _))
    (by decide +kernel) (by decide +kernel)
  exact ⟨h.1.trans rfl, h.2.trans (h.1.trans rfl)⟩

end BufferedStream

end San2.Cppl
