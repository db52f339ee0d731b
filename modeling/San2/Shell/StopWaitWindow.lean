import San2.Shell.StopWaitLink

/-!
# Numbers on the link

Whatever the network does and whether or not the client goes on with the same
request after a call that failed, the two sequence numbers stay next to each
other, and so does everything in flight. This holds until the numbers wrap around.
-/

namespace San2.Shell

open Utils Network

namespace StopWaitLink

variable {σ : Type} (clientHost serverHost : ByteOrder)
  (processDatagram : UInt64 → Bytes → StateT σ Option (Bool × Bytes))

/-- The capsule is what the session of this link sends as the answer to request `seq`. -/
def IsAnswer (s : StopWaitLink σ) (seq : UInt64) (response serialized : Bytes) : Prop :=
  Carries s.tx.m_serverAddress s.tx.m_clientPort s.tx.m_serverPort seq response serialized

/-- What holds in every state, as long as the numbers have not wrapped around. -/
structure Inv (s : StopWaitLink σ) : Prop where
  clientAddress : s.rx.m_clientAddress = s.tx.m_clientAddress
  clientPort : s.rx.m_clientPort = s.tx.m_clientPort
  serverAddress : s.rx.m_serverAddress = s.tx.m_serverAddress
  serverPort : s.rx.m_serverPort = s.tx.m_serverPort
  client_pos : 1 ≤ s.tx.m_expectedSeqNum.toNat
  /-- The server is at the number of the client or one ahead. -/
  window : s.tx.m_expectedSeqNum.toNat ≤ s.rx.m_expectedSeqNum.toNat ∧
    s.rx.m_expectedSeqNum.toNat ≤ s.tx.m_expectedSeqNum.toNat + 1
  pending : ∀ call, s.call = some call → call.serializedCapsule ∈ s.requests
  requests : ∀ bytes ∈ s.requests, ∃ (seq : UInt64) (request : Bytes),
    (1 ≤ seq.toNat ∧ seq.toNat ≤ s.tx.m_expectedSeqNum.toNat) ∧
      Carries s.tx.m_clientAddress s.tx.m_serverPort s.tx.m_clientPort seq request bytes
  replies : ∀ bytes ∈ s.replies, ∃ (seq : UInt64) (response : Bytes),
    seq.toNat < s.rx.m_expectedSeqNum.toNat ∧ s.IsAnswer seq response bytes
  /-- The stored capsule was sent as the answer to the request before the expected one. -/
  last : s.rx.m_expectedSeqNum.toNat = 1 ∨ ∃ (seq : UInt64) (request response : Bytes),
    s.processed.getLast? = some (seq, request, response) ∧
      seq.toNat + 1 = s.rx.m_expectedSeqNum.toNat ∧
      s.IsAnswer seq response s.rx.m_lastSerializedCapsule ∧
      s.rx.m_lastSerializedCapsule ∈ s.replies
  /-- The requests were processed in the order of their numbers, each once. -/
  processed : s.processed.map (fun entry => entry.1.toNat) =
    List.range' 1 (s.rx.m_expectedSeqNum.toNat - 1)

/-- The invariant holds at the start. -/
theorem inv_start (repetitions : ℕ) (serverAddress : SanAddress) (serverPort : UInt16)
    (clientAddress : SanAddress) (clientPort : UInt16) (session : σ) :
    (start repetitions serverAddress serverPort clientAddress clientPort session).Inv := by
  refine ⟨rfl, rfl, rfl, rfl, ?_, ?_, ?_, ?_, ?_, Or.inl rfl, rfl⟩
  · simp [start]
  · simp [start, StopWaitRx.create]
  · rintro call ⟨⟩
  · intro bytes hbytes
    exact absurd hbytes List.not_mem_nil
  · intro bytes hbytes
    exact absurd hbytes List.not_mem_nil

variable {s s' : StopWaitLink σ}

/-- The number that the server expects counts the requests that it has processed. -/
theorem Inv.length_processed (h : s.Inv) :
    s.processed.length = s.rx.m_expectedSeqNum.toNat - 1 := by
  have hlength := congrArg List.length h.processed
  simpa using hlength

/-- A call sends a request with the number of the client. -/
theorem Inv.call (h : s.Inv) (request : Bytes) (object : CCapsule) :
    Inv { s with
      call := some ⟨request, s.tx.serializedCapsule clientHost object request,
        s.tx.m_repetitions, []⟩
      requests := s.requests ++ [s.tx.serializedCapsule clientHost object request]
      called := s.called ++ [(s.tx.m_expectedSeqNum, request)] } := by
  refine ⟨h.clientAddress, h.clientPort, h.serverAddress, h.serverPort, h.client_pos, h.window,
    ?_, ?_, h.replies, h.last, h.processed⟩
  · intro call hcall
    obtain rfl := Option.some.inj hcall
    exact List.mem_append_right _ (List.mem_singleton.mpr rfl)
  · intro bytes hbytes
    rcases List.mem_append.mp hbytes with hbytes | hbytes
    · exact h.requests bytes hbytes
    · rw [List.mem_singleton.mp hbytes]
      exact ⟨_, request, ⟨h.client_pos, le_rfl⟩, s.tx.carries clientHost object request⟩

/-- It holds after a call was given up. -/
theorem Inv.giveUp (h : s.Inv) : Inv { s with call := none } :=
  ⟨h.clientAddress, h.clientPort, h.serverAddress, h.serverPort, h.client_pos, h.window,
    by rintro call ⟨⟩, h.requests, h.replies, h.last, h.processed⟩

/-- Another try sends a capsule that was sent before. -/
theorem Inv.again (h : s.Inv) {call : PendingCall} (hcall : s.call = some call)
    (response : Bytes) :
    Inv { s with
      call := some { call with tries := call.tries - 1, response := response }
      requests := s.requests ++ [call.serializedCapsule] } := by
  have hsent := h.pending call hcall
  refine ⟨h.clientAddress, h.clientPort, h.serverAddress, h.serverPort, h.client_pos, h.window,
    ?_, ?_, h.replies, h.last, h.processed⟩
  · intro call' hcall'
    obtain rfl := Option.some.inj hcall'
    exact List.mem_append_left _ hsent
  · intro bytes hbytes
    rcases List.mem_append.mp hbytes with hbytes | hbytes
    · exact h.requests bytes hbytes
    · rw [List.mem_singleton.mp hbytes]
      exact h.requests _ hsent

/-- A reply with the number of the client completes its call. The server is past that
number, so that the client catches up with it. -/
theorem Inv.accept (h : s.Inv) (call : PendingCall) (response : Bytes)
    (hbehind : s.tx.m_expectedSeqNum.toNat < s.rx.m_expectedSeqNum.toNat) :
    Inv { s with
      tx := { s.tx with m_expectedSeqNum := s.tx.m_expectedSeqNum + 1 }
      call := none
      completed := s.completed ++ [(s.tx.m_expectedSeqNum, call.request, response)] } := by
  have hlast : s.tx.m_expectedSeqNum ≠ 0xFFFFFFFFFFFFFFFF := by
    intro heq
    have hlt := s.rx.m_expectedSeqNum.toNat_lt
    rw [heq] at hbehind
    have hmax : (0xFFFFFFFFFFFFFFFF : UInt64).toNat = 2 ^ 64 - 1 := rfl
    omega
  have hsucc := toNat_succ hlast
  have hwindow := h.window
  refine ⟨h.clientAddress, h.clientPort, h.serverAddress, h.serverPort, ?_, ?_,
    by rintro call ⟨⟩, ?_, h.replies, h.last, h.processed⟩
  · simp only [hsucc]
    omega
  · simp only [hsucc]
    omega
  · intro bytes hbytes
    obtain ⟨seq, request, hseq, hcarries⟩ := h.requests bytes hbytes
    refine ⟨seq, request, ?_, hcarries⟩
    simp only [hsucc]
    omega

/-- Whatever the wait of a try ends with, the numbers stay in the window. -/
theorem Inv.await (h : s.Inv) {call : PendingCall} (hcall : s.call = some call)
    {arrived : Option CCapsule} (sendCapsule : Bool)
    (harrived : ∀ capsule, arrived = some capsule →
      ∃ bytes ∈ s.replies, ∃ transit, deliver clientHost transit bytes = some capsule) :
    (s.afterAwait clientHost call arrived sendCapsule).Inv := by
  cases hresult : s.tx.awaitResponse clientHost call.response arrived with
  | success response =>
    cases arrived with
    | none => simp [StopWaitTx.awaitResponse, StopWaitTx.awaitDatagram] at hresult
    | some capsule =>
      obtain ⟨bytes, hbytes, transit, hdeliver⟩ := harrived capsule rfl
      obtain ⟨seq, payload, hlt, hanswer⟩ := h.replies bytes hbytes
      have hawait := hanswer.awaitResponse hdeliver call.response
      have hseq : seq = s.tx.m_expectedSeqNum := by
        by_contra hne
        rw [hawait, if_neg hne] at hresult
        exact absurd hresult (by simp)
      have haccept := h.accept call response (hseq ▸ hlt)
      simpa only [afterAwait, hresult] using haccept
  | failure response => simpa only [afterAwait, hresult] using h.giveUp
  | again response =>
    by_cases htries : call.tries ≤ 1
    · simpa only [afterAwait, hresult, htries, if_true] using h.giveUp
    · cases sendCapsule with
      | false =>
        simpa only [afterAwait, hresult, htries, if_false, Bool.false_eq_true] using h.giveUp
      | true =>
        simpa only [afterAwait, hresult, htries, if_false, if_true] using h.again hcall response

/-- The session has processed the request with the number it expects. -/
theorem Inv.process (h : s.Inv) {request response serialized : Bytes} {session : σ}
    (hclient : s.rx.m_expectedSeqNum.toNat ≤ s.tx.m_expectedSeqNum.toNat)
    (hlast : s.rx.m_expectedSeqNum ≠ 0xFFFFFFFFFFFFFFFF)
    (hanswer : s.IsAnswer s.rx.m_expectedSeqNum response serialized) :
    Inv { s with
      rx := { s.rx with
        m_expectedSeqNum := s.rx.m_expectedSeqNum + 1
        m_lastSerializedCapsule := serialized }
      session := session
      replies := s.replies ++ [serialized]
      processed := s.processed ++ [(s.rx.m_expectedSeqNum, request, response)] } := by
  have hsucc := toNat_succ hlast
  have hwindow := h.window
  have hpos := h.client_pos
  refine ⟨h.clientAddress, h.clientPort, h.serverAddress, h.serverPort, h.client_pos, ?_,
    h.pending, h.requests, ?_, ?_, ?_⟩
  · simp only [hsucc]
    omega
  · intro bytes hbytes
    simp only [hsucc]
    rcases List.mem_append.mp hbytes with hbytes | hbytes
    · obtain ⟨seq, payload, hseq, hold⟩ := h.replies bytes hbytes
      exact ⟨seq, payload, by omega, hold⟩
    · rw [List.mem_singleton.mp hbytes]
      exact ⟨_, response, by omega, hanswer⟩
  · refine Or.inr ⟨_, request, response, List.getLast?_concat, hsucc.symm, hanswer, ?_⟩
    exact List.mem_append_right _ (List.mem_singleton.mpr rfl)
  · have hnext : s.rx.m_expectedSeqNum.toNat + 1 - 1 = s.rx.m_expectedSeqNum.toNat - 1 + 1 := by
      omega
    have hnumber : 1 + (s.rx.m_expectedSeqNum.toNat - 1) = s.rx.m_expectedSeqNum.toNat := by
      omega
    simp only [List.map_append, h.processed, hsucc, hnext, List.range'_1_concat, hnumber,
      List.map_cons, List.map_nil]

/-- A stored capsule is repeated only after there is one: the client is at its first
number until the session has answered it. -/
theorem Inv.repeated (h : s.Inv) {seq : UInt64} (hpos : 1 ≤ seq.toNat)
    (hclient : seq.toNat ≤ s.tx.m_expectedSeqNum.toNat) (hne : seq ≠ s.rx.m_expectedSeqNum) :
    Inv { s with replies := s.replies ++ [s.rx.m_lastSerializedCapsule] } := by
  have hwindow := h.window
  have hnumber : seq.toNat ≠ s.rx.m_expectedSeqNum.toNat := fun heq =>
    hne (UInt64.toNat_inj.mp heq)
  rcases h.last with hfirst | ⟨previous, request, response, hlast, hprevious, hanswer, hmem⟩
  · omega
  · have hbehind : previous.toNat < s.rx.m_expectedSeqNum.toNat := by omega
    refine ⟨h.clientAddress, h.clientPort, h.serverAddress, h.serverPort, h.client_pos, h.window,
      h.pending, h.requests, ?_, ?_, h.processed⟩
    · intro bytes hbytes
      rcases List.mem_append.mp hbytes with hbytes | hbytes
      · exact h.replies bytes hbytes
      · rw [List.mem_singleton.mp hbytes]
        exact ⟨previous, response, hbehind, hanswer⟩
    · exact Or.inr ⟨previous, request, response, hlast, hprevious, hanswer,
        List.mem_append_left _ hmem⟩

/-- **Step lemma**: it holds after the session handled any of the requests in flight. -/
theorem Inv.receive (h : s.Inv) {bytes : Bytes} (hbytes : bytes ∈ s.requests)
    {transit : Transit} {capsule : CCapsule}
    (hdeliver : deliver serverHost transit bytes = some capsule) {object : CCapsule}
    {sendCapsule : Bool} {handled : Handled σ}
    (hhandled : s.rx.incommingCapsule serverHost processDatagram sendCapsule object s.session
      capsule = some handled)
    (hfew : (s.processed ++ handled.processed.toList).length + 1 < 2 ^ 64) :
    Inv { s with
      rx := handled.rx
      session := handled.session
      replies := s.replies ++ handled.sent
      processed := s.processed ++ handled.processed.toList } := by
  obtain ⟨seq, request, ⟨hpos, hclient⟩, hcarries⟩ := h.requests bytes hbytes
  rw [← h.clientAddress, ← h.clientPort] at hcarries
  simp only [StopWaitRx.incommingCapsule, hcarries.parseCapsule hdeliver] at hhandled
  by_cases hseq : seq = s.rx.m_expectedSeqNum
  · simp only [hseq, ne_eq, not_true_eq_false, if_false] at hhandled
    cases hprocess : processDatagram s.rx.m_expectedSeqNum request s.session with
    | none => simp [hprocess] at hhandled
    | some result =>
      obtain ⟨⟨ok, response⟩, session⟩ := result
      cases ok with
      | false =>
        simp only [hprocess] at hhandled
        obtain rfl := Option.some.inj hhandled
        simp only [List.append_nil, Option.toList_none]
        exact ⟨h.clientAddress, h.clientPort, h.serverAddress, h.serverPort, h.client_pos,
          h.window, h.pending, h.requests, h.replies, h.last, h.processed⟩
      | true =>
        simp only [hprocess] at hhandled
        obtain rfl := Option.some.inj hhandled
        have hlast : s.rx.m_expectedSeqNum ≠ 0xFFFFFFFFFFFFFFFF := by
          intro heq
          have hcount := h.length_processed
          have hmax : (0xFFFFFFFFFFFFFFFF : UInt64).toNat = 2 ^ 64 - 1 := rfl
          rw [heq] at hcount
          simp only [Option.toList_some, List.length_append, List.length_singleton] at hfew
          omega
        have hanswer : s.IsAnswer s.rx.m_expectedSeqNum response
            (s.rx.serializedCapsule serverHost object response) := by
          have hrx := s.rx.carries serverHost object response
          rwa [h.serverAddress, h.clientPort, h.serverPort] at hrx
        exact h.process (hseq ▸ hclient) hlast hanswer
  · simp only [hseq, ne_eq, not_false_eq_true, if_true] at hhandled
    obtain rfl := Option.some.inj hhandled
    simp only [Option.toList_none, List.append_nil]
    exact h.repeated hpos hclient hseq

/-- Processed requests are never taken back. -/
theorem step_length_processed {a : Action}
    (hstep : s.step clientHost serverHost processDatagram a = some s') :
    s.processed.length ≤ s'.processed.length := by
  cases a with
  | call request object sendCapsule =>
    simp only [StopWaitLink.step] at hstep
    split at hstep
    · cases hstep
    · split_ifs at hstep <;> (obtain rfl := Option.some.inj hstep; exact le_rfl)
  | await arrived sendCapsule =>
    have hkeep : ∀ call capsule, (s.afterAwait clientHost call capsule sendCapsule).processed =
        s.processed := by
      intro call capsule
      unfold afterAwait
      split
      · rfl
      · rfl
      · split_ifs <;> rfl
    simp only [StopWaitLink.step] at hstep
    split at hstep
    · cases hstep
    · split at hstep
      · obtain rfl := Option.some.inj hstep
        rw [hkeep]
      · split at hstep
        · cases hstep
        · obtain rfl := Option.some.inj hstep
          rw [hkeep]
  | receive index transit object sendCapsule =>
    simp only [StopWaitLink.step] at hstep
    split at hstep
    · cases hstep
    · obtain ⟨handled, -, rfl⟩ := Option.map_eq_some_iff.mp hstep
      simp

/-- A step keeps the invariant until the last number is processed. -/
theorem Inv.step (h : s.Inv) {a : Action} (hfew : s'.processed.length + 1 < 2 ^ 64)
    (hstep : s.step clientHost serverHost processDatagram a = some s') : s'.Inv := by
  cases a with
  | call request object sendCapsule =>
    cases hcall : s.call with
    | some call => simp [StopWaitLink.step, hcall] at hstep
    | none =>
      simp only [StopWaitLink.step, hcall] at hstep
      split_ifs at hstep
      · obtain rfl := Option.some.inj hstep
        exact h
      · obtain rfl := Option.some.inj hstep
        exact h.call clientHost request object
      · obtain rfl := Option.some.inj hstep
        exact h
  | await arrived sendCapsule =>
    cases hcall : s.call with
    | none => simp [StopWaitLink.step, hcall] at hstep
    | some call =>
      simp only [StopWaitLink.step, hcall] at hstep
      cases arrived with
      | none =>
        obtain rfl := Option.some.inj hstep
        exact h.await clientHost hcall sendCapsule (by rintro capsule ⟨⟩)
      | some delivery =>
        obtain ⟨index, transit⟩ := delivery
        cases hdeliver : s.replies[index]?.bind (deliver clientHost transit) with
        | none => simp [hdeliver] at hstep
        | some capsule =>
          simp only [hdeliver] at hstep
          obtain rfl := Option.some.inj hstep
          obtain ⟨bytes, hbytes, hdeliver⟩ := Option.bind_eq_some_iff.mp hdeliver
          refine h.await clientHost hcall sendCapsule ?_
          rintro capsule' ⟨⟩
          exact ⟨bytes, List.mem_of_getElem? hbytes, transit, hdeliver⟩
  | receive index transit object sendCapsule =>
    simp only [StopWaitLink.step] at hstep
    cases hdeliver : s.requests[index]?.bind (deliver serverHost transit) with
    | none => simp [hdeliver] at hstep
    | some capsule =>
      simp only [hdeliver, Option.map_eq_some_iff] at hstep
      obtain ⟨handled, hhandled, rfl⟩ := hstep
      obtain ⟨bytes, hbytes, hdeliver⟩ := Option.bind_eq_some_iff.mp hdeliver
      exact h.receive serverHost processDatagram (List.mem_of_getElem? hbytes) hdeliver hhandled
        hfew

/-- The invariant holds in every state reached with fewer than 2^64 - 1 processed
requests, since there were not more of them in any state before. -/
theorem inv_of_run {repetitions : ℕ} {serverAddress : SanAddress} {serverPort : UInt16}
    {clientAddress : SanAddress} {clientPort : UInt16} {session : σ} {actions : List Action}
    (hrun : Execution.run (step clientHost serverHost processDatagram)
      (start repetitions serverAddress serverPort clientAddress clientPort session) actions =
        some s)
    (hfew : s.processed.length + 1 < 2 ^ 64) : s.Inv := by
  refine Execution.run_preserves (fun s => s.processed.length + 1 < 2 ^ 64 → s.Inv) ?_ ?_ hrun hfew
  · intro s a s' h hstep hfew
    have hgrow := step_length_processed clientHost serverHost processDatagram hstep
    exact (h (by omega)).step clientHost serverHost processDatagram hfew hstep
  · intro _
    exact inv_start repetitions serverAddress serverPort clientAddress clientPort session

/-- What the two ends can rely on in every state of the link. -/
structure Numbered (s : StopWaitLink σ) : Prop where
  /-- The server is at the number of the client or one ahead. -/
  window : s.rx.m_expectedSeqNum = s.tx.m_expectedSeqNum ∨
    s.rx.m_expectedSeqNum.toNat = s.tx.m_expectedSeqNum.toNat + 1
  /-- The session reads a number that is at most the client's from every request in flight. -/
  requests : ∀ bytes ∈ s.requests, ∀ host transit, ∃ capsule seq request,
    deliver host transit bytes = some capsule ∧
      s.rx.parseCapsule host capsule = some (seq, request) ∧ seq ≤ s.tx.m_expectedSeqNum
  /-- The client reads a number below the server's from every response in flight. -/
  replies : ∀ bytes ∈ s.replies, ∃ seq response,
    Carries s.tx.m_serverAddress s.tx.m_clientPort s.tx.m_serverPort seq response bytes ∧
      seq < s.rx.m_expectedSeqNum
  /-- The numbers of the processed requests are 1, 2, 3 and so on. -/
  processed : s.processed.map (fun entry => entry.1.toNat) = List.range' 1 s.processed.length
  /-- A capsule of the client with another number is answered with the stored capsule. -/
  repeats : ∀ host processDatagram sendCapsule object rxcapsule seq request,
    s.rx.parseCapsule host rxcapsule = some (seq, request) → seq ≠ s.rx.m_expectedSeqNum →
      s.rx.incommingCapsule host processDatagram sendCapsule object s.session rxcapsule =
        some ⟨true, s.rx, s.session, [s.rx.m_lastSerializedCapsule], none⟩
  /-- The stored capsule was sent before, for the request that was processed last. -/
  last : s.processed ≠ [] → s.rx.m_lastSerializedCapsule ∈ s.replies ∧
    ∃ seq request response, s.processed.getLast? = some (seq, request, response) ∧
      Carries s.tx.m_serverAddress s.tx.m_clientPort s.tx.m_serverPort seq response
        s.rx.m_lastSerializedCapsule

/-- The invariant implies that the requests are numbered without gap. -/
theorem Inv.numbered (h : s.Inv) : s.Numbered := by
  have hwindow := h.window
  refine ⟨?_, ?_, ?_, ?_, ?_, ?_⟩
  · by_cases heq : s.rx.m_expectedSeqNum.toNat = s.tx.m_expectedSeqNum.toNat
    · exact Or.inl (UInt64.toNat_inj.mp heq)
    · exact Or.inr (by omega)
  · intro bytes hbytes host transit
    obtain ⟨seq, request, ⟨-, hseq⟩, hcarries⟩ := h.requests bytes hbytes
    obtain ⟨capsule, hdeliver, -⟩ := hcarries host transit
    rw [← h.clientAddress, ← h.clientPort] at hcarries
    exact ⟨capsule, seq, request, hdeliver, hcarries.parseCapsule hdeliver, hseq⟩
  · intro bytes hbytes
    obtain ⟨seq, response, hseq, hanswer⟩ := h.replies bytes hbytes
    exact ⟨seq, response, hanswer, hseq⟩
  · rw [h.processed, h.length_processed]
  · intro host processDatagram sendCapsule object rxcapsule seq request hparse hne
    simp only [StopWaitRx.incommingCapsule, hparse, ne_eq, hne, not_false_eq_true, if_true]
  · intro hprocessed
    rcases h.last with hfirst | ⟨seq, request, response, hlast, -, hanswer, hmem⟩
    · have hnone : s.processed.length = 0 := by
        rw [h.length_processed]
        omega
      exact absurd (List.eq_nil_of_length_eq_zero hnone) hprocessed
    · exact ⟨hmem, seq, request, response, hlast, hanswer⟩

/-- Whatever the network, the connectors and the session do, and whatever the client
sends after a call that failed: the numbers of both ends and of everything in flight
stay in order in every state in which fewer than 2^64 - 1 requests were processed. -/
theorem expectedSeqNum_window (repetitions : ℕ) (serverAddress : SanAddress)
    (serverPort : UInt16) (clientAddress : SanAddress) (clientPort : UInt16) (session : σ)
    (actions : List Action)
    (hrun : Execution.run (step clientHost serverHost processDatagram)
      (start repetitions serverAddress serverPort clientAddress clientPort session) actions =
        some s)
    (hfew : s.processed.length + 1 < 2 ^ 64) : s.Numbered :=
  (inv_of_run clientHost serverHost processDatagram hrun hfew).numbered

/-- A request is sent, processed and answered, and a late copy of it is answered again. -/
theorem expectedSeqNum_window_echo :
    ∃ s, Execution.run (step .littleEndian .littleEndian echo) echoLink
        [.call [65] clearedCapsule true, .receive 0 ⟨clearedCapsule, 1⟩ clearedCapsule true,
          .await (some (0, ⟨clearedCapsule, 1⟩)) true,
          .receive 0 ⟨clearedCapsule, 1⟩ clearedCapsule true] = some s ∧
      s.replies.length = 2 ∧ s.Numbered := by
  refine ⟨_, rfl, rfl, expectedSeqNum_window .littleEndian .littleEndian echo 1
    (FixedBytes.replicate 32 1) 80 (FixedBytes.replicate 32 2) 4000 ()
    [.call [65] clearedCapsule true, .receive 0 ⟨clearedCapsule, 1⟩ clearedCapsule true,
      .await (some (0, ⟨clearedCapsule, 1⟩)) true,
      .receive 0 ⟨clearedCapsule, 1⟩ clearedCapsule true] rfl ?_⟩
  decide

/-- A call whose request is the `index`-th capsule on the way, and whose response is the
`index`-th capsule on the way back. -/
def exchange (index : ℕ) : List Action :=
  [.call [65] clearedCapsule true, .receive index ⟨clearedCapsule, 1⟩ clearedCapsule true,
    .await (some (index, ⟨clearedCapsule, 1⟩)) true]

/-- So many calls, one after the other, each of them answered. -/
def exchanges : ℕ → List Action
  | 0 => []
  | n + 1 => exchanges n ++ exchange n

/-- The link between two calls, when so many calls were answered. -/
structure Exchanged (n : ℕ) (s : StopWaitLink Unit) : Prop where
  repetitions : s.tx.m_repetitions ≠ 0
  clientAddress : s.rx.m_clientAddress = s.tx.m_clientAddress
  clientPort : s.rx.m_clientPort = s.tx.m_clientPort
  serverAddress : s.rx.m_serverAddress = s.tx.m_serverAddress
  serverPort : s.rx.m_serverPort = s.tx.m_serverPort
  client : s.tx.m_expectedSeqNum = UInt64.ofNat (n + 1)
  server : s.rx.m_expectedSeqNum = UInt64.ofNat (n + 1)
  call : s.call = none
  requests : s.requests.length = n
  replies : s.replies.length = n
  called : s.called.length = n
  processed : s.processed.length = n

/-- The link with the request of a call on the way. -/
def requested (s : StopWaitLink Unit) : StopWaitLink Unit :=
  let serializedCapsule := s.tx.serializedCapsule .littleEndian clearedCapsule [65]
  { s with
    call := some ⟨[65], serializedCapsule, s.tx.m_repetitions, []⟩
    requests := s.requests ++ [serializedCapsule]
    called := s.called ++ [(s.tx.m_expectedSeqNum, [65])] }

/-- The link with the response on the way back. -/
def echoed (s : StopWaitLink Unit) : StopWaitLink Unit :=
  let serializedCapsule := s.rx.serializedCapsule .littleEndian clearedCapsule [65]
  { s with
    rx := { s.rx with
      m_expectedSeqNum := s.rx.m_expectedSeqNum + 1
      m_lastSerializedCapsule := serializedCapsule }
    replies := s.replies ++ [serializedCapsule]
    processed := s.processed ++ [(s.rx.m_expectedSeqNum, [65], [65])] }

/-- The link after the call. -/
def answered (s : StopWaitLink Unit) : StopWaitLink Unit :=
  { s with
    tx := { s.tx with m_expectedSeqNum := s.tx.m_expectedSeqNum + 1 }
    call := none
    completed := s.completed ++ [(s.tx.m_expectedSeqNum, [65], [65])] }

/-- One more call from such a state sends its request. -/
theorem Exchanged.requested {n : ℕ} {s : StopWaitLink Unit} (h : Exchanged n s) :
    s.step .littleEndian .littleEndian echo (.call [65] clearedCapsule true) =
      some s.requested := by
  simp only [step, h.call, h.repetitions, if_false, if_true]
  rfl

/-- The session echoes the request of that call. -/
theorem Exchanged.echoed {n : ℕ} {s : StopWaitLink Unit} (h : Exchanged n s) :
    s.requested.step .littleEndian .littleEndian echo
      (.receive n ⟨clearedCapsule, 1⟩ clearedCapsule true) = some s.requested.echoed := by
  have hnumber : s.rx.m_expectedSeqNum = s.tx.m_expectedSeqNum := h.server.trans h.client.symm
  have hrequest := s.tx.carries .littleEndian clearedCapsule [65]
  obtain ⟨capsule, hdeliver, -⟩ := hrequest .littleEndian ⟨clearedCapsule, 1⟩
  rw [← h.clientAddress, ← h.clientPort, ← hnumber] at hrequest
  have hparse := hrequest.parseCapsule hdeliver
  have hsent : s.requested.requests[n]? =
      some (s.tx.serializedCapsule .littleEndian clearedCapsule [65]) := by
    rw [← h.requests]
    exact List.getElem?_concat_length
  have hhandled : s.rx.incommingCapsule .littleEndian echo true clearedCapsule s.session capsule =
      some ⟨true, s.requested.echoed.rx, s.session,
        [s.rx.serializedCapsule .littleEndian clearedCapsule [65]],
        some (s.rx.m_expectedSeqNum, [65], [65])⟩ := by
    simp only [StopWaitRx.incommingCapsule, hparse, ne_eq, not_true_eq_false, if_false]
    rfl
  have hrx : s.requested.rx = s.rx := rfl
  have hsession : s.requested.session = s.session := rfl
  simp only [step, hsent, Option.bind_some, hdeliver, hrx, hsession, hhandled, Option.map_some]
  rfl

/-- The client accepts the echo. -/
theorem Exchanged.answered {n : ℕ} {s : StopWaitLink Unit} (h : Exchanged n s) :
    s.requested.echoed.step .littleEndian .littleEndian echo
      (.await (some (n, ⟨clearedCapsule, 1⟩)) true) = some s.requested.echoed.answered := by
  have hnumber : s.rx.m_expectedSeqNum = s.tx.m_expectedSeqNum := h.server.trans h.client.symm
  have hresponse := s.rx.carries .littleEndian clearedCapsule [65]
  obtain ⟨reply, hreply, -⟩ := hresponse .littleEndian ⟨clearedCapsule, 1⟩
  rw [h.serverAddress, h.clientPort, h.serverPort, hnumber] at hresponse
  have hresult := hresponse.awaitResponse hreply []
  rw [if_pos rfl] at hresult
  have hsent : s.requested.echoed.replies[n]? =
      some (s.rx.serializedCapsule .littleEndian clearedCapsule [65]) := by
    rw [← h.replies]
    exact List.getElem?_concat_length
  have htx : s.requested.echoed.tx = s.tx := rfl
  have hcall : s.requested.echoed.call =
      some ⟨[65], s.tx.serializedCapsule .littleEndian clearedCapsule [65],
        s.tx.m_repetitions, []⟩ := rfl
  simp only [step, hcall, hsent, Option.bind_some, hreply, afterAwait, htx, hresult]
  rfl

/-- One more call is answered, also when the number wraps around. -/
theorem Exchanged.exchange {n : ℕ} {s : StopWaitLink Unit} (h : Exchanged n s) :
    ∃ s', Execution.run (step .littleEndian .littleEndian echo) s (exchange n) = some s' ∧
      Exchanged (n + 1) s' := by
  have hnext : UInt64.ofNat (n + 1) + 1 = UInt64.ofNat (n + 1 + 1) := by
    rw [UInt64.ofNat_add (n + 1) 1]
    rfl
  refine ⟨s.requested.echoed.answered, (Execution.run_cons_eq_some _).mpr ⟨_, h.requested,
    (Execution.run_cons_eq_some _).mpr ⟨_, h.echoed, Execution.run_single h.answered⟩⟩, ?_⟩
  refine ⟨h.repetitions, h.clientAddress, h.clientPort, h.serverAddress, h.serverPort, ?_, ?_, rfl,
    ?_, ?_, ?_, ?_⟩
  · simp only [StopWaitLink.answered, StopWaitLink.echoed, StopWaitLink.requested, h.client, hnext]
  · simp only [StopWaitLink.answered, StopWaitLink.echoed, StopWaitLink.requested, h.server, hnext]
  · simp [StopWaitLink.answered, StopWaitLink.echoed, StopWaitLink.requested, h.requests]
  · simp [StopWaitLink.answered, StopWaitLink.echoed, StopWaitLink.requested, h.replies]
  · simp [StopWaitLink.answered, StopWaitLink.echoed, StopWaitLink.requested, h.called]
  · simp [StopWaitLink.answered, StopWaitLink.echoed, StopWaitLink.requested, h.processed]

/-- Any number of calls can be answered. -/
theorem run_exchanges (n : ℕ) :
    ∃ s, Execution.run (step .littleEndian .littleEndian echo) echoLink (exchanges n) = some s ∧
      Exchanged n s := by
  induction n with
  | zero =>
    refine ⟨echoLink, rfl, ?_, rfl, rfl, rfl, rfl, rfl, rfl, rfl, rfl, rfl, rfl, rfl⟩
    decide
  | succ n ih =>
    obtain ⟨s, hrun, h⟩ := ih
    obtain ⟨s', hlast, h'⟩ := h.exchange
    exact ⟨s', (Execution.run_append_eq_some _).mpr ⟨s, hrun, hlast⟩, h'⟩

/-- The answer to the last of 2^64 - 1 calls wraps the number of the server around to
zero, and no answer in flight has a number below it. -/
theorem expectedSeqNum_window_wrapped :
    ∃ s, Execution.run (step .littleEndian .littleEndian echo) echoLink
        (exchanges (2 ^ 64 - 1)) = some s ∧
      s.called.length < 2 ^ 64 ∧ s.processed.length < 2 ^ 64 ∧ s.rx.m_expectedSeqNum = 0 ∧
      ¬ s.Numbered := by
  obtain ⟨s, hrun, h⟩ := run_exchanges (2 ^ 64 - 1)
  have hzero : s.rx.m_expectedSeqNum = 0 := by
    rw [h.server]
    rfl
  have hcalled := h.called
  have hprocessed := h.processed
  have hreplies := h.replies
  refine ⟨s, hrun, by omega, by omega, hzero, fun hnumbered => ?_⟩
  cases hcases : s.replies with
  | nil =>
    rw [hcases, List.length_nil] at hreplies
    omega
  | cons bytes rest =>
    obtain ⟨seq, response, -, hlt⟩ := hnumbered.replies bytes (hcases ▸ List.mem_cons_self)
    rw [hzero, UInt64.lt_iff_toNat_lt] at hlt
    exact absurd hlt (Nat.not_lt_zero _)

end StopWaitLink

end San2.Shell
