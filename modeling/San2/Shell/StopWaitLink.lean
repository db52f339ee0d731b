import San2.Library.StopAndWait
import San2.Shell.StopWait

/-!
# One client and its session over a network

The network delivers capsules that were sent before, at any time, in any order
and any number of times, or not at all. A step is one try of a client call or
one capsule handled by the session. The link refines the stop-and-wait protocol
on numbers, requests and responses as long as the client, after a call that
failed, goes on with the same request.
-/

namespace San2.Shell

open Utils Network

/-- A call of `sendReliableMessage` that waits for a reply. -/
structure PendingCall where
  request : Bytes
  serializedCapsule : Bytes
  tries : ℕ
  response : Bytes
  deriving DecidableEq

/-- Both ends, every capsule that they have sent, and a record of what happened. -/
structure StopWaitLink (σ : Type) where
  tx : StopWaitTx
  call : Option PendingCall
  rx : StopWaitRx
  /-- What `processDatagram` of the session works on. -/
  session : σ
  requests : List Bytes
  replies : List Bytes
  /-- The requests that calls have sent, with their sequence numbers. -/
  called : List (UInt64 × Bytes)
  /-- The successful calls of `processDatagram`. -/
  processed : List (UInt64 × Bytes × Bytes)
  /-- The calls of `sendReliableMessage` that have returned true. -/
  completed : List (UInt64 × Bytes × Bytes)

namespace StopWaitLink

/-- What can happen: the client calls or its wait ends, or the session handles a request. -/
inductive Action
  /-- A call of `sendReliableMessage` up to its first wait. -/
  | call (request : Bytes) (object : CCapsule) (sendCapsule : Bool)
  /-- The wait of a try ends without a capsule or with one of the replies; should
  there be another try, the connector accepts its capsule or not. -/
  | await (arrived : Option (ℕ × Transit)) (sendCapsule : Bool)
  /-- The session handles one of the requests. -/
  | receive (index : ℕ) (transit : Transit) (object : CCapsule) (sendCapsule : Bool)

/-- What the client does when a wait has ended. -/
def afterAwait {σ : Type} (host : ByteOrder) (s : StopWaitLink σ) (call : PendingCall)
    (arrived : Option CCapsule) (sendCapsule : Bool) : StopWaitLink σ :=
  match s.tx.awaitResponse host call.response arrived with
  | .success response => { s with
      tx := { s.tx with m_expectedSeqNum := s.tx.m_expectedSeqNum + 1 }
      call := none
      completed := s.completed ++ [(s.tx.m_expectedSeqNum, call.request, response)] }
  | .failure _ => { s with call := none }
  | .again response =>
    if call.tries ≤ 1 then { s with call := none }
    else if sendCapsule then { s with
      call := some { call with tries := call.tries - 1, response := response }
      requests := s.requests ++ [call.serializedCapsule] }
    else { s with call := none }

variable {σ : Type} (clientHost serverHost : ByteOrder)
  (processDatagram : UInt64 → Bytes → StateT σ Option (Bool × Bytes))

/-- One action; absent where it is not possible in the state. -/
def step (s : StopWaitLink σ) : Action → Option (StopWaitLink σ)
  | .call request object sendCapsule =>
    match s.call with
    | some _ => none
    | none =>
      let serializedCapsule := s.tx.serializedCapsule clientHost object request
      if s.tx.m_repetitions = 0 then some s
      else if sendCapsule then some { s with
        call := some ⟨request, serializedCapsule, s.tx.m_repetitions, []⟩
        requests := s.requests ++ [serializedCapsule]
        called := s.called ++ [(s.tx.m_expectedSeqNum, request)] }
      else some s
  | .await arrived sendCapsule =>
    match s.call with
    | none => none
    | some call =>
      match arrived with
      | none => some (s.afterAwait clientHost call none sendCapsule)
      | some (index, transit) =>
        match s.replies[index]?.bind (deliver clientHost transit) with
        | none => none
        | some capsule => some (s.afterAwait clientHost call (some capsule) sendCapsule)
  | .receive index transit object sendCapsule =>
    match s.requests[index]?.bind (deliver serverHost transit) with
    | none => none
    | some capsule =>
      (s.rx.incommingCapsule serverHost processDatagram sendCapsule object s.session capsule).map
        fun handled => { s with
          rx := handled.rx
          session := handled.session
          replies := s.replies ++ handled.sent
          processed := s.processed ++ handled.processed.toList }

/-- A client and the session that serves its address and port, both new. -/
def start (repetitions : ℕ) (serverAddress : SanAddress) (serverPort : UInt16)
    (clientAddress : SanAddress) (clientPort : UInt16) (session : σ) : StopWaitLink σ where
  tx := ⟨repetitions, serverAddress, serverPort, clientAddress, clientPort, 1⟩
  call := none
  rx := .create serverAddress serverPort clientAddress clientPort
  session := session
  requests := []
  replies := []
  called := []
  processed := []
  completed := []

/-- A call that goes on with the request that was sent under its sequence number
before, if there was one; and the number is not the last. -/
def SameRequest (s : StopWaitLink σ) : Action → Prop
  | .call request _ _ => s.tx.m_expectedSeqNum ≠ 0xFFFFFFFFFFFFFFFF ∧
      ∀ request', (s.tx.m_expectedSeqNum, request') ∈ s.called → request' = request
  | _ => True

/-- What a client may rely on: a request whose call has returned true was processed
exactly once, with the response that the call has returned. -/
def ExactlyOnce (s : StopWaitLink σ) : Prop :=
  ∀ seq request response, (seq, request, response) ∈ s.completed →
    s.processed.filter (fun entry => entry.1 = seq) = [(seq, request, response)]

/-- A capsule that the session has sent: the initial empty one, or one that
carries a reply of the protocol. -/
def IsReply (s : StopWaitLink σ) (t : StopAndWait.State Bytes Bytes) (bytes : Bytes) : Prop :=
  bytes = [] ∨ ∃ (seq : UInt64) (response : Bytes), (seq.toNat, response) ∈ t.replies ∧
    Carries s.tx.m_serverAddress s.tx.m_clientPort s.tx.m_serverPort seq response bytes

/-- A state of the link and a state of the protocol that it implements. -/
structure Refines (s : StopWaitLink σ) (t : StopAndWait.State Bytes Bytes) : Prop where
  clientAddress : s.rx.m_clientAddress = s.tx.m_clientAddress
  clientPort : s.rx.m_clientPort = s.tx.m_clientPort
  serverAddress : s.rx.m_serverAddress = s.tx.m_serverAddress
  serverPort : s.rx.m_serverPort = s.tx.m_serverPort
  clientSeq : t.clientSeq = s.tx.m_expectedSeqNum.toNat
  serverSeq : t.serverSeq = s.rx.m_expectedSeqNum.toNat
  current : t.current = s.call.map PendingCall.request
  called : t.requests = s.called.map fun entry => (entry.1.toNat, entry.2)
  /-- The last sequence number is not used. -/
  called_ne : ∀ entry ∈ s.called, entry.1 ≠ 0xFFFFFFFFFFFFFFFF
  pending : ∀ call, s.call = some call → call.serializedCapsule ∈ s.requests ∧
    s.tx.m_expectedSeqNum ≠ 0xFFFFFFFFFFFFFFFF
  requests : ∀ bytes ∈ s.requests, ∃ seq request, (seq, request) ∈ s.called ∧
    Carries s.tx.m_clientAddress s.tx.m_serverPort s.tx.m_clientPort seq request bytes
  last : s.IsReply t s.rx.m_lastSerializedCapsule
  replies : ∀ bytes ∈ s.replies, s.IsReply t bytes
  processed : t.processed = s.processed.map fun entry => (entry.1.toNat, entry.2)
  completed : t.completed = s.completed.map fun entry => (entry.1.toNat, entry.2)

/-- At the start the link refines the start of the abstract protocol. -/
theorem refines_start (repetitions : ℕ) (serverAddress : SanAddress) (serverPort : UInt16)
    (clientAddress : SanAddress) (clientPort : UInt16) (session : σ) :
    (start repetitions serverAddress serverPort clientAddress clientPort session).Refines
      StopAndWait.start := by
  refine ⟨rfl, rfl, rfl, rfl, rfl, rfl, rfl, rfl, ?_, ?_, ?_, Or.inl rfl, ?_, rfl, rfl⟩
  · intro entry hentry
    exact absurd hentry List.not_mem_nil
  · rintro call ⟨⟩
  · intro bytes hbytes
    exact absurd hbytes List.not_mem_nil
  · intro bytes hbytes
    exact absurd hbytes List.not_mem_nil

/-- A capsule that carries no bytes cannot be unpacked. -/
theorem deliver_nil (host : ByteOrder) (transit : Transit) : deliver host transit [] = none := by
  have hshort : ([] : Bytes).length < CCapsule.headerSize := by decide
  simp [deliver, CCapsule.unpack_of_lt hshort]

variable {s s' : StopWaitLink σ} {t : StopAndWait.State Bytes Bytes}

/-- A new call sends a request of the protocol. -/
theorem Refines.call (h : s.Refines t) {request : Bytes} (object : CCapsule)
    (hsame : s.SameRequest (.call request object true)) :
    StopAndWait.Faithful t (.send request) ∧
      Refines { s with
        call := some ⟨request, s.tx.serializedCapsule clientHost object request,
          s.tx.m_repetitions, []⟩
        requests := s.requests ++ [s.tx.serializedCapsule clientHost object request]
        called := s.called ++ [(s.tx.m_expectedSeqNum, request)] }
      { t with
        current := some request
        requests := t.requests ++ [(t.clientSeq, request)] } := by
  obtain ⟨hlast, hsame⟩ := hsame
  constructor
  · intro request' hmem
    rw [h.called, List.mem_map] at hmem
    obtain ⟨⟨seq, request''⟩, hentry, heq⟩ := hmem
    obtain ⟨hseq, rfl⟩ := Prod.mk.inj heq
    obtain rfl : seq = s.tx.m_expectedSeqNum := UInt64.toNat_inj.mp (hseq.trans h.clientSeq)
    exact hsame request'' hentry
  · refine ⟨h.clientAddress, h.clientPort, h.serverAddress, h.serverPort, h.clientSeq,
      h.serverSeq, rfl, ?_, ?_, ?_, ?_, h.last, h.replies, h.processed, h.completed⟩
    · simp [h.called, h.clientSeq]
    · intro entry hentry
      rcases List.mem_append.mp hentry with hentry | hentry
      · exact h.called_ne entry hentry
      · rwa [List.mem_singleton.mp hentry]
    · intro call hcall
      obtain rfl := Option.some.inj hcall
      exact ⟨List.mem_append_right _ (List.mem_singleton.mpr rfl), hlast⟩
    · intro bytes hbytes
      rcases List.mem_append.mp hbytes with hbytes | hbytes
      · obtain ⟨seq, request', hmem, hcarries⟩ := h.requests bytes hbytes
        exact ⟨seq, request', List.mem_append_left _ hmem, hcarries⟩
      · rw [List.mem_singleton.mp hbytes]
        exact ⟨_, request, List.mem_append_right _ (List.mem_singleton.mpr rfl),
          s.tx.carries clientHost object request⟩

/-- The end of a call without a reply. -/
theorem Refines.giveUp (h : s.Refines t) :
    Refines { s with call := none } { t with current := none } :=
  ⟨h.clientAddress, h.clientPort, h.serverAddress, h.serverPort, h.clientSeq, h.serverSeq, rfl,
    h.called, h.called_ne, by rintro call ⟨⟩, h.requests, h.last, h.replies, h.processed,
    h.completed⟩

/-- Another try sends a capsule that was sent before. -/
theorem Refines.again (h : s.Refines t) {call : PendingCall} (hcall : s.call = some call)
    (response : Bytes) :
    Refines { s with
      call := some { call with tries := call.tries - 1, response := response }
      requests := s.requests ++ [call.serializedCapsule] } t := by
  obtain ⟨hsent, hlast⟩ := h.pending call hcall
  refine ⟨h.clientAddress, h.clientPort, h.serverAddress, h.serverPort, h.clientSeq, h.serverSeq,
    ?_, h.called, h.called_ne, ?_, ?_, h.last, h.replies, h.processed, h.completed⟩
  · rw [h.current, hcall]
    rfl
  · intro call' hcall'
    obtain rfl := Option.some.inj hcall'
    exact ⟨List.mem_append_left _ hsent, hlast⟩
  · intro bytes hbytes
    rcases List.mem_append.mp hbytes with hbytes | hbytes
    · exact h.requests bytes hbytes
    · rw [List.mem_singleton.mp hbytes]
      exact h.requests _ hsent

/-- A reply with the sequence number of the call completes it. -/
theorem Refines.accept (h : s.Refines t) {call : PendingCall} (hcall : s.call = some call)
    (response : Bytes) :
    Refines { s with
      tx := { s.tx with m_expectedSeqNum := s.tx.m_expectedSeqNum + 1 }
      call := none
      completed := s.completed ++ [(s.tx.m_expectedSeqNum, call.request, response)] }
    { t with
      clientSeq := t.clientSeq + 1
      current := none
      completed := t.completed ++ [(t.clientSeq, call.request, response)] } := by
  obtain ⟨-, hlast⟩ := h.pending call hcall
  refine ⟨h.clientAddress, h.clientPort, h.serverAddress, h.serverPort, ?_, h.serverSeq, rfl,
    h.called, h.called_ne, by rintro call ⟨⟩, h.requests, h.last, h.replies, h.processed, ?_⟩
  · rw [h.clientSeq, toNat_succ hlast]
  · simp [h.completed, h.clientSeq]

/-- Whatever the wait of a try ends with, the protocol does at most one step. -/
theorem Refines.await (h : s.Refines t) {call : PendingCall} (hcall : s.call = some call)
    {arrived : Option CCapsule} (sendCapsule : Bool)
    (harrived : ∀ capsule, arrived = some capsule →
      ∃ bytes ∈ s.replies, ∃ transit, deliver clientHost transit bytes = some capsule) :
    ∃ actions t', Execution.run StopAndWait.step t actions = some t' ∧
      Execution.Meets StopAndWait.step StopAndWait.Faithful t actions ∧
      (s.afterAwait clientHost call arrived sendCapsule).Refines t' := by
  have hcurrent : t.current = some call.request := by
    rw [h.current, hcall]
    rfl
  have hgiveUp : Execution.run StopAndWait.step t [.giveUp] = some { t with current := none } :=
    Execution.run_single rfl
  have hfree : Execution.Meets StopAndWait.step StopAndWait.Faithful t [.giveUp] :=
    Execution.meets_single trivial
  cases hresult : s.tx.awaitResponse clientHost call.response arrived with
  | success response =>
    -- Only a reply of the protocol can succeed.
    cases arrived with
    | none => simp [StopWaitTx.awaitResponse, StopWaitTx.awaitDatagram] at hresult
    | some capsule =>
      obtain ⟨bytes, hbytes, transit, hdeliver⟩ := harrived capsule rfl
      rcases h.replies bytes hbytes with rfl | ⟨seq, payload, hreply, hcarries⟩
      · rw [deliver_nil] at hdeliver
        exact absurd hdeliver (by simp)
      · rw [hcarries.awaitResponse hdeliver] at hresult
        by_cases hseq : seq = s.tx.m_expectedSeqNum
        · rw [if_pos hseq] at hresult
          obtain rfl := TryResult.success.inj hresult
          have hclient : seq.toNat = t.clientSeq := by rw [h.clientSeq, hseq]
          rw [hclient] at hreply
          have hstep : StopAndWait.step t (.accept t.clientSeq payload) = some { t with
              clientSeq := t.clientSeq + 1
              current := none
              completed := t.completed ++ [(t.clientSeq, call.request, payload)] } := by
            simp only [StopAndWait.step, hcurrent, hreply, and_self, if_true]
          have haccept := h.accept hcall payload
          refine ⟨[.accept t.clientSeq payload], _, Execution.run_single hstep,
            Execution.meets_single trivial, ?_⟩
          have hafter : s.tx.awaitResponse clientHost call.response (some capsule) =
              .success payload := by
            rw [hcarries.awaitResponse hdeliver, if_pos hseq]
          simpa only [afterAwait, hafter] using haccept
        · rw [if_neg hseq] at hresult
          exact absurd hresult (by simp)
  | failure response =>
    refine ⟨[.giveUp], _, hgiveUp, hfree, ?_⟩
    simpa only [afterAwait, hresult] using h.giveUp
  | again response =>
    by_cases htries : call.tries ≤ 1
    · refine ⟨[.giveUp], _, hgiveUp, hfree, ?_⟩
      simpa only [afterAwait, hresult, htries, if_true] using h.giveUp
    · cases sendCapsule with
      | false =>
        refine ⟨[.giveUp], _, hgiveUp, hfree, ?_⟩
        simpa only [afterAwait, hresult, htries, if_false, Bool.false_eq_true] using h.giveUp
      | true =>
        refine ⟨[], t, rfl, trivial, ?_⟩
        simpa only [afterAwait, hresult, htries, if_false, if_true] using h.again hcall response

/-- The session has processed the request with the number it expects. -/
theorem Refines.process (h : s.Refines t) {request response serialized : Bytes} {session : σ}
    (hlast : s.rx.m_expectedSeqNum ≠ 0xFFFFFFFFFFFFFFFF)
    (hcarries : Carries s.tx.m_serverAddress s.tx.m_clientPort s.tx.m_serverPort
      s.rx.m_expectedSeqNum response serialized) :
    Refines { s with
      rx := { s.rx with
        m_expectedSeqNum := s.rx.m_expectedSeqNum + 1
        m_lastSerializedCapsule := serialized }
      session := session
      replies := s.replies ++ [serialized]
      processed := s.processed ++ [(s.rx.m_expectedSeqNum, request, response)] }
    { t with
      serverSeq := t.serverSeq + 1
      replies := t.replies ++ [(t.serverSeq, response)]
      processed := t.processed ++ [(t.serverSeq, request, response)] } := by
  have hnew : (s.rx.m_expectedSeqNum.toNat, response) ∈
      t.replies ++ [(t.serverSeq, response)] := by
    rw [h.serverSeq]
    exact List.mem_append_right _ (List.mem_singleton.mpr rfl)
  have hold : ∀ bytes, s.IsReply t bytes → bytes = [] ∨ ∃ (seq : UInt64) (payload : Bytes),
      (seq.toNat, payload) ∈ t.replies ++ [(t.serverSeq, response)] ∧
        Carries s.tx.m_serverAddress s.tx.m_clientPort s.tx.m_serverPort seq payload bytes := by
    rintro bytes (rfl | ⟨seq, payload, hmem, hbytes⟩)
    · exact Or.inl rfl
    · exact Or.inr ⟨seq, payload, List.mem_append_left _ hmem, hbytes⟩
  refine ⟨h.clientAddress, h.clientPort, h.serverAddress, h.serverPort, h.clientSeq, ?_,
    h.current, h.called, h.called_ne, h.pending, h.requests, ?_, ?_, ?_, h.completed⟩
  · rw [h.serverSeq, toNat_succ hlast]
  · exact Or.inr ⟨_, response, hnew, hcarries⟩
  · intro bytes hbytes
    rcases List.mem_append.mp hbytes with hbytes | hbytes
    · exact hold bytes (h.replies bytes hbytes)
    · rw [List.mem_singleton.mp hbytes]
      exact Or.inr ⟨_, response, hnew, hcarries⟩
  · simp [h.processed, h.serverSeq]

/-- The session processes a request of the protocol or repeats its last capsule. -/
theorem Refines.receive (h : s.Refines t) {bytes : Bytes} (hbytes : bytes ∈ s.requests)
    {transit : Transit} {capsule : CCapsule}
    (hdeliver : deliver serverHost transit bytes = some capsule) {object : CCapsule}
    {sendCapsule : Bool} {handled : Handled σ}
    (hhandled : s.rx.incommingCapsule serverHost processDatagram sendCapsule object s.session
      capsule = some handled) :
    ∃ actions t', Execution.run StopAndWait.step t actions = some t' ∧
      Execution.Meets StopAndWait.step StopAndWait.Faithful t actions ∧
      Refines { s with
        rx := handled.rx
        session := handled.session
        replies := s.replies ++ handled.sent
        processed := s.processed ++ handled.processed.toList } t' := by
  obtain ⟨seq, request, hcalled, hcarries⟩ := h.requests bytes hbytes
  rw [← h.clientAddress, ← h.clientPort] at hcarries
  simp only [StopWaitRx.incommingCapsule, hcarries.parseCapsule hdeliver] at hhandled
  by_cases hseq : seq = s.rx.m_expectedSeqNum
  · simp only [hseq, ne_eq, not_true_eq_false, if_false] at hhandled
    cases hprocess : processDatagram s.rx.m_expectedSeqNum request s.session with
    | none => simp [hprocess] at hhandled
    | some result =>
      obtain ⟨⟨ok, response⟩, session⟩ := result
      cases ok with
      | false =>
        simp only [hprocess] at hhandled
        obtain rfl := Option.some.inj hhandled
        refine ⟨[], t, rfl, trivial, ?_⟩
        simp only [List.append_nil, Option.toList_none]
        exact ⟨h.clientAddress, h.clientPort, h.serverAddress, h.serverPort, h.clientSeq,
          h.serverSeq, h.current, h.called, h.called_ne, h.pending, h.requests, h.last,
          h.replies, h.processed, h.completed⟩
      | true =>
        simp only [hprocess] at hhandled
        obtain rfl := Option.some.inj hhandled
        have hserver : s.rx.m_expectedSeqNum.toNat = t.serverSeq := h.serverSeq.symm
        have hrequest : (t.serverSeq, request) ∈ t.requests := by
          rw [h.called, ← hserver, ← hseq]
          exact List.mem_map.mpr ⟨_, hcalled, rfl⟩
        have hlast : s.rx.m_expectedSeqNum ≠ 0xFFFFFFFFFFFFFFFF := by
          rw [← hseq]
          exact h.called_ne _ hcalled
        have hstep : StopAndWait.step t (.process t.serverSeq request response) = some { t with
            serverSeq := t.serverSeq + 1
            replies := t.replies ++ [(t.serverSeq, response)]
            processed := t.processed ++ [(t.serverSeq, request, response)] } := by
          simp only [StopAndWait.step, hrequest, and_self, if_true]
        refine ⟨[.process t.serverSeq request response], _, Execution.run_single hstep,
          Execution.meets_single trivial, ?_⟩
        have hnew : Carries s.tx.m_serverAddress s.tx.m_clientPort s.tx.m_serverPort
            s.rx.m_expectedSeqNum response
            (s.rx.serializedCapsule serverHost object response) := by
          have hrx := s.rx.carries serverHost object response
          rwa [h.serverAddress, h.clientPort, h.serverPort] at hrx
        exact h.process hlast hnew
  · simp only [hseq, ne_eq, not_false_eq_true, if_true] at hhandled
    obtain rfl := Option.some.inj hhandled
    refine ⟨[], t, rfl, trivial, ?_⟩
    refine ⟨h.clientAddress, h.clientPort, h.serverAddress, h.serverPort, h.clientSeq,
      h.serverSeq, h.current, h.called, h.called_ne, h.pending, h.requests, h.last, ?_, ?_,
      h.completed⟩
    · intro reply hreply
      rcases List.mem_append.mp hreply with hreply | hreply
      · exact h.replies reply hreply
      · rw [List.mem_singleton.mp hreply]
        exact h.last
    · simpa using h.processed

/-- Every step of the link with the same request is a run of the protocol. -/
theorem Refines.step {a : Action} (h : s.Refines t) (hsame : s.SameRequest a)
    (hstep : s.step clientHost serverHost processDatagram a = some s') :
    ∃ actions t', Execution.run StopAndWait.step t actions = some t' ∧
      Execution.Meets StopAndWait.step StopAndWait.Faithful t actions ∧ s'.Refines t' := by
  cases a with
  | call request object sendCapsule =>
    cases hcall : s.call with
    | some call => simp [StopWaitLink.step, hcall] at hstep
    | none =>
      simp only [StopWaitLink.step, hcall] at hstep
      by_cases hnone : s.tx.m_repetitions = 0
      · rw [if_pos hnone] at hstep
        obtain rfl := Option.some.inj hstep
        exact ⟨[], t, rfl, trivial, h⟩
      · rw [if_neg hnone] at hstep
        cases sendCapsule with
        | false =>
          obtain rfl := Option.some.inj hstep
          exact ⟨[], t, rfl, trivial, h⟩
        | true =>
          obtain rfl := Option.some.inj hstep
          obtain ⟨hfaithful, hrefines⟩ := h.call clientHost object hsame
          exact ⟨[.send request], _, Execution.run_single rfl, Execution.meets_single hfaithful,
            hrefines⟩
  | await arrived sendCapsule =>
    cases hcall : s.call with
    | none => simp [StopWaitLink.step, hcall] at hstep
    | some call =>
      simp only [StopWaitLink.step, hcall] at hstep
      cases arrived with
      | none =>
        obtain rfl := Option.some.inj hstep
        exact h.await clientHost hcall sendCapsule (by rintro capsule ⟨⟩)
      | some delivery =>
        obtain ⟨index, transit⟩ := delivery
        cases hdeliver : s.replies[index]?.bind (deliver clientHost transit) with
        | none => simp [hdeliver] at hstep
        | some capsule =>
          simp only [hdeliver] at hstep
          obtain rfl := Option.some.inj hstep
          obtain ⟨bytes, hbytes, hdeliver⟩ := Option.bind_eq_some_iff.mp hdeliver
          refine h.await clientHost hcall sendCapsule ?_
          rintro capsule' ⟨⟩
          exact ⟨bytes, List.mem_of_getElem? hbytes, transit, hdeliver⟩
  | receive index transit object sendCapsule =>
    simp only [StopWaitLink.step] at hstep
    cases hdeliver : s.requests[index]?.bind (deliver serverHost transit) with
    | none => simp [hdeliver] at hstep
    | some capsule =>
      simp only [hdeliver, Option.map_eq_some_iff] at hstep
      obtain ⟨handled, hhandled, rfl⟩ := hstep
      obtain ⟨bytes, hbytes, hdeliver⟩ := Option.bind_eq_some_iff.mp hdeliver
      exact h.receive serverHost processDatagram (List.mem_of_getElem? hbytes) hdeliver hhandled

/-- A state that refines a state in which requests complete exactly once has the
same property. -/
theorem Refines.exactlyOnce (h : s.Refines t)
    (honce : ∀ {seq request response}, (seq, request, response) ∈ t.completed →
      t.processed.filter (fun entry => entry.1 = seq) = [(seq, request, response)]) :
    s.ExactlyOnce := by
  intro seq request response hmem
  have hcompleted : (seq.toNat, request, response) ∈ t.completed := by
    rw [h.completed]
    exact List.mem_map.mpr ⟨_, hmem, rfl⟩
  have hfilter := honce hcompleted
  rw [h.processed, List.filter_map] at hfilter
  have hpredicate : ((fun entry : ℕ × Bytes × Bytes => decide (entry.1 = seq.toNat)) ∘
      fun entry : UInt64 × Bytes × Bytes => (entry.1.toNat, entry.2)) =
      fun entry => decide (entry.1 = seq) := by
    funext entry
    simp only [Function.comp_apply, UInt64.toNat_inj]
  rw [hpredicate] at hfilter
  obtain ⟨entry, hentry, heq⟩ := List.map_eq_singleton_iff.mp hfilter
  obtain ⟨hseq, hrest⟩ := Prod.mk.inj heq
  rw [hentry, ← hrest, ← UInt64.toNat_inj.mp hseq]

/-- In every run in which the client, after a call that failed, goes on with the
same request, every call that has returned true was processed exactly once and
got its own response, whatever the network and the session do. -/
theorem sendReliableMessage_exactly_once (repetitions : ℕ) (serverAddress : SanAddress)
    (serverPort : UInt16) (clientAddress : SanAddress) (clientPort : UInt16) (session : σ)
    (actions : List Action)
    (hsame : Execution.Meets (step clientHost serverHost processDatagram) SameRequest
      (start repetitions serverAddress serverPort clientAddress clientPort session) actions)
    (hrun : Execution.run (step clientHost serverHost processDatagram)
      (start repetitions serverAddress serverPort clientAddress clientPort session) actions =
        some s) :
    s.ExactlyOnce := by
  obtain ⟨actions', t, hrun', hmeets, hrefines⟩ := Execution.run_simulation
    (fun h hguard hstep => Refines.step clientHost serverHost processDatagram h hguard hstep)
    hsame (refines_start repetitions serverAddress serverPort clientAddress clientPort session)
    hrun
  exact hrefines.exactlyOnce fun hmem => StopAndWait.completed_once hmeets hrun' hmem

/-- A capsule object in cleared memory. -/
def clearedCapsule : CCapsule :=
  ⟨false, false, FixedBytes.replicate 32 0, FixedBytes.replicate 32 0, FixedBytes.replicate 32 0,
    FixedBytes.replicate 20 0, 0, []⟩

/-- A session that answers every request with the request itself. -/
def echo (_ : UInt64) (request : Bytes) : StateT Unit Option (Bool × Bytes) :=
  pure (true, request)

/-- A new link with one try for each call. -/
def echoLink : StopWaitLink Unit :=
  start 1 (FixedBytes.replicate 32 1) 80 (FixedBytes.replicate 32 2) 4000 ()

/-- A request is sent, processed and answered. -/
theorem sendReliableMessage_exactly_once_echo :
    ∃ s, Execution.run (step .littleEndian .littleEndian echo) echoLink
        [.call [65] clearedCapsule true, .receive 0 ⟨clearedCapsule, 1⟩ clearedCapsule true,
          .await (some (0, ⟨clearedCapsule, 1⟩)) true] = some s ∧
      s.completed = [(1, [65], [65])] ∧ s.ExactlyOnce := by
  refine ⟨_, rfl, rfl, sendReliableMessage_exactly_once .littleEndian .littleEndian echo 1
    (FixedBytes.replicate 32 1) 80 (FixedBytes.replicate 32 2) 4000 ()
    [.call [65] clearedCapsule true, .receive 0 ⟨clearedCapsule, 1⟩ clearedCapsule true,
      .await (some (0, ⟨clearedCapsule, 1⟩)) true] ?_ rfl⟩
  refine ⟨⟨by decide, fun request' h => absurd h List.not_mem_nil⟩, fun s₁ _ =>
    ⟨trivial, fun s₂ _ => ⟨trivial, fun _ _ => trivial⟩⟩⟩

/-- A call times out although the session has processed its request. The reply
then completes the next call, whose request is another one and was not processed. -/
theorem sendReliableMessage_stale_reply :
    ∃ s, Execution.run (step .littleEndian .littleEndian echo) echoLink
        [.call [65] clearedCapsule true, .receive 0 ⟨clearedCapsule, 1⟩ clearedCapsule true,
          .await none true, .call [66] clearedCapsule true,
          .await (some (0, ⟨clearedCapsule, 1⟩)) true] = some s ∧
      s.completed = [(1, [66], [65])] ∧ s.processed = [(1, [65], [65])] ∧ ¬ s.ExactlyOnce := by
  refine ⟨_, rfl, rfl, rfl, fun h => ?_⟩
  have honce := h 1 [66] [65] (List.mem_singleton.mpr rfl)
  exact absurd honce (by decide)

end StopWaitLink

/-- What goes to the network depends on the memory of the new capsule object: with two
initial contents the capsule of a request, and likewise that of a processed response, is
the same exactly if the contents agree in hop count, DX flag and application id. -/
theorem capsule_memory_iff {σ : Type} (host : ByteOrder) (object object' : CCapsule) :
    (∀ (tx : StopWaitTx) (request : Bytes),
      tx.serializedCapsule host object request = tx.serializedCapsule host object' request ↔
        SameRest object object') ∧
    ∀ (processDatagram : UInt64 → Bytes → StateT σ Option (Bool × Bytes)) (sendCapsule : Bool)
      (rx : StopWaitRx) (session : σ) (rxcapsule : CCapsule) (handled handled' : Handled σ),
      rx.incommingCapsule host processDatagram sendCapsule object session rxcapsule =
        some handled →
      rx.incommingCapsule host processDatagram sendCapsule object' session rxcapsule =
        some handled' →
      handled.processed ≠ none → (handled.sent = handled'.sent ↔ SameRest object object') := by
  refine ⟨fun tx request => tx.serializedCapsule_eq_iff host request object object', ?_⟩
  intro processDatagram sendCapsule rx session rxcapsule handled handled' hfirst hsecond hprocessed
  obtain ⟨⟨seq, request, response⟩, hprocessed⟩ := Option.ne_none_iff_exists'.mp hprocessed
  obtain ⟨hsent, session', hparse, hresult⟩ := StopWaitRx.sent_of_processed hfirst hprocessed
  have hsent' : handled'.sent = [rx.serializedCapsule host object' response] := by
    simp only [StopWaitRx.incommingCapsule, hparse, ne_eq, not_true_eq_false, if_false, hresult]
      at hsecond
    obtain rfl := Option.some.inj hsecond
    rfl
  rw [hsent, hsent', List.singleton_inj]
  exact rx.serializedCapsule_eq_iff host response object object'

/-- A capsule object in memory that is cleared but for the hop count. -/
def hoppedCapsule : CCapsule := { StopWaitLink.clearedCapsule with hop := 5 }

/-- The first request of the client of `echoLink`, as it arrives. -/
def arrivedCapsule : CCapsule :=
  ⟨false, true, FixedBytes.replicate 32 0, FixedBytes.replicate 32 2, FixedBytes.replicate 32 1,
    FixedBytes.replicate 20 0, 1, [0, 80, 15, 160, 83, 0, 0, 0, 0, 0, 0, 0, 1, 65]⟩

/-- The session processes a request, and its answer shows the hop count of the memory. -/
theorem capsule_memory_iff_echo :
    ∃ handled handled', StopWaitLink.echoLink.rx.incommingCapsule .littleEndian StopWaitLink.echo
        true StopWaitLink.clearedCapsule () arrivedCapsule = some handled ∧
      StopWaitLink.echoLink.rx.incommingCapsule .littleEndian StopWaitLink.echo true
        hoppedCapsule () arrivedCapsule = some handled' ∧
      (handled.sent = handled'.sent ↔ SameRest StopWaitLink.clearedCapsule hoppedCapsule) := by
  refine ⟨_, _, rfl, rfl, (capsule_memory_iff .littleEndian StopWaitLink.clearedCapsule
    hoppedCapsule).2 StopWaitLink.echo true StopWaitLink.echoLink.rx () arrivedCapsule _ _ rfl rfl
    ?_⟩
  decide

/-- The same request from the same client is sent as different bytes. -/
theorem capsule_memory_differs :
    StopWaitLink.echoLink.tx.serializedCapsule .littleEndian StopWaitLink.clearedCapsule [65] ≠
      StopWaitLink.echoLink.tx.serializedCapsule .littleEndian hoppedCapsule [65] := by
  decide

end San2.Shell
