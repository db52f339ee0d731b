import San2.Library.Execution
import Mathlib.Data.List.Range
import Mathlib.Data.List.Nodup

/-!
# Stop and wait

A client numbers its requests and repeats the current one until a reply with its
number arrives; a server processes only the request with the number it expects
and repeats its last reply otherwise. The network may lose, duplicate, delay and
reorder messages: everything ever sent stays available for delivery.

A client that gives up keeps its number. As long as it then goes on with the
same request, every completed request has been processed exactly once, and with
the reply that the client has taken.
-/

namespace StopAndWait

variable {Req Resp : Type*}

/-- Both parties, all messages ever sent, and what has happened. -/
structure State (Req Resp : Type*) where
  /-- The number of the current or next request. -/
  clientSeq : ℕ
  /-- The request of the call in progress. -/
  current : Option Req
  /-- The number of the request that is processed next. -/
  serverSeq : ℕ
  requests : List (ℕ × Req)
  replies : List (ℕ × Resp)
  processed : List (ℕ × Req × Resp)
  completed : List (ℕ × Req × Resp)

/-- What can happen between a client and its server. -/
inductive Action (Req Resp : Type*)
  /-- The client sends a request under its current number. -/
  | send (request : Req)
  /-- The client ends its call without a reply. -/
  | giveUp
  /-- A request reaches the server, which expects it and produces a response. -/
  | process (seq : ℕ) (request : Req) (response : Resp)
  /-- A reply with the current number reaches the client. -/
  | accept (seq : ℕ) (response : Resp)

/-- The state after an action; none if the action is not possible. -/
def step [DecidableEq Req] [DecidableEq Resp] (s : State Req Resp) :
    Action Req Resp → Option (State Req Resp)
  | .send request => some { s with
      current := some request
      requests := s.requests ++ [(s.clientSeq, request)] }
  | .giveUp => some { s with current := none }
  | .process seq request response =>
    if (seq, request) ∈ s.requests ∧ seq = s.serverSeq then some { s with
      serverSeq := s.serverSeq + 1
      replies := s.replies ++ [(seq, response)]
      processed := s.processed ++ [(seq, request, response)] }
    else none
  | .accept seq response =>
    match s.current with
    | none => none
    | some request =>
      if (seq, response) ∈ s.replies ∧ seq = s.clientSeq then some { s with
        clientSeq := s.clientSeq + 1
        current := none
        completed := s.completed ++ [(seq, request, response)] }
      else none

/-- Nothing has been sent yet, and both sides begin with number one. -/
def start : State Req Resp := ⟨1, none, 1, [], [], [], []⟩

/-- A number is not used for a second request. -/
def Faithful (s : State Req Resp) : Action Req Resp → Prop
  | .send request => ∀ request', (s.clientSeq, request') ∈ s.requests → request' = request
  | _ => True

/-- What holds in every state of a faithful run. -/
structure Inv (s : State Req Resp) : Prop where
  /-- The server is at the number of the client or one ahead. -/
  window : s.clientSeq ≤ s.serverSeq ∧ s.serverSeq ≤ s.clientSeq + 1
  requests_le : ∀ {seq request}, (seq, request) ∈ s.requests → seq ≤ s.clientSeq
  requests_unique : ∀ {seq request request'}, (seq, request) ∈ s.requests →
    (seq, request') ∈ s.requests → request = request'
  current_sent : ∀ {request}, s.current = some request → (s.clientSeq, request) ∈ s.requests
  replies_processed : ∀ {seq response}, (seq, response) ∈ s.replies →
    ∃ request, (seq, request, response) ∈ s.processed
  processed_sent : ∀ {seq request response}, (seq, request, response) ∈ s.processed →
    (seq, request) ∈ s.requests
  /-- The server has processed the numbers from one on, each once and in order. -/
  processed_seqs : s.processed.map Prod.fst = List.range' 1 (s.serverSeq - 1)
  server_pos : 1 ≤ s.serverSeq
  completed_processed : ∀ entry ∈ s.completed, entry ∈ s.processed

/-- The invariant holds before the first request. -/
theorem inv_start : Inv (start : State Req Resp) := by
  refine ⟨by simp [start], ?_, ?_, ?_, ?_, ?_, by simp [start], le_rfl, ?_⟩ <;> simp [start]

variable {s s' : State Req Resp}

/-- Processed numbers are below the one the server expects. -/
theorem Inv.processed_lt (h : Inv s) {seq : ℕ} {request : Req} {response : Resp}
    (hmem : (seq, request, response) ∈ s.processed) : seq < s.serverSeq := by
  have hseq : seq ∈ s.processed.map Prod.fst := List.mem_map.mpr ⟨_, hmem, rfl⟩
  rw [h.processed_seqs, List.mem_range'] at hseq
  obtain ⟨i, hi, rfl⟩ := hseq
  omega

/-- A client that sends keeps the invariant if it repeats what it has sent under the number. -/
theorem Inv.send (h : Inv s) {request : Req} (hfaithful : Faithful s (.send request)) :
    Inv { s with
      current := some request
      requests := s.requests ++ [(s.clientSeq, request)] } where
  window := h.window
  requests_le hmem := by
    rcases List.mem_append.mp hmem with hmem | hmem
    · exact h.requests_le hmem
    · obtain ⟨rfl, -⟩ := Prod.mk.inj (List.mem_singleton.mp hmem)
      exact le_rfl
  requests_unique hfirst hsecond := by
    simp only [Faithful] at hfaithful
    simp only [List.mem_append, List.mem_singleton, Prod.mk.injEq] at hfirst hsecond
    rcases hfirst with hfirst | ⟨rfl, rfl⟩ <;> rcases hsecond with hsecond | ⟨hseq, rfl⟩
    · exact h.requests_unique hfirst hsecond
    · exact hfaithful _ (hseq ▸ hfirst)
    · exact (hfaithful _ hsecond).symm
    · rfl
  current_sent hcurrent := by
    obtain rfl := Option.some.inj hcurrent
    exact List.mem_append_right _ (List.mem_singleton.mpr rfl)
  replies_processed := h.replies_processed
  processed_sent hmem := List.mem_append_left _ (h.processed_sent hmem)
  processed_seqs := h.processed_seqs
  server_pos := h.server_pos
  completed_processed := h.completed_processed

/-- A server that processes a request of its current number keeps the invariant. -/
theorem Inv.process (h : Inv s) {request : Req} (response : Resp)
    (hmem : (s.serverSeq, request) ∈ s.requests) :
    Inv { s with
      serverSeq := s.serverSeq + 1
      replies := s.replies ++ [(s.serverSeq, response)]
      processed := s.processed ++ [(s.serverSeq, request, response)] } where
  window := by
    have hle := h.requests_le hmem
    have hwindow := h.window
    refine ⟨?_, ?_⟩ <;> simp only <;> omega
  requests_le := h.requests_le
  requests_unique := h.requests_unique
  current_sent := h.current_sent
  replies_processed hreply := by
    rcases List.mem_append.mp hreply with hreply | hreply
    · obtain ⟨request', hprocessed⟩ := h.replies_processed hreply
      exact ⟨request', List.mem_append_left _ hprocessed⟩
    · obtain ⟨rfl, rfl⟩ := Prod.mk.inj (List.mem_singleton.mp hreply)
      exact ⟨request, List.mem_append_right _ (List.mem_singleton.mpr rfl)⟩
  processed_sent hprocessed := by
    rcases List.mem_append.mp hprocessed with hprocessed | hprocessed
    · exact h.processed_sent hprocessed
    · simp only [List.mem_singleton, Prod.mk.injEq] at hprocessed
      obtain ⟨rfl, rfl, -⟩ := hprocessed
      exact hmem
  processed_seqs := by
    have hpos := h.server_pos
    have hnext : s.serverSeq + 1 - 1 = s.serverSeq - 1 + 1 := by omega
    have hlast : 1 + (s.serverSeq - 1) = s.serverSeq := by omega
    simp only [List.map_append, h.processed_seqs, hnext, List.range'_1_concat, hlast,
      List.map_cons, List.map_nil]
  server_pos := Nat.le_add_left 1 _
  completed_processed entry hentry := List.mem_append_left _ (h.completed_processed entry hentry)

/-- The reply that the client takes was produced for its current request. -/
theorem Inv.accept (h : Inv s) {request : Req} {response : Resp}
    (hcurrent : s.current = some request) (hmem : (s.clientSeq, response) ∈ s.replies) :
    Inv { s with
      clientSeq := s.clientSeq + 1
      current := none
      completed := s.completed ++ [(s.clientSeq, request, response)] } := by
  obtain ⟨request', hprocessed⟩ := h.replies_processed hmem
  have hlt := h.processed_lt hprocessed
  obtain rfl : request' = request :=
    h.requests_unique (h.processed_sent hprocessed) (h.current_sent hcurrent)
  refine ⟨?_, ?_, h.requests_unique, ?_, h.replies_processed, h.processed_sent,
    h.processed_seqs, h.server_pos, ?_⟩
  · have hwindow := h.window
    refine ⟨?_, ?_⟩ <;> simp only <;> omega
  · intro seq request hrequest
    exact (h.requests_le hrequest).trans (Nat.le_succ _)
  · rintro request ⟨⟩
  · intro entry hentry
    rcases List.mem_append.mp hentry with hentry | hentry
    · exact h.completed_processed entry hentry
    · rwa [List.mem_singleton.mp hentry]

/-- Among entries with pairwise distinct keys, the key of an entry selects it alone. -/
theorem filter_key_eq_singleton {κ β : Type*} [DecidableEq κ] {entries : List (κ × β)}
    (hnodup : (entries.map Prod.fst).Nodup) {entry : κ × β} (hmem : entry ∈ entries) :
    entries.filter (fun other => other.1 = entry.1) = [entry] := by
  induction entries with
  | nil => exact absurd hmem List.not_mem_nil
  | cons first entries ih =>
    rw [List.map_cons, List.nodup_cons] at hnodup
    rcases List.mem_cons.mp hmem with rfl | hrest
    · have hnone : entries.filter (fun other => other.1 = entry.1) = [] := by
        rw [List.filter_eq_nil_iff]
        intro other hother heq
        exact hnodup.1 (List.mem_map.mpr ⟨other, hother, by simpa using heq⟩)
      rw [List.filter_cons_of_pos (by simp), hnone]
    · have hne : first.1 ≠ entry.1 := by
        intro heq
        exact hnodup.1 (heq ▸ List.mem_map.mpr ⟨entry, hrest, rfl⟩)
      rw [List.filter_cons_of_neg (by simpa using hne), ih hnodup.2 hrest]

/-- The numbers of the processed requests are pairwise distinct. -/
theorem Inv.processed_nodup (h : Inv s) : (s.processed.map Prod.fst).Nodup := by
  rw [h.processed_seqs]
  exact List.nodup_range'

section Run

variable [DecidableEq Req] [DecidableEq Resp]

/-- Every faithful step keeps the invariant. -/
theorem Inv.step {a : Action Req Resp} (h : Inv s) (hfaithful : Faithful s a)
    (hstep : step s a = some s') : Inv s' := by
  cases a with
  | send request =>
    obtain rfl := Option.some.inj hstep
    exact h.send hfaithful
  | giveUp =>
    obtain rfl := Option.some.inj hstep
    exact ⟨h.window, h.requests_le, h.requests_unique, by rintro request ⟨⟩,
      h.replies_processed, h.processed_sent, h.processed_seqs, h.server_pos,
      h.completed_processed⟩
  | process seq request response =>
    simp only [StopAndWait.step, Option.ite_none_right_eq_some, Option.some.injEq] at hstep
    obtain ⟨⟨hmem, rfl⟩, rfl⟩ := hstep
    exact h.process response hmem
  | accept seq response =>
    cases hcurrent : s.current with
    | none => simp [StopAndWait.step, hcurrent] at hstep
    | some request =>
      simp only [StopAndWait.step, hcurrent, Option.ite_none_right_eq_some,
        Option.some.injEq] at hstep
      obtain ⟨⟨hmem, rfl⟩, rfl⟩ := hstep
      exact h.accept hcurrent hmem

/-- In every state of a faithful run, a completed request has been processed
exactly once, and the client has taken the response that was produced for it. -/
theorem completed_once {actions : List (Action Req Resp)}
    (hmeets : Execution.Meets step Faithful start actions)
    (hrun : Execution.run step start actions = some s) {seq : ℕ} {request : Req}
    {response : Resp} (hmem : (seq, request, response) ∈ s.completed) :
    s.processed.filter (fun entry => entry.1 = seq) = [(seq, request, response)] := by
  have hinv := Execution.run_invariant_of_meets (fun h hguard hstep => Inv.step h hguard hstep)
    hmeets inv_start hrun
  exact filter_key_eq_singleton hinv.processed_nodup (hinv.completed_processed _ hmem)

end Run

end StopAndWait
