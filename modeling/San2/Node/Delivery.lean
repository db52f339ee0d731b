import San2.Node.LineParser

/-!
# What a command delivers

A command that sends a capsule injects it twice: once without a thread, for which the result
is not looked at, and once more, for which it is reported. So two capsules are queued where
one is reported to be sent, and one where the queue is reported to be full.
-/

namespace San2.Node

open Utils Network Cppl StoppingProgram DragonSRP

namespace CIpcChannel

/-- A turn of the loop of `receive` that has been performed. -/
structure Performed (nodeName : Bytes) where
  turn : TerminalTurn
  before : CIpcChannel
  result : Except Stop (Option ErrorCode)
  after : CIpcChannel
  ends : Ends (receiveTurn nodeName turn) before result after

/-- One turn of the terminal, with the state before and after it. -/
def perform (nodeName : Bytes) (turn : TerminalTurn) (s : CIpcChannel) : Performed nodeName :=
  ⟨turn, s, outcome (receiveTurn nodeName turn) s, after (receiveTurn nodeName turn) s, rfl, rfl⟩

/-- The turns that the loop of `receive` comes to. -/
def performed (nodeName : Bytes) : List TerminalTurn → CIpcChannel → List (Performed nodeName)
  | [], _ => []
  | turn :: turns, s =>
    let p := perform nodeName turn s
    p :: match p.result with
      | .ok none => performed nodeName turns p.after
      | _ => []

/-- The turns of a session of `receive`. -/
def session (nodeName : Bytes) (turns : List TerminalTurn) (s : CIpcChannel) :
    List (Performed nodeName) :=
  performed nodeName turns (after (sendLine (string2bytes "Welcome to SAN node terminal")) s)

/-- The loop ends as the last turn has ended. -/
theorem ends_receiveLoop (nodeName : Bytes) (turns : List TerminalTurn) (s : CIpcChannel) :
    Ends (receiveLoop nodeName turns) s
      (((performed nodeName turns s).getLast?.map Performed.result).getD (.ok none))
      (((performed nodeName turns s).getLast?.map Performed.after).getD s) := by
  induction turns generalizing s with
  | nil => exact ends_pure none s
  | cons turn turns ih =>
    have hturn := (perform nodeName turn s).ends
    unfold receiveLoop performed
    dsimp only
    cases hresult : (perform nodeName turn s).result with
    | error reason =>
      rw [hresult] at hturn
      simp only [List.getLast?_singleton, Option.map_some, Option.getD_some, hresult]
      exact hturn.bind_error _
    | ok rval =>
      rw [hresult] at hturn
      cases rval with
      | some code =>
        simp only [List.getLast?_singleton, Option.map_some, Option.getD_some, hresult]
        exact hturn.bind_ok (ends_pure _ _)
      | none =>
        refine hturn.bind_ok ?_
        have hrest := ih (perform nodeName turn s).after
        cases hlast : performed nodeName turns (perform nodeName turn s).after with
        | nil =>
          rw [hlast] at hrest
          simpa [hresult] using hrest
        | cons p ps =>
          rw [hlast] at hrest
          rw [List.getLast?_cons_cons]
          simpa [List.getLast?_cons] using hrest

/-- `receive` welcomes the user and then performs its session. -/
theorem ends_receive (nodeName : Bytes) (turns : List TerminalTurn) (s : CIpcChannel) :
    ∃ welcomed, Ends (sendLine (string2bytes "Welcome to SAN node terminal")) s (.ok ()) welcomed ∧
      Ends (receive nodeName turns) s
        (((session nodeName turns s).getLast?.map Performed.result).getD (.ok none))
        (((session nodeName turns s).getLast?.map Performed.after).getD welcomed) := by
  have hwelcome := ends_sendLine (string2bytes "Welcome to SAN node terminal") s
  refine ⟨_, hwelcome, hwelcome.bind_ok ?_⟩
  unfold session
  rw [hwelcome.2]
  exact ends_receiveLoop nodeName turns _

/-- The state behind the prompt. -/
def prompted (nodeName : Bytes) (s : CIpcChannel) : CIpcChannel :=
  { s with sent := s.sent ++ [nodeName, string2bytes ">"] }

/-- The prompt is sent. -/
theorem ends_printShell (nodeName : Bytes) (s : CIpcChannel) :
    Ends (printShell nodeName) s (.ok ()) (prompted nodeName s) := by
  unfold prompted
  have hshell : Ends (printShell nodeName) s (.ok ())
      { s with sent := s.sent ++ [nodeName] ++ [string2bytes ">"] } :=
    (ends_send nodeName s).bind_ok (ends_send (string2bytes ">") _)
  rwa [List.append_assoc] at hshell

/-- A turn without a line ends the session. -/
theorem ends_receiveTurn_failed (nodeName : Bytes) {turn : TerminalTurn}
    (h : turn.rval ≠ .success) (s : CIpcChannel) :
    ∃ code s', Ends (receiveTurn nodeName turn) s (.ok (some code)) s' := by
  unfold receiveTurn
  by_cases hpeer : turn.rval = .peerDisconnect
  · rw [if_pos hpeer]
    exact ⟨_, _, (ends_printShell nodeName s).bind_ok (ends_pure _ _)⟩
  · rw [if_neg hpeer, if_pos h]
    exact ⟨_, _, (ends_printShell nodeName s).bind_ok (ends_pure _ _)⟩

/-- A turn with a command other than `exit` performs it. -/
theorem receiveTurn_of_command {turn : TerminalTurn} (hrval : turn.rval = .success)
    {command : Bytes} {rest : List Bytes} (hargs : arguments turn.line = command :: rest)
    (hexit : command ≠ string2bytes "exit") (nodeName : Bytes) :
    receiveTurn nodeName turn = do
      printShell nodeName
      let rval ← lineParser turn.env (command :: rest)
      if rval = .success then return none else return some rval := by
  have hpeer : turn.rval ≠ .peerDisconnect := by
    rw [hrval]
    exact fun h => nomatch h
  have hsome : ¬(command :: rest).length < 1 := by
    rw [List.length_cons]
    omega
  have hfirst : (command :: rest)[0]? = some command := rfl
  unfold receiveTurn
  rw [if_neg hpeer, if_neg (not_not.mpr hrval), hargs]
  dsimp only
  rw [if_neg hsome, argument_of_getElem? hfirst, pure_bind, if_neg hexit]

section

variable {nodeName command : Bytes} {turn : TerminalTurn} {rest : List Bytes} {s s' : CIpcChannel}

/-- A turn with a command that succeeds goes on. -/
theorem ends_receiveTurn_success (hrval : turn.rval = .success)
    (hargs : arguments turn.line = command :: rest) (hexit : command ≠ string2bytes "exit")
    (h : Ends (lineParser turn.env (command :: rest)) (prompted nodeName s) (.ok .success) s') :
    Ends (receiveTurn nodeName turn) s (.ok none) s' := by
  rw [receiveTurn_of_command hrval hargs hexit]
  exact (ends_printShell nodeName s).bind_ok (h.bind_ok (ends_pure _ _))

/-- A turn with a command that stops the program stops. -/
theorem ends_receiveTurn_error (hrval : turn.rval = .success)
    (hargs : arguments turn.line = command :: rest) (hexit : command ≠ string2bytes "exit")
    {reason : Stop}
    (h : Ends (lineParser turn.env (command :: rest)) (prompted nodeName s) (.error reason) s') :
    Ends (receiveTurn nodeName turn) s (.error reason) s' := by
  rw [receiveTurn_of_command hrval hargs hexit]
  exact (ends_printShell nodeName s).bind_ok (h.bind_error _)

end

/-- The text of the last line that was sent. -/
def lastLine (s : CIpcChannel) : Option Bytes := s.sent.dropLast.getLast?

/-- The last line is the text in front of the last line feed. -/
theorem lastLine_of_sent {s : CIpcChannel} {sent : List Bytes} {text lineFeed : Bytes}
    (h : s.sent = sent ++ [text, lineFeed]) : lastLine s = some text := by
  have hsplit : sent ++ [text, lineFeed] = sent ++ [text] ++ [lineFeed] := by
    rw [List.append_assoc, List.singleton_append]
  rw [lastLine, h, hsplit, List.dropLast_concat, List.getLast?_concat]

/-- The two commands that send a capsule. -/
def Sends (command : Bytes) : Prop :=
  command = string2bytes "send" ∨ command = string2bytes "sendmsg"

/-- The commands that send are not `exit`. -/
theorem Sends.ne_exit {command : Bytes} (h : Sends command) : command ≠ string2bytes "exit" := by
  obtain rfl | rfl := h
  · decide +kernel
  · decide +kernel

/-- The two reports of a command differ. -/
theorem Sends.report_injective {command : Bytes} (h : Sends command) {full full' : Bool}
    (hreport : report command full = report command full') : full = full' := by
  obtain rfl | rfl := h
  · revert full full'
    decide +kernel
  · revert full full'
    decide +kernel

/-- No report says that the address is wrong. -/
theorem Sends.report_ne_wrongFormat {command : Bytes} (h : Sends command) (full : Bool) :
    string2bytes "destination address is in wrong format" ≠ report command full := by
  obtain rfl | rfl := h
  · revert full
    decide +kernel
  · revert full
    decide +kernel

/-- What injects a capsule is a command that sends. -/
theorem Injects.sends {env : CommandEnv} {command : Bytes} {rest : List Bytes}
    (h : Injects env (command :: rest)) : Sends command :=
  h.imp Option.some.inj fun h => Option.some.inj h.1

/-- A command that does not come to inject looks too far, or complains about the address. -/
theorem Sends.ends_of_not_injects {env : CommandEnv} {command : Bytes} {rest : List Bytes}
    (h : Sends command) (hnot : ¬Injects env (command :: rest)) (s : CIpcChannel) :
    (∃ s', Ends (lineParser env (command :: rest)) s (.error .outOfBounds) s') ∨
      ∃ s', Ends (lineParser env (command :: rest)) s (.ok .success) s' ∧
        lastLine s' = some (string2bytes "destination address is in wrong format") := by
  obtain rfl | rfl := h
  · exact absurd (.inl rfl) hnot
  · cases rest with
    | nil => exact .inl (ends_sendmsg_noAddress env s)
    | cons address rest =>
      have haddress : (string2bytes "sendmsg" :: address :: rest)[1]? = some address := rfl
      have hvalid := invalid_of_not_injects haddress hnot
      exact .inr ⟨_, ends_sendmsg_wrongFormat haddress hvalid s, lastLine_of_sent rfl⟩

/-- The line is a command that comes to inject its capsule and finds room for it. -/
structure TerminalTurn.Injects (turn : TerminalTurn) : Prop where
  rval : turn.rval = .success
  command : CIpcChannel.Injects turn.env (arguments turn.line)
  room : turn.env.GetsRoom

namespace Performed

variable {nodeName command : Bytes} {full : Bool}

/-- The turn was a command that has come back and has reported whether the queue was full. -/
structure Reports (p : Performed nodeName) (command : Bytes) (full : Bool) : Prop where
  name : (arguments p.turn.line)[0]? = some command
  sends : Sends command
  returns : p.result = .ok none
  line : lastLine p.after = some (report command full)

/-- What is reported to be sent is queued once, and what is reported to be refused is not. -/
structure DeliversOnce (p : Performed nodeName) : Prop where
  success : ∀ command, p.Reports command false →
    ∃ capsule, p.after.enqueued = p.before.enqueued ++ [capsule]
  full : ∀ command, p.Reports command true → p.after.enqueued = p.before.enqueued

/-- The capsule is queued, then once more unless the queue is reported to be full. -/
def QueuesOneMore (p : Performed nodeName) (full : Bool) : Prop :=
  ∃ capsule, p.after.enqueued = p.before.enqueued ++ [capsule] ++ if full then [] else [capsule]

/-- A turn that injects a capsule reports it and queues one too many. -/
theorem reports_of_injects {p : Performed nodeName} (h : p.turn.Injects) :
    ∃ command full, p.Reports command full ∧ p.QueuesOneMore full := by
  obtain ⟨hrval, hinjects, hroom⟩ := h
  have hne : arguments p.turn.line ≠ [] := by
    intro hnil
    rw [hnil] at hinjects
    obtain h | ⟨h, -⟩ := hinjects
    · cases h
    · cases h
  obtain ⟨command, rest, hargs⟩ := List.exists_cons_of_ne_nil hne
  rw [hargs] at hinjects
  obtain ⟨-, capsule, preface, full, hends⟩ | ⟨hnone, -⟩ := ends_lineParser_injects hinjects
    (prompted nodeName p.before)
  · have hturn := ends_receiveTurn_success hrval hargs hinjects.sends.ne_exit hends
    have hafter := p.ends.2.symm.trans hturn.2
    refine ⟨command, full, ⟨?_, hinjects.sends, ?_, ?_⟩, capsule, ?_⟩
    · rw [hargs]
      rfl
    · exact p.ends.1.symm.trans hturn.1
    · exact lastLine_of_sent (congrArg CIpcChannel.sent hafter)
    · exact congrArg CIpcChannel.enqueued hafter
  · exact absurd hroom hnone

/-- A turn that goes on had a line. -/
theorem rval_of_returns {p : Performed nodeName} (h : p.result = .ok none) :
    p.turn.rval = .success := by
  by_contra hfailed
  obtain ⟨code, s', hends⟩ := ends_receiveTurn_failed nodeName hfailed p.before
  cases hends.1.symm.trans (p.ends.1.trans h)

/-- Nothing else makes a command report. -/
theorem Reports.injects {p : Performed nodeName} (h : p.Reports command full) :
    p.turn.Injects := by
  obtain ⟨hname, hsends, hreturns, hline⟩ := h
  have hrval := rval_of_returns hreturns
  have hexit := hsends.ne_exit
  obtain ⟨rest, hargs⟩ : ∃ rest, arguments p.turn.line = command :: rest := by
    cases hcases : arguments p.turn.line with
    | nil =>
      rw [hcases] at hname
      cases hname
    | cons first rest =>
      rw [hcases] at hname
      exact ⟨rest, congrArg (· :: rest) (Option.some.inj hname)⟩
  have hnoError {reason : Stop} {s' : CIpcChannel}
      (hends : Ends (lineParser p.turn.env (command :: rest)) (prompted nodeName p.before)
        (.error reason) s') : False := by
    have hturn := ends_receiveTurn_error hrval hargs hexit hends
    cases hturn.1.symm.trans (p.ends.1.trans hreturns)
  have hinjects : Injects p.turn.env (command :: rest) := by
    by_contra hnot
    obtain ⟨s', hends⟩ | ⟨s', hends, hformat⟩ :=
      hsends.ends_of_not_injects hnot (prompted nodeName p.before)
    · exact hnoError hends
    · have hturn := ends_receiveTurn_success hrval hargs hexit hends
      rw [← p.ends.2, hturn.2, hformat] at hline
      exact hsends.report_ne_wrongFormat full (Option.some.inj hline)
  refine ⟨hrval, ?_, ?_⟩
  · rw [hargs]
    exact hinjects
  · obtain ⟨hroom, -⟩ | ⟨-, s', hends⟩ := ends_lineParser_injects hinjects
      (prompted nodeName p.before)
    · exact hroom
    · exact (hnoError hends).elim

/-- Whatever is reported, one capsule more is queued. -/
theorem Reports.queuesOneMore {p : Performed nodeName} (h : p.Reports command full) :
    p.QueuesOneMore full := by
  obtain ⟨command', full', h', hqueued⟩ := reports_of_injects h.injects
  obtain rfl : command = command' := Option.some.inj (h.name.symm.trans h'.name)
  have hreport := Option.some.inj (h.line.symm.trans h'.line)
  rwa [h.sends.report_injective hreport]

/-- What is reported is always one capsule too few. -/
theorem deliversOnce_iff (p : Performed nodeName) : p.DeliversOnce ↔ ¬p.turn.Injects := by
  constructor
  · intro hdelivers hinjects
    obtain ⟨command, full, hreports, capsule, hqueued⟩ := reports_of_injects hinjects
    cases full with
    | true =>
      have hlength := congrArg List.length (hqueued.symm.trans (hdelivers.full command hreports))
      simp only [List.length_append, List.length_singleton] at hlength
      omega
    | false =>
      obtain ⟨capsule', honce⟩ := hdelivers.success command hreports
      have hlength := congrArg List.length (hqueued.symm.trans honce)
      simp only [List.length_append, List.length_singleton, Bool.false_eq_true, if_false]
        at hlength
      omega
  · intro hnot
    exact ⟨fun _ hreports => absurd hreports.injects hnot,
      fun _ hreports => absurd hreports.injects hnot⟩

end Performed

/-- A session delivers what it reports if and only if no command of it comes to inject its
capsule and finds room: a command that reports never delivers what it reports. -/
theorem session_delivers_iff (nodeName : Bytes) (turns : List TerminalTurn) (s : CIpcChannel) :
    (∀ p ∈ session nodeName turns s, p.DeliversOnce) ↔
      ∀ p ∈ session nodeName turns s, ¬p.turn.Injects :=
  forall₂_congr fun p _ => p.deliversOnce_iff

/-- Two commands, the second while the thread of the node is terminated. -/
def sendTwice : List TerminalTurn :=
  [⟨.success, string2bytes "send", idleEnv⟩,
    ⟨.success, string2bytes "send", { idleEnv with timed := ⟨.create 50, true, []⟩ }⟩]

/-- The first command reports one capsule and queues two. The second one reports none and queues
a third one. -/
theorem session_delivers_sendTwice :
    (session (string2bytes "node") sendTwice (create idleEnv.memory)).map
        (fun p => (lastLine p.after, p.after.enqueued.length)) =
      [(some (string2bytes "inject OK"), 2),
        (some (string2bytes "inject FAIL (inputQueue full)"), 3)] ∧
      ¬∀ p ∈ session (string2bytes "node") sendTwice (create idleEnv.memory), p.DeliversOnce := by
  refine ⟨by decide +kernel, fun h => ?_⟩
  have hfirst := h _ List.mem_cons_self
  have hargs : arguments (string2bytes "send") = [string2bytes "send"] := by decide +kernel
  refine (Performed.deliversOnce_iff _).mp hfirst ⟨rfl, .inl ?_, .inl rfl, .inl rfl⟩
  exact congrArg (fun args => args[0]?) hargs

end CIpcChannel

end San2.Node
