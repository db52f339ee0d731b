import San2.Node.CIpcChannel

/-!
# The arguments of a command

A command that is given fewer arguments than it needs prints its usage. `sendmsg` then goes
on: without an address it reads an argument that is not there, and with one it sends an empty
message.
-/

namespace San2.Node

open Utils Network Cppl StoppingProgram DragonSRP

/-- Both pushes of a command that injects come back. -/
def CommandEnv.GetsRoom (env : CommandEnv) : Prop :=
  CProducerConsumer.FindsRoom env.blocking.queue env.blocking.wakes ∧
    CProducerConsumer.FindsRoomOrEnd env.timed.queue env.timed.wakes

namespace CIpcChannel

/-- A text is sent. -/
theorem ends_send (text : Bytes) (s : CIpcChannel) :
    Ends (send text) s (.ok ()) { s with sent := s.sent ++ [text] } := ⟨rfl, rfl⟩

/-- A line is sent with its line feed. -/
theorem ends_sendLine (text : Bytes) (s : CIpcChannel) :
    Ends (sendLine text) s (.ok ()) { s with sent := s.sent ++ [text, [0x0A]] } := by
  have hline : Ends (sendLine text) s (.ok ())
      { s with sent := s.sent ++ [text] ++ [[0x0A]] } :=
    (ends_send text s).bind_ok (ends_send [0x0A] _)
  rwa [List.append_assoc] at hline

/-- An argument that is there is read. -/
theorem argument_of_getElem? {args : List Bytes} {index : ℕ} {arg : Bytes}
    (h : args[index]? = some arg) : argument args index = pure arg := by
  unfold argument
  rw [h]

/-- To read an argument that is not there leaves the arguments. -/
theorem ends_argument_none {args : List Bytes} {index : ℕ} (h : args.length ≤ index)
    (s : CIpcChannel) : Ends (argument args index) s (.error .outOfBounds) s := by
  unfold argument
  rw [List.getElem?_eq_none h]
  exact ends_throw _ s

/-- What is injected without a thread is in the queue, as soon as there is room. -/
theorem ends_injectCapsule_blocking (turn : PushTurn) (capsule : CCapsule) (s : CIpcChannel) :
    (CProducerConsumer.FindsRoom turn.queue turn.wakes ∧
      Ends (injectCapsule .pushBlocking turn capsule) s (.ok false)
        { s with enqueued := s.enqueued ++ [capsule] }) ∨
    (¬CProducerConsumer.FindsRoom turn.queue turn.wakes ∧
      Ends (injectCapsule .pushBlocking turn capsule) s (.error .waiting) s) := by
  have hwaits := CProducerConsumer.pushBlocking_run_waits_iff capsule turn.terminated turn.queue
    turn.wakes
  have hrun := CProducerConsumer.pushBlocking_run capsule turn.terminated turn.queue turn.wakes
  unfold injectCapsule
  rcases hresult : (CProducerConsumer.Call.pushBlocking capsule).run turn.terminated turn.queue
    turn.wakes with ⟨found, progress⟩
  rw [hresult] at hwaits hrun
  dsimp only at hwaits hrun ⊢
  cases hrun with
  | waits => exact .inr ⟨hwaits.mp rfl, ends_throw _ s⟩
  | pushes =>
    left
    have hroom : CProducerConsumer.FindsRoom turn.queue turn.wakes := by
      by_contra hnone
      cases hwaits.mpr hnone
    refine ⟨hroom, ?_⟩
    simp only [List.drop_left]
    exact ends_modify_bind (ends_pure false _)

/-- What is injected with a thread is in the queue, unless the thread is terminated. -/
theorem ends_injectCapsule_timed (turn : PushTurn) (capsule : CCapsule) (s : CIpcChannel) :
    (CProducerConsumer.FindsRoomOrEnd turn.queue turn.wakes ∧
      ∃ full, Ends (injectCapsule .push turn capsule) s (.ok full)
        { s with enqueued := s.enqueued ++ if full then [] else [capsule] }) ∨
    (¬CProducerConsumer.FindsRoomOrEnd turn.queue turn.wakes ∧
      Ends (injectCapsule .push turn capsule) s (.error .waiting) s) := by
  have hwaits := CProducerConsumer.push_run_waits_iff capsule turn.terminated turn.queue turn.wakes
  have hrun := CProducerConsumer.push_run capsule turn.terminated turn.queue turn.wakes
  unfold injectCapsule
  rcases hresult : (CProducerConsumer.Call.push capsule).run turn.terminated turn.queue
    turn.wakes with ⟨found, progress⟩
  rw [hresult] at hwaits hrun
  dsimp only at hwaits hrun ⊢
  have hroom (h : progress ≠ .waits) :
      CProducerConsumer.FindsRoomOrEnd turn.queue turn.wakes := by
    by_contra hnone
    exact h (hwaits.mpr hnone)
  cases hrun with
  | waits => exact .inr ⟨hwaits.mp rfl, ends_throw _ s⟩
  | terminated _ =>
    refine .inl ⟨hroom (fun h => nomatch h), true, ?_⟩
    simp only [List.drop_length]
    exact ends_modify_bind (ends_pure true _)
  | pushes _ =>
    refine .inl ⟨hroom (fun h => nomatch h), false, ?_⟩
    simp only [List.drop_left]
    exact ends_modify_bind (ends_pure false _)

/-- A command that comes to inject its capsule reports what its second push has returned, or
still waits for room. -/
theorem ends_inject (env : CommandEnv) (capsule : CCapsule) (ok fail : String) (s : CIpcChannel) :
    (env.GetsRoom ∧ ∃ full : Bool, Ends (inject env capsule ok fail) s (.ok .success)
      { s with
        sent := s.sent ++ [string2bytes (if full then fail else ok), [0x0A]]
        enqueued := s.enqueued ++ [capsule] ++ if full then [] else [capsule] }) ∨
    (¬env.GetsRoom ∧ ∃ s', Ends (inject env capsule ok fail) s (.error .waiting) s') := by
  unfold inject CommandEnv.GetsRoom
  obtain ⟨hfirst, hends⟩ | ⟨hfirst, hends⟩ := ends_injectCapsule_blocking env.blocking capsule s
  · obtain ⟨hsecond, full, hends'⟩ | ⟨hsecond, hends'⟩ := ends_injectCapsule_timed env.timed
      capsule { s with enqueued := s.enqueued ++ [capsule] }
    · refine .inl ⟨⟨hfirst, hsecond⟩, full, hends.bind_ok (hends'.bind_ok ?_)⟩
      cases full with
      | true => exact (ends_sendLine (string2bytes fail) _).bind_ok (ends_pure _ _)
      | false => exact (ends_sendLine (string2bytes ok) _).bind_ok (ends_pure _ _)
    · exact .inr ⟨fun h => hsecond h.2, _, hends.bind_ok (hends'.bind_error _)⟩
  · exact .inr ⟨fun h => hfirst h.1, _, hends.bind_error _⟩

/-- To send a line returns. -/
theorem returns_sendLine (text : Bytes) : Returns (sendLine text) :=
  fun s => ⟨(), _, ends_sendLine text s⟩

/-- To set a field returns. -/
theorem returns_setField {α : Type} (value : Bool × α) (store : CCapsule → α → CCapsule)
    (ok fail : String) : Returns (setField value store ok fail) :=
  returns_ite (returns_bind (returns_modify _) fun _ => returns_sendLine _) (returns_sendLine _)

/-- To set the hop count returns. -/
theorem returns_setHopCount (arg : Bytes) : Returns (setHopCount arg) := by
  unfold setHopCount
  cases CStringUtils.stringToUint arg with
  | none => exact returns_sendLine _
  | some ihop =>
    exact returns_ite (returns_sendLine _)
      (returns_bind (returns_modify _) fun _ => returns_sendLine _)

/-- To set the flag returns. -/
theorem returns_setDx (arg : Bytes) : Returns (setDx arg) :=
  returns_ite (returns_bind (returns_modify _) fun _ => returns_sendLine _)
    (returns_ite (returns_bind (returns_modify _) fun _ => returns_sendLine _)
      (returns_sendLine _))

/-- The third argument is looked at only when there are three. -/
theorem returns_capsuleField (args : List Bytes) (print : CCapsule → Bytes)
    {set : Bytes → ChannelM Unit} (hset : ∀ arg, Returns (set arg)) (usage : String) :
    Returns (capsuleField args print set usage) := by
  unfold capsuleField
  split
  · exact returns_bind returns_get fun s =>
      returns_bind (returns_sendLine _) fun _ => returns_pure _
  · rename_i hlength
    have hthird : args[2]? = some args[2] := List.getElem?_eq_getElem (by omega)
    rw [argument_of_getElem? hthird, pure_bind]
    exact returns_bind (hset _) fun _ => returns_pure _
  · exact returns_bind (returns_sendLine _) fun _ => returns_pure _

/-- The command `capsule` returns. -/
theorem returns_capsuleCommand (env : CommandEnv) (args : List Bytes) :
    Returns (capsuleCommand env args) := by
  unfold capsuleCommand
  by_cases hshort : args.length < 2
  · rw [if_pos hshort]
    exact returns_bind (returns_sendLine _) fun _ => returns_pure _
  · have hsecond : args[1]? = some args[1] := List.getElem?_eq_getElem (by omega)
    rw [if_neg hshort, argument_of_getElem? hsecond, pure_bind]
    refine returns_ite ?_ (returns_ite ?_ (returns_ite ?_ (returns_ite ?_ (returns_ite ?_
      (returns_ite ?_ (returns_ite ?_ (returns_pure _)))))))
    · exact returns_bind (returns_modify _) fun _ => returns_bind (returns_sendLine _)
        fun _ => returns_pure _
    · exact returns_capsuleField args _ (fun _ => returns_setField _ _ _ _) _
    · exact returns_capsuleField args _ (fun _ => returns_setField _ _ _ _) _
    · exact returns_capsuleField args _ returns_setHopCount _
    · exact returns_capsuleField args _ (fun _ => returns_setField _ _ _ _) _
    · exact returns_capsuleField args _ (fun _ => returns_setField _ _ _ _) _
    · exact returns_capsuleField args _ returns_setDx _

/-- To list the peers returns. -/
theorem returns_sendPeers (lines : List PeerLine) : Returns (sendPeers lines) := by
  have hsend (text : Bytes) : Returns (send text) := fun s => ⟨(), _, ends_send text s⟩
  induction lines with
  | nil => exact returns_pure _
  | cons line lines ih =>
    unfold sendPeers
    exact returns_bind (hsend _) fun _ => returns_bind (hsend _) fun _ =>
      returns_bind (hsend _) fun _ => returns_bind (returns_sendLine _) fun _ =>
      returns_bind (hsend _) fun _ => returns_bind (returns_sendLine _) fun _ =>
      returns_bind (hsend _) fun _ => returns_bind (returns_sendLine _) fun _ =>
      returns_bind (hsend _) fun _ => ih

/-- The command `help` returns. -/
theorem returns_helpCommand : Returns helpCommand :=
  returns_bind (returns_sendLine _) fun _ => returns_bind (returns_sendLine _) fun _ =>
    returns_bind (returns_sendLine _) fun _ => returns_bind (returns_sendLine _) fun _ =>
    returns_pure _

/-- What `sendmsg` does behind its usage. -/
def sendMessage (env : CommandEnv) (args : List Bytes) : ChannelM ErrorCode := do
  let address ← argument args 1
  match string2address address env.address with
  | (false, _) =>
    sendLine (string2bytes "destination address is in wrong format")
    return .success
  | (true, msgDestinationAddress) =>
    inject env (messageCapsule env.memory msgDestinationAddress (args.drop 2).flatten)
      "sendmsg inject OK" "sendmsg FAIL (inputQueue full)"

/-- What a command prints that is given fewer arguments than it needs. -/
def usage (command : Bytes) : List Bytes :=
  if command = string2bytes "capsule" then [string2bytes capsuleUsage, [0x0A]]
  else if command = string2bytes "sendmsg" then
    [string2bytes sendmsgUsage, [0x0A], string2bytes sendmsgNote, [0x0A]]
  else []

/-- What `sendmsg` prints before it looks at the address. -/
def sendmsgPreface (args : List Bytes) : List Bytes :=
  if args.length < 3 then usage (string2bytes "sendmsg") else []

/-- The usage of `sendmsg` is printed, and then the command goes on all the same. -/
theorem ends_sendmsgCommand {env : CommandEnv} {args : List Bytes} {s s' : CIpcChannel}
    {result : Except Stop ErrorCode}
    (h : Ends (sendMessage env args) { s with sent := s.sent ++ sendmsgPreface args } result s') :
    Ends (sendmsgCommand env args) s result s' := by
  unfold sendmsgCommand
  unfold sendmsgPreface at h
  by_cases hshort : args.length < 3
  · have husage : usage (string2bytes "sendmsg") =
        [string2bytes sendmsgUsage, [0x0A]] ++ [string2bytes sendmsgNote, [0x0A]] := by
      decide +kernel
    rw [if_pos hshort, husage, ← List.append_assoc] at h
    rw [if_pos hshort]
    exact (ends_sendLine (string2bytes sendmsgUsage) s).bind_ok
      ((ends_sendLine (string2bytes sendmsgNote) _).bind_ok h)
  · rw [if_neg hshort, List.append_nil] at h
    rw [if_neg hshort]
    exact h

/-- With an address `sendmsg` injects a capsule. -/
theorem sendMessage_of_address {env : CommandEnv} {args : List Bytes} {address : Bytes}
    (haddress : args[1]? = some address) (h : (string2address address env.address).1 = true) :
    sendMessage env args =
      inject env (messageCapsule env.memory (string2address address env.address).2
        (args.drop 2).flatten) "sendmsg inject OK" "sendmsg FAIL (inputQueue full)" := by
  unfold sendMessage
  rw [argument_of_getElem? haddress, pure_bind]
  rcases hconverted : string2address address env.address with ⟨valid, converted⟩
  rw [hconverted] at h
  obtain rfl : valid = true := h
  rfl

/-- `capsule` is not `send`. -/
theorem capsule_ne_send : string2bytes "capsule" ≠ string2bytes "send" := by decide +kernel

/-- `sendmsg` is not `send`. -/
theorem sendmsg_ne_send : string2bytes "sendmsg" ≠ string2bytes "send" := by decide +kernel

/-- `sendmsg` is not `capsule`. -/
theorem sendmsg_ne_capsule : string2bytes "sendmsg" ≠ string2bytes "capsule" := by decide +kernel

/-- `sendmsg` is not `peers`. -/
theorem sendmsg_ne_peers : string2bytes "sendmsg" ≠ string2bytes "peers" := by decide +kernel

/-- The commands are compared one after the other. -/
theorem lineParser_cons (env : CommandEnv) (command : Bytes) (rest : List Bytes) :
    lineParser env (command :: rest) =
      if command = string2bytes "send" then sendCommand env
      else if command = string2bytes "capsule" then capsuleCommand env (command :: rest)
      else if command = string2bytes "peers" then peersCommand env
      else if command = string2bytes "sendmsg" then sendmsgCommand env (command :: rest)
      else if command = string2bytes "help" then helpCommand
      else do
        sendLine (string2bytes "unknown command, type help for list of commands")
        return .success := by
  have hcommand : (command :: rest)[0]? = some command := rfl
  unfold lineParser
  rw [argument_of_getElem? hcommand, pure_bind]

/-- The commands that inject nothing come back. -/
theorem returns_lineParser {command : Bytes} (hsend : command ≠ string2bytes "send")
    (hsendmsg : command ≠ string2bytes "sendmsg") (env : CommandEnv) (rest : List Bytes) :
    Returns (lineParser env (command :: rest)) := by
  rw [lineParser_cons, if_neg hsend, if_neg hsendmsg]
  refine returns_ite (returns_capsuleCommand env _) (returns_ite ?_ (returns_ite ?_ ?_))
  · exact returns_bind (returns_sendPeers _) fun _ => returns_pure _
  · exact returns_helpCommand
  · exact returns_bind (returns_sendLine _) fun _ => returns_pure _

/-- A line that begins with `send` is this command. -/
theorem lineParser_send (env : CommandEnv) (rest : List Bytes) :
    lineParser env (string2bytes "send" :: rest) = sendCommand env := by
  rw [lineParser_cons, if_pos rfl]

/-- A line that begins with `sendmsg` is this command. -/
theorem lineParser_sendmsg (env : CommandEnv) (rest : List Bytes) :
    lineParser env (string2bytes "sendmsg" :: rest) =
      sendmsgCommand env (string2bytes "sendmsg" :: rest) := by
  rw [lineParser_cons, if_neg sendmsg_ne_send, if_neg sendmsg_ne_capsule,
    if_neg sendmsg_ne_peers, if_pos rfl]

/-- A line that begins with `capsule` is this command. -/
theorem lineParser_capsule (env : CommandEnv) (rest : List Bytes) :
    lineParser env (string2bytes "capsule" :: rest) =
      capsuleCommand env (string2bytes "capsule" :: rest) := by
  rw [lineParser_cons, if_neg capsule_ne_send, if_pos rfl]

/-- Without an address the first thing that `sendmsg` looks at is not there. -/
theorem ends_sendmsg_noAddress (env : CommandEnv) (s : CIpcChannel) :
    ∃ s', Ends (lineParser env [string2bytes "sendmsg"]) s (.error .outOfBounds) s' := by
  rw [lineParser_sendmsg]
  exact ⟨_, ends_sendmsgCommand ((ends_argument_none (le_refl 1) _).bind_error _)⟩

/-- An address that is none is reported, and nothing is injected. -/
theorem ends_sendmsg_wrongFormat {env : CommandEnv} {rest : List Bytes} {address : Bytes}
    (haddress : (string2bytes "sendmsg" :: rest)[1]? = some address)
    (hvalid : (string2address address env.address).1 = false) (s : CIpcChannel) :
    Ends (lineParser env (string2bytes "sendmsg" :: rest)) s (.ok .success)
      { s with
        sent := s.sent ++ sendmsgPreface (string2bytes "sendmsg" :: rest) ++
          [string2bytes "destination address is in wrong format", [0x0A]] } := by
  rw [lineParser_sendmsg]
  refine ends_sendmsgCommand ?_
  unfold sendMessage
  rw [argument_of_getElem? haddress, pure_bind]
  rcases hconverted : string2address address env.address with ⟨valid, converted⟩
  rw [hconverted] at hvalid
  obtain rfl : valid = false := hvalid
  exact (ends_sendLine _ _).bind_ok (ends_pure _ _)

/-- The command comes to inject a capsule: `send`, or `sendmsg` with an address that is one. -/
def Injects (env : CommandEnv) (args : List Bytes) : Prop :=
  args[0]? = some (string2bytes "send") ∨
    (args[0]? = some (string2bytes "sendmsg") ∧
      ∃ address, args[1]? = some address ∧ (string2address address env.address).1 = true)

/-- If `sendmsg` does not inject, its address is none. -/
theorem invalid_of_not_injects {env : CommandEnv} {rest : List Bytes} {address : Bytes}
    (haddress : (string2bytes "sendmsg" :: rest)[1]? = some address)
    (hnot : ¬Injects env (string2bytes "sendmsg" :: rest)) :
    (string2address address env.address).1 = false := by
  by_contra hvalid
  rw [Bool.not_eq_false] at hvalid
  exact hnot (.inr ⟨rfl, address, haddress, hvalid⟩)

/-- What a command that injects reports, by whether its second push has failed. -/
def report (command : Bytes) (full : Bool) : Bytes :=
  if command = string2bytes "send" then
    string2bytes (if full then "inject FAIL (inputQueue full)" else "inject OK")
  else string2bytes (if full then "sendmsg FAIL (inputQueue full)" else "sendmsg inject OK")

/-- A command that injects puts a capsule into the queue, then one more unless it reports that
the queue is full; or it waits for room. -/
theorem ends_lineParser_injects {env : CommandEnv} {command : Bytes} {rest : List Bytes}
    (h : Injects env (command :: rest)) (s : CIpcChannel) :
    (env.GetsRoom ∧ ∃ (capsule : CCapsule) (preface : List Bytes) (full : Bool),
      Ends (lineParser env (command :: rest)) s (.ok .success)
        { s with
          sent := s.sent ++ preface ++ [report command full, [0x0A]]
          enqueued := s.enqueued ++ [capsule] ++ if full then [] else [capsule] }) ∨
    (¬env.GetsRoom ∧
      ∃ s', Ends (lineParser env (command :: rest)) s (.error .waiting) s') := by
  obtain hsend | ⟨hsendmsg, address, haddress, hvalid⟩ := h
  · obtain rfl : command = string2bytes "send" := Option.some.inj hsend
    rw [lineParser_send]
    obtain ⟨hroom, full, hends⟩ | ⟨hroom, s', hends⟩ :=
      ends_inject env s.m_capsule "inject OK" "inject FAIL (inputQueue full)" s
    · refine .inl ⟨hroom, s.m_capsule, [], full, ?_⟩
      rw [List.append_nil, report, if_pos rfl]
      exact ends_get_bind hends
    · exact .inr ⟨hroom, s', ends_get_bind hends⟩
  · obtain rfl : command = string2bytes "sendmsg" := Option.some.inj hsendmsg
    obtain ⟨capsule, hmessage⟩ : ∃ capsule, sendMessage env (string2bytes "sendmsg" :: rest) =
        inject env capsule "sendmsg inject OK" "sendmsg FAIL (inputQueue full)" :=
      ⟨_, sendMessage_of_address haddress hvalid⟩
    have hreport (full : Bool) :
        string2bytes (if full then "sendmsg FAIL (inputQueue full)" else "sendmsg inject OK") =
          report (string2bytes "sendmsg") full := by
      rw [report, if_neg sendmsg_ne_send]
    rw [lineParser_sendmsg]
    obtain ⟨hroom, full, hends⟩ | ⟨hroom, s', hends⟩ := ends_inject env capsule
      "sendmsg inject OK" "sendmsg FAIL (inputQueue full)"
      { s with sent := s.sent ++ sendmsgPreface (string2bytes "sendmsg" :: rest) }
    · rw [← hmessage, hreport] at hends
      exact .inl ⟨hroom, capsule, _, full, ends_sendmsgCommand hends⟩
    · rw [← hmessage] at hends
      exact .inr ⟨hroom, s', ends_sendmsgCommand hends⟩

/-- The size of the arguments, with the command, that a command needs. -/
def needs (command : Bytes) : ℕ :=
  if command = string2bytes "capsule" then 2
  else if command = string2bytes "sendmsg" then 3
  else 1

/-- `sendmsg` needs an address and a text. -/
theorem needs_sendmsg : needs (string2bytes "sendmsg") = 3 := by
  rw [needs, if_neg sendmsg_ne_capsule, if_pos rfl]

/-- The other commands need no arguments. -/
theorem needs_of_ne {command : Bytes} (hcapsule : command ≠ string2bytes "capsule")
    (hsendmsg : command ≠ string2bytes "sendmsg") : needs command = 1 := by
  rw [needs, if_neg hcapsule, if_neg hsendmsg]

/-- A command looks only at arguments that are there and comes back; with fewer arguments than
it needs it prints its usage and changes nothing. -/
structure ArgumentsChecked (env : CommandEnv) (args : List Bytes) (s : CIpcChannel) : Prop where
  inBounds : outcome (lineParser env args) s ≠ .error .outOfBounds
  returns : ∃ code, outcome (lineParser env args) s = .ok code
  usage : ∀ command, args[0]? = some command → args.length < needs command →
    after (lineParser env args) s = { s with sent := s.sent ++ usage command }

/-- A command that returns has not left its arguments. -/
theorem inBounds_of_returns {env : CommandEnv} {args : List Bytes} {s : CIpcChannel}
    (h : ∃ code, outcome (lineParser env args) s = .ok code) :
    outcome (lineParser env args) s ≠ .error .outOfBounds := by
  obtain ⟨code, hcode⟩ := h
  rw [hcode]
  exact fun h => nomatch h

/-- A command that needs no argument but its name. -/
theorem argumentsChecked_iff_returns {env : CommandEnv} {command : Bytes} {rest : List Bytes}
    {s : CIpcChannel} (h : needs command = 1) :
    ArgumentsChecked env (command :: rest) s ↔
      ∃ code, outcome (lineParser env (command :: rest)) s = .ok code := by
  refine ⟨fun hchecked => hchecked.returns, fun hreturns =>
    ⟨inBounds_of_returns hreturns, hreturns, ?_⟩⟩
  intro name hname hshort
  obtain rfl : command = name := Option.some.inj hname
  rw [List.length_cons] at hshort
  omega

/-- A command that comes to inject returns if its pushes do. -/
theorem returns_iff_getsRoom {env : CommandEnv} {command : Bytes} {rest : List Bytes}
    (h : Injects env (command :: rest)) (s : CIpcChannel) :
    (∃ code, outcome (lineParser env (command :: rest)) s = .ok code) ↔ env.GetsRoom := by
  obtain ⟨hroom, capsule, preface, full, hends⟩ | ⟨hroom, s', hends⟩ :=
    ends_lineParser_injects h s
  · exact ⟨fun _ => hroom, fun _ => ⟨.success, hends.1⟩⟩
  · refine ⟨fun hreturns => ?_, fun hroom' => absurd hroom' hroom⟩
    obtain ⟨code, hcode⟩ := hreturns
    cases hends.1.symm.trans hcode

/-- The command `capsule` checks its arguments. -/
theorem argumentsChecked_capsule (env : CommandEnv) (rest : List Bytes) (s : CIpcChannel) :
    ArgumentsChecked env (string2bytes "capsule" :: rest) s := by
  obtain ⟨code, s', hends⟩ :=
    returns_lineParser capsule_ne_send sendmsg_ne_capsule.symm env rest s
  refine ⟨inBounds_of_returns ⟨code, hends.1⟩, ⟨code, hends.1⟩, ?_⟩
  intro command hcommand hshort
  obtain rfl : string2bytes "capsule" = command := Option.some.inj hcommand
  have hneeds : needs (string2bytes "capsule") = 2 := if_pos rfl
  rw [hneeds] at hshort
  rw [lineParser_capsule, usage, if_pos rfl, capsuleCommand, if_pos hshort]
  exact ((ends_sendLine (string2bytes capsuleUsage) s).bind_ok (ends_pure _ _)).2

/-- With fewer arguments than it needs, `sendmsg` looks too far, prints more than its usage or
sends a message all the same. -/
theorem not_argumentsChecked_sendmsg (env : CommandEnv) {rest : List Bytes}
    (hshort : (string2bytes "sendmsg" :: rest).length < 3) (s : CIpcChannel) :
    ¬ArgumentsChecked env (string2bytes "sendmsg" :: rest) s := by
  intro hchecked
  have hneeds := needs_sendmsg
  have husage := hchecked.usage _ rfl (by omega)
  have hbounds := hchecked.inBounds
  rcases rest with _ | ⟨address, rest⟩
  · obtain ⟨s', hends⟩ := ends_sendmsg_noAddress env s
    exact hbounds hends.1
  · cases hvalid : (string2address address env.address).1 with
    | true =>
      have hinjects : Injects env (string2bytes "sendmsg" :: address :: rest) :=
        .inr ⟨rfl, address, rfl, hvalid⟩
      obtain ⟨hroom, capsule, preface, full, hends⟩ | ⟨hroom, s', hends⟩ :=
        ends_lineParser_injects hinjects s
      · have henqueued := congrArg (fun s => s.enqueued.length) (hends.2.symm.trans husage)
        simp only [List.length_append, List.length_singleton] at henqueued
        omega
      · obtain ⟨code, hcode⟩ := hchecked.returns
        cases hends.1.symm.trans hcode
    | false =>
      have hsecond : (string2bytes "sendmsg" :: address :: rest)[1]? = some address := rfl
      have hends := ends_sendmsg_wrongFormat hsecond hvalid s
      rw [sendmsgPreface, if_pos hshort] at hends
      have hsent := congrArg (fun s => s.sent.length) (hends.2.symm.trans husage)
      simp only [List.length_append, List.length_cons, List.length_nil] at hsent
      omega

/-- With enough arguments, `sendmsg` only has to find room. -/
theorem argumentsChecked_sendmsg_iff (env : CommandEnv) {rest : List Bytes}
    (hlong : 3 ≤ (string2bytes "sendmsg" :: rest).length) (s : CIpcChannel) :
    ArgumentsChecked env (string2bytes "sendmsg" :: rest) s ↔
      (Injects env (string2bytes "sendmsg" :: rest) → env.GetsRoom) := by
  have hneeds := needs_sendmsg
  constructor
  · intro hchecked hinjects
    exact (returns_iff_getsRoom hinjects s).mp hchecked.returns
  · intro hroom
    have hreturns : ∃ code, outcome (lineParser env (string2bytes "sendmsg" :: rest)) s =
        .ok code := by
      by_cases hinjects : Injects env (string2bytes "sendmsg" :: rest)
      · exact (returns_iff_getsRoom hinjects s).mpr (hroom hinjects)
      · have hsecond : (string2bytes "sendmsg" :: rest)[1]? =
            some (string2bytes "sendmsg" :: rest)[1] := List.getElem?_eq_getElem (by omega)
        have hvalid := invalid_of_not_injects hsecond hinjects
        exact ⟨.success, (ends_sendmsg_wrongFormat hsecond hvalid s).1⟩
    refine ⟨inBounds_of_returns hreturns, hreturns, ?_⟩
    intro command hcommand hshort
    obtain rfl : string2bytes "sendmsg" = command := Option.some.inj hcommand
    omega

/-- The arguments of a line are checked, and its command comes back, if and only if it is no
`sendmsg` without a text, and finds room if it comes to send. -/
theorem lineParser_checked_iff (line : Bytes) (hline : arguments line ≠ []) (env : CommandEnv)
    (s : CIpcChannel) :
    ArgumentsChecked env (arguments line) s ↔
      ¬((arguments line)[0]? = some (string2bytes "sendmsg") ∧ (arguments line).length < 3) ∧
        (Injects env (arguments line) → env.GetsRoom) := by
  obtain ⟨command, rest, hargs⟩ := List.exists_cons_of_ne_nil hline
  rw [hargs]
  have hname {name : String} (h : command ≠ string2bytes name) :
      (command :: rest)[0]? ≠ some (string2bytes name) :=
    fun hsome => h (Option.some.inj hsome)
  by_cases hsendmsg : command = string2bytes "sendmsg"
  · subst hsendmsg
    by_cases hshort : (string2bytes "sendmsg" :: rest).length < 3
    · exact iff_of_false (not_argumentsChecked_sendmsg env hshort s) fun h => h.1 ⟨rfl, hshort⟩
    · rw [argumentsChecked_sendmsg_iff env (by omega) s]
      exact ⟨fun h => ⟨fun hcommand => hshort hcommand.2, h⟩, fun h => h.2⟩
  · have henough : ¬((command :: rest)[0]? = some (string2bytes "sendmsg") ∧
        (command :: rest).length < 3) := fun h => hname hsendmsg h.1
    by_cases hsend : command = string2bytes "send"
    · subst hsend
      have hneeds := needs_of_ne capsule_ne_send.symm sendmsg_ne_send.symm
      have hinjects : Injects env (string2bytes "send" :: rest) := .inl rfl
      rw [argumentsChecked_iff_returns hneeds, returns_iff_getsRoom hinjects s]
      exact ⟨fun h => ⟨henough, fun _ => h⟩, fun h => h.2 hinjects⟩
    · have hinjects : ¬Injects env (command :: rest) := by
        rintro (h | ⟨h, -⟩)
        · exact hname hsend h
        · exact hname hsendmsg h
      refine iff_of_true ?_ ⟨henough, fun h => absurd h hinjects⟩
      by_cases hcapsule : command = string2bytes "capsule"
      · subst hcapsule
        exact argumentsChecked_capsule env rest s
      · have hneeds := needs_of_ne hcapsule hsendmsg
        obtain ⟨code, s', hends⟩ := returns_lineParser hsend hsendmsg env rest s
        exact (argumentsChecked_iff_returns hneeds).mpr ⟨code, hends.1⟩

/-- A node without interfaces, whose input queue is empty whenever a command pushes. -/
def idleEnv : CommandEnv where
  memory := defaultCapsule
    ⟨false, false, sanDefaultAddress, sanDefaultAddress, sanDefaultAddress,
      sanDefaultApplicationId, 0, []⟩
  address := sanDefaultAddress
  appId := sanDefaultApplicationId
  interfaces := []
  blocking := ⟨.create 50, false, []⟩
  timed := ⟨.create 50, false, []⟩

/-- The command `send`, on a node that does nothing else. -/
theorem lineParser_checked_iff_send :
    arguments (string2bytes "send") ≠ [] ∧
      ArgumentsChecked idleEnv (arguments (string2bytes "send")) (create idleEnv.memory) := by
  have hline : arguments (string2bytes "send") ≠ [] := by decide +kernel
  refine ⟨hline, (lineParser_checked_iff _ hline idleEnv _).mpr ⟨?_, fun _ => ?_⟩⟩
  · decide +kernel
  · exact ⟨.inl rfl, .inl rfl⟩

/-- `sendmsg` alone makes the node look for an address that is not there. Behind an address
without a text the usage is printed and an empty message is queued. -/
theorem lineParser_checked_sendmsg :
    arguments (string2bytes "sendmsg") ≠ [] ∧
      outcome (lineParser idleEnv (arguments (string2bytes "sendmsg"))) (create idleEnv.memory) =
        .error .outOfBounds ∧
      ¬ArgumentsChecked idleEnv (arguments (string2bytes "sendmsg")) (create idleEnv.memory) ∧
      (after (lineParser idleEnv
          (arguments (string2bytes "sendmsg " ++ List.replicate 64 0x30)))
        (create idleEnv.memory)).enqueued.map CCapsule.data = [[], []] := by
  have hbounds : outcome (lineParser idleEnv (arguments (string2bytes "sendmsg")))
      (create idleEnv.memory) = .error .outOfBounds := by
    decide +kernel
  refine ⟨?_, hbounds, fun h => h.inBounds hbounds, ?_⟩
  · decide +kernel
  · decide +kernel

end CIpcChannel

end San2.Node
