import San2.Api.InterfaceAddresses
import San2.Shell.Session

/-!
# What a request is answered

`Session::processApplicationDatagram` compares the request with the words of its commands, one
after the other. Two variables carry the answer: a command leaves a parameter of the node in
`result`, and what it has to say itself in the response. At the end the response is overwritten
with `result`, so that only parameters come through.
-/

namespace San2.Interfaces

open Utils Rpc

/-- `GetParameterOut` -/
structure GetParameterOut where
  m_parameter : Bytes
  m_result : Bytes

namespace GetParameterOut

/-- `GetParameterOut::create`: a record with an empty parameter and an empty result. -/
def create : GetParameterOut := ⟨[], []⟩

/-- `setParameter` takes any parameter and never refuses. -/
def setParameter (parameter : Bytes) (func : GetParameterOut) : Bool × GetParameterOut :=
  (true, { func with m_parameter := parameter })

/-- `getResult` hands out what the last reply left in the record. -/
def getResult (func : GetParameterOut) : Bytes := func.m_result

/-- The call as a `SyncFunctionOut`, under its unique id 4333. -/
def type : SyncFunctionOut GetParameterOut where
  getUniqueId := 4333
  pack func := (true, func.m_parameter)
  parseResponse data func := (true, { func with m_result := data })

end GetParameterOut

end San2.Interfaces

namespace San2.Api.CNodeConnector

open Utils DragonSRP Rpc Interfaces

/-- `CNodeConnector::getParameter`, with the string that it leaves in its second argument. -/
def getParameter {σ : Type} (channel : CIRpcChannel σ) (host : ByteOrder) (param : String)
    (result : Bytes) : StateT σ Option (ℤ × Bytes) := do
  let func := (GetParameterOut.create.setParameter (string2bytes param)).2
  let (x, func) ← CRpcInvoker.invokeSync channel host GetParameterOut.type func
  if !x then return (-1, result)
  return (0, func.getResult)

end San2.Api.CNodeConnector

namespace San2.Shell

open Utils DragonSRP

/-- The two variables that carry the answer. -/
structure Answer where
  result : Bytes
  applicationResponse : Bytes

section

variable {m : Type → Type} [Monad m]

/-- The branch of a command that asks the node for the parameter of its own name. -/
def parameterBranch (getParameter : String → Bytes → m (ℤ × Bytes)) (strRequest : Bytes)
    (param message : String) (answer : Answer) : m Answer :=
  if strRequest = string2bytes param then do
    let (code, result) ← getParameter param answer.result
    if code ≠ 0 then return ⟨result, string2bytes message⟩
    else return { answer with result := result }
  else return answer

/-- `Session::processApplicationDatagram`, on a `getParameter` that gets `result` by reference. -/
def processApplicationDatagramOn (getParameter : String → Bytes → m (ℤ × Bytes))
    (_sequenceNumber : UInt64) (applicationRequest applicationResponse : Bytes) :
    m (Bool × Bytes) := do
  let strRequest := applicationRequest
  let answer : Answer := ⟨[], applicationResponse⟩
  let answer := if strRequest = string2bytes "help" then
      { answer with applicationResponse := string2bytes "peers | uptime | version | hostname" }
    else answer
  let answer ← parameterBranch getParameter strRequest "hostname"
    "Shell server could not received hostname" answer
  let answer ← parameterBranch getParameter strRequest "uptime"
    "Shell server could not receive uptime" answer
  let answer ← parameterBranch getParameter strRequest "version"
    "Shell server could not receive SAN Node version" answer
  let answer := if strRequest = string2bytes "version" then
      let result := answer.result ++ string2bytes "\nShell server version 1.0"
      ⟨result, result⟩
    else answer
  let answer ← parameterBranch getParameter strRequest "peers"
    "Shell server could not received peer addresses" answer
  let result := if answer.result.length = 0 then string2bytes "Unknown command" else answer.result
  return (true, result)

/-- The words of the commands. -/
def shellWords : List String := ["help", "hostname", "uptime", "version", "peers"]

/-- What the commands have to say that ask for a parameter alone, when they do not get it. -/
def failureMessages : List (String × String) :=
  [("hostname", "Shell server could not received hostname"),
    ("uptime", "Shell server could not receive uptime"),
    ("peers", "Shell server could not received peer addresses")]

section

variable {getParameter : String → Bytes → m (ℤ × Bytes)} {sequenceNumber : UInt64}
  {applicationRequest applicationResponse : Bytes}

/-- A branch of the chain of commands passes on a request that is another word. -/
theorem parameterBranch_of_ne {param message : String} {answer : Answer}
    (h : applicationRequest ≠ string2bytes param) :
    parameterBranch getParameter applicationRequest param message answer = pure answer := if_neg h

variable [LawfulMonad m]

/-- What the branch does with the parameter, whether its code is looked at or not. -/
theorem parameterBranch_bind {β : Type} (respond : Bytes → β) (param message : String)
    (answer : Answer) {next : Answer → m β}
    (hnext : ∀ answer, next answer = pure (respond answer.result)) :
    parameterBranch getParameter (string2bytes param) param message answer >>= next =
      (fun value => respond value.2) <$> getParameter param answer.result := by
  unfold parameterBranch
  rw [if_pos rfl, map_eq_pure_bind, bind_assoc]
  congr 1
  funext ⟨code, result⟩
  dsimp only
  split_ifs
  · rw [pure_bind, hnext]
  · rw [pure_bind, hnext]

/-- No two commands have the same word. -/
theorem words_nodup : (shellWords.map string2bytes).Nodup := by decide +kernel

/-- What becomes of `result` at the end. -/
def orUnknown (result : Bytes) : Bytes :=
  if result.length = 0 then string2bytes "Unknown command" else result

/-- The request `hostname` asks the node for its name and answers it, or `Unknown`. -/
theorem processApplicationDatagramOn_hostname :
    processApplicationDatagramOn getParameter sequenceNumber (string2bytes "hostname")
        applicationResponse =
      (fun value => (true, orUnknown value.2)) <$> getParameter "hostname" [] := by
  have hwords := words_nodup
  simp only [shellWords, List.map, List.nodup_cons, List.mem_cons, not_or] at hwords
  obtain ⟨⟨hhelp, -⟩, ⟨huptime, hversion, hpeers, -⟩, -⟩ := hwords
  unfold processApplicationDatagramOn
  dsimp only
  rw [if_neg (Ne.symm hhelp)]
  refine parameterBranch_bind (m := m) (fun result => (true, orUnknown result)) _ _ _
    fun answer => ?_
  rw [parameterBranch_of_ne huptime, pure_bind, parameterBranch_of_ne hversion, pure_bind,
    if_neg hversion, parameterBranch_of_ne hpeers, pure_bind]
  rfl

/-- The request `uptime` asks the node for its uptime and answers it, or `Unknown`. -/
theorem processApplicationDatagramOn_uptime :
    processApplicationDatagramOn getParameter sequenceNumber (string2bytes "uptime")
        applicationResponse =
      (fun value => (true, orUnknown value.2)) <$> getParameter "uptime" [] := by
  have hwords := words_nodup
  simp only [shellWords, List.map, List.nodup_cons, List.mem_cons, not_or] at hwords
  obtain ⟨⟨-, hhelp, -⟩, ⟨hhostname, -⟩, ⟨hversion, hpeers, -⟩, -⟩ := hwords
  unfold processApplicationDatagramOn
  dsimp only
  rw [if_neg (Ne.symm hhelp), parameterBranch_of_ne (Ne.symm hhostname), pure_bind]
  refine parameterBranch_bind (m := m) (fun result => (true, orUnknown result)) _ _ _
    fun answer => ?_
  rw [parameterBranch_of_ne hversion, pure_bind, if_neg hversion, parameterBranch_of_ne hpeers,
    pure_bind]
  rfl

/-- The request `version` answers the node's version and adds the shell server's own line, also
behind an empty one. -/
theorem processApplicationDatagramOn_version :
    processApplicationDatagramOn getParameter sequenceNumber (string2bytes "version")
        applicationResponse =
      (fun value => (true, value.2 ++ string2bytes "\nShell server version 1.0")) <$>
        getParameter "version" [] := by
  have hwords := words_nodup
  simp only [shellWords, List.map, List.nodup_cons, List.mem_cons, not_or] at hwords
  obtain ⟨⟨-, -, hhelp, -⟩, ⟨-, hhostname, -⟩, ⟨huptime, -⟩, ⟨hpeers, -⟩, -⟩ := hwords
  have hline : (string2bytes "\nShell server version 1.0").length = 25 := by decide +kernel
  unfold processApplicationDatagramOn
  dsimp only
  rw [if_neg (Ne.symm hhelp), parameterBranch_of_ne (Ne.symm hhostname), pure_bind,
    parameterBranch_of_ne (Ne.symm huptime), pure_bind]
  refine parameterBranch_bind (m := m)
    (fun result => (true, result ++ string2bytes "\nShell server version 1.0")) _ _ _
    fun answer => ?_
  have hnonempty : (answer.result ++ string2bytes "\nShell server version 1.0").length ≠ 0 := by
    rw [List.length_append]
    omega
  rw [if_pos rfl, parameterBranch_of_ne hpeers, pure_bind, if_neg hnonempty]

/-- The request `peers` asks the node for its peers and answers them, or `Unknown`. -/
theorem processApplicationDatagramOn_peers :
    processApplicationDatagramOn getParameter sequenceNumber (string2bytes "peers")
        applicationResponse =
      (fun value => (true, orUnknown value.2)) <$> getParameter "peers" [] := by
  have hwords := words_nodup
  simp only [shellWords, List.map, List.nodup_cons, List.mem_cons, not_or] at hwords
  obtain ⟨⟨-, -, -, hhelp, -⟩, ⟨-, -, hhostname, -⟩, ⟨-, huptime, -⟩, ⟨hversion, -⟩, -⟩ := hwords
  unfold processApplicationDatagramOn
  dsimp only
  rw [if_neg (Ne.symm hhelp), parameterBranch_of_ne (Ne.symm hhostname), pure_bind,
    parameterBranch_of_ne (Ne.symm huptime), pure_bind, parameterBranch_of_ne (Ne.symm hversion),
    pure_bind, if_neg (Ne.symm hversion)]
  exact parameterBranch_bind (m := m) (fun result => (true, orUnknown result)) _ _ _
    fun answer => rfl

/-- The parameter of a command that asks for nothing else is the whole answer. -/
theorem processApplicationDatagramOn_parameter {param message : String}
    (hparam : (param, message) ∈ failureMessages) :
    processApplicationDatagramOn getParameter sequenceNumber (string2bytes param)
        applicationResponse =
      (fun value => (true, orUnknown value.2)) <$> getParameter param [] := by
  simp only [failureMessages, List.mem_cons, List.not_mem_nil, or_false, Prod.mk.injEq] at hparam
  obtain ⟨rfl, -⟩ | ⟨rfl, -⟩ | ⟨rfl, -⟩ := hparam
  · exact processApplicationDatagramOn_hostname
  · exact processApplicationDatagramOn_uptime
  · exact processApplicationDatagramOn_peers

/-- A request for no parameter, and the request for help, are not known. -/
theorem processApplicationDatagramOn_unknown
    (hparameter : ∀ param message, (param, message) ∈ failureMessages →
      applicationRequest ≠ string2bytes param)
    (hversion : applicationRequest ≠ string2bytes "version") :
    processApplicationDatagramOn getParameter sequenceNumber applicationRequest
        applicationResponse = pure (true, string2bytes "Unknown command") := by
  have hhostname := hparameter "hostname" "Shell server could not received hostname" (by decide)
  have huptime := hparameter "uptime" "Shell server could not receive uptime" (by decide)
  have hpeers := hparameter "peers" "Shell server could not received peer addresses" (by decide)
  unfold processApplicationDatagramOn
  dsimp only
  rw [parameterBranch_of_ne hhostname, pure_bind, parameterBranch_of_ne huptime, pure_bind,
    parameterBranch_of_ne hversion, pure_bind, if_neg hversion, parameterBranch_of_ne hpeers,
    pure_bind]
  by_cases hhelp : applicationRequest = string2bytes "help"
  · rw [if_pos hhelp]
    rfl
  · rw [if_neg hhelp]
    rfl

end

end

/-- What a call of `getParameter` returns and leaves in its argument, by what comes of it. -/
def outcomeOf (outcome : String → Option Bytes) (param : String) (result : Bytes) : ℤ × Bytes :=
  match outcome param with
  | none => (-1, result)
  | some value => (0, value)

/-- The response to a request. -/
def answerTo (outcome : String → Option Bytes) (sequenceNumber : UInt64)
    (applicationRequest applicationResponse : Bytes) : Bytes :=
  (processApplicationDatagramOn (m := Id) (outcomeOf outcome) sequenceNumber applicationRequest
    applicationResponse).2

/-- The response is what the command has chosen for it. The text for a request that is no command
is given to no other, unless it is the parameter itself. -/
structure Chosen (outcome : String → Option Bytes) (request response : Bytes) : Prop where
  help : request = string2bytes "help" →
    response = string2bytes "peers | uptime | version | hostname"
  parameter : ∀ param message, (param, message) ∈ failureMessages → request = string2bytes param →
    (∀ value, outcome param = some value → value ≠ [] → response = value) ∧
      (outcome param = none → response = string2bytes message)
  version : request = string2bytes "version" →
    (∀ value, outcome "version" = some value → value ≠ [] →
      response = value ++ string2bytes "\nShell server version 1.0") ∧
      (outcome "version" = none →
        response = string2bytes "Shell server could not receive SAN Node version")
  unknown : (∀ word ∈ shellWords, request ≠ string2bytes word) →
    response = string2bytes "Unknown command"
  known : ∀ word ∈ shellWords, request = string2bytes word →
    outcome word ≠ some (string2bytes "Unknown command") →
    response ≠ string2bytes "Unknown command"
  nonempty : response ≠ []

section

variable {outcome : String → Option Bytes} {sequenceNumber : UInt64}
  {applicationRequest applicationResponse : Bytes}

/-- Different command words are different byte strings, so no branch shadows another. -/
theorem word_inj {word word' : String} (hword : word ∈ shellWords) (hword' : word' ∈ shellWords)
    (h : string2bytes word = string2bytes word') : word = word' :=
  List.inj_on_of_nodup_map words_nodup hword hword' h

/-- A call with nothing in its result buffer leaves the reply there, or nothing when it failed. -/
theorem outcomeOf_nil (param : String) :
    (outcomeOf outcome param []).2 = (outcome param).getD [] := by
  unfold outcomeOf
  cases outcome param with
  | none => rfl
  | some value => rfl

/-- The answer of the three plain parameter requests: the value received, or `Unknown`. -/
theorem answerTo_parameter {param message : String} (hparam : (param, message) ∈ failureMessages) :
    answerTo outcome sequenceNumber (string2bytes param) applicationResponse =
      orUnknown ((outcome param).getD []) := by
  rw [← outcomeOf_nil]
  exact congrArg Prod.snd (@processApplicationDatagramOn_parameter Id _ (outcomeOf outcome)
    sequenceNumber applicationResponse _ param message hparam)

/-- The answer to `version`, whether or not the node answered. -/
theorem answerTo_version :
    answerTo outcome sequenceNumber (string2bytes "version") applicationResponse =
      (outcome "version").getD [] ++ string2bytes "\nShell server version 1.0" := by
  rw [← outcomeOf_nil]
  exact congrArg Prod.snd (@processApplicationDatagramOn_version Id _ (outcomeOf outcome)
    sequenceNumber applicationResponse _)

/-- A request that is none of the command words is answered with `Unknown command`. -/
theorem answerTo_unknown
    (hparameter : ∀ param message, (param, message) ∈ failureMessages →
      applicationRequest ≠ string2bytes param)
    (hversion : applicationRequest ≠ string2bytes "version") :
    answerTo outcome sequenceNumber applicationRequest applicationResponse =
      string2bytes "Unknown command" :=
  congrArg Prod.snd (@processApplicationDatagramOn_unknown Id _ (outcomeOf outcome) sequenceNumber
    applicationRequest applicationResponse _ hparameter hversion)

/-- A request names a parameter, or it is the one for the version, or neither. -/
theorem request_cases (applicationRequest : Bytes) :
    (∃ param message, (param, message) ∈ failureMessages ∧
      applicationRequest = string2bytes param) ∨
    applicationRequest = string2bytes "version" ∨
    (∀ param message, (param, message) ∈ failureMessages →
      applicationRequest ≠ string2bytes param) ∧
      applicationRequest ≠ string2bytes "version" := by
  by_cases hparameter : ∃ param message, (param, message) ∈ failureMessages ∧
      applicationRequest = string2bytes param
  · exact Or.inl hparameter
  by_cases hversion : applicationRequest = string2bytes "version"
  · exact Or.inr (Or.inl hversion)
  · exact Or.inr (Or.inr
      ⟨fun param message hparam heq => hparameter ⟨param, message, hparam, heq⟩, hversion⟩)

/-- `orUnknown` never answers an empty text. -/
theorem orUnknown_ne_nil (result : Bytes) : orUnknown result ≠ [] := by
  unfold orUnknown
  split_ifs with hempty
  · decide +kernel
  · exact fun hnil => hempty (List.length_eq_zero_iff.mpr hnil)

/-- Nobody is left without an answer. -/
theorem answerTo_ne_nil :
    answerTo outcome sequenceNumber applicationRequest applicationResponse ≠ [] := by
  obtain ⟨param, message, hparam, rfl⟩ | rfl | ⟨hparameter, hversion⟩ :=
    request_cases applicationRequest
  · rw [answerTo_parameter hparam]
    exact orUnknown_ne_nil _
  · rw [answerTo_version]
    exact List.append_ne_nil_of_right_ne_nil _ (by decide +kernel)
  · rw [answerTo_unknown hparameter hversion]
    decide +kernel

/-- It is the answer of the session model. -/
theorem answerTo_eq :
    answerTo outcome sequenceNumber applicationRequest applicationResponse =
      (processApplicationDatagram outcome sequenceNumber applicationRequest).2 := by
  have hne : ∀ word ∈ shellWords, ∀ word' ∈ shellWords, word ≠ word' →
      string2bytes word ≠ string2bytes word' :=
    fun word hword word' hword' hne heq => hne (word_inj hword hword' heq)
  unfold processApplicationDatagram
  dsimp only
  obtain ⟨param, message, hparam, rfl⟩ | rfl | ⟨hparameter, hversion⟩ :=
    request_cases applicationRequest
  · rw [answerTo_parameter hparam]
    simp only [failureMessages, List.mem_cons, List.not_mem_nil, or_false, Prod.mk.injEq] at hparam
    obtain ⟨rfl, -⟩ | ⟨rfl, -⟩ | ⟨rfl, -⟩ := hparam
    · rw [if_pos rfl]
      rfl
    · rw [if_neg (hne "uptime" (by decide) "hostname" (by decide) (by decide)), if_pos rfl]
      rfl
    · rw [if_neg (hne "peers" (by decide) "hostname" (by decide) (by decide)),
        if_neg (hne "peers" (by decide) "uptime" (by decide) (by decide)),
        if_neg (hne "peers" (by decide) "version" (by decide) (by decide)), if_pos rfl]
      rfl
  · have hline : (string2bytes "\nShell server version 1.0").length = 25 := by decide +kernel
    have hnonempty : ((outcome "version").getD [] ++
        string2bytes "\nShell server version 1.0").length ≠ 0 := by
      rw [List.length_append]
      omega
    rw [answerTo_version, if_neg (hne "version" (by decide) "hostname" (by decide) (by decide)),
      if_neg (hne "version" (by decide) "uptime" (by decide) (by decide)), if_pos rfl,
      if_neg hnonempty]
  · rw [answerTo_unknown hparameter hversion,
      if_neg (hparameter "hostname" "Shell server could not received hostname" (by decide)),
      if_neg (hparameter "uptime" "Shell server could not receive uptime" (by decide)),
      if_neg hversion,
      if_neg (hparameter "peers" "Shell server could not received peer addresses" (by decide))]
    rfl

/-- Whatever the connection does, the call has one of the outcomes. -/
theorem getParameter_returns {σ : Type} {channel : Rpc.CIRpcChannel σ} {host : ByteOrder}
    {param : String} {result : Bytes} {s s' : σ} {value : ℤ × Bytes}
    (h : Api.CNodeConnector.getParameter channel host param result s = some (value, s')) :
    ∃ outcome : Option Bytes, value = outcomeOf (fun _ => outcome) param result := by
  unfold Api.CNodeConnector.getParameter at h
  obtain ⟨⟨⟨x, func⟩, t⟩, -, hrest⟩ := Option.bind_eq_some_iff.mp h
  cases x with
  | false =>
    obtain ⟨rfl, -⟩ := Prod.mk.inj (Option.some.inj hrest)
    exact ⟨none, rfl⟩
  | true =>
    obtain ⟨rfl, -⟩ := Prod.mk.inj (Option.some.inj hrest)
    exact ⟨some func.getResult, rfl⟩

/-- A request that is answered is answered as to some outcome. -/
theorem answered_over_connection {σ : Type} {channel : Rpc.CIRpcChannel σ} {host : ByteOrder}
    {s s' : σ} {ok : Bool} {response : Bytes}
    (h : processApplicationDatagramOn (m := StateT σ Option)
        (Api.CNodeConnector.getParameter channel host) sequenceNumber applicationRequest
        applicationResponse s = some ((ok, response), s')) :
    ok = true ∧
      ∃ outcome, response =
        answerTo outcome sequenceNumber applicationRequest applicationResponse := by
  have hasked : ∀ (param : String) (respond : Bytes → Bytes),
      ((fun value => (true, respond value.2)) <$>
        Api.CNodeConnector.getParameter channel host param [] : StateT σ Option (Bool × Bytes)) s =
        some ((ok, response), s') →
      ok = true ∧ ∃ outcome : Option Bytes, response = respond (outcome.getD []) := by
    intro param respond hrun
    obtain ⟨⟨value, t⟩, hcall, heq⟩ := Option.bind_eq_some_iff.mp hrun
    obtain ⟨outcome, rfl⟩ := getParameter_returns hcall
    obtain ⟨hpair, -⟩ := Prod.mk.inj (Option.some.inj heq)
    obtain ⟨rfl, rfl⟩ := Prod.mk.inj hpair
    exact ⟨rfl, outcome, congrArg respond (outcomeOf_nil param)⟩
  obtain ⟨param, message, hparam, rfl⟩ | rfl | ⟨hparameter, hversion⟩ :=
    request_cases applicationRequest
  · rw [processApplicationDatagramOn_parameter hparam] at h
    obtain ⟨hok, outcome, hresponse⟩ := hasked param orUnknown h
    refine ⟨hok, fun _ => outcome, ?_⟩
    rw [answerTo_parameter hparam]
    exact hresponse
  · rw [processApplicationDatagramOn_version] at h
    obtain ⟨hok, outcome, hresponse⟩ := hasked "version"
      (fun result => result ++ string2bytes "\nShell server version 1.0") h
    refine ⟨hok, fun _ => outcome, ?_⟩
    rw [answerTo_version]
    exact hresponse
  · rw [processApplicationDatagramOn_unknown hparameter hversion] at h
    obtain ⟨hpair, -⟩ := Prod.mk.inj (Option.some.inj h)
    obtain ⟨rfl, rfl⟩ := Prod.mk.inj hpair
    exact ⟨rfl, fun _ => none, (answerTo_unknown hparameter hversion).symm⟩

/-- Each word with a message for a failed call is a command of the shell other than `help` and
`version`. -/
theorem mem_shellWords {param message : String} (h : (param, message) ∈ failureMessages) :
    param ∈ shellWords ∧ param ≠ "help" ∧ param ≠ "version" := by
  simp only [failureMessages, List.mem_cons, List.not_mem_nil, or_false, Prod.mk.injEq] at h
  obtain ⟨rfl, -⟩ | ⟨rfl, -⟩ | ⟨rfl, -⟩ := h
  · decide
  · decide
  · decide

/-- A parameter comes through if and only if there is one. -/
theorem chosen_parameter_iff {param message : String}
    (hparam : (param, message) ∈ failureMessages) :
    Chosen outcome (string2bytes param) (orUnknown ((outcome param).getD [])) ↔
      ∃ value, outcome param = some value ∧ value ≠ [] := by
  obtain ⟨hword, hhelp, hversion⟩ := mem_shellWords hparam
  constructor
  · intro h
    cases houtcome : outcome param with
    | none =>
      have hunknown : orUnknown ((outcome param).getD []) = string2bytes "Unknown command" := by
        rw [houtcome]
        rfl
      have hne : outcome param ≠ some (string2bytes "Unknown command") := by
        rw [houtcome]
        exact fun heq => nomatch heq
      exact absurd hunknown (h.known param hword rfl hne)
    | some value =>
      refine ⟨value, rfl, ?_⟩
      rintro rfl
      have hunknown : orUnknown ((outcome param).getD []) = string2bytes "Unknown command" := by
        rw [houtcome]
        rfl
      have hne : outcome param ≠ some (string2bytes "Unknown command") := by
        rw [houtcome]
        decide +kernel
      exact absurd hunknown (h.known param hword rfl hne)
  · rintro ⟨value, houtcome, hvalue⟩
    have hresponse : orUnknown ((outcome param).getD []) = value := by
      rw [houtcome, Option.getD_some, orUnknown,
        if_neg (fun hempty => hvalue (List.length_eq_zero_iff.mp hempty))]
    rw [hresponse]
    constructor
    · intro heq
      exact absurd (word_inj hword (by decide) heq) hhelp
    · intro param' message' hparam' heq
      obtain rfl := word_inj hword (mem_shellWords hparam').1 heq
      refine ⟨fun value' hvalue' _ => ?_, fun hnone => ?_⟩
      · exact Option.some.inj (houtcome.symm.trans hvalue')
      · cases houtcome.symm.trans hnone
    · intro heq
      exact absurd (word_inj hword (by decide) heq) hversion
    · intro hnone
      exact absurd rfl (hnone param hword)
    · intro word hword' heq hne hunknown
      obtain rfl := word_inj hword hword' heq
      exact hne (houtcome.trans (congrArg some hunknown))
    · exact hvalue

/-- The text that the code answers to `version` is the one chosen by the outcome exactly when the
call succeeded: after a failed one the assignment of the error is overwritten. -/
theorem chosen_version_iff :
    Chosen outcome (string2bytes "version")
        ((outcome "version").getD [] ++ string2bytes "\nShell server version 1.0") ↔
      outcome "version" ≠ none := by
  have hword : "version" ∈ shellWords := by decide
  constructor
  · intro h hnone
    have hresponse := (h.version rfl).2 hnone
    rw [hnone] at hresponse
    revert hresponse
    decide +kernel
  · intro hsome
    obtain ⟨value, houtcome⟩ := Option.ne_none_iff_exists'.mp hsome
    have hline : (string2bytes "\nShell server version 1.0").length = 25 := by decide +kernel
    have hunknown : (string2bytes "Unknown command").length = 15 := by decide +kernel
    rw [houtcome, Option.getD_some]
    constructor
    · intro heq
      exact absurd (word_inj hword (by decide) heq) (by decide)
    · intro param' message' hparam' heq
      obtain ⟨hword', -, hversion⟩ := mem_shellWords hparam'
      exact absurd (word_inj hword hword' heq).symm hversion
    · intro _
      refine ⟨fun value' hvalue' _ => ?_, fun hnone => absurd hnone hsome⟩
      rw [Option.some.inj (houtcome.symm.trans hvalue')]
    · intro hnone
      exact absurd rfl (hnone "version" hword)
    · intro word _ _ _ heq
      have hlength := congrArg List.length heq
      rw [List.length_append] at hlength
      omega
    · intro hnil
      have hlength := congrArg List.length hnil
      rw [List.length_append, List.length_nil] at hlength
      omega

/-- The request for help is not answered with the help. -/
theorem not_chosen_help :
    ¬Chosen outcome (string2bytes "help") (string2bytes "Unknown command") := by
  intro h
  have hhelp := h.help rfl
  revert hhelp
  decide +kernel

/-- For a request outside the command words the chosen text is `Unknown command`. -/
theorem chosen_unknown (h : ∀ word ∈ shellWords, applicationRequest ≠ string2bytes word) :
    Chosen outcome applicationRequest (string2bytes "Unknown command") := by
  constructor
  · intro heq
    exact absurd heq (h "help" (by decide))
  · intro param message hparam heq
    exact absurd heq (h param (mem_shellWords hparam).1)
  · intro heq
    exact absurd heq (h "version" (by decide))
  · exact fun _ => rfl
  · intro word hword heq
    exact absurd heq (h word hword)
  · decide +kernel

/-- The response is the one that was chosen, unless help is asked for, a parameter is asked for
that cannot be had or is empty, or the version cannot be had. -/
theorem answer_chosen_iff (outcome : String → Option Bytes) (sequenceNumber : UInt64)
    (applicationRequest applicationResponse : Bytes) :
    Chosen outcome applicationRequest
        (answerTo outcome sequenceNumber applicationRequest applicationResponse) ↔
      applicationRequest ≠ string2bytes "help" ∧
        (∀ param message, (param, message) ∈ failureMessages →
          applicationRequest = string2bytes param →
          ∃ value, outcome param = some value ∧ value ≠ []) ∧
        (applicationRequest = string2bytes "version" → outcome "version" ≠ none) := by
  obtain ⟨param, message, hparam, rfl⟩ | rfl | ⟨hparameter, hversion⟩ :=
    request_cases applicationRequest
  · obtain ⟨hword, hhelp, hversion⟩ := mem_shellWords hparam
    rw [answerTo_parameter hparam, chosen_parameter_iff hparam]
    refine ⟨fun h => ⟨?_, ?_, ?_⟩, fun h => h.2.1 param message hparam rfl⟩
    · intro heq
      exact hhelp (word_inj hword (by decide) heq)
    · intro param' message' hparam' heq
      obtain rfl := word_inj hword (mem_shellWords hparam').1 heq
      exact h
    · intro heq
      exact absurd (word_inj hword (by decide) heq) hversion
  · have hword : "version" ∈ shellWords := by decide
    rw [answerTo_version, chosen_version_iff]
    refine ⟨fun h => ⟨?_, ?_, fun _ => h⟩, fun h => h.2.2 rfl⟩
    · intro heq
      exact absurd (word_inj hword (by decide) heq) (by decide)
    · intro param message hparam heq
      obtain ⟨hparam, -, hversion⟩ := mem_shellWords hparam
      exact absurd (word_inj hword hparam heq).symm hversion
  · rw [answerTo_unknown hparameter hversion]
    by_cases hhelp : applicationRequest = string2bytes "help"
    · subst hhelp
      exact iff_of_false not_chosen_help fun h => h.1 rfl
    · refine iff_of_true (chosen_unknown ?_) ⟨hhelp,
        fun param message hparam heq => absurd heq (hparameter param message hparam),
        fun heq => absurd heq hversion⟩
      intro word hword heq
      simp only [shellWords, List.mem_cons, List.not_mem_nil, or_false] at hword
      obtain rfl | rfl | rfl | rfl | rfl := hword
      · exact hhelp heq
      · exact hparameter "hostname" "Shell server could not received hostname" (by decide) heq
      · exact hparameter "uptime" "Shell server could not receive uptime" (by decide) heq
      · exact hversion heq
      · exact hparameter "peers" "Shell server could not received peer addresses" (by decide) heq

/-- The request for help is answered as if it were no command. -/
theorem answer_chosen_help :
    answerTo (fun _ => none) 1 (string2bytes "help") [] = string2bytes "Unknown command" ∧
      ¬Chosen (fun _ => none) (string2bytes "help")
        (answerTo (fun _ => none) 1 (string2bytes "help") []) := by
  have hanswer : answerTo (fun _ => none) 1 (string2bytes "help") [] =
      string2bytes "Unknown command" := by
    decide +kernel
  refine ⟨hanswer, ?_⟩
  rw [hanswer]
  exact not_chosen_help

end

end San2.Shell
