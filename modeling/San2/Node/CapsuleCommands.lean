import San2.Library.LastWrite
import San2.Node.LineParser

/-!
# The stored capsule

The commands that begin with `capsule` show the fields of the stored capsule, set them, or put
all of them back. A field holds the value that was last accepted for it since the capsule was
last put back. Only `capsule dx off` stores another value than the one it was given.
-/

namespace San2.Node.CIpcChannel

open Utils Network Cppl StoppingProgram DragonSRP

/-- The fields that commands show and set. -/
inductive Field
  | src
  | dst
  | hop
  | hash
  | hexdata
  | dx
  deriving DecidableEq

namespace Field

/-- The word for a field. -/
def word : Field → Bytes
  | .src => string2bytes "src"
  | .dst => string2bytes "dst"
  | .hop => string2bytes "hop"
  | .hash => string2bytes "hash"
  | .hexdata => string2bytes "hexdata"
  | .dx => string2bytes "dx"

/-- The field that a word stands for. -/
def ofWord (word : Bytes) : Option Field :=
  if word = string2bytes "src" then some .src
  else if word = string2bytes "dst" then some .dst
  else if word = string2bytes "hop" then some .hop
  else if word = string2bytes "hash" then some .hash
  else if word = string2bytes "hexdata" then some .hexdata
  else if word = string2bytes "dx" then some .dx
  else none

/-- The type of the values of a field. -/
abbrev Value : Field → Type
  | .src => SanAddress
  | .dst => SanAddress
  | .hop => UInt16
  | .hash => SanApplicationId
  | .hexdata => Bytes
  | .dx => Bool

/-- The value of a field in a capsule. -/
def get : (field : Field) → CCapsule → field.Value
  | .src, c => c.srcAddress
  | .dst, c => c.dstAddress
  | .hop, c => c.hop
  | .hash, c => c.appId
  | .hexdata, c => c.data
  | .dx, c => c.flagDX

/-- A capsule with a value in a field. -/
def store : (field : Field) → CCapsule → field.Value → CCapsule
  | .src, c, value => c.setSourceAddress value
  | .dst, c, value => c.setDestinationAddress value
  | .hop, c, value => c.setHop value
  | .hash, c, value => c.setApplicationId value
  | .hexdata, c, value => c.setData value
  | .dx, c, value => c.setDX value

/-- The default value of a field. -/
def initial : (field : Field) → field.Value
  | .src => sanDefaultAddress
  | .dst => sanDefaultAddress
  | .hop => 255
  | .hash => sanDefaultApplicationId
  | .hexdata => string2bytes "default data"
  | .dx => false

/-- The text that shows a value. -/
def text : (field : Field) → field.Value → Bytes
  | .src, value => address2string value
  | .dst, value => address2string value
  | .hop, value => CStringUtils.uintToString value.toUInt32
  | .hash, value => appid2string value
  | .hexdata, value => value.flatMap byteToString
  | .dx, value => string2bytes (if value then "dx is on" else "dx is off")

/-- The result of a conversion that has succeeded. -/
def converted {α : Type} (value : Bool × α) : Option α := if value.1 then some value.2 else none

/-- The value that an argument stands for, if it is accepted. -/
def value : (field : Field) → Bytes → Option field.Value
  | .src, arg => converted (string2address arg sanDefaultAddress)
  | .dst, arg => converted (string2address arg sanDefaultAddress)
  | .hop, arg => (CStringUtils.stringToUint arg).bind fun ihop =>
      if maxHopCount < ihop.toNat then none else some ihop.toUInt16
  | .hash, arg => converted (string2appid arg sanDefaultApplicationId)
  | .hexdata, arg => converted (hexToBytes arg)
  | .dx, arg =>
    if arg = string2bytes "on" then some true
    else if arg = string2bytes "off" then some false
    else none

/-- What the command does that sets a field. -/
def set (env : CommandEnv) : Field → Bytes → ChannelM Unit
  | .src, arg => setField (string2address arg env.address) CCapsule.setSourceAddress
      "source address set OK" "setting source address failed - Wrong format?"
  | .dst, arg => setField (string2address arg env.address) CCapsule.setDestinationAddress
      "destination address set OK" "setting destination address failed - Wrong format?"
  | .hop, arg => setHopCount arg
  | .hash, arg => setField (string2appid arg env.appId) CCapsule.setApplicationId
      "hash/applicationId set OK" "setting hash/applicationId failed - Wrong format?"
  | .hexdata, arg => setField (hexToBytes arg) CCapsule.setData "data set OK"
      "setting data failed - Wrong format?"
  | .dx, arg => setDx arg

/-- The usage of `dst` is also that of `hop`. -/
def usage : Field → String
  | .src => "usage: capsule src  |  capsule src <SanAddress>"
  | .dst => "usage: capsule dst  |  capsule dst <SanAddress>"
  | .hop => "usage: capsule dst  |  capsule dst <SanAddress>"
  | .hash => "usage: capsule hash  |  capsule hash <SHA-1 hash in hex digits>"
  | .hexdata => "usage: capsule hexdata  |  capsule hexdata <data in hex>"
  | .dx => "usage: capsule dx on | capsule dx off | capsule dx"

/-- Each field has its own word. -/
theorem ofWord_word (field : Field) : ofWord field.word = some field := by
  cases field <;> decide +kernel

/-- No other word stands for a field. -/
theorem word_of_ofWord {word : Bytes} {field : Field} (h : ofWord word = some field) :
    word = field.word := by
  unfold ofWord at h
  split_ifs at h with hsrc hdst hhop hhash hhexdata hdx
  · obtain rfl := Option.some.inj h
    exact hsrc
  · obtain rfl := Option.some.inj h
    exact hdst
  · obtain rfl := Option.some.inj h
    exact hhop
  · obtain rfl := Option.some.inj h
    exact hhash
  · obtain rfl := Option.some.inj h
    exact hhexdata
  · obtain rfl := Option.some.inj h
    exact hdx

/-- To store a value changes this field only. -/
theorem get_store (field : Field) (c : CCapsule) (value : field.Value) (other : Field) :
    other.get (field.store c value) =
      Function.update (fun other => other.get c) field value other := by
  cases field <;> cases other <;> rfl

/-- A default capsule has the initial values. -/
theorem get_defaultCapsule (field : Field) (c : CCapsule) :
    field.get (defaultCapsule c) = field.initial := by
  cases field <;> rfl

/-- What the array held before does not matter to a conversion that succeeds. -/
theorem converted_string2array {size : ℕ} (str : Bytes) (array array' : FixedBytes size) :
    converted (string2array str array) = converted (string2array str array') := by
  unfold string2array
  rcases hexToBytes str with ⟨ok, b⟩
  cases ok with
  | false => rfl
  | true =>
    dsimp only
    by_cases hsize : b.length = size
    · rw [dif_pos hsize, dif_pos hsize]
    · rw [dif_neg hsize, dif_neg hsize]
      rfl

/-- What it does to the capsule to give a field the value of an argument. -/
def written (field : Field) (arg : Bytes) : LastWrite.Command Value :=
  match field.value arg with
  | some value => .write field value
  | none => .keep

end Field

/-- What a command does to the capsule, by the words behind that for the field. -/
def Field.command (field : Field) : List Bytes → LastWrite.Command Value
  | [arg] => field.written arg
  | _ => .keep

/-- What a command does to the capsule, by the words behind `capsule`. -/
def command : List Bytes → LastWrite.Command Field.Value
  | [] => .keep
  | word :: more =>
    if word = string2bytes "default" then .reset
    else (Field.ofWord word).elim .keep fun field => field.command more

/-- A capsule after a command for its fields. -/
def capsuleAfter (c : CCapsule) : LastWrite.Command Field.Value → CCapsule
  | .write field value => field.store c value
  | .reset => defaultCapsule c
  | .keep => c

/-- A command changes the fields of a capsule as it says. -/
theorem get_capsuleAfter (c : CCapsule) (command : LastWrite.Command Field.Value) :
    (fun field : Field => field.get (capsuleAfter c command)) =
      command.apply Field.initial fun field => field.get c := by
  funext other
  cases command with
  | write field value => exact field.get_store c value other
  | reset => exact other.get_defaultCapsule c
  | keep => rfl

/-- A value whose conversion has succeeded is stored, and nothing else is. -/
theorem ends_setField {α : Type} (value : Bool × α) (store : CCapsule → α → CCapsule)
    (ok fail : String) (s : CIpcChannel) :
    ∃ sent, Ends (setField value store ok fail) s (.ok ())
      { s with
        m_capsule := (Field.converted value).elim s.m_capsule (store s.m_capsule)
        sent := sent } := by
  rcases value with ⟨valid, value⟩
  cases valid with
  | true => exact ⟨_, ends_modify_bind (ends_sendLine (string2bytes ok) _)⟩
  | false => exact ⟨_, ends_sendLine (string2bytes fail) s⟩

/-- A converted value that the field takes is written. -/
theorem capsuleAfter_written {field : Field} {arg : Bytes} {value : Option field.Value}
    (h : field.value arg = value) (c : CCapsule) :
    capsuleAfter c (field.written arg) = value.elim c (field.store c) := by
  unfold Field.written
  rw [h]
  cases value with
  | none => rfl
  | some value => rfl

/-- `capsule hop` stores the number if it is one that is allowed. -/
theorem ends_setHopCount (arg : Bytes) (s : CIpcChannel) :
    ∃ sent, Ends (setHopCount arg) s (.ok ())
      { s with m_capsule := capsuleAfter s.m_capsule (Field.hop.written arg), sent := sent } := by
  have hvalue : Field.hop.value arg = (CStringUtils.stringToUint arg).bind fun ihop =>
      if maxHopCount < ihop.toNat then none else some ihop.toUInt16 := rfl
  rw [capsuleAfter_written hvalue]
  unfold setHopCount
  cases CStringUtils.stringToUint arg with
  | none => exact ⟨_, ends_sendLine _ s⟩
  | some ihop =>
    dsimp only [Option.bind_some]
    by_cases hlarge : maxHopCount < ihop.toNat
    · rw [if_pos hlarge, if_pos hlarge]
      exact ⟨_, ends_sendLine _ s⟩
    · rw [if_neg hlarge, if_neg hlarge]
      exact ⟨_, ends_modify_bind (ends_sendLine _ _)⟩

/-- Of the two words for the flag, the one that clears it sets it. -/
theorem ends_setDx (arg : Bytes) (s : CIpcChannel) :
    ∃ sent, Ends (setDx arg) s (.ok ())
      { s with
        m_capsule := if arg = string2bytes "off" then s.m_capsule.setDX true
          else capsuleAfter s.m_capsule (Field.dx.written arg)
        sent := sent } := by
  have hon : string2bytes "on" ≠ string2bytes "off" := by decide +kernel
  have hvalue : Field.dx.value arg = if arg = string2bytes "on" then some true
      else if arg = string2bytes "off" then some false else none := rfl
  rw [capsuleAfter_written hvalue]
  unfold setDx
  by_cases hset : arg = string2bytes "on"
  · subst hset
    rw [if_pos rfl, if_pos rfl, if_neg hon]
    exact ⟨_, ends_modify_bind (ends_sendLine _ _)⟩
  · rw [if_neg hset, if_neg hset]
    by_cases hclear : arg = string2bytes "off"
    · rw [if_pos hclear, if_pos hclear]
      exact ⟨_, ends_modify_bind (ends_sendLine _ _)⟩
    · rw [if_neg hclear, if_neg hclear, if_neg hclear]
      exact ⟨_, ends_sendLine _ s⟩

/-- Every field is set to its argument, except for `dx off`. -/
theorem ends_set {field : Field} {arg : Bytes}
    (h : ¬(field = .dx ∧ arg = string2bytes "off")) (env : CommandEnv) (s : CIpcChannel) :
    ∃ sent, Ends (field.set env arg) s (.ok ())
      { s with m_capsule := capsuleAfter s.m_capsule (field.written arg), sent := sent } := by
  cases field with
  | src =>
    have hvalue : Field.src.value arg = Field.converted (string2address arg env.address) :=
      Field.converted_string2array arg _ _
    rw [capsuleAfter_written hvalue]
    exact ends_setField _ _ _ _ s
  | dst =>
    have hvalue : Field.dst.value arg = Field.converted (string2address arg env.address) :=
      Field.converted_string2array arg _ _
    rw [capsuleAfter_written hvalue]
    exact ends_setField _ _ _ _ s
  | hop => exact ends_setHopCount arg s
  | hash =>
    have hvalue : Field.hash.value arg = Field.converted (string2appid arg env.appId) :=
      Field.converted_string2array arg _ _
    rw [capsuleAfter_written hvalue]
    exact ends_setField _ _ _ _ s
  | hexdata =>
    have hvalue : Field.hexdata.value arg = Field.converted (hexToBytes arg) := rfl
    rw [capsuleAfter_written hvalue]
    exact ends_setField _ _ _ _ s
  | dx =>
    have hclear : arg ≠ string2bytes "off" := fun heq => h ⟨rfl, heq⟩
    obtain ⟨sent, hends⟩ := ends_setDx arg s
    rw [if_neg hclear] at hends
    exact ⟨sent, hends⟩

/-- `capsule` with a word behind it: one of the fields, or `default`. -/
theorem capsuleCommand_cons (env : CommandEnv) (name word : Bytes) (more : List Bytes) :
    capsuleCommand env (name :: word :: more) =
      if word = string2bytes "default" then do
        setDefaultCapsule
        sendLine (string2bytes "capsule default values set OK")
        return .success
      else match Field.ofWord word with
        | some field => capsuleField (name :: word :: more)
            (fun c => field.text (field.get c)) (field.set env) field.usage
        | none => return .success := by
  have hsize : ¬(name :: word :: more).length < 2 := by
    rw [List.length_cons, List.length_cons]
    omega
  have hsecond : (name :: word :: more)[1]? = some word := rfl
  unfold capsuleCommand Field.ofWord
  rw [if_neg hsize, argument_of_getElem? hsecond, pure_bind]
  by_cases hdefault : word = string2bytes "default"
  · rw [if_pos hdefault, if_pos hdefault]
  rw [if_neg hdefault, if_neg hdefault]
  by_cases hsrc : word = string2bytes "src"
  · rw [if_pos hsrc, if_pos hsrc]
    rfl
  rw [if_neg hsrc, if_neg hsrc]
  by_cases hdst : word = string2bytes "dst"
  · rw [if_pos hdst, if_pos hdst]
    rfl
  rw [if_neg hdst, if_neg hdst]
  by_cases hhop : word = string2bytes "hop"
  · rw [if_pos hhop, if_pos hhop]
    rfl
  rw [if_neg hhop, if_neg hhop]
  by_cases hhash : word = string2bytes "hash"
  · rw [if_pos hhash, if_pos hhash]
    rfl
  rw [if_neg hhash, if_neg hhash]
  by_cases hhexdata : word = string2bytes "hexdata"
  · rw [if_pos hhexdata, if_pos hhexdata]
    rfl
  rw [if_neg hhexdata, if_neg hhexdata]
  by_cases hdx : word = string2bytes "dx"
  · rw [if_pos hdx, if_pos hdx]
    rfl
  · rw [if_neg hdx, if_neg hdx]

/-- The words that are to clear the flag. -/
def clearWords : List Bytes := [string2bytes "dx", string2bytes "off"]

/-- `capsule default` resets the capsule. -/
theorem ends_capsule_default (env : CommandEnv) (more : List Bytes) (s : CIpcChannel) :
    ∃ sent, Ends (lineParser env (string2bytes "capsule" :: string2bytes "default" :: more)) s
      (.ok .success) { s with m_capsule := defaultCapsule s.m_capsule, sent := sent } := by
  rw [lineParser_capsule, capsuleCommand_cons, if_pos rfl]
  exact ⟨_, ends_modify_bind ((ends_sendLine _ _).bind_ok (ends_pure _ _))⟩

/-- A word that stands for a field is not `default`. -/
theorem ne_default_of_ofWord {word : Bytes} {field : Field}
    (h : Field.ofWord word = some field) : word ≠ string2bytes "default" := by
  have hnone : Field.ofWord (string2bytes "default") = none := by decide +kernel
  rintro rfl
  rw [hnone] at h
  cases h

section

variable {word : Bytes} {field : Field}

/-- The command `capsule` with the word of a field goes on with this field. -/
theorem lineParser_field (hword : Field.ofWord word = some field) (env : CommandEnv)
    (more : List Bytes) :
    lineParser env (string2bytes "capsule" :: word :: more) =
      capsuleField (string2bytes "capsule" :: word :: more) (fun c => field.text (field.get c))
        (field.set env) field.usage := by
  rw [lineParser_capsule, capsuleCommand_cons, if_neg (ne_default_of_ofWord hword), hword]

/-- With its word alone a field is shown. -/
theorem ends_capsule_show (hword : Field.ofWord word = some field) (env : CommandEnv)
    (s : CIpcChannel) :
    Ends (lineParser env [string2bytes "capsule", word]) s (.ok .success)
      { s with sent := s.sent ++ [field.text (field.get s.m_capsule), [0x0A]] } := by
  rw [lineParser_field hword]
  exact ends_get_bind ((ends_sendLine _ s).bind_ok (ends_pure _ _))

/-- With one more argument it is set. -/
theorem ends_capsule_set (hword : Field.ofWord word = some field) {env : CommandEnv} {arg : Bytes}
    {s s' : CIpcChannel} (hset : Ends (field.set env arg) s (.ok ()) s') :
    Ends (lineParser env [string2bytes "capsule", word, arg]) s (.ok .success) s' := by
  have hthird : [string2bytes "capsule", word, arg][2]? = some arg := rfl
  rw [lineParser_field hword]
  unfold capsuleField
  dsimp only [List.length_cons, List.length_nil]
  rw [argument_of_getElem? hthird, pure_bind]
  exact hset.bind_ok (ends_pure _ _)

/-- With more arguments its usage is shown. -/
theorem ends_capsule_usage (hword : Field.ofWord word = some field) (env : CommandEnv)
    (first second : Bytes) (rest : List Bytes) (s : CIpcChannel) :
    Ends (lineParser env (string2bytes "capsule" :: word :: first :: second :: rest)) s
      (.ok .success) { s with sent := s.sent ++ [string2bytes field.usage, [0x0A]] } := by
  rw [lineParser_field hword]
  exact (ends_sendLine (string2bytes field.usage) s).bind_ok (ends_pure _ _)

end

/-- A command does to the capsule what it is meant to do, unless it is to clear the flag. -/
theorem ends_capsule {words : List Bytes} (h : words ≠ clearWords) (env : CommandEnv)
    (s : CIpcChannel) :
    ∃ sent, Ends (lineParser env (string2bytes "capsule" :: words)) s (.ok .success)
      { s with m_capsule := capsuleAfter s.m_capsule (command words), sent := sent } := by
  rcases words with _ | ⟨word, more⟩
  · rw [lineParser_capsule, capsuleCommand, if_pos (by simp)]
    exact ⟨_, (ends_sendLine _ s).bind_ok (ends_pure _ _)⟩
  by_cases hdefault : word = string2bytes "default"
  · rw [command, if_pos hdefault, hdefault]
    exact ends_capsule_default env more s
  rw [command, if_neg hdefault]
  cases hword : Field.ofWord word with
  | none =>
    rw [lineParser_capsule, capsuleCommand_cons, if_neg hdefault, hword]
    exact ⟨s.sent, ends_pure _ s⟩
  | some field =>
    rcases more with _ | ⟨first, _ | ⟨second, rest⟩⟩
    · exact ⟨_, ends_capsule_show hword env s⟩
    · have hset : ¬(field = .dx ∧ first = string2bytes "off") := by
        rintro ⟨rfl, rfl⟩
        exact h (congrArg (fun word => [word, string2bytes "off"]) (Field.word_of_ofWord hword))
      obtain ⟨sent, hends⟩ := ends_set hset env s
      exact ⟨sent, ends_capsule_set hword hends⟩
    · exact ⟨_, ends_capsule_usage hword env first second rest s⟩

/-- `capsule dx off` sets the flag. -/
theorem ends_capsule_clear (env : CommandEnv) (s : CIpcChannel) :
    ∃ sent, Ends (lineParser env (string2bytes "capsule" :: clearWords)) s (.ok .success)
      { s with m_capsule := s.m_capsule.setDX true, sent := sent } := by
  obtain ⟨sent, hends⟩ := ends_setDx (string2bytes "off") s
  rw [if_pos rfl] at hends
  exact ⟨sent, ends_capsule_set Field.dx.ofWord_word hends⟩

/-- The channel after commands that begin with `capsule`, given by the words behind it. -/
def performCapsule (commands : List (CommandEnv × List Bytes)) (s : CIpcChannel) : CIpcChannel :=
  commands.foldl (fun s given => after (lineParser given.1 (string2bytes "capsule" :: given.2)) s) s

/-- The last of several commands is performed last. -/
theorem performCapsule_concat (commands : List (CommandEnv × List Bytes)) (env : CommandEnv)
    (words : List Bytes) (s : CIpcChannel) :
    performCapsule (commands ++ [(env, words)]) s =
      after (lineParser env (string2bytes "capsule" :: words)) (performCapsule commands s) :=
  List.foldl_concat _ _ _ _

/-- What a field is to hold after the commands that were given. -/
def heldField (given : List (List Bytes)) (field : Field) : field.Value :=
  LastWrite.held Field.initial (given.map command) field

/-- The capsule holds what was last accepted, a value that is rejected changes nothing, and what
it holds is shown. -/
structure Remembers (given : List (List Bytes)) (s : CIpcChannel) : Prop where
  holds : ∀ field : Field, field.get s.m_capsule = heldField given field
  rejects : ∀ (env : CommandEnv) (field : Field) (arg : Bytes), field.value arg = none →
    (after (lineParser env [string2bytes "capsule", field.word, arg]) s).m_capsule = s.m_capsule
  shows : ∀ (env : CommandEnv) (field : Field),
    Ends (lineParser env [string2bytes "capsule", field.word]) s (.ok .success)
      { s with sent := s.sent ++ [field.text (heldField given field), [0x0A]] }

/-- The last of several commands writes last. -/
theorem heldField_concat (given : List (List Bytes)) (words : List Bytes) :
    heldField (given ++ [words]) = (command words).apply Field.initial (heldField given) := by
  unfold heldField
  rw [List.map_append]
  exact LastWrite.held_concat (given.map command) (command words)

/-- The value of `off` is false. -/
theorem value_clear : Field.dx.value (string2bytes "off") = some false := by decide +kernel

/-- A capsule that holds what it should shows it, and rejects what has no value. -/
theorem remembers_of_holds {given : List (List Bytes)} {s : CIpcChannel}
    (h : ∀ field : Field, field.get s.m_capsule = heldField given field) : Remembers given s := by
  refine ⟨h, ?_, ?_⟩
  · intro env field arg hrejected
    have hset : ¬(field = .dx ∧ arg = string2bytes "off") := by
      rintro ⟨rfl, rfl⟩
      rw [value_clear] at hrejected
      cases hrejected
    obtain ⟨sent, hends⟩ := ends_set hset env s
    rw [capsuleAfter_written hrejected] at hends
    rw [(ends_capsule_set field.ofWord_word hends).2]
    rfl
  · intro env field
    rw [← h field]
    exact ends_capsule_show field.ofWord_word env s

/-- A step keeps what is held, unless it is to clear the flag. -/
theorem Remembers.step {given : List (List Bytes)} {s : CIpcChannel} (h : Remembers given s)
    {words : List Bytes} (hwords : words ≠ clearWords) (env : CommandEnv) :
    Remembers (given ++ [words]) (after (lineParser env (string2bytes "capsule" :: words)) s) := by
  obtain ⟨sent, hends⟩ := ends_capsule hwords env s
  refine remembers_of_holds fun field => ?_
  have hheld : (fun field : Field => field.get s.m_capsule) = heldField given := funext h.holds
  rw [hends.2, heldField_concat, ← hheld, ← get_capsuleAfter]

/-- Without `dx off` every sequence of commands is remembered. -/
theorem remembers_run (memory : CCapsule) {commands : List (CommandEnv × List Bytes)}
    (h : ∀ given ∈ commands, given.2 ≠ clearWords) :
    Remembers (commands.map Prod.snd) (performCapsule commands (create memory)) := by
  induction commands using List.reverseRecOn with
  | nil => exact remembers_of_holds fun field => field.get_defaultCapsule memory
  | append_singleton commands last ih =>
    obtain ⟨env, words⟩ := last
    have hbefore := ih fun given hgiven => h given (List.mem_append_left _ hgiven)
    have hwords : words ≠ clearWords := h (env, words) (List.mem_append_right _ List.mem_cons_self)
    rw [List.map_append, performCapsule_concat]
    exact hbefore.step hwords env

/-- Behind a command that is to clear the flag, it is set. -/
theorem not_remembers_clear (given : List (List Bytes)) (env : CommandEnv) (s : CIpcChannel) :
    ¬Remembers (given ++ [clearWords])
      (after (lineParser env (string2bytes "capsule" :: clearWords)) s) := by
  intro h
  obtain ⟨sent, hends⟩ := ends_capsule_clear env s
  have hword := Field.dx.ofWord_word
  have hcommand : command clearWords = .write .dx false := by
    change command [Field.dx.word, string2bytes "off"] = _
    rw [command, if_neg (ne_default_of_ofWord hword), hword]
    change Field.dx.written (string2bytes "off") = _
    rw [Field.written, value_clear]
  have hdx := h.holds .dx
  rw [hends.2, heldField_concat, hcommand] at hdx
  cases hdx

/-- Whatever commands are given to a new channel, the capsule remembers them all along, if and
only if none of them is to clear the flag. -/
theorem capsule_remembers_iff (memory : CCapsule) (commands : List (CommandEnv × List Bytes)) :
    (∀ given, given <+: commands →
      Remembers (given.map Prod.snd) (performCapsule given (create memory))) ↔
      ∀ given ∈ commands, given.2 ≠ clearWords := by
  constructor
  · rintro h ⟨env, words⟩ hgiven rfl
    obtain ⟨earlier, later, hsplit⟩ := List.append_of_mem hgiven
    have hprefix : earlier ++ [(env, clearWords)] <+: commands :=
      ⟨later, by rw [hsplit, List.append_assoc, List.singleton_append]⟩
    have hremembers := h _ hprefix
    rw [performCapsule_concat, List.map_append] at hremembers
    exact not_remembers_clear _ env _ hremembers
  · intro h given hbefore
    exact remembers_run memory fun command hcommand => h command (hbefore.subset hcommand)

/-- The flag is cleared, and it is shown to be set. -/
theorem capsule_remembers_off :
    Field.dx.get (performCapsule [(idleEnv, clearWords)] (create idleEnv.memory)).m_capsule =
        true ∧
      ¬Remembers [clearWords] (performCapsule [(idleEnv, clearWords)] (create idleEnv.memory)) :=
  ⟨by decide +kernel, not_remembers_clear [] idleEnv (create idleEnv.memory)⟩

end San2.Node.CIpcChannel
