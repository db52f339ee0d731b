import San2.Cppl.BufferProcessor
import San2.Crypto.Datagram
import San2.Interfaces.CTcpInterface
import San2.Utils.Address
import San2.Utils.CStringUtils

/-!
# The terminal of a node

A `CIpcChannel` reads lines from a pipe, cuts them into arguments and performs the command
that the first one names. `capsule` looks at the fields of a stored capsule and sets them,
`send` puts it into the input queue of the node, and `sendmsg` one that it makes up itself.
A command that reads an argument that is not there, or still waits for room in the queue,
does not come back.
-/

namespace San2.Network

/-- `sanDefaultApplicationId` -/
def sanDefaultApplicationId : SanApplicationId := FixedBytes.replicate sanHashSize 0

/-- `InterfaceLineStatus` -/
inductive InterfaceLineStatus
  | connected
  | disconnected
  | failure
  deriving DecidableEq, Repr

end San2.Network

namespace San2.Node

open Utils Network Cppl StoppingProgram DragonSRP

/-- `SAN2_CIPCCHANNEL_MAX_HOPCOUNT` -/
abbrev maxHopCount : ℕ := 65535

/-- A call of `push`: the queue that it finds, whether the thread of the node is terminated
then, and how its waits end. -/
structure PushTurn where
  queue : CProducerConsumer CCapsule
  terminated : Bool
  wakes : List (CProducerConsumer.Wake CCapsule)

/-- What the command `peers` shows of an interface. -/
structure PeerLine where
  rxState : InterfaceLineStatus
  txState : InterfaceLineStatus
  interfaceAddress : SanAddress
  peerAddress : SanAddress

/-- What a command takes from outside: what the memory of its new objects holds, the
interfaces of the node, and the two calls of `push`. -/
structure CommandEnv where
  memory : CCapsule
  address : SanAddress
  appId : SanApplicationId
  interfaces : List PeerLine
  blocking : PushTurn
  timed : PushTurn

/-- The stored capsule, the strings that were passed to `send`, and what the commands have
appended to the input queue. -/
structure CIpcChannel where
  m_capsule : CCapsule
  sent : List Bytes
  enqueued : List CCapsule
  deriving DecidableEq

/-- A method of a `CIpcChannel`. -/
abbrev ChannelM := Program Stop CIpcChannel

namespace CIpcChannel

/-- `send`: a text for the terminal. -/
def send (nullTerminatedString : Bytes) : ChannelM Unit :=
  modify fun s => { s with sent := s.sent ++ [nullTerminatedString] }

/-- `sendLine` sends the text and a line feed. -/
def sendLine (nullTerminatedString : Bytes) : ChannelM Unit := do
  send nullTerminatedString
  send [0x0A]

/-- `args[index]` -/
def argument (args : List Bytes) (index : ℕ) : ChannelM Bytes :=
  match args[index]? with
  | some arg => return arg
  | none => throw .outOfBounds

/-- `CNode::injectCapsule` with one of the two operations that it passes the capsule to. The
result is the code, as a `bool`. -/
def injectCapsule (push : CCapsule → CProducerConsumer.Call CCapsule) (turn : PushTurn)
    (capsule : CCapsule) : ChannelM Bool := do
  match (push capsule).run turn.terminated turn.queue turn.wakes with
  | (found, .returns code left _) =>
    modify fun s => { s with enqueued := s.enqueued ++ left.m_que.drop found.m_que.length }
    return code ≠ 0
  | (_, .waits) => throw .waiting
  | (_, .outOfBounds) => throw .outOfBounds

/-- The end of the commands that send a capsule: it is injected once without a thread, and once
with a thread and a timeout. -/
def inject (env : CommandEnv) (capsule : CCapsule) (ok fail : String) : ChannelM ErrorCode := do
  let _ ← injectCapsule .pushBlocking env.blocking capsule
  let full ← injectCapsule .push env.timed capsule
  if !full then sendLine (string2bytes ok)
  else sendLine (string2bytes fail)
  return .success

/-- The capsule with the fields that a new channel gives it. -/
def defaultCapsule (c : CCapsule) : CCapsule :=
  let c := ((c.setDestinationAddress sanDefaultAddress).setSourceAddress
    sanDefaultAddress).setFromInterfaceAddress sanDefaultAddress
  (((c.setHop 255).setApplicationId sanDefaultApplicationId).setDX false).setData
    (string2bytes "default data")

/-- `CIpcChannel::setDefaultCapsule` -/
def setDefaultCapsule : ChannelM Unit :=
  modify fun s => { s with m_capsule := defaultCapsule s.m_capsule }

/-- The constructor. -/
def create (memory : CCapsule) : CIpcChannel := ⟨defaultCapsule memory, [], []⟩

/-- `statusToString` -/
def statusToString : InterfaceLineStatus → String
  | .connected => "conn"
  | .disconnected => "diss"
  | .failure => "fail"

/-- A field of the stored capsule: with two arguments it is shown, with three it is set. -/
def capsuleField (args : List Bytes) (print : CCapsule → Bytes) (set : Bytes → ChannelM Unit)
    (usage : String) : ChannelM ErrorCode := do
  match args.length with
  | 2 => sendLine (print (← get).m_capsule)
  | 3 => set (← argument args 2)
  | _ => sendLine (string2bytes usage)
  return .success

/-- The value is stored if its conversion has succeeded. -/
def setField {α : Type} (value : Bool × α) (store : CCapsule → α → CCapsule)
    (ok fail : String) : ChannelM Unit :=
  if value.1 then do
    modify fun s => { s with m_capsule := store s.m_capsule value.2 }
    sendLine (string2bytes ok)
  else sendLine (string2bytes fail)

/-- `capsule hop` with a number. -/
def setHopCount (arg : Bytes) : ChannelM Unit :=
  match CStringUtils.stringToUint arg with
  | none => sendLine (string2bytes "cannot parse hop count number")
  | some ihop =>
    if maxHopCount < ihop.toNat then
      sendLine (string2bytes "failed: hop count must be less or equal than 65535")
    else do
      modify fun s => { s with m_capsule := s.m_capsule.setHop ihop.toUInt16 }
      sendLine (string2bytes "hop count set OK")

/-- Both words set the flag. -/
def setDx (arg : Bytes) : ChannelM Unit :=
  if arg = string2bytes "on" then do
    modify fun s => { s with m_capsule := s.m_capsule.setDX true }
    sendLine (string2bytes "dx enabled OK")
  else if arg = string2bytes "off" then do
    modify fun s => { s with m_capsule := s.m_capsule.setDX true }
    sendLine (string2bytes "dx disabled OK")
  else sendLine (string2bytes "usage: capsule dx on | capsule dx off")

/-- The usage of `capsule`. -/
def capsuleUsage : String := "usage: capsule <default|src|dst|hop|hash|hexdata|dx>"

/-- The command `capsule`: a field is shown or set. -/
def capsuleCommand (env : CommandEnv) (args : List Bytes) : ChannelM ErrorCode := do
  if args.length < 2 then
    sendLine (string2bytes capsuleUsage)
    return .success
  else
    let field ← argument args 1
    if field = string2bytes "default" then
      setDefaultCapsule
      sendLine (string2bytes "capsule default values set OK")
      return .success
    else if field = string2bytes "src" then
      capsuleField args (fun c => address2string c.srcAddress)
        (fun arg => setField (string2address arg env.address) CCapsule.setSourceAddress
          "source address set OK" "setting source address failed - Wrong format?")
        "usage: capsule src  |  capsule src <SanAddress>"
    else if field = string2bytes "dst" then
      capsuleField args (fun c => address2string c.dstAddress)
        (fun arg => setField (string2address arg env.address) CCapsule.setDestinationAddress
          "destination address set OK" "setting destination address failed - Wrong format?")
        "usage: capsule dst  |  capsule dst <SanAddress>"
    else if field = string2bytes "hop" then
      capsuleField args (fun c => CStringUtils.uintToString c.hop.toUInt32) setHopCount
        "usage: capsule dst  |  capsule dst <SanAddress>"
    else if field = string2bytes "hash" then
      capsuleField args (fun c => appid2string c.appId)
        (fun arg => setField (string2appid arg env.appId) CCapsule.setApplicationId
          "hash/applicationId set OK" "setting hash/applicationId failed - Wrong format?")
        "usage: capsule hash  |  capsule hash <SHA-1 hash in hex digits>"
    else if field = string2bytes "hexdata" then
      capsuleField args (fun c => c.data.flatMap byteToString)
        (fun arg => setField (hexToBytes arg) CCapsule.setData "data set OK"
          "setting data failed - Wrong format?")
        "usage: capsule hexdata  |  capsule hexdata <data in hex>"
    else if field = string2bytes "dx" then
      capsuleField args
        (fun c => string2bytes (if c.flagDX then "dx is on" else "dx is off")) setDx
        "usage: capsule dx on | capsule dx off | capsule dx"
    else return .success

/-- The command `send`. -/
def sendCommand (env : CommandEnv) : ChannelM ErrorCode := do
  let s ← get
  inject env s.m_capsule "inject OK" "inject FAIL (inputQueue full)"

/-- The lines that `peers` sends for the interfaces. -/
def sendPeers : List PeerLine → ChannelM Unit
  | [] => return ()
  | line :: lines => do
    send (string2bytes "IFACE status RX:")
    send (string2bytes (statusToString line.rxState))
    send (string2bytes "   TX:")
    sendLine (string2bytes (statusToString line.txState))
    send (string2bytes ">> iadr: ")
    sendLine (address2string line.interfaceAddress)
    send (string2bytes ">> peer: ")
    sendLine (address2string line.peerAddress)
    send [0x0A]
    sendPeers lines

/-- The command `peers`. -/
def peersCommand (env : CommandEnv) : ChannelM ErrorCode := do
  sendPeers env.interfaces
  return .success

/-- The usage of `sendmsg`. -/
def sendmsgUsage : String := "usage: sendmsg <DestinationSanAddress> <message text>"

/-- What `sendmsg` says of spaces. -/
def sendmsgNote : String :=
  "note: spaces are trimmed (will be fixed in later releases - parser is not so clever)"

/-- The capsule that `sendmsg` makes of a new object. -/
def messageCapsule (memory : CCapsule) (msgDestinationAddress : SanAddress) (messageData : Bytes) :
    CCapsule :=
  let c := ((memory.setDestinationAddress msgDestinationAddress).setSourceAddress
    sanDefaultAddress).setFromInterfaceAddress sanDefaultAddress
  (((c.setHop 255).setApplicationId sanTestMessageApplicationId).setDX true).setData messageData

/-- Behind the usage the command goes on. -/
def sendmsgCommand (env : CommandEnv) (args : List Bytes) : ChannelM ErrorCode := do
  if args.length < 3 then
    sendLine (string2bytes sendmsgUsage)
    sendLine (string2bytes sendmsgNote)
  let messageData := (args.drop 2).flatten
  let address ← argument args 1
  match string2address address env.address with
  | (false, _) =>
    sendLine (string2bytes "destination address is in wrong format")
    return .success
  | (true, msgDestinationAddress) =>
    inject env (messageCapsule env.memory msgDestinationAddress messageData) "sendmsg inject OK"
      "sendmsg FAIL (inputQueue full)"

/-- The command `help`. -/
def helpCommand : ChannelM ErrorCode := do
  sendLine (string2bytes "capsule - get/set capsule fields")
  sendLine (string2bytes
    "send    - send capsule with fileds previously set in the capsule command")
  sendLine (string2bytes "peers   - show interfaces addresses")
  sendLine (string2bytes "exit    - close terminal connection")
  return .success

/-- `CIpcChannel::lineParser` -/
def lineParser (env : CommandEnv) (args : List Bytes) : ChannelM ErrorCode := do
  let command ← argument args 0
  if command = string2bytes "send" then sendCommand env
  else if command = string2bytes "capsule" then capsuleCommand env args
  else if command = string2bytes "peers" then peersCommand env
  else if command = string2bytes "sendmsg" then sendmsgCommand env args
  else if command = string2bytes "help" then helpCommand
  else
    sendLine (string2bytes "unknown command, type help for list of commands")
    return .success

/-- The arguments that `receive` makes of what `readLine` has left in its buffer. -/
def arguments (line : Bytes) : List Bytes := CStringUtils.split (line.takeWhile (· ≠ 0)) 0x20

/-- What `readLine` delivers, and what a command then takes from outside. -/
structure TerminalTurn where
  rval : ErrorCode
  line : Bytes
  env : CommandEnv

/-- The prompt. -/
def printShell (nodeName : Bytes) : ChannelM Unit := do
  send nodeName
  send (string2bytes ">")

/-- One turn of the loop of `receive`, and what it makes `receive` return, if anything. -/
def receiveTurn (nodeName : Bytes) (turn : TerminalTurn) : ChannelM (Option ErrorCode) := do
  printShell nodeName
  if turn.rval = .peerDisconnect then return some .peerDisconnect
  else if turn.rval ≠ .success then return some .success
  else
    let args := arguments turn.line
    if args.length < 1 then return none
    else
      let command ← argument args 0
      if command = string2bytes "exit" then
        sendLine (string2bytes "exit requested")
        return some .requestDisconnect
      else
        let rval ← lineParser turn.env args
        if rval = .success then return none else return some rval

/-- The loop of `receive` over the turns so far. -/
def receiveLoop (nodeName : Bytes) : List TerminalTurn → ChannelM (Option ErrorCode)
  | [] => return none
  | turn :: turns => do
    match ← receiveTurn nodeName turn with
    | none => receiveLoop nodeName turns
    | some rval => return some rval

/-- `CIpcChannel::receive` -/
def receive (nodeName : Bytes) (turns : List TerminalTurn) : ChannelM (Option ErrorCode) := do
  sendLine (string2bytes "Welcome to SAN node terminal")
  receiveLoop nodeName turns

end CIpcChannel

end San2.Node
