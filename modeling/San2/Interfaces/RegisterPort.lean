import San2.Node.CPortmap
import San2.Rpc.RpcConnection

/-!
# The function that registers a port

`RegisterOut` asks for a port and `RegisterIn` answers for the channel of an application. The
answer is 3 when the port has been registered. Otherwise it is what the local variable
`returnValue` holds, which nothing is stored in: the branch for a port that is taken is never
reached.
-/

namespace San2

open Utils

namespace Interfaces

/-- The members of a `RegisterOut`. -/
structure RegisterOut where
  m_port : UInt16
  m_result : Int32

namespace RegisterOut

/-- The constructor leaves `m_port` to `setPort`. -/
def create : RegisterOut := ⟨0, -1⟩

/-- `RegisterOut::setPort` -/
def setPort (port : UInt16) (func : RegisterOut) : Bool × RegisterOut :=
  (true, { func with m_port := port })

/-- `RegisterOut::getUniqueId` -/
def getUniqueId : UInt32 := 4896

/-- `RegisterOut::pack` -/
def pack (host : ByteOrder) (func : RegisterOut) : Bool × Bytes :=
  (true, CDataPack.packUint16 host func.m_port)

/-- `RegisterOut::parseResponse` -/
def parseResponse (host : ByteOrder) (data : Bytes) (func : RegisterOut) : Bool × RegisterOut :=
  (true, { func with m_result := CDataPack.unpackInt32 host data 0 })

/-- `RegisterOut::wasRegistered` -/
def wasRegistered (func : RegisterOut) : Bool := func.m_result = 3

/-- The object as the invoker uses it. -/
def function (host : ByteOrder) (func : RegisterOut) : Rpc.CIRpcSyncFunctionOut where
  getUniqueId := getUniqueId
  pack := if (func.pack host).1 then some (func.pack host).2 else none
  parseResponse data := (func.parseResponse host data).1

end RegisterOut

/-- The members of a `RegisterIn`. -/
structure RegisterIn where
  m_port : UInt16
  m_response : Bytes

/-- What the functions of an application's channel work on: the port map of the node, the
queue of the channel, the object that registers ports and the other objects. -/
structure ChannelState (κ ρ : Type) where
  m_portmap : Node.CPortmap κ
  m_applicationQueue : κ
  registerIn : RegisterIn
  /-- What `returnValue` holds in the next call before anything is stored in it. -/
  indeterminate : Int32
  others : ρ

namespace RegisterIn

variable {κ ρ : Type}

/-- `RegisterIn::getUniqueId` -/
def getUniqueId : UInt32 := 4896

/-- `RegisterIn::unpack` -/
def unpack (host : ByteOrder) (data : Bytes) (s : ChannelState κ ρ) : Bool × ChannelState κ ρ :=
  (true, { s with
    registerIn := { s.registerIn with m_port := CDataPack.unpackUint16 host data 0 } })

/-- `RegisterIn::operator()` -/
def call (host : ByteOrder) (s : ChannelState κ ρ) : ChannelState κ ρ :=
  let (registered, m_portmap) :=
    s.m_portmap.registerPort s.registerIn.m_port s.m_applicationQueue
  let returnValue :=
    if registered then 3
    else if registered then 2
    else s.indeterminate
  { s with
    m_portmap := m_portmap
    registerIn := { s.registerIn with m_response := CDataPack.packInt32 host returnValue } }

/-- `RegisterIn::getResponse` -/
def getResponse (s : ChannelState κ ρ) : Bytes × ChannelState κ ρ := (s.registerIn.m_response, s)

/-- The object as the executor uses it. -/
def function (host : ByteOrder) : Rpc.CIRpcSyncFunctionIn (ChannelState κ ρ) where
  unpack := unpack host
  call := call host
  getResponse := getResponse

/-- The number in the response to a request for a port. -/
def answer (portmap : Node.CPortmap κ) (port : UInt16) (indeterminate : Int32) : Int32 :=
  if portmap.getPortQueue port = none then 3 else indeterminate

/-- A free port is answered with success. -/
theorem answer_free {portmap : Node.CPortmap κ} {port : UInt16}
    (h : portmap.getPortQueue port = none) (indeterminate : Int32) :
    answer portmap port indeterminate = 3 := if_pos h

/-- For a port with an owner the answer is indeterminate. -/
theorem answer_owned {portmap : Node.CPortmap κ} {port : UInt16}
    (h : portmap.getPortQueue port ≠ none) (indeterminate : Int32) :
    answer portmap port indeterminate = indeterminate := if_neg h

/-- A call registers the port that has been unpacked and leaves the answer. -/
theorem call_eq (host : ByteOrder) (s : ChannelState κ ρ) :
    call host s =
      { s with
        m_portmap := (s.m_portmap.registerPort s.registerIn.m_port s.m_applicationQueue).2
        registerIn := { s.registerIn with
          m_response := CDataPack.packInt32 host
            (answer s.m_portmap s.registerIn.m_port s.indeterminate) } } := by
  unfold call
  cases hport : s.m_portmap.getPortQueue s.registerIn.m_port with
  | none =>
    rw [Node.CPortmap.registerPort_free hport, answer_free hport]
    rfl
  | some owner =>
    have howned : s.m_portmap.getPortQueue s.registerIn.m_port ≠ none := by
      rw [hport]
      exact Option.some_ne_none owner
    rw [Node.CPortmap.registerPort_owned hport, answer_owned howned]
    rfl

/-- What the two sides do with a port: the executor finds out the port that was asked for. -/
theorem unpack_pack (reader host : ByteOrder) (func : RegisterOut) (s : ChannelState κ ρ) :
    (unpack reader (func.pack host).2 s).2 =
      { s with registerIn := { s.registerIn with m_port := func.m_port } } := by
  have hread := CDataPack.unpackUint16_append reader [] [] func.m_port 0 rfl
  rw [List.nil_append, List.append_nil] at hread
  rw [unpack, RegisterOut.pack, CDataPack.packUint16_eq, hread]

end RegisterIn

/-- The asking side reads the number that the answering side has packed. -/
theorem RegisterOut.wasRegistered_packInt32 (host reader : ByteOrder) (returnValue : Int32)
    (func : RegisterOut) :
    ((func.parseResponse reader (CDataPack.packInt32 host returnValue)).2).wasRegistered =
      decide (returnValue = 3) := by
  rw [parseResponse, CDataPack.unpackInt32_packInt32]
  rfl

end Interfaces

end San2
