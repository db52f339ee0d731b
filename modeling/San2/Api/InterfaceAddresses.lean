import San2.Node.CNode
import San2.Rpc.CRpcInvoker

/-!
# The addresses of the interfaces of a node

An application asks its node for the addresses of the interfaces. The node answers with the
addresses one after the other, and `GetAddressesOut::getAddresses` cuts them apart again. The
number that comes with the list is unsigned; both errors, -1 and -2, are positive as such.
-/

namespace San2

open Utils Network

namespace Interfaces

/-- The members of a `GetAddressesIn`. -/
structure GetAddressesIn (κ : Type) where
  m_node : Node.CNode κ
  m_response : Bytes

namespace GetAddressesIn

variable {κ : Type}

/-- `GetAddressesIn::getUniqueId` -/
def getUniqueId : UInt32 := 5014

/-- `GetAddressesIn::unpack` -/
def unpack (_ : Bytes) (func : GetAddressesIn κ) : Bool × GetAddressesIn κ := (true, func)

/-- The addresses that `getInterfaceAddress` gives for the interfaces of the node. -/
def addresses (node : Node.CNode κ) : List SanAddress :=
  node.m_interfaces.map fun line => line.iface.getInterfaceAddress

/-- `GetAddressesIn::operator()` -/
def call (func : GetAddressesIn κ) : GetAddressesIn κ :=
  { func with
    m_response := (addresses func.m_node).foldl (fun m_response address =>
      m_response ++ address.val) [] }

/-- `GetAddressesIn::getResponse` -/
def getResponse (func : GetAddressesIn κ) : Bytes × GetAddressesIn κ := (func.m_response, func)

/-- The function as the executor runs it. -/
def function : Rpc.CIRpcSyncFunctionIn (GetAddressesIn κ) where
  unpack := unpack
  call := call
  getResponse := getResponse

/-- The response for a node. -/
theorem call_m_response (func : GetAddressesIn κ) :
    func.call.m_response = (addresses func.m_node).flatMap fun address => address.val := by
  have hfold : ∀ (adrs : List SanAddress) (b : Bytes),
      adrs.foldl (fun m_response address => m_response ++ address.val) b =
        b ++ adrs.flatMap fun address => address.val := by
    intro adrs
    induction adrs with
    | nil =>
      intro b
      exact (List.append_nil b).symm
    | cons address adrs ih =>
      intro b
      rw [List.foldl_cons, ih, List.flatMap_cons, List.append_assoc]
  exact hfold _ []

end GetAddressesIn

/-- The members of a `GetAddressesOut`. -/
structure GetAddressesOut where
  m_result : Int32
  m_response : Bytes

namespace GetAddressesOut

/-- `GetAddressesOut::GetAddressesOut` -/
def create : GetAddressesOut := ⟨-1, []⟩

/-- `GetAddressesOut::getUniqueId` -/
def getUniqueId : UInt32 := 5014

/-- `pack` clears the string that the invoker passes. -/
def pack (_ : GetAddressesOut) : Bool × Bytes := (true, [])

/-- `GetAddressesOut::parseResponse` -/
def parseResponse (data : Bytes) (func : GetAddressesOut) : Bool × GetAddressesOut :=
  (true, { func with m_response := data })

/-- The function as the invoker calls it. -/
def type : Rpc.SyncFunctionOut GetAddressesOut where
  getUniqueId := getUniqueId
  pack := pack
  parseResponse := parseResponse

/-- The loop that copies addresses, from a position on. -/
def copyAddresses (m_response : Bytes) :
    (iter items : ℕ) → iter + items * sanAddressSize ≤ m_response.length → List SanAddress
  | _, 0, _ => []
  | iter, items + 1, h =>
    have hsize : iter + sanAddressSize + items * sanAddressSize ≤ m_response.length := by
      rw [Nat.succ_mul] at h
      omega
    .read sanAddressSize m_response iter (by omega) ::
      copyAddresses m_response (iter + sanAddressSize) items hsize

/-- The number of addresses in a response, as an `unsigned int`. -/
def items (m_response : Bytes) : ℕ := m_response.length / sanAddressSize % 2 ^ 32

/-- The addresses that are counted are in the response. -/
theorem items_mul_le (m_response : Bytes) :
    0 + items m_response * sanAddressSize ≤ m_response.length := by
  have hmod : items m_response ≤ m_response.length / sanAddressSize := Nat.mod_le _ _
  have hdiv : m_response.length / sanAddressSize * sanAddressSize ≤ m_response.length :=
    Nat.div_mul_le_self _ _
  have hmul := Nat.mul_le_mul_right sanAddressSize hmod
  omega

/-- What was in the list is cleared. -/
def getAddresses (func : GetAddressesOut) : UInt32 × List SanAddress :=
  if func.m_response.length % sanAddressSize ≠ 0 then (-1, [])
  else if items func.m_response = 0 then (0, [])
  else (UInt32.ofNat (items func.m_response),
    copyAddresses func.m_response 0 (items func.m_response) (items_mul_le func.m_response))

/-- As many addresses are copied as there are items. -/
theorem length_copyAddresses (m_response : Bytes) (iter items : ℕ)
    (h : iter + items * sanAddressSize ≤ m_response.length) :
    (copyAddresses m_response iter items h).length = items := by
  induction items generalizing iter with
  | zero => rfl
  | succ items ih => rw [copyAddresses, List.length_cons, ih]

/-- The loop cuts apart what was put together. -/
theorem copyAddresses_flatMap (adrs : List SanAddress) {before m_response : Bytes} {iter : ℕ}
    (hresponse : m_response = before ++ adrs.flatMap fun address => address.val)
    (hiter : before.length = iter) (h : iter + adrs.length * sanAddressSize ≤ m_response.length) :
    copyAddresses m_response iter adrs.length h = adrs := by
  induction adrs generalizing before iter with
  | nil => rfl
  | cons address adrs ih =>
    have hrest : m_response =
        (before ++ address.val) ++ adrs.flatMap fun address => address.val := by
      rw [hresponse, List.flatMap_cons, List.append_assoc]
    have hlength : (before ++ address.val).length = iter + sanAddressSize := by
      rw [List.length_append, address.property, hiter]
    have hread : ∀ hinside, FixedBytes.read sanAddressSize m_response iter hinside = address := by
      rw [hrest, List.append_assoc]
      exact fun hinside => CCapsule.read_append before _ address hiter hinside
    change FixedBytes.read sanAddressSize m_response iter _ ::
      copyAddresses m_response (iter + sanAddressSize) adrs.length _ = address :: adrs
    rw [hread, ih hrest hlength]

/-- A response that is made of whole addresses. -/
theorem getAddresses_of_dvd (func : GetAddressesOut)
    (h : sanAddressSize ∣ func.m_response.length) :
    func.getAddresses = (UInt32.ofNat (items func.m_response),
      copyAddresses func.m_response 0 (items func.m_response) (items_mul_le func.m_response)) := by
  have hmod : ¬ func.m_response.length % sanAddressSize ≠ 0 :=
    not_not.mpr (Nat.mod_eq_zero_of_dvd h)
  unfold getAddresses
  rw [if_neg hmod]
  split_ifs with hzero
  · have hnil : (copyAddresses func.m_response 0 (items func.m_response)
        (items_mul_le func.m_response)).length = 0 := by
      rw [length_copyAddresses, hzero]
    rw [List.length_eq_zero_iff.mp hnil, hzero]
    rfl
  · rfl

/-- A response that is not made of whole addresses gives none. -/
theorem getAddresses_of_not_dvd (func : GetAddressesOut)
    (h : ¬ sanAddressSize ∣ func.m_response.length) : func.getAddresses = (-1, []) := by
  have hmod : func.m_response.length % sanAddressSize ≠ 0 :=
    fun hmod => h (Nat.dvd_of_mod_eq_zero hmod)
  exact if_pos hmod

/-- The number is the length of the list exactly for whole addresses, however many there are. -/
theorem getAddresses_counts_iff (func : GetAddressesOut) :
    func.getAddresses.1.toNat = func.getAddresses.2.length ↔
      sanAddressSize ∣ func.m_response.length := by
  by_cases h : sanAddressSize ∣ func.m_response.length
  · have hlt : items func.m_response < 2 ^ 32 := Nat.mod_lt _ (Nat.two_pow_pos 32)
    have hcounts : func.getAddresses.1.toNat = func.getAddresses.2.length := by
      rw [getAddresses_of_dvd func h, length_copyAddresses, UInt32.toNat_ofNat_of_lt' hlt]
    exact iff_of_true hcounts h
  · rw [getAddresses_of_not_dvd func h]
    exact iff_of_false (by decide) h

/-- Addresses take up their length each. -/
theorem length_flatMap_address (adrs : List SanAddress) :
    (adrs.flatMap fun address => address.val).length = adrs.length * sanAddressSize := by
  induction adrs with
  | nil => rfl
  | cons address adrs ih =>
    rw [List.flatMap_cons, List.length_append, ih, address.property, List.length_cons,
      Nat.succ_mul, Nat.add_comm]

/-- Addresses that have been put together come back, unless their number does not fit into an
`unsigned int`. -/
theorem getAddresses_flatMap_iff (func : GetAddressesOut) (adrs : List SanAddress)
    (hresponse : func.m_response = adrs.flatMap fun address => address.val) :
    func.getAddresses.2 = adrs ↔ adrs.length < 2 ^ 32 := by
  have hlength : func.m_response.length = adrs.length * sanAddressSize := by
    rw [hresponse, length_flatMap_address]
  have hdvd : sanAddressSize ∣ func.m_response.length := by
    rw [hlength]
    exact Nat.dvd_mul_left _ _
  have hitems : items func.m_response = adrs.length % 2 ^ 32 := by
    rw [items, hlength, Nat.mul_div_cancel _ (by decide)]
  rw [getAddresses_of_dvd func hdvd]
  constructor
  · intro hlist
    have hcopied := congrArg List.length hlist
    rw [length_copyAddresses, hitems] at hcopied
    rw [← hcopied]
    exact Nat.mod_lt _ (Nat.two_pow_pos 32)
  · intro hlt
    rw [Nat.mod_eq_of_lt hlt] at hitems
    have happend : func.m_response = [] ++ adrs.flatMap fun address => address.val := hresponse
    have hcopied : ∀ n h, n = adrs.length → copyAddresses func.m_response 0 n h = adrs := by
      rintro n h rfl
      exact copyAddresses_flatMap adrs happend rfl h
    exact hcopied _ _ hitems

end GetAddressesOut

end Interfaces

namespace Api

open Interfaces Rpc

variable {κ σ : Type}

/-- `CNodeConnector::getInterfaceAddresses` over any channel, with the list as the call leaves
it. -/
def getInterfaceAddresses (channel : CIRpcChannel σ) (host : ByteOrder)
    (adrs : List SanAddress) : StateT σ Option (UInt32 × List SanAddress) := do
  let (ok, func) ← CRpcInvoker.invokeSync channel host GetAddressesOut.type GetAddressesOut.create
  if !ok then return (-2, adrs)
  return func.getAddresses

/-- How a program comes by its own address. `emptyList` is a read of the first element of a
list without elements. -/
inductive SourceAddress
  | noInterfaces
  | address (address : SanAddress)
  | emptyList
  deriving DecidableEq

/-- The part of `main` that looks for an address, the same in both programs. -/
def sourceAddress (channel : CIRpcChannel σ) (host : ByteOrder) :
    StateT σ Option SourceAddress := do
  let (addressCount, adrs) ← getInterfaceAddresses channel host []
  if addressCount < 1 then return .noInterfaces
  match adrs with
  | [] => return .emptyList
  | address :: _ => return .address address

/-- `main` of `shell_client.cpp` -/
def clientAddress (channel : CIRpcChannel σ) (host : ByteOrder) : StateT σ Option SourceAddress :=
  sourceAddress channel host

/-- `main` of `shell_server.cpp` -/
def serverAddress (channel : CIRpcChannel σ) (host : ByteOrder) : StateT σ Option SourceAddress :=
  sourceAddress channel host

/-- What is expected of the addresses: a node's response gives the addresses of its interfaces,
the number is the length of the list, and no program reads the first of no addresses. -/
structure AddressesCounted (node : Node.CNode κ) (channel : CIRpcChannel σ) (host : ByteOrder)
    (s : σ) : Prop where
  list : ∀ (func : GetAddressesOut) (m_response : Bytes),
    ((func.parseResponse (GetAddressesIn.call ⟨node, m_response⟩).m_response).2).getAddresses.2 =
      GetAddressesIn.addresses node
  count : ∀ adrs number list s', getInterfaceAddresses channel host adrs s =
    some ((number, list), s') → number.toNat = list.length
  client : ∀ s', clientAddress channel host s ≠ some (.emptyList, s')
  server : ∀ s', serverAddress channel host s ≠ some (.emptyList, s')

/-- What the connector makes of the outcome of the call. -/
theorem getInterfaceAddresses_eq (channel : CIRpcChannel σ) (host : ByteOrder)
    (adrs : List SanAddress) (s : σ) :
    getInterfaceAddresses channel host adrs s =
      (CRpcInvoker.invokeSync channel host GetAddressesOut.type GetAddressesOut.create s).map
        fun ((ok, func), s') => (if ok then func.getAddresses else (-2, adrs), s') := by
  simp only [getInterfaceAddresses, bind, StateT.bind]
  cases CRpcInvoker.invokeSync channel host GetAddressesOut.type GetAddressesOut.create s with
  | none => rfl
  | some result =>
    obtain ⟨⟨ok, func⟩, s'⟩ := result
    cases ok with
    | false => rfl
    | true => rfl

/-- A program reads the first of no addresses when the number is positive all the same. -/
theorem sourceAddress_emptyList_iff (channel : CIRpcChannel σ) (host : ByteOrder) (s s' : σ) :
    sourceAddress channel host s = some (.emptyList, s') ↔
      ∃ number, getInterfaceAddresses channel host [] s = some ((number, []), s') ∧
        0 < number.toNat := by
  simp only [sourceAddress, bind, StateT.bind]
  cases hcall : getInterfaceAddresses channel host [] s with
  | none => simp
  | some result =>
    obtain ⟨⟨number, adrs⟩, s₁⟩ := result
    have hone : number < 1 ↔ ¬ 0 < number.toNat := by
      rw [UInt32.lt_iff_toNat_lt, UInt32.toNat_one]
      omega
    simp only [Option.bind_some, hone]
    have hpure (source : SourceAddress) :
        (pure source : StateT σ Option SourceAddress) s₁ = some (source, s₁) := rfl
    by_cases hpos : 0 < number.toNat
    · cases adrs with
      | nil => simp [hpos, hpure]
      | cons address adrs => simp [hpos, hpure]
    · simp [hpos, hpure]

/-- No program reads the first of no addresses where the number is the length of the list. -/
theorem sourceAddress_ne_emptyList {channel : CIRpcChannel σ} {host : ByteOrder} {s : σ}
    (hcount : ∀ adrs number list s', getInterfaceAddresses channel host adrs s =
      some ((number, list), s') → number.toNat = list.length) (s' : σ) :
    sourceAddress channel host s ≠ some (.emptyList, s') := by
  intro hread
  obtain ⟨number, hcall, hpos⟩ := (sourceAddress_emptyList_iff channel host s s').mp hread
  have hlength := hcount [] number [] s' hcall
  rw [hlength] at hpos
  exact Nat.lt_irrefl 0 hpos

/-- The addresses are counted right exactly while their number fits into an `unsigned int`, the
call succeeds and its response consists of whole addresses. -/
theorem addressesCounted_iff (node : Node.CNode κ) (channel : CIRpcChannel σ) (host : ByteOrder)
    (s : σ) :
    AddressesCounted node channel host s ↔ node.m_interfaces.length < 2 ^ 32 ∧
      ∀ ok func s', CRpcInvoker.invokeSync channel host GetAddressesOut.type
          GetAddressesOut.create s = some ((ok, func), s') →
        ok = true ∧ sanAddressSize ∣ func.m_response.length := by
  have hlist : ∀ (func : GetAddressesOut) (m_response : Bytes),
      ((func.parseResponse (GetAddressesIn.call ⟨node, m_response⟩).m_response).2).getAddresses.2 =
        GetAddressesIn.addresses node ↔ node.m_interfaces.length < 2 ^ 32 := by
    intro func m_response
    have hresponse := GetAddressesIn.call_m_response ⟨node, m_response⟩
    have hiff := GetAddressesOut.getAddresses_flatMap_iff
      (func.parseResponse (GetAddressesIn.call ⟨node, m_response⟩).m_response).2
      (GetAddressesIn.addresses node) hresponse
    rw [hiff, GetAddressesIn.addresses, List.length_map]
  constructor
  · intro h
    refine ⟨(hlist .create []).mp (h.list .create []), ?_⟩
    intro ok func s' hcall
    have hreturn := getInterfaceAddresses_eq channel host [] s
    rw [hcall, Option.map_some] at hreturn
    have hcount := h.count [] _ _ s' hreturn
    cases ok with
    | false =>
      have herror : (-2 : UInt32).toNat ≠ ([] : List SanAddress).length := by decide
      exact absurd hcount herror
    | true => exact ⟨rfl, (GetAddressesOut.getAddresses_counts_iff func).mp hcount⟩
  · rintro ⟨hlt, houtcome⟩
    have hcount : ∀ adrs number list s', getInterfaceAddresses channel host adrs s =
        some ((number, list), s') → number.toNat = list.length := by
      intro adrs number list s' hreturn
      rw [getInterfaceAddresses_eq, Option.map_eq_some_iff] at hreturn
      obtain ⟨⟨⟨ok, func⟩, s₁⟩, hcall, hresult⟩ := hreturn
      obtain ⟨rfl, hdvd⟩ := houtcome ok func s₁ hcall
      have hpair : func.getAddresses = (number, list) := congrArg Prod.fst hresult
      have hcounts := (GetAddressesOut.getAddresses_counts_iff func).mpr hdvd
      rw [hpair] at hcounts
      exact hcounts
    exact ⟨fun func m_response => (hlist func m_response).mpr hlt, hcount,
      sourceAddress_ne_emptyList hcount, sourceAddress_ne_emptyList hcount⟩

/-- A channel whose connection is gone. -/
def closedChannel : CIRpcChannel Unit where
  sendDatagram _ := return false
  recvDatagram := return (false, [])

/-- After a call that failed both programs read the first of no addresses. -/
theorem addressesCounted_closedChannel :
    getInterfaceAddresses closedChannel .littleEndian [] () = some ((4294967294, []), ()) ∧
      clientAddress closedChannel .littleEndian () = some (.emptyList, ()) ∧
      serverAddress closedChannel .littleEndian () = some (.emptyList, ()) ∧
      ¬ AddressesCounted
        (Node.CNode.start [] Node.CPortmap.create fun _ : Unit => .create 0)
        closedChannel .littleEndian () := by
  refine ⟨by decide, by decide, by decide, ?_⟩
  intro h
  exact h.client () (by decide)

end Api

end San2
