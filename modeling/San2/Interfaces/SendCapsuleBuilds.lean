import San2.Interfaces.CCapsuleReceiver
import San2.Library.StoppingProgram
import San2.Network.SocketReader

/-!
# The two builds of the function that receives capsules

`SendCapsuleFuncIn::operator()` pushes a capsule inside of an `assert`. With `NDEBUG` defined,
as in the release configurations, `assert` does not evaluate its argument. The interface
address is kept by reference to an object that is gone when the function runs; what is found
in its place is up to the environment.
-/

namespace San2.Interfaces

open Utils Network StoppingProgram

/-- `assert(expression)` -/
def assert {σ : Type} (ndebug : Bool) (expression : Program Stop σ Bool) :
    Program Stop σ Unit := do
  if ndebug then return ()
  if !(← expression) then throw .aborted

section Assert

variable {σ : Type} {expression : Program Stop σ Bool} {s s' : σ}

/-- An assertion that holds is passed. -/
theorem ends_assert_true (h : Ends expression s (.ok true) s') :
    Ends (assert false expression) s (.ok ()) s' := h.bind_ok (ends_pure () s')

/-- An assertion that fails ends the program. -/
theorem ends_assert_false (h : Ends expression s (.ok false) s') :
    Ends (assert false expression) s (.error .aborted) s' := h.bind_ok (ends_throw _ s')

/-- An expression that does not return ends the assertion with it. -/
theorem ends_assert_error {reason : Stop} (h : Ends expression s (.error reason) s') :
    Ends (assert false expression) s (.error reason) s' := h.bind_error _

end Assert

/-- A payload that is received, with what the environment decides about it. -/
structure Receipt where
  payload : Bytes
  /-- What the memory of a new capsule holds. -/
  memory : CCapsule
  /-- What `m_interfaceAddress` refers to by then. -/
  referenced : SanAddress
  /-- The input queue as the other threads have left it. -/
  queue : CProducerConsumer CCapsule
  /-- The thread is terminated when `push` first looks. -/
  terminated : Bool
  wakes : List (CProducerConsumer.Wake CCapsule)

/-- The object and the queue that it pushes to. `found` is what the last stretch of `push` has
found in the queue, or what the call has found if nothing is pushed. -/
structure InputSide where
  m_SerializedCapsule : Bytes
  m_inputQueue : CProducerConsumer CCapsule
  found : CProducerConsumer CCapsule

/-- The call of `push`, which waits for room and fails only for a terminated thread. -/
def Receipt.push (receipt : Receipt) (capsule : CCapsule) : Program Stop InputSide ℤ := do
  let s ← get
  match (CProducerConsumer.Call.push capsule).run receipt.terminated s.m_inputQueue
      receipt.wakes with
  | (found, .returns code left _) =>
    set { s with m_inputQueue := left, found := found }
    return code
  | (_, .waits) => throw .waiting
  | (_, .outOfBounds) => throw .outOfBounds

namespace SendCapsuleFuncIn

/-- `SendCapsuleFuncIn::unpack` -/
def unpack (data : Bytes) : Program Stop InputSide Bool := do
  modify fun s => { s with m_SerializedCapsule := data }
  return true

/-- `SendCapsuleFuncIn::operator()` -/
def call (ndebug : Bool) (host : ByteOrder) (receipt : Receipt) : Program Stop InputSide Bool := do
  let s ← get
  let (ok, capsule) := receipt.memory.unpack host s.m_SerializedCapsule
  if !ok then return false
  else
    let capsule := capsule.setFromInterfaceAddress receipt.referenced
    assert ndebug do
      let code ← receipt.push capsule
      return code = 0
    return true

/-- What the executor does with a payload: `call` runs only when `unpack` succeeds. -/
def execute (ndebug : Bool) (host : ByteOrder) (receipt : Receipt) :
    Program Stop InputSide Bool := do
  let ok ← unpack receipt.payload
  if !ok then return false
  else call ndebug host receipt

end SendCapsuleFuncIn

/-- A payload that has been dealt with: the queue that was found and the queue that was left. -/
structure Received extends Receipt where
  found : CProducerConsumer CCapsule
  left : CProducerConsumer CCapsule

/-- The payloads so far; `stopped` after a failed assertion. -/
structure Receiver where
  m_SerializedCapsule : Bytes
  received : List Received
  stopped : Bool

namespace Receiver

/-- The next payload is received. A call that still waits has not dealt with it. -/
def step (ndebug : Bool) (host : ByteOrder) (s : Receiver) (receipt : Receipt) :
    Option Receiver :=
  if s.stopped then none
  else
    let side : InputSide := ⟨s.m_SerializedCapsule, receipt.queue, receipt.queue⟩
    let side' := after (SendCapsuleFuncIn.execute ndebug host receipt) side
    let next (stopped : Bool) : Receiver :=
      ⟨side'.m_SerializedCapsule, s.received ++ [{ receipt with
        found := side'.found, left := side'.m_inputQueue }], stopped⟩
    match outcome (SendCapsuleFuncIn.execute ndebug host receipt) side with
    | .ok _ => some (next false)
    | .error .aborted => some (next true)
    | .error .waiting => none
    | .error .outOfBounds => none

/-- Nothing has been received. -/
def start : Receiver := ⟨[], [], false⟩

end Receiver

/-- The capsule that a payload stands for at an interface, if it unpacks. -/
def Receipt.capsule (host : ByteOrder) (interfaceAddress : SanAddress) (receipt : Receipt) :
    Option CCapsule :=
  let (ok, capsule) := receipt.memory.unpack host receipt.payload
  if ok then some (capsule.setFromInterfaceAddress interfaceAddress) else none

/-- A payload that unpacks is pushed once with the address of the interface, any other one
pushes nothing. -/
def Received.Pushed (host : ByteOrder) (interfaceAddress : SanAddress) (received : Received) :
    Prop :=
  received.left = { received.found with
    m_que := received.found.m_que ++
      (received.toReceipt.capsule host interfaceAddress).toList }

/-- The payload does not unpack; or assertions are compiled in, `push` does not find the thread
terminated, and the address is still where `m_interfaceAddress` refers to. -/
def Receipt.Kept (ndebug : Bool) (interfaceAddress : SanAddress) (receipt : Receipt) : Prop :=
  receipt.payload.length < CCapsule.headerSize ∨
    ndebug = false ∧
    CProducerConsumer.foundTerminated receipt.terminated receipt.queue receipt.wakes = false ∧
    receipt.referenced = interfaceAddress

/-- A capsule in the queue, appended or not. -/
theorem pushed_iff {queue : CProducerConsumer CCapsule} {capsule expected : CCapsule} :
    { queue with m_que := queue.m_que ++ [capsule] } =
      ({ queue with m_que := queue.m_que ++ [expected] } : CProducerConsumer CCapsule) ↔
      capsule = expected := by
  constructor
  · intro h
    have hque : queue.m_que ++ [capsule] = queue.m_que ++ [expected] :=
      congrArg CProducerConsumer.m_que h
    exact List.singleton_inj.mp (List.append_cancel_left hque)
  · rintro rfl
    rfl

/-- A queue is not itself with one more capsule. -/
theorem not_pushed {queue : CProducerConsumer CCapsule} (expected : CCapsule) :
    queue ≠ { queue with m_que := queue.m_que ++ [expected] } := by
  intro h
  have hlength := congrArg (fun q => q.m_que.length) h
  simp only [List.length_append, List.length_singleton] at hlength
  omega

/-- How `push` ends for a payload: it waits, it finds the thread terminated, or the capsule is in
the queue. -/
theorem Receipt.ends_push (receipt : Receipt) (capsule : CCapsule) {side : InputSide}
    (hqueue : side.m_inputQueue = receipt.queue) :
    let terminated :=
      CProducerConsumer.foundTerminated receipt.terminated receipt.queue receipt.wakes
    Ends (receipt.push capsule) side (.error .waiting) side ∨
    ∃ found,
      (terminated = true ∧ Ends (receipt.push capsule) side (.ok (-1))
        { side with m_inputQueue := found, found := found }) ∨
      (terminated = false ∧ Ends (receipt.push capsule) side (.ok 0)
        { side with
          m_inputQueue := { found with m_que := found.m_que ++ [capsule] }
          found := found }) := by
  have hrun := CProducerConsumer.push_run capsule receipt.terminated receipt.queue receipt.wakes
  intro terminated
  unfold Receipt.push
  cases hresult : (CProducerConsumer.Call.push capsule).run receipt.terminated receipt.queue
      receipt.wakes with
  | mk found progress =>
    rw [hresult] at hrun
    dsimp only at hrun
    cases hrun with
    | waits =>
      refine Or.inl (ends_get_bind ?_)
      rw [hqueue, hresult]
      exact ends_throw _ _
    | terminated h =>
      refine Or.inr ⟨found, Or.inl ⟨h, ends_get_bind ?_⟩⟩
      rw [hqueue, hresult]
      exact ends_set_bind (ends_pure _ _)
    | pushes h =>
      refine Or.inr ⟨found, Or.inr ⟨h, ends_get_bind ?_⟩⟩
      rw [hqueue, hresult]
      exact ends_set_bind (ends_pure _ _)

/-- The queue that was left is the one that was found with the expected capsule. -/
def InputSide.Pushed (side : InputSide) (expected : Option CCapsule) : Prop :=
  side.m_inputQueue = { side.found with m_que := side.found.m_que ++ expected.toList }

/-- How the function ends for a payload, and when it has pushed what is expected. -/
inductive Executed (ndebug : Bool) (host : ByteOrder) (interfaceAddress : SanAddress)
    (receipt : Receipt) : Except Stop Bool → InputSide → Prop
  | waiting (side : InputSide) :
    Executed ndebug host interfaceAddress receipt (.error .waiting) side
  | aborted (side : InputSide)
      (hpushed : side.Pushed (receipt.capsule host interfaceAddress) ↔
        receipt.Kept ndebug interfaceAddress) :
    Executed ndebug host interfaceAddress receipt (.error .aborted) side
  | returned (ok : Bool) (side : InputSide)
      (hpushed : side.Pushed (receipt.capsule host interfaceAddress) ↔
        receipt.Kept ndebug interfaceAddress) :
    Executed ndebug host interfaceAddress receipt (.ok ok) side

namespace SendCapsuleFuncIn

variable {host : ByteOrder} {interfaceAddress : SanAddress} {receipt : Receipt} {side : InputSide}

/-- Nothing is pushed of a payload that does not unpack. -/
theorem executed_short (ndebug : Bool) (hshort : receipt.payload.length < CCapsule.headerSize)
    (hqueue : side.m_inputQueue = receipt.queue) (hfound : side.found = receipt.queue) :
    ∃ result side', Ends (execute ndebug host receipt) side result side' ∧
      Executed ndebug host interfaceAddress receipt result side' := by
  have hunpack := CCapsule.unpack_of_lt hshort host receipt.memory
  refine ⟨.ok false, { side with m_SerializedCapsule := receipt.payload }, ?_, .returned _ _ ?_⟩
  · change Ends (call ndebug host receipt) { side with m_SerializedCapsule := receipt.payload } _ _
    refine ends_get_bind ?_
    simp only [hunpack, Bool.not_false, if_true]
    exact ends_pure _ _
  · refine iff_of_true ?_ (Or.inl hshort)
    simp only [InputSide.Pushed, Receipt.capsule, hunpack, Bool.false_eq_true, if_false,
      Option.toList_none, List.append_nil, hqueue, hfound]

/-- A payload of at least the header can be unpacked. -/
theorem exists_unpack (host : ByteOrder)
    (hlong : ¬ receipt.payload.length < CCapsule.headerSize) :
    ∃ capsule, receipt.memory.unpack host receipt.payload = (true, capsule) := by
  cases hunpack : receipt.memory.unpack host receipt.payload with
  | mk ok capsule =>
    cases ok with
    | true => exact ⟨capsule, rfl⟩
    | false =>
      have hfirst := congrArg Prod.fst hunpack
      exact absurd ((CCapsule.unpack_fst_eq_false_iff _ _ _).mp hfirst) hlong

/-- Without assertions nothing is pushed at all. -/
theorem executed_ndebug (hlong : ¬ receipt.payload.length < CCapsule.headerSize)
    (hqueue : side.m_inputQueue = receipt.queue) (hfound : side.found = receipt.queue) :
    ∃ result side', Ends (execute true host receipt) side result side' ∧
      Executed true host interfaceAddress receipt result side' := by
  obtain ⟨capsule, hunpack⟩ := exists_unpack host hlong
  refine ⟨.ok true, { side with m_SerializedCapsule := receipt.payload }, ?_, .returned _ _ ?_⟩
  · change Ends (call true host receipt) { side with m_SerializedCapsule := receipt.payload } _ _
    refine ends_get_bind ?_
    simp only [hunpack, Bool.not_true, Bool.false_eq_true, if_false]
    exact (ends_pure () _).bind_ok (ends_pure _ _)
  · have hexpected : receipt.capsule host interfaceAddress =
        some (capsule.setFromInterfaceAddress interfaceAddress) := by
      simp only [Receipt.capsule, hunpack, if_true]
    refine iff_of_false ?_ ?_
    · rw [InputSide.Pushed, hexpected]
      simp only [hqueue, hfound]
      exact not_pushed _
    · rintro (hshort | ⟨hassertions, -⟩)
      · exact hlong hshort
      · cases hassertions

/-- With assertions the capsule is pushed with the address that is found, or the program is
aborted. -/
theorem executed_assertions (hlong : ¬ receipt.payload.length < CCapsule.headerSize)
    (hqueue : side.m_inputQueue = receipt.queue) :
    ∃ result side', Ends (execute false host receipt) side result side' ∧
      Executed false host interfaceAddress receipt result side' := by
  obtain ⟨capsule, hunpack⟩ := exists_unpack host hlong
  let unpacked : InputSide := { side with m_SerializedCapsule := receipt.payload }
  let pushed := capsule.setFromInterfaceAddress receipt.referenced
  have hexpected : receipt.capsule host interfaceAddress =
      some (capsule.setFromInterfaceAddress interfaceAddress) := by
    simp only [Receipt.capsule, hunpack, if_true]
  let expression : Program Stop InputSide Bool :=
    receipt.push pushed >>= fun code => pure (decide (code = 0))
  have hcall : ∀ {result side'},
      Ends (assert false expression >>= fun _ => pure true) unpacked result side' →
      Ends (execute false host receipt) side result side' := by
    intro result side' hends
    change Ends (call false host receipt) unpacked result side'
    refine ends_get_bind ?_
    simp only [unpacked, hunpack, Bool.not_true, Bool.false_eq_true, if_false]
    exact hends
  have hunpacked : unpacked.m_inputQueue = receipt.queue := hqueue
  rcases receipt.ends_push pushed hunpacked with hwaits | ⟨found, hcase⟩
  · have hexpression : Ends expression unpacked (.error .waiting) unpacked := hwaits.bind_error _
    exact ⟨_, _, hcall ((ends_assert_error hexpression).bind_error _), .waiting _⟩
  rcases hcase with ⟨hterminated, hpush⟩ | ⟨hterminated, hpush⟩
  · have hexpression : Ends expression unpacked (.ok false) _ := hpush.bind_ok (ends_pure _ _)
    refine ⟨_, _, hcall ((ends_assert_false hexpression).bind_error _), .aborted _ ?_⟩
    rw [InputSide.Pushed, hexpected]
    refine iff_of_false (not_pushed _) ?_
    rintro (hshort | ⟨-, hrunning, -⟩)
    · exact hlong hshort
    · cases hterminated.symm.trans hrunning
  · have hexpression : Ends expression unpacked (.ok true) _ := hpush.bind_ok (ends_pure _ _)
    refine ⟨_, _, hcall ((ends_assert_true hexpression).bind_ok (ends_pure true _)),
      .returned _ _ ?_⟩
    rw [InputSide.Pushed, hexpected]
    have hsame : pushed = capsule.setFromInterfaceAddress interfaceAddress ↔
        receipt.referenced = interfaceAddress :=
      ⟨congrArg CCapsule.interfaceAddress, fun h => by rw [← h]⟩
    refine (pushed_iff.trans hsame).trans ⟨fun h => Or.inr ⟨rfl, hterminated, h⟩, ?_⟩
    rintro (hshort | ⟨-, -, haddress⟩)
    · exact absurd hshort hlong
    · exact haddress

/-- In each build a payload is kept exactly under the condition. -/
theorem executed (ndebug : Bool) (host : ByteOrder) (interfaceAddress : SanAddress)
    (hqueue : side.m_inputQueue = receipt.queue)
    (hfound : side.found = receipt.queue) :
    ∃ result side', Ends (execute ndebug host receipt) side result side' ∧
      Executed ndebug host interfaceAddress receipt result side' := by
  by_cases hshort : receipt.payload.length < CCapsule.headerSize
  · exact executed_short ndebug hshort hqueue hfound
  · cases ndebug with
    | true => exact executed_ndebug hshort hqueue hfound
    | false => exact executed_assertions hshort hqueue

end SendCapsuleFuncIn

namespace Receiver

variable {ndebug : Bool} {host : ByteOrder}

/-- A step deals with one more payload. -/
theorem step_received (interfaceAddress : SanAddress) {s s' : Receiver} {receipt : Receipt}
    (hstep : s.step ndebug host receipt = some s') :
    ∃ received : Received, s'.received = s.received ++ [received] ∧
      received.toReceipt = receipt ∧
      (received.Pushed host interfaceAddress ↔ receipt.Kept ndebug interfaceAddress) := by
  let side : InputSide := ⟨s.m_SerializedCapsule, receipt.queue, receipt.queue⟩
  have hqueue : side.m_inputQueue = receipt.queue := rfl
  have hfound : side.found = receipt.queue := rfl
  obtain ⟨result, side', ⟨houtcome, hafter⟩, hexecuted⟩ :=
    SendCapsuleFuncIn.executed ndebug host interfaceAddress hqueue hfound
  unfold step at hstep
  split_ifs at hstep with hstopped
  simp only [side] at houtcome hafter
  simp only [houtcome, hafter] at hstep
  cases hexecuted with
  | waiting => cases hstep
  | aborted _ hpushed =>
    obtain rfl := Option.some.inj hstep
    exact ⟨_, rfl, rfl, hpushed⟩
  | returned ok _ hpushed =>
    obtain rfl := Option.some.inj hstep
    exact ⟨_, rfl, rfl, hpushed⟩

/-- Every payload that unpacks is pushed exactly once with the address of the interface, and every
other payload pushes nothing. -/
def PushedExactly (host : ByteOrder) (interfaceAddress : SanAddress) (s : Receiver) : Prop :=
  ∀ received ∈ s.received, received.Pushed host interfaceAddress

/-- The payloads that have been dealt with, and when all of them were treated right. -/
structure Recorded (ndebug : Bool) (host : ByteOrder) (interfaceAddress : SanAddress)
    (past : List Receipt) (s : Receiver) : Prop where
  received : s.received.map Received.toReceipt = past
  pushed_iff : s.PushedExactly host interfaceAddress ↔
    ∀ receipt ∈ past, receipt.Kept ndebug interfaceAddress

/-- Nothing has been received, so everything received was pushed. -/
theorem recorded_start (interfaceAddress : SanAddress) :
    start.Recorded ndebug host interfaceAddress [] :=
  ⟨rfl, iff_of_true (fun _ h => absurd h List.not_mem_nil) fun _ h => absurd h List.not_mem_nil⟩

/-- One more payload is recorded with what was pushed for it. -/
theorem Recorded.step {interfaceAddress : SanAddress} {past : List Receipt} {s s' : Receiver}
    {receipt : Receipt} (h : s.Recorded ndebug host interfaceAddress past)
    (hstep : s.step ndebug host receipt = some s') :
    s'.Recorded ndebug host interfaceAddress (past ++ [receipt]) := by
  obtain ⟨received, hreceived, rfl, hpushed⟩ :=
    step_received interfaceAddress hstep
  constructor
  · rw [hreceived, List.map_append, h.received]
    rfl
  · unfold PushedExactly
    rw [hreceived, List.forall_mem_append, List.forall_mem_append, List.forall_mem_singleton,
      List.forall_mem_singleton]
    exact and_congr h.pushed_iff hpushed

/-- For every sequence of payloads and either build. -/
theorem pushedExactly_iff (ndebug : Bool) (host : ByteOrder) (interfaceAddress : SanAddress)
    (receipts : List Receipt) (s : Receiver)
    (hrun : Execution.run (step ndebug host) start receipts = some s) :
    s.received.map Received.toReceipt = receipts ∧
      (s.PushedExactly host interfaceAddress ↔
        ∀ receipt ∈ receipts, receipt.Kept ndebug interfaceAddress) := by
  have hrecorded : s.Recorded ndebug host interfaceAddress ([] ++ receipts) :=
    Execution.run_history Recorded.step (recorded_start interfaceAddress) hrun
  exact ⟨hrecorded.received, hrecorded.pushed_iff⟩

/-- The function of a transfer pushes what is expected of a payload: it is the function of the
build with assertions, whose thread is not terminated. -/
theorem pushed_sendCapsuleFuncIn (host : ByteOrder) (interfaceAddress : SanAddress)
    (receipt : Receipt) (pushed : List CCapsule) (aborted : Bool) :
    ((SendCapsuleFuncIn host).call
      ⟨receipt.payload, pushed, false, receipt.memory, interfaceAddress, aborted⟩).pushed =
        pushed ++ (receipt.capsule host interfaceAddress).toList := by
  unfold SendCapsuleFuncIn Receipt.capsule
  dsimp only
  cases receipt.memory.unpack host receipt.payload with
  | mk ok capsule =>
    cases ok with
    | false => simp
    | true => simp

/-- A packed capsule that arrives while the queue is empty. -/
def arrivingCapsule (payload : Bytes) : Receipt where
  payload := payload
  memory := ⟨false, false, .replicate _ 0, .replicate _ 0, .replicate _ 0, .replicate _ 0, 0, []⟩
  referenced := .replicate _ 9
  queue := .create 20
  terminated := false
  wakes := []

/-- With assertions a capsule is pushed, and a payload that is too short is not. -/
theorem pushedExactly_assertions :
    ∃ s, Execution.run (step false .littleEndian) start
        [arrivingCapsule (List.replicate 88 1), arrivingCapsule [1]] = some s ∧
      s.received.map (fun received => received.left.m_que.length) = [1, 0] ∧
      s.PushedExactly .littleEndian (.replicate _ 9) := by
  refine ⟨_, rfl, by decide +kernel, ?_⟩
  refine (pushedExactly_iff false .littleEndian (.replicate _ 9)
    [arrivingCapsule (List.replicate 88 1), arrivingCapsule [1]] _ rfl).2.mpr ?_
  intro receipt hreceipt
  simp only [List.mem_cons, List.not_mem_nil, or_false] at hreceipt
  rcases hreceipt with rfl | rfl
  · exact Or.inr ⟨rfl, rfl, rfl⟩
  · exact Or.inl (by decide)

/-- Without assertions a capsule is lost. -/
theorem pushedExactly_ndebug :
    ∃ s, Execution.run (step true .littleEndian) start
        [arrivingCapsule (List.replicate 88 1)] = some s ∧
      s.received.map (fun received => received.left.m_que) = [[]] ∧
      ¬ s.PushedExactly .littleEndian (.replicate _ 9) := by
  refine ⟨_, rfl, by decide +kernel, ?_⟩
  intro hpushed
  have hreceived := hpushed _ (List.mem_singleton.mpr rfl)
  exact absurd (congrArg (fun q => q.m_que.length) hreceived) (by decide +kernel)

end Receiver

end San2.Interfaces
