import San2.Interfaces.CCapsuleReceiver

/-!
# Runs of a sender and a receiver

The capsules that the receiver pushes are a subsequence of those that the sender accepted:
the ones still on connections follow the pushed ones, and both together are popped ones
in their order. The size of a call is counted modulo 2^32 on its way; a capsule whose
counted size is wrong and still makes a capsule is received with a part of its data.
-/

namespace San2.Interfaces

open Utils Network Rpc Tcp

variable {host : ByteOrder} {addr : SanAddress} {live running : Bool} {line : Bytes}
  {lines : List Bytes} {items new : List (Option CCapsule)}

/-- A capsule up to the address of its interface, which is not sent. -/
def content (capsule : CCapsule) : CCapsule := capsule.setFromInterfaceAddress sanDefaultAddress

/-- The receiving interface is no part of the content. -/
@[simp] theorem content_setFromInterfaceAddress (capsule : CCapsule) (addr : SanAddress) :
    content (capsule.setFromInterfaceAddress addr) = content capsule := rfl

/-- The address of the interface is not packed. -/
@[simp] theorem pack_content (host : ByteOrder) (capsule : CCapsule) :
    (content capsule).pack host = capsule.pack host := rfl

/-- The capsules among the items, as the receiver pushes them. -/
def received (items : List (Option CCapsule)) : List CCapsule :=
  items.filterMap (Option.map content)

/-- What is received of two lists of items. -/
theorem received_append (items new : List (Option CCapsule)) :
    received (items ++ new) = received items ++ received new := List.filterMap_append

/-- What is left of the items is left of the capsules. -/
theorem received_sublist (h : new.Sublist items) : (received new).Sublist (received items) :=
  h.filterMap _

/-- Of capsules that were popped all are received. -/
theorem received_some (popped : List CCapsule) :
    received (popped.map some) = popped.map content := by
  rw [received, List.filterMap_map, ← List.filterMap_eq_map]
  rfl

/-- The calls of the router are made with capsules whose size is counted right. -/
def TransferEvent.Fits : TransferEvent → Prop
  | .sendCapsule capsule _ => Interfaces.Fits capsule
  | _ => True

namespace Transfer

/-- The capsules that the sender has popped, and what of them is still on connections. -/
structure History (txHost : ByteOrder) (t : Transfer) (popped : List CCapsule)
    (items : List (Option CCapsule)) (running : Bool) : Prop where
  fits : ∀ capsule ∈ t.accepted, Fits capsule
  accepted : t.accepted = popped ++ t.sender.m_outputQueue.m_que
  reading : t.rx = .running → running = true
  waiting : t.rx = .listening ∨ t.rx = .starting → running = false
  lines : LinesHold txHost t.sender.m_sanaddr (decide (t.tx = .connected)) running t.lines items
  pushed : (t.functions.pushed.map content ++ received items).Sublist
    (received (popped.map some))

/-- Some history explains the state. -/
def Inv (txHost : ByteOrder) (t : Transfer) : Prop :=
  ∃ popped items running, t.History txHost popped items running

variable {txHost rxHost : ByteOrder} {t t' : Transfer} {popped : List CCapsule}

/-- At first nothing has been accepted. -/
theorem inv_start (senderAddr receiverAddr : SanAddress) (maxOutputQueueSize : ℕ)
    (memory : CCapsule) : (start senderAddr receiverAddr maxOutputQueueSize memory).Inv txHost := by
  refine ⟨[], [], false, ?_, rfl, by simp [start], fun _ => rfl, .nil, List.Sublist.refl _⟩
  intro capsule h
  exact absurd h List.not_mem_nil

/-- Fewer items may be on the connections. -/
theorem History.lose (h : t.History txHost popped items running) {later : List (Option CCapsule)}
    (hlater : later.Sublist items) :
    (t.functions.pushed.map content ++ received later).Sublist
      (received (popped.map some)) :=
  ((received_sublist hlater).append_left _).trans h.pushed

/-- Capsules that fit may be put on the queue. -/
theorem Inv.sendCapsule (h : t.Inv txHost) {capsule : CCapsule} {terminated : Bool}
    (hfits : Fits capsule)
    (hstep : t.step txHost rxHost (.sendCapsule capsule terminated) = some t') :
    t'.Inv txHost := by
  obtain ⟨popped, items, running, h⟩ := h
  unfold step at hstep
  rcases t.sender.sendCapsule_cases capsule terminated with hrefused | hqueued
  · simp only [hrefused] at hstep
    obtain rfl := Option.some.inj hstep
    exact ⟨popped, items, running, h.fits, h.accepted, h.reading, h.waiting, h.lines, h.pushed⟩
  · simp only [hqueued, if_true] at hstep
    obtain rfl := Option.some.inj hstep
    refine ⟨popped, items, running, ?_, ?_, h.reading, h.waiting, h.lines, h.pushed⟩
    · intro c hc
      rcases List.mem_append.mp hc with hc | hc
      · exact h.fits c hc
      · rw [List.mem_singleton.mp hc]
        exact hfits
    · simp only [h.accepted, List.append_assoc]

/-- A call of the sender: its item is on the connection or lost. -/
theorem History.transmitted (h : t.History txHost popped items running)
    (hconnected : t.tx = .connected) (item : Option CCapsule)
    (hfits : ∀ capsule, item = some capsule → Fits capsule) {sends : List SendEvent}
    {result : Bool × Bytes}
    (hsent : transmit (invokeFunction txHost (funcOut txHost item)) sends = some result) :
    ∃ items', LinesHold txHost t.sender.m_sanaddr result.1 running
        (appendLast t.lines result.2) items' ∧
      (t.functions.pushed.map content ++ received items').Sublist
        (received (popped.map some ++ [item])) := by
  obtain ⟨new, hnew, hcarries⟩ := carries_transmit hfits hsent
  have hlines := h.lines
  rw [decide_eq_true hconnected] at hlines
  obtain ⟨items', hlines', hsublist⟩ := hlines.send hcarries
  refine ⟨items', hlines', ?_⟩
  have hitems : (received items').Sublist
      (received items ++ received [item]) := by
    rw [← received_append]
    exact received_sublist (hsublist.trans (hnew.append_left items))
  rw [received_append]
  refine (hitems.append_left (t.functions.pushed.map content)).trans ?_
  rw [← List.append_assoc]
  exact h.pushed.append_right _

/-- The sender stays connected as long as it can write. -/
theorem connected_transmitted (t : Transfer) (result : Bool × Bytes) :
    decide ((t.transmitted result).tx = .connected) = result.1 := by
  obtain ⟨ok, sent⟩ := result
  cases ok <;> rfl

/-- A connection may time out, with a message that keeps it alive. -/
theorem Inv.timeout (h : t.Inv txHost) {sends : List SendEvent}
    (hstep : t.step txHost rxHost (.timeout sends) = some t') : t'.Inv txHost := by
  obtain ⟨popped, items, running, h⟩ := h
  simp only [step] at hstep
  split_ifs at hstep with hphase
  obtain ⟨result, hsent, rfl⟩ := Option.map_eq_some_iff.mp hstep
  have hconnected : t.tx = .connected := not_not.mp hphase
  obtain ⟨items', hlines, hpushed⟩ := h.transmitted hconnected none
    (fun _ hnone => absurd hnone (by simp)) hsent
  refine ⟨popped, items', running, h.fits, h.accepted, h.reading, h.waiting, ?_, ?_⟩
  · rw [connected_transmitted]
    exact hlines
  · have hnone : received [none] = [] := rfl
    rw [received_append, hnone, List.append_nil] at hpushed
    exact hpushed

/-- The sender takes a capsule from its queue and writes it. -/
theorem Inv.pop (h : t.Inv txHost) {terminated : Bool} {sends : List SendEvent}
    (hstep : t.step txHost rxHost (.pop terminated sends) = some t') : t'.Inv txHost := by
  obtain ⟨popped, items, running, h⟩ := h
  simp only [step] at hstep
  split_ifs at hstep with hphase
  have hconnected : t.tx = .connected := not_not.mp hphase
  cases hpop : CProducerConsumer.Call.try_pop.loop terminated t.sender.m_outputQueue with
  | waits =>
    rw [hpop] at hstep
    cases hstep
  | outOfBounds =>
    rw [hpop] at hstep
    cases hstep
  | returns code q out =>
    rw [hpop] at hstep
    cases out with
    | none =>
      obtain rfl := Option.some.inj hstep
      exact ⟨popped, items, running, h.fits, h.accepted, h.reading, h.waiting, h.lines.seal,
        h.pushed⟩
    | some capsule =>
      have hque : t.sender.m_outputQueue.m_que = capsule :: q.m_que :=
        CProducerConsumer.que_of_popLoop hpop
      have haccepted : t.accepted = (popped ++ [capsule]) ++ q.m_que := by
        rw [h.accepted, hque, List.append_assoc]
        rfl
      simp only at hstep
      split_ifs at hstep
      obtain ⟨result, hsent, rfl⟩ := Option.map_eq_some_iff.mp hstep
      have hfits : Fits capsule := by
        apply h.fits
        rw [haccepted]
        simp
      obtain ⟨items', hlines, hpushed⟩ := h.transmitted hconnected (some capsule)
        (fun c hc => by rwa [← Option.some.inj hc]) hsent
      refine ⟨popped ++ [capsule], items', running, h.fits, haccepted, h.reading, h.waiting,
        ?_, ?_⟩
      · rw [connected_transmitted]
        exact hlines
      · rw [List.map_append]
        exact hpushed

/-- A new connection begins with the first message or with a part of it. -/
theorem lineHolds_connect {sends : List SendEvent} {result : Bool × Bytes}
    (hsent : transmit ((Comm.TcpStreamRW maxSingleReadSize maxSingleReadSize_pos).writeAll
      (firstMessage addr)) sends = some result) :
    LineHolds host addr false result.1 result.2 [] := by
  have hlength := length_firstMessage addr
  have hne : firstMessage addr ≠ [] := by
    intro hnil
    rw [hnil] at hlength
    exact absurd hlength (by decide)
  obtain ⟨k, hk, -, -, hall⟩ := transmit_writeAll hne hsent
  obtain ⟨ok, sent⟩ := result
  by_cases hwhole : (firstMessage addr).length ≤ k
  · have hfresh : LineHolds host addr false ok (firstMessage addr ++ []) [] := .fresh (.nil ok)
    rw [List.take_of_length_le hwhole] at hk
    rwa [List.append_nil, ← hk] at hfresh
  · cases ok with
    | true => exact absurd (hall rfl).2.ge hwhole
    | false =>
      refine .cut ?_
      simp only at hk
      rw [hk, List.length_take]
      omega

/-- A new connection opens a new line. -/
theorem Inv.connect (h : t.Inv txHost) {success : Bool} {sends : List SendEvent}
    (hstep : t.step txHost rxHost (.connect success sends) = some t') : t'.Inv txHost := by
  obtain ⟨popped, items, running, h⟩ := h
  simp only [step] at hstep
  split_ifs at hstep with hphase hsuccess
  · obtain rfl := Option.some.inj hstep
    exact ⟨popped, items, running, h⟩
  · obtain ⟨result, hsent, rfl⟩ := Option.map_eq_some_iff.mp hstep
    have hopening : t.tx = .opening := not_not.mp hphase
    have hlines := h.lines
    rw [hopening] at hlines
    have hlines' := LinesHold.connect hlines (lineHolds_connect hsent)
    rw [List.append_nil] at hlines'
    refine ⟨popped, items, running, h.fits, h.accepted, h.reading, h.waiting, ?_, h.pushed⟩
    rw [connected_transmitted]
    simp only [transmitted, appendLast_append, List.nil_append]
    exact hlines'

/-- The receiver reads the first message of a line. -/
theorem Inv.first (h : t.Inv txHost) {arrived : ℕ} {splits : ℕ → ℕ}
    (hstep : t.step txHost rxHost (.first arrived splits) = some t') : t'.Inv txHost := by
  obtain ⟨popped, items, running, h⟩ := h
  simp only [step] at hstep
  split_ifs at hstep with hphase
  have hstarting : t.rx = .starting := not_not.mp hphase
  have hrunning : running = false := h.waiting (Or.inr hstarting)
  cases hlines : t.lines with
  | nil =>
    rw [hlines] at hstep
    cases hstep
  | cons line lines =>
    have hholds := h.lines
    rw [hlines, hrunning] at hholds
    obtain ⟨s, hread, hincoming, -⟩ := Comm.readExactNumBytesAppend_tcp maxSingleReadSize_pos []
      (4 + sanAddressSize) (arriving line arrived splits)
    simp only [hlines, hread] at hstep
    obtain ⟨later, hlater, hsublist⟩ := hholds.close
    split_ifs at hstep with hrefused
    · obtain rfl := Option.some.inj hstep
      refine ⟨popped, later, false, h.fits, h.accepted, ?_, fun _ => rfl, hlater,
        h.lose hsublist⟩
      simp [hangUp]
    · obtain rfl := Option.some.inj hstep
      have hread36 : 4 + sanAddressSize ≤ (line.take arrived).length := by
        simp only [arriving] at hrefused
        grind
      have hlong : 4 + sanAddressSize ≤ line.length :=
        hread36.trans (List.length_take_le' _ _)
      have hnext := hholds.first hlong
      rw [← drop_arriving hread36] at hnext
      have hrest : s.incoming = (line.take arrived).drop (4 + sanAddressSize) := hincoming
      refine ⟨popped, items, true, h.fits, h.accepted, fun _ => rfl, ?_, ?_, h.pushed⟩
      · simp
      · simp only [hrest]
        exact hnext

/-- What one turn of the executor does to the functions: only a call of function 1 with a
capsule pushes, and it pushes that capsule. -/
inductive Executes (rxHost : ByteOrder) (interfaceAddress : SanAddress)
    (functions : CCapsuleReceiver) (call : UInt32 × Bytes) (functions' : CCapsuleReceiver) : Prop
  | nothing (h : functions'.pushed = functions.pushed)
  | pushes (memory : CCapsule) (hid : call.1 = 1) (hlength : CCapsule.headerSize ≤ call.2.length)
      (h : functions'.pushed = functions.pushed ++
        [(memory.unpack rxHost call.2).2.setFromInterfaceAddress interfaceAddress])

/-- A turn of the executor on what the parser of the wire format makes of the connection. -/
theorem step_receive {arrived : ℕ} {splits : ℕ → ℕ} {terminated : Bool} {memory : CCapsule}
    {interfaceAddress : SanAddress} (hlines : t.lines = line :: lines)
    (hstep : t.step txHost rxHost (.receive arrived splits terminated memory interfaceAddress) =
      some t') :
    t.rx = .running ∧
    ((parseFrame (line.take arrived) = none ∧
      t' = { t with receiver := t.receiver.setPeerAddress sanDefaultAddress }.hangUp lines) ∨
    ∃ call rest rx functions, parseFrame (line.take arrived) = some (call, rest) ∧
      (rx = .running ∨ rx = .stopped) ∧
      Executes rxHost interfaceAddress t.functions call functions ∧
      t' = { t with rx := rx, functions := functions,
                    lines := (rest ++ line.drop arrived) :: lines }) := by
  simp only [step] at hstep
  split_ifs at hstep with hphase
  refine ⟨not_not.mp hphase, ?_⟩
  obtain ⟨hwhole, hcut⟩ := recvData_tcp maxSingleReadSize_pos rxHost 0
    (arriving line arrived splits)
  cases hparse : parseFrame (line.take arrived) with
  | none =>
    obtain ⟨out, s', hrecv⟩ := hcut hparse
    simp only [hlines, hrecv, Bool.not_false, if_true] at hstep
    obtain rfl := Option.some.inj hstep
    exact Or.inl ⟨rfl, rfl⟩
  | some result =>
    obtain ⟨call, rest⟩ := result
    obtain ⟨s', hrecv, hrest⟩ := hwhole hparse
    simp only [hlines, hrecv, Bool.not_true, Bool.false_eq_true, if_false, hrest] at hstep
    cases hexecute : (createExecutor rxHost).executeFunction rxHost call.1 call.2
        ⟨⟨[], []⟩, { t.functions with
          terminated := terminated
          memory := memory
          interfaceAddress := interfaceAddress }, []⟩ with
    | none =>
      rw [hexecute] at hstep
      cases hstep
    | some executed =>
      obtain ⟨code, executed⟩ := executed
      rw [hexecute] at hstep
      obtain rfl := Option.some.inj hstep
      refine Or.inr ⟨call, rest, _, executed.world, rfl, ?_, ?_, rfl⟩
      · cases executed.world.aborted
        · exact Or.inl rfl
        · exact Or.inr rfl
      · rw [world_of_executeFunction hexecute]
        by_cases hid : call.1 = 1
        · rw [if_pos hid]
          rcases pushed_call rxHost { t.functions with
              terminated := terminated
              memory := memory
              interfaceAddress := interfaceAddress } with hsame | ⟨hlength, hpushed⟩
          · exact .nothing hsame
          · exact .pushes memory hid hlength hpushed
        · rw [if_neg hid]
          exact .nothing rfl

/-- Whatever was sent last, the executor pushes the capsule of the call or nothing. -/
theorem Executes.message {interfaceAddress : SanAddress} {functions functions' : CCapsuleReceiver}
    {item : Option CCapsule}
    (h : Executes rxHost interfaceAddress functions (message txHost item) functions') :
    functions'.pushed = functions.pushed ∨ ∃ capsule, item = some capsule ∧
      functions'.pushed = functions.pushed ++
        [capsule.setFromInterfaceAddress interfaceAddress] := by
  cases h with
  | nothing h => exact Or.inl h
  | pushes memory hid hlength h =>
    right
    cases item with
    | none => exact absurd hid (by simp only [Interfaces.message]; decide)
    | some capsule =>
      refine ⟨capsule, rfl, ?_⟩
      rw [h, Interfaces.message, CCapsule.unpack_pack]
      rfl

/-- The receiver carries out one message of a line. -/
theorem Inv.receive (h : t.Inv txHost) {arrived : ℕ} {splits : ℕ → ℕ} {terminated : Bool}
    {memory : CCapsule} {interfaceAddress : SanAddress}
    (hstep : t.step txHost rxHost (.receive arrived splits terminated memory interfaceAddress) =
      some t') : t'.Inv txHost := by
  obtain ⟨popped, items, running, h⟩ := h
  cases hlines : t.lines with
  | nil =>
    simp only [step, hlines] at hstep
    split_ifs at hstep
  | cons line lines =>
    obtain ⟨hphase, hstep⟩ := step_receive hlines hstep
    have hholds := h.lines
    rw [hlines, h.reading hphase] at hholds
    rcases hstep with ⟨-, rfl⟩ | ⟨call, rest, rx, functions, hparse, hrx, hexecutes, rfl⟩
    · obtain ⟨later, hlater, hsublist⟩ := hholds.close
      refine ⟨popped, later, false, h.fits, h.accepted, ?_, fun _ => rfl, hlater,
        h.lose hsublist⟩
      simp [hangUp]
    · have hwaiting : rx = .listening ∨ rx = .starting → true = false := by
        rcases hrx with rfl | rfl <;> simp
      rcases hholds.receive arrived with hnone | ⟨call', rest', hcall, hshort, hrest⟩ |
        ⟨item, items', rest', rfl, hitem, -, hrest⟩
      · rw [hnone] at hparse
        cases hparse
      · obtain ⟨rfl, rfl⟩ := Prod.mk.inj (Option.some.inj (hcall.symm.trans hparse))
        refine ⟨popped, items, true, h.fits, h.accepted, fun _ => rfl, hwaiting, hrest, ?_⟩
        cases hexecutes with
        | nothing hsame =>
          rw [hsame]
          exact h.pushed
        | pushes memory hid hlength hpushed => exact absurd hlength (not_le.mpr hshort)
      · obtain ⟨rfl, rfl⟩ := Prod.mk.inj (Option.some.inj (hitem.symm.trans hparse))
        refine ⟨popped, items', true, h.fits, h.accepted, fun _ => rfl, hwaiting, hrest, ?_⟩
        rcases hexecutes.message with hsame | ⟨capsule, rfl, hpushed⟩
        · rw [hsame]
          exact h.lose (List.sublist_cons_self item items')
        · have hmoved := h.pushed
          rw [← List.singleton_append, received_append, ← List.append_assoc] at hmoved
          rw [hpushed, List.map_append]
          exact hmoved

/-- Every event keeps the invariant, as long as capsules fit. -/
theorem Inv.step (h : t.Inv txHost) {event : TransferEvent} (hevent : event.Fits)
    (hstep : t.step txHost rxHost event = some t') : t'.Inv txHost := by
  cases event with
  | sendCapsule capsule terminated => exact h.sendCapsule hevent hstep
  | connect success sends => exact h.connect hstep
  | timeout sends => exact h.timeout hstep
  | pop terminated sends => exact h.pop hstep
  | terminate =>
    obtain ⟨popped, items, running, h⟩ := h
    obtain rfl := Option.some.inj hstep
    exact ⟨popped, items, running, h.fits, h.accepted, h.reading, h.waiting, h.lines.seal,
      h.pushed⟩
  | accept =>
    obtain ⟨popped, items, running, h⟩ := h
    simp only [Transfer.step] at hstep
    split_ifs at hstep with hphase
    obtain rfl := Option.some.inj hstep
    have hlistening : t.rx = .listening := not_not.mp (not_or.mp hphase).1
    refine ⟨popped, items, running, h.fits, h.accepted, ?_, fun _ => h.waiting (Or.inl hlistening),
      h.lines, h.pushed⟩
    simp
  | drop =>
    obtain ⟨popped, items, running, h⟩ := h
    simp only [Transfer.step] at hstep
    split_ifs at hstep with hphase
    have hlistening : t.rx = .listening := not_not.mp hphase
    cases hlines : t.lines with
    | nil =>
      rw [hlines] at hstep
      cases hstep
    | cons line lines =>
      rw [hlines] at hstep
      obtain rfl := Option.some.inj hstep
      have hholds := h.lines
      rw [hlines] at hholds
      obtain ⟨later, hlater, hsublist⟩ := hholds.close
      refine ⟨popped, later, false, h.fits, h.accepted, ?_, fun _ => rfl, hlater,
        h.lose hsublist⟩
      simp [hlistening]
  | first arrived splits => exact h.first hstep
  | receive arrived splits terminated memory interfaceAddress => exact h.receive hstep
  | stop =>
    obtain ⟨popped, items, running, h⟩ := h
    obtain rfl := Option.some.inj hstep
    refine ⟨popped, items, running, h.fits, h.accepted, ?_, ?_, h.lines, h.pushed⟩
    · simp
    · simp

/-! ## What the receiver pushes -/

/-- What the node behind the receiver may rely on. -/
structure Faithful (txHost rxHost : ByteOrder) (t : Transfer) : Prop where
  /-- The pushed capsules are accepted ones in their order, each at most once. Only the
  address of the interface, which is not sent, is left out. -/
  subsequence : (t.functions.pushed.map content).Sublist (t.accepted.map content)
  /-- A step that pushes has received a whole call of function 1 with an accepted capsule. -/
  whole : ∀ event t', t.step txHost rxHost event = some t' →
    t'.functions.pushed = t.functions.pushed ∨
    ∃ arrived splits terminated memory interfaceAddress line lines capsule rest,
      event = .receive arrived splits terminated memory interfaceAddress ∧
      t.lines = line :: lines ∧ capsule ∈ t.accepted ∧
      line.take arrived = frame 1 (capsule.pack txHost) ++ rest ∧
      t'.functions.pushed = t.functions.pushed ++
        [capsule.setFromInterfaceAddress interfaceAddress]

/-- Only the executor pushes. -/
theorem pushed_of_step {event : TransferEvent}
    (hevent : ∀ arrived splits terminated memory interfaceAddress,
      event ≠ .receive arrived splits terminated memory interfaceAddress)
    (hstep : t.step txHost rxHost event = some t') :
    t'.functions.pushed = t.functions.pushed := by
  cases event with
  | sendCapsule capsule terminated =>
    obtain rfl := Option.some.inj hstep
    rfl
  | connect success sends =>
    simp only [step] at hstep
    split_ifs at hstep
    · obtain rfl := Option.some.inj hstep
      rfl
    · obtain ⟨result, -, rfl⟩ := Option.map_eq_some_iff.mp hstep
      rfl
  | timeout sends =>
    simp only [step] at hstep
    split_ifs at hstep
    obtain ⟨result, -, rfl⟩ := Option.map_eq_some_iff.mp hstep
    rfl
  | pop terminated sends =>
    simp only [step] at hstep
    split at hstep
    · cases hstep
    · split at hstep
      · split_ifs at hstep
        obtain ⟨result, -, rfl⟩ := Option.map_eq_some_iff.mp hstep
        rfl
      · obtain rfl := Option.some.inj hstep
        rfl
      · cases hstep
  | terminate =>
    obtain rfl := Option.some.inj hstep
    rfl
  | accept =>
    simp only [step] at hstep
    split_ifs at hstep
    obtain rfl := Option.some.inj hstep
    rfl
  | drop =>
    simp only [step] at hstep
    split_ifs at hstep
    cases hlines : t.lines with
    | nil => simp [hlines] at hstep
    | cons line lines =>
      rw [hlines] at hstep
      obtain rfl := Option.some.inj hstep
      rfl
  | first arrived splits =>
    simp only [step] at hstep
    split_ifs at hstep
    cases hlines : t.lines with
    | nil => simp [hlines] at hstep
    | cons line lines =>
      obtain ⟨s, hread, -⟩ := Comm.readExactNumBytesAppend_tcp maxSingleReadSize_pos []
        (4 + sanAddressSize) (arriving line arrived splits)
      simp only [hlines, hread] at hstep
      split_ifs at hstep
      · obtain rfl := Option.some.inj hstep
        rfl
      · obtain rfl := Option.some.inj hstep
        rfl
  | receive arrived splits terminated memory interfaceAddress =>
    exact absurd rfl (hevent _ _ _ _ _)
  | stop =>
    obtain rfl := Option.some.inj hstep
    rfl

/-- A capsule on a connection is sent like an accepted one. -/
theorem History.mem_accepted {capsule : CCapsule}
    (h : t.History txHost popped (some capsule :: items) running) :
    ∃ c ∈ t.accepted, content c = content capsule := by
  have hmem : content capsule ∈
      t.functions.pushed.map content ++ received (some capsule :: items) :=
    List.mem_append_right _ List.mem_cons_self
  have hpopped := h.pushed.subset hmem
  rw [received_some] at hpopped
  obtain ⟨c, hc, hsame⟩ := List.mem_map.mp hpopped
  refine ⟨c, ?_, hsame⟩
  rw [h.accepted]
  exact List.mem_append_left _ hc

/-- A turn of the executor pushes an accepted capsule whose call has arrived whole. -/
theorem Inv.pushes (h : t.Inv txHost) {arrived : ℕ} {splits : ℕ → ℕ} {terminated : Bool}
    {memory : CCapsule} {interfaceAddress : SanAddress} (hlines : t.lines = line :: lines)
    (hstep : t.step txHost rxHost (.receive arrived splits terminated memory interfaceAddress) =
      some t') :
    t'.functions.pushed = t.functions.pushed ∨
    ∃ capsule rest, capsule ∈ t.accepted ∧
      line.take arrived = frame 1 (capsule.pack txHost) ++ rest ∧
      t'.functions.pushed = t.functions.pushed ++
        [capsule.setFromInterfaceAddress interfaceAddress] := by
  obtain ⟨popped, items, running, h⟩ := h
  obtain ⟨hphase, hstep⟩ := step_receive hlines hstep
  have hholds := h.lines
  rw [hlines, h.reading hphase] at hholds
  rcases hstep with ⟨-, rfl⟩ | ⟨call, rest, rx, functions, hparse, -, hexecutes, rfl⟩
  · exact Or.inl rfl
  · rcases hholds.receive arrived with hnone | ⟨call', rest', hcall, hshort, -⟩ |
      ⟨item, items', rest', rfl, hitem, harrived, -⟩
    · rw [hnone] at hparse
      cases hparse
    · obtain ⟨rfl, rfl⟩ := Prod.mk.inj (Option.some.inj (hcall.symm.trans hparse))
      cases hexecutes with
      | nothing hsame => exact Or.inl hsame
      | pushes memory hid hlength hpushed => exact absurd hlength (not_le.mpr hshort)
    · obtain ⟨rfl, rfl⟩ := Prod.mk.inj (Option.some.inj (hitem.symm.trans hparse))
      rcases hexecutes.message with hsame | ⟨capsule, rfl, hpushed⟩
      · exact Or.inl hsame
      · right
        obtain ⟨c, hc, hsame⟩ := h.mem_accepted
        have hpack := congrArg (CCapsule.pack txHost) hsame
        rw [pack_content, pack_content] at hpack
        refine ⟨c, rest', hc, ?_, ?_⟩
        · rw [hpack]
          exact harrived
        · have hstamp := congrArg
            (fun capsule : CCapsule => capsule.setFromInterfaceAddress interfaceAddress) hsame
          exact hpushed.trans (congrArg (fun c => t.functions.pushed ++ [c]) hstamp.symm)

/-- What the history says of the capsules. -/
theorem Inv.faithful (h : t.Inv txHost) : t.Faithful txHost rxHost := by
  refine ⟨?_, ?_⟩
  · obtain ⟨popped, items, running, h⟩ := h
    have hpopped : (popped.map content).Sublist (t.accepted.map content) := by
      rw [h.accepted]
      exact (List.sublist_append_left _ _).map _
    have hpushed := h.pushed
    rw [received_some] at hpushed
    exact ((List.sublist_append_left _ _).trans hpushed).trans hpopped
  · intro event t' hstep
    cases event with
    | receive arrived splits terminated memory interfaceAddress =>
      cases hlines : t.lines with
      | nil =>
        simp only [Transfer.step, hlines] at hstep
        split_ifs at hstep
      | cons line lines =>
        rcases h.pushes hlines hstep with hsame | ⟨capsule, rest, hmem, harrived, hpushed⟩
        · exact Or.inl hsame
        · exact Or.inr ⟨arrived, splits, terminated, memory, interfaceAddress, line, lines,
            capsule, rest, rfl, rfl, hmem, harrived, hpushed⟩
    | _ =>
      left
      refine pushed_of_step ?_ hstep
      simp

/-- Every run with capsules that fit is faithful. -/
theorem faithful_of_run {senderAddr receiverAddr : SanAddress} {maxOutputQueueSize : ℕ}
    {memory : CCapsule} {events : List TransferEvent} (hevents : ∀ event ∈ events, event.Fits)
    (hrun : Execution.run (Transfer.step txHost rxHost)
      (start senderAddr receiverAddr maxOutputQueueSize memory) events = some t) :
    t.Faithful txHost rxHost :=
  (Execution.run_invariant (fun h hevent hstep => Inv.step h hevent hstep) hevents
    (inv_start senderAddr receiverAddr maxOutputQueueSize memory) hrun).faithful

/-- A first message that has arrived is read, and nothing behind it. -/
theorem step_first (hphase : t.rx = .starting)
    (hlines : t.lines = (firstMessage addr ++ line) :: lines) (splits : ℕ → ℕ) :
    t.step txHost rxHost (.first (4 + sanAddressSize) splits) = some { t with
      rx := .running
      receiver := t.receiver.setPeerAddress addr
      lines := line :: lines } := by
  have hlength := length_firstMessage addr
  have hline : (firstMessage addr ++ line).take (4 + sanAddressSize) = firstMessage addr :=
    List.take_left' hlength
  have hlater : (firstMessage addr ++ line).drop (4 + sanAddressSize) = line :=
    List.drop_left' hlength
  obtain ⟨s, hread, hincoming, -⟩ := Comm.readExactNumBytesAppend_tcp maxSingleReadSize_pos []
    (4 + sanAddressSize) ⟨true, [], [], firstMessage addr, splits⟩
  have hnothing : s.incoming = [] := by
    rw [hincoming]
    exact List.drop_eq_nil_iff.mpr hlength.le
  have hall : (firstMessage addr).take (4 + sanAddressSize) = firstMessage addr :=
    List.take_of_length_le hlength.le
  have hgone : decide (4 + sanAddressSize ≤ (firstMessage addr).length) = true :=
    decide_eq_true hlength.ge
  simp only [step, hphase, hlines, arriving, hline, hread, hgone, hall, List.nil_append,
    CTcpInterface.parseFirstMessage_firstMessage, hnothing, hlater]
  rfl

/-- A call of function 1 that has arrived pushes its capsule. -/
theorem pushed_receive (hphase : t.rx = .running) {arrived : ℕ} {payload rest : Bytes}
    {memory capsule : CCapsule} (hlines : t.lines = line :: lines)
    (hparse : parseFrame (line.take arrived) = some ((1, payload), rest))
    (hunpack : memory.unpack rxHost payload = (true, capsule)) (splits : ℕ → ℕ)
    (interfaceAddress : SanAddress) :
    ∃ t', t.step txHost rxHost (.receive arrived splits false memory interfaceAddress) =
        some t' ∧ t'.accepted = t.accepted ∧
      t'.functions.pushed = t.functions.pushed ++
        [capsule.setFromInterfaceAddress interfaceAddress] := by
  obtain ⟨s, hrecv, hrest⟩ := (recvData_tcp maxSingleReadSize_pos rxHost 0
    (arriving line arrived splits)).1 hparse
  have hexecute : (createExecutor rxHost).executeFunction rxHost 1 payload
      ⟨⟨[], []⟩, { t.functions with
        terminated := false
        memory := memory
        interfaceAddress := interfaceAddress }, []⟩ =
    some (.success, ⟨⟨[], []⟩, { t.functions with
      terminated := false
      memory := memory
      interfaceAddress := interfaceAddress
      m_SerializedCapsule := payload
      pushed := t.functions.pushed ++
        [capsule.setFromInterfaceAddress interfaceAddress] }, [(1, payload)]⟩) := by
    have hcall : (SendCapsuleFuncIn rxHost).call { t.functions with
        terminated := false
        memory := memory
        interfaceAddress := interfaceAddress
        m_SerializedCapsule := payload } = { t.functions with
      terminated := false
      memory := memory
      interfaceAddress := interfaceAddress
      m_SerializedCapsule := payload
      pushed := t.functions.pushed ++
        [capsule.setFromInterfaceAddress interfaceAddress] } := by
      simp [SendCapsuleFuncIn, hunpack]
    rw [← hcall]
    rfl
  simp only [step, hphase, hlines, hrecv, hexecute]
  exact ⟨_, rfl, rfl, rfl⟩

/-- A socket takes a whole first message. -/
theorem transmit_firstMessage (addr : SanAddress) :
    transmit ((Comm.TcpStreamRW maxSingleReadSize maxSingleReadSize_pos).writeAll
      (firstMessage addr)) [Comm.takes (4 + sanAddressSize)] = some (true, firstMessage addr) := by
  have hlength := length_firstMessage addr
  have hmod : (firstMessage addr).length % 2 ^ 32 = 4 + sanAddressSize := by
    rw [hlength]
    rfl
  rw [transmit, Comm.writeAll_takes _ hmod (by decide) (by decide) _ rfl rfl, Option.map_some,
    decide_eq_true hlength, List.take_of_length_le hlength.le]
  rfl

/-- Of the call with a capsule a socket takes as many bytes as are counted. -/
theorem transmit_capsule (host : ByteOrder) (capsule : CCapsule)
    (hpos : 0 < frameSize capsule % 2 ^ 32) (hint : frameSize capsule % 2 ^ 32 < 2 ^ 31) :
    ∃ ok, transmit (invokeFunction host (SendCapsuleFuncOut (capsule.pack host)))
      [Comm.takes (frameSize capsule % 2 ^ 32)] =
        some (ok, (frame 1 (capsule.pack host)).take (frameSize capsule % 2 ^ 32)) := by
  have hmod : (frame 1 (capsule.pack host)).length % 2 ^ 32 = frameSize capsule % 2 ^ 32 := by
    rw [length_frame_pack]
  have hinvoke := invokeFunction_funcOut host (some capsule)
  simp only [funcOut, message] at hinvoke
  rw [transmit, hinvoke, Comm.writeAll_takes _ hmod hint hpos _ rfl rfl]
  exact ⟨_, rfl⟩

/-- A capsule is sent over one connection, and received; `m_interfaceAddress` refers to the
given address. -/
def singleCapsule (interfaceAddress : SanAddress) (capsule : CCapsule) : List TransferEvent :=
  let size := frameSize capsule % 2 ^ 32
  [.sendCapsule capsule false, .connect true [Comm.takes (4 + sanAddressSize)],
    .pop false [Comm.takes size], .accept, .first (4 + sanAddressSize) fun _ => size,
    .receive size (fun _ => size) false capsule interfaceAddress]

/-- The states in which no capsule has been received yet. -/
def beforeReceive (senderAddr receiverAddr : SanAddress) (memory capsule : CCapsule)
    (tx : TxPhase) (queue : List CCapsule) (lines : List Bytes) (rx : RxPhase) : Transfer where
  tx := tx
  sender := ⟨senderAddr, sanDefaultAddress, ⟨1, queue⟩⟩
  lines := lines
  rx := rx
  receiver := (CTcpInterface.create receiverAddr 0).setPeerAddress
    (if rx = .running then senderAddr else sanDefaultAddress)
  functions := ⟨[], [], false, memory, receiverAddr, false⟩
  accepted := [capsule]

/-- The size that is counted decides how much data the received capsule has. -/
theorem run_singleCapsule (txHost rxHost : ByteOrder)
    (senderAddr receiverAddr interfaceAddress : SanAddress) (memory capsule : CCapsule) (hint : frameSize capsule % 2 ^ 32 < 2 ^ 31)
    (hheader : 4 + 2 + CCapsule.headerSize ≤ frameSize capsule % 2 ^ 32) :
    ∃ t, Execution.run (Transfer.step txHost rxHost) (start senderAddr receiverAddr 1 memory)
        (singleCapsule interfaceAddress capsule) = some t ∧ t.accepted = [capsule] ∧
      t.functions.pushed = [{ capsule with
        interfaceAddress := interfaceAddress
        data := capsule.data.take
          (frameSize capsule % 2 ^ 32 - (4 + 2 + CCapsule.headerSize)) }] := by
  have hcounted : 93 ≤ frameSize capsule % 2 ^ 32 := hheader
  obtain ⟨ok, hpop⟩ := transmit_capsule txHost capsule (by omega) hint
  simp only [singleCapsule]
  generalize hsize : frameSize capsule % 2 ^ 32 = size at *
  have hdata : size - 6 = CCapsule.headerSize + (size - (4 + 2 + CCapsule.headerSize)) := by
    have hvalue : CCapsule.headerSize = 87 := rfl
    omega
  have hparse : parseFrame (((frame 1 (capsule.pack txHost)).take size).take size) =
      some ((1, (capsule.pack txHost).take (size - 6)), []) := by
    rw [List.take_take, Nat.min_self]
    refine parseFrame_take (by decide) ?_ (by omega)
    rw [length_frame_pack, hsize]
  have hunpack := CCapsule.unpack_take_pack txHost rxHost capsule capsule
    (size - (4 + 2 + CCapsule.headerSize))
  rw [← hdata] at hunpack
  have hsend : (start senderAddr receiverAddr 1 memory).step txHost rxHost
      (.sendCapsule capsule false) = some (beforeReceive senderAddr receiverAddr memory capsule
        .opening [capsule] [] .listening) := rfl
  have hconnect : (beforeReceive senderAddr receiverAddr memory capsule .opening [capsule] []
      .listening).step txHost rxHost (.connect true [Comm.takes (4 + sanAddressSize)]) =
        some (beforeReceive senderAddr receiverAddr memory capsule .connected [capsule]
          [firstMessage senderAddr] .listening) := by
    simp only [step, beforeReceive, transmit_firstMessage]
    rfl
  have hpopped : (beforeReceive senderAddr receiverAddr memory capsule .connected [capsule]
      [firstMessage senderAddr] .listening).step txHost rxHost (.pop false [Comm.takes size]) =
        some (beforeReceive senderAddr receiverAddr memory capsule
          (if ok then .connected else .opening) []
          [firstMessage senderAddr ++ (frame 1 (capsule.pack txHost)).take size] .listening) := by
    have hloop : CProducerConsumer.Call.try_pop.loop false ⟨1, [capsule]⟩ =
        .returns 0 ⟨1, []⟩ (some capsule) := rfl
    simp only [step, beforeReceive, hloop, hpop]
    rfl
  have haccept : (beforeReceive senderAddr receiverAddr memory capsule
      (if ok then .connected else .opening) []
      [firstMessage senderAddr ++ (frame 1 (capsule.pack txHost)).take size] .listening).step
        txHost rxHost .accept = some (beforeReceive senderAddr receiverAddr memory capsule
          (if ok then .connected else .opening) []
          [firstMessage senderAddr ++ (frame 1 (capsule.pack txHost)).take size] .starting) := rfl
  have hfirst : (beforeReceive senderAddr receiverAddr memory capsule
      (if ok then .connected else .opening) []
      [firstMessage senderAddr ++ (frame 1 (capsule.pack txHost)).take size] .starting).step
        txHost rxHost (.first (4 + sanAddressSize) fun _ => size) =
          some (beforeReceive senderAddr receiverAddr memory capsule
            (if ok then .connected else .opening) []
            [(frame 1 (capsule.pack txHost)).take size] .running) :=
    step_first rfl rfl _
  obtain ⟨t, hreceive, haccepted, hpushed⟩ : ∃ t, (beforeReceive senderAddr receiverAddr
      memory capsule (if ok then .connected else .opening) []
      [(frame 1 (capsule.pack txHost)).take size] .running).step txHost rxHost
        (.receive size (fun _ => size) false capsule interfaceAddress) = some t ∧ _ :=
    pushed_receive rfl rfl hparse hunpack _ interfaceAddress
  refine ⟨t, ?_, haccepted, hpushed⟩
  simp only [Execution.run, hsend, hconnect, hpopped, haccept, hfirst, hreceive,
    Option.bind_some]

/-- A capsule that does not fit is received with less data. -/
theorem fits_of_faithful {senderAddr receiverAddr : SanAddress} {memory capsule : CCapsule}
    (h : ∀ t, Execution.run (Transfer.step txHost rxHost) (start senderAddr receiverAddr 1 memory)
      (singleCapsule receiverAddr capsule) = some t → t.Faithful txHost rxHost) :
    Fits capsule := by
  by_contra hfits
  obtain ⟨hlong, hcounted⟩ := not_or.mp hfits
  obtain ⟨hheader, hint⟩ := not_or.mp hcounted
  obtain ⟨t, hrun, haccepted, hpushed⟩ := run_singleCapsule txHost rxHost senderAddr
    receiverAddr receiverAddr memory capsule (not_le.mp hint) (not_lt.mp hheader)
  have hsublist := (h t hrun).subsequence
  rw [hpushed, haccepted, List.map_singleton, List.map_singleton, List.singleton_sublist,
    List.mem_singleton] at hsublist
  have hdata := congrArg (fun c => c.data.length) hsublist
  simp only [content, CCapsule.setFromInterfaceAddress, List.length_take] at hdata
  unfold frameSize at hlong hdata
  have hvalue : CCapsule.headerSize = 87 := rfl
  omega

/-- Whatever breaks and is opened again, the receiver pushes the accepted capsules in order,
without duplicates and whole, as long as all of them fit; and one that does not fit is
enough to lose this. -/
theorem faithful_iff_fits (txHost rxHost : ByteOrder) (senderAddr receiverAddr : SanAddress)
    (memory : CCapsule) :
    (∀ (maxOutputQueueSize : ℕ) (events : List TransferEvent) (t : Transfer),
      (∀ event ∈ events, event.Fits) →
      Execution.run (Transfer.step txHost rxHost)
        (start senderAddr receiverAddr maxOutputQueueSize memory) events = some t →
      t.Faithful txHost rxHost) ∧
    ∀ capsule : CCapsule,
      (∀ (maxOutputQueueSize : ℕ) (events : List TransferEvent) (t : Transfer),
        (∀ event ∈ events, event.Fits ∨ ∃ terminated, event = .sendCapsule capsule terminated) →
        Execution.run (Transfer.step txHost rxHost)
          (start senderAddr receiverAddr maxOutputQueueSize memory) events = some t →
        t.Faithful txHost rxHost) → Fits capsule := by
  refine ⟨fun maxOutputQueueSize events t hevents hrun => faithful_of_run hevents hrun, ?_⟩
  intro capsule h
  refine fits_of_faithful fun t hrun => h 1 (singleCapsule receiverAddr capsule) t ?_ hrun
  intro event hevent
  simp only [singleCapsule, List.mem_cons, List.not_mem_nil, or_false] at hevent
  rcases hevent with rfl | rfl | rfl | rfl | rfl | rfl
  · exact Or.inr ⟨false, rfl⟩
  · exact Or.inl trivial
  · exact Or.inl trivial
  · exact Or.inl trivial
  · exact Or.inl trivial
  · exact Or.inl trivial

/-- A capsule from an address of its own with the given data. -/
def sampleCapsule (data : Bytes) : CCapsule where
  flagDX := false
  flagDS := false
  interfaceAddress := sanDefaultAddress
  srcAddress := FixedBytes.replicate sanAddressSize 1
  dstAddress := FixedBytes.replicate sanAddressSize 2
  appId := FixedBytes.replicate sanHashSize 3
  hop := 0
  data := data

/-- A capsule with one byte of data goes through. -/
theorem faithful_iff_fits_sample :
    ∃ t, Execution.run (Transfer.step .littleEndian .bigEndian)
        (start sanDefaultAddress sanDefaultAddress 1 (sampleCapsule []))
        (singleCapsule sanDefaultAddress (sampleCapsule [7])) = some t ∧
      t.functions.pushed = [sampleCapsule [7]] ∧ t.Faithful .littleEndian .bigEndian := by
  obtain ⟨t, hrun, -, hpushed⟩ := run_singleCapsule .littleEndian .bigEndian sanDefaultAddress
    sanDefaultAddress sanDefaultAddress (sampleCapsule []) (sampleCapsule [7]) (by decide) (by decide)
  refine ⟨t, hrun, hpushed, (faithful_iff_fits .littleEndian .bigEndian sanDefaultAddress
    sanDefaultAddress (sampleCapsule [])).1 1 (singleCapsule sanDefaultAddress (sampleCapsule [7])) t ?_ hrun⟩
  intro event hevent
  simp only [singleCapsule, List.mem_cons, List.not_mem_nil, or_false] at hevent
  have hfits : Fits (sampleCapsule [7]) := by decide
  rcases hevent with rfl | rfl | rfl | rfl | rfl | rfl
  · exact hfits
  · trivial
  · trivial
  · trivial
  · trivial
  · trivial

/-- A capsule with 4 GiB of data arrives without data. -/
theorem not_faithful_of_length {data : Bytes} (hlength : data.length = 2 ^ 32) :
    ∃ t, Execution.run (Transfer.step .littleEndian .littleEndian)
        (start sanDefaultAddress sanDefaultAddress 1 (sampleCapsule []))
        (singleCapsule sanDefaultAddress (sampleCapsule data)) = some t ∧ t.accepted = [sampleCapsule data] ∧
      t.functions.pushed = [sampleCapsule []] ∧ ¬t.Faithful .littleEndian .littleEndian := by
  have hheader : 4 + 2 + CCapsule.headerSize = 93 := rfl
  have hcounted : frameSize (sampleCapsule data) % 2 ^ 32 = 93 := by
    have hsize : frameSize (sampleCapsule data) = 93 + data.length := rfl
    omega
  obtain ⟨t, hrun, haccepted, hpushed⟩ := run_singleCapsule .littleEndian .littleEndian
    sanDefaultAddress sanDefaultAddress sanDefaultAddress (sampleCapsule []) (sampleCapsule data) (by omega)
    (by omega)
  rw [hcounted, hheader, Nat.sub_self, List.take_zero] at hpushed
  refine ⟨t, hrun, haccepted, hpushed, fun h => ?_⟩
  have hsublist := h.subsequence
  rw [hpushed, haccepted, List.map_singleton, List.map_singleton, List.singleton_sublist,
    List.mem_singleton] at hsublist
  have hdata : (0 : ℕ) = data.length := congrArg (fun c => c.data.length) hsublist
  omega

/-- A capsule with 2^32 bytes of data is received without any. -/
theorem not_faithful_large :
    ∃ t, Execution.run (Transfer.step .littleEndian .littleEndian)
        (start sanDefaultAddress sanDefaultAddress 1 (sampleCapsule []))
        (singleCapsule sanDefaultAddress (sampleCapsule (List.replicate (2 ^ 32) 7))) = some t ∧
      t.accepted = [sampleCapsule (List.replicate (2 ^ 32) 7)] ∧
      t.functions.pushed = [sampleCapsule []] ∧ ¬t.Faithful .littleEndian .littleEndian :=
  not_faithful_of_length List.length_replicate

end Transfer

end San2.Interfaces
