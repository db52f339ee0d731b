import San2.Library.BoundedFifo
import San2.Library.Execution
import Mathlib.Tactic.Ring

/-!
# The queue between threads

Every call runs under the mutex of the queue, from its beginning or from the end of
a wait up to the next wait or its return. In between any other thread may run. A call
may look at the termination flag of its thread, which may be set at any time.
-/

namespace San2.Utils

/-- The queue proper. Its size is read into an `unsigned int`. -/
structure CProducerConsumer (α : Type) where
  m_maxQueueSize : ℕ
  m_que : List α
  deriving DecidableEq

namespace CProducerConsumer

variable {α : Type}

/-- A new queue is empty. -/
def create (maxQueueSize : ℕ) : CProducerConsumer α := ⟨maxQueueSize, []⟩

/-- `isEmpty`: the size is compared as an `unsigned int`. -/
def isEmpty (q : CProducerConsumer α) : Bool := q.m_que.length % 2 ^ 32 == 0

/-- `isFull`: the size is compared as an `unsigned int`. -/
def isFull (q : CProducerConsumer α) : Bool := q.m_que.length % 2 ^ 32 == q.m_maxQueueSize

/-- How a stretch of a call under the mutex ends. `outOfBounds` is a read of the front
of a queue without items. -/
inductive Progress (α : Type)
  | waits
  | returns (code : ℤ) (q : CProducerConsumer α) (out : Option α)
  | outOfBounds
  deriving DecidableEq

/-- What an operation does about a wait. -/
structure Patience where
  /-- It gives up when the wait times out. -/
  timeout : Bool
  /-- It has a thread and looks whether that is terminated. -/
  thread : Bool

/-- The loop of a push operation from its head on. -/
def pushLoop (patience : Patience) (item : α) (terminated : Bool) (q : CProducerConsumer α) :
    Progress α :=
  if q.isFull then .waits
  else if patience.thread && terminated then .returns (-1) q none
  else .returns 0 { q with m_que := q.m_que ++ [item] } none

/-- The loop of a pop operation from its head on. -/
def popLoop (patience : Patience) (terminated : Bool) (q : CProducerConsumer α) : Progress α :=
  if q.isEmpty then .waits
  else if patience.thread && terminated then .returns (-1) q none
  else match q.m_que with
    | [] => .outOfBounds
    | front :: rest => .returns 0 { q with m_que := rest } (some front)

/-- What an operation does when a wait has ended, up to the head of its loop. -/
def afterWait (patience : Patience) (timedOut terminated : Bool) (q : CProducerConsumer α)
    (loop : Progress α) : Progress α :=
  if patience.timeout && timedOut then .returns (-2) q none
  else if patience.thread && terminated then .returns (-1) q none
  else loop

/-- The six operations; the blocking ones have no thread. -/
inductive Call (α : Type)
  | try_push (item : α)
  | push (item : α)
  | pushBlocking (item : α)
  | try_pop
  | pop
  | popBlocking
  deriving DecidableEq

/-- What each call does when it cannot go on: whether it waits and whether it gives up. -/
def Call.patience : Call α → Patience
  | .try_push _ => ⟨true, true⟩
  | .push _ => ⟨false, true⟩
  | .pushBlocking _ => ⟨false, false⟩
  | .try_pop => ⟨true, true⟩
  | .pop => ⟨false, true⟩
  | .popBlocking => ⟨false, false⟩

/-- A call from the head of its loop on. -/
def Call.loop (call : Call α) (terminated : Bool) (q : CProducerConsumer α) : Progress α :=
  match call with
  | .try_push item => pushLoop call.patience item terminated q
  | .push item => pushLoop call.patience item terminated q
  | .pushBlocking item => pushLoop call.patience item terminated q
  | .try_pop => popLoop call.patience terminated q
  | .pop => popLoop call.patience terminated q
  | .popBlocking => popLoop call.patience terminated q

/-- A call from the end of a wait on. The thread may be terminated in between. -/
def Call.wake (call : Call α) (timedOut terminated terminatedLater : Bool)
    (q : CProducerConsumer α) : Progress α :=
  afterWait call.patience timedOut terminated q (call.loop terminatedLater q)

/-- The item that a push operation appends. -/
def Call.item : Call α → Option α
  | .try_push item => some item
  | .push item => some item
  | .pushBlocking item => some item
  | .try_pop => none
  | .pop => none
  | .popBlocking => none

/-- The sizes for which the count in an `unsigned int` is the size. -/
structure Bounded (q : CProducerConsumer α) : Prop where
  max_lt : q.m_maxQueueSize < 2 ^ 32
  size_le : q.m_que.length ≤ q.m_maxQueueSize

/-- While the queue is bounded `isFull` says that there is no room. -/
theorem Bounded.isFull {q : CProducerConsumer α} (h : q.Bounded) :
    q.isFull = true ↔ q.m_que.length = q.m_maxQueueSize := by
  have hmax := h.max_lt
  have hsize := h.size_le
  have hmod : q.m_que.length % 2 ^ 32 = q.m_que.length := Nat.mod_eq_of_lt (by omega)
  rw [CProducerConsumer.isFull, hmod, beq_iff_eq]

/-- While the queue is bounded `isEmpty` says that there is nothing in it. -/
theorem Bounded.isEmpty {q : CProducerConsumer α} (h : q.Bounded) :
    q.isEmpty = true ↔ q.m_que = [] := by
  have hmax := h.max_lt
  have hsize := h.size_le
  have hmod : q.m_que.length % 2 ^ 32 = q.m_que.length := Nat.mod_eq_of_lt (by omega)
  rw [CProducerConsumer.isEmpty, hmod, beq_iff_eq, List.length_eq_zero_iff]

/-- All that a stretch of a call can do: wait, return a code without a change, append
its item where there is room, or take the first item. -/
inductive Does (call : Call α) (q : CProducerConsumer α) : Progress α → Prop
  | waits : Does call q .waits
  | fails (code : ℤ) (h : code ≠ 0) : Does call q (.returns code q none)
  | pushes (item : α) (hitem : call.item = some item)
      (hroom : q.m_que.length < q.m_maxQueueSize) :
      Does call q (.returns 0 { q with m_que := q.m_que ++ [item] } none)
  | pops (front : α) (rest : List α) (hitem : call.item = none) (hque : q.m_que = front :: rest) :
      Does call q (.returns 0 { q with m_que := rest } (some front))

/-- What a pushing call does in its loop. -/
theorem Bounded.pushLoop {q : CProducerConsumer α} (h : q.Bounded) {call : Call α} {item : α}
    (hitem : call.item = some item) (patience : Patience) (terminated : Bool) :
    Does call q (pushLoop patience item terminated q) := by
  unfold CProducerConsumer.pushLoop
  split_ifs with hfull
  · exact .waits
  · exact .fails (-1) (by omega)
  · have hsize := h.size_le
    have hne : q.m_que.length ≠ q.m_maxQueueSize := fun heq => hfull (h.isFull.mpr heq)
    exact .pushes item hitem (by omega)

/-- What a popping call does in its loop. -/
theorem Bounded.popLoop {q : CProducerConsumer α} (h : q.Bounded) {call : Call α}
    (hitem : call.item = none) (patience : Patience) (terminated : Bool) :
    Does call q (popLoop patience terminated q) := by
  unfold CProducerConsumer.popLoop
  split_ifs with hempty
  · exact .waits
  · exact .fails (-1) (by omega)
  · cases hque : q.m_que with
    | nil => exact absurd (h.isEmpty.mpr hque) hempty
    | cons front rest => exact .pops front rest hitem hque

/-- What a pop operation returns was the first item. -/
theorem que_of_popLoop {q q' : CProducerConsumer α} {patience : Patience} {terminated : Bool}
    {code : ℤ} {item : α} (h : popLoop patience terminated q = .returns code q' (some item)) :
    q.m_que = item :: q'.m_que := by
  unfold CProducerConsumer.popLoop at h
  split_ifs at h with hempty hterminated
  · cases h
  · cases hque : q.m_que with
    | nil =>
      simp only [hque] at h
      cases h
    | cons front rest =>
      simp only [hque] at h
      cases h
      rfl

/-- What a call does when it begins. -/
theorem Bounded.loop {q : CProducerConsumer α} (h : q.Bounded) (call : Call α)
    (terminated : Bool) : Does call q (call.loop terminated q) := by
  cases call with
  | try_push item => exact h.pushLoop rfl _ terminated
  | push item => exact h.pushLoop rfl _ terminated
  | pushBlocking item => exact h.pushLoop rfl _ terminated
  | try_pop => exact h.popLoop rfl _ terminated
  | pop => exact h.popLoop rfl _ terminated
  | popBlocking => exact h.popLoop rfl _ terminated

/-- What a call does when it is woken. -/
theorem Bounded.wake {q : CProducerConsumer α} (h : q.Bounded) (call : Call α)
    (timedOut terminated terminatedLater : Bool) :
    Does call q (call.wake timedOut terminated terminatedLater q) := by
  unfold Call.wake afterWait
  split_ifs
  · exact .fails (-2) (by omega)
  · exact .fails (-1) (by omega)
  · exact h.loop call terminatedLater

/-- The end of a wait: the queue as the other threads have left it, and what the call is told. -/
structure Wake (α : Type) where
  queue : CProducerConsumer α
  timedOut : Bool
  terminated : Bool
  terminatedLater : Bool

/-- A call from the end of a stretch on: the queue at the beginning of its last stretch, and how
that ended. -/
def Call.resume (call : Call α) : CProducerConsumer α → Progress α → List (Wake α) →
    CProducerConsumer α × Progress α
  | _, .waits, wake :: wakes =>
    call.resume wake.queue
      (call.wake wake.timedOut wake.terminated wake.terminatedLater wake.queue) wakes
  | found, progress, _ => (found, progress)

/-- A call whose waits end as given. -/
def Call.run (call : Call α) (terminated : Bool) (q : CProducerConsumer α)
    (wakes : List (Wake α)) : CProducerConsumer α × Progress α :=
  call.resume q (call.loop terminated q) wakes

/-- A call that has returned does nothing more. -/
theorem Call.resume_returns (call : Call α) (found : CProducerConsumer α) (code : ℤ)
    (q : CProducerConsumer α) (out : Option α) (wakes : List (Wake α)) :
    call.resume found (.returns code q out) wakes = (found, .returns code q out) := by
  cases wakes with
  | nil => rfl
  | cons wake wakes => rfl

/-- What holds of every stretch of a call holds of its last one. -/
theorem Call.resume_preserves {call : Call α} {P : CProducerConsumer α → Progress α → Prop}
    (hwake : ∀ timedOut terminated terminatedLater q,
      P q (call.wake timedOut terminated terminatedLater q))
    {found : CProducerConsumer α} {progress : Progress α} (h : P found progress)
    (wakes : List (Wake α)) :
    P (call.resume found progress wakes).1 (call.resume found progress wakes).2 := by
  induction wakes generalizing found progress with
  | nil => cases progress <;> exact h
  | cons wake wakes ih =>
    cases progress with
    | waits => exact ih (hwake _ _ _ _)
    | returns code q out => exact h
    | outOfBounds => exact h

/-- What a stretch of `try_pop` can do with any queue. -/
inductive TriesPop (q : CProducerConsumer α) : Progress α → Prop
  | waits : TriesPop q .waits
  | timeout : TriesPop q (.returns (-2) q none)
  | terminated : TriesPop q (.returns (-1) q none)
  | pops (front : α) (rest : List α) (hque : q.m_que = front :: rest) :
    TriesPop q (.returns 0 { q with m_que := rest } (some front))

/-- `try_pop` does not wait when it begins. -/
theorem try_pop_loop (terminated : Bool) (q : CProducerConsumer α) :
    TriesPop q (Call.try_pop.loop terminated q) := by
  unfold Call.loop popLoop
  dsimp only
  split_ifs with hempty
  · exact .waits
  · exact .terminated
  · cases hque : q.m_que with
    | nil =>
      rw [isEmpty, hque] at hempty
      exact absurd (rfl : ([] : List α).length % 2 ^ 32 == 0) hempty
    | cons front rest => exact .pops front rest hque

/-- `try_pop` does not wait when it is woken. -/
theorem try_pop_wake (timedOut terminated terminatedLater : Bool) (q : CProducerConsumer α) :
    TriesPop q (Call.try_pop.wake timedOut terminated terminatedLater q) := by
  unfold Call.wake afterWait
  split_ifs
  · exact .timeout
  · exact .terminated
  · exact try_pop_loop terminatedLater q

/-- `try_pop` takes the first item or finds none, and returns. -/
theorem try_pop_run (terminated : Bool) (q : CProducerConsumer α) (wakes : List (Wake α)) :
    TriesPop (Call.try_pop.run terminated q wakes).1 (Call.try_pop.run terminated q wakes).2 :=
  Call.resume_preserves try_pop_wake (try_pop_loop terminated q) wakes

/-- `try_pop` returns at the latest when a wait times out. -/
theorem try_pop_resume_ne_waits (found : CProducerConsumer α) (progress : Progress α)
    (wakes : List (Wake α)) {last : Wake α} (hlast : last.timedOut = true) :
    (Call.try_pop.resume found progress (wakes ++ [last])).2 ≠ .waits := by
  induction wakes generalizing found progress with
  | nil =>
    cases progress with
    | waits =>
      have hwake : Call.try_pop.wake last.timedOut last.terminated last.terminatedLater
          last.queue = .returns (-2) last.queue none := by
        rw [hlast]
        rfl
      rw [List.nil_append, Call.resume, hwake]
      exact fun h => nomatch h
    | returns code q out => exact fun h => nomatch h
    | outOfBounds => exact fun h => nomatch h
  | cons wake wakes ih =>
    cases progress with
    | waits => exact ih _ _
    | returns code q out => exact fun h => nomatch h
    | outOfBounds => exact fun h => nomatch h

/-- Whether `push`, at its last look at the thread before it returns, finds it terminated. -/
def foundTerminated : Bool → CProducerConsumer α → List (Wake α) → Bool
  | terminated, q, [] => !q.isFull && terminated
  | terminated, q, wake :: wakes =>
    if q.isFull then wake.terminated || foundTerminated wake.terminatedLater wake.queue wakes
    else terminated

/-- How `push` can end, or still wait. -/
inductive Pushes (item : α) (terminated : Bool) (q : CProducerConsumer α) : Progress α → Prop
  | waits : Pushes item terminated q .waits
  | terminated (h : terminated = true) : Pushes item terminated q (.returns (-1) q none)
  | pushes (h : terminated = false) :
    Pushes item terminated q (.returns 0 { q with m_que := q.m_que ++ [item] } none)

/-- The induction is on the waits; a wait is entered only while the queue is full. -/
theorem push_run (item : α) (terminated : Bool) (q : CProducerConsumer α)
    (wakes : List (Wake α)) :
    Pushes item (foundTerminated terminated q wakes)
      ((Call.push item).run terminated q wakes).1 ((Call.push item).run terminated q wakes).2 := by
  have hloop : (Call.push item).loop terminated q =
      if q.isFull then .waits
      else if terminated then .returns (-1) q none
      else .returns 0 { q with m_que := q.m_que ++ [item] } none := rfl
  induction wakes generalizing terminated q with
  | nil =>
    unfold Call.run foundTerminated
    rw [hloop]
    cases hfull : q.isFull with
    | true => exact .waits
    | false =>
      cases terminated with
      | true => exact .terminated rfl
      | false => exact .pushes rfl
  | cons wake wakes ih =>
    unfold Call.run foundTerminated
    rw [hloop]
    cases hfull : q.isFull with
    | true =>
      simp only [if_true, Call.resume]
      cases hterminated : wake.terminated with
      | true =>
        have hwake : (Call.push item).wake wake.timedOut true wake.terminatedLater wake.queue =
            .returns (-1) wake.queue none := rfl
        rw [hwake, Call.resume_returns]
        exact .terminated rfl
      | false => exact ih wake.terminatedLater wake.queue rfl
    | false =>
      cases terminated with
      | true => exact .terminated rfl
      | false => exact .pushes rfl

/-- What a stretch of the `push` without a thread can do with any queue. -/
inductive PushesBlocking (item : α) (q : CProducerConsumer α) : Progress α → Prop
  | waits : PushesBlocking item q .waits
  | pushes : PushesBlocking item q (.returns 0 { q with m_que := q.m_que ++ [item] } none)

/-- `pushBlocking` waits until there is room, and then pushes. -/
theorem pushBlocking_run (item : α) (terminated : Bool) (q : CProducerConsumer α)
    (wakes : List (Wake α)) :
    PushesBlocking item ((Call.pushBlocking item).run terminated q wakes).1
      ((Call.pushBlocking item).run terminated q wakes).2 := by
  have hloop (terminated : Bool) (q : CProducerConsumer α) :
      PushesBlocking item q ((Call.pushBlocking item).loop terminated q) := by
    have heq : (Call.pushBlocking item).loop terminated q =
        if q.isFull then .waits else .returns 0 { q with m_que := q.m_que ++ [item] } none := rfl
    rw [heq]
    split_ifs
    · exact .waits
    · exact .pushes
  have hwake (timedOut terminated terminatedLater : Bool) (q : CProducerConsumer α) :
      PushesBlocking item q
        ((Call.pushBlocking item).wake timedOut terminated terminatedLater q) :=
    hloop terminatedLater q
  exact Call.resume_preserves hwake (hloop terminated q) wakes

/-- There is room at the beginning or at the end of one of the waits. -/
def FindsRoom (q : CProducerConsumer α) (wakes : List (Wake α)) : Prop :=
  q.isFull = false ∨ ∃ wake ∈ wakes, wake.queue.isFull = false

/-- There is room, or the thread is found terminated after a wait. -/
def FindsRoomOrEnd (q : CProducerConsumer α) (wakes : List (Wake α)) : Prop :=
  q.isFull = false ∨ ∃ wake ∈ wakes, wake.terminated = true ∨ wake.queue.isFull = false

/-- `pushBlocking` goes on waiting as long as it finds no room. -/
theorem pushBlocking_run_waits_iff (item : α) (terminated : Bool) (q : CProducerConsumer α)
    (wakes : List (Wake α)) :
    ((Call.pushBlocking item).run terminated q wakes).2 = .waits ↔ ¬FindsRoom q wakes := by
  have hloop : (Call.pushBlocking item).loop terminated q =
      if q.isFull then .waits else .returns 0 { q with m_que := q.m_que ++ [item] } none := rfl
  induction wakes generalizing terminated q with
  | nil =>
    unfold Call.run FindsRoom
    rw [hloop]
    cases hfull : q.isFull <;> simp [Call.resume]
  | cons wake wakes ih =>
    unfold Call.run FindsRoom
    rw [hloop]
    cases hfull : q.isFull with
    | true =>
      have hrest := ih wake.terminatedLater wake.queue rfl
      unfold Call.run FindsRoom at hrest
      simp only [if_true, Call.resume, Bool.true_eq_false, false_or, List.exists_mem_cons_iff]
      exact hrest
    | false => simp [Call.resume]

/-- `push` goes on waiting as long as it finds neither room nor the end of its thread. -/
theorem push_run_waits_iff (item : α) (terminated : Bool) (q : CProducerConsumer α)
    (wakes : List (Wake α)) :
    ((Call.push item).run terminated q wakes).2 = .waits ↔ ¬FindsRoomOrEnd q wakes := by
  have hloop : (Call.push item).loop terminated q =
      if q.isFull then .waits
      else if terminated then .returns (-1) q none
      else .returns 0 { q with m_que := q.m_que ++ [item] } none := rfl
  induction wakes generalizing terminated q with
  | nil =>
    unfold Call.run FindsRoomOrEnd
    rw [hloop]
    cases hfull : q.isFull <;> cases terminated <;> simp [Call.resume]
  | cons wake wakes ih =>
    unfold Call.run FindsRoomOrEnd
    rw [hloop]
    cases hfull : q.isFull with
    | true =>
      simp only [if_true, Call.resume, Bool.true_eq_false, false_or, List.exists_mem_cons_iff]
      cases hterminated : wake.terminated with
      | true =>
        have hwake : (Call.push item).wake wake.timedOut true wake.terminatedLater wake.queue =
            .returns (-1) wake.queue none := rfl
        rw [hwake, Call.resume_returns]
        simp
      | false =>
        have hrest := ih wake.terminatedLater wake.queue rfl
        unfold Call.run FindsRoomOrEnd at hrest
        simp only [Bool.false_eq_true, false_or]
        exact hrest
    | false => cases terminated <;> simp [Call.resume]

/-- `try_push` with a timeout of zero, whose wait times out at once. -/
def try_pushNow (item : α) (terminated : Bool) (q : CProducerConsumer α) :
    ℤ × CProducerConsumer α :=
  if q.isFull then (-2, q)
  else if terminated then (-1, q)
  else (0, { q with m_que := q.m_que ++ [item] })

/-- What the call returns, whether it has to wait or not. -/
theorem try_pushNow_returns (item : α) (terminated : Bool) (q : CProducerConsumer α) :
    let result := Progress.returns (try_pushNow item terminated q).1
      (try_pushNow item terminated q).2 none
    if q.isFull then (Call.try_push item).loop terminated q = .waits ∧
      (Call.try_push item).wake true terminated terminated q = result
    else (Call.try_push item).loop terminated q = result := by
  cases hfull : q.isFull with
  | true =>
    refine ⟨?_, ?_⟩
    · simp [Call.loop, pushLoop, hfull]
    · simp [Call.wake, afterWait, Call.patience, try_pushNow, hfull]
  | false =>
    cases terminated with
    | true => simp [Call.loop, pushLoop, Call.patience, try_pushNow, hfull]
    | false => simp [Call.loop, pushLoop, Call.patience, try_pushNow, hfull]

/-! ## Threads -/

/-- The queue, the call in which each thread waits, and a record of what happened. -/
structure Threads (τ α : Type) where
  queue : CProducerConsumer α
  calls : τ → Option (Call α)
  /-- The items of the push calls that have returned zero. -/
  pushed : List α
  /-- The items that pop calls have given out. -/
  popped : List α
  /-- The calls that have returned, with their codes. -/
  returned : List (τ × Call α × ℤ)

/-- What the threads of a node do with a queue. -/
inductive Action (τ α : Type)
  /-- A thread calls an operation. -/
  | enter (thr : τ) (call : Call α) (terminated : Bool)
  /-- The wait of a thread ends: notified, timed out or spuriously. -/
  | wake (thr : τ) (timedOut terminated terminatedLater : Bool)

namespace Threads

variable {τ : Type} [DecidableEq τ]

/-- What comes of a stretch of a call of a thread. -/
def proceed (s : Threads τ α) (thr : τ) (call : Call α) : Progress α → Option (Threads τ α)
  | .waits => some { s with calls := Function.update s.calls thr (some call) }
  | .returns code q out => some {
      queue := q
      calls := Function.update s.calls thr none
      pushed := if code = 0 then s.pushed ++ call.item.toList else s.pushed
      popped := s.popped ++ out.toList
      returned := s.returned ++ [(thr, call, code)] }
  | .outOfBounds => none

/-- A stretch of a call under the mutex. -/
def step (s : Threads τ α) : Action τ α → Option (Threads τ α)
  | .enter thr call terminated =>
    match s.calls thr with
    | some _ => none
    | none => s.proceed thr call (call.loop terminated s.queue)
  | .wake thr timedOut terminated terminatedLater =>
    match s.calls thr with
    | none => none
    | some call => s.proceed thr call (call.wake timedOut terminated terminatedLater s.queue)

/-- A new queue that no thread uses yet. -/
def start (maxQueueSize : ℕ) : Threads τ α where
  queue := create maxQueueSize
  calls := fun _ => none
  pushed := []
  popped := []
  returned := []

/-- The action that the state of the thread allows. -/
def Allows (s : Threads τ α) : Action τ α → Prop
  | .enter thr _ _ => s.calls thr = none
  | .wake thr _ _ _ => ∃ call, s.calls thr = some call

/-- The state of the queue between threads and its abstract history. -/
structure Refines (s : Threads τ α) (t : BoundedFifo.State α) : Prop where
  max_lt : s.queue.m_maxQueueSize < 2 ^ 32
  capacity : t.capacity = s.queue.m_maxQueueSize
  contents : t.contents = s.queue.m_que
  pushed : t.pushed = s.pushed
  popped : t.popped = s.popped

variable {s s' : Threads τ α} {t : BoundedFifo.State α}

omit [DecidableEq τ] in
/-- A queue that behaves as the abstract one never exceeds its size. -/
theorem Refines.bounded (h : s.Refines t) : s.queue.Bounded := by
  have hbounded := t.bounded
  rw [h.contents, h.capacity] at hbounded
  exact ⟨h.max_lt, hbounded⟩

/-- What changes the queue is the end of a call that returns zero. -/
def ReturnsOk (s s' : Threads τ α) : Prop :=
  ∃ thr call, s'.returned = s.returned ++ [(thr, call, 0)]

/-- A stretch of a call that does what is allowed keeps the history. -/
theorem Refines.proceed (h : s.Refines t) (thr : τ) {call : Call α} {progress : Progress α}
    (hdoes : Does call s.queue progress) :
    ∃ s', s.proceed thr call progress = some s' ∧ (s'.queue = s.queue ∨ s.ReturnsOk s') ∧
      ∃ actions t', Execution.run BoundedFifo.step t actions = some t' ∧ s'.Refines t' := by
  cases hdoes with
  | waits =>
    exact ⟨_, rfl, Or.inl rfl, [], t, rfl, h.max_lt, h.capacity, h.contents, h.pushed, h.popped⟩
  | fails code hcode =>
    refine ⟨_, rfl, Or.inl rfl, [], t, rfl, h.max_lt, h.capacity, h.contents, ?_, ?_⟩
    · rw [h.pushed, if_neg hcode]
    · rw [h.popped, Option.toList_none, List.append_nil]
  | pushes item hitem hroom =>
    rw [← h.contents, ← h.capacity] at hroom
    refine ⟨_, rfl, Or.inr ⟨thr, call, rfl⟩, [.push item], t.push item hroom,
      Execution.run_single (BoundedFifo.step_push item hroom), h.max_lt, h.capacity, ?_, ?_, ?_⟩
    · have hcontents := h.contents
      simp only [BoundedFifo.State.push, hcontents]
    · have hpushed := h.pushed
      simp only [BoundedFifo.State.push, hpushed, hitem, if_true, Option.toList_some]
    · simpa [BoundedFifo.State.push] using h.popped
  | pops front rest hitem hque =>
    have hfirst : t.contents = front :: rest := h.contents.trans hque
    refine ⟨_, rfl, Or.inr ⟨thr, call, rfl⟩, [.pop], t.pop hfirst,
      Execution.run_single (BoundedFifo.step_pop hfirst), h.max_lt, h.capacity, rfl, ?_, ?_⟩
    · have hpushed := h.pushed
      simp only [BoundedFifo.State.pop, hpushed, hitem, if_true, Option.toList_none,
        List.append_nil]
    · have hpopped := h.popped
      simp only [BoundedFifo.State.pop, hpopped, Option.toList_some]

/-- No call reads an item that is not there, and every stretch keeps the history. -/
theorem Refines.allows (h : s.Refines t) {a : Action τ α} (hallows : s.Allows a) :
    ∃ s', s.step a = some s' ∧ (s'.queue = s.queue ∨ s.ReturnsOk s') ∧
      ∃ actions t', Execution.run BoundedFifo.step t actions = some t' ∧ s'.Refines t' := by
  cases a with
  | enter thr call terminated =>
    have hcalls : s.calls thr = none := hallows
    simp only [step, hcalls]
    exact h.proceed thr (h.bounded.loop call terminated)
  | wake thr timedOut terminated terminatedLater =>
    obtain ⟨call, hcalls⟩ := hallows
    simp only [step, hcalls]
    exact h.proceed thr (h.bounded.wake call timedOut terminated terminatedLater)

/-- Every step is one that the abstract queue allows. -/
theorem allows_of_step {a : Action τ α} (hstep : s.step a = some s') : s.Allows a := by
  cases a with
  | enter thr call terminated =>
    cases hcalls : s.calls thr with
    | none => exact hcalls
    | some call' => simp [step, hcalls] at hstep
  | wake thr timedOut terminated terminatedLater =>
    cases hcalls : s.calls thr with
    | none => simp [step, hcalls] at hstep
    | some call => exact ⟨call, hcalls⟩

/-- A call that returns zero has appended its item to the queue, or has given out the first
item of the queue. -/
def Effective (s s' : Threads τ α) (call : Call α) : Prop :=
  (∃ item, call.item = some item ∧ s'.queue.m_que = s.queue.m_que ++ [item] ∧
    s'.popped = s.popped) ∨
  (call.item = none ∧ ∃ front, s.queue.m_que = front :: s'.queue.m_que ∧
    s'.popped = s.popped ++ [front])

/-- A call that returns success has had its effect in this step. -/
theorem effective_of_proceed {thr thr' : τ} {call call' : Call α} {progress : Progress α}
    (hdoes : Does call s.queue progress) (hproceed : s.proceed thr call progress = some s')
    (hreturned : s'.returned = s.returned ++ [(thr', call', 0)]) : s.Effective s' call' := by
  cases hdoes with
  | waits =>
    obtain rfl := Option.some.inj hproceed
    simp at hreturned
  | fails code hcode =>
    obtain rfl := Option.some.inj hproceed
    simp only [List.append_cancel_left_eq, List.cons.injEq, Prod.mk.injEq] at hreturned
    exact absurd hreturned.1.2.2 hcode
  | pushes item hitem hroom =>
    obtain rfl := Option.some.inj hproceed
    simp only [List.append_cancel_left_eq, List.cons.injEq, Prod.mk.injEq] at hreturned
    obtain ⟨⟨-, rfl, -⟩, -⟩ := hreturned
    exact Or.inl ⟨item, hitem, rfl, List.append_nil _⟩
  | pops front rest hitem hque =>
    obtain rfl := Option.some.inj hproceed
    simp only [List.append_cancel_left_eq, List.cons.injEq, Prod.mk.injEq] at hreturned
    obtain ⟨⟨-, rfl, -⟩, -⟩ := hreturned
    exact Or.inr ⟨hitem, front, hque, rfl⟩

/-- In every run a call that returns success has had its effect in this step. -/
theorem Refines.effective (h : s.Refines t) {a : Action τ α} (hstep : s.step a = some s')
    {thr : τ} {call : Call α} (hreturned : s'.returned = s.returned ++ [(thr, call, 0)]) :
    s.Effective s' call := by
  have hallows := allows_of_step hstep
  cases a with
  | enter thr call' terminated =>
    have hcalls : s.calls thr = none := hallows
    simp only [step, hcalls] at hstep
    exact effective_of_proceed (h.bounded.loop call' terminated) hstep hreturned
  | wake thr timedOut terminated terminatedLater =>
    obtain ⟨call', hcalls⟩ := hallows
    simp only [step, hcalls] at hstep
    exact effective_of_proceed (h.bounded.wake call' timedOut terminated terminatedLater) hstep
      hreturned

omit [DecidableEq τ] in
/-- A new queue is an empty abstract one. -/
theorem refines_start {maxQueueSize : ℕ} (hmax : maxQueueSize < 2 ^ 32) :
    (start maxQueueSize : Threads τ α).Refines (BoundedFifo.empty maxQueueSize) :=
  ⟨hmax, rfl, rfl, rfl, rfl⟩

/-- Whatever the threads do and however they are scheduled, the queue goes through
states of a bounded first-in first-out queue. -/
theorem refines_of_run {maxQueueSize : ℕ} (hmax : maxQueueSize < 2 ^ 32)
    {actions : List (Action τ α)}
    (hrun : Execution.run step (start maxQueueSize) actions = some s) :
    ∃ actions' t, Execution.run BoundedFifo.step (BoundedFifo.empty maxQueueSize) actions' =
      some t ∧ s.Refines t := by
  refine Execution.run_refines Refines ?_ (refines_start hmax) hrun
  intro s t a s' h hstep
  obtain ⟨s'', hstep', -, actions, t', hrun, hrefines⟩ := h.allows (allows_of_step hstep)
  obtain rfl := Option.some.inj (hstep.symm.trans hstep')
  exact ⟨actions, t', hrun, hrefines⟩

/-- What every schedule leaves true of the queue and of the next stretch of any call. -/
structure Fifo (maxQueueSize : ℕ) (s : Threads τ α) : Prop where
  size_le : s.queue.m_que.length ≤ maxQueueSize
  popped_prefix : s.popped <+: s.pushed
  /-- What was pushed and not yet popped is in the queue, in order. -/
  contents : s.popped ++ s.queue.m_que = s.pushed
  /-- A stretch of a call leaves the queue alone, unless it ends the call with code zero. -/
  unchanged : ∀ a s', s.step a = some s' →
    s'.queue = s.queue ∨ ∃ thr call, s'.returned = s.returned ++ [(thr, call, 0)]
  /-- A push that returns zero appends its item, and a pop that does takes the first item. -/
  effective : ∀ a s' thr call, s.step a = some s' →
    s'.returned = s.returned ++ [(thr, call, 0)] → s.Effective s' call
  /-- No call reads the front of a queue without items. -/
  inBounds : ∀ a, s.Allows a → ∃ s', s.step a = some s'

/-- Any number of threads, in any order and with any timeouts, spurious wakeups and
terminations, keep the queue within its size and in order, and a call that does not
return zero has changed nothing. -/
theorem fifo_of_run (maxQueueSize : ℕ) (hmax : maxQueueSize < 2 ^ 32)
    (actions : List (Action τ α))
    (hrun : Execution.run step (start maxQueueSize) actions = some s) : s.Fifo maxQueueSize := by
  obtain ⟨actions', t, hrun', h⟩ := refines_of_run hmax hrun
  have hcapacity : t.capacity = maxQueueSize :=
    Execution.run_preserves (fun t => t.capacity = maxQueueSize)
      (fun hinv hstep => (BoundedFifo.step_capacity hstep).trans hinv) rfl hrun'
  have hbounded := t.bounded
  have hprefix := t.popped_prefix
  have hfifo := t.fifo
  rw [h.contents, hcapacity] at hbounded
  rw [h.popped, h.pushed] at hprefix
  rw [h.popped, h.pushed, h.contents] at hfifo
  refine ⟨hbounded, hprefix, hfifo, ?_,
    fun a s' thr call hstep hreturned => h.effective hstep hreturned, ?_⟩
  · intro a s' hstep
    obtain ⟨s'', hstep', hunchanged, -⟩ := h.allows (allows_of_step hstep)
    obtain rfl := Option.some.inj (hstep.symm.trans hstep')
    exact hunchanged
  · intro a hallows
    obtain ⟨s', hstep, -⟩ := h.allows hallows
    exact ⟨s', hstep⟩

/-- A consumer waits for the item of a producer; a second producer finds the queue full. -/
theorem fifo_of_run_sample :
    ∃ s : Threads Bool ℕ, Execution.run step (start 1)
        [.enter true .pop false, .enter false (.push 5) false, .enter false (.try_push 6) false,
          .wake false true false false, .wake true false false false] = some s ∧
      s.returned = [(false, .push 5, 0), (false, .try_push 6, -2), (true, .pop, 0)] ∧
      s.Fifo 1 :=
  ⟨_, rfl, rfl, fifo_of_run 1 (by omega)
    [.enter true .pop false, .enter false (.push 5) false, .enter false (.try_push 6) false,
      .wake false true false false, .wake true false false false] rfl⟩

end Threads

end CProducerConsumer

end San2.Utils
