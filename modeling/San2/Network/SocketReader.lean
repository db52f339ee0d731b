import San2.Utils.Endian

/-!
# Reading from a socket

The readers of the two stream transports have one shape: a loop around `select` that
ends when the socket is readable, when the thread is told to stop or on an error, and then
one call of `recv` whose result is stored in an `unsigned int`. What the operating system
and the thread report is the input here. A reader that is still waiting when the reports
end has no result.
-/

namespace San2.Network

/-- What one turn of the waiting loop gets to see. -/
structure SelectEvent where
  /-- `select` was interrupted: `errno == EINTR`, or one of `WSAEINTR` and `WSAETIMEDOUT`. -/
  interrupted : Bool
  /-- `thr->isTerminated()` -/
  terminated : Bool
  selRval : ℤ
  deriving DecidableEq, Repr

/-- How the waiting loop ends. -/
inductive WaitEnd
  | readable
  | terminated
  | failed
  deriving DecidableEq, Repr

/-- What `recv` does. -/
inductive RecvResult
  /-- These bytes are there; as many as fit are delivered, none at the end of the stream. -/
  | received (bytes : Bytes)
  /-- It returns -1. -/
  | failed
  deriving DecidableEq, Repr

/-- The bytes that `recv` puts into the buffer, at most `limit`. -/
def RecvResult.delivered (limit : ℕ) : RecvResult → Bytes
  | received bytes => bytes.take limit
  | failed => []

/-- The returned number. -/
def RecvResult.rval (limit : ℕ) : RecvResult → ℤ
  | received bytes => (bytes.take limit).length
  | failed => -1

/-- Everything that one call of a reader is told. -/
structure ReadEnv where
  /-- The descriptor is not -1. -/
  isOpen : Bool
  selects : List SelectEvent
  recv : RecvResult
  /-- The error that `GetLastError` reports is `WSAESHUTDOWN` or `WSAECONNRESET`. -/
  disconnected : Bool
  deriving DecidableEq, Repr

/-- What a call of a reader leaves behind. -/
structure ReadResult (ε : Type) where
  code : ε
  /-- The value of `*bytesRead`, if one was stored. -/
  bytesRead : Option UInt32
  /-- The bytes at `data`. -/
  data : Bytes
  deriving DecidableEq, Repr

/-- Why a call does not come back. -/
inductive Stop
  /-- It is still waiting. -/
  | waiting
  /-- An assertion has failed. -/
  | aborted
  /-- It has left the buffer. -/
  | outOfBounds
  deriving DecidableEq, Repr

/-- A reader of the source. -/
structure Reader (ε : Type) where
  success : ε
  failure : ε
  terminated : ε
  /-- The checks after `select`, in their order; none starts the loop over. -/
  turn : SelectEvent → Option WaitEnd
  /-- The most that `recv` can return for a buffer of this size. -/
  limit : ℕ → ℕ
  /-- The checks of `*bytesRead` after `recv`; none leads to success. -/
  check : UInt32 → ReadEnv → Option ε
  limit_le : ∀ dataSize, limit dataSize ≤ dataSize
  failure_ne : failure ≠ success
  terminated_ne : terminated ≠ success
  check_ne : ∀ {bytesRead env code}, check bytesRead env = some code → code ≠ success

namespace Reader

variable {ε : Type} (reader : Reader ε)

/-- A call of the reader with a buffer of `dataSize` bytes. -/
def read (dataSize : UInt32) (env : ReadEnv) : Option (ReadResult ε) :=
  if !env.isOpen then some ⟨reader.failure, none, []⟩
  else
    match env.selects.findSome? reader.turn with
    | none => none
    | some .terminated => some ⟨reader.terminated, none, []⟩
    | some .failed => some ⟨reader.failure, none, []⟩
    | some .readable =>
      let limit := reader.limit dataSize.toNat
      let bytesRead := UInt32.ofInt (env.recv.rval limit)
      let code := (reader.check bytesRead env).getD reader.success
      some ⟨code, some bytesRead, env.recv.delivered limit⟩

/-- The call gets as far as `recv`. -/
def ReachesRecv (env : ReadEnv) : Prop :=
  env.isOpen = true ∧ env.selects.findSome? reader.turn = some .readable

/-- Whether a call gets as far as `recv` can be computed. -/
instance (env : ReadEnv) : Decidable (reader.ReachesRecv env) :=
  inferInstanceAs (Decidable (_ ∧ _))

/-- Success comes with a number of bytes that the buffer holds, and never from a `recv` that
has failed. -/
structure Sound (dataSize : UInt32) (env : ReadEnv) (result : ReadResult ε) : Prop where
  bytesRead : result.code = reader.success →
    ∃ bytesRead, result.bytesRead = some bytesRead ∧ 1 ≤ bytesRead ∧ bytesRead ≤ dataSize
  failed : reader.ReachesRecv env → env.recv = .failed → result.code ≠ reader.success

variable {reader} {dataSize : UInt32} {env : ReadEnv} {result : ReadResult ε}

/-- A call that ends before `recv` stores nothing and reports no success. -/
theorem read_of_not_reachesRecv (hreaches : ¬reader.ReachesRecv env)
    (h : reader.read dataSize env = some result) :
    result.bytesRead = none ∧ result.data = [] ∧ result.code ≠ reader.success := by
  unfold read at h
  cases hopen : env.isOpen with
  | false =>
    simp only [hopen, Bool.not_false, if_true, Option.some.injEq] at h
    subst h
    exact ⟨rfl, rfl, reader.failure_ne⟩
  | true =>
    cases hwait : env.selects.findSome? reader.turn with
    | none => simp [hopen, hwait] at h
    | some ending =>
      cases ending with
      | readable => exact absurd ⟨hopen, hwait⟩ hreaches
      | terminated =>
        simp only [hopen, hwait, Bool.not_true, Bool.false_eq_true, if_false,
          Option.some.injEq] at h
        subst h
        exact ⟨rfl, rfl, reader.terminated_ne⟩
      | failed =>
        simp only [hopen, hwait, Bool.not_true, Bool.false_eq_true, if_false,
          Option.some.injEq] at h
        subst h
        exact ⟨rfl, rfl, reader.failure_ne⟩

/-- A call that ends before `recv` is sound, so only the others are to be judged. -/
theorem sound_iff_of_reachesRecv {P : Prop} (h : reader.read dataSize env = some result)
    (hreached : reader.ReachesRecv env → (reader.Sound dataSize env result ↔ P)) :
    reader.Sound dataSize env result ↔ (reader.ReachesRecv env → P) := by
  by_cases hreaches : reader.ReachesRecv env
  · rw [hreached hreaches]
    exact ⟨fun hP _ => hP, fun hP => hP hreaches⟩
  · obtain ⟨-, -, hcode⟩ := read_of_not_reachesRecv hreaches h
    constructor
    · intro _ hcontra
      exact absurd hcontra hreaches
    · intro _
      exact ⟨fun hsuccess => absurd hsuccess hcode, fun hcontra => absurd hcontra hreaches⟩

/-- A call that reaches `recv` stores its result. -/
theorem read_of_reachesRecv (hreaches : reader.ReachesRecv env) (dataSize : UInt32) :
    reader.read dataSize env =
      some ⟨(reader.check (UInt32.ofInt (env.recv.rval (reader.limit dataSize.toNat))) env).getD
          reader.success,
        some (UInt32.ofInt (env.recv.rval (reader.limit dataSize.toNat))),
        env.recv.delivered (reader.limit dataSize.toNat)⟩ := by
  unfold read
  simp [hreaches.1, hreaches.2]

/-- What was received is never more than the buffer holds. -/
theorem length_data_le (h : reader.read dataSize env = some result) :
    result.data.length ≤ dataSize.toNat := by
  by_cases hreaches : reader.ReachesRecv env
  · rw [read_of_reachesRecv hreaches, Option.some.injEq] at h
    subst h
    have hlimit := reader.limit_le dataSize.toNat
    cases env.recv with
    | received bytes =>
      simp only [RecvResult.delivered, List.length_take]
      omega
    | failed => exact Nat.zero_le _
  · have hdata := (read_of_not_reachesRecv hreaches h).2.1
    simp [hdata]

/-- The value of `*bytesRead` after a `recv` that has delivered something or has found the end
of the stream is the number of bytes. -/
theorem toNat_ofInt_received (reader : Reader ε) (bytes : Bytes) (dataSize : UInt32) :
    (UInt32.ofInt ((RecvResult.received bytes).rval (reader.limit dataSize.toNat))).toNat =
      (bytes.take (reader.limit dataSize.toNat)).length := by
  have hlimit := reader.limit_le dataSize.toNat
  have hsize := dataSize.toNat_lt
  have hlength : (bytes.take (reader.limit dataSize.toNat)).length < 2 ^ 32 := by
    rw [List.length_take]
    omega
  simp only [RecvResult.rval, UInt32.ofInt, UInt32.toNat_ofNat']
  omega

/-- The value that a call which reaches `recv` stores. -/
theorem bytesRead_of_reachesRecv (hreaches : reader.ReachesRecv env)
    (h : reader.read dataSize env = some result) :
    result.bytesRead = some (UInt32.ofInt (env.recv.rval (reader.limit dataSize.toNat))) := by
  rw [read_of_reachesRecv hreaches, Option.some.injEq] at h
  exact congrArg ReadResult.bytesRead h.symm

/-- Whatever is made of it, a `recv` that has delivered bytes makes a sound result. -/
theorem sound_of_received (hreaches : reader.ReachesRecv env) {bytes : Bytes}
    (hrecv : env.recv = .received bytes) (hne : bytes.take (reader.limit dataSize.toNat) ≠ [])
    (h : reader.read dataSize env = some result) : reader.Sound dataSize env result := by
  have hstored := bytesRead_of_reachesRecv hreaches h
  have hcount := toNat_ofInt_received reader bytes dataSize
  have hlimit := reader.limit_le dataSize.toNat
  have hpos := List.length_pos_iff.mpr hne
  rw [hrecv] at hstored
  refine ⟨fun _ => ⟨_, hstored, ?_, ?_⟩, fun _ hfailed => ?_⟩
  · rw [UInt32.le_iff_toNat_le, UInt32.toNat_one]
    omega
  · rw [List.length_take] at hcount
    rw [UInt32.le_iff_toNat_le]
    omega
  · rw [hrecv] at hfailed
    exact absurd hfailed (by simp)

end Reader

/-- The checks of `*bytesRead` on Linux. An `unsigned int` is never below zero, so the second
one never finds anything. -/
def nixCheck {ε : Type} (peerDisconnect failure : ε) (bytesRead : UInt32) : Option ε :=
  if bytesRead = 0 then some peerDisconnect
  else if bytesRead < 0 then some failure
  else none

/-- The checks of Linux never lead to success. -/
theorem nixCheck_ne {ε : Type} {peerDisconnect failure success code : ε}
    (hdisconnect : peerDisconnect ≠ success) (hfailure : failure ≠ success) {bytesRead : UInt32}
    (h : nixCheck peerDisconnect failure bytesRead = some code) : code ≠ success := by
  unfold nixCheck at h
  split_ifs at h
  · exact Option.some.inj h ▸ hdisconnect
  · exact Option.some.inj h ▸ hfailure

/-- A nonzero count passes the checks, whatever it stands for. -/
theorem nixCheck_of_ne {ε : Type} (peerDisconnect failure : ε) {bytesRead : UInt32}
    (h : bytesRead ≠ 0) : nixCheck peerDisconnect failure bytesRead = none := by
  rw [nixCheck, if_neg h, if_neg UInt32.not_lt_zero]

namespace Reader

variable {ε : Type} {reader : Reader ε} {peerDisconnect failure : ε}
  (hcheck : ∀ bytesRead env, reader.check bytesRead env =
    nixCheck peerDisconnect failure bytesRead)
  {dataSize : UInt32} {env : ReadEnv} (hreaches : reader.ReachesRecv env)

include hcheck hreaches

/-- The -1 of `recv` is 4294967295 as an `unsigned int` and is reported as success. -/
theorem read_nix_failed (hrecv : env.recv = .failed) :
    reader.read dataSize env = some ⟨reader.success, some 4294967295, []⟩ := by
  have hne : (4294967295 : UInt32) ≠ 0 := by decide
  have hvalue : UInt32.ofInt (RecvResult.failed.rval (reader.limit dataSize.toNat)) =
      4294967295 := by
    simp only [RecvResult.rval]
    decide
  rw [read_of_reachesRecv hreaches, hrecv, hvalue, hcheck, nixCheck_of_ne _ _ hne]
  rfl

/-- The end of the stream is reported as such. -/
theorem read_nix_closed {bytes : Bytes} (hrecv : env.recv = .received bytes)
    (hnil : bytes.take (reader.limit dataSize.toNat) = []) :
    reader.read dataSize env = some ⟨peerDisconnect, some 0, []⟩ := by
  have hvalue : UInt32.ofInt ((RecvResult.received bytes).rval (reader.limit dataSize.toNat)) =
      0 := by
    simp only [RecvResult.rval, hnil]
    decide
  rw [read_of_reachesRecv hreaches, hrecv, hvalue, hcheck, RecvResult.delivered, hnil]
  rfl

/-- Bytes that have been delivered are reported with their number. -/
theorem read_nix_received {bytes : Bytes} (hrecv : env.recv = .received bytes)
    (hne : bytes.take (reader.limit dataSize.toNat) ≠ []) :
    reader.read dataSize env = some ⟨reader.success,
      some (UInt32.ofInt (bytes.take (reader.limit dataSize.toNat)).length),
      bytes.take (reader.limit dataSize.toNat)⟩ := by
  have hcount := toNat_ofInt_received reader bytes dataSize
  have hpos := List.length_pos_iff.mpr hne
  have hvalue : UInt32.ofInt
      ((RecvResult.received bytes).rval (reader.limit dataSize.toNat)) ≠ 0 := by
    intro hzero
    rw [hzero, UInt32.toNat_zero] at hcount
    omega
  rw [read_of_reachesRecv hreaches, hrecv, hcheck, nixCheck_of_ne _ _ hvalue]
  rfl

omit hreaches

/-- With the checks of Linux the result of a call is sound exactly when `recv`, if it is
called, does not fail. -/
theorem sound_nix_iff {result : ReadResult ε} (h : reader.read dataSize env = some result) :
    reader.Sound dataSize env result ↔ (reader.ReachesRecv env → env.recv ≠ .failed) := by
  refine sound_iff_of_reachesRecv h fun hreaches => ?_
  cases hrecv : env.recv with
  | failed =>
    rw [read_nix_failed hcheck hreaches hrecv, Option.some.injEq] at h
    constructor
    · intro hsound
      exact absurd (congrArg ReadResult.code h.symm) (hsound.failed hreaches hrecv)
    · intro hfailed
      exact absurd rfl hfailed
  | received bytes =>
    refine ⟨fun _ => by simp, fun _ => ?_⟩
    by_cases hnil : bytes.take (reader.limit dataSize.toNat) = []
    · have hpeer : reader.check 0 env = some peerDisconnect := by
        rw [hcheck]
        rfl
      rw [read_nix_closed hcheck hreaches hrecv hnil, Option.some.injEq] at h
      have hcode : result.code ≠ reader.success := by
        rw [← h]
        exact reader.check_ne hpeer
      exact ⟨fun hsuccess => absurd hsuccess hcode, fun _ _ => hcode⟩
    · exact sound_of_received hreaches hrecv hnil h

end Reader

end San2.Network
