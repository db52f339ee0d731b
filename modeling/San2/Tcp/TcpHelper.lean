import San2.Network.SocketReader
import San2.Tcp.TcpStreamRW

/-!
# The reader of a TCP socket

`sock_read_stream` is compiled for two platforms, which differ in the order of the checks
after `select` and in how the result of `recv` is judged.
-/

namespace San2.Tcp.TcpHelper

open San2.Network

/-- The platform that the sources are compiled for. -/
inductive Platform
  | linux
  | windows
  deriving DecidableEq, Repr

/-- `SOCKET_ERROR` -/
def socketError : ℤ := -1

/-- The checks after `select`. On Windows a timeout is seen before the termination. -/
def turn : Platform → SelectEvent → Option WaitEnd
  | .linux, event =>
    if event.interrupted then
      if event.terminated then some .terminated else none
    else if event.terminated then some .terminated
    else if event.selRval < 0 then some .failed
    else if event.selRval = 0 then none
    else some .readable
  | .windows, event =>
    if event.selRval = 0 then none
    else if event.terminated then some .terminated
    else if event.selRval = socketError then
      if event.interrupted then none else some .failed
    else some .readable

/-- The checks of `*bytesRead`. On Windows the -1 is found, and a count of zero is not. -/
def check : Platform → UInt32 → ReadEnv → Option TcpErrorCode
  | .linux, bytesRead, _ => nixCheck .peerDisconnect .failure bytesRead
  | .windows, bytesRead, env =>
    if bytesRead = UInt32.ofInt socketError then
      if env.disconnected then some .peerDisconnect else some .failure
    else none

/-- `recv` on Windows returns an `int`. -/
def limit : Platform → ℕ → ℕ
  | .linux, dataSize => dataSize
  | .windows, dataSize => min dataSize (2 ^ 31 - 1)

/-- `sock_read_stream` -/
def sockReadStream (platform : Platform) : Reader TcpErrorCode where
  success := .success
  failure := .failure
  terminated := .terminated
  turn := turn platform
  limit := limit platform
  check := check platform
  limit_le dataSize := by
    cases platform with
    | linux => exact le_rfl
    | windows => exact min_le_left _ _
  failure_ne := by decide
  terminated_ne := by decide
  check_ne {bytesRead env code} h := by
    cases platform with
    | linux => exact nixCheck_ne (by decide) (by decide) h
    | windows =>
      rintro rfl
      simp only [check] at h
      split_ifs at h <;> simp at h

/-- What must not happen to a call of `recv`: an error on Linux, and on Windows the end of
the stream. -/
def Misjudged (platform : Platform) (dataSize : UInt32) (env : ReadEnv) : Prop :=
  match platform with
  | .linux => env.recv = .failed
  | .windows => env.recv ≠ .failed ∧ env.recv.delivered (limit .windows dataSize.toNat) = []

/-- Whether a result of `recv` is misjudged can be computed. -/
instance (platform : Platform) (dataSize : UInt32) (env : ReadEnv) :
    Decidable (Misjudged platform dataSize env) :=
  match platform with
  | .linux => inferInstanceAs (Decidable (env.recv = .failed))
  | .windows => inferInstanceAs (Decidable (_ ∧ _))

/-- On Windows the result of a call is sound exactly when `recv`, if it is called, does not
find the end of the stream. -/
theorem sound_windows_iff {dataSize : UInt32} {env : ReadEnv} {result : ReadResult TcpErrorCode}
    (h : (sockReadStream .windows).read dataSize env = some result) :
    (sockReadStream .windows).Sound dataSize env result ↔
      ((sockReadStream .windows).ReachesRecv env → ¬Misjudged .windows dataSize env) := by
  refine Reader.sound_iff_of_reachesRecv h fun hreaches => ?_
  have hresult := h
  rw [Reader.read_of_reachesRecv hreaches, Option.some.injEq] at hresult
  cases hrecv : env.recv with
  | failed =>
    have hcode : result.code ≠ .success := by
      rw [← hresult, hrecv]
      change ((check .windows (UInt32.ofInt (-1)) env).getD .success) ≠ .success
      simp only [check, socketError, if_true]
      split <;> simp
    constructor
    · rintro - ⟨hne, -⟩
      exact hne hrecv
    · intro _
      exact ⟨fun hsuccess => absurd hsuccess hcode, fun _ _ => hcode⟩
  | received bytes =>
    have hcount := Reader.toNat_ofInt_received (sockReadStream .windows) bytes dataSize
    have hle : (bytes.take ((sockReadStream .windows).limit dataSize.toNat)).length ≤
        min dataSize.toNat (2 ^ 31 - 1) := List.length_take_le _ _
    have hne : UInt32.ofInt ((RecvResult.received bytes).rval
        ((sockReadStream .windows).limit dataSize.toNat)) ≠ UInt32.ofInt socketError := by
      intro heq
      rw [heq] at hcount
      have herror : (UInt32.ofInt socketError).toNat = 4294967295 := by decide
      omega
    have hcode : result.code = .success := by
      rw [← hresult, hrecv]
      change ((check .windows _ env).getD .success) = .success
      rw [check, if_neg hne, Option.getD_none]
    have hdata : env.recv.delivered (limit .windows dataSize.toNat) =
        bytes.take ((sockReadStream .windows).limit dataSize.toNat) := by
      rw [hrecv]
      rfl
    constructor
    · rintro hsound ⟨-, hnil⟩
      obtain ⟨bytesRead, hstored, hpos, -⟩ := hsound.bytesRead hcode
      rw [Reader.bytesRead_of_reachesRecv hreaches h, hrecv, Option.some.injEq] at hstored
      rw [← hstored, UInt32.le_iff_toNat_le, hcount, ← hdata, hnil] at hpos
      exact absurd hpos (by decide)
    · intro hfound
      refine Reader.sound_of_received hreaches hrecv (fun hnil => ?_) h
      exact hfound ⟨by simp [hrecv], by rw [hdata, hnil]⟩

/-- The result of a call is sound exactly when `recv`, if it is called, is not misjudged. -/
theorem sound_iff {platform : Platform} {dataSize : UInt32} {env : ReadEnv}
    {result : ReadResult TcpErrorCode}
    (h : (sockReadStream platform).read dataSize env = some result) :
    (sockReadStream platform).Sound dataSize env result ↔
      ((sockReadStream platform).ReachesRecv env → ¬Misjudged platform dataSize env) := by
  cases platform with
  | linux => exact Reader.sound_nix_iff (fun _ _ => rfl) h
  | windows => exact sound_windows_iff h

/-- A call on a socket whose `recv` delivers what the socket of `TcpStreamRW` delivers. -/
def readEnv (s : Socket) (dataSize : ℕ) : ReadEnv where
  isOpen := true
  selects := [⟨false, false, 1⟩]
  recv := .received (s.incoming.take (max 1 (min (s.splits 0) (min dataSize s.incoming.length))))
  disconnected := false

/-- The socket of `TcpStreamRW` behaves as `sock_read_stream` does on Linux where `recv`
does not fail. -/
theorem sockReadStream_readEnv {dataSize : UInt32} (hsize : 0 < dataSize.toNat) (s : Socket) :
    (sockReadStream .linux).read dataSize (readEnv s dataSize.toNat) =
      some (match Tcp.sockReadStream dataSize.toNat s with
        | some (some bytes, _) => ⟨.success, some (UInt32.ofInt bytes.length), bytes⟩
        | _ => ⟨.peerDisconnect, some 0, []⟩) := by
  have hreaches : (sockReadStream .linux).ReachesRecv (readEnv s dataSize.toNat) := ⟨rfl, rfl⟩
  have hcheck : ∀ bytesRead env, (sockReadStream .linux).check bytesRead env =
      nixCheck .peerDisconnect .failure bytesRead := fun _ _ => rfl
  rcases Comm.sockReadStream_cases hsize s with ⟨hnil, hread⟩ | ⟨bytes, s', hread⟩
  · rw [hread, Reader.read_nix_closed hcheck hreaches rfl (by rw [hnil]; simp)]
  · obtain ⟨-, hpos, hle, -⟩ := Comm.sockReadStream_some hread
    have hbytes : s.incoming.take
        (max 1 (min (s.splits 0) (min dataSize.toNat s.incoming.length))) = bytes := by
      unfold Tcp.sockReadStream at hread
      split at hread <;> simp only [Option.some.injEq, Prod.mk.injEq, reduceCtorEq,
        false_and] at hread
      exact hread.1
    have htake : bytes.take ((sockReadStream .linux).limit dataSize.toNat) = bytes :=
      List.take_of_length_le hle
    have hrecv : (readEnv s dataSize.toNat).recv = .received bytes := by
      rw [readEnv, hbytes]
    have hne : bytes.take ((sockReadStream .linux).limit dataSize.toNat) ≠ [] := by
      rw [htake]
      exact List.length_pos_iff.mp hpos
    rw [hread, Reader.read_nix_received hcheck hreaches hrecv hne, htake]
    rfl

end San2.Tcp.TcpHelper
