import San2.Crypto.Datagram
import San2.Library.WhileLoop

/-!
# Derived bytes

`HashKeyDerivator::deriveBytes` hashes the session key with the derivation string, which is hashed
once more in every turn. The loop works on buffers that are used again; what it derives is the
front of a stream that depends on the session key and the derivation string alone.
-/

namespace San2.DragonSRP.HashKeyDerivator

open CounterMode

/-- `hash` with its three arguments: it writes `outputLen` bytes to a buffer, which has to have
room for them. -/
def hashInto (hash : HashInterface) (data out : Bytes) : Option Bytes :=
  if hash.outputLen ≤ out.length then some (hash.digest data ++ out.drop hash.outputLen) else none

/-- The variables of the loop. -/
structure Buffers where
  toHash : Bytes
  result : Bytes
  hashedDerivationString : Bytes
  hashedPartialResut : Bytes

/-- A turn of the loop. -/
def deriveTurn (hash : HashInterface) (sessionSrpKey : Bytes) (s : Buffers) : Option Buffers := do
  let toHash := sessionSrpKey ++ s.hashedDerivationString
  let hashedPartialResut ← hashInto hash toHash s.hashedPartialResut
  let result := s.result ++ hashedPartialResut
  let hashedPartialResut := s.hashedDerivationString
  let hashedDerivationString ← hashInto hash hashedPartialResut s.hashedDerivationString
  return ⟨toHash, result, hashedDerivationString, hashedPartialResut⟩

/-- `deriveBytes` with the hash function given, as far as its loop ends within a number of tests
of its condition. -/
def deriveBytesWithin (tests : ℕ) (hash : HashInterface) (length : ℕ)
    (derivationString sessionSrpKey : Bytes) : Option (Except DsrpException Bytes) :=
  if length = 0 then some (throw ⟨"HashKeyDerivator::deriveBytes: length == 0"⟩)
  else if derivationString.length < hashKeyDerivatorMinDerivStrSize then
    some (throw ⟨"HashKeyDerivator::deriveBytes: derivationString.size() < " ++
      "HASHKEYDERIVATOR_MIN_DERIVSTR_SIZE"⟩)
  else if hash.outputLen < hashKeyDerivatorMinHashOutSize then
    some (throw ⟨"HashKeyDerivator::deriveBytes: hash.outputLen() < " ++
      "HASHKEYDERIVATOR_MIN_HASHOUT_SIZE"⟩)
  else do
    let hashedDerivationString := List.replicate hash.outputLen 0
    let hashedDerivationString ← hashInto hash derivationString hashedDerivationString
    let hashedPartialResut := List.replicate hash.outputLen 0
    let s ← WhileLoop.run (fun s => s.result.length < length) (deriveTurn hash sessionSrpKey) tests
      ⟨[], [], hashedDerivationString, hashedPartialResut⟩
    return .ok (resize s.result length)

/-- The digests of the session key with the derivation string hashed once, twice and so on. -/
def derivedStream (hash : HashInterface) (derivationString sessionSrpKey : Bytes) (rounds : ℕ) :
    Bytes :=
  (List.range rounds).flatMap fun i =>
    hash.digest (sessionSrpKey ++ hash.digest^[i + 1] derivationString)

section

variable {hash : HashInterface} {derivationString sessionSrpKey : Bytes}

/-- One more round appends one more digest. -/
theorem derivedStream_succ (rounds : ℕ) :
    derivedStream hash derivationString sessionSrpKey (rounds + 1) =
      derivedStream hash derivationString sessionSrpKey rounds ++
        hash.digest (sessionSrpKey ++ hash.digest^[rounds + 1] derivationString) := by
  unfold derivedStream
  rw [List.range_succ, List.flatMap_append, List.flatMap_singleton]

/-- The states of the stream are the hashed derivation strings. -/
theorem derivedStream_eq (rounds : ℕ) :
    derivedStream hash derivationString sessionSrpKey rounds =
      keystream hash.digest (fun hashed => hash.digest (sessionSrpKey ++ hashed))
        (hash.digest derivationString) rounds := by
  induction rounds with
  | zero => rfl
  | succ rounds ih =>
    rw [derivedStream_succ, ih, keystream_add, keystream_one, Function.iterate_succ_apply]

/-- Each round yields one digest. -/
theorem length_derivedStream (rounds : ℕ) :
    (derivedStream hash derivationString sessionSrpKey rounds).length =
      rounds * hash.outputLen := by
  rw [derivedStream_eq]
  exact length_keystream _ (fun hashed => hash.length_digest _) _ _

/-- What the stream begins with does not depend on how many rounds of it there are. -/
theorem take_derivedStream {length rounds rounds' : ℕ} (h : length ≤ rounds * hash.outputLen)
    (h' : length ≤ rounds' * hash.outputLen) :
    (derivedStream hash derivationString sessionSrpKey rounds).take length =
      (derivedStream hash derivationString sessionSrpKey rounds').take length := by
  rw [derivedStream_eq, derivedStream_eq]
  exact take_keystream _ (fun hashed => hash.length_digest _) _ h h'

/-- A digest that fills the buffer takes the place of what was in it. -/
theorem hashInto_eq (data : Bytes) {out : Bytes} (h : out.length = hash.outputLen) :
    hashInto hash data out = some (hash.digest data) := by
  unfold hashInto
  rw [if_pos h.ge, List.drop_of_length_le h.le, List.append_nil]

/-- The variables after a number of turns. -/
structure Derived (hash : HashInterface) (derivationString sessionSrpKey : Bytes) (turns : ℕ)
    (s : Buffers) : Prop where
  result : s.result = derivedStream hash derivationString sessionSrpKey turns
  hashed : s.hashedDerivationString = hash.digest^[turns + 1] derivationString
  room : s.hashedPartialResut.length = hash.outputLen

/-- The string is hashed at least once, so that it fills its buffer. -/
theorem length_iterate_digest (turns : ℕ) :
    (hash.digest^[turns + 1] derivationString).length = hash.outputLen := by
  rw [Function.iterate_succ_apply']
  exact hash.length_digest _

/-- One turn of the loop appends the next digest. -/
theorem Derived.turn {turns : ℕ} {s : Buffers}
    (h : Derived hash derivationString sessionSrpKey turns s) :
    ∃ s', deriveTurn hash sessionSrpKey s = some s' ∧
      Derived hash derivationString sessionSrpKey (turns + 1) s' := by
  have hlength : s.hashedDerivationString.length = hash.outputLen := by
    rw [h.hashed]
    exact length_iterate_digest turns
  have hturn : deriveTurn hash sessionSrpKey s =
      some ⟨sessionSrpKey ++ s.hashedDerivationString,
        s.result ++ hash.digest (sessionSrpKey ++ s.hashedDerivationString),
        hash.digest s.hashedDerivationString, s.hashedDerivationString⟩ := by
    unfold deriveTurn
    dsimp only
    rw [hashInto_eq _ h.room, hashInto_eq _ hlength]
    rfl
  refine ⟨_, hturn, ?_, ?_, hlength⟩
  · dsimp only
    rw [h.result, h.hashed, derivedStream_succ]
  · rw [Function.iterate_succ_apply', ← h.hashed]

/-- The loop ends, since every turn makes the result longer. -/
theorem deriveBytesWithin_eq (hout : 8 ≤ hash.outputLen) (hstr : 8 ≤ derivationString.length)
    {length : ℕ} (hlength : 0 < length) {tests : ℕ} (htests : length < tests) :
    ∃ rounds, length ≤ rounds * hash.outputLen ∧
      deriveBytesWithin tests hash length derivationString sessionSrpKey =
        some (.ok ((derivedStream hash derivationString sessionSrpKey rounds).take length)) := by
  have hzeros : (List.replicate hash.outputLen (0 : UInt8)).length = hash.outputLen :=
    List.length_replicate
  have hstart : ∃ turns, Derived hash derivationString sessionSrpKey turns
      ⟨[], [], hash.digest derivationString, List.replicate hash.outputLen 0⟩ :=
    ⟨0, rfl, rfl, hzeros⟩
  have hturn : ∀ s : Buffers, (∃ turns, Derived hash derivationString sessionSrpKey turns s) →
      decide (s.result.length < length) = true →
      ∃ s', deriveTurn hash sessionSrpKey s = some s' ∧
        (∃ turns, Derived hash derivationString sessionSrpKey turns s') ∧
        length - s'.result.length < length - s.result.length := by
    rintro s ⟨turns, h⟩ hcondition
    have hless : s.result.length < length := of_decide_eq_true hcondition
    obtain ⟨s', hs', h'⟩ := h.turn
    refine ⟨s', hs', ⟨turns + 1, h'⟩, ?_⟩
    rw [h.result, length_derivedStream] at hless
    rw [h.result, h'.result, length_derivedStream, length_derivedStream, Nat.succ_mul]
    omega
  have hmeasure : length - ([] : Bytes).length < tests := by
    rw [List.length_nil]
    omega
  obtain ⟨s', hrun, ⟨turns, h⟩, hend⟩ := WhileLoop.exists_run hturn hstart hmeasure
  have hlong : length ≤ s'.result.length := Nat.not_lt.mp (of_decide_eq_false hend)
  refine ⟨turns, ?_, ?_⟩
  · rw [h.result, length_derivedStream] at hlong
    exact hlong
  · unfold deriveBytesWithin
    rw [if_neg hlength.ne', if_neg (Nat.not_lt.mpr hstr), if_neg (Nat.not_lt.mpr hout)]
    dsimp only
    rw [hashInto_eq _ hzeros, Option.bind_eq_bind, Option.bind_some, hrun, Option.bind_eq_bind,
      Option.bind_some, resize_of_le hlong, h.result]
    rfl

/-- With more tests the outcome is the same. -/
theorem deriveBytesWithin_mono {tests more length : ℕ} {outcome : Except DsrpException Bytes}
    (hmore : tests ≤ more)
    (h : deriveBytesWithin tests hash length derivationString sessionSrpKey = some outcome) :
    deriveBytesWithin more hash length derivationString sessionSrpKey = some outcome := by
  unfold deriveBytesWithin at h ⊢
  split_ifs at h ⊢ with hzero hshort hsmall
  · exact h
  · exact h
  · exact h
  · obtain ⟨hashed, hhashed, h⟩ := Option.bind_eq_some_iff.mp h
    obtain ⟨s, hrun, h⟩ := Option.bind_eq_some_iff.mp h
    exact Option.bind_eq_some_iff.mpr ⟨hashed, hhashed,
      Option.bind_eq_some_iff.mpr ⟨s, WhileLoop.run_mono hmore hrun, h⟩⟩

/-- The loop with a bound on its turns ends with a part of the stream, too. -/
theorem deriveLoop_eq (length turns rounds : ℕ) :
    ∃ rounds', deriveLoop hash length sessionSrpKey turns
        (hash.digest^[rounds + 1] derivationString)
        (derivedStream hash derivationString sessionSrpKey rounds) =
      derivedStream hash derivationString sessionSrpKey rounds' := by
  induction turns generalizing rounds with
  | zero => exact ⟨rounds, rfl⟩
  | succ turns ih =>
    unfold deriveLoop
    split_ifs with hshort
    · obtain ⟨rounds', heq⟩ := ih (rounds + 1)
      refine ⟨rounds', ?_⟩
      rw [← heq, derivedStream_succ, ← Function.iterate_succ_apply' hash.digest]
    · exact ⟨rounds, rfl⟩

/-- It is what the derivator does with SHA-1. -/
theorem deriveBytesWithin_osslSha1 (p : Platform) {tests length : ℕ} (htests : length < tests) :
    deriveBytesWithin tests p.osslSha1 length derivationString sessionSrpKey =
      some (deriveBytes p length derivationString sessionSrpKey) := by
  have hout : ¬p.osslSha1.outputLen < hashKeyDerivatorMinHashOutSize := by
    change ¬20 < 8
    decide
  by_cases hzero : length = 0
  · unfold deriveBytesWithin deriveBytes
    rw [if_pos hzero, if_pos hzero]
  by_cases hshort : derivationString.length < hashKeyDerivatorMinDerivStrSize
  · unfold deriveBytesWithin deriveBytes
    rw [if_neg hzero, if_neg hzero, if_pos hshort, if_pos hshort]
  obtain ⟨rounds, hrounds, heq⟩ := @deriveBytesWithin_eq p.osslSha1 derivationString sessionSrpKey
    (Nat.not_lt.mp hout) (Nat.not_lt.mp hshort) _ (Nat.pos_of_ne_zero hzero) _ htests
  obtain ⟨rounds', heq'⟩ := @deriveLoop_eq p.osslSha1 derivationString sessionSrpKey length length 0
  have hlong := le_length_deriveLoop p.osslSha1 (Nat.succ_pos 19) length sessionSrpKey length
    (p.osslSha1.digest derivationString) [] (Nat.le_add_left length _)
  have hrounds' : length ≤ rounds' * p.osslSha1.outputLen := by
    rw [← @length_derivedStream p.osslSha1 derivationString sessionSrpKey, ← heq']
    exact hlong
  have hderived : deriveBytes p length derivationString sessionSrpKey =
      .ok ((derivedStream p.osslSha1 derivationString sessionSrpKey rounds').take length) := by
    unfold deriveBytes
    rw [if_neg hzero, if_neg hshort, if_neg hout, ← heq', ← resize_of_le]
    · rfl
    · exact hlong
  rw [heq, hderived, take_derivedStream hrounds hrounds']

/-- Whatever the hash function, bytes are derived from the front of the stream, in the length that
is asked for, and fewer bytes are the front of more. -/
theorem deriveBytes_front (hash : HashInterface) (hout : 8 ≤ hash.outputLen)
    (sessionSrpKey derivationString : Bytes) (hstr : 8 ≤ derivationString.length) :
    (∀ length tests rounds, 0 < length → length < tests → length ≤ rounds * hash.outputLen →
      deriveBytesWithin tests hash length derivationString sessionSrpKey =
        some (.ok (((List.range rounds).flatMap fun i =>
          hash.digest (sessionSrpKey ++ hash.digest^[i + 1] derivationString)).take length))) ∧
    (∀ length tests outcome, 0 < length →
      deriveBytesWithin tests hash length derivationString sessionSrpKey = some outcome →
      ∃ key, outcome = .ok key ∧ key.length = length) ∧
    (∀ shorter length tests tests' key key', 0 < shorter → shorter ≤ length →
      deriveBytesWithin tests hash length derivationString sessionSrpKey = some (.ok key) →
      deriveBytesWithin tests' hash shorter derivationString sessionSrpKey = some (.ok key') →
      key' <+: key) := by
  have hfront : ∀ length tests rounds, 0 < length → length < tests →
      length ≤ rounds * hash.outputLen →
      deriveBytesWithin tests hash length derivationString sessionSrpKey =
        some (.ok ((derivedStream hash derivationString sessionSrpKey rounds).take length)) := by
    intro length tests rounds hlength htests hrounds
    obtain ⟨rounds', hrounds', heq⟩ := deriveBytesWithin_eq hout hstr hlength htests
    rw [heq, take_derivedStream hrounds' hrounds]
  have hrounds : ∀ length : ℕ, length ≤ length * hash.outputLen :=
    fun length => Nat.le_mul_of_pos_right length (by omega)
  have hdone : ∀ length tests outcome, 0 < length →
      deriveBytesWithin tests hash length derivationString sessionSrpKey = some outcome →
      ∀ rounds, length ≤ rounds * hash.outputLen →
      outcome = .ok ((derivedStream hash derivationString sessionSrpKey rounds).take length) := by
    intro length tests outcome hlength h rounds hrounds
    have hmore := deriveBytesWithin_mono (Nat.le_add_right tests (length + 1)) h
    have heq := hfront length (tests + (length + 1)) rounds hlength (by omega) hrounds
    exact Option.some.inj (hmore.symm.trans heq)
  refine ⟨hfront, ?_, ?_⟩
  · intro length tests outcome hlength h
    refine ⟨_, hdone length tests outcome hlength h length (hrounds length), ?_⟩
    rw [List.length_take, length_derivedStream]
    exact min_eq_left (hrounds length)
  · intro shorter length tests tests' key key' hshorter hle h h'
    have hkey := hdone length tests _ (by omega) h length (hrounds length)
    have hkey' := hdone shorter tests' _ hshorter h' length (hle.trans (hrounds length))
    rw [Except.ok.inj hkey, Except.ok.inj hkey']
    exact List.take_prefix_take_left hle

/-- A toy hash function, which keeps the front of what it hashes. -/
def frontHash : HashInterface := ⟨8, 8, fun data => ⟨resize data 8, length_resize data 8⟩⟩

/-- Twelve bytes are derived in two rounds, and five bytes are the front of them. -/
theorem deriveBytes_front_twelve :
    deriveBytesWithin 13 frontHash 12 [1, 2, 3, 4, 5, 6, 7, 8] [9] =
        some (.ok [9, 1, 2, 3, 4, 5, 6, 7, 9, 1, 2, 3]) ∧
      deriveBytesWithin 6 frontHash 5 [1, 2, 3, 4, 5, 6, 7, 8] [9] =
        some (.ok [9, 1, 2, 3, 4]) ∧
      [9, 1, 2, 3, 4] <+: ([9, 1, 2, 3, 4, 5, 6, 7, 9, 1, 2, 3] : Bytes) := by
  obtain ⟨hfront, -, hless⟩ := deriveBytes_front frontHash (by decide) [9]
    [1, 2, 3, 4, 5, 6, 7, 8] (by decide)
  have htwelve := hfront 12 13 2 (by decide) (by decide) (by decide)
  have hfive := hfront 5 6 1 (by decide) (by decide) (by decide)
  exact ⟨htwelve, hfive, hless 5 12 13 6 _ _ (by decide) (by decide) htwelve hfive⟩

end

end San2.DragonSRP.HashKeyDerivator
