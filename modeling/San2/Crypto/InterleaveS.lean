import San2.Crypto.SrpChallenges
import San2.Library.WhileLoop

/-!
# The loops of `interleaveS`

The bytes at the even and at the odd places of the premaster secret are copied to a vector `E` of
half its length by two loops over iterators, which move on by two bytes; the second loop leaves its
iterator behind the end of the secret. An access outside of a vector has no outcome here.
-/

namespace San2.DragonSRP.OsslMathImpl

open BigEndian OsslConversion

/-- A byte is written through an iterator. -/
def writeByte (out : Bytes) (it : ℕ) (b : UInt8) : Option Bytes :=
  if it < out.length then some (out.set it b) else none

/-- The variables of a loop that copies every other byte to `E`. -/
structure CopyLoop where
  halfit : ℕ
  itE : ℕ
  E : Bytes

/-- `*itE = *halfit`, and both iterators move on. -/
def copyTurn (S : Bytes) (s : CopyLoop) : Option CopyLoop := do
  let b ← S[s.halfit]?
  let E ← writeByte s.E s.itE b
  return ⟨s.halfit + 2, s.itE + 1, E⟩

/-- The loop that takes every other byte. -/
def copyLoop (tests : ℕ) (S : Bytes) : CopyLoop → Option CopyLoop :=
  WhileLoop.run (fun s => s.halfit < S.length) (copyTurn S) tests

/-- The variables of the loop that mixes the digests. -/
structure MixLoop where
  i : ℕ
  K : Bytes

/-- One turn of the loop that mixes the two digests. -/
def mixTurn (G H : Bytes) (s : MixLoop) : Option MixLoop := do
  let g ← G[s.i]?
  let K ← writeByte s.K (2 * s.i) g
  let h ← H[s.i]?
  let K ← writeByte K (2 * s.i + 1) h
  return ⟨s.i + 1, K⟩

/-- The loop that mixes the two digests. -/
def mixLoop (tests outputLen : ℕ) (G H : Bytes) : MixLoop → Option MixLoop :=
  WhileLoop.run (fun s => s.i < outputLen) (mixTurn G H) tests

/-- The first byte that is not zero, which is searched from the front on. -/
def skipZeros (tests : ℕ) (S : Bytes) : Option ℕ :=
  WhileLoop.run (fun it => decide (it < S.length) && S[it]? == some 0) (fun it => some (it + 1))
    tests 0

/-- What a run of `interleaveS` leaves behind: the variables of the two loops that copy, and the
key. -/
structure Interleaved where
  halfLen : ℕ
  even : CopyLoop
  odd : CopyLoop
  K : Bytes

/-- `interleaveS`, as far as its loops end within a number of tests of their conditions. -/
def interleaveWithin (tests : ℕ) (math : OsslMathImpl) (S : Bytes) :
    Option (Except DsrpException Interleaved) :=
  if S.length = 0 then
    some (throw ⟨"OsslMathImpl::interleaveS: Zero parameter detected. (S)"⟩)
  else do
    let it ← skipZeros tests S
    let it := if S.length % 2 ≠ 0 then it + 1 else it
    if it = S.length then
      some (throw ⟨"OsslMathImpl::interleaveS: something went terribly wrong"⟩)
    else
      let halfLen := S.length / 2 % 2 ^ 32
      let even ← copyLoop tests S ⟨it, 0, List.replicate halfLen 0⟩
      let G := math.hash.digest even.E
      let it := it + 1
      let odd ← copyLoop tests S ⟨it, 0, even.E⟩
      let H := math.hash.digest odd.E
      let mixed ← mixLoop tests math.hash.outputLen G H
        ⟨0, List.replicate (math.hash.outputLen * 2) 0⟩
      return .ok ⟨halfLen, even, odd, mixed.K⟩

/-- A byte is written within the buffer. -/
theorem writeByte_eq {out : Bytes} {it : ℕ} (b : UInt8) (h : it < out.length) :
    writeByte out it b = some (out.set it b) := if_pos h

section

variable {S : Bytes} {tests : ℕ}

/-- Where there is no leading zero, none is skipped. -/
theorem skipZeros_eq (hzero : S.head? ≠ some 0) (htests : 0 < tests) :
    skipZeros tests S = some 0 := by
  obtain ⟨tests, rfl⟩ := Nat.exists_eq_succ_of_ne_zero htests.ne'
  refine WhileLoop.run_of_false ?_
  rw [← List.head?_eq_getElem?, Bool.and_eq_false_iff]
  right
  exact beq_eq_false_iff_ne.mpr hzero

/-- What has been copied so far. -/
structure Copied (S : Bytes) (it size : ℕ) (s : CopyLoop) : Prop where
  halfit : s.halfit = it + 2 * s.itE
  itE : s.itE ≤ size
  length : s.E.length = size
  copied : ∀ j < s.itE, s.E[j]? = S[it + 2 * j]?

/-- A turn stays within the bounds as long as there is room for every other byte. -/
theorem Copied.turn {it size : ℕ} {s : CopyLoop} (h : Copied S it size s)
    (hroom : S.length ≤ it + 2 * size) (hcondition : s.halfit < S.length) :
    ∃ s', copyTurn S s = some s' ∧ Copied S it size s' ∧ s'.halfit = s.halfit + 2 := by
  have hhalfit := h.halfit
  have hitE : s.itE < s.E.length := by
    rw [h.length]
    omega
  have hturn : copyTurn S s =
      some ⟨s.halfit + 2, s.itE + 1, s.E.set s.itE S[s.halfit]⟩ := by
    unfold copyTurn
    rw [List.getElem?_eq_getElem hcondition, Option.bind_eq_bind, Option.bind_some,
      writeByte_eq _ hitE]
    rfl
  refine ⟨_, hturn, ⟨?_, ?_, ?_, ?_⟩, rfl⟩
  · dsimp only
    omega
  · rw [h.length] at hitE
    exact hitE
  · exact List.length_set.trans h.length
  · intro j hj
    dsimp only at hj ⊢
    by_cases hlast : j = s.itE
    · rw [hlast, List.getElem?_set_self hitE, ← hhalfit, List.getElem?_eq_getElem hcondition]
    · rw [List.getElem?_set_ne (Ne.symm hlast)]
      exact h.copied j (by omega)

/-- The loop fills `E`, and neither reads nor writes outside of the vectors. -/
theorem exists_copyLoop {it size : ℕ} {E : Bytes} (hE : E.length = size)
    (hroom : S.length ≤ it + 2 * size) (hfull : it + 2 * size ≤ S.length + 1)
    (htests : S.length < tests) :
    ∃ s, copyLoop tests S ⟨it, 0, E⟩ = some s ∧ s.itE = size ∧ s.E.length = size ∧
      ∀ j < size, s.E[j]? = S[it + 2 * j]? := by
  have hstart : Copied S it size ⟨it, 0, E⟩ :=
    ⟨rfl, Nat.zero_le size, hE, fun j hj => absurd hj (Nat.not_lt_zero j)⟩
  have hturn : ∀ s, Copied S it size s → decide (s.halfit < S.length) = true →
      ∃ s', copyTurn S s = some s' ∧ Copied S it size s' ∧
        S.length - s'.halfit < S.length - s.halfit := by
    intro s h hcondition
    have hless : s.halfit < S.length := of_decide_eq_true hcondition
    obtain ⟨s', hs', h', hhalfit⟩ := h.turn hroom hless
    exact ⟨s', hs', h', by omega⟩
  have hmeasure : S.length - it < tests := by omega
  obtain ⟨s, hrun, h, hend⟩ := WhileLoop.exists_run hturn hstart hmeasure
  have hdone : S.length ≤ s.halfit := Nat.not_lt.mp (of_decide_eq_false hend)
  have hhalfit := h.halfit
  have hle := h.itE
  have hitE : s.itE = size := by omega
  refine ⟨s, hrun, hitE, h.length, fun j hj => h.copied j ?_⟩
  rw [hitE]
  exact hj

/-- What has been mixed so far. -/
structure Mixed (G H : Bytes) (outputLen : ℕ) (s : MixLoop) : Prop where
  i : s.i ≤ outputLen
  length : s.K.length = outputLen * 2
  even : ∀ i < s.i, s.K[2 * i]? = G[i]?
  odd : ∀ i < s.i, s.K[2 * i + 1]? = H[i]?

/-- One turn puts the next bytes of both digests in place. -/
theorem Mixed.turn {G H : Bytes} {outputLen : ℕ} {s : MixLoop} (h : Mixed G H outputLen s)
    (hG : G.length = outputLen) (hH : H.length = outputLen) (hcondition : s.i < outputLen) :
    ∃ s', mixTurn G H s = some s' ∧ Mixed G H outputLen s' ∧ s'.i = s.i + 1 := by
  have hlength := h.length
  have hg : s.i < G.length := by omega
  have hh : s.i < H.length := by omega
  have heven : 2 * s.i < s.K.length := by omega
  have hodd : 2 * s.i + 1 < (s.K.set (2 * s.i) G[s.i]).length := by
    rw [List.length_set]
    omega
  have hturn : mixTurn G H s =
      some ⟨s.i + 1, (s.K.set (2 * s.i) G[s.i]).set (2 * s.i + 1) H[s.i]⟩ := by
    unfold mixTurn
    rw [List.getElem?_eq_getElem hg, Option.bind_eq_bind, Option.bind_some,
      writeByte_eq _ heven, Option.bind_eq_bind, Option.bind_some, List.getElem?_eq_getElem hh,
      Option.bind_some, writeByte_eq _ hodd]
    rfl
  refine ⟨_, hturn, ⟨hcondition, ?_, ?_, ?_⟩, rfl⟩
  · dsimp only
    rw [List.length_set, List.length_set, hlength]
  · intro i hi
    dsimp only at hi ⊢
    rw [List.getElem?_set_ne (by omega)]
    by_cases hlast : i = s.i
    · rw [hlast, List.getElem?_set_self heven, List.getElem?_eq_getElem hg]
    · rw [List.getElem?_set_ne (by omega)]
      exact h.even i (by omega)
  · intro i hi
    dsimp only at hi ⊢
    by_cases hlast : i = s.i
    · rw [hlast, List.getElem?_set_self hodd, List.getElem?_eq_getElem hh]
    · rw [List.getElem?_set_ne (by omega), List.getElem?_set_ne (by omega)]
      exact h.odd i (by omega)

/-- The loop ends with the two digests mixed. -/
theorem exists_mixLoop {G H : Bytes} {outputLen : ℕ} (hG : G.length = outputLen)
    (hH : H.length = outputLen) (htests : outputLen < tests) :
    ∃ s, mixLoop tests outputLen G H ⟨0, List.replicate (outputLen * 2) 0⟩ = some s ∧
      s.K.length = outputLen * 2 ∧
      ∀ i < outputLen, s.K[2 * i]? = G[i]? ∧ s.K[2 * i + 1]? = H[i]? := by
  have hstart : Mixed G H outputLen ⟨0, List.replicate (outputLen * 2) 0⟩ :=
    ⟨Nat.zero_le outputLen, List.length_replicate, fun i hi => absurd hi (Nat.not_lt_zero i),
      fun i hi => absurd hi (Nat.not_lt_zero i)⟩
  have hturn : ∀ s, Mixed G H outputLen s → decide (s.i < outputLen) = true →
      ∃ s', mixTurn G H s = some s' ∧ Mixed G H outputLen s' ∧
        outputLen - s'.i < outputLen - s.i := by
    intro s h hcondition
    have hless : s.i < outputLen := of_decide_eq_true hcondition
    obtain ⟨s', hs', h', hi⟩ := h.turn hG hH hless
    exact ⟨s', hs', h', by omega⟩
  obtain ⟨s, hrun, h, hend⟩ := WhileLoop.exists_run hturn hstart htests
  have hdone : outputLen ≤ s.i := Nat.not_lt.mp (of_decide_eq_false hend)
  exact ⟨s, hrun, h.length, fun i hi => ⟨h.even i (by omega), h.odd i (by omega)⟩⟩

/-- The bytes at even places are every other byte. -/
theorem getElem?_evenBytes (T : Bytes) (i : ℕ) : (evenBytes T)[i]? = T[2 * i]? := by
  induction T using evenBytes.induct generalizing i with
  | case1 => rfl
  | case2 b =>
    cases i with
    | zero => rfl
    | succ i => rfl
  | case3 b c rest ih =>
    cases i with
    | zero => rfl
    | succ i => exact ih i

/-- Half of the bytes are at even places. -/
theorem length_evenBytes (T : Bytes) : (evenBytes T).length = (T.length + 1) / 2 := by
  induction T using evenBytes.induct with
  | case1 => rfl
  | case2 b =>
    rw [evenBytes, List.length_singleton]
  | case3 b c rest ih =>
    rw [evenBytes, List.length_cons, ih, List.length_cons, List.length_cons]
    omega

/-- What fills `E` with every other byte of `S` are the bytes at the even places behind the
iterator. -/
theorem eq_evenBytes {E : Bytes} {it size : ℕ} (hlength : E.length = size)
    (hE : ∀ j < size, E[j]? = S[it + 2 * j]?) (hroom : S.length ≤ it + 2 * size) :
    E = evenBytes (S.drop it) := by
  refine List.ext_getElem? fun j => ?_
  rw [getElem?_evenBytes, List.getElem?_drop]
  by_cases hj : j < size
  · exact hE j hj
  · rw [List.getElem?_eq_none (by omega), List.getElem?_eq_none (by omega)]

/-- The secret without the byte that is odd. -/
def evenPart (S : Bytes) : Bytes := if S.length % 2 = 1 then S.drop 1 else S

/-- The part that is used has an even length. -/
theorem length_evenPart (S : Bytes) : (evenPart S).length = 2 * (S.length / 2) := by
  unfold evenPart
  split_ifs
  · rw [List.length_drop]
    omega
  · omega

/-- The start of the loops, behind the byte that is odd. -/
theorem evenPart_eq (S : Bytes) : evenPart S = S.drop (S.length % 2) := by
  unfold evenPart
  rcases Nat.mod_two_eq_zero_or_one S.length with hparity | hparity
  · rw [hparity, if_neg (by decide), List.drop_zero]
  · rw [hparity, if_pos rfl]

variable (math : OsslMathImpl)

/-- What is to become of a secret of at least two bytes. -/
structure Interleaves (S : Bytes) (run : Interleaved) : Prop where
  halfLen : run.halfLen = S.length / 2
  even : run.even.itE = run.halfLen ∧ run.even.E.length = run.halfLen
  odd : run.odd.itE = run.halfLen ∧ run.odd.E.length = run.halfLen
  length : run.K.length = math.hash.outputLen * 2
  key : ∀ i < math.hash.outputLen,
    run.K[2 * i]? = (math.hash.digest (evenBytes (evenPart S)))[i]? ∧
    run.K[2 * i + 1]? = (math.hash.digest (evenBytes ((evenPart S).drop 1)))[i]?

variable {math}

/-- For every secret that is long enough the function returns, with the halves where they
belong. -/
theorem exists_interleaves (hzero : S.head? ≠ some 0) (hhalf : S.length / 2 < 2 ^ 32)
    (hlength : 2 ≤ S.length) (htests : S.length + math.hash.outputLen < tests) :
    ∃ run, interleaveWithin tests math S = some (.ok run) ∧ math.Interleaves S run := by
  obtain ⟨even, heven, hevenIt, hevenLength, hevenE⟩ := @exists_copyLoop S tests
    (S.length % 2) (S.length / 2) (List.replicate (S.length / 2) 0) List.length_replicate
    (by omega) (by omega) (by omega)
  obtain ⟨odd, hodd, hoddIt, hoddLength, hoddE⟩ := @exists_copyLoop S tests
    (S.length % 2 + 1) (S.length / 2) even.E hevenLength (by omega) (by omega) (by omega)
  obtain ⟨mixed, hmixed, hmixedLength, hmixedKey⟩ := exists_mixLoop
    (math.hash.length_digest even.E) (math.hash.length_digest odd.E)
    (show math.hash.outputLen < tests by omega)
  have hevenBytes := eq_evenBytes hevenLength hevenE (by omega)
  have hoddBytes := eq_evenBytes hoddLength hoddE (by omega)
  refine ⟨⟨S.length / 2, even, odd, mixed.K⟩, ?_, rfl, ⟨hevenIt, hevenLength⟩,
    ⟨hoddIt, hoddLength⟩, hmixedLength, ?_⟩
  · have hstart : (if S.length % 2 ≠ 0 then 0 + 1 else 0) = S.length % 2 := by
      split_ifs
      · omega
      · omega
    unfold interleaveWithin
    rw [if_neg (by omega), skipZeros_eq hzero (by omega), Option.bind_eq_bind, Option.bind_some]
    dsimp only
    rw [hstart, if_neg (by omega), Nat.mod_eq_of_lt hhalf, heven, Option.bind_eq_bind,
      Option.bind_some, hodd, Option.bind_some, hmixed]
    rfl
  · rw [evenPart_eq, List.drop_drop, ← hevenBytes, ← hoddBytes]
    exact hmixedKey

/-- Mixed, the bytes of both lists alternate. -/
theorem getElem?_mix {G H : Bytes} (hlength : G.length = H.length) (i : ℕ) :
    (List.zipWith (fun e o => [e, o]) G H).flatten[2 * i]? = G[i]? ∧
      (List.zipWith (fun e o => [e, o]) G H).flatten[2 * i + 1]? = H[i]? := by
  induction G generalizing H i with
  | nil =>
    obtain rfl := List.length_eq_zero_iff.mp hlength.symm
    exact ⟨rfl, rfl⟩
  | cons e G ih =>
    cases H with
    | nil => cases hlength
    | cons o H =>
      cases i with
      | zero => exact ⟨rfl, rfl⟩
      | succ i => exact ih (Nat.succ.inj hlength) i

/-- The halves of the source are the bytes at even and at odd places. -/
theorem interleaveHalves_evenPart :
    math.interleaveHalves (evenPart S) (S.length / 2) =
      (List.zipWith (fun e o => [e, o]) (math.hash.digest (evenBytes (evenPart S)))
        (math.hash.digest (evenBytes ((evenPart S).drop 1)))).flatten := by
  have heven : (evenBytes (evenPart S)).length = S.length / 2 := by
    rw [length_evenBytes, length_evenPart]
    omega
  have hodd : (evenBytes ((evenPart S).drop 1)).length = S.length / 2 := by
    rw [length_evenBytes, List.length_drop, length_evenPart]
    omega
  unfold interleaveHalves
  dsimp only
  rw [heven, Nat.sub_self, List.replicate_zero, List.append_nil,
    List.drop_of_length_le (heven.trans hodd.symm).le, List.append_nil]

/-- The key is the one that `interleaveS` makes of whole vectors. -/
theorem Interleaves.interleaveS {run : Interleaved} (h : math.Interleaves S run)
    (hzero : S.head? ≠ some 0) (hlength : 2 ≤ S.length) : math.interleaveS S = .ok run.K := by
  have hskipped : S.dropWhile (· = 0) = S := by
    cases S with
    | nil => rfl
    | cons b S =>
      refine List.dropWhile_cons_of_neg ?_
      intro hb
      exact hzero (congrArg some (of_decide_eq_true hb))
  have hnonempty : S ≠ [] := by
    rintro rfl
    cases hlength
  have hleft : (evenPart S).length ≠ 0 := by
    rw [length_evenPart]
    omega
  have hK : run.K = math.interleaveHalves (evenPart S) (S.length / 2) := by
    rw [interleaveHalves_evenPart]
    refine List.ext_getElem? fun n => ?_
    have hG := math.hash.length_digest (evenBytes (evenPart S))
    have hH := math.hash.length_digest (evenBytes ((evenPart S).drop 1))
    have hlong := h.length
    obtain ⟨i, rfl | rfl⟩ := Nat.even_or_odd' n
    · rw [(getElem?_mix (hG.trans hH.symm) i).1]
      by_cases hi : i < math.hash.outputLen
      · exact (h.key i hi).1
      · rw [List.getElem?_eq_none (by omega), List.getElem?_eq_none (by omega)]
    · rw [(getElem?_mix (hG.trans hH.symm) i).2]
      by_cases hi : i < math.hash.outputLen
      · exact (h.key i hi).2
      · rw [List.getElem?_eq_none (by omega), List.getElem?_eq_none (by omega)]
  unfold OsslMathImpl.interleaveS
  rw [checkParameter_ok hnonempty, hskipped]
  change (if (evenPart S).length = 0 then _ else _) = _
  rw [if_neg hleft, hK]
  rfl

/-- A big number is converted without a leading zero. -/
theorem head?_bignum2bytes (secret : ℕ) : (bignum2bytes secret).head? ≠ some 0 := by
  by_cases hzero : secret = 0
  · rw [hzero]
    decide
  · obtain ⟨first, rest, hbytes, hfirst⟩ := minimal_head_ne_zero hzero
    rw [show bignum2bytes secret = first :: rest from hbytes, List.head?_cons]
    exact fun heq => hfirst (Option.some.inj heq)

/-- The interleaved session key of a shared secret is what the loops make of it. -/
theorem calculateK_eq_run {secret : ℕ} (hsecret : 256 ≤ secret)
    (hhalf : (bignum2bytes secret).length / 2 < 2 ^ 32)
    (htests : (bignum2bytes secret).length + math.hash.outputLen < tests) :
    ∃ run, interleaveWithin tests math (bignum2bytes secret) = some (.ok run) ∧
      math.calculateK true secret = .ok run.K := by
  have hlength : 2 ≤ (bignum2bytes secret).length := by
    have hlong : ¬byteLength secret ≤ 1 := fun hshort => by
      have hsmall : secret < 256 := byteLength_le_iff.mp hshort
      omega
    rw [length_bignum2bytes]
    omega
  obtain ⟨run, hrun, h⟩ := exists_interleaves (head?_bignum2bytes secret) hhalf hlength htests
  exact ⟨run, hrun, h.interleaveS (head?_bignum2bytes secret) hlength⟩

/-- A secret of at least two bytes is interleaved: nothing is read or written outside of the
vectors, both loops fill `E`, and the digests of the bytes at the even and at the odd places take
turns in the key. A shorter one is refused. Half the length fits into an `unsigned int`, as it
does for a length that is an `int`. -/
theorem interleave_even_odd (math : OsslMathImpl) (S : Bytes) (hzero : S.head? ≠ some 0)
    (hhalf : S.length / 2 < 2 ^ 32) :
    (2 ≤ S.length → ∀ tests, S.length + math.hash.outputLen < tests →
      ∃ run, interleaveWithin tests math S = some (.ok run) ∧ math.Interleaves S run) ∧
    (S.length < 2 → ∀ tests, 0 < tests →
      ∃ e, interleaveWithin tests math S = some (.error e)) := by
  refine ⟨fun hlength tests htests => exists_interleaves hzero hhalf hlength htests, ?_⟩
  intro hlength tests htests
  unfold interleaveWithin
  by_cases hempty : S.length = 0
  · rw [if_pos hempty]
    exact ⟨_, rfl⟩
  · rw [if_neg hempty, skipZeros_eq hzero htests, Option.bind_eq_bind, Option.bind_some,
      if_pos (show S.length % 2 ≠ 0 by omega), if_pos (by omega)]
    exact ⟨_, rfl⟩

/-- A toy hash function, which keeps two bytes. -/
def pairHash : HashInterface := ⟨2, 2, fun data => ⟨resize data 2, length_resize data 2⟩⟩

/-- A secret of five bytes, the first of which is odd, and one of a single byte. -/
theorem interleave_even_odd_five :
    (∃ run, interleaveWithin 8 ⟨pairHash, 257, 3, 1⟩ [9, 1, 2, 3, 4] = some (.ok run) ∧
      run.K[0]? = some 1 ∧ run.K[1]? = some 2 ∧ run.K[2]? = some 3 ∧ run.K[3]? = some 4) ∧
    ∃ e, interleaveWithin 1 ⟨pairHash, 257, 3, 1⟩ [9] = some (.error e) := by
  obtain ⟨run, hrun, h⟩ := (interleave_even_odd ⟨pairHash, 257, 3, 1⟩ [9, 1, 2, 3, 4]
    (by decide) (by decide)).1 (by decide) 8 (by decide)
  refine ⟨⟨run, hrun, (h.key 0 (by decide)).1, (h.key 0 (by decide)).2, (h.key 1 (by decide)).1,
    (h.key 1 (by decide)).2⟩, ?_⟩
  exact (interleave_even_odd ⟨pairHash, 257, 3, 1⟩ [9] (by decide) (by decide)).2 (by decide) 1
    (by decide)

end

end San2.DragonSRP.OsslMathImpl
