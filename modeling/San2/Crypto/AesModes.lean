import San2.Crypto.AesCipher
import San2.Library.StreamMachine
import San2.Library.WhileLoop

/-!
# Modes of operation

The functions of `aes_modes.c` encrypt and decrypt streams. Cipher feedback and
output feedback take any number of bytes and remember the position in a block
between calls; electronic codebook and cipher block chaining take whole blocks.
Where the buffers are aligned the code combines whole words. Each function is
compared with a machine that reads one byte or one block after the other, from
which it follows that neither the division of a stream into calls nor the
alignment of the buffers shows in the output.

The source counts the bytes of a call in an `int`. A list of bytes stands for a call of
fewer than 2³¹ − 16 of them, where `cnt + AES_BLOCK_SIZE` does not overflow.
-/

namespace San2.Aes

open Utils

/-- A byte of `iv`. -/
def Block.get (x : Block) (i : ℕ) : UInt8 := x.val.getD i 0

/-- A block with one byte replaced. -/
def Block.set (x : Block) (i : ℕ) (b : UInt8) : Block :=
  ⟨x.val.set i b, (List.length_set ..).trans x.property⟩

/-- The block at the front of a buffer. -/
def blockAt (buf : Bytes) : Block :=
  ⟨List.ofFn fun i : Fin 16 => buf.getD i 0, List.length_ofFn⟩

/-- The word at an index of a buffer, `lp32(x)[c]`. -/
def lp32 (host : ByteOrder) (x : Block) (c : Fin 4) : UInt32 := wordIn host x.val c

/-- The exclusive or of two blocks. -/
def xorBlock (x y : Block) : Block :=
  ⟨CounterMode.xorBytes x.val y.val, by
    rw [CounterMode.length_xorBytes, x.property, y.property, Nat.min_self]⟩

/-- Sixteen bytes are combined one by one, or four words where the buffers are
aligned. -/
def combine (host : ByteOrder) (aligned : Bool) (x y : Block) : Block :=
  if aligned then stateOut host fun c => lp32 host x c ^^^ lp32 host y c else xorBlock x y

/-- The three functions that work on streams of bytes. They differ in what `iv`
holds after a byte. -/
inductive Feedback where
  | cfbEncrypt
  | cfbDecrypt
  | ofb
  deriving DecidableEq

/-- What is kept of the keystream, the input and the output. -/
def Feedback.keep {α : Type} (mode : Feedback) (keystream input output : α) : α :=
  match mode with
  | .cfbEncrypt => output
  | .cfbDecrypt => input
  | .ofb => keystream

/-- The variables of the loops: the rest of `ibuf`, what has been written to `obuf`,
`iv` and `b_pos`. -/
structure StreamVars where
  ibuf : Bytes
  obuf : Bytes
  iv : Block
  bPos : ℕ

/-- The inner loops, which end with the block or with the input. -/
def fillBlock (mode : Feedback) : Bytes → Bytes → Block → ℕ → StreamVars
  | [], obuf, iv, bPos => ⟨[], obuf, iv, bPos⟩
  | b :: ibuf, obuf, iv, bPos =>
    if bPos < 16 then
      let out := iv.get bPos ^^^ b
      fillBlock mode ibuf (obuf ++ [out]) (iv.set bPos (mode.keep (iv.get bPos) b out)) (bPos + 1)
    else ⟨b :: ibuf, obuf, iv, bPos⟩

/-- A full block begins anew. -/
def StreamVars.wrap (s : StreamVars) : StreamVars :=
  { s with bPos := if s.bPos = 16 then 0 else s.bPos }

/-- One turn of the loop over whole blocks, which asserts that no block is
unfinished. -/
def blockTurn (host : ByteOrder) (mode : Feedback) (aligned : Bool) (cx : Context)
    (s : StreamVars) : Option StreamVars := do
  guard (s.bPos = 0)
  let iv ← aesEncrypt host s.iv cx
  let input := blockAt s.ibuf
  let output := combine host aligned iv input
  some ⟨s.ibuf.drop 16, s.obuf ++ output.val, mode.keep iv input output, s.bPos⟩

/-- One turn of the last loop. -/
def restTurn (host : ByteOrder) (mode : Feedback) (cx : Context) (s : StreamVars) :
    Option StreamVars := do
  let iv ← if s.bPos = 0 then aesEncrypt host s.iv cx else some s.iv
  some (fillBlock mode s.ibuf s.obuf iv s.bPos).wrap

/-- What the three functions have in common: the rest of an unfinished block, whole
blocks, and the bytes after them. There is no result where `aes_encrypt` fails or
the assertion does. -/
def aesStream (host : ByteOrder) (mode : Feedback) (aligned : Bool) (cx : Context) (iv : Block)
    (ibuf : Bytes) : Option (Bytes × Block × Context) := do
  let bPos := cx.infB2.toNat
  let s := if bPos = 0 then ⟨ibuf, [], iv, bPos⟩ else (fillBlock mode ibuf [] iv bPos).wrap
  let s ← WhileLoop.run (fun s => decide (16 ≤ s.ibuf.length)) (blockTurn host mode aligned cx)
    (s.ibuf.length + 1) s
  let s ← WhileLoop.run (fun s => decide (s.ibuf ≠ [])) (restTurn host mode cx)
    (s.ibuf.length + 1) s
  some (s.obuf, s.iv, { cx with infB2 := UInt8.ofNat s.bPos })

/-- `aes_cfb_encrypt` -/
def aesCfbEncrypt (host : ByteOrder) := aesStream host .cfbEncrypt
/-- `aes_cfb_decrypt` -/
def aesCfbDecrypt (host : ByteOrder) := aesStream host .cfbDecrypt
/-- `aes_ofb_crypt` -/
def aesOfbCrypt (host : ByteOrder) := aesStream host .ofb

/-- The byte of a block behind the bytes before it. -/
theorem Block.get_eq (x : Block) {i : ℕ} {before after : Bytes} {b : UInt8}
    (h : x.val = before ++ b :: after) (hi : i = before.length) : x.get i = b := by
  rw [Block.get, h, hi, List.getD_append_right _ _ _ _ le_rfl, Nat.sub_self]
  rfl

/-- Replacing a byte leaves the bytes around it. -/
theorem Block.set_eq (x : Block) {i : ℕ} {before after : Bytes} {b : UInt8} (c : UInt8)
    (h : x.val = before ++ b :: after) (hi : i = before.length) :
    (x.set i c).val = before ++ c :: after := by
  change x.val.set i c = _
  rw [h, hi, List.set_append_right _ _ le_rfl, Nat.sub_self]
  rfl

/-- A block of sixteen bytes at the front. -/
theorem blockAt_append {front : Bytes} (h : front.length = 16) (rest : Bytes) :
    (blockAt (front ++ rest)).val = front := by
  apply List.ext_getElem
  · rw [h]
    exact (blockAt _).property
  · intro i hi hfront
    simp only [blockAt, List.getElem_ofFn]
    rw [List.getD_append _ _ _ _ hfront, List.getD_eq_getElem _ _ hfront]

/-- The exclusive or of blocks is the sum of their states. -/
theorem blockState_xorBlock (x y : Block) :
    blockState (xorBlock x y) = blockState x + blockState y := by
  funext c r
  have hx : 4 * (c : ℕ) + r < x.val.length := by rw [x.property]; omega
  have hy : 4 * (c : ℕ) + r < y.val.length := by rw [y.property]; omega
  have hz : 4 * (c : ℕ) + r < (CounterMode.xorBytes x.val y.val).length := by
    rw [CounterMode.length_xorBytes]
    omega
  apply Element.ext
  change (CounterMode.xorBytes x.val y.val).getD (4 * c + r) 0 =
    x.val.getD (4 * c + r) 0 ^^^ y.val.getD (4 * c + r) 0
  rw [List.getD_eq_getElem _ _ hx, List.getD_eq_getElem _ _ hy, List.getD_eq_getElem _ _ hz]
  exact List.getElem_zipWith

/-- Whether the buffers are aligned does not show. -/
theorem combine_eq (host : ByteOrder) (aligned : Bool) (x y : Block) :
    combine host aligned x y = xorBlock x y := by
  cases aligned with
  | false => rfl
  | true =>
    apply blockState_injective
    rw [blockState_xorBlock, combine, if_pos rfl, blockState_stateOut]
    funext c
    rw [wordState, column_xor, lp32, lp32, column_wordIn, column_wordIn]
    rfl

/-- What a context that has been set up does with a block. -/
def Context.encryptBlock (host : ByteOrder) (cx : Context) (x : Block) : Block :=
  (aesEncrypt host x cx).getD x

/-- A context with a number of rounds of the standard. -/
def Context.Ready (cx : Context) : Prop :=
  cx.infB0 = 14 * 16 ∨ cx.infB0 = 12 * 16 ∨ cx.infB0 = 10 * 16

/-- A context that is ready encrypts every block. -/
theorem Context.Ready.aesEncrypt {cx : Context} (h : cx.Ready) (host : ByteOrder) (x : Block) :
    aesEncrypt host x cx = some (cx.encryptBlock host x) := by
  have hsome : (San2.Aes.aesEncrypt host x cx).isSome := by
    rw [San2.Aes.aesEncrypt]
    simp only [apply_ite Option.isSome, Option.isSome_some, Option.isSome_none]
    rcases h with h | h | h
    · rw [if_pos h]
    · rw [if_pos h, ite_self]
    · rw [if_pos h, ite_self, ite_self]
  obtain ⟨y, hy⟩ := Option.isSome_iff_exists.mp hsome
  rw [encryptBlock, hy, Option.getD_some]

/-- One byte of a stream: a new block is begun where the position is zero. -/
def streamMachine (mode : Feedback) (E : Block → Block) :
    StreamMachine (Block × ℕ) UInt8 UInt8 where
  step s b :=
    let iv := if s.2 = 0 then E s.1 else s.1
    let out := iv.get s.2 ^^^ b
    ((iv.set s.2 (mode.keep (iv.get s.2) b out), (s.2 + 1) % 16), out)

section Machine

variable {mode : Feedback} {E : Block → Block}

variable (mode) in
/-- A byte in the middle of a block. -/
theorem step_inside {iv : Block} {before after : Bytes} {k : UInt8} (b : UInt8)
    (hiv : iv.val = before ++ k :: after) (hpos : 0 < before.length) :
    ∃ iv' : Block, iv'.val = before ++ mode.keep k b (k ^^^ b) :: after ∧
      (streamMachine mode E).step (iv, before.length) b =
        ((iv', (before.length + 1) % 16), k ^^^ b) := by
  have hget : iv.get before.length = k := iv.get_eq hiv rfl
  refine ⟨iv.set before.length (mode.keep k b (k ^^^ b)), iv.set_eq _ hiv rfl, ?_⟩
  simp only [streamMachine, if_neg hpos.ne', hget]

variable (mode) in
/-- The bytes of an unfinished block. -/
theorem run_inside {iv : Block} {before mid after input : Bytes}
    (hiv : iv.val = before ++ (mid ++ after)) (hlength : input.length = mid.length)
    (hpos : 0 < before.length) (hlt : before.length < 16) :
    ∃ iv' : Block,
      iv'.val = before ++ (List.zipWith (fun k b => mode.keep k b (k ^^^ b)) mid input ++ after) ∧
      (streamMachine mode E).run (iv, before.length) input =
        ((iv', (before.length + input.length) % 16), CounterMode.xorBytes mid input) := by
  induction input generalizing iv before mid with
  | nil =>
    obtain rfl := List.length_eq_zero_iff.mp hlength.symm
    refine ⟨iv, hiv, ?_⟩
    rw [StreamMachine.run_nil, List.length_nil, Nat.add_zero, Nat.mod_eq_of_lt hlt]
    rfl
  | cons b input ih =>
    obtain ⟨k, mid, rfl⟩ := List.exists_cons_of_length_eq_add_one hlength.symm
    obtain ⟨iv₁, hiv₁, hstep⟩ := step_inside mode (E := E) b hiv hpos
    have htotal := congrArg List.length hiv
    rw [iv.property] at htotal
    simp only [List.length_append, List.length_cons] at hlength htotal
    have hfront : (before ++ [mode.keep k b (k ^^^ b)]).length = before.length + 1 := by
      rw [List.length_append, List.length_singleton]
    rcases Nat.lt_or_ge (before.length + 1) 16 with hmore | hlast
    · have hiv₁' : iv₁.val = (before ++ [mode.keep k b (k ^^^ b)]) ++ (mid ++ after) := by
        rw [hiv₁, List.append_assoc]
        rfl
      obtain ⟨iv₂, hiv₂, hrun⟩ := ih hiv₁' (by omega) (by omega) (by omega)
      refine ⟨iv₂, by rw [hiv₂, List.append_assoc]; rfl, ?_⟩
      rw [hfront] at hrun
      rw [StreamMachine.run_cons, hstep, Nat.mod_eq_of_lt hmore, hrun, List.length_cons,
        Nat.add_right_comm, Nat.add_assoc]
      rfl
    · -- The block is full, and so the input is at its end.
      obtain rfl := List.length_eq_zero_iff.mp (by omega : mid.length = 0)
      obtain rfl := List.length_eq_zero_iff.mp (by omega : input.length = 0)
      refine ⟨iv₁, hiv₁, ?_⟩
      rw [StreamMachine.run_cons, hstep, StreamMachine.run_nil]
      rfl

variable (mode) in
/-- A whole block. -/
theorem run_block (iv : Block) {input : Bytes} (hlength : input.length = 16) :
    ∃ iv' : Block,
      iv'.val = List.zipWith (fun k b => mode.keep k b (k ^^^ b)) (E iv).val input ∧
      (streamMachine mode E).run (iv, 0) input =
        ((iv', 0), CounterMode.xorBytes (E iv).val input) := by
  obtain ⟨b, rest, rfl⟩ := List.exists_cons_of_length_eq_add_one hlength
  obtain ⟨k, mid, hE⟩ := List.exists_cons_of_length_eq_add_one (E iv).property
  have hnil : (E iv).val = [] ++ k :: mid := hE
  have hget : (E iv).get 0 = k := (E iv).get_eq hnil rfl
  have hmid := (E iv).property
  rw [hE] at hmid
  simp only [List.length_cons] at hlength hmid
  have hset : ((E iv).set 0 (mode.keep k b (k ^^^ b))).val =
      [mode.keep k b (k ^^^ b)] ++ (mid ++ []) := by
    rw [(E iv).set_eq (i := 0) _ hnil rfl, List.append_nil]
    rfl
  have hrest : rest.length = mid.length := by omega
  obtain ⟨iv', hiv', hrun⟩ := run_inside mode (E := E) hset hrest Nat.zero_lt_one
    (by rw [List.length_singleton]; decide)
  refine ⟨iv', by rw [hiv', List.append_nil, hE]; rfl, ?_⟩
  have hend : (1 + rest.length) % 16 = 0 := by omega
  rw [List.length_singleton, hend] at hrun
  have hstep : (streamMachine mode E).step (iv, 0) b =
      (((E iv).set 0 (mode.keep k b (k ^^^ b)), 1), k ^^^ b) := by
    simp only [streamMachine, if_true, hget]
  rw [StreamMachine.run_cons, hstep, hrun, hE]
  rfl

/-- What the code has done so far is what the machine does with the bytes that it
has read. -/
structure Follows (mode : Feedback) (E : Block → Block) (start : Block × ℕ) (input : Bytes)
    (s : StreamVars) : Prop where
  position : s.bPos < 16
  machine : ∃ taken, input = taken ++ s.ibuf ∧
    (streamMachine mode E).run start taken = ((s.iv, s.bPos), s.obuf)

variable (mode) in
/-- The bytes that one of the inner loops takes. -/
theorem fillBlock_run (ibuf obuf : Bytes) (iv : Block) {bPos : ℕ} (hpos : 0 < bPos)
    (hle : bPos ≤ 16) :
    ∃ taken out, taken ++ (fillBlock mode ibuf obuf iv bPos).ibuf = ibuf ∧
      (streamMachine mode E).run (iv, bPos % 16) taken =
        (((fillBlock mode ibuf obuf iv bPos).iv,
          (fillBlock mode ibuf obuf iv bPos).bPos % 16), out) ∧
      (fillBlock mode ibuf obuf iv bPos).obuf = obuf ++ out ∧
      (fillBlock mode ibuf obuf iv bPos).bPos ≤ 16 ∧
      ((fillBlock mode ibuf obuf iv bPos).bPos = 16 ∨
        (fillBlock mode ibuf obuf iv bPos).ibuf = []) := by
  induction ibuf generalizing obuf iv bPos with
  | nil => exact ⟨[], [], rfl, rfl, (List.append_nil obuf).symm, hle, Or.inr rfl⟩
  | cons b ibuf ih =>
    rw [fillBlock]
    by_cases hlt : bPos < 16
    · rw [if_pos hlt]
      obtain ⟨taken, out, htaken, hrun, hobuf, hend, hdone⟩ :=
        ih (obuf ++ [iv.get bPos ^^^ b])
          (iv.set bPos (mode.keep (iv.get bPos) b (iv.get bPos ^^^ b))) (Nat.succ_pos bPos) hlt
      refine ⟨b :: taken, (iv.get bPos ^^^ b) :: out, congrArg _ htaken, ?_, ?_, hend, hdone⟩
      · have hmod : bPos % 16 = bPos := Nat.mod_eq_of_lt hlt
        rw [StreamMachine.run_cons]
        simp only [streamMachine, hmod, if_neg hpos.ne'] at hrun ⊢
        rw [hrun]
      · rw [hobuf, List.append_assoc]
        rfl
    · rw [if_neg hlt]
      exact ⟨[], [], rfl, rfl, (List.append_nil obuf).symm, hle, Or.inl (hle.antisymm (not_lt.mp hlt))⟩

/-- The position wraps around at the end of a block. -/
theorem wrap_bPos {s : StreamVars} (h : s.bPos ≤ 16) : s.wrap.bPos = s.bPos % 16 := by
  simp only [StreamVars.wrap]
  split_ifs <;> omega

variable {start : Block × ℕ} {input : Bytes} {s : StreamVars}

/-- The rest of an unfinished block is read. Then either the block or the input is
at its end. -/
theorem Follows.fill (h : Follows mode E start input s) (hpos : 0 < s.bPos) :
    Follows mode E start input (fillBlock mode s.ibuf s.obuf s.iv s.bPos).wrap ∧
      ((fillBlock mode s.ibuf s.obuf s.iv s.bPos).wrap.bPos = 0 ∨
        (fillBlock mode s.ibuf s.obuf s.iv s.bPos).wrap.ibuf = []) := by
  obtain ⟨before, hinput, hbefore⟩ := h.machine
  obtain ⟨taken, out, htaken, hrun, hobuf, hend, hdone⟩ :=
    fillBlock_run mode (E := E) s.ibuf s.obuf s.iv hpos h.position.le
  rw [Nat.mod_eq_of_lt h.position] at hrun
  generalize fillBlock mode s.ibuf s.obuf s.iv s.bPos = s' at *
  refine ⟨⟨?_, before ++ taken, ?_, ?_⟩, ?_⟩
  · rw [wrap_bPos hend]
    exact Nat.mod_lt _ (by decide)
  · rw [hinput, ← htaken, List.append_assoc]
    rfl
  · rw [StreamMachine.run_append, hbefore, hrun, wrap_bPos hend, ← hobuf]
    rfl
  · rcases hdone with hfull | hempty
    · exact Or.inl (by rw [wrap_bPos hend, hfull])
    · exact Or.inr hempty

/-- What is kept of a block is what is kept of its bytes. -/
theorem keep_val (mode : Feedback) (k x : Block) :
    (mode.keep k x (xorBlock k x)).val =
      List.zipWith (fun k b => mode.keep k b (k ^^^ b)) k.val x.val := by
  have hlength : k.val.length = x.val.length := k.property.trans x.property.symm
  cases mode with
  | cfbEncrypt => rfl
  | cfbDecrypt =>
    apply List.ext_getElem
    · rw [List.length_zipWith, hlength, Nat.min_self]
      rfl
    · intro i hi hzip
      rw [List.getElem_zipWith]
      rfl
  | ofb =>
    apply List.ext_getElem
    · rw [List.length_zipWith, ← hlength, Nat.min_self]
      rfl
    · intro i hi hzip
      rw [List.getElem_zipWith]
      rfl

/-- A whole block is read. -/
theorem Follows.blockTurn {host : ByteOrder} (aligned : Bool) {cx : Context} (hready : cx.Ready)
    (h : Follows mode (cx.encryptBlock host) start input s) (hpos : s.bPos = 0)
    (hlength : 16 ≤ s.ibuf.length) :
    ∃ s', San2.Aes.blockTurn host mode aligned cx s = some s' ∧ s'.bPos = 0 ∧
      s'.ibuf.length + 16 = s.ibuf.length ∧
      Follows mode (cx.encryptBlock host) start input s' := by
  obtain ⟨before, hinput, hbefore⟩ := h.machine
  have htake : (s.ibuf.take 16).length = 16 := by rw [List.length_take]; omega
  have hblock : (blockAt s.ibuf).val = s.ibuf.take 16 := by
    conv_lhs => rw [← List.take_append_drop 16 s.ibuf]
    exact blockAt_append htake _
  obtain ⟨iv', hiv', hrun⟩ := run_block mode (E := cx.encryptBlock host) s.iv htake
  have hkeep : mode.keep (cx.encryptBlock host s.iv) (blockAt s.ibuf)
      (xorBlock (cx.encryptBlock host s.iv) (blockAt s.ibuf)) = iv' :=
    Subtype.ext (by rw [keep_val, hiv', hblock])
  refine ⟨⟨s.ibuf.drop 16, s.obuf ++ CounterMode.xorBytes (cx.encryptBlock host s.iv).val
    (s.ibuf.take 16), iv', 0⟩, ?_, rfl, ?_, ?_, before ++ s.ibuf.take 16, ?_, ?_⟩
  · rw [San2.Aes.blockTurn, hready.aesEncrypt host s.iv, ← hblock, ← hkeep]
    simp only [hpos, combine_eq]
    rfl
  · rw [List.length_drop]
    omega
  · exact Nat.zero_lt_succ 15
  · rw [hinput, List.append_assoc, List.take_append_drop]
  · rw [hpos] at hbefore
    rw [StreamMachine.run_append, hbefore, hrun]

/-- The last bytes begin a block. -/
theorem Follows.restTurn {host : ByteOrder} {cx : Context} (hready : cx.Ready)
    (h : Follows mode (cx.encryptBlock host) start input s) (hpos : s.bPos = 0)
    (hne : s.ibuf ≠ []) :
    ∃ s', San2.Aes.restTurn host mode cx s = some s' ∧ s'.ibuf.length < s.ibuf.length ∧
      (s'.bPos = 0 ∨ s'.ibuf = []) ∧ Follows mode (cx.encryptBlock host) start input s' := by
  obtain ⟨before, hinput, hbefore⟩ := h.machine
  obtain ⟨b, rest, hibuf⟩ := List.exists_cons_of_ne_nil hne
  generalize hk : cx.encryptBlock host s.iv = k
  -- After the first byte the block is an unfinished one.
  let first : StreamVars := ⟨rest, s.obuf ++ [k.get 0 ^^^ b],
    k.set 0 (mode.keep (k.get 0) b (k.get 0 ^^^ b)), 1⟩
  have hfirst : Follows mode (cx.encryptBlock host) start input first := by
    refine ⟨Nat.one_lt_succ_succ 14, before ++ [b], ?_, ?_⟩
    · rw [hinput, hibuf, List.append_assoc]
      rfl
    · rw [hpos] at hbefore
      rw [StreamMachine.run_append, hbefore, StreamMachine.run_cons]
      simp only [streamMachine, if_true, hk]
      rfl
  obtain ⟨hfill, hdone⟩ := hfirst.fill Nat.zero_lt_one
  refine ⟨_, ?_, ?_, hdone, hfill⟩
  · rw [San2.Aes.restTurn, if_pos hpos, hready.aesEncrypt host s.iv, hk, hibuf, hpos]
    rfl
  · have hone : 0 < first.bPos := Nat.zero_lt_one
    obtain ⟨taken, out, htaken, -⟩ := fillBlock_run mode (E := cx.encryptBlock host) first.ibuf
      first.obuf first.iv hone (Nat.one_lt_succ_succ 14).le
    have hlength := congrArg List.length htaken
    rw [List.length_append] at hlength
    have hrest : s.ibuf.length = first.ibuf.length + 1 := congrArg List.length hibuf
    simp only [StreamVars.wrap]
    omega

/-- Between the loops a block is unfinished only at the end of the input. -/
structure Between (mode : Feedback) (E : Block → Block) (start : Block × ℕ) (input : Bytes)
    (s : StreamVars) : Prop where
  follows : Follows mode E start input s
  done : s.bPos = 0 ∨ s.ibuf = []

/-- Between two whole blocks nothing is left over. -/
theorem Between.bPos_eq_zero (h : Between mode E start input s) (hne : s.ibuf ≠ []) :
    s.bPos = 0 :=
  h.done.resolve_right hne

/-- A stream function computes the machine of its mode. -/
theorem aesStream_run (host : ByteOrder) (mode : Feedback) (aligned : Bool) {cx : Context}
    (hready : cx.Ready) (hpos : cx.infB2.toNat < 16) (iv : Block) (ibuf : Bytes) :
    aesStream host mode aligned cx iv ibuf =
      let after := (streamMachine mode (cx.encryptBlock host)).run (iv, cx.infB2.toNat) ibuf
      some (after.2, after.1.1, { cx with infB2 := UInt8.ofNat after.1.2 }) := by
  let inv := Between mode (cx.encryptBlock host) (iv, cx.infB2.toNat) ibuf
  have hstart : Follows mode (cx.encryptBlock host) (iv, cx.infB2.toNat) ibuf
      ⟨ibuf, [], iv, cx.infB2.toNat⟩ :=
    ⟨hpos, [], rfl, rfl⟩
  have hpartial : inv (if cx.infB2.toNat = 0 then ⟨ibuf, [], iv, cx.infB2.toNat⟩
      else (fillBlock mode ibuf [] iv cx.infB2.toNat).wrap) := by
    split_ifs with hzero
    · exact ⟨hstart, Or.inl hzero⟩
    · obtain ⟨hfill, hdone⟩ := hstart.fill (Nat.pos_of_ne_zero hzero)
      exact ⟨hfill, hdone⟩
  have hblocks : ∀ s, inv s → decide (16 ≤ s.ibuf.length) = true →
      ∃ s', blockTurn host mode aligned cx s = some s' ∧ inv s' ∧
        s'.ibuf.length < s.ibuf.length := by
    intro s hs hcondition
    have hlength := of_decide_eq_true hcondition
    have hne : s.ibuf ≠ [] := List.ne_nil_of_length_pos (by omega)
    obtain ⟨s', hturn, hzero, hless, hfollows⟩ :=
      hs.follows.blockTurn aligned hready (hs.bPos_eq_zero hne) hlength
    exact ⟨s', hturn, ⟨hfollows, Or.inl hzero⟩, by omega⟩
  have hrest : ∀ s, inv s → decide (s.ibuf ≠ []) = true →
      ∃ s', restTurn host mode cx s = some s' ∧ inv s' ∧ s'.ibuf.length < s.ibuf.length := by
    intro s hs hcondition
    have hne := of_decide_eq_true hcondition
    obtain ⟨s', hturn, hless, hdone, hfollows⟩ :=
      hs.follows.restTurn hready (hs.bPos_eq_zero hne) hne
    exact ⟨s', hturn, ⟨hfollows, hdone⟩, hless⟩
  obtain ⟨s₁, hrun₁, hinv₁, -⟩ := WhileLoop.exists_run hblocks hpartial (Nat.lt_succ_self _)
  obtain ⟨s₂, hrun₂, hinv₂, hend⟩ := WhileLoop.exists_run hrest hinv₁ (Nat.lt_succ_self _)
  obtain ⟨taken, hinput, hmachine⟩ := hinv₂.follows.machine
  have hempty : s₂.ibuf = [] := by simpa using hend
  rw [hempty, List.append_nil] at hinput
  subst hinput
  rw [aesStream]
  simp only [Option.bind_eq_bind, hrun₁, Option.bind_some, hrun₂, hmachine]

/-- The position stays within a block. -/
theorem run_position (mode : Feedback) (E : Block → Block) (s : Block × ℕ) (hs : s.2 < 16)
    (stream : Bytes) : ((streamMachine mode E).run s stream).1.2 < 16 := by
  induction stream generalizing s with
  | nil => exact hs
  | cons b stream ih => exact ih _ (Nat.mod_lt _ (by decide))

end Machine

/-! ## Successive calls -/

/-- A call of a stream function, with what it changes: the context and `iv`. The
call is made with a buffer, aligned or not. -/
def streamCall (f : Bool → Context → Block → Bytes → Option (Bytes × Block × Context))
    (t : Context × Block) (c : Bool × Bytes) : Option ((Context × Block) × Bytes) :=
  (f c.1 t.1 t.2 c.2).map fun r => ((r.2.2, r.2.1), r.1)

/-- The variables between calls that stand for a state of the machine. -/
structure Stands (cx : Context) (t : Context × Block) (s : Block × ℕ) : Prop where
  context : t.1 = { cx with infB2 := UInt8.ofNat s.2 }
  iv : t.2 = s.1
  position : s.2 < 16

/-- The context and the iv stand for the state of the machine at the beginning. -/
theorem Stands.start {cx : Context} (hpos : cx.infB2.toNat < 16) (iv : Block) :
    Stands cx (cx, iv) (iv, cx.infB2.toNat) :=
  ⟨by rw [UInt8.ofNat_toNat], rfl, hpos⟩

/-- A division of a stream into calls. -/
theorem calls_aesStream (host : ByteOrder) (mode : Feedback) {cx : Context} (hready : cx.Ready)
    (hpos : cx.infB2.toNat < 16) (iv : Block) (cs : List (Bool × Bytes)) :
    ∃ t, StreamMachine.calls (streamCall (aesStream host mode)) (cx, iv) cs =
        some (t, ((streamMachine mode (cx.encryptBlock host)).run (iv, cx.infB2.toNat)
          (cs.flatMap Prod.snd)).2) ∧
      Stands cx t ((streamMachine mode (cx.encryptBlock host)).run (iv, cx.infB2.toNat)
          (cs.flatMap Prod.snd)).1 := by
  refine StreamMachine.calls_run (streamMachine mode (cx.encryptBlock host)) Prod.snd id
    (fun _ => True) rfl (fun _ _ => rfl) ?_ (Stands.start hpos iv) cs fun _ _ => trivial
  rintro ⟨cx', iv'⟩ ⟨s, pos⟩ ⟨aligned, ibuf⟩ - ⟨hcontext, hiv, hposition⟩
  simp only at hcontext hiv hposition
  subst hiv hcontext
  have hsmall : (UInt8.ofNat pos).toNat = pos := UInt8.toNat_ofNat_of_lt' (by
    have hsize : UInt8.size = 256 := rfl
    omega)
  have hready' : ({ cx with infB2 := UInt8.ofNat pos } : Context).Ready := hready
  have hrun := aesStream_run host mode aligned hready' (by rw [hsmall]; exact hposition) iv' ibuf
  rw [hsmall] at hrun
  refine ⟨_, congrArg (Option.map _) hrun, rfl, rfl, ?_⟩
  exact run_position mode _ _ hposition ibuf

/-- The division of a stream into calls and the alignment of the buffers do not
show: neither in the output nor in what the calls leave in `iv` and the context. All
calls succeed. -/
theorem calls_aesStream_eq {host : ByteOrder} (mode : Feedback) {cx : Context}
    (hready : cx.Ready) (hpos : cx.infB2.toNat < 16) (iv : Block) (aligned : Bool)
    (cs : List (Bool × Bytes)) :
    ∃ result, StreamMachine.calls (streamCall (aesStream host mode)) (cx, iv) cs = some result ∧
      streamCall (aesStream host mode) (cx, iv) (aligned, cs.flatMap Prod.snd) = some result := by
  obtain ⟨⟨cx', iv'⟩, hcalls, hcontext, hiv, -⟩ :=
    calls_aesStream host mode hready hpos iv cs
  simp only at hcontext hiv
  refine ⟨_, hcalls, ?_⟩
  rw [streamCall, aesStream_run host mode aligned hready hpos, hcontext, hiv]
  rfl

/-- A call that begins behind 14 bytes of a block, and one that ends within a third block. -/
theorem calls_aesStream_eq_two_calls : ∃ result,
    StreamMachine.calls (streamCall (aesStream .littleEndian .ofb))
        (⟨fun i => UInt32.ofNat i, 160, 14⟩, blockAt [7])
        [(true, List.replicate 20 1), (false, List.replicate 13 2)] = some result ∧
      streamCall (aesStream .littleEndian .ofb) (⟨fun i => UInt32.ofNat i, 160, 14⟩, blockAt [7])
        (true, List.replicate 20 1 ++ List.replicate 13 2) = some result :=
  calls_aesStream_eq .ofb (Or.inr (Or.inr rfl)) (by decide) _ true
    [(true, List.replicate 20 1), (false, List.replicate 13 2)]

/-- Feedback from the ciphertext is undone, since both sides have it. -/
theorem undoes_cfb (E : Block → Block) :
    (streamMachine .cfbEncrypt E).Undoes (streamMachine .cfbDecrypt E) Eq := by
  constructor
  · rintro s _ b rfl
    simp only [streamMachine, ← UInt8.xor_assoc, UInt8.xor_self, UInt8.zero_xor]
  · rintro s _ b rfl
    rfl

/-- Feedback from the output is undone by itself. -/
theorem undoes_ofb (E : Block → Block) :
    (streamMachine .ofb E).Undoes (streamMachine .ofb E) Eq := by
  constructor
  · rintro s _ b rfl
    simp only [streamMachine, ← UInt8.xor_assoc, UInt8.xor_self, UInt8.zero_xor]
  · rintro s _ b rfl
    rfl

/-- A context for encryption is ready. -/
theorem Context.Encrypts.ready {host : ByteOrder} {nk : ℕ} {key : ℕ → Rijndael.Column Element}
    {cx : Context} (h : cx.Encrypts host nk key) : cx.Ready := by
  rw [Context.Ready, h.infB0]
  obtain rfl | rfl | rfl := h.size
  · exact Or.inr (Or.inr rfl)
  · exact Or.inr (Or.inl rfl)
  · exact Or.inl rfl

/-- Contexts of one key encrypt alike on any two hosts. -/
theorem Context.Encrypts.encryptBlock_eq {host host' : ByteOrder} {nk : ℕ}
    {key : ℕ → Rijndael.Column Element} {cx cx' : Context} (h : cx.Encrypts host nk key)
    (h' : cx'.Encrypts host' nk key) : cx.encryptBlock host = cx'.encryptBlock host' := by
  funext x
  have hx := h.ready.aesEncrypt host x
  have hx' := h'.ready.aesEncrypt host' x
  rw [aesEncrypt_eq_some_iff h] at hx
  rw [aesEncrypt_eq_some_iff h'] at hx'
  exact blockState_injective (hx.trans hx'.symm)

/-- A key that has been set up leaves no unfinished block. -/
theorem aesEncryptKey_infB2 {host : ByteOrder} {key : KeyPointer} {keyLen : ℤ}
    {memory : KeyState} {cx : Context} (h : aesEncryptKey host key keyLen memory = some cx) :
    cx.infB2 = 0 := by
  rw [aesEncryptKey] at h
  split_ifs at h with h₁ h₂ h₃ <;> cases h <;> rfl

/-- A stream that one mode writes under a key the other mode reads back under the
same key, however each side divides it into calls. -/
theorem calls_undoes {host host' : ByteOrder} {key : KeyPointer} {memory memory' : KeyState}
    {keyLen : ℤ} {nk : ℕ} (hlength : KeyLength keyLen nk) {mode mode' : Feedback}
    (hundoes : ∀ E, (streamMachine mode E).Undoes (streamMachine mode' E) Eq) (iv : Block)
    (cs : List (Bool × Bytes)) :
    ∃ ecx dcx ecx' iv' out, aesEncryptKey host key keyLen memory = some ecx ∧
      aesEncryptKey host' key keyLen memory' = some dcx ∧
      StreamMachine.calls (streamCall (aesStream host mode)) (ecx, iv) cs =
        some ((ecx', iv'), out) ∧
      ∀ cs', cs'.flatMap Prod.snd = out → ∃ dcx', dcx'.infB2 = ecx'.infB2 ∧
        StreamMachine.calls (streamCall (aesStream host' mode')) (dcx, iv) cs' =
          some ((dcx', iv'), cs.flatMap Prod.snd) := by
  obtain ⟨ecx, hecx, hencrypts⟩ := aesEncryptKey_encrypts host key memory hlength
  obtain ⟨dcx, hdcx, hencrypts'⟩ := aesEncryptKey_encrypts host' key memory' hlength
  have hzero : ecx.infB2.toNat < 16 := by rw [aesEncryptKey_infB2 hecx]; decide
  have hzero' : dcx.infB2.toNat < 16 := by rw [aesEncryptKey_infB2 hdcx]; decide
  have hsame : dcx.infB2 = ecx.infB2 := by rw [aesEncryptKey_infB2 hecx, aesEncryptKey_infB2 hdcx]
  obtain ⟨⟨ecx', iv'⟩, hcalls, hcontext, hiv, hposition⟩ :=
    calls_aesStream host mode hencrypts.ready hzero iv cs
  refine ⟨ecx, dcx, ecx', iv', _, hecx, hdcx, hcalls, fun cs' hcs' => ?_⟩
  obtain ⟨⟨dcx', iv''⟩, hcalls', hcontext', hiv', -⟩ :=
    calls_aesStream host' mode' hencrypts'.ready hzero' iv cs'
  obtain ⟨hread, hstate⟩ := (hundoes (ecx.encryptBlock host)).run (s := (iv, ecx.infB2.toNat)) rfl
    (cs.flatMap Prod.snd)
  rw [hcs', ← hencrypts.encryptBlock_eq hencrypts', hsame] at hcalls' hcontext' hiv'
  rw [← hstate] at hcontext' hiv'
  simp only at hcontext hcontext' hiv hiv'
  refine ⟨dcx', by rw [hcontext, hcontext'], ?_⟩
  rw [hcalls', hread, hiv, hiv']

/-- Cipher feedback: the decrypting side, on any host and with any division of the
text into calls, reads what the encrypting side has read, and both end with the same
`iv` in the same position of a block. -/
theorem aesCfbDecrypt_aesCfbEncrypt (host host' : ByteOrder) (key : KeyPointer)
    (memory memory' : KeyState) {keyLen : ℤ} {nk : ℕ} (hlength : KeyLength keyLen nk) (iv : Block)
    (cs : List (Bool × Bytes)) :
    ∃ ecx dcx ecx' iv' out, aesEncryptKey host key keyLen memory = some ecx ∧
      aesEncryptKey host' key keyLen memory' = some dcx ∧
      StreamMachine.calls (streamCall (aesCfbEncrypt host)) (ecx, iv) cs =
        some ((ecx', iv'), out) ∧
      ∀ cs', cs'.flatMap Prod.snd = out → ∃ dcx', dcx'.infB2 = ecx'.infB2 ∧
        StreamMachine.calls (streamCall (aesCfbDecrypt host')) (dcx, iv) cs' =
          some ((dcx', iv'), cs.flatMap Prod.snd) :=
  calls_undoes hlength undoes_cfb iv cs

/-- Two calls across a block boundary, and any calls of the other side on another host. -/
theorem aesCfbDecrypt_aesCfbEncrypt_two_calls : ∃ ecx dcx t t' out,
    aesEncryptKey .littleEndian UInt8.ofNat 128 ⟨fun _ => 0, fun _ => 0⟩ = some ecx ∧
    aesEncryptKey .bigEndian UInt8.ofNat 128 ⟨fun _ => 1, fun _ => 1⟩ = some dcx ∧
    StreamMachine.calls (streamCall (aesCfbEncrypt .littleEndian)) (ecx, blockAt [7])
      [(true, List.replicate 20 1), (false, List.replicate 13 2)] = some (t, out) ∧
    StreamMachine.calls (streamCall (aesCfbDecrypt .bigEndian)) (dcx, blockAt [7]) [(false, out)] =
      some (t', List.replicate 20 1 ++ List.replicate 13 2) := by
  obtain ⟨ecx, dcx, ecx', iv', out, hecx, hdcx, hcalls, hback⟩ :=
    aesCfbDecrypt_aesCfbEncrypt .littleEndian .bigEndian UInt8.ofNat ⟨fun _ => 0, fun _ => 0⟩
      ⟨fun _ => 1, fun _ => 1⟩ (⟨by decide, by decide⟩ : KeyLength 128 4) (blockAt [7])
      [(true, List.replicate 20 1), (false, List.replicate 13 2)]
  obtain ⟨dcx', -, hread⟩ := hback [(false, out)] (List.append_nil out)
  exact ⟨ecx, dcx, _, _, out, hecx, hdcx, hcalls, hread⟩

/-- Output feedback decrypts with the function that encrypts. -/
theorem aesOfbCrypt_aesOfbCrypt (host host' : ByteOrder) (key : KeyPointer)
    (memory memory' : KeyState) {keyLen : ℤ} {nk : ℕ} (hlength : KeyLength keyLen nk) (iv : Block)
    (cs : List (Bool × Bytes)) :
    ∃ ecx dcx ecx' iv' out, aesEncryptKey host key keyLen memory = some ecx ∧
      aesEncryptKey host' key keyLen memory' = some dcx ∧
      StreamMachine.calls (streamCall (aesOfbCrypt host)) (ecx, iv) cs =
        some ((ecx', iv'), out) ∧
      ∀ cs', cs'.flatMap Prod.snd = out → ∃ dcx', dcx'.infB2 = ecx'.infB2 ∧
        StreamMachine.calls (streamCall (aesOfbCrypt host')) (dcx, iv) cs' =
          some ((dcx', iv'), cs.flatMap Prod.snd) :=
  calls_undoes hlength undoes_ofb iv cs

/-- Two calls across a block boundary, and any calls of the other side on another host. -/
theorem aesOfbCrypt_aesOfbCrypt_two_calls : ∃ ecx dcx t t' out,
    aesEncryptKey .littleEndian UInt8.ofNat 24 ⟨fun _ => 0, fun _ => 0⟩ = some ecx ∧
    aesEncryptKey .bigEndian UInt8.ofNat 24 ⟨fun _ => 1, fun _ => 1⟩ = some dcx ∧
    StreamMachine.calls (streamCall (aesOfbCrypt .littleEndian)) (ecx, blockAt [7])
      [(true, List.replicate 20 1), (false, List.replicate 13 2)] = some (t, out) ∧
    StreamMachine.calls (streamCall (aesOfbCrypt .bigEndian)) (dcx, blockAt [7]) [(false, out)] =
      some (t', List.replicate 20 1 ++ List.replicate 13 2) := by
  obtain ⟨ecx, dcx, ecx', iv', out, hecx, hdcx, hcalls, hback⟩ :=
    aesOfbCrypt_aesOfbCrypt .littleEndian .bigEndian UInt8.ofNat ⟨fun _ => 0, fun _ => 0⟩
      ⟨fun _ => 1, fun _ => 1⟩ (⟨by decide, by decide⟩ : KeyLength 24 6) (blockAt [7])
      [(true, List.replicate 20 1), (false, List.replicate 13 2)]
  obtain ⟨dcx', -, hread⟩ := hback [(false, out)] (List.append_nil out)
  exact ⟨ecx, dcx, _, _, out, hecx, hdcx, hcalls, hread⟩

/-! ## Whole blocks -/

/-- The loop over whole blocks: each turn reads the block at the front of `ibuf` and
gives the block that is written. -/
def blockLoop {σ : Type} (turn : σ → Block → Option (σ × Block)) :
    ℕ → σ → Bytes → Option (σ × Bytes)
  | 0, s, _ => some (s, [])
  | nb + 1, s, ibuf => do
    let (s, out) ← turn s (blockAt ibuf)
    let (s, obuf) ← blockLoop turn nb s (ibuf.drop 16)
    some (s, out.val ++ obuf)

/-- `aes_ecb_encrypt` -/
def aesEcbEncrypt (host : ByteOrder) (cx : Context) (ibuf : Bytes) : Option Bytes := do
  guard (ibuf.length % 16 = 0)
  let (_, obuf) ← blockLoop (fun (_ : Unit) x => (aesEncrypt host x cx).map fun y => ((), y))
    (ibuf.length / 16) () ibuf
  some obuf

/-- `aes_ecb_decrypt` -/
def aesEcbDecrypt (host : ByteOrder) (cx : Context) (ibuf : Bytes) : Option Bytes := do
  guard (ibuf.length % 16 = 0)
  let (_, obuf) ← blockLoop (fun (_ : Unit) x => (aesDecrypt host x cx).map fun y => ((), y))
    (ibuf.length / 16) () ibuf
  some obuf

/-- The block is added to `iv`, and the sum is encrypted in place. -/
def aesCbcEncrypt (host : ByteOrder) (aligned : Bool) (cx : Context) (iv : Block)
    (ibuf : Bytes) : Option (Block × Bytes) := do
  guard (ibuf.length % 16 = 0)
  blockLoop (fun iv x => (aesEncrypt host (combine host aligned iv x) cx).map fun y => (y, y))
    (ibuf.length / 16) iv ibuf

/-- The block is kept in `tmp`, which becomes the next `iv`. -/
def aesCbcDecrypt (host : ByteOrder) (aligned : Bool) (cx : Context) (iv : Block)
    (ibuf : Bytes) : Option (Block × Bytes) := do
  guard (ibuf.length % 16 = 0)
  blockLoop (fun iv x => (aesDecrypt host x cx).map fun y => (x, combine host aligned y iv))
    (ibuf.length / 16) iv ibuf

/-- The first blocks of a buffer. -/
def takeBlocks : ℕ → Bytes → List Block
  | 0, _ => []
  | nb + 1, ibuf => blockAt ibuf :: takeBlocks nb (ibuf.drop 16)

/-- The blocks of a buffer. -/
def blocksOf (ibuf : Bytes) : List Block := takeBlocks (ibuf.length / 16) ibuf

/-- The bytes of some blocks. -/
def bytesOf (blocks : List Block) : Bytes := blocks.flatMap Subtype.val

/-- The bytes of two lists of blocks. -/
theorem bytesOf_append (x y : List Block) : bytesOf (x ++ y) = bytesOf x ++ bytesOf y :=
  List.flatMap_append

/-- Blocks are known by their bytes. -/
theorem bytesOf_injective : Function.Injective bytesOf := by
  intro x y h
  induction x generalizing y with
  | nil =>
    cases y with
    | nil => rfl
    | cons b y =>
      have hlength := congrArg List.length h
      simp [bytesOf, b.property] at hlength
      omega
  | cons a x ih =>
    cases y with
    | nil =>
      have hlength := congrArg List.length h
      simp [bytesOf, a.property] at hlength
    | cons b y =>
      obtain ⟨hhead, htail⟩ := List.append_inj h (a.property.trans b.property.symm)
      rw [Subtype.ext hhead, ih htail]

/-- Blocks are taken from two texts one after the other. -/
theorem takeBlocks_append {nb : ℕ} {x : Bytes} (hx : x.length = 16 * nb) (nb' : ℕ) (y : Bytes) :
    takeBlocks (nb + nb') (x ++ y) = takeBlocks nb x ++ takeBlocks nb' y := by
  induction nb generalizing x with
  | zero =>
    obtain rfl := List.length_eq_zero_iff.mp hx
    rw [Nat.zero_add]
    rfl
  | succ nb ih =>
    have htake : (x.take 16).length = 16 := by rw [List.length_take]; omega
    have hfront : blockAt (x ++ y) = blockAt x := by
      apply Subtype.ext
      have hx' := blockAt_append htake (x.drop 16)
      have hxy := blockAt_append htake (x.drop 16 ++ y)
      rw [← List.append_assoc, List.take_append_drop] at hxy
      rw [List.take_append_drop] at hx'
      rw [hx', hxy]
    rw [Nat.add_right_comm, takeBlocks, takeBlocks, hfront,
      List.drop_append_of_le_length (by omega),
      ih (by rw [List.length_drop]; omega), List.cons_append]

/-- The blocks that are taken hold the bytes. -/
theorem bytesOf_takeBlocks {nb : ℕ} {x : Bytes} (hx : x.length = 16 * nb) :
    bytesOf (takeBlocks nb x) = x := by
  induction nb generalizing x with
  | zero => exact (List.length_eq_zero_iff.mp hx).symm
  | succ nb ih =>
    have htake : (x.take 16).length = 16 := by rw [List.length_take]; omega
    have hfront := blockAt_append htake (x.drop 16)
    rw [List.take_append_drop] at hfront
    have hrest := ih (x := x.drop 16) (by rw [List.length_drop]; omega)
    rw [takeBlocks, bytesOf, List.flatMap_cons, hfront]
    exact (congrArg _ hrest).trans (List.take_append_drop 16 x)

/-- The blocks of whole calls are the blocks of their texts together. -/
theorem blocksOf_flatMap {γ : Type} (buf : γ → Bytes) (cs : List γ)
    (hcs : ∀ c ∈ cs, (buf c).length % 16 = 0) :
    blocksOf (cs.flatMap buf) = cs.flatMap fun c => blocksOf (buf c) := by
  induction cs with
  | nil => simp [blocksOf, takeBlocks]
  | cons c cs ih =>
    have hc := hcs c List.mem_cons_self
    rw [List.flatMap_cons, List.flatMap_cons, ← ih fun c' hc' => hcs c' (List.mem_cons_of_mem _ hc'),
      blocksOf, blocksOf, blocksOf, List.length_append, ← takeBlocks_append (by omega)]
    congr 1
    omega

/-- Texts of whole blocks are together one of whole blocks. -/
theorem length_flatMap_mod {γ : Type} (buf : γ → Bytes) (cs : List γ)
    (hcs : ∀ c ∈ cs, (buf c).length % 16 = 0) : (cs.flatMap buf).length % 16 = 0 := by
  induction cs with
  | nil => rfl
  | cons c cs ih =>
    have hc := hcs c List.mem_cons_self
    have hrest := ih fun c' hc' => hcs c' (List.mem_cons_of_mem _ hc')
    rw [List.flatMap_cons, List.length_append]
    omega

/-- A text of whole blocks is the bytes of its blocks. -/
theorem bytesOf_blocksOf {x : Bytes} (hx : x.length % 16 = 0) : bytesOf (blocksOf x) = x :=
  bytesOf_takeBlocks (by omega)

section Blocks

variable {σ : Type}

/-- A loop over blocks runs the machine on them. -/
theorem blockLoop_run (M : StreamMachine σ Block Block)
    {turn : σ → Block → Option (σ × Block)} (hturn : ∀ s x, turn s x = some (M.step s x)) (nb : ℕ)
    (s : σ) (ibuf : Bytes) :
    blockLoop turn nb s ibuf = some ((M.run s (takeBlocks nb ibuf)).1,
      bytesOf (M.run s (takeBlocks nb ibuf)).2) := by
  induction nb generalizing s ibuf with
  | zero => rfl
  | succ nb ih =>
    simp only [blockLoop, hturn, Option.bind_eq_bind, Option.bind_some, ih]
    rfl

/-- A function that computes a machine on the blocks of a buffer, where the buffer is
of whole blocks. -/
def Computes {γ : Type} (M : StreamMachine σ Block Block) (f : σ → γ → Option (σ × Bytes))
    (buf : γ → Bytes) : Prop :=
  ∀ s c, (buf c).length % 16 = 0 →
    f s c = some ((M.run s (blocksOf (buf c))).1, bytesOf (M.run s (blocksOf (buf c))).2)

/-- Calls that compute a machine run it on their texts together. -/
theorem Computes.calls {γ : Type} {M : StreamMachine σ Block Block}
    {f : σ → γ → Option (σ × Bytes)} {buf : γ → Bytes} (h : Computes M f buf) (s : σ)
    (cs : List γ) (hcs : ∀ c ∈ cs, (buf c).length % 16 = 0) :
    StreamMachine.calls f s cs = some ((M.run s (blocksOf (cs.flatMap buf))).1,
      bytesOf (M.run s (blocksOf (cs.flatMap buf))).2) := by
  rw [blocksOf_flatMap buf cs hcs]
  obtain ⟨t, hcalls, rfl⟩ := M.calls_run (f := f) (fun c => blocksOf (buf c)) bytesOf
    (fun c => (buf c).length % 16 = 0) (R := Eq) rfl bytesOf_append
    (fun t s c hc hts => ⟨_, by rw [hts]; exact h s c hc, rfl⟩) rfl cs hcs
  exact hcalls

/-- What one function writes in some calls the other reads back in any calls. -/
theorem Computes.undoes {γ γ' : Type} {M D : StreamMachine σ Block Block}
    {f : σ → γ → Option (σ × Bytes)} {buf : γ → Bytes} {f' : σ → γ' → Option (σ × Bytes)}
    {buf' : γ' → Bytes} (hM : Computes M f buf) (hD : Computes D f' buf') (hundoes : M.Undoes D Eq)
    (s : σ) (cs : List γ) (hcs : ∀ c ∈ cs, (buf c).length % 16 = 0) :
    ∃ s' out, StreamMachine.calls f s cs = some (s', out) ∧
      ∀ cs', (∀ c ∈ cs', (buf' c).length % 16 = 0) → cs'.flatMap buf' = out →
        StreamMachine.calls f' s cs' = some (s', cs.flatMap buf) := by
  refine ⟨_, _, hM.calls s cs hcs, fun cs' hcs' hout => ?_⟩
  obtain ⟨hread, hstate⟩ := hundoes.run (s := s) rfl (blocksOf (cs.flatMap buf))
  have hblocks : blocksOf (cs'.flatMap buf') = (M.run s (blocksOf (cs.flatMap buf))).2 :=
    bytesOf_injective ((bytesOf_blocksOf (length_flatMap_mod buf' cs' hcs')).trans hout)
  rw [hD.calls s cs' hcs', hblocks, hread, ← hstate,
    bytesOf_blocksOf (length_flatMap_mod buf cs hcs)]

end Blocks

/-- The block that a context decrypts a block to. -/
def Context.decryptBlock (host : ByteOrder) (cx : Context) (x : Block) : Block :=
  (aesDecrypt host x cx).getD x

/-- A context that is ready decrypts every block. -/
theorem Context.Ready.aesDecrypt {cx : Context} (h : cx.Ready) (host : ByteOrder) (x : Block) :
    aesDecrypt host x cx = some (cx.decryptBlock host x) := by
  have hsome : (San2.Aes.aesDecrypt host x cx).isSome := by
    rw [San2.Aes.aesDecrypt]
    simp only [apply_ite Option.isSome, Option.isSome_some, Option.isSome_none]
    rcases h with h | h | h
    · rw [if_pos h]
    · rw [if_pos h, ite_self]
    · rw [if_pos h, ite_self, ite_self]
  obtain ⟨y, hy⟩ := Option.isSome_iff_exists.mp hsome
  rw [decryptBlock, hy, Option.getD_some]

/-- A context for decryption is ready. -/
theorem Context.Decrypts.ready {host : ByteOrder} {nk : ℕ} {key : ℕ → Rijndael.Column Element}
    {cx : Context} (h : cx.Decrypts host nk key) : cx.Ready := by
  rw [Context.Ready, h.infB0]
  obtain rfl | rfl | rfl := h.size
  · exact Or.inr (Or.inr rfl)
  · exact Or.inr (Or.inl rfl)
  · exact Or.inl rfl

/-- A decryption context inverts an encryption context of the same key. -/
theorem decryptBlock_encryptBlock {host host' : ByteOrder} {nk : ℕ}
    {key : ℕ → Rijndael.Column Element} {ecx dcx : Context} (henc : ecx.Encrypts host nk key)
    (hdec : dcx.Decrypts host' nk key) (x : Block) :
    dcx.decryptBlock host' (ecx.encryptBlock host x) = x := by
  have hx := henc.ready.aesEncrypt host x
  have hy := hdec.ready.aesDecrypt host' (ecx.encryptBlock host x)
  rw [aesEncrypt_eq_some_iff henc] at hx
  rw [aesDecrypt_eq_some_iff hdec, hx] at hy
  have hstate := congrArg (standard.invCipher nk key) hy
  rw [standard.invCipher_cipher, standard.invCipher_cipher] at hstate
  exact (blockState_injective hstate).symm

/-- Each block by itself. -/
def ecbMachine (E : Block → Block) : StreamMachine Unit Block Block := ⟨fun _ x => ((), E x)⟩

/-- A call that keeps no state. -/
def ecbCall (f : Bytes → Option Bytes) (_ : Unit) (ibuf : Bytes) : Option (Unit × Bytes) :=
  (f ibuf).map fun obuf => ((), obuf)

/-- `aes_ecb_encrypt` computes its machine. -/
theorem aesEcbEncrypt_computes {cx : Context} (hready : cx.Ready) (host : ByteOrder) :
    Computes (ecbMachine (cx.encryptBlock host)) (ecbCall (aesEcbEncrypt host cx)) id := by
  rintro ⟨⟩ ibuf hmod
  change ibuf.length % 16 = 0 at hmod
  have hloop := blockLoop_run (ecbMachine (cx.encryptBlock host)) (fun _ _ => rfl)
    (ibuf.length / 16) () ibuf
  simp only [ecbMachine] at hloop
  simp only [ecbCall, aesEcbEncrypt, hmod, guard_true, hready.aesEncrypt, Option.map_some, hloop]
  rfl

/-- `aes_ecb_decrypt` computes its machine. -/
theorem aesEcbDecrypt_computes {cx : Context} (hready : cx.Ready) (host : ByteOrder) :
    Computes (ecbMachine (cx.decryptBlock host)) (ecbCall (aesEcbDecrypt host cx)) id := by
  rintro ⟨⟩ ibuf hmod
  change ibuf.length % 16 = 0 at hmod
  have hloop := blockLoop_run (ecbMachine (cx.decryptBlock host)) (fun _ _ => rfl)
    (ibuf.length / 16) () ibuf
  simp only [ecbMachine] at hloop
  simp only [ecbCall, aesEcbDecrypt, hmod, guard_true, hready.aesDecrypt, Option.map_some, hloop]
  rfl

/-- Each block is undone by itself. -/
theorem undoes_ecb {E D : Block → Block} (h : ∀ x, D (E x) = x) :
    (ecbMachine E).Undoes (ecbMachine D) Eq :=
  ⟨fun _ _ x _ => h x, fun _ _ _ _ => rfl⟩

/-- Electronic codebook: a text of whole blocks that one side encrypts in any calls
the other side decrypts in any calls. -/
theorem aesEcbDecrypt_aesEcbEncrypt (host host' : ByteOrder) (key : KeyPointer)
    (memory memory' : KeyState) {keyLen : ℤ} {nk : ℕ} (hlength : KeyLength keyLen nk)
    (cs : List Bytes) (hcs : ∀ c ∈ cs, c.length % 16 = 0) :
    ∃ ecx dcx out, aesEncryptKey host key keyLen memory = some ecx ∧
      aesDecryptKey host' key keyLen memory' = some dcx ∧
      StreamMachine.calls (ecbCall (aesEcbEncrypt host ecx)) () cs = some ((), out) ∧
      ∀ cs' : List Bytes, (∀ c ∈ cs', c.length % 16 = 0) → cs'.flatten = out →
        StreamMachine.calls (ecbCall (aesEcbDecrypt host' dcx)) () cs' =
          some ((), cs.flatten) := by
  obtain ⟨ecx, hecx, hencrypts⟩ := aesEncryptKey_encrypts host key memory hlength
  obtain ⟨dcx, hdcx, hdecrypts⟩ := aesDecryptKey_decrypts host' key memory' hlength
  obtain ⟨⟨⟩, out, hcalls, hback⟩ := (aesEcbEncrypt_computes hencrypts.ready host).undoes
    (aesEcbDecrypt_computes hdecrypts.ready host')
    (undoes_ecb (decryptBlock_encryptBlock hencrypts hdecrypts)) () cs hcs
  simp only [List.flatMap_id] at hback
  exact ⟨ecx, dcx, out, hecx, hdcx, hcalls, hback⟩

/-- Two calls of two blocks and one, and any calls of the other side. -/
theorem aesEcbDecrypt_aesEcbEncrypt_two_calls : ∃ ecx dcx out,
    aesEncryptKey .bigEndian UInt8.ofNat 32 ⟨fun _ => 0, fun _ => 0⟩ = some ecx ∧
    aesDecryptKey .littleEndian UInt8.ofNat 32 ⟨fun _ => 1, fun _ => 1⟩ = some dcx ∧
    StreamMachine.calls (ecbCall (aesEcbEncrypt .bigEndian ecx)) ()
      [List.replicate 32 1, List.replicate 16 2] = some ((), out) ∧
    ∀ cs' : List Bytes, (∀ c ∈ cs', c.length % 16 = 0) → cs'.flatten = out →
      StreamMachine.calls (ecbCall (aesEcbDecrypt .littleEndian dcx)) () cs' =
        some ((), List.replicate 32 1 ++ List.replicate 16 2) :=
  aesEcbDecrypt_aesEcbEncrypt .bigEndian .littleEndian UInt8.ofNat ⟨fun _ => 0, fun _ => 0⟩
    ⟨fun _ => 1, fun _ => 1⟩ (⟨by decide, by decide⟩ : KeyLength 32 8)
    [List.replicate 32 1, List.replicate 16 2] (by decide)

/-- Each block is combined with the ciphertext before it and encrypted. -/
def cbcEncryptMachine (E : Block → Block) : StreamMachine Block Block Block :=
  ⟨fun iv x => (E (xorBlock iv x), E (xorBlock iv x))⟩

/-- Each block is decrypted and combined with the ciphertext before it. -/
def cbcDecryptMachine (D : Block → Block) : StreamMachine Block Block Block :=
  ⟨fun iv x => (x, xorBlock (D x) iv)⟩

/-- A block that is combined twice drops out. -/
theorem xorBlock_xorBlock (x y : Block) : xorBlock (xorBlock x y) x = y := by
  apply Subtype.ext
  have hlength : y.val.length ≤ x.val.length := (y.property.trans x.property.symm).le
  change CounterMode.xorBytes (CounterMode.xorBytes x.val y.val) x.val = y.val
  rw [CounterMode.xorBytes_comm x.val, CounterMode.xorBytes_xorBytes hlength]

/-- Chaining is undone, since both sides have the ciphertext before. -/
theorem undoes_cbc {E D : Block → Block} (h : ∀ x, D (E x) = x) :
    (cbcEncryptMachine E).Undoes (cbcDecryptMachine D) Eq := by
  constructor
  · rintro iv _ x rfl
    change xorBlock (D (E (xorBlock iv x))) iv = x
    rw [h, xorBlock_xorBlock]
  · rintro iv _ x rfl
    rfl

/-- `aes_cbc_encrypt` computes its machine, for any alignment. -/
theorem aesCbcEncrypt_computes {cx : Context} (hready : cx.Ready) (host : ByteOrder) :
    Computes (cbcEncryptMachine (cx.encryptBlock host))
      (fun iv (c : Bool × Bytes) => aesCbcEncrypt host c.1 cx iv c.2) Prod.snd := by
  rintro iv ⟨aligned, ibuf⟩ hmod
  simp only [aesCbcEncrypt, hmod, guard_true, combine_eq, hready.aesEncrypt, Option.map_some]
  exact blockLoop_run (cbcEncryptMachine (cx.encryptBlock host)) (fun _ _ => rfl) _ iv ibuf

/-- `aes_cbc_decrypt` computes its machine, for any alignment. -/
theorem aesCbcDecrypt_computes {cx : Context} (hready : cx.Ready) (host : ByteOrder) :
    Computes (cbcDecryptMachine (cx.decryptBlock host))
      (fun iv (c : Bool × Bytes) => aesCbcDecrypt host c.1 cx iv c.2) Prod.snd := by
  rintro iv ⟨aligned, ibuf⟩ hmod
  simp only [aesCbcDecrypt, hmod, guard_true, combine_eq, hready.aesDecrypt, Option.map_some]
  exact blockLoop_run (cbcDecryptMachine (cx.decryptBlock host)) (fun _ _ => rfl) _ iv ibuf

/-- Cipher block chaining: a text of whole blocks that one side encrypts in any calls
the other side decrypts in any calls, and both end with the same `iv`. -/
theorem aesCbcDecrypt_aesCbcEncrypt (host host' : ByteOrder) (key : KeyPointer)
    (memory memory' : KeyState) {keyLen : ℤ} {nk : ℕ} (hlength : KeyLength keyLen nk) (iv : Block)
    (cs : List (Bool × Bytes)) (hcs : ∀ c ∈ cs, c.2.length % 16 = 0) :
    ∃ ecx dcx iv' out, aesEncryptKey host key keyLen memory = some ecx ∧
      aesDecryptKey host' key keyLen memory' = some dcx ∧
      StreamMachine.calls (fun iv c => aesCbcEncrypt host c.1 ecx iv c.2) iv cs =
        some (iv', out) ∧
      ∀ cs' : List (Bool × Bytes), (∀ c ∈ cs', c.2.length % 16 = 0) → cs'.flatMap Prod.snd = out →
        StreamMachine.calls (fun iv c => aesCbcDecrypt host' c.1 dcx iv c.2) iv cs' =
          some (iv', cs.flatMap Prod.snd) := by
  obtain ⟨ecx, hecx, hencrypts⟩ := aesEncryptKey_encrypts host key memory hlength
  obtain ⟨dcx, hdcx, hdecrypts⟩ := aesDecryptKey_decrypts host' key memory' hlength
  obtain ⟨iv', out, hcalls, hback⟩ := (aesCbcEncrypt_computes hencrypts.ready host).undoes
    (aesCbcDecrypt_computes hdecrypts.ready host')
    (undoes_cbc (decryptBlock_encryptBlock hencrypts hdecrypts)) iv cs hcs
  exact ⟨ecx, dcx, iv', out, hecx, hdcx, hcalls, hback⟩

/-- Two calls with different alignments, and any calls of the other side. -/
theorem aesCbcDecrypt_aesCbcEncrypt_two_calls : ∃ ecx dcx iv' out,
    aesEncryptKey .bigEndian UInt8.ofNat 256 ⟨fun _ => 0, fun _ => 0⟩ = some ecx ∧
    aesDecryptKey .littleEndian UInt8.ofNat 256 ⟨fun _ => 1, fun _ => 1⟩ = some dcx ∧
    StreamMachine.calls (fun iv c => aesCbcEncrypt .bigEndian c.1 ecx iv c.2) (blockAt [7])
      [(true, List.replicate 32 1), (false, List.replicate 16 2)] = some (iv', out) ∧
    ∀ cs' : List (Bool × Bytes), (∀ c ∈ cs', c.2.length % 16 = 0) → cs'.flatMap Prod.snd = out →
      StreamMachine.calls (fun iv c => aesCbcDecrypt .littleEndian c.1 dcx iv c.2) (blockAt [7]) cs' =
        some (iv', List.replicate 32 1 ++ List.replicate 16 2) :=
  aesCbcDecrypt_aesCbcEncrypt .bigEndian .littleEndian UInt8.ofNat ⟨fun _ => 0, fun _ => 0⟩
    ⟨fun _ => 1, fun _ => 1⟩ (⟨by decide, by decide⟩ : KeyLength 256 8) (blockAt [7])
    [(true, List.replicate 32 1), (false, List.replicate 16 2)] (by decide)

end San2.Aes
