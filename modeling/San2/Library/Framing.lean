import Mathlib.Data.List.Infix

/-!
# Framed streams

A framing turns messages into strings of symbols that can be cut out of a
stream again. Two laws make it one: a whole frame is decoded no matter what
follows it, and a proper prefix of a frame is not decoded at all. From them a
stream of frames, cut anywhere, yields exactly the messages whose frames it
holds completely.
-/

/-- A framing of the messages that satisfy `valid`. -/
structure Framing (α β : Type*) where
  valid : α → Prop
  encode : α → List β
  /-- The first message of a stream and what follows its frame. -/
  decode : List β → Option (α × List β)
  decode_encode : ∀ {a}, valid a → ∀ rest, decode (encode a ++ rest) = some (a, rest)
  decode_prefix : ∀ {a}, valid a → ∀ {p}, p <+: encode a → p ≠ encode a → decode p = none

namespace Framing

variable {α β : Type*} (f : Framing α β)

/-- The stream that carries the given messages. -/
def encodeAll (messages : List α) : List β := messages.flatMap f.encode

/-- No message, no bytes. -/
@[simp] theorem encodeAll_nil : f.encodeAll [] = [] := rfl

/-- The first message comes first. -/
@[simp] theorem encodeAll_cons (a : α) (messages : List α) :
    f.encodeAll (a :: messages) = f.encode a ++ f.encodeAll messages := rfl

/-- The first `n` messages of a stream and what follows them. -/
def decodeMany : ℕ → List β → Option (List α × List β)
  | 0, stream => some ([], stream)
  | n + 1, stream => do
    let (a, rest) ← f.decode stream
    let (messages, rest) ← decodeMany n rest
    return (a :: messages, rest)

/-- A stream that carries messages is decoded into exactly these messages. -/
theorem decodeMany_encodeAll {messages : List α} (h : ∀ a ∈ messages, f.valid a)
    (rest : List β) :
    f.decodeMany messages.length (f.encodeAll messages ++ rest) = some (messages, rest) := by
  induction messages with
  | nil => rfl
  | cons a messages ih =>
    have hfirst := f.decode_encode (h a List.mem_cons_self) (f.encodeAll messages ++ rest)
    have hrest := ih fun b hb => h b (List.mem_cons_of_mem a hb)
    simp only [List.length_cons, decodeMany, encodeAll_cons, List.append_assoc, hfirst,
      Option.bind_eq_bind, Option.bind_some, hrest]
    rfl

/-- A stream cut anywhere consists of the whole frames in front of the cut and a
proper prefix of the next frame. -/
theorem exists_cut {messages : List α} {stream : List β} (h : stream <+: f.encodeAll messages) :
    stream = f.encodeAll messages ∨
      ∃ whole a later part, messages = whole ++ a :: later ∧
        stream = f.encodeAll whole ++ part ∧ part <+: f.encode a ∧ part ≠ f.encode a := by
  induction messages generalizing stream with
  | nil =>
    left
    exact List.prefix_nil.mp h
  | cons a messages ih =>
    rw [encodeAll_cons] at h
    by_cases hlen : stream.length < (f.encode a).length
    · -- The cut is inside the first frame.
      right
      have hprefix : stream <+: f.encode a :=
        List.prefix_of_prefix_length_le h (List.prefix_append _ _) hlen.le
      have hne : stream ≠ f.encode a := by
        intro heq
        rw [heq] at hlen
        exact absurd hlen (lt_irrefl _)
      exact ⟨[], a, messages, stream, rfl, rfl, hprefix, hne⟩
    · -- The first frame is whole, and the cut is in what follows it.
      obtain ⟨rest, rfl⟩ :=
        List.prefix_of_prefix_length_le (List.prefix_append _ _) h (not_lt.mp hlen)
      have hrest : rest <+: f.encodeAll messages := (List.prefix_append_right_inj _).mp h
      rcases ih hrest with rfl | ⟨whole, b, later, part, rfl, rfl, hpart, hne⟩
      · left
        rfl
      · right
        exact ⟨a :: whole, b, later, part, rfl, by simp, hpart, hne⟩

/-- The stream holds the frames of the first `n` messages and then a proper part of the
next frame, or nothing. -/
def CutAt (messages : List α) (stream : List β) (n : ℕ) (rest : List β) : Prop :=
  n ≤ messages.length ∧ stream = f.encodeAll (messages.take n) ++ rest ∧
    ∀ a, messages[n]? = some a → rest <+: f.encode a ∧ rest ≠ f.encode a

/-- From a stream cut anywhere the decoder gets exactly the messages whose frames
are whole, and then nothing. -/
theorem decodeMany_prefix {messages : List α} (h : ∀ a ∈ messages, f.valid a)
    (hnil : f.decode [] = none) {stream : List β} (hstream : stream <+: f.encodeAll messages) :
    ∃ n rest, f.CutAt messages stream n rest ∧
      f.decodeMany n stream = some (messages.take n, rest) ∧
      f.decode rest = none ∧ (stream = f.encodeAll messages → n = messages.length) := by
  by_cases hall : stream = f.encodeAll messages
  · refine ⟨messages.length, [], ⟨le_rfl, ?_, ?_⟩, ?_, hnil, fun _ => rfl⟩
    · rw [hall, List.take_length, List.append_nil]
    · intro a ha
      rw [List.getElem?_eq_none le_rfl] at ha
      cases ha
    · have hdecode := f.decodeMany_encodeAll h []
      rw [List.append_nil] at hdecode
      rw [hall, List.take_length, hdecode]
  · rcases f.exists_cut hstream with rfl | ⟨whole, a, later, part, rfl, rfl, hpart, hne⟩
    · exact absurd rfl hall
    · have htake : (whole ++ a :: later).take whole.length = whole := List.take_left' rfl
      refine ⟨whole.length, part, ⟨by simp, by rw [htake], ?_⟩, ?_, ?_,
        fun heq => absurd heq hall⟩
      · intro b hb
        rw [List.getElem?_append_right le_rfl, Nat.sub_self] at hb
        obtain rfl := Option.some.inj hb
        exact ⟨hpart, hne⟩
      · rw [htake]
        exact f.decodeMany_encodeAll (fun b hb => h b (List.mem_append_left _ hb)) part
      · exact f.decode_prefix (h a (by simp)) hpart hne

variable {dud : List β → Prop}

/-- A stream of whole frames. Where it is not live nothing more will follow, and then
it may end in something that is no message. -/
inductive Carries (f : Framing α β) (dud : List β → Prop) : Bool → List β → List α → Prop
  | nil (live : Bool) : Carries f dud live [] []
  | dud {stream : List β} (h : dud stream) : Carries f dud false stream []
  | cons {live : Bool} {a : α} {stream : List β} {messages : List α} (ha : f.valid a)
      (h : Carries f dud live stream messages) :
      Carries f dud live (f.encode a ++ stream) (a :: messages)

/-- What follows a live stream carries its messages after those of the stream. -/
theorem Carries.append {live : Bool} {stream later : List β} {messages more : List α}
    (h : f.Carries dud true stream messages) (hlater : f.Carries dud live later more) :
    f.Carries dud live (stream ++ later) (messages ++ more) := by
  generalize hlive : true = first at h
  induction h with
  | nil _ => exact hlater
  | dud _ => exact absurd hlive (by simp)
  | cons ha _ ih =>
    rw [List.append_assoc]
    exact .cons ha (ih hlive)

/-- A stream may end at any whole frame. -/
theorem Carries.seal {live : Bool} {stream : List β} {messages : List α}
    (h : f.Carries dud true stream messages) : f.Carries dud live stream messages := by
  have hseal := h.append f (.nil live)
  rwa [List.append_nil, List.append_nil] at hseal

/-- The part of a frame with which a stream ends is the whole frame or no message. -/
theorem carries_part {a : α} (ha : f.valid a)
    (hdud : ∀ part, (∀ p, p <+: part → f.decode p = none) → dud part) {part : List β}
    (hpart : part <+: f.encode a) :
    f.Carries dud false part [] ∨ part = f.encode a ∧ f.Carries dud false part [a] := by
  by_cases hall : part = f.encode a
  · right
    have hwhole : f.Carries dud false (f.encode a ++ []) [a] := .cons ha (.nil false)
    rw [List.append_nil, ← hall] at hwhole
    exact ⟨hall, hwhole⟩
  · left
    refine .dud (hdud part fun p hp => f.decode_prefix ha (hp.trans hpart) ?_)
    rintro rfl
    exact hall (hpart.eq_of_length (le_antisymm hpart.length_le hp.length_le))

/-- What has arrived of a stream begins with the next message of the stream or is not decoded,
as long as the stream holds messages. -/
theorem Carries.arrive {live : Bool} {arrived later : List β} {messages : List α}
    (hnil : f.decode [] = none) (h : f.Carries dud live (arrived ++ later) messages) :
    f.decode arrived = none ∨ (live = false ∧ messages = [] ∧ dud (arrived ++ later)) ∨
      ∃ a rest messages', messages = a :: messages' ∧ f.valid a ∧
        arrived = f.encode a ++ rest ∧ f.Carries dud live (rest ++ later) messages' := by
  generalize hstream : arrived ++ later = stream at h
  cases h with
  | nil _ =>
    left
    rw [(List.append_eq_nil_iff.mp hstream).1]
    exact hnil
  | dud hdud => exact Or.inr (Or.inl ⟨rfl, rfl, hdud⟩)
  | @cons _ a stream' messages' ha h =>
    rcases List.append_eq_append_iff.mp hstream with ⟨x, hencode, hlater⟩ | ⟨x, harrived, hstream'⟩
    · by_cases hx : x = []
      · -- The frame is whole, and nothing has arrived behind it.
        rw [hx, List.append_nil] at hencode
        have hwhole : arrived = f.encode a ++ [] := by rw [List.append_nil, hencode]
        refine Or.inr (Or.inr ⟨a, [], messages', rfl, ha, hwhole, ?_⟩)
        rw [List.nil_append, hlater, hx]
        exact h
      · left
        refine f.decode_prefix ha ⟨x, hencode.symm⟩ ?_
        intro hall
        rw [hall] at hencode
        exact hx (List.self_eq_append_right.mp hencode)
    · refine Or.inr (Or.inr ⟨a, x, messages', rfl, ha, harrived, ?_⟩)
      rw [← hstream']
      exact h

end Framing
