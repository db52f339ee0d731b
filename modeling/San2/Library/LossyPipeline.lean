import Mathlib.Data.List.Flatten
import Mathlib.Logic.Relation

/-!
# Queues in a row that may lose items

Items enter the last of some queues, pass from each queue to the one in front of it, and
leave nowhere else than at the first one. A queue may lose any of its items, and never
changes their order. What has come to the first queue is then a subsequence of what has
entered the last one: nothing is created, doubled or overtaken.
-/

variable {α : Type*}

/-- The queues, the exit first, and everything that has entered. -/
structure LossyPipeline (α : Type*) where
  stages : List (List α)
  entered : List α

namespace LossyPipeline

/-- Items enter at the last stage, are passed on, and may be lost anywhere. -/
inductive Step : LossyPipeline α → LossyPipeline α → Prop
  | enter (front : List (List α)) (last entered : List α) (x : α) :
      Step ⟨front ++ [last], entered⟩ ⟨front ++ [last ++ [x]], entered ++ [x]⟩
  | pass (front later : List (List α)) (into rest entered : List α) (x : α) :
      Step ⟨front ++ into :: (x :: rest) :: later, entered⟩
        ⟨front ++ (into ++ [x]) :: rest :: later, entered⟩
  | lose (front later : List (List α)) (stage entered : List α) {kept : List α}
      (h : kept.Sublist stage) :
      Step ⟨front ++ stage :: later, entered⟩ ⟨front ++ kept :: later, entered⟩

/-- One pipeline becomes the other in some steps. -/
abbrev Reaches : LossyPipeline α → LossyPipeline α → Prop := Relation.ReflTransGen Step

/-- What is in the pipeline has entered, in this order. -/
def InOrder (p : LossyPipeline α) : Prop := p.stages.flatten.Sublist p.entered

/-- Every step keeps the items in order. -/
theorem InOrder.step {p p' : LossyPipeline α} (h : p.InOrder) (hstep : Step p p') :
    p'.InOrder := by
  unfold InOrder at h ⊢
  cases hstep with
  | enter front last entered x =>
    have hnext := h.append_right [x]
    simpa using hnext
  | pass front later into rest entered x => simpa using h
  | lose front later stage entered hkept =>
    refine List.Sublist.trans ?_ h
    simp only [List.flatten_append, List.flatten_cons]
    exact (hkept.append_right _).append_left _

/-- No sequence of steps brings items out of their order. -/
theorem InOrder.reaches {p p' : LossyPipeline α} (h : p.InOrder) (hreaches : Reaches p p') :
    p'.InOrder := by
  induction hreaches with
  | refl => exact h
  | tail _ hstep ih => exact ih.step hstep

/-- What has come to the first queue is a subsequence of what has entered. -/
theorem InOrder.exit {out entered : List α} {later : List (List α)}
    (h : (LossyPipeline.mk (out :: later) entered).InOrder) : out.Sublist entered := by
  unfold InOrder at h
  rw [List.flatten_cons] at h
  exact (List.sublist_append_left out later.flatten).trans h

/-- Several items enter one after the other. -/
theorem Reaches.enter (front : List (List α)) (last entered items : List α) :
    Reaches ⟨front ++ [last], entered⟩ ⟨front ++ [last ++ items], entered ++ items⟩ := by
  induction items generalizing last entered with
  | nil =>
    rw [List.append_nil, List.append_nil]
  | cons x items ih =>
    have hrest := ih (last ++ [x]) (entered ++ [x])
    rw [List.append_assoc, List.append_assoc, List.singleton_append] at hrest
    exact .head (.enter front last entered x) hrest

/-- Several items are passed on to the next stage. -/
theorem Reaches.pass (front later : List (List α)) (into items rest entered : List α) :
    Reaches ⟨front ++ into :: (items ++ rest) :: later, entered⟩
      ⟨front ++ (into ++ items) :: rest :: later, entered⟩ := by
  induction items generalizing into with
  | nil =>
    rw [List.nil_append, List.append_nil]
  | cons x items ih =>
    have hrest := ih (into ++ [x])
    rw [List.append_assoc, List.singleton_append] at hrest
    exact .head (.pass front later into (items ++ rest) entered x) hrest

/-- A stage may lose all but a subsequence of its items. -/
theorem Reaches.lose (front later : List (List α)) (stage entered : List α) {kept : List α}
    (h : kept.Sublist stage) :
    Reaches ⟨front ++ stage :: later, entered⟩ ⟨front ++ kept :: later, entered⟩ :=
  .single (.lose front later stage entered h)

end LossyPipeline
