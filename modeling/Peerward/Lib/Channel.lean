import Mathlib

/-!
# Reliable channels with their history

A pipe or a stream that loses and reorders nothing is everything that was ever put into it, oldest
first, and how much of that was taken out. What the reader has is a prefix of what the writer wrote.
-/

namespace Peerward.Lib

variable {α : Type}

structure Channel (α : Type) where
  sent : List α
  taken : Nat
  bounded : taken ≤ sent.length

namespace Channel

def empty : Channel α := ⟨[], 0, Nat.le_refl _⟩

/-- What waits to be taken. -/
def queue (channel : Channel α) : List α := channel.sent.drop channel.taken

/-- What was taken. -/
def received (channel : Channel α) : List α := channel.sent.take channel.taken

def put (channel : Channel α) (items : List α) : Channel α where
  sent := channel.sent ++ items
  taken := channel.taken
  bounded := Nat.le_trans channel.bounded (by rw [List.length_append]; exact Nat.le_add_right _ _)

/-- Takes up to `count` items. -/
def take (channel : Channel α) (count : Nat) : Channel α where
  sent := channel.sent
  taken := min (channel.taken + count) channel.sent.length
  bounded := Nat.min_le_right _ _

variable (channel : Channel α) (items : List α) (count : Nat)

@[simp] theorem sent_put : (channel.put items).sent = channel.sent ++ items := rfl

@[simp] theorem taken_put : (channel.put items).taken = channel.taken := rfl

@[simp] theorem sent_take : (channel.take count).sent = channel.sent := rfl

@[simp] theorem sent_empty : (empty : Channel α).sent = [] := rfl

@[simp] theorem received_empty : (empty : Channel α).received = [] := rfl

@[simp] theorem queue_empty : (empty : Channel α).queue = [] := rfl

theorem received_append_queue : channel.received ++ channel.queue = channel.sent :=
  List.take_append_drop _ _

theorem received_initial : channel.received <+: channel.sent := List.take_prefix _ _

@[simp] theorem received_put : (channel.put items).received = channel.received :=
  List.take_append_of_le_length channel.bounded

@[simp] theorem queue_put : (channel.put items).queue = channel.queue ++ items :=
  List.drop_append_of_le_length channel.bounded

@[simp] theorem queue_take : (channel.take count).queue = channel.queue.drop count := by
  show channel.sent.drop (min (channel.taken + count) channel.sent.length) = _
  rw [queue, List.drop_drop]
  rcases Nat.le_total (channel.taken + count) channel.sent.length with h | h
  · rw [Nat.min_eq_left h]
  · rw [Nat.min_eq_right h, List.drop_length, List.drop_of_length_le h]

@[simp] theorem received_take :
    (channel.take count).received = channel.received ++ channel.queue.take count := by
  have h : (channel.take count).received ++ (channel.take count).queue =
      channel.received ++ channel.queue.take count ++ (channel.take count).queue := by
    rw [received_append_queue, queue_take, List.append_assoc, List.take_append_drop,
      received_append_queue, sent_take]
  exact List.append_cancel_right h

end Channel

end Peerward.Lib
