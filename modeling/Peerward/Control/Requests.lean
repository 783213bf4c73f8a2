import Peerward.Lib.Transactions
import Peerward.Store.Credentials

/-!
# Requests to Control

Handlers validate a request, and then run a transaction that ends in a commit or in an error. The
errors carry the code and the message that the caller reads.
-/

namespace Peerward.Control

open Peerward.Lib
open Peerward.Store (SECOND Timestamp)

inductive RequestError where
  | invalid (code message : String)
  | forbidden (code message : String)
  | conflict (code message : String)
  | notFound
  /-- A statement that PostgreSQL refused. -/
  | internal
  deriving DecidableEq

def MINUTE : Nat := 60 * SECOND

/-- `i64::MAX`. -/
def I64_MAX : Nat := 2 ^ 63 - 1

section Scripts

variable {σ κ α β : Type}

/-- `return Err(..)` inside a transaction rolls it back. -/
def refuse (error : RequestError) : Script σ κ (Except RequestError α) := .rollback (.error error)

/-- `?` inside a transaction. -/
def attempt (result : Except RequestError β) (next : β → Script σ κ (Except RequestError α)) :
    Script σ κ (Except RequestError α) :=
  match result with
  | .error error => refuse error
  | .ok value => next value

variable {ρ ω : Type} {c : Contract σ κ ρ (Except RequestError α) ω} {request : ρ} {held : κ → Prop}
  {pending : σ → σ} {db : σ}

theorem sound_refuse (error : RequestError) : c.Sound request (refuse error) held pending db := trivial

theorem sound_attempt {result : Except RequestError β}
    {next : β → Script σ κ (Except RequestError α)}
    (h : ∀ value, result = .ok value → c.Sound request (next value) held pending db) :
    c.Sound request (attempt result next) held pending db := by
  cases result with
  | error error => exact sound_refuse error
  | ok value => exact h value rfl

end Scripts

end Peerward.Control
