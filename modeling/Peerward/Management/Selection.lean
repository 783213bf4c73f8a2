import Peerward.Lib.Sorted
import Peerward.Management.Resources

/-!
# Gateway selection

A consumer watches the paths to its gateways and picks one for each new connection. `ClientPreferences`
are what a device chose for itself. Instants are nanoseconds, as for leases.
-/

namespace Peerward.Management

open Std Peerward.Lib Peerward.Types

/-- Local preferences never confer remote authorization. -/
structure ClientPreferences where
  acceptPrivateRoutes : Bool := true
  acceptDns : Bool := true
  allowInbound : Bool := true
  exitResource : Option Uuid := none
  allowLocalLan : Bool := false
  deriving DecidableEq

inductive PathHealth where
  | unknown
  | healthy
  | unhealthy
  deriving DecidableEq

structure Observation where
  health : PathHealth := .unknown
  failures : Nat := 0
  successes : Nat := 0
  stableSince : Nat
  checked : Nat
  deriving DecidableEq

/-- Provider selection for new connections. Existing flows retain their healthy provider. -/
structure GatewaySelector where
  observations : ExtTreeMap Uuid Observation := ∅
  selected : ExtTreeMap Uuid Uuid := ∅

namespace GatewaySelector

/-- A fresh approved path has one bounded discovery window, never inferred healthy. -/
def register (s : GatewaySelector) (binding : Uuid) (now : Nat) : GatewaySelector :=
  if s.observations.contains binding then s
  else { s with
    observations := s.observations.insert binding { stableSince := now, checked := now } }

/-- `saturating_add(1)` of a `u8`. -/
def bump (count : Nat) : Nat := min (count + 1) 255

/-- One probe. A success after a failure starts a new stable period; a failure only counts. -/
def record (found : Observation) (success : Bool) (now : Nat) : Observation :=
  if success then
    let successes := bump found.successes
    { health := if found.health = .unknown ∨ successes ≥ 3 then .healthy else found.health
      failures := 0
      successes
      stableSince := if found.successes = 0 then now else found.stableSince
      checked := now }
  else
    let failures := bump found.failures
    { found with
      health := if failures ≥ 3 then .unhealthy else found.health
      failures
      successes := 0
      checked := now }

def observe (s : GatewaySelector) (binding : Uuid) (success : Bool) (now : Nat) : GatewaySelector :=
  let found := s.observations[binding]?.getD { stableSince := now, checked := now }
  { s with observations := s.observations.insert binding (record found success now) }

def retain (s : GatewaySelector) (keep : Uuid → Bool) : GatewaySelector :=
  let observations := s.observations.filter fun id _ => keep id
  { observations, selected := s.selected.filter fun _ id => observations.contains id }

def health (s : GatewaySelector) (binding : Uuid) (now : Nat) : PathHealth :=
  match s.observations[binding]?.filter fun found => now - found.checked ≤ 15 * SECOND with
  | some found => found.health
  | none => .unknown

def eligible (s : GatewaySelector) (binding : Uuid) (now : Nat) : Bool :=
  s.health binding now = .healthy || s.observations[binding]?.any fun state =>
    state.health = .unknown && state.failures < 3 && now - state.stableSince < 15 * SECOND

/-- The key candidates are sorted by. -/
def preference : GatewayBinding → GatewayBinding → Ordering :=
  compareLex (compareOn GatewayBinding.priority) <|
    compareLex (compareOn GatewayBinding.peerId) (compareOn GatewayBinding.id)

/-- A current provider is kept until the preferred one has been stable for thirty seconds. -/
def keeps (s : GatewaySelector) (preferred current : GatewayBinding) (now : Nat) : Bool :=
  current.id ≠ preferred.id && s.observations[preferred.id]?.all fun state =>
    now - state.stableSince < 30 * SECOND

def selectAliases (s : GatewaySelector) (resource : Uuid) (aliases : List Uuid)
    (bindings : List GatewayBinding) (advertisements : List RouteAdvertisement) (wall now : Nat) :
    Option PeerId × GatewaySelector :=
  let candidates := sortBy preference (bindings.filter fun binding =>
    aliases.contains binding.resourceId && binding.approved && binding.validate.isOk
      && s.eligible binding.id now && advertisements.any (·.supports binding wall))
  match candidates with
  | [] => (none, s)
  | preferred :: _ =>
    let current := s.selected[resource]?.bind fun id => candidates.find? (·.id = id)
    let selected := match current with
      | some current => if s.keeps preferred current now then current else preferred
      | none => preferred
    (some selected.peerId, { s with selected := s.selected.insert resource selected.id })

def select (s : GatewaySelector) (resource : Uuid) (bindings : List GatewayBinding)
    (advertisements : List RouteAdvertisement) (wall now : Nat) : Option PeerId × GatewaySelector :=
  s.selectAliases resource [resource] bindings advertisements wall now

end GatewaySelector

end Peerward.Management
