import Peerward.Credentials.Trust

/-!
# The WireGuard engine of one local credential

`Engine` keeps a tunnel for every remote key it may talk to. Only which keys those are matters to the
runtime above it, so the tunnels, their indices and the queued plaintext are left out.
-/

namespace Peerward.Wireguard

open Std Peerward.Lib
open Peerward.Credentials (Crypto)
open Peerward.Types (Key)

/-- The failures of `Engine::install`. -/
inductive EngineError where
  | closed
  | peerLimit
  | invalidKey
  deriving DecidableEq

structure Engine where
  publicKey : Key
  peers : ExtTreeSet Key := ∅
  /-- `limits.peers`. -/
  peerCapacity : Nat
  closed : Bool := false

namespace Engine

variable (crypto : Crypto)

/-- Installs only a key from an authenticated, current signed directory. Installing an existing key
preserves the session. -/
def install (engine : Engine) (key : Key) : Except EngineError Engine :=
  if engine.closed then .error .closed
  else if engine.peers.contains key then .ok engine
  else if engine.peers.size ≥ engine.peerCapacity then .error .peerLimit
  else if key = engine.publicKey || !crypto.contributoryWireguardKey key then .error .invalidKey
  else .ok { engine with peers := engine.peers.insert key }

def remove (engine : Engine) (key : Key) : Engine := { engine with peers := engine.peers.erase key }

/-- Permanently destroys this local credential's sessions. -/
def close (engine : Engine) : Engine := { engine with peers := ∅, closed := true }

end Engine

end Peerward.Wireguard
