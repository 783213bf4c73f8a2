import Peerward.Directory.Signing
import Peerward.Lib.Run
import Peerward.Relay.Protocol

/-!
# The control router of a Relay

`OpaqueRouter` knows which session of a peer is attached, the highest presence generation it has
heard of, the credentials the current directory accepts, and the revoked ones. A message is queued
for a peer whose attachment passes all of these, and handed out to that attachment only.

The revisions of relay directories and policies, which no operation here reads, are left out.
-/

namespace Peerward.Relay

open Std Peerward.Lib Peerward.Wire
open Peerward.Credentials (Crypto)
open Peerward.Directory (DirectoryPublicKey PeerDirectory PeerEntry SignedPeerDirectory)
open Peerward.Types (CredentialSerial Id MeshId PeerId)

/-- One fenced session of a peer. -/
structure Attachment where
  peerId : PeerId
  attachmentId : Id
  role : PresenceRole
  /-- Monotonic database fencing generation. -/
  generation : Int64
  credentialSerial : CredentialSerial
  deriving DecidableEq

structure OpaqueRouter where
  meshId : MeshId
  verifier : DirectoryPublicKey
  crypto : Crypto
  queueCapacity : Nat
  directoryRevision : Option Nat := none
  attachments : ExtTreeMap PeerId Attachment := ∅
  directoryCredentials : ExtTreeMap PeerId (ExtTreeSet CredentialSerial) := ∅
  revoked : ExtTreeSet CredentialSerial := ∅
  controlQueues : ExtTreeMap PeerId (List ControlEnvelope) := ∅
  knownFences : ExtTreeMap PeerId Int64 := ∅

namespace OpaqueRouter

/-- An empty mesh-isolated forwarding table. -/
def empty (meshId : MeshId) (verifier : DirectoryPublicKey) (crypto : Crypto)
    (queueCapacity : Nat) : OpaqueRouter :=
  { meshId, verifier, crypto, queueCapacity }

def new (meshId : MeshId) (verifier : DirectoryPublicKey) (crypto : Crypto) (queueCapacity : Nat) :
    Except RelayError OpaqueRouter :=
  if queueCapacity = 0 then .error .invalidConfig
  else .ok (empty meshId verifier crypto queueCapacity)

/-- The serials of an entry that admit an attachment. -/
def acceptedSerials (entry : PeerEntry) : ExtTreeSet CredentialSerial :=
  (ExtTreeSet.ofList (entry.acceptedCredentials.map (·.serial)) compare).insert
    entry.credentialSerial

/-- The enabled entries of a directory, by peer. -/
def credentialsOf (directory : PeerDirectory) :
    ExtTreeMap PeerId (ExtTreeSet CredentialSerial) :=
  (directory.entries.filter (·.entry.enabled)).foldl (fun credentials signed =>
    credentials.insert signed.entry.peerId (acceptedSerials signed.entry)) ∅

/-- Verifies a directory and retains only identity and credential admission data. -/
def installDirectory (s : OpaqueRouter) (update : SignedPeerDirectory) :
    Except RelayError Unit × OpaqueRouter :=
  match s.verifier.verifyPeers s.crypto update s.meshId s.directoryRevision with
  | .error _ => (.error .directory, s)
  | .ok _ =>
    let credentials := credentialsOf update.directory
    (.ok (), { s with
      directoryCredentials := credentials
      directoryRevision := some update.directory.revision
      controlQueues := s.controlQueues.filter fun peer _ => credentials.contains peer })

/-- Installs an already fenced primary attachment. -/
def installAttachment (s : OpaqueRouter) (attachment : Attachment) : OpaqueRouter :=
  if attachment.role = .primary
      && (s.knownFences[attachment.peerId]?).all (· ≤ attachment.generation) then
    { s with
      knownFences := s.knownFences.insert attachment.peerId attachment.generation
      attachments := s.attachments.insert attachment.peerId attachment }
  else s

/-- Removes only the exact session generation. -/
def detach (s : OpaqueRouter) (peer : PeerId) (generation : Int64) : OpaqueRouter :=
  if (s.attachments[peer]?).any (·.generation = generation) then
    { s with
      attachments := s.attachments.erase peer
      controlQueues := s.controlQueues.erase peer }
  else s

/-- Learns a committed presence fence. -/
def observeFence (s : OpaqueRouter) (peer : PeerId) (generation : Int64) :
    Except RelayError Unit × OpaqueRouter :=
  if (s.knownFences[peer]?).any (generation < ·) then (.error .staleFence, s)
  else (.ok (), { s with knownFences := s.knownFences.insert peer generation })

/-- Revokes one credential and removes affected attachments and queues. -/
def revoke (s : OpaqueRouter) (serial : CredentialSerial) : OpaqueRouter :=
  { s with
    revoked := s.revoked.insert serial
    attachments := s.attachments.filter fun _ attachment => attachment.credentialSerial ≠ serial
    controlQueues := s.controlQueues.filter fun peer _ =>
      (s.directoryCredentials[peer]?).all fun credentials => !credentials.contains serial }

/-- What both checks ask of an attachment: the latest fence, and a credential the directory lists and
nobody revoked. -/
def current (s : OpaqueRouter) (peer : PeerId) (attachment : Attachment) : Bool :=
  s.knownFences[peer]? = some attachment.generation
    && !s.revoked.contains attachment.credentialSerial
    && (s.directoryCredentials[peer]?).any (·.contains attachment.credentialSerial)

def validateControlSource (s : OpaqueRouter) (source : PeerId) (generation : Int64) :
    Except RelayError Unit :=
  match s.attachments[source]? with
  | none => .error .staleFence
  | some attachment =>
    rejectIf (attachment.generation ≠ generation || !s.current source attachment) .staleFence

def validateLocalDestination (s : OpaqueRouter) (peer : PeerId) : Except RelayError Unit :=
  match s.attachments[peer]? with
  | none => .error .noRoute
  | some attachment => rejectIf (attachment.role ≠ .primary || !s.current peer attachment) .noRoute

/-- The queue of a peer. -/
def queue (s : OpaqueRouter) (peer : PeerId) : List ControlEnvelope :=
  (s.controlQueues[peer]?).getD []

def setQueue (s : OpaqueRouter) (peer : PeerId) (envelopes : List ControlEnvelope) : OpaqueRouter :=
  { s with controlQueues := s.controlQueues.insert peer envelopes }

/-- `entry(destination).or_default()` makes a queue even where the message is then refused. -/
def enqueue (s : OpaqueRouter) (destination : PeerId) (envelope : ControlEnvelope) :
    Except RelayError Unit × OpaqueRouter :=
  if (s.queue destination).length ≥ s.queueCapacity then
    (.error .queueFull, s.setQueue destination (s.queue destination))
  else (.ok (), s.setQueue destination (s.queue destination ++ [envelope]))

/-- Queues a message if its source and its destination pass their checks. -/
def route (s : OpaqueRouter) (source : Except RelayError Unit) (routed : RoutedControl) :
    Except RelayError Unit × OpaqueRouter :=
  match source with
  | .error e => (.error e, s)
  | .ok _ =>
    match s.validateLocalDestination routed.destination with
    | .error e => (.error e, s)
    | .ok _ => s.enqueue routed.destination routed.envelope

/-- Queues one authenticated message locally. -/
def routeControl (s : OpaqueRouter) (routed : RoutedControl) :
    Except RelayError Unit × OpaqueRouter :=
  s.route (s.validateControlSource routed.source routed.generation) routed

/-- Routes from an exact live authenticated session, including a standby data link. -/
def routeAuthenticatedControl (s : OpaqueRouter) (routed : RoutedControl) :
    Except RelayError Unit × OpaqueRouter :=
  s.route (rejectIf (!s.directoryCredentials.contains routed.source) .staleFence) routed

/-- Queues a cross-Relay message after source ownership is checked. -/
def acceptCrossRelayControl (s : OpaqueRouter) (routed : RoutedControl) :
    Except RelayError Unit × OpaqueRouter :=
  s.route (rejectIf (!s.directoryCredentials.contains routed.source) .noRoute) routed

/-- Receives one queued message for a local primary. -/
def receiveControl (s : OpaqueRouter) (peer : PeerId) (generation : Int64) :
    Except RelayError (Option ControlEnvelope) × OpaqueRouter :=
  match s.validateControlSource peer generation with
  | .error e => (.error e, s)
  | .ok _ =>
    match s.queue peer with
    | [] => (.ok none, s)
    | envelope :: rest => (.ok (some envelope), s.setQueue peer rest)

/-! ## Runs -/

inductive Op where
  | installDirectory (update : SignedPeerDirectory)
  | installAttachment (attachment : Attachment)
  | detach (peer : PeerId) (generation : Int64)
  | observeFence (peer : PeerId) (generation : Int64)
  | revoke (serial : CredentialSerial)
  | routeControl (routed : RoutedControl)
  | routeAuthenticatedControl (routed : RoutedControl)
  | acceptCrossRelayControl (routed : RoutedControl)
  | receiveControl (peer : PeerId) (generation : Int64)

/-- A result without a message. -/
def silent (result : Except RelayError Unit × OpaqueRouter) :
    Except RelayError (Option ControlEnvelope) × OpaqueRouter :=
  (result.1.map fun _ => none, result.2)

/-- One call, with its answer. -/
def call (s : OpaqueRouter) : Op → Except RelayError (Option ControlEnvelope) × OpaqueRouter
  | .installDirectory update => silent (s.installDirectory update)
  | .installAttachment attachment => (.ok none, s.installAttachment attachment)
  | .detach peer generation => (.ok none, s.detach peer generation)
  | .observeFence peer generation => silent (s.observeFence peer generation)
  | .revoke serial => (.ok none, s.revoke serial)
  | .routeControl routed => silent (s.routeControl routed)
  | .routeAuthenticatedControl routed => silent (s.routeAuthenticatedControl routed)
  | .acceptCrossRelayControl routed => silent (s.acceptCrossRelayControl routed)
  | .receiveControl peer generation => s.receiveControl peer generation

def answer (s : OpaqueRouter) (op : Op) : Except RelayError (Option ControlEnvelope) := (s.call op).1

def step (s : OpaqueRouter) (op : Op) : OpaqueRouter := (s.call op).2

def run (s : OpaqueRouter) (ops : List Op) : OpaqueRouter := exec step s ops

end OpaqueRouter

end Peerward.Relay
