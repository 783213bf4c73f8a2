import Peerward.PeerCore.Coordination

/-!
# Path checks

`Connectivity` finds direct paths to other Peers. It advertises local candidates through the Relay,
probes pairs of a local source and a remote endpoint, and uses a pair once a probe on it has been
answered; a separate search finds the largest datagram the pair carries.

Instants and durations are nanoseconds. Three things come from outside and are inputs of the
operations that use them: the random transactions, the process-wide permits for checks, and the
process-wide message rate. `scaled` is `Duration::mul_f32(0.8)`.
-/

namespace Peerward.PeerCore

open Std Peerward.Lib Peerward.Net
open Peerward.Types (Key)

def seconds (n : Nat) : Nat := n * 1000000000
def millis (n : Nat) : Nat := n * 1000000

def MAX_PEERS : Nat := 256
def MESH_CHECKS : Nat := 64
def ACTIVE_HEALTH_LIFETIME : Nat := millis 2500

/-! ## Message rates -/

structure Rate where
  since : Nat
  count : Nat
  deriving DecidableEq

def Rate.allow (rate : Rate) (now maximum : Nat) : Bool × Rate :=
  let rate := if now - rate.since ≥ seconds 1 then { since := now, count := 0 } else rate
  if rate.count ≥ maximum then (false, rate) else (true, { rate with count := rate.count + 1 })

/-! ## The size search

A search for the largest datagram that a path carries. It only proposes sizes and hears what became of
them; a size is proved by the answer to a check that was padded to it.
-/

/-- `probe`: the padding that makes an inner packet of `mtu` bytes, and its ciphertext size. -/
def probeOf (mtu : Nat) (ipv6 : Bool) : Option (Message × Nat) :=
  let overhead := if ipv6 then 76 else 56
  if mtu < overhead then none
  else
    let padding := mtu - overhead
    if padding = 0 || padding > MAX_PROBE_PADDING then none else some (.mtuProbe padding, 32 + mtu)

/-- Authenticated datagram size search. Health ACKs cannot refresh a size proof. -/
structure Mtu where
  proof : Option (Nat × Nat) := none
  sent : Option Nat := none
  failures : Nat := 0
  /-- Known inner size, search upper, TUN ceiling. -/
  bounds : Option (Nat × Nat × Nat) := none
  target : Nat := 0
  retryFull : Option Nat := none
  deriving DecidableEq

namespace Mtu

def limit (mtu : Mtu) (now lifetime baseline : Nat) : Nat :=
  match mtu.proof with
  | some (limit, confirmed) => if now - confirmed < lifetime then max limit baseline else baseline
  | none => baseline

/-- A new TUN ceiling starts the search over. -/
def retarget (mtu : Mtu) (ceiling : Nat) (ipv6 : Bool) : Mtu :=
  if mtu.bounds.any fun (_, _, old) => old = ceiling then mtu
  else { mtu with
    bounds := some (if ipv6 then 80 else 64, ceiling, ceiling)
    target := ceiling, failures := 0, proof := none }

def next (mtu : Mtu) (ceiling : Nat) (ipv6 : Bool) (now interval : Nat) :
    Option (Message × Nat) × Mtu :=
  let mtu := mtu.retarget ceiling ipv6
  if mtu.sent.any (now - · < interval) then (none, mtu)
  else if mtu.retryFull.any (· ≤ now) then
    match mtu.bounds with
    | none => (none, mtu)
    | some (lower, _, ceiling) =>
      let mtu := { mtu with
        bounds := some (lower, ceiling, ceiling), target := ceiling, retryFull := none }
      (probeOf mtu.target ipv6, mtu)
  else (probeOf mtu.target ipv6, mtu)

/-- `Mtu::sent`. -/
def markSent (mtu : Mtu) (now : Nat) : Mtu := { mtu with sent := some now }

def chooseTarget (mtu : Mtu) (now : Nat) : Mtu :=
  match mtu.bounds with
  | none => mtu
  | some (lower, upper, ceiling) =>
    if lower ≥ upper || upper - lower < 16 then
      { mtu with
        target := lower
        retryFull := if lower < ceiling && mtu.retryFull.isNone then some (now + seconds 30)
          else mtu.retryFull }
    else { mtu with target := min (max ((lower + upper) / 2 / 16 * 16) (lower + 16)) upper }

def failed (mtu : Mtu) (now limit : Nat) : Mtu :=
  if limit ≠ 32 + mtu.target then mtu
  else
    let mtu := { mtu with failures := min (mtu.failures + 1) 255 }
    if mtu.failures < 3 then mtu
    else
      let mtu := { mtu with failures := 0 }
      match mtu.bounds with
      | none => mtu
      | some (lower, upper, ceiling) =>
        -- a previously working size can become a black hole after an MTU change
        let lower := if mtu.target ≤ lower then 64 else lower
        let upper := max (min upper (mtu.target - 1)) lower
        { mtu with bounds := some (lower, upper, ceiling) }.chooseTarget now

def confirm (mtu : Mtu) (limit now : Nat) : Mtu :=
  let mtu := { mtu with proof := some (limit, now), failures := 0 }
  match mtu.bounds with
  | none => mtu
  | some (lower, upper, ceiling) =>
    { mtu with bounds := some (max lower (limit - 32), upper, ceiling) }.chooseTarget now

end Mtu

/-! ## Measured health -/

structure Quality where
  rtt : Option Nat := none
  loss : Nat := 0
  samples : Nat := 0
  confirmed : Option Nat := none
  deriving DecidableEq

namespace Quality

def sample (quality : Quality) (lost : Bool) : Quality :=
  let samples := min (quality.samples + 1) 8
  { quality with
    samples := samples
    loss := (quality.loss * (samples - 1) + (if lost then 1000 else 0)) / samples }

def success (quality : Quality) (rtt now : Nat) : Quality :=
  let quality := { quality with rtt := some (quality.rtt.elim rtt fun old => (old * 7 + rtt) / 8) }
  { quality.sample false with confirmed := some now }

def failure (quality : Quality) : Quality := quality.sample true

def score (quality : Quality) : Nat := quality.rtt.getD (seconds 1) + millis quality.loss

end Quality

/-! ## Tracks

What is known of one remote key: its candidates and ours, the checks in flight, and the path that was
verified last with what it was proved to carry. A poll decides which checks go out, and an answer settles
the check it is for.
-/

structure Route where
  endpoint : SocketAddr
  source : Option SocketAddr
  deriving DecidableEq

/-- One probe in flight. -/
structure Check where
  route : Route
  sent : Nat
  ciphertextLimit : Option Nat
  deriving DecidableEq

structure Verified where
  route : Route
  confirmed : Nat
  selected : Nat
  mtu : Mtu
  deriving DecidableEq

/-- What is known about the paths to one remote key. -/
structure Track where
  localKey : Key
  candidates : List SocketAddr := []
  pairs : List Route := []
  advertised : List SocketAddr := []
  remoteGeneration : Option Nat := none
  next : Nat := 0
  pending : ExtTreeMap Transaction Check := ∅
  verified : Option Verified := none
  quality : Route → Option Quality := fun _ => none
  lastAlternative : Option Nat := none
  candidateTx : Transaction
  candidateAck : Bool := false
  candidateSent : Option Nat := none
  lastCheck : Option Nat := none
  lastActivity : Nat
  rateSince : Nat
  rateCount : Nat := 0

structure Connectivity where
  generation : Nat
  generationCeiling : Nat := 2 ^ 64 - 1
  candidates : List SocketAddr := []
  localPaths : Option (List SocketAddr) := none
  peers : ExtTreeMap Key Track := ∅
  cursor : Nat := 0
  messages : Rate

structure Send where
  localKey : Key
  remote : Key
  endpoint : Option SocketAddr
  source : Option SocketAddr
  coordination : Coordination
  deriving DecidableEq

/-- The pairs of one diagonal of `pairs`: each remote with the local source `offset` places on. -/
def diagonal (local_ remote : List SocketAddr) (offset : Nat) : List Route :=
  remote.zipIdx.filterMap fun (endpoint, index) =>
    local_[(index + offset) % local_.length]?.bind fun source =>
      if source.isIpv4 = endpoint.isIpv4 then some { endpoint, source := some source } else none

/-- Diagonal order covers every remote before adding second and third local choices. -/
def pairs (local_ : Option (List SocketAddr)) (remote : List SocketAddr) : List Route :=
  match local_ with
  | none => remote.map fun endpoint => { endpoint, source := none }
  | some local_ => ((List.range local_.length).flatMap (diagonal local_ remote)).take 128

def healthLifetime (track : Track) (now : Nat) : Nat :=
  if now - track.lastActivity > seconds 30 then seconds 30 else ACTIVE_HEALTH_LIFETIME

namespace Track

/-- What `update` forgets about one Peer. -/
def reset (track : Track) (localPaths : Option (List SocketAddr)) (fresh : Transaction) : Track :=
  { track with
    pairs := PeerCore.pairs localPaths track.candidates
    quality := fun _ => none
    lastAlternative := none
    pending := ∅
    verified := none
    next := 0
    lastCheck := none
    candidateTx := fresh
    candidateAck := false
    candidateSent := none }

/-- One dead check counts against its route, or against its size. -/
def fail (now : Nat) (track : Track) (check : Check) : Track :=
  match check.ciphertextLimit with
  | none =>
    let quality := ((track.quality check.route).getD {}).failure
    { track with quality := Function.update track.quality check.route (some quality) }
  | some limit =>
    let verified := track.verified.map fun verified =>
      if verified.route = check.route then { verified with mtu := verified.mtu.failed now limit }
      else verified
    { track with verified }

def alive (now : Nat) (check : Check) : Bool := now - check.sent < seconds 1

/-- The `retain` of `poll_with_mtu`. -/
def expirePending (track : Track) (now : Nat) : Track :=
  let dead := (track.pending.toList.map Prod.snd).filter fun check => !alive now check
  { dead.foldl (fail now) track with pending := track.pending.filter fun _ => alive now }

/-- The advertisement of `poll_with_mtu`, repeated until it is acknowledged. -/
def advertise (track : Track) (generation : Nat) (candidates : List SocketAddr) (remote : Key)
    (now : Nat) : List Send × Track :=
  if !track.candidateAck && !track.candidateSent.any (now - · < seconds 2) then
    ([{ localKey := track.localKey, remote, endpoint := none, source := none
        coordination :=
          { generation, transaction := track.candidateTx, message := .candidates candidates } }],
      { track with candidateSent := some now })
  else ([], track)

/-- The candidate a rotating index points at. -/
def pick (track : Track) : Option Route := track.pairs[track.next % track.pairs.length]?

def advance (track : Track) : Track := { track with next := (track.next + 1) % 2 ^ 64 }

def probing (track : Track) (route : Route) : Bool :=
  track.pending.toList.any fun (_, check) => check.route = route

/-- Looks, over at most `turns` candidates, for one other route to check beside the verified one. -/
def seekAlternative (verified : Route) (now : Nat) : Nat → Track → List Route × Track
  | 0, track => ([], track)
  | turns + 1, track =>
    match track.pick with
    | none => ([], track)
    | some route =>
      let track := track.advance
      if route ≠ verified && !track.probing route then
        ([route], { track with lastAlternative := some now })
      else seekAlternative verified now turns track

/-- The next `turns` candidates that are not being checked. -/
def seekRoutes : Nat → Track → List Route × Track
  | 0, track => ([], track)
  | turns + 1, track =>
    match track.pick with
    | none => ([], track)
    | some route =>
      let probing := track.probing route
      let (routes, track) := seekRoutes turns track.advance
      (if probing then routes else route :: routes, track)

/-- The routes to probe: the verified one and an alternative, or a search. -/
def seek (track : Track) (idle : Bool) (available now : Nat) : List Route × Track :=
  match track.verified with
  | some verified =>
    if now - verified.confirmed < healthLifetime track now then
      if !idle && !track.lastAlternative.any (now - · < seconds 5) then
        let (routes, track) := seekAlternative verified.route now track.pairs.length track
        (verified.route :: routes, track)
      else ([verified.route], track)
    else seekRoutes (min (min track.pairs.length (4 - track.pending.size)) available) track
  | none => seekRoutes (min (min track.pairs.length (4 - track.pending.size)) available) track

/-- A route to check, with what to say on it. -/
structure Target where
  route : Route
  message : Message
  ciphertextLimit : Option Nat

/-- The size check that `poll_with_mtu` adds. -/
def seekSize (track : Track) (interval now mtu : Nat) (address : Option IpAddr) :
    List Target × Track :=
  match track.verified, address with
  | some verified, some address =>
    if now - verified.confirmed < interval + seconds 2 then
      let (found, next) := verified.mtu.next mtu address.isIpv6 now interval
      let track := { track with verified := some { verified with mtu := next } }
      match found with
      | some (message, limit) => ([⟨verified.route, message, some limit⟩], track)
      | none => ([], track)
    else ([], track)
  | _, _ => ([], track)

/-- Random transactions and permits, by remote key and by check of one poll. -/
structure Chance where
  fresh : Key → Nat → Transaction
  permit : Key → Nat → Bool

/-- `verified.mtu.sent(now)` before a size check goes out. -/
def markSize (track : Track) (limit : Option Nat) (now : Nat) : Track :=
  if limit.isSome then
    { track with verified := track.verified.map fun verified =>
        { verified with mtu := verified.mtu.markSent now } }
  else track

def putInFlight (track : Track) (transaction : Transaction) (check : Check) : Track :=
  { track with pending := track.pending.insert transaction check }

/-- The message of one check. -/
def checkMessage (track : Track) (generation : Nat) (remote : Key) (transaction : Transaction)
    (target : Target) : Send where
  localKey := track.localKey
  remote := remote
  endpoint := some target.route.endpoint
  source := target.route.source
  coordination := { generation, transaction, message := target.message }

/-- The sending loop: each check needs room and a permit. Returns the checks still available. -/
def sendChecks (chance : Chance) (generation : Nat) (remote : Key) (now : Nat) :
    List Target → Nat → Track → List Send × Nat × Track
  | [], available, track => ([], available, track)
  | target :: rest, available, track =>
    if available = 0 || track.pending.size ≥ 4 then ([], available, track)
    else if !chance.permit remote rest.length then ([], available, track)
    else
      let transaction := chance.fresh remote rest.length
      let check : Check :=
        { route := target.route, sent := now, ciphertextLimit := target.ciphertextLimit }
      let sent := sendChecks chance generation remote now rest (available - 1)
        ((track.markSize target.ciphertextLimit now).putInFlight transaction check)
      (track.checkMessage generation remote transaction target :: sent.1, sent.2)

/-- The part of one turn of `poll_with_mtu` that checks paths. -/
def checkPaths (chance : Chance) (generation : Nat) (remote : Key) (now mtu : Nat)
    (address : Key → Option IpAddr) (available : Nat) (idle : Bool) (interval : Nat)
    (track : Track) : List Send × Nat × Track :=
  let sought := track.seek idle available now
  let sized := sought.2.seekSize interval now mtu (address sought.2.localKey)
  sized.2.sendChecks chance generation remote now (sought.1.map (⟨·, .probe, none⟩) ++ sized.1)
    available

/-- How long a Peer is left alone between checks. -/
def checkInterval (idle : Bool) : Nat := if idle then seconds 25 else seconds 1

/-- `track.last_check = Some(now)`. -/
def startCheck (track : Track) (now : Nat) : Track := { track with lastCheck := some now }

/-- One turn of the loop of `poll_with_mtu`. -/
def poll (chance : Chance) (generation : Nat) (candidates : List SocketAddr) (remote : Key)
    (now mtu : Nat) (address : Key → Option IpAddr) (available : Nat) (track : Track) :
    List Send × Nat × Track :=
  let advertised := track.advertise generation candidates remote now
  let track := advertised.2
  let idle := decide (now - track.lastActivity > seconds 30)
  let interval := checkInterval idle
  if track.lastCheck.any (now - · < interval) || available = 0 || track.pending.size ≥ 4 then
    (advertised.1, available, track)
  else
    let checked := (track.startCheck now).checkPaths chance generation remote now mtu address
      available idle interval
    (advertised.1 ++ checked.1, checked.2)

/-- The per-Peer message rate. -/
def countMessage (track : Track) (now : Nat) : Track :=
  let track := if now - track.rateSince ≥ seconds 1 then { track with rateSince := now, rateCount := 0 }
    else track
  { track with rateCount := min (track.rateCount + 1) 65535 }

/-- `Message::Candidates`: a new remote generation replaces the candidates and forgets every check. -/
def receiveCandidates (track : Track) (localPaths : Option (List SocketAddr)) (generation : Nat)
    (endpoints : List SocketAddr) : Track :=
  if track.remoteGeneration = some generation then track
  else
    let pairs := PeerCore.pairs localPaths endpoints
    { track with
      remoteGeneration := some generation
      advertised := endpoints
      candidates := endpoints
      pairs := pairs
      quality := fun route => if pairs.contains route then track.quality route else none
      lastAlternative := none
      pending := ∅
      verified := none
      next := 0
      lastCheck := none }

/-- `Message::Probe`: an authenticated incoming check creates a bounded triggered check, not a healthy
path. -/
def receiveProbe (track : Track) (endpoint : SocketAddr) (localEndpoint : Option SocketAddr) : Track :=
  let track := if !track.candidates.contains endpoint && track.candidates.length < 32 then
      { track with candidates := endpoint :: track.candidates, next := 0, lastCheck := none }
    else track
  let route : Route := { endpoint, source := localEndpoint }
  if track.candidates.contains endpoint && !track.pairs.contains route && track.pairs.length < 128 then
    { track with pairs := route :: track.pairs, next := 0, lastCheck := none }
  else track

/-- Whether an answer on `route` replaces the verified path. -/
def replaces (scaled : Nat → Nat) (track : Track) (route : Route) (score now : Nat) : Bool :=
  match track.verified with
  | none => true
  | some old => old.route = route || now - old.confirmed ≥ ACTIVE_HEALTH_LIFETIME
      || (now - old.selected ≥ seconds 5
        && (track.quality old.route).any fun quality => score + millis 5 < scaled quality.score)

/-- The quality of a route after an answer; an oversized size probe failure must not penalize
small-packet health. -/
def measure (track : Track) (check : Check) (now : Nat) : Quality :=
  let known := (track.quality check.route).getD {}
  if check.ciphertextLimit.isNone then known.success (now - check.sent) now else known

/-- The answered check leaves the table and its route gets its measured quality. -/
def settle (track : Track) (transaction : Transaction) (check : Check) (quality : Quality) : Track :=
  { track with
    pending := track.pending.erase transaction
    quality := Function.update track.quality check.route (some quality) }

/-- The answered route becomes the verified path; a size proof is kept on the same route only. -/
def select (track : Track) (check : Check) (now : Nat) : Track :=
  let same := track.verified.filter (·.route = check.route)
  let mtu := same.elim {} (·.mtu)
  let verified : Verified :=
    { route := check.route, confirmed := now, selected := same.elim now (·.selected)
      mtu := check.ciphertextLimit.elim mtu (mtu.confirm · now) }
  { track with verified := some verified }

/-- `Message::ProbeAck` for a check in flight. -/
def receiveAck (scaled : Nat → Nat) (track : Track) (transaction : Transaction) (check : Check)
    (now : Nat) : Track :=
  let quality := track.measure check now
  let settled := track.settle transaction check quality
  if settled.replaces scaled check.route quality.score now then settled.select check now else settled

/-- The body of `receive_on` for an authenticated message. -/
def receive (scaled : Nat → Nat) (track : Track) (generation : Nat)
    (localPaths : Option (List SocketAddr)) (message : Coordination)
    (source localEndpoint : Option SocketAddr) (now : Nat) :
    Except PeerError (Option Message) × Track :=
  match message.message with
  | .gatewayProbe _ | .gatewayAck _ _ => (.error .invalidPacket, track)
  | .candidates endpoints =>
    if source.isSome || track.remoteGeneration.any (message.generation < ·)
        || (track.remoteGeneration = some message.generation && track.advertised ≠ endpoints) then
      (.error .invalidPacket, track)
    else (.ok (some .candidatesAck), track.receiveCandidates localPaths message.generation endpoints)
  | .candidatesAck =>
    if source.isSome || message.generation ≠ generation || message.transaction ≠ track.candidateTx then
      (.error .invalidPacket, track)
    else (.ok none, { track with candidateAck := true })
  | .probe | .mtuProbe _ =>
    match source.filter validEndpoint with
    | none => (.error .invalidPacket, track)
    | some endpoint => (.ok (some .probeAck), track.receiveProbe endpoint localEndpoint)
  | .probeAck =>
    match source with
    | none => (.error .invalidPacket, track)
    | some endpoint =>
      if message.generation ≠ generation then (.error .invalidPacket, track)
      else match track.pending[message.transaction]? with
        | none => (.error .invalidPacket, track)
        | some check =>
          if check.route ≠ { endpoint, source := localEndpoint } || now - check.sent ≥ seconds 1 then
            (.error .invalidPacket, track)
          else (.ok none, track.receiveAck scaled message.transaction check now)

end Track

namespace Connectivity

def new (generation now : Nat) : Connectivity :=
  { generation, messages := { since := now, count := 0 } }

def reserveGeneration (s : Connectivity) (start ceiling : Nat) : Connectivity :=
  { s with generation := start, generationCeiling := ceiling }

/-- `fresh` are the transactions drawn for the Peers' next advertisements. -/
def update (s : Connectivity) (candidates : List SocketAddr) (fresh : Key → Transaction) :
    Except PeerError Unit × Connectivity :=
  match validateCandidates candidates with
  | .error failure => (.error failure, s)
  | .ok () =>
    if s.generation ≥ s.generationCeiling then
      (.error (.checkpoint "path generation lease exhausted; restart runtime"), s)
    else if s.generation + 1 ≥ 2 ^ 64 then (.error .closed, s)
    else (.ok (), { s with
      generation := s.generation + 1
      candidates := candidates
      peers := s.peers.map fun remote track => track.reset s.localPaths (fresh remote) })

def updatePaths (s : Connectivity) (local_ candidates : List SocketAddr) (fresh : Key → Transaction) :
    Except PeerError Unit × Connectivity :=
  match validateCandidates local_ with
  | .error failure => (.error failure, s)
  | .ok () =>
    if local_.length > 8 then (.error .queueFull, s)
    else match validateCandidates candidates with
      | .error failure => (.error failure, s)
      | .ok () => match s.update candidates fresh with
        | (.error failure, s) => (.error failure, s)
        | (.ok (), s) => (.ok (), { s with
          localPaths := some local_
          peers := s.peers.map fun _ track =>
            { track with pairs := PeerCore.pairs (some local_) track.candidates } })

def resume (s : Connectivity) (fresh : Key → Transaction) : Except PeerError Unit × Connectivity :=
  s.update s.candidates fresh

/-- `self.peers.insert`. -/
def put (s : Connectivity) (remote : Key) (track : Track) : Connectivity :=
  { s with peers := s.peers.insert remote track }

/-- The least recently active Peer, among those idle for more than a minute. -/
def oldestIdle (s : Connectivity) (now : Nat) : Option Key :=
  let idle := s.peers.toList.filter fun (_, track) => now - track.lastActivity > seconds 60
  let oldest := idle.foldl (fun best entry =>
    match best with
    | none => some entry
    | some found => if entry.2.lastActivity < found.2.lastActivity then some entry else best) none
  oldest.map Prod.fst

/-- Room for one more track: eviction is confined to idle discovery state. -/
def makeRoom (s : Connectivity) (now : Nat) : Option Connectivity :=
  if s.peers.size ≥ MAX_PEERS then
    (s.oldestIdle now).map fun key => { s with peers := s.peers.erase key }
  else some s

def touch (s : Connectivity) (localKey remote : Key) (now : Nat) (fresh : Transaction) :
    Connectivity :=
  match s.peers[remote]? with
  | some track =>
    if track.localKey = localKey then s.put remote { track with lastActivity := now }
    else enter { s with peers := s.peers.erase remote }
  | none => enter s
where
  enter (s : Connectivity) : Connectivity :=
    match s.makeRoom now with
    | none => s
    | some s =>
      s.put remote { localKey, candidateTx := fresh, lastActivity := now, rateSince := now }

def retain (s : Connectivity) (authorized : Key → Key → Bool) : Connectivity :=
  { s with peers := s.peers.filter fun remote track => authorized track.localKey remote }

def route (s : Connectivity) (remote : Key) (now ciphertextLen : Nat) : Option Route :=
  s.peers[remote]?.bind fun track =>
    track.verified.bind fun verified =>
      let lifetime := healthLifetime track now
      if now - verified.confirmed < lifetime && ciphertextLen ≤ verified.mtu.limit now lifetime 96 then
        some verified.route
      else none

/-- The keys in the order one poll visits them. -/
def rotation (s : Connectivity) : List Key :=
  let keys := s.peers.keys
  (List.range keys.length).filterMap fun offset => keys[(s.cursor + offset) % keys.length]?

/-- The loop of `poll_with_mtu` over the tracks. -/
def pollTracks (chance : Track.Chance) (now mtu : Nat) (address : Key → Option IpAddr) :
    List Key → Nat → Connectivity → List Send × Connectivity
  | [], _, s => ([], s)
  | remote :: rest, available, s =>
    match s.peers[remote]? with
    | none => pollTracks chance now mtu address rest available s
    | some track =>
      let polled := track.poll chance s.generation s.candidates remote now mtu address available
      let more := pollTracks chance now mtu address rest polled.2.1 (s.put remote polled.2.2)
      (polled.1 ++ more.1, more.2)

/-- The caller only sends checks when it can encrypt immediately; delayed probes are discarded. -/
def pollWithMtu (s : Connectivity) (chance : Track.Chance) (now mtu : Nat)
    (address : Key → Option IpAddr) : List Send × Connectivity :=
  let s := { s with peers := s.peers.map fun _ track => track.expirePending now }
  let available := MESH_CHECKS - (s.peers.toList.map fun (_, track) => track.pending.size).sum
  let polled := pollTracks chance now mtu address s.rotation available s
  (polled.1, { polled.2 with cursor := (s.cursor + 1) % 2 ^ 64 })

/-- A message and where it came in. -/
structure Received where
  localKey : Key
  remote : Key
  message : Coordination
  source : Option SocketAddr
  localEndpoint : Option SocketAddr
  now : Nat
  /-- The process-wide rate; `none` when its lock is poisoned. -/
  process : Option Bool
  /-- The transaction drawn if a track has to be created. -/
  fresh : Transaction

/-- `receive_on` once the rates and the track are settled. -/
def deliver (scaled : Nat → Nat) (s : Connectivity) (r : Received) (track : Track) :
    Except PeerError (List Send) × Connectivity :=
  let track := track.countMessage r.now
  if track.rateCount > 32 then
    (.error .queueFull, s.put r.remote track)
  else
    match track.receive scaled s.generation s.localPaths r.message r.source r.localEndpoint r.now with
    | (.error failure, track) => (.error failure, s.put r.remote track)
    | (.ok reply, track) =>
      (.ok (reply.toList.map fun message =>
        { localKey := r.localKey, remote := r.remote, endpoint := r.source, source := r.localEndpoint
          coordination := { r.message with message } }), s.put r.remote track)

/-- The track of a message, created when there is none for its local key. -/
def ensureTrack (s : Connectivity) (r : Received) : Connectivity :=
  if s.peers[r.remote]?.any (·.localKey = r.localKey) then s
  else s.touch r.localKey r.remote r.now r.fresh

def withMessages (s : Connectivity) (messages : Rate) : Connectivity := { s with messages }

def receiveOn (scaled : Nat → Nat) (s : Connectivity) (r : Received) :
    Except PeerError (List Send) × Connectivity :=
  if r.localEndpoint.any fun endpoint => !s.localPaths.any (·.contains endpoint) then
    (.error .invalidPacket, s)
  else
    let rate := s.messages.allow r.now 1024
    let s := s.withMessages rate.2
    if !rate.1 then (.error .queueFull, s)
    else match r.process with
      | none => (.error .closed, s)
      | some false => (.error .queueFull, s)
      | some true =>
        let s := s.ensureTrack r
        match s.peers[r.remote]? with
        | none => (.error .queueFull, s)
        | some track => s.deliver scaled r track

/-! ## Runs -/

inductive Op where
  | update (candidates : List SocketAddr) (fresh : Key → Transaction)
  | updatePaths (local_ candidates : List SocketAddr) (fresh : Key → Transaction)
  | resume (fresh : Key → Transaction)
  | touch (localKey remote : Key) (now : Nat) (fresh : Transaction)
  | retain (authorized : Key → Key → Bool)
  | poll (chance : Track.Chance) (now mtu : Nat) (address : Key → Option IpAddr)
  | receive (received : Received)

def step (scaled : Nat → Nat) (s : Connectivity) : Op → Connectivity
  | .update candidates fresh => (s.update candidates fresh).2
  | .updatePaths local_ candidates fresh => (s.updatePaths local_ candidates fresh).2
  | .resume fresh => (s.resume fresh).2
  | .touch localKey remote now fresh => s.touch localKey remote now fresh
  | .retain authorized => s.retain authorized
  | .poll chance now mtu address => (s.pollWithMtu chance now mtu address).2
  | .receive received => (s.receiveOn scaled received).2

end Connectivity

end Peerward.PeerCore
