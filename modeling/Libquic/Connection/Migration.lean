import Libquic.Connection.Flush

/-!
# Following the host's route

An outbound connection labels its path with the source address from which the host reaches
the peer. `check_local_address` asks the host again, and moves the connection if the answer
has changed: by a migration, which ngtcp2 can refuse until it has a spare connection ID, or,
when only the NAT64 address has changed, by sending elsewhere without telling ngtcp2.

What the host and ngtcp2 answer are inputs. `current` is the path that ngtcp2 has for the
connection; it is changed by ngtcp2 only. `attempts`, `given` and `lookups` record the calls
that the connection makes. Nothing reads these.
-/
namespace Libquic

/-- `Connection::route` -/
structure Route (Addr : Type) where
  localAddr : Addr
  nat64 : Option Addr := none
  deriving DecidableEq, Repr

/-- `Connection::local_check` -/
inductive LocalCheck where
  | unchanged | migrated | pending | rerouted
  deriving DecidableEq, Repr

/-- The result of `ngtcp2_conn_initiate_immediate_migration`. -/
inductive MigrationResult where
  | ok | connIdBlocked | failed
  deriving DecidableEq, Repr

/-- The result of `ngtcp2_conn_read_pkt`. -/
inductive ReadResult where
  | ok | draining | failed
  deriving DecidableEq, Repr

/-- What the host says at one moment: the source address for a destination, and the NAT64
address of a peer, if it has a NAT64 and the peer is known by an IPv4 address. -/
structure HostRoutes (Addr : Type) where
  localAddressFor : Addr → Option Addr
  nat64Address : Addr → Option Addr

/-- `Endpoint::route_to` -/
def HostRoutes.routeTo {Addr : Type} (host : HostRoutes Addr) (remote : Addr) :
    Option (Route Addr) :=
  match host.localAddressFor remote with
  | some source => some { localAddr := source }
  | none =>
    match host.nat64Address remote with
    | none => none
    | some nat64 =>
      match host.localAddressFor nat64 with
      | none => none
      | some source => some { localAddr := source, nat64 := some nat64 }

/-- A call of `ngtcp2_conn_initiate_immediate_migration`. -/
structure Attempt (Addr : Type) where
  current : Path Addr
  newPath : Path Addr
  confirmed : Bool
  halted : Bool
  deriving DecidableEq, Repr

/-- ngtcp2 migrates a live connection with a confirmed handshake, to another local address. -/
structure Attempt.Allowed {Addr : Type} (a : Attempt Addr) : Prop where
  confirmed : a.confirmed = true
  live : a.halted = false
  remote : a.newPath.remoteAddr = a.current.remoteAddr
  moves : a.newPath.localAddr ≠ a.current.localAddr

/-- A call of `ngtcp2_conn_read_pkt`: the address that the packet came from, the path it is
given, the path that ngtcp2 has, and the peer's NAT64 address at that moment. -/
structure Given (Addr : Type) where
  source : Addr
  path : Path Addr
  current : Path Addr
  nat64 : Option Addr
  deriving DecidableEq, Repr

/-- A client drops what does not arrive on its path. The packet has ngtcp2's own local address,
and the rest of its path too if it came from either of the peer's addresses. -/
structure Given.OnPath {Addr : Type} (g : Given Addr) : Prop where
  localAddr : g.path.localAddr = g.current.localAddr
  peer : g.source = g.current.remoteAddr ∨ g.nat64 = some g.source → g.path = g.current
  other : g.path ≠ g.current → g.path.remoteAddr = g.source

structure RoutedConn (Addr : Type) where
  path : Path Addr
  nat64Path : Option (Path Addr) := none
  pendingRoute : Option (Route Addr) := none
  unconfirmedLocal : Option Addr := none
  outbound : Bool := true
  handshakeConfirmed : Bool := false
  draining : Bool := false
  closing : Bool := false
  dead : Bool := false
  /-- `close_connection` with `CONN_MTU_EXCEEDED` has been queued. -/
  mtuExceeded : Bool := false
  current : Path Addr
  attempts : List (Attempt Addr) := []
  given : List (Given Addr) := []
  lookups : Nat := 0
  deriving DecidableEq, Repr

namespace RoutedConn

variable {Addr : Type}

def nat64Remote (c : RoutedConn Addr) : Option Addr := c.nat64Path.map Path.remoteAddr

def sendPath (c : RoutedConn Addr) : Path Addr := c.nat64Path.getD c.path

/-- `draining || closing || dead` -/
def halted (c : RoutedConn Addr) : Bool := c.draining || c.closing || c.dead

def setRoute (c : RoutedConn Addr) (r : Route Addr) : RoutedConn Addr :=
  { c with
    path := ⟨r.localAddr, c.path.remoteAddr⟩
    nat64Path := r.nat64.map fun nat64 => ⟨r.localAddr, nat64⟩ }

def setRemoteAddr (c : RoutedConn Addr) (remote : Addr) : RoutedConn Addr :=
  { c with path := ⟨c.path.localAddr, remote⟩ }.setRoute { localAddr := c.path.localAddr }

/-- `Connection::client_path_validation`. ngtcp2 itself uses the peer's preferred address once it is
validated; the connection does not ask whether it was. -/
def clientPathValidation (c : RoutedConn Addr) (remote : Addr) (success preferred : Bool) :
    RoutedConn Addr :=
  if preferred then
    { c with current := if success then ⟨c.current.localAddr, remote⟩ else c.current }.setRemoteAddr
      remote
  else c

/-- `ngtcp2_conn_initiate_immediate_migration` -/
def initiateMigration (c : RoutedConn Addr) (answer : MigrationResult) (newPath : Path Addr) :
    RoutedConn Addr :=
  { c with
    attempts := c.attempts ++ [⟨c.current, newPath, c.handshakeConfirmed, c.halted⟩]
    current := if answer = .ok then newPath else c.current }

def migrate (c : RoutedConn Addr) (answer : MigrationResult) (target : Route Addr) :
    RoutedConn Addr × LocalCheck :=
  if c.halted then ({ c with pendingRoute := none }, .unchanged)
  else
    let c := c.initiateMigration answer ⟨target.localAddr, c.path.remoteAddr⟩
    match answer with
    | .connIdBlocked => ({ c with pendingRoute := some target }, .pending)
    | .failed => ({ c with pendingRoute := none }, .unchanged)
    | .ok =>
      let c := { c with pendingRoute := none }.setRoute target
      ({ c with unconfirmedLocal := none }, .migrated)

section Check

variable [DecidableEq Addr]

def checkLocalAddress (c : RoutedConn Addr) (host : HostRoutes Addr) (answer : MigrationResult) :
    RoutedConn Addr × LocalCheck :=
  if c.halted then (c, .unchanged)
  else
    let c := { c with lookups := c.lookups + 1 }
    match host.routeTo c.path.remoteAddr with
    | none => (c, .unchanged)
    | some target =>
      if target.localAddr ≠ c.path.localAddr ∧ c.handshakeConfirmed then c.migrate answer target
      else
        let c := { c with pendingRoute := none }
        if target.nat64 = c.nat64Remote then (c, .unchanged)
        else (c.setRoute { localAddr := c.path.localAddr, nat64 := target.nat64 }, .rerouted)

def localAddressMismatch (c : RoutedConn Addr) (arrivedOn : Addr) (host : HostRoutes Addr)
    (answer : MigrationResult) : RoutedConn Addr :=
  if !c.handshakeConfirmed || c.unconfirmedLocal == some arrivedOn ||
      c.pendingRoute.any (·.localAddr == arrivedOn) then c
  else
    let r := c.checkLocalAddress host answer
    if r.2 = .unchanged then { r.1 with unconfirmedLocal := some arrivedOn } else r.1

/-- `Connection::packet_too_big`, with what ngtcp2 says the path can carry. -/
def packetTooBig (c : RoutedConn Addr) (size pathMax : Nat) (host : HostRoutes Addr)
    (answer : MigrationResult) : RoutedConn Addr :=
  if pathMax < size then c
  else if c.outbound then
    let r := c.checkLocalAddress host answer
    if r.2 = .unchanged then { r.1 with mtuExceeded := true } else r.1
  else { c with mtuExceeded := true }

def sendUnreachable (c : RoutedConn Addr) (host : HostRoutes Addr) (answer : MigrationResult) :
    RoutedConn Addr :=
  if c.outbound then (c.checkLocalAddress host answer).1 else c

/-- What `Endpoint::network_changed` does to each of its connections. -/
def networkChanged (c : RoutedConn Addr) (host : HostRoutes Addr) (answer : MigrationResult) :
    RoutedConn Addr :=
  if c.outbound then ({ c with unconfirmedLocal := none }.checkLocalAddress host answer).1 else c

/-- What ngtcp2 makes of a packet, and what it answers if a migration is then retried. -/
structure Read where
  inClosingPeriod : Bool := false
  result : ReadResult := .ok
  /-- Reading the packet confirms the handshake. -/
  confirms : Bool := false
  retry : MigrationResult := .ok
  deriving DecidableEq, Repr

/-- `ngtcp2_conn_read_pkt`: the packet came from `source` and is given `path`. -/
def ngtcp2Read (c : RoutedConn Addr) (source : Addr) (path : Path Addr) (read : Read) :
    RoutedConn Addr :=
  { c with
    given := c.given ++ [⟨source, path, c.current, c.nat64Remote⟩]
    handshakeConfirmed := c.handshakeConfirmed || read.confirms }

/-- `Connection::read_packet`, without the closing and draining that it queues. -/
def readPacket (c : RoutedConn Addr) (source : Addr) (path : Path Addr) (read : Read) :
    RoutedConn Addr :=
  let c := c.ngtcp2Read source path read
  match read.result with
  | .draining => c
  | .failed => { c with dead := true }
  | .ok =>
    match c.pendingRoute with
    | none => c
    | some target => (c.migrate read.retry target).1

def handleConnPacket (c : RoutedConn Addr) (source : Addr) (path : Path Addr) (read : Read) :
    RoutedConn Addr :=
  if read.inClosingPeriod then c
  else if c.draining then c
  else if c.dead then c
  else c.readPacket source path read

/-- The end of `Endpoint::handle_packet`, where the packet's connection is known. -/
def handlePacket (isAnyAddr : Addr → Bool) (c : RoutedConn Addr) (arrived : Path Addr)
    (host : HostRoutes Addr) (answer : MigrationResult) (read : Read) : RoutedConn Addr :=
  if c.outbound then
    let c :=
      if !isAnyAddr arrived.localAddr && arrived.localAddr != c.path.localAddr then
        c.localAddressMismatch arrived.localAddr host answer
      else c
    let remote :=
      if c.nat64Remote = some arrived.remoteAddr then c.path.remoteAddr else arrived.remoteAddr
    c.handleConnPacket arrived.remoteAddr ⟨c.path.localAddr, remote⟩ read
  else c.handleConnPacket arrived.remoteAddr arrived read

/-- The path in `Endpoint::_connect`; `bound` is the address that the endpoint is bound to. -/
def connect (host : HostRoutes Addr) (bound remote : Addr) : RoutedConn Addr :=
  match host.routeTo remote with
  | none => { path := ⟨bound, remote⟩, current := ⟨bound, remote⟩ }
  | some target =>
    { path := ⟨target.localAddr, remote⟩
      nat64Path := target.nat64.map fun nat64 => ⟨target.localAddr, nat64⟩
      current := ⟨target.localAddr, remote⟩ }

/-- What can happen to a connection, with what the host and ngtcp2 answer if asked. -/
inductive Event (Addr : Type) where
  | networkChanged (host : HostRoutes Addr) (answer : MigrationResult)
  | packet (arrived : Path Addr) (host : HostRoutes Addr) (answer : MigrationResult) (read : Read)
  | tooBig (size pathMax : Nat) (host : HostRoutes Addr) (answer : MigrationResult)
  | unreachable (host : HostRoutes Addr) (answer : MigrationResult)
  /-- ngtcp2 writes a packet, and the packet's path into `_path`: a path that it probes, or else the
  one that it has. -/
  | wrote (probe : Option (Path Addr))
  | pathValidation (remote : Addr) (success preferred : Bool)
  | close
  | drain
  | die

def step (isAnyAddr : Addr → Bool) (c : RoutedConn Addr) : Event Addr → RoutedConn Addr
  | .networkChanged host answer => c.networkChanged host answer
  | .packet arrived host answer read => c.handlePacket isAnyAddr arrived host answer read
  | .tooBig size pathMax host answer => c.packetTooBig size pathMax host answer
  | .unreachable host answer => c.sendUnreachable host answer
  | .wrote probe => { c with path := probe.getD c.current }
  | .pathValidation remote success preferred => c.clientPathValidation remote success preferred
  | .close => { c with closing := true }
  | .drain => { c with draining := true }
  | .die => { c with dead := true }

/-- ngtcp2 probes no path, and a preferred address has been validated, if there is one. -/
def Event.Validated : Event Addr → Prop
  | .wrote probe => probe = none
  | .pathValidation _ success preferred => preferred = true → success = true
  | _ => True

/-- No other path is probed, and a preferred address has been validated if it is another one. -/
def Event.KeepsPath (c : RoutedConn Addr) : Event Addr → Prop
  | .wrote probe => ∀ p ∈ probe, p = c.current
  | .pathValidation remote success preferred =>
    preferred = true → success = true ∨ remote = c.current.remoteAddr
  | _ => True

def run (isAnyAddr : Addr → Bool) (c : RoutedConn Addr) (events : List (Event Addr)) :
    RoutedConn Addr :=
  events.foldl (step isAnyAddr) c

end Check

/-! ## What every event keeps -/

/-- `path` is the path that ngtcp2 has, and the NAT64 path differs in the remote only. -/
structure Inv (c : RoutedConn Addr) : Prop where
  outbound : c.outbound = true
  current : c.current = c.path
  nat64 : ∀ p ∈ c.nat64Path, p.localAddr = c.path.localAddr
  pending : ∀ r ∈ c.pendingRoute, r.localAddr ≠ c.path.localAddr ∧ c.handshakeConfirmed = true
  attempts : ∀ a ∈ c.attempts, a.Allowed
  given : ∀ g ∈ c.given, g.OnPath

section Inv

variable {c : RoutedConn Addr} {host : HostRoutes Addr} {answer : MigrationResult}
  {target : Route Addr} {read : Read}

theorem inv_connect (host : HostRoutes Addr) (bound remote : Addr) :
    (connect host bound remote).Inv := by
  unfold connect
  split <;> constructor <;> simp

theorem Inv.setRoute (h : c.Inv) (nat64 : Option Addr) :
    (c.setRoute { localAddr := c.path.localAddr, nat64 }).Inv := by
  exact { h with nat64 := by simp [RoutedConn.setRoute] }

theorem Inv.migrate (h : c.Inv) (hmoves : target.localAddr ≠ c.path.localAddr)
    (hconfirmed : c.handshakeConfirmed = true) : (c.migrate answer target).1.Inv := by
  unfold RoutedConn.migrate
  split
  next => exact { h with pending := by simp }
  next hlive =>
    have hattempts : ∀ a ∈ (c.initiateMigration answer
        ⟨target.localAddr, c.path.remoteAddr⟩).attempts, a.Allowed := by
      intro a ha
      rcases List.mem_append.mp ha with ha | ha
      · exact h.attempts a ha
      · obtain rfl := List.mem_singleton.mp ha
        exact ⟨hconfirmed, by simpa using hlive, by rw [h.current], by rwa [h.current]⟩
    cases answer with
    | ok => exact ⟨h.outbound, rfl, by simp [RoutedConn.setRoute], by simp [RoutedConn.setRoute],
        hattempts, h.given⟩
    | connIdBlocked =>
      refine { h with attempts := hattempts, pending := ?_ }
      rintro r ⟨⟩
      exact ⟨hmoves, hconfirmed⟩
    | failed => exact { h with attempts := hattempts, pending := by simp }

theorem Inv.ngtcp2Read (h : c.Inv) {source : Addr} {path : Path Addr}
    (hpath : Given.OnPath ⟨source, path, c.current, c.nat64Remote⟩) :
    (c.ngtcp2Read source path read).Inv := by
  refine { h with pending := ?_, given := ?_ }
  · intro r hr
    obtain ⟨hmoves, hconfirmed⟩ := h.pending r hr
    exact ⟨hmoves, by simp [RoutedConn.ngtcp2Read, hconfirmed]⟩
  · intro g hg
    rcases List.mem_append.mp hg with hg | hg
    · exact h.given g hg
    · obtain rfl := List.mem_singleton.mp hg
      exact hpath

theorem Inv.readPacket (h : c.Inv) {source : Addr} {path : Path Addr}
    (hpath : Given.OnPath ⟨source, path, c.current, c.nat64Remote⟩) :
    (c.readPacket source path read).Inv := by
  have hread : (c.ngtcp2Read source path read).Inv := h.ngtcp2Read hpath
  unfold RoutedConn.readPacket
  dsimp only
  split
  next => exact hread
  next => exact { hread with }
  next =>
    split
    next => exact hread
    next target hpending =>
      obtain ⟨hmoves, hconfirmed⟩ := hread.pending target hpending
      exact hread.migrate hmoves hconfirmed

theorem Inv.handleConnPacket (h : c.Inv) {source : Addr} {path : Path Addr}
    (hpath : Given.OnPath ⟨source, path, c.current, c.nat64Remote⟩) :
    (c.handleConnPacket source path read).Inv := by
  unfold RoutedConn.handleConnPacket
  split_ifs
  · exact h
  · exact h
  · exact h
  · exact h.readPacket hpath

variable [DecidableEq Addr] {isAnyAddr : Addr → Bool}

/-- What `check_local_address` does. -/
inductive Checked (c : RoutedConn Addr) (host : HostRoutes Addr) (answer : MigrationResult) :
    RoutedConn Addr × LocalCheck → Prop where
  | halted : c.halted = true → Checked c host answer (c, .unchanged)
  | noRoute : c.halted = false → host.routeTo c.path.remoteAddr = none →
      Checked c host answer ({ c with lookups := c.lookups + 1 }, .unchanged)
  | moves {target : Route Addr} : c.halted = false →
      host.routeTo c.path.remoteAddr = some target → target.localAddr ≠ c.path.localAddr →
      c.handshakeConfirmed = true →
      Checked c host answer ({ c with lookups := c.lookups + 1 }.migrate answer target)
  | same {target : Route Addr} : c.halted = false →
      host.routeTo c.path.remoteAddr = some target →
      (c.handshakeConfirmed = true → target.localAddr = c.path.localAddr) →
      target.nat64 = c.nat64Remote →
      Checked c host answer
        ({ c with lookups := c.lookups + 1, pendingRoute := none }, .unchanged)
  | rerouted {target : Route Addr} : c.halted = false →
      host.routeTo c.path.remoteAddr = some target →
      (c.handshakeConfirmed = true → target.localAddr = c.path.localAddr) →
      target.nat64 ≠ c.nat64Remote →
      Checked c host answer
        ({ c with lookups := c.lookups + 1, pendingRoute := none }.setRoute
          { localAddr := c.path.localAddr, nat64 := target.nat64 }, .rerouted)

theorem checked (c : RoutedConn Addr) (host : HostRoutes Addr) (answer : MigrationResult) :
    Checked c host answer (c.checkLocalAddress host answer) := by
  unfold checkLocalAddress
  by_cases hhalted : c.halted = true
  · rw [if_pos hhalted]
    exact .halted hhalted
  · rw [if_neg hhalted]
    replace hhalted : c.halted = false := by simpa using hhalted
    cases hroute : host.routeTo c.path.remoteAddr with
    | none => simpa [hroute] using Checked.noRoute hhalted hroute
    | some target =>
      simp only [hroute]
      split_ifs with hmoves hnat64
      · exact .moves hhalted hroute hmoves.1 hmoves.2
      · exact .same hhalted hroute (by grind) hnat64
      · exact .rerouted hhalted hroute (by grind) hnat64

theorem Inv.checkLocalAddress (h : c.Inv) : (c.checkLocalAddress host answer).1.Inv := by
  have hchecked : Checked c host answer (c.checkLocalAddress host answer) := checked c host answer
  generalize c.checkLocalAddress host answer = r at hchecked
  cases hchecked with
  | halted => exact h
  | noRoute => exact { h with }
  | moves _ _ hmoves hconfirmed => exact Inv.migrate { h with } hmoves hconfirmed
  | same => exact { h with pending := by simp }
  | rerouted =>
    have hreset : { c with lookups := c.lookups + 1, pendingRoute := none }.Inv :=
      { h with pending := by simp }
    exact hreset.setRoute _

theorem Inv.localAddressMismatch (h : c.Inv) (arrivedOn : Addr) :
    (c.localAddressMismatch arrivedOn host answer).Inv := by
  unfold RoutedConn.localAddressMismatch
  split
  next => exact h
  next =>
    have hcheck : (c.checkLocalAddress host answer).1.Inv := h.checkLocalAddress
    dsimp only
    split
    next => exact { hcheck with }
    next => exact hcheck

/-- The path that `handle_packet` gives to a packet. -/
theorem Inv.onPath (h : c.Inv) (source : Addr) :
    Given.OnPath
      { source
        path :=
          ⟨c.path.localAddr, if c.nat64Remote = some source then c.path.remoteAddr else source⟩
        current := c.current
        nat64 := c.nat64Remote } := by
  constructor
  case localAddr => rw [h.current]
  case peer =>
    dsimp only
    rw [h.current]
    rintro (hpeer | hnat64)
    · rw [← hpeer, ite_self]
      exact congrArg _ hpeer
    · rw [if_pos hnat64]
  case other =>
    dsimp only
    intro hne
    by_cases hnat64 : c.nat64Remote = some source
    · rw [if_pos hnat64] at hne
      exact absurd h.current.symm hne
    · exact if_neg hnat64

theorem Inv.handlePacket (h : c.Inv) (arrived : Path Addr) :
    (c.handlePacket isAnyAddr arrived host answer read).Inv := by
  unfold RoutedConn.handlePacket
  rw [if_pos h.outbound]
  -- The path is read off after a migration that the packet itself has caused.
  generalize hd : (if !isAnyAddr arrived.localAddr && arrived.localAddr != c.path.localAddr then
    c.localAddressMismatch arrived.localAddr host answer else c) = d
  have hinv : d.Inv := by
    subst hd
    split
    next => exact h.localAddressMismatch arrived.localAddr
    next => exact h
  exact hinv.handleConnPacket (hinv.onPath arrived.remoteAddr)

theorem Inv.step_wrote (h : c.Inv) : c.step isAnyAddr (.wrote none) = c := by
  exact congrArg (fun path => { c with path }) h.current

theorem Inv.step (h : c.Inv) {e : Event Addr} (he : e.Validated) :
    (c.step isAnyAddr e).Inv := by
  cases e with
  | networkChanged host answer =>
    have hreset : { c with unconfirmedLocal := none }.Inv := { h with }
    rw [RoutedConn.step, RoutedConn.networkChanged, if_pos h.outbound]
    exact hreset.checkLocalAddress
  | packet arrived host answer read => exact h.handlePacket arrived
  | tooBig size pathMax host answer =>
    have hcheck : (c.checkLocalAddress host answer).1.Inv := h.checkLocalAddress
    rw [RoutedConn.step, packetTooBig]
    dsimp only
    split_ifs
    · exact h
    · exact { hcheck with }
    · exact hcheck
    · exact { h with }
  | unreachable host answer =>
    rw [RoutedConn.step, sendUnreachable, if_pos h.outbound]
    exact h.checkLocalAddress
  | wrote probe =>
    obtain rfl : probe = none := he
    rw [h.step_wrote]
    exact h
  | pathValidation remote success preferred =>
    cases preferred with
    | false => exact h
    | true =>
      obtain rfl : success = true := he rfl
      exact { h with
        current := by
          simp [RoutedConn.step, clientPathValidation, setRemoteAddr, RoutedConn.setRoute,
            h.current]
        nat64 := by
          simp [RoutedConn.step, clientPathValidation, setRemoteAddr, RoutedConn.setRoute] }
  | close => exact { h with }
  | drain => exact { h with }
  | die => exact { h with }

theorem Inv.run (h : c.Inv) {events : List (Event Addr)} (he : ∀ e ∈ events, e.Validated) :
    (c.run isAnyAddr events).Inv := by
  induction events generalizing c with
  | nil => exact h
  | cons e events ih =>
    exact ih (h.step (he e List.mem_cons_self)) fun e' he' => he e' (List.mem_cons_of_mem _ he')

/-- A probe takes the connection off the path that ngtcp2 has, and so does a preferred address that
was not validated: it becomes the connection's remote all the same. Nothing else does. -/
theorem Inv.step_path_iff (h : c.Inv) (e : Event Addr) :
    (c.step isAnyAddr e).path = (c.step isAnyAddr e).current ↔ e.KeepsPath c := by
  have hvalid (he : e.Validated) (hkeeps : e.KeepsPath c) :
      (c.step isAnyAddr e).path = (c.step isAnyAddr e).current ↔ e.KeepsPath c :=
    iff_of_true (h.step he).current.symm hkeeps
  cases e with
  | wrote probe =>
    cases probe with
    | none => exact hvalid rfl (by simp [Event.KeepsPath])
    | some p => simp [RoutedConn.step, Event.KeepsPath]
  | pathValidation remote success preferred =>
    by_cases he : preferred = true ∧ success = false
    · obtain ⟨rfl, rfl⟩ := he
      have hremote : (⟨c.path.localAddr, remote⟩ : Path Addr) = c.path ↔
          remote = c.path.remoteAddr :=
        ⟨congrArg Path.remoteAddr, by rintro rfl; rfl⟩
      simpa [RoutedConn.step, clientPathValidation, setRemoteAddr, RoutedConn.setRoute,
        Event.KeepsPath, h.current] using hremote
    · have he' : preferred = true → success = true := by simpa using he
      exact hvalid he' fun hp => .inl (he' hp)
  | _ => exact hvalid trivial trivial

end Inv

/-! ## Every run of a connection -/

section Runs

variable [DecidableEq Addr]

/-- In every run without probes and without a preferred address that fails to be validated, the
connection's path is the one that ngtcp2 has, its NAT64 path starts at the same local address, and
each packet that it gives to ngtcp2 has ngtcp2's path of that moment if it came from one of the
peer's addresses. Only those two can take it off that path. -/
theorem packets_given_on_path (isAnyAddr : Addr → Bool) (host : HostRoutes Addr)
    (bound remote : Addr) (events : List (Event Addr)) (he : ∀ e ∈ events, e.Validated) :
    let c := (connect host bound remote).run isAnyAddr events
    c.path = c.current ∧ c.sendPath.localAddr = c.current.localAddr ∧ (∀ g ∈ c.given, g.OnPath) ∧
      ∀ e, (c.step isAnyAddr e).path = (c.step isAnyAddr e).current ↔ e.KeepsPath c := by
  have h : ((connect host bound remote).run isAnyAddr events).Inv :=
    (inv_connect host bound remote).run he
  refine ⟨h.current.symm, ?_, h.given, h.step_path_iff⟩
  rw [h.current, sendPath]
  cases hnat64 : ((connect host bound remote).run isAnyAddr events).nat64Path with
  | none => rfl
  | some p => exact h.nat64 p hnat64

/-- A host that reaches every peer from one address. -/
def directHost (source : Nat) : HostRoutes Nat where
  localAddressFor _ := some source
  nat64Address _ := none

/-- A packet confirms the handshake, the peer's preferred address is validated, and a packet that
arrives elsewhere makes the connection migrate. -/
theorem packets_given_on_path_migrated :
    let c := (connect (directHost 1) 0 9).run (· == 0)
      [.packet ⟨1, 9⟩ (directHost 1) .ok { confirms := true }, .wrote none,
        .pathValidation 8 true true, .packet ⟨2, 8⟩ (directHost 2) .ok {}]
    c.path = ⟨2, 8⟩ ∧ c.current = ⟨2, 8⟩ ∧ ∀ g ∈ c.given, g.OnPath := by
  intro c
  obtain ⟨-, -, hgiven, -⟩ := packets_given_on_path (· == 0) (directHost 1) 0 9
    [.packet ⟨1, 9⟩ (directHost 1) .ok { confirms := true }, .wrote none,
      .pathValidation 8 true true, .packet ⟨2, 8⟩ (directHost 2) .ok {}]
    (by simp [Event.Validated])
  exact ⟨rfl, rfl, hgiven⟩

/-- In every such run, ngtcp2 is asked to migrate only when it may, and a migration that waits for
a connection ID is always one to another local address. -/
theorem migrations_allowed (isAnyAddr : Addr → Bool) (host : HostRoutes Addr) (bound remote : Addr)
    (events : List (Event Addr)) (he : ∀ e ∈ events, e.Validated) :
    let c := (connect host bound remote).run isAnyAddr events
    (∀ a ∈ c.attempts, a.Allowed) ∧
      ∀ r ∈ c.pendingRoute, r.localAddr ≠ c.current.localAddr ∧ c.handshakeConfirmed = true := by
  have h : ((connect host bound remote).run isAnyAddr events).Inv :=
    (inv_connect host bound remote).run he
  refine ⟨h.attempts, ?_⟩
  rw [h.current]
  exact h.pending

/-- The migration waits for a connection ID. -/
theorem migrations_allowed_waiting :
    let c := (connect (directHost 1) 0 9).run (· == 0)
      [.packet ⟨1, 9⟩ (directHost 1) .ok { confirms := true },
        .networkChanged (directHost 2) .connIdBlocked]
    c.attempts.length = 1 ∧ c.pendingRoute = some ⟨2, none⟩ ∧ ∀ a ∈ c.attempts, a.Allowed := by
  intro c
  obtain ⟨hattempts, -⟩ := migrations_allowed (· == 0) (directHost 1) 0 9
    [.packet ⟨1, 9⟩ (directHost 1) .ok { confirms := true },
      .networkChanged (directHost 2) .connIdBlocked] (by simp [Event.Validated])
  exact ⟨rfl, rfl, hattempts⟩

end Runs

end RoutedConn

end Libquic
