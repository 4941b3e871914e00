import Libquic.Connection.Migration

/-!
# A route that stays

Once the host reaches the peer by one route, and the endpoint has been told that the network has
changed, an outbound connection follows: it migrates at once, or with the first packet that
arrives after ngtcp2 has got a spare connection ID, and then leaves the route alone. While it is
on the host's route, packets that arrive on another local address cost one lookup between them.
-/
namespace Libquic

namespace RoutedConn

variable {Addr : Type}

/-- The connection is on the route. -/
structure Settled (c : RoutedConn Addr) (r : Route Addr) : Prop where
  localAddr : c.path.localAddr = r.localAddr
  nat64 : c.nat64Remote = r.nat64
  pending : c.pendingRoute = none

/-- The connection is on the route, or waits for a connection ID to move to it. -/
def Follows (c : RoutedConn Addr) (r : Route Addr) : Prop := c.Settled r ∨ c.pendingRoute = some r

/-- The host reaches the peer by `r`, and ngtcp2 neither refuses to migrate for good nor probes
another path. -/
def Event.Steady [DecidableEq Addr] (remote : Addr) (r : Route Addr) : Event Addr → Prop
  | .networkChanged host answer | .tooBig _ _ host answer | .unreachable host answer =>
    host.routeTo remote = some r ∧ answer ≠ .failed
  | .packet _ host answer read =>
    (host.routeTo remote = some r ∧ answer ≠ .failed) ∧ read.result ≠ .failed ∧ read.retry ≠ .failed
  | .wrote probe => probe = none
  | .pathValidation _ _ preferred => preferred = false
  | .close | .drain | .die => False

/-- A packet that ngtcp2 reads at a time when it has a spare connection ID. -/
def Event.Spare : Event Addr → Prop
  | .packet _ _ _ read => read.inClosingPeriod = false ∧ read.result = .ok ∧ read.retry = .ok
  | _ => False

/-- A live connection with a confirmed handshake to `remote`. -/
structure Ready (c : RoutedConn Addr) (remote : Addr) : Prop extends c.Inv where
  live : c.halted = false
  confirmed : c.handshakeConfirmed = true
  remote : c.path.remoteAddr = remote

/-- What a check of the route leaves alone. -/
structure Frame (c d : RoutedConn Addr) : Prop where
  halted : d.halted = c.halted
  confirmed : d.handshakeConfirmed = c.handshakeConfirmed
  remote : d.path.remoteAddr = c.path.remoteAddr

/-- The connection keeps its route, and asks ngtcp2 for nothing. -/
structure Stays (c d : RoutedConn Addr) : Prop where
  path : d.path = c.path
  nat64Path : d.nat64Path = c.nat64Path
  pending : d.pendingRoute = c.pendingRoute
  attempts : d.attempts = c.attempts

theorem Stays.trans {a b c : RoutedConn Addr} (h : a.Stays b) (h' : b.Stays c) : a.Stays c :=
  ⟨h'.path.trans h.path, h'.nat64Path.trans h.nat64Path, h'.pending.trans h.pending,
    h'.attempts.trans h.attempts⟩

/-- The connection goes on following the route; if it is on the route, it stays there. -/
structure Kept (remote : Addr) (r : Route Addr) (c d : RoutedConn Addr) : Prop where
  ready : d.Ready remote
  follows : d.Follows r
  stays : c.Settled r → c.Stays d

section Steady

variable {c d : RoutedConn Addr} {host : HostRoutes Addr} {answer : MigrationResult}
  {r : Route Addr} {read : Read} {remote source : Addr} {path : Path Addr}

theorem Settled.stays (h : c.Settled r) (hstays : c.Stays d) : d.Settled r where
  localAddr := by rw [hstays.path, h.localAddr]
  nat64 := by rw [nat64Remote, hstays.nat64Path, ← h.nat64, nat64Remote]
  pending := hstays.pending.trans h.pending

theorem Ready.frame (h : c.Ready remote) (hd : d.Inv) (hframe : c.Frame d) : d.Ready remote where
  toInv := hd
  live := hframe.halted.trans h.live
  confirmed := hframe.confirmed.trans h.confirmed
  remote := hframe.remote.trans h.remote

theorem frame_migrate (c : RoutedConn Addr) (answer : MigrationResult) (r : Route Addr) :
    c.Frame (c.migrate answer r).1 := by
  unfold migrate
  split
  next => exact ⟨rfl, rfl, rfl⟩
  next => cases answer <;> exact ⟨rfl, rfl, rfl⟩

theorem Ready.migrate (h : c.Ready remote) (hmoves : r.localAddr ≠ c.path.localAddr) :
    (c.migrate answer r).1.Ready remote :=
  h.frame (h.toInv.migrate hmoves h.confirmed) (frame_migrate c answer r)

theorem settled_migrate (hlive : c.halted = false) : (c.migrate .ok r).1.Settled r := by
  constructor <;> simp [migrate, hlive, setRoute, nat64Remote, Function.comp_def]

theorem follows_migrate (hlive : c.halted = false) (hanswer : answer ≠ .failed) :
    (c.migrate answer r).1.Follows r := by
  cases answer with
  | ok => exact .inl (settled_migrate hlive)
  | connIdBlocked => exact .inr (by simp [migrate, hlive])
  | failed => exact absurd rfl hanswer

theorem Ready.ngtcp2Read (h : c.Ready remote)
    (hpath : Given.OnPath ⟨source, path, c.current, c.nat64Remote⟩) :
    (c.ngtcp2Read source path read).Ready remote :=
  h.frame (h.toInv.ngtcp2Read hpath) ⟨rfl, by simp [RoutedConn.ngtcp2Read, h.confirmed], rfl⟩

theorem Kept.refl (h : c.Ready remote) (hfollows : c.Follows r) : Kept remote r c c :=
  ⟨h, hfollows, fun _ => ⟨rfl, rfl, rfl, rfl⟩⟩

theorem Kept.trans {a b c : RoutedConn Addr} (h : Kept remote r a b) (h' : Kept remote r b c) :
    Kept remote r a c where
  ready := h'.ready
  follows := h'.follows
  stays hsettled := (h.stays hsettled).trans (h'.stays (hsettled.stays (h.stays hsettled)))

/-- A change that no check of the route reads. -/
theorem Kept.aside (h : Kept remote r c d) {e : RoutedConn Addr} (hinv : e.Inv) (hframe : d.Frame e)
    (hstays : d.Stays e) : Kept remote r c e where
  ready := h.ready.frame hinv hframe
  follows := h.follows.imp (·.stays hstays) hstays.pending.trans
  stays hsettled := (h.stays hsettled).trans hstays

/-- A packet makes a migration that is pending happen, if ngtcp2 has a connection ID by then. -/
theorem Ready.handleConnPacket (h : c.Ready remote) (hfollows : c.Follows r)
    (hpath : Given.OnPath ⟨source, path, c.current, c.nat64Remote⟩)
    (hresult : read.result ≠ .failed) (hretry : read.retry ≠ .failed) :
    Kept remote r c (c.handleConnPacket source path read) ∧
      (read.inClosingPeriod = false → read.result = .ok → read.retry = .ok →
        (c.handleConnPacket source path read).Settled r) := by
  have hlive : c.draining = false ∧ c.dead = false := by
    have := h.live
    simp_all [RoutedConn.halted]
  have hstays : c.Stays (c.ngtcp2Read source path read) := ⟨rfl, rfl, rfl, rfl⟩
  have hread : Kept remote r c (c.ngtcp2Read source path read) :=
    ⟨h.ngtcp2Read hpath, hfollows.imp_left (·.stays hstays), fun _ => hstays⟩
  unfold RoutedConn.handleConnPacket
  split
  next hclosing => exact ⟨.refl h hfollows, by simp [hclosing]⟩
  next =>
    rw [if_neg (by simp [hlive.1]), if_neg (by simp [hlive.2])]
    unfold RoutedConn.readPacket
    cases hresult' : read.result with
    | draining => exact ⟨hread, by simp⟩
    | failed => exact absurd hresult' hresult
    | ok =>
      dsimp only
      rcases hread.follows with hsettled | hpending
      · rw [hsettled.pending]
        exact ⟨hread, fun _ _ _ => hsettled⟩
      · obtain ⟨hmoves, -⟩ := hread.ready.pending r hpending
        rw [hpending]
        refine ⟨⟨hread.ready.migrate hmoves, follows_migrate hread.ready.live hretry, ?_⟩, ?_⟩
        · intro hsettled
          cases hpending.symm.trans hsettled.pending
        · intro _ _ hok
          rw [hok]
          exact settled_migrate hread.ready.live

theorem handleConnPacket_of_settled (hsettled : c.Settled r) :
    (c.handleConnPacket source path read).lookups = c.lookups ∧
      (c.handleConnPacket source path read).unconfirmedLocal = c.unconfirmedLocal := by
  have hpending : (c.ngtcp2Read source path read).pendingRoute = none := hsettled.pending
  unfold handleConnPacket readPacket
  dsimp only
  rw [hpending]
  split_ifs
  · exact ⟨rfl, rfl⟩
  · exact ⟨rfl, rfl⟩
  · exact ⟨rfl, rfl⟩
  · cases read.result <;> exact ⟨rfl, rfl⟩

variable [DecidableEq Addr]

theorem frame_checkLocalAddress (c : RoutedConn Addr) (host : HostRoutes Addr)
    (answer : MigrationResult) : c.Frame (c.checkLocalAddress host answer).1 := by
  have hchecked : Checked c host answer (c.checkLocalAddress host answer) := checked c host answer
  generalize c.checkLocalAddress host answer = result at hchecked
  cases hchecked with
  | moves =>
    have hframe := frame_migrate { c with lookups := c.lookups + 1 } answer ‹Route Addr›
    exact ⟨hframe.halted, hframe.confirmed, hframe.remote⟩
  | _ => exact ⟨rfl, rfl, rfl⟩

theorem Ready.checkLocalAddress (h : c.Ready remote) :
    (c.checkLocalAddress host answer).1.Ready remote :=
  h.frame h.toInv.checkLocalAddress (frame_checkLocalAddress c host answer)

/-- Whatever the connection's route was, a check has it follow the host's. -/
theorem Ready.follows_checkLocalAddress (h : c.Ready remote) (hroute : host.routeTo remote = some r)
    (hanswer : answer ≠ .failed) :
    (c.checkLocalAddress host answer).1.Follows r ∧
      (answer = .ok → (c.checkLocalAddress host answer).1.Settled r) := by
  rw [← h.remote] at hroute
  have hchecked : Checked c host answer (c.checkLocalAddress host answer) := checked c host answer
  generalize c.checkLocalAddress host answer = result at hchecked
  cases hchecked with
  | halted hhalted => simp [h.live] at hhalted
  | noRoute _ hnone => simp [hnone] at hroute
  | moves hlive hsome =>
    obtain rfl := Option.some.inj (hroute.symm.trans hsome)
    refine ⟨follows_migrate hlive hanswer, ?_⟩
    rintro rfl
    exact settled_migrate hlive
  | same _ hsome hlocal hnat64 =>
    obtain rfl := Option.some.inj (hroute.symm.trans hsome)
    have hsettled : { c with lookups := c.lookups + 1, pendingRoute := none }.Settled r :=
      ⟨(hlocal h.confirmed).symm, hnat64.symm, rfl⟩
    exact ⟨.inl hsettled, fun _ => hsettled⟩
  | rerouted _ hsome hlocal =>
    obtain rfl := Option.some.inj (hroute.symm.trans hsome)
    have hsettled : ({ c with lookups := c.lookups + 1, pendingRoute := none }.setRoute
        { localAddr := c.path.localAddr, nat64 := r.nat64 }).Settled r := by
      refine ⟨(hlocal h.confirmed).symm, ?_, rfl⟩
      simp [setRoute, nat64Remote, Function.comp_def]
    exact ⟨.inl hsettled, fun _ => hsettled⟩

theorem Ready.settled_checkLocalAddress (h : c.Ready remote)
    (hroute : host.routeTo remote = some r) (hsettled : c.Settled r) :
    c.checkLocalAddress host answer = ({ c with lookups := c.lookups + 1 }, .unchanged) := by
  rw [← h.remote] at hroute
  have hchecked : Checked c host answer (c.checkLocalAddress host answer) := checked c host answer
  generalize c.checkLocalAddress host answer = result at hchecked
  cases hchecked with
  | halted hhalted => simp [h.live] at hhalted
  | noRoute _ hnone => simp [hnone] at hroute
  | moves _ hsome hmoves =>
    obtain rfl := Option.some.inj (hroute.symm.trans hsome)
    exact absurd hsettled.localAddr.symm hmoves
  | same =>
    rw [← hsettled.pending]
  | rerouted _ hsome _ hnat64 =>
    obtain rfl := Option.some.inj (hroute.symm.trans hsome)
    exact absurd hsettled.nat64.symm hnat64

theorem Ready.kept_checkLocalAddress (h : c.Ready remote) (hroute : host.routeTo remote = some r)
    (hanswer : answer ≠ .failed) : Kept remote r c (c.checkLocalAddress host answer).1 where
  ready := h.checkLocalAddress
  follows := (h.follows_checkLocalAddress hroute hanswer).1
  stays hsettled := by
    rw [h.settled_checkLocalAddress hroute hsettled]
    exact ⟨rfl, rfl, rfl, rfl⟩

theorem Ready.localAddressMismatch (h : c.Ready remote) (hfollows : c.Follows r)
    (hroute : host.routeTo remote = some r) (hanswer : answer ≠ .failed) (arrivedOn : Addr) :
    Kept remote r c (c.localAddressMismatch arrivedOn host answer) := by
  unfold RoutedConn.localAddressMismatch
  split
  next => exact .refl h hfollows
  next =>
    have hcheck := h.kept_checkLocalAddress hroute hanswer
    dsimp only
    split
    next => exact hcheck.aside { hcheck.ready.toInv with } ⟨rfl, rfl, rfl⟩ ⟨rfl, rfl, rfl, rfl⟩
    next => exact hcheck

theorem Ready.handlePacket (isAnyAddr : Addr → Bool) (h : c.Ready remote) (hfollows : c.Follows r)
    (hroute : host.routeTo remote = some r) (hanswer : answer ≠ .failed)
    (hresult : read.result ≠ .failed) (hretry : read.retry ≠ .failed) (arrived : Path Addr) :
    Kept remote r c (c.handlePacket isAnyAddr arrived host answer read) ∧
      (read.inClosingPeriod = false → read.result = .ok → read.retry = .ok →
        (c.handlePacket isAnyAddr arrived host answer read).Settled r) := by
  unfold RoutedConn.handlePacket
  rw [if_pos h.outbound]
  generalize hd : (if !isAnyAddr arrived.localAddr && arrived.localAddr != c.path.localAddr then
    c.localAddressMismatch arrived.localAddr host answer else c) = d
  have hkept : Kept remote r c d := by
    subst hd
    split
    next => exact h.localAddressMismatch hfollows hroute hanswer arrived.localAddr
    next => exact .refl h hfollows
  obtain ⟨hkept', hspare⟩ := hkept.ready.handleConnPacket hkept.follows
    (hkept.ready.onPath arrived.remoteAddr) hresult hretry
  exact ⟨hkept.trans hkept', hspare⟩

/-- One step of a steady run, from a connection that follows the route. -/
theorem Ready.step (isAnyAddr : Addr → Bool) (h : c.Ready remote) (hfollows : c.Follows r)
    {e : Event Addr} (he : e.Steady remote r) :
    Kept remote r c (c.step isAnyAddr e) ∧ (e.Spare → (c.step isAnyAddr e).Settled r) := by
  cases e with
  | networkChanged host answer =>
    have hreset : Kept remote r c { c with unconfirmedLocal := none } :=
      (Kept.refl h hfollows).aside { h.toInv with } ⟨rfl, rfl, rfl⟩ ⟨rfl, rfl, rfl, rfl⟩
    rw [RoutedConn.step, RoutedConn.networkChanged, if_pos h.outbound]
    exact ⟨hreset.trans (hreset.ready.kept_checkLocalAddress he.1 he.2), by simp [Event.Spare]⟩
  | packet arrived host answer read =>
    obtain ⟨⟨hroute, hanswer⟩, hresult, hretry⟩ := he
    obtain ⟨hkept, hspare⟩ :=
      h.handlePacket isAnyAddr hfollows hroute hanswer hresult hretry arrived
    exact ⟨hkept, fun hs => hspare hs.1 hs.2.1 hs.2.2⟩
  | tooBig size pathMax host answer =>
    have hcheck := h.kept_checkLocalAddress he.1 he.2
    rw [RoutedConn.step, packetTooBig, if_pos h.outbound]
    dsimp only
    refine ⟨?_, by simp [Event.Spare]⟩
    split_ifs
    · exact .refl h hfollows
    · exact hcheck.aside { hcheck.ready.toInv with } ⟨rfl, rfl, rfl⟩ ⟨rfl, rfl, rfl, rfl⟩
    · exact hcheck
  | unreachable host answer =>
    rw [RoutedConn.step, sendUnreachable, if_pos h.outbound]
    exact ⟨h.kept_checkLocalAddress he.1 he.2, by simp [Event.Spare]⟩
  | wrote probe =>
    obtain rfl : probe = none := he
    rw [h.step_wrote]
    exact ⟨.refl h hfollows, by simp [Event.Spare]⟩
  | pathValidation remote success preferred =>
    have hpreferred : preferred = false := he
    rw [RoutedConn.step, clientPathValidation, hpreferred]
    exact ⟨.refl h hfollows, by simp [Event.Spare]⟩
  | close | drain | die => cases he

/-- A steady run keeps following the route, and stays on it once it is there. -/
theorem Ready.run (isAnyAddr : Addr → Bool) (h : c.Ready remote) (hfollows : c.Follows r)
    {events : List (Event Addr)} (hsteady : ∀ e ∈ events, e.Steady remote r) :
    Kept remote r c (c.run isAnyAddr events) ∧
      ((∃ e ∈ events, e.Spare) → (c.run isAnyAddr events).Settled r) := by
  induction events generalizing c with
  | nil => exact ⟨.refl h hfollows, by simp⟩
  | cons e events ih =>
    obtain ⟨hkept, hspare⟩ :=
      h.step isAnyAddr hfollows (hsteady e List.mem_cons_self)
    obtain ⟨hrest, hspare'⟩ :=
      ih hkept.ready hkept.follows fun e he => hsteady e (List.mem_cons_of_mem _ he)
    refine ⟨hkept.trans hrest, ?_⟩
    rintro ⟨e', he', hs⟩
    rcases List.mem_cons.mp he' with rfl | he'
    · exact (hspare hs).stays (hrest.stays (hspare hs))
    · exact hspare' ⟨e', he', hs⟩

/-! ## Packets that arrive elsewhere -/

/-- No packet that arrives on this address leads to a check. -/
def Known (isAnyAddr : Addr → Bool) (c : RoutedConn Addr) (arrivedOn : Addr) : Prop :=
  isAnyAddr arrivedOn = true ∨ arrivedOn = c.path.localAddr ∨ c.unconfirmedLocal = some arrivedOn

theorem localAddressMismatch_of_settled (h : c.Ready remote) (hsettled : c.Settled r)
    (hroute : host.routeTo remote = some r) (arrivedOn : Addr) :
    c.localAddressMismatch arrivedOn host answer =
      if c.unconfirmedLocal = some arrivedOn then c
      else { c with lookups := c.lookups + 1, unconfirmedLocal := some arrivedOn } := by
  unfold localAddressMismatch
  rw [h.settled_checkLocalAddress hroute hsettled, h.confirmed, hsettled.pending]
  simp

/-- A packet on a known address costs no lookup, and one on another makes its address known. -/
theorem Ready.lookups_handlePacket (isAnyAddr : Addr → Bool) (h : c.Ready remote)
    (hsettled : c.Settled r) (hroute : host.routeTo remote = some r) (arrived : Path Addr)
    (answer : MigrationResult) (read : Read) :
    let d := c.handlePacket isAnyAddr arrived host answer read
    (c.Known isAnyAddr arrived.localAddr →
        d.lookups = c.lookups ∧ d.unconfirmedLocal = c.unconfirmedLocal) ∧
      (¬ c.Known isAnyAddr arrived.localAddr →
        d.lookups = c.lookups + 1 ∧ d.unconfirmedLocal = some arrived.localAddr) := by
  unfold RoutedConn.handlePacket
  rw [if_pos h.outbound, localAddressMismatch_of_settled h hsettled hroute]
  constructor
  · intro hknown
    have hsame : (if !isAnyAddr arrived.localAddr && arrived.localAddr != c.path.localAddr then
        if c.unconfirmedLocal = some arrived.localAddr then c
        else { c with lookups := c.lookups + 1, unconfirmedLocal := some arrived.localAddr }
        else c) = c := by
      rcases hknown with hany | hlocal | hunconfirmed
      · rw [if_neg (by simp [hany])]
      · rw [if_neg (by simp [hlocal])]
      · rw [if_pos hunconfirmed, ite_self]
    rw [hsame]
    exact handleConnPacket_of_settled hsettled
  · intro hknown
    obtain ⟨hany, hlocal, hunconfirmed⟩ := not_or.mp hknown |>.imp_right not_or.mp
    rw [if_pos (by simp [hany, hlocal]), if_neg hunconfirmed]
    exact handleConnPacket_of_settled (hsettled.stays ⟨rfl, rfl, rfl, rfl⟩)

/-- The event is a packet that arrives on this local address. -/
def Event.ArrivesOn (arrivedOn : Addr) : Event Addr → Prop
  | .packet arrived _ _ _ => arrived.localAddr = arrivedOn
  | _ => False

theorem Ready.lookups_run_known (isAnyAddr : Addr → Bool) (h : c.Ready remote)
    (hsettled : c.Settled r) {arrivedOn : Addr} (hknown : c.Known isAnyAddr arrivedOn)
    {events : List (Event Addr)}
    (hevents : ∀ e ∈ events, e.Steady remote r ∧ e.ArrivesOn arrivedOn) :
    (c.run isAnyAddr events).lookups = c.lookups := by
  induction events generalizing c with
  | nil => rfl
  | cons e events ih =>
    obtain ⟨hsteady, harrives⟩ := hevents e List.mem_cons_self
    obtain ⟨hkept, -⟩ := h.step isAnyAddr (.inl hsettled) hsteady
    have hstays := hkept.stays hsettled
    cases e with
    | packet arrived host answer read =>
      obtain rfl : arrived.localAddr = arrivedOn := harrives
      obtain ⟨hlookups, hunconfirmed⟩ :=
        (h.lookups_handlePacket isAnyAddr hsettled hsteady.1.1 arrived answer read).1 hknown
      have hknown' : (c.step isAnyAddr (.packet arrived host answer read)).Known isAnyAddr
          arrived.localAddr := by
        rw [Known, hstays.path]
        exact hknown.imp_right (·.imp_right hunconfirmed.trans)
      exact (ih hkept.ready (hsettled.stays hstays) hknown' fun e he =>
        hevents e (List.mem_cons_of_mem _ he)).trans hlookups
    | _ => cases harrives

theorem Ready.lookups_run (isAnyAddr : Addr → Bool) (h : c.Ready remote) (hsettled : c.Settled r)
    {arrivedOn : Addr} {events : List (Event Addr)}
    (hevents : ∀ e ∈ events, e.Steady remote r ∧ e.ArrivesOn arrivedOn) :
    (c.run isAnyAddr events).lookups ≤ c.lookups + 1 := by
  by_cases hknown : c.Known isAnyAddr arrivedOn
  · rw [h.lookups_run_known isAnyAddr hsettled hknown hevents]
    exact Nat.le_succ _
  -- The first packet looks up the route and makes the address known for the rest.
  cases events with
  | nil => exact Nat.le_succ _
  | cons e events =>
    obtain ⟨hsteady, harrives⟩ := hevents e List.mem_cons_self
    obtain ⟨hkept, -⟩ := h.step isAnyAddr (.inl hsettled) hsteady
    cases e with
    | packet arrived host answer read =>
      obtain rfl : arrived.localAddr = arrivedOn := harrives
      obtain ⟨hlookups, hunconfirmed⟩ :=
        (h.lookups_handlePacket isAnyAddr hsettled hsteady.1.1 arrived answer read).2 hknown
      exact ((hkept.ready.lookups_run_known isAnyAddr (hsettled.stays (hkept.stays hsettled))
        (.inr (.inr hunconfirmed)) fun e he => hevents e (List.mem_cons_of_mem _ he)).trans
          hlookups).le
    | _ => cases harrives

end Steady

/-! ## Every run of a connection -/

section Runs

variable [DecidableEq Addr]

/-- Once the host reaches the peer by `r` and the endpoint has been told of a change, a live
connection is on `r` or waits to migrate to it. It gets there with the first packet that is
read while ngtcp2 has a connection ID to spare, and then stays without further attempts. -/
theorem route_followed (isAnyAddr : Addr → Bool) (first host : HostRoutes Addr)
    (bound remote : Addr) (before after later : List (Event Addr))
    (answer : MigrationResult) (r : Route Addr) :
    let c := (connect first bound remote).run isAnyAddr before
    let d := (c.step isAnyAddr (.networkChanged host answer)).run isAnyAddr after
    (∀ e ∈ before, e.Validated) → c.halted = false → c.handshakeConfirmed = true →
    host.routeTo c.path.remoteAddr = some r → answer ≠ .failed →
    (∀ e ∈ after ++ later, e.Steady c.path.remoteAddr r) →
    (d.Settled r ∨ d.pendingRoute = some r) ∧
      (answer = .ok ∨ (∃ e ∈ after, e.Spare) → d.Settled r) ∧
      (d.Settled r → d.Stays (d.run isAnyAddr later)) := by
  intro c d hbefore hlive hconfirmed hroute hanswer hsteady
  have hready : c.Ready c.path.remoteAddr :=
    ⟨(inv_connect first bound remote).run hbefore, hlive, hconfirmed, rfl⟩
  have hreset : Ready { c with unconfirmedLocal := none } c.path.remoteAddr :=
    hready.frame { hready.toInv with } ⟨rfl, rfl, rfl⟩
  have hchanged : c.step isAnyAddr (.networkChanged host answer) =
      ({ c with unconfirmedLocal := none }.checkLocalAddress host answer).1 := by
    rw [step, networkChanged, if_pos hready.outbound]
  obtain ⟨hfollows, hok⟩ := hreset.follows_checkLocalAddress hroute hanswer
  have hready' : ({ c with unconfirmedLocal := none }.checkLocalAddress host answer).1.Ready
      c.path.remoteAddr := hreset.checkLocalAddress
  rw [← hchanged] at hfollows hok hready'
  obtain ⟨hkept, hspare⟩ := hready'.run isAnyAddr hfollows fun e he =>
    hsteady e (List.mem_append_left _ he)
  refine ⟨hkept.follows, ?_, ?_⟩
  · rintro (hanswer | hs)
    · exact (hok hanswer).stays (hkept.stays (hok hanswer))
    · exact hspare hs
  · exact (hkept.ready.run isAnyAddr hkept.follows fun e he =>
      hsteady e (List.mem_append_right _ he)).1.stays

/-- A host that reaches 9 through a NAT64 only, at 64. -/
def nat64Host : HostRoutes Nat where
  localAddressFor a := if a = 64 then some 3 else none
  nat64Address a := if a = 9 then some 64 else none

theorem route_followed_nat64 :
    let c := (connect (directHost 1) 0 9).run (· == 0)
      [.packet ⟨1, 9⟩ (directHost 1) .ok { confirms := true }]
    let d := (c.step (· == 0) (.networkChanged nat64Host .connIdBlocked)).run (· == 0)
      [.packet ⟨3, 64⟩ nat64Host .ok { retry := .connIdBlocked }, .packet ⟨0, 64⟩ nat64Host .ok {}]
    d.Settled ⟨3, some 64⟩ ∧ d.Stays (d.run (· == 0) [.unreachable nat64Host .ok]) := by
  obtain ⟨-, hspare, hstays⟩ := route_followed (· == 0) (directHost 1) nat64Host 0 9
    [.packet ⟨1, 9⟩ (directHost 1) .ok { confirms := true }]
    [.packet ⟨3, 64⟩ nat64Host .ok { retry := .connIdBlocked }, .packet ⟨0, 64⟩ nat64Host .ok {}]
    [.unreachable nat64Host .ok] .connIdBlocked ⟨3, some 64⟩ (by simp [Event.Validated])
    rfl rfl rfl (by simp)
    (by simp [Event.Steady]; rfl)
  have hsettled := hspare (.inr ⟨.packet ⟨0, 64⟩ nat64Host .ok {}, by simp, rfl, rfl, rfl⟩)
  exact ⟨hsettled, hstays hsettled⟩

/-- Asymmetric routing costs one lookup: of the packets that arrive on one local address, while
the host still sends from the connection's own, only the first has the host asked. -/
theorem arrivals_looked_up_once (isAnyAddr : Addr → Bool) (host : HostRoutes Addr)
    (bound remote : Addr) (before events : List (Event Addr)) (r : Route Addr) (arrivedOn : Addr) :
    let c := (connect host bound remote).run isAnyAddr before
    (∀ e ∈ before, e.Validated) → c.halted = false → c.handshakeConfirmed = true → c.Settled r →
    (∀ e ∈ events, e.Steady c.path.remoteAddr r ∧ e.ArrivesOn arrivedOn) →
    (c.run isAnyAddr events).lookups ≤ c.lookups + 1 := by
  intro c hbefore hlive hconfirmed hsettled hevents
  have hready : c.Ready c.path.remoteAddr :=
    ⟨(inv_connect host bound remote).run hbefore, hlive, hconfirmed, rfl⟩
  exact hready.lookups_run isAnyAddr hsettled hevents

theorem arrivals_looked_up_once_direct :
    let c := (connect (directHost 1) 0 9).run (· == 0)
      [.packet ⟨1, 9⟩ (directHost 1) .ok { confirms := true }]
    (c.run (· == 0) [.packet ⟨2, 9⟩ (directHost 1) .ok {}, .packet ⟨2, 9⟩ (directHost 1) .ok {}]
      ).lookups ≤ c.lookups + 1 :=
  arrivals_looked_up_once (· == 0) (directHost 1) 0 9
    [.packet ⟨1, 9⟩ (directHost 1) .ok { confirms := true }]
    [.packet ⟨2, 9⟩ (directHost 1) .ok {}, .packet ⟨2, 9⟩ (directHost 1) .ok {}]
    ⟨1, none⟩ 2 (by simp [Event.Validated]) rfl rfl ⟨rfl, rfl, rfl⟩
    (by simp [Event.Steady, Event.ArrivesOn]; rfl)

end Runs

end RoutedConn

end Libquic
