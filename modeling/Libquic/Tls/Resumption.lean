import Libquic.Tls.RemoteKey
import Libquic.Tls.SessionStore
import Libquic.Tls.TicketBuffer
import Mathlib.Logic.Function.Basic

/-!
# Session tickets: the connections that get and use them

The outbound connections made with one set of credentials, which share its default store. Each
takes a ticket out of the store when it is made, for the key it expects and the address it is
made for; it gets tickets after its handshake, and they go into the store under its `remote_key`
and the address it then has. That key is the expected one until `check_established` takes the
one that gnutls reports. A handshake is either a full one, in which `validate_remote_key` decides
on the key that gnutls has authenticated, or it resumes the session of the connection's ticket,
and then nothing is verified: gnutls reports the key of the session that is resumed.
-/
namespace Libquic

open Lib Lib.Bencode

variable {Addr P C : Type}

/-- What a connection is made with. History, as far as the code goes: nothing reads it later. -/
structure ConnStart (Addr : Type) where
  address : Addr
  createdAt : Nat
  /-- The number of the ticket that the store returned. -/
  extracted : Option Nat
  /-- The ticket that gnutls accepted as the session to resume, with that number. -/
  ticket : Option (Nat × SessionData)

structure ClientConn (Addr : Type) where
  session : GnutlsSession
  remote : Addr
  remotePubkey : Bytes
  establishHookCalled : Bool := false
  /-- What gnutls reports of the peer, which is nothing before the handshake has completed. -/
  peers : PeerCerts := ⟨.unknown, []⟩
  /-- The handshake has been refused. -/
  failed : Bool := false
  start : ConnStart Addr
  /-- The peer's key, once gnutls has authenticated it. A history variable as well. -/
  authenticated : Option GtlsKey := none

/-- A new connection, with the entry that the store returned and whether gnutls accepts it. -/
def ClientConn.make (O : ListLib P C Fault) (session : GnutlsSession) (key : Bytes)
    (address : Addr) (now : Nat) (entry : Option StoredSession) (setData : Bool) :
    ClientConn Addr where
  session := session
  remote := address
  remotePubkey := key
  start := {
    address := address
    createdAt := now
    extracted := entry.map (·.serial)
    ticket := if setData then
        entry.bind fun e =>
          (extractSessionData O (some (.ok (some e.data)))).map fun d => (e.serial, d)
      else none }

/-- A ticket that was stored: by which connection, and what was true of it at the time. -/
structure TicketReceipt (Addr : Type) where
  conn : Nat
  authenticated : Option GtlsKey
  address : Addr
  remotePubkey : Bytes
  data : SessionData
  expiry : Nat

structure ClientCreds (Addr : Type) where
  storage : Bytes × Addr → List StoredSession := fun _ => []
  now : Nat := 0
  conns : Nat → Option (ClientConn Addr) := fun _ => none
  nextConn : Nat := 0
  /-- The tickets stored, in order. A history variable. -/
  receipts : List (TicketReceipt Addr) := []

namespace ClientCreds

variable [DecidableEq Addr]

def setConn (x : ClientCreds Addr) (i : Nat) (c : ClientConn Addr) : ClientCreds Addr :=
  { x with conns := Function.update x.conns i (some c) }

def addConn (x : ClientCreds Addr) (c : ClientConn Addr) : ClientCreds Addr :=
  { x.setConn x.nextConn c with nextConn := x.nextConn + 1 }

/-- The constructors of `Connection` and `GNUTLSSession` for an outbound connection; `setData` is
whether gnutls accepts the session data, if there is any. -/
def connect (O : ListLib P C Fault) (x : ClientCreds Addr) (key : Option Bytes) (address : Addr)
    (setData : Bool) : Except String (ClientCreds Addr) :=
  match key with
  | none => .error "No remote pubkey provided for outbound connection key verification"
  | some key => do
    let session ← GnutlsSession.makeSession {} true (some key)
    match session.expectedRemoteKey with
    | none => return x.addConn (.make O session key address x.now none setData)
    | some expected =>
      let remote := (expected.1, address)
      let (entry, mine) := extractTicket x.now (x.storage remote)
      return { x with storage := Function.update x.storage remote mine }.addConn
        (.make O session key address x.now entry setData)

/-- A handshake in which gnutls has authenticated the key `k`. -/
def handshake (x : ClientCreds Addr) (i : Nat) (resumed : Bool) (k : GtlsKey) (peers : PeerCerts)
    (alpn : Bytes) : Except Fault (ClientCreds Addr) :=
  match x.conns i with
  | none => .ok x
  | some c =>
    if resumed then .ok (x.setConn i { c with peers := peers, authenticated := some k })
    else do
      let (success, session) ← c.session.validateRemoteKey peers alpn
      if success then
        return x.setConn i { c with session := session, peers := peers, authenticated := some k }
      else return x.setConn i { c with session := session, failed := true }

/-- `client_session_cb` for a new ticket. -/
def newSessionTicket (O : ListLib P C Fault) (x : ClientCreds Addr) (i : Nat)
    (data tp : Option Bytes) (expireTime : Nat) : Except Fault (ClientCreds Addr) :=
  match x.conns i, data with
  | some c, some ticket => do
    match ← storeSessionTicket O true ticket tp expireTime with
    | none => return x
    | some (data, expiry) =>
      let remote := (c.remotePubkey, c.remote)
      let entry : StoredSession := ⟨data, expiry, x.receipts.length⟩
      return { x with
        storage := Function.update x.storage remote (storeTicket (x.storage remote) entry)
        receipts := x.receipts ++
          [⟨i, c.authenticated, c.remote, c.remotePubkey, ⟨ticket, tp.getD []⟩, expiry⟩] }
  | _, _ => .ok x

/-- `Connection::check_established`, less its callback. -/
def checkEstablished (x : ClientCreds Addr) (i : Nat) : ClientCreds Addr :=
  match x.conns i with
  | none => x
  | some c =>
    if c.establishHookCalled then x
    else
      let (key, session) := c.session.remoteKeyBytes c.peers
      x.setConn i { c with establishHookCalled := true, session := session, remotePubkey := key }

def setRemoteAddr (x : ClientCreds Addr) (i : Nat) (address : Addr) : ClientCreds Addr :=
  match x.conns i with
  | none => x
  | some c => x.setConn i { c with remote := address }

inductive Op (Addr : Type) where
  | connect (key : Option Bytes) (address : Addr) (setData : Bool)
  | handshake (i : Nat) (resumed : Bool) (k : GtlsKey) (peers : PeerCerts) (alpn : Bytes)
  | newSessionTicket (i : Nat) (data tp : Option Bytes) (expireTime : Nat)
  | checkEstablished (i : Nat)
  | setRemoteAddr (i : Nat) (address : Addr)
  /-- Time passes. -/
  | advance (nanos : Nat)

/-- The connection is there, and its handshake has not been refused. -/
def Live (x : ClientCreds Addr) (i : Nat) (c : ClientConn Addr) : Prop :=
  x.conns i = some c ∧ c.failed = false

/-- gnutls reports the key that it has authenticated, which in a resumed session is that of the
session in which the ticket was received. Tickets come after the handshake, and ngtcp2 encodes
the transport parameters into 512 bytes at most. -/
def Enabled (x : ClientCreds Addr) : Op Addr → Prop
  | .handshake i resumed k peers _ => ∃ c, x.Live i c ∧ c.authenticated = none ∧
      peers.Presents k ∧ (resumed = true → ∃ n d r, c.start.ticket = some (n, d) ∧
        x.receipts[n]? = some r ∧ r.authenticated = some k)
  | .newSessionTicket i _ tp _ =>
    (∃ c, x.Live i c ∧ c.authenticated ≠ none) ∧ ∀ p ∈ tp, p.length ≤ 512
  | .checkEstablished i => ∃ c, x.Live i c
  | _ => True

def step (O : ListLib P C Fault) (x : ClientCreds Addr) : Op Addr → Except Fault (ClientCreds Addr)
  | .connect key address setData => .ok ((x.connect O key address setData).toOption.getD x)
  | .handshake i resumed k peers alpn => x.handshake i resumed k peers alpn
  | .newSessionTicket i data tp expireTime => x.newSessionTicket O i data tp expireTime
  | .checkEstablished i => .ok (x.checkEstablished i)
  | .setRemoteAddr i address => .ok (x.setRemoteAddr i address)
  | .advance nanos => .ok { x with now := x.now + nanos }

def machine (Addr : Type) [DecidableEq Addr] (O : ListLib P C Fault) :
    Machine (ClientCreds Addr) (Op Addr) Fault where
  initial x := (∀ remote, x.storage remote = []) ∧ (∀ i, x.conns i = none) ∧ x.receipts = []
  enabled := Enabled
  step := step O

end ClientCreds

/-! ## The keys of one connection -/

/-- A connection that expects the key `K`. Whatever key it has from gnutls is `K`; its
`remote_key` can only be empty instead, if it was asked for before the handshake. -/
structure ClientConn.Keys (c : ClientConn Addr) (K : GtlsKey) : Prop where
  isClient : c.session.isClient = true
  expected : c.session.expectedRemoteKey = some K
  pubkey : c.remotePubkey = K.1 ∨ c.remotePubkey = []
  authenticated : ∀ k, c.authenticated = some k → k = K ∧ c.peers.Presents K
  remoteKey : c.failed = false → ∀ k, c.session.remoteKey = some k →
    k = K ∧ c.authenticated ≠ none
  unloaded : c.session.loadedRemoteKey = false → c.session.remoteKey = none
  unreported : c.failed = false → c.authenticated = none → c.peers = ⟨.unknown, []⟩

namespace ClientConn

variable {c : ClientConn Addr} {K k : GtlsKey}

theorem not_presents_nil (k : GtlsKey) : ¬ PeerCerts.Presents ⟨.unknown, []⟩ k := by
  rintro ⟨hraw, -⟩
  cases hraw

/-- No key has been loaded before the handshake. -/
theorem Keys.no_key (h : c.Keys K) (hlive : c.failed = false) (hauth : c.authenticated = none) :
    c.session.remoteKey = none := by
  by_contra hsome
  obtain ⟨k, hk⟩ := Option.ne_none_iff_exists'.mp hsome
  exact (h.remoteKey hlive k hk).2 hauth

/-- A full handshake is accepted exactly if the authenticated key is the expected one. -/
theorem Keys.validate (h : c.Keys K) (hlive : c.failed = false) (hauth : c.authenticated = none)
    {peers : PeerCerts} (hk : peers.Presents k) (alpn : Bytes) :
    c.session.validateRemoteKey peers alpn =
      .ok (decide (k = K), { c.session with remoteKey := some k, loadedRemoteKey := true }) := by
  have hnone := h.no_key hlive hauth
  obtain ⟨key, hload, hkey⟩ := GnutlsSession.loadRemoteKey_spec c.session peers hnone
  obtain rfl := (hkey k).mp hk
  have hvalid := (GnutlsSession.validateRemoteKey_client peers alpn h.isClient h.expected hnone).1
  rw [hvalid k hk, hload]

theorem Keys.accepted (h : c.Keys K) {peers : PeerCerts} (hk : peers.Presents K) :
    Keys { c with
      session := { c.session with remoteKey := some K, loadedRemoteKey := true }
      peers := peers, authenticated := some K } K where
  isClient := h.isClient
  expected := h.expected
  pubkey := h.pubkey
  authenticated k heq := ⟨(Option.some.inj heq).symm, hk⟩
  remoteKey _ k heq := ⟨(Option.some.inj heq).symm, by simp⟩
  unloaded hno := by cases hno
  unreported _ hnone := by cases hnone

theorem Keys.refused (h : c.Keys K) (hauth : c.authenticated = none) (key : Option GtlsKey) :
    Keys { c with
      session := { c.session with remoteKey := key, loadedRemoteKey := true }
      failed := true } K where
  isClient := h.isClient
  expected := h.expected
  pubkey := h.pubkey
  authenticated k heq := by simp [hauth] at heq
  remoteKey hno := by cases hno
  unloaded hno := by cases hno
  unreported hno := by cases hno

/-- Nothing is verified, so this rests on the key of the ticket's session. -/
theorem Keys.resumed (h : c.Keys K) (hlive : c.failed = false) (hauth : c.authenticated = none)
    {peers : PeerCerts} (hk : peers.Presents K) :
    Keys { c with peers := peers, authenticated := some K } K where
  isClient := h.isClient
  expected := h.expected
  pubkey := h.pubkey
  authenticated k heq := ⟨(Option.some.inj heq).symm, hk⟩
  remoteKey _ k heq := by simp [h.no_key hlive hauth] at heq
  unloaded := h.unloaded
  unreported _ hnone := by cases hnone

/-- The key that is read for `check_established`, and the session after it. -/
theorem Keys.remoteKeyBytes (h : c.Keys K) (hlive : c.failed = false) :
    ∃ key : Option GtlsKey,
      c.session.remoteKeyBytes c.peers = (key.elim [] Subtype.val,
        { c.session with remoteKey := key, loadedRemoteKey := true }) ∧
      ∀ k, key = some k → k = K ∧ c.authenticated ≠ none := by
  unfold GnutlsSession.remoteKeyBytes
  by_cases hloaded : c.session.loadedRemoteKey = true
  · have hsame : { c.session with loadedRemoteKey := true } = c.session := by rw [← hloaded]
    refine ⟨c.session.remoteKey, ?_, h.remoteKey hlive⟩
    rw [if_pos hloaded]
    exact Prod.ext rfl hsame.symm
  · rw [Bool.not_eq_true] at hloaded
    obtain ⟨key, hload, hkey⟩ :=
      GnutlsSession.loadRemoteKey_spec c.session c.peers (h.unloaded hloaded)
    refine ⟨key, by simp [hloaded, hload], ?_⟩
    intro k hk
    have hpresents := (hkey k).mpr hk
    cases hauth : c.authenticated with
    | none => exact (not_presents_nil k (h.unreported hlive hauth ▸ hpresents)).elim
    | some k' => exact ⟨hpresents.unique (h.authenticated k' hauth).2, by simp⟩

theorem Keys.established (h : c.Keys K) {key : Option GtlsKey}
    (hkey : ∀ k, key = some k → k = K ∧ c.authenticated ≠ none) :
    Keys { c with
      establishHookCalled := true
      session := { c.session with remoteKey := key, loadedRemoteKey := true }
      remotePubkey := key.elim [] Subtype.val } K where
  isClient := h.isClient
  expected := h.expected
  pubkey := by
    cases key with
    | none => exact .inr rfl
    | some k => exact .inl (congrArg Subtype.val (hkey k rfl).1)
  authenticated := h.authenticated
  remoteKey _ := hkey
  unloaded hno := by cases hno
  unreported := h.unreported

/-- The same connection later: what it was made with and its authenticated key stay. -/
structure Continues (c d : ClientConn Addr) : Prop where
  start : d.start = c.start
  expected : d.session.expectedRemoteKey = c.session.expectedRemoteKey
  authenticated : ∀ k, c.authenticated = some k → d.authenticated = some k

/-- Where the ticket that the connection with number `j` took out of the store came from. -/
structure TookFrom (c : ClientConn Addr) (j : Nat) (r : TicketReceipt Addr) : Prop where
  key : ∃ K, c.session.expectedRemoteKey = some K ∧ r.authenticated = some K
  address : r.address = c.start.address
  earlier : r.conn < j
  unexpired : c.start.createdAt < r.expiry
  used : ∀ n d, c.start.ticket = some (n, d) → r.data = d

theorem TookFrom.continues {d : ClientConn Addr} {j : Nat} {r : TicketReceipt Addr}
    (h : c.TookFrom j r) (hcont : c.Continues d) : d.TookFrom j r := by
  obtain ⟨hstart, hexp, -⟩ := hcont
  exact ⟨hexp ▸ h.key, hstart ▸ h.address, h.earlier, hstart ▸ h.unexpired, hstart ▸ h.used⟩

end ClientConn

/-! ## The invariant -/

theorem ClientConn.make_ticket {O : ListLib P C Fault} {session : GnutlsSession} {key : Bytes}
    {address : Addr} {now n : Nat} {entry : Option StoredSession} {setData : Bool} {d : SessionData}
    (h : (ClientConn.make O session key address now entry setData).start.ticket = some (n, d)) :
    ∃ e, entry = some e ∧ e.serial = n ∧
      extractSessionData O (some (.ok (some e.data))) = some d := by
  simp only [ClientConn.make] at h
  split_ifs at h
  obtain ⟨e, he, hd⟩ := Option.bind_eq_some_iff.mp h
  obtain ⟨d', hd', heq⟩ := Option.map_eq_some_iff.mp hd
  obtain ⟨rfl, rfl⟩ := Prod.mk.inj heq
  exact ⟨e, he, rfl, hd'⟩

theorem SessionData.eq_of_extract_encode {O : ListLib P C Fault} {d d' : SessionData}
    (h : extractSessionData O (some (.ok (some d.encode))) = some d') : d = d' := by
  rw [extractSessionData_encode] at h
  split_ifs at h
  exact Option.some.inj h

/-- An entry of the store is the ticket of a receipt, under the key and address it then had. -/
structure TicketReceipt.Stores (r : TicketReceipt Addr) (remote : Bytes × Addr)
    (e : StoredSession) : Prop where
  remote : (r.remotePubkey, r.address) = remote
  expiry : r.expiry = e.expiry
  data : r.data.encode = e.data

namespace ClientCreds

/-- The connection that a ticket came on, and under whose key it was stored. -/
structure Issued (x : ClientCreds Addr) (r : TicketReceipt Addr) : Prop where
  conn : ∃ c k, x.conns r.conn = some c ∧ c.authenticated = some k ∧ r.authenticated = some k
  keyed : ∀ K : GtlsKey, r.remotePubkey = K.1 → r.authenticated = some K

structure Inv (x : ClientCreds Addr) : Prop where
  fresh : ∀ j, x.nextConn ≤ j → x.conns j = none
  keys : ∀ j c, x.conns j = some c → ∃ K, c.Keys K
  ticket : ∀ j c n d, x.conns j = some c → c.start.ticket = some (n, d) →
    c.start.extracted = some n
  origin : ∀ j c n, x.conns j = some c → c.start.extracted = some n →
    ∃ r, x.receipts[n]? = some r ∧ c.TookFrom j r
  once : ∀ i j c d n, x.conns i = some c → x.conns j = some d → c.start.extracted = some n →
    d.start.extracted = some n → i = j
  spent : ∀ j c n, x.conns j = some c → c.start.extracted = some n →
    ∀ remote, ∀ e ∈ x.storage remote, e.serial ≠ n
  receipts : ∀ r ∈ x.receipts, x.Issued r
  stored : ∀ remote, ∀ e ∈ x.storage remote, ∃ r, x.receipts[e.serial]? = some r ∧
    r.Stores remote e
  sorted : ∀ remote, (x.storage remote).Pairwise (·.serial < ·.serial)
  bounded : ∀ remote, (x.storage remote).length ≤ 3

variable {x : ClientCreds Addr} {i : Nat} {c d : ClientConn Addr}

/-- A connection of the changed state continues one of the old. -/
theorem conns_setConn {j : Nat} {c' : ClientConn Addr} (hc : x.conns i = some c)
    (hcont : c.Continues d) (h : (x.setConn i d).conns j = some c') :
    ∃ c₀, x.conns j = some c₀ ∧ c₀.Continues c' := by
  by_cases hj : j = i
  · subst hj
    simp only [setConn, Function.update_self, Option.some.injEq] at h
    exact ⟨c, hc, h ▸ hcont⟩
  · simp only [setConn, Function.update_of_ne hj] at h
    exact ⟨c', h, rfl, rfl, fun _ hk => hk⟩

theorem Issued.of_conns {y : ClientCreds Addr} {r : TicketReceipt Addr} (h : x.Issued r)
    (hy : y.conns = x.conns) : y.Issued r :=
  ⟨hy ▸ h.conn, h.keyed⟩

theorem Issued.setConn {r : TicketReceipt Addr} (h : x.Issued r) (hc : x.conns i = some c)
    (hcont : c.Continues d) : (x.setConn i d).Issued r := by
  obtain ⟨c', k, hc', hk, hr⟩ := h.conn
  refine ⟨?_, h.keyed⟩
  by_cases hi : r.conn = i
  · rw [hi] at hc' ⊢
    obtain rfl : c = c' := Option.some.inj (hc.symm.trans hc')
    exact ⟨d, k, Function.update_self .., hcont.authenticated k hk, hr⟩
  · exact ⟨c', k, (Function.update_of_ne hi ..).trans hc', hk, hr⟩

theorem Inv.setConn (h : x.Inv) (hc : x.conns i = some c) (hcont : c.Continues d)
    (hkeys : ∃ K, d.Keys K) : (x.setConn i d).Inv where
  fresh j hj := by
    have hnone := h.fresh j hj
    have hne : j ≠ i := by
      rintro rfl
      simp [hc] at hnone
    simpa [ClientCreds.setConn, hne] using hnone
  keys j c' hc' := by
    by_cases hj : j = i
    · subst hj
      simp only [ClientCreds.setConn, Function.update_self, Option.some.injEq] at hc'
      exact hc' ▸ hkeys
    · simp only [ClientCreds.setConn, Function.update_of_ne hj] at hc'
      exact h.keys j c' hc'
  ticket j c' n d' hc' ht := by
    obtain ⟨c₀, hc₀, hstart, -⟩ := conns_setConn hc hcont hc'
    rw [hstart] at ht ⊢
    exact h.ticket j c₀ n d' hc₀ ht
  origin j c' n hc' hn := by
    obtain ⟨c₀, hc₀, hcont'⟩ := conns_setConn hc hcont hc'
    obtain ⟨r, hr, hfrom⟩ := h.origin j c₀ n hc₀ (hcont'.start ▸ hn)
    exact ⟨r, hr, hfrom.continues hcont'⟩
  once j j' c₁ c₂ n h₁ h₂ hn₁ hn₂ := by
    obtain ⟨d₁, hd₁, hs₁, -⟩ := conns_setConn hc hcont h₁
    obtain ⟨d₂, hd₂, hs₂, -⟩ := conns_setConn hc hcont h₂
    exact h.once j j' d₁ d₂ n hd₁ hd₂ (hs₁ ▸ hn₁) (hs₂ ▸ hn₂)
  spent j c' n hc' hn := by
    obtain ⟨c₀, hc₀, hstart, -⟩ := conns_setConn hc hcont hc'
    exact h.spent j c₀ n hc₀ (hstart ▸ hn)
  receipts r hr := (h.receipts r hr).setConn hc hcont
  stored := h.stored
  sorted := h.sorted
  bounded := h.bounded

theorem Inv.conn_lt (h : x.Inv) (hc : x.conns i = some c) : i < x.nextConn := by
  by_contra hle
  simp [h.fresh i (by omega)] at hc

/-- What an entry under the expected key says of the connection it came from. -/
theorem Inv.entry (h : x.Inv) {K : GtlsKey} {address : Addr} {e : StoredSession}
    (he : e ∈ x.storage (K.1, address)) : ∃ r, x.receipts[e.serial]? = some r ∧
      r.authenticated = some K ∧ r.address = address ∧ r.conn < x.nextConn ∧
      r.expiry = e.expiry ∧ r.data.encode = e.data := by
  obtain ⟨r, hr, hstores⟩ := h.stored _ e he
  obtain ⟨⟨c, k, hc, -⟩, hkey⟩ := h.receipts r (List.mem_of_getElem? hr)
  obtain ⟨hpubkey, haddress⟩ := Prod.mk.inj hstores.remote
  exact ⟨r, hr, hkey K hpubkey, haddress, h.conn_lt hc, hstores.expiry, hstores.data⟩

/-- A number stands for one entry of the whole store. -/
theorem Inv.serial_inj (h : x.Inv) {remote remote' : Bytes × Addr} {e e' : StoredSession}
    (he : e ∈ x.storage remote) (he' : e' ∈ x.storage remote') (hs : e.serial = e'.serial) :
    remote = remote' := by
  obtain ⟨r, hr, hstores⟩ := h.stored remote e he
  obtain ⟨r', hr', hstores'⟩ := h.stored remote' e' he'
  obtain rfl : r = r' := Option.some.inj (hr.symm.trans (hs ▸ hr'))
  exact hstores.remote.symm.trans hstores'.remote

theorem Inv.serial_lt (h : x.Inv) {remote : Bytes × Addr} {e : StoredSession}
    (he : e ∈ x.storage remote) : e.serial < x.receipts.length := by
  obtain ⟨r, hr, -⟩ := h.stored remote e he
  exact (List.getElem?_eq_some_iff.mp hr).1

theorem handshake_resumed (hc : x.conns i = some c) (k : GtlsKey) (peers : PeerCerts)
    (alpn : Bytes) : x.handshake i true k peers alpn =
      .ok (x.setConn i { c with peers := peers, authenticated := some k }) := by
  simp [ClientCreds.handshake, hc]

/-- A full handshake goes on exactly with the expected key. -/
theorem handshake_full {K k : GtlsKey} (hc : x.conns i = some c) (hkeys : c.Keys K)
    (hlive : c.failed = false) (hauth : c.authenticated = none) {peers : PeerCerts}
    (hk : peers.Presents k) (alpn : Bytes) :
    x.handshake i false k peers alpn = .ok (x.setConn i (
      let session := { c.session with remoteKey := some k, loadedRemoteKey := true }
      if k = K then { c with session := session, peers := peers, authenticated := some k }
      else { c with session := session, failed := true })) := by
  simp only [ClientCreds.handshake, hc, hkeys.validate hlive hauth hk alpn, ok_bind]
  by_cases hkK : k = K <;> simp [hkK]

theorem Inv.handshake (h : x.Inv) {resumed : Bool} {k : GtlsKey} {peers : PeerCerts}
    {alpn : Bytes} (hen : x.Enabled (.handshake i resumed k peers alpn)) :
    ∃ y, x.handshake i resumed k peers alpn = .ok y ∧ y.Inv := by
  obtain ⟨c, ⟨hc, hlive⟩, hauth, hk, hticket⟩ := hen
  obtain ⟨K, hkeys⟩ := h.keys i c hc
  cases resumed with
  | true =>
    obtain ⟨n, d, r, ht, hr, hrk⟩ := hticket rfl
    obtain ⟨r', hr', hfrom⟩ := h.origin i c n hc (h.ticket i c n d hc ht)
    obtain rfl : r = r' := Option.some.inj (hr.symm.trans hr')
    obtain ⟨K', hK', hauth'⟩ := hfrom.key
    obtain rfl : K' = K := Option.some.inj (hK'.symm.trans hkeys.expected)
    obtain rfl : k = K' := Option.some.inj (hrk.symm.trans hauth')
    exact ⟨_, handshake_resumed hc k peers alpn,
      h.setConn hc ⟨rfl, rfl, by simp [hauth]⟩ ⟨k, hkeys.resumed hlive hauth hk⟩⟩
  | false =>
    refine ⟨_, handshake_full hc hkeys hlive hauth hk alpn, ?_⟩
    by_cases hkK : k = K
    · subst hkK
      simp only [if_true]
      exact h.setConn hc ⟨rfl, rfl, by simp [hauth]⟩ ⟨k, hkeys.accepted hk⟩
    · simp only [if_neg hkK]
      exact h.setConn hc ⟨rfl, rfl, by simp [hauth]⟩ ⟨K, hkeys.refused hauth (some k)⟩

theorem Inv.checkEstablished (h : x.Inv) (hc : x.conns i = some c) (hlive : c.failed = false) :
    (x.checkEstablished i).Inv := by
  unfold ClientCreds.checkEstablished
  simp only [hc]
  split_ifs
  · exact h
  · obtain ⟨K, hkeys⟩ := h.keys i c hc
    obtain ⟨key, hread, hkey⟩ := hkeys.remoteKeyBytes hlive
    rw [hread]
    exact h.setConn hc ⟨rfl, rfl, fun _ hk => hk⟩ ⟨K, hkeys.established hkey⟩

theorem Inv.setRemoteAddr (h : x.Inv) (i : Nat) (address : Addr) :
    (x.setRemoteAddr i address).Inv := by
  unfold ClientCreds.setRemoteAddr
  split
  next => exact h
  next c hc =>
    obtain ⟨K, hkeys⟩ := h.keys i c hc
    exact h.setConn hc ⟨rfl, rfl, fun _ hk => hk⟩ ⟨K, { hkeys with }⟩

/-- A connection of the state after `addConn` is an old one, or the new one. -/
theorem conns_addConn {j : Nat} (h : (x.addConn d).conns j = some c) :
    x.conns j = some c ∨ j = x.nextConn ∧ c = d := by
  by_cases hj : j = x.nextConn
  · subst hj
    simp only [addConn, setConn, Function.update_self, Option.some.injEq] at h
    exact .inr ⟨rfl, h.symm⟩
  · simp only [addConn, setConn, Function.update_of_ne hj] at h
    exact .inl h

variable [DecidableEq Addr]

section Store
variable {remote : Bytes × Addr} {mine : List StoredSession}

/-- What all deques have is kept when one of them is replaced. -/
theorem forall_update {P : List StoredSession → Prop} (hmine : P mine)
    (hold : ∀ remote', P (x.storage remote')) (remote' : Bytes × Addr) :
    P (Function.update x.storage remote mine remote') := by
  by_cases hr : remote' = remote
  · subst hr
    simpa using hmine
  · simpa [hr] using hold remote'

theorem mem_storeTicket {e new : StoredSession} (h : e ∈ storeTicket mine new) :
    e ∈ mine ∨ e = new := by
  rcases List.mem_append.mp h with he | he
  · exact .inl ((trimTickets_suffix mine).mem he)
  · exact .inr (List.mem_singleton.mp he)

/-- An entry after a ticket has been stored is an old one or the new one. -/
theorem mem_update_storeTicket {remote' : Bytes × Addr} {e new : StoredSession}
    (h : e ∈ Function.update x.storage remote (storeTicket (x.storage remote) new) remote') :
    e ∈ x.storage remote' ∨ remote' = remote ∧ e = new := by
  by_cases hr : remote' = remote
  · subst hr
    rw [Function.update_self] at h
    exact (mem_storeTicket h).imp_right fun he => ⟨rfl, he⟩
  · rw [Function.update_of_ne hr] at h
    exact .inl h

theorem mem_update_sublist {remote' : Bytes × Addr} {e : StoredSession}
    (hsub : mine.Sublist (x.storage remote))
    (h : e ∈ Function.update x.storage remote mine remote') :
    e ∈ x.storage remote' ∧ (remote' = remote → e ∈ mine) := by
  by_cases hr : remote' = remote
  · subst hr
    rw [Function.update_self] at h
    exact ⟨hsub.mem h, fun _ => h⟩
  · rw [Function.update_of_ne hr] at h
    exact ⟨h, fun heq => (hr heq).elim⟩

end Store

/-- A ticket of an authenticated connection goes into the store. -/
theorem Inv.newSessionTicket (h : x.Inv) (hc : x.conns i = some c) {k : GtlsKey}
    (hauth : c.authenticated = some k) (ticket tp : Bytes) (expiry : Nat) :
    Inv { x with
      storage := Function.update x.storage (c.remotePubkey, c.remote)
        (storeTicket (x.storage (c.remotePubkey, c.remote))
          ⟨SessionData.encode ⟨ticket, tp⟩, expiry, x.receipts.length⟩)
      receipts := x.receipts ++
        [⟨i, c.authenticated, c.remote, c.remotePubkey, ⟨ticket, tp⟩, expiry⟩] } := by
  have hmore {n : Nat} {r new : TicketReceipt Addr} (hr : x.receipts[n]? = some r) :
      (x.receipts ++ [new])[n]? = some r := by
    rw [List.getElem?_append_left (List.getElem?_eq_some_iff.mp hr).1]
    exact hr
  refine { h with
    origin := fun j c' n hc' hn => ?_
    spent := fun j c' n hc' hn remote e he => ?_
    receipts := fun r hr => ?_
    stored := fun remote e he => ?_
    sorted := forall_update ?_ h.sorted
    bounded := forall_update (P := fun l => l.length ≤ 3) (length_storeTicket_le _ _) h.bounded }
  · obtain ⟨r, hr, hfrom⟩ := h.origin j c' n hc' hn
    exact ⟨r, hmore hr, hfrom⟩
  · rcases mem_update_storeTicket he with he | ⟨-, rfl⟩
    · exact h.spent j c' n hc' hn remote e he
    · obtain ⟨r, hr, -⟩ := h.origin j c' n hc' hn
      have := (List.getElem?_eq_some_iff.mp hr).1
      dsimp only
      omega
  · rcases List.mem_append.mp hr with hr | hr
    · exact (h.receipts r hr).of_conns rfl
    obtain rfl := List.mem_singleton.mp hr
    refine ⟨⟨c, k, hc, hauth, hauth⟩, fun K hK => ?_⟩
    obtain ⟨K', hkeys⟩ := h.keys i c hc
    obtain ⟨rfl, -⟩ := hkeys.authenticated k hauth
    -- An empty key is nobody's: those of connections have 32 bytes.
    rcases hkeys.pubkey with hpub | hpub
    · obtain rfl : K = k := Subtype.ext (hK.symm.trans hpub)
      exact hauth
    · have hlen := K.2
      simp [← hK, hpub, gnutlsKeySize] at hlen
  · rcases mem_update_storeTicket he with he | ⟨rfl, rfl⟩
    · obtain ⟨r, hr, hstores⟩ := h.stored remote e he
      exact ⟨r, hmore hr, hstores⟩
    · exact ⟨_, List.getElem?_concat_length, rfl, rfl, rfl⟩
  · refine List.pairwise_append.mpr ⟨?_, List.pairwise_singleton _ _, fun e he e' he' => ?_⟩
    · exact (h.sorted _).sublist (trimTickets_suffix _).sublist
    · obtain rfl := List.mem_singleton.mp he'
      exact h.serial_lt ((trimTickets_suffix _).mem he)

/-- A new connection for the key `K`, for which `entry` was taken out of the store. -/
theorem Inv.addConn (h : x.Inv) {O : ListLib P C Fault} {session : GnutlsSession} {K : GtlsKey}
    {address : Addr} {entry : Option StoredSession} {mine : List StoredSession}
    {setData : Bool}
    (hkeys : (ClientConn.make O session K.1 address x.now entry setData).Keys K)
    (hsub : mine.Sublist (x.storage (K.1, address)))
    (hentry : ∀ e, entry = some e → e ∈ x.storage (K.1, address) ∧ x.now < e.expiry ∧
      ∀ e' ∈ mine, e'.serial ≠ e.serial) :
    Inv ({ x with storage := Function.update x.storage (K.1, address) mine }.addConn
      (.make O session K.1 address x.now entry setData)) := by
  set new := ClientConn.make O session K.1 address x.now entry setData with hnew
  -- The entry behind the number that the new connection has.
  have htaken {n : Nat} (hn : new.start.extracted = some n) : ∃ e, entry = some e ∧ e.serial = n :=
    Option.map_eq_some_iff.mp hn
  have hmem {remote : Bytes × Addr} {e : StoredSession}
      (he : e ∈ Function.update x.storage (K.1, address) mine remote) :=
    mem_update_sublist hsub he
  refine ⟨fun j hj => ?_, fun j c hc => ?_, fun j c n d hc ht => ?_, fun j c n hc hn => ?_,
    fun i j c d n hc hd hn hm => ?_, fun j c n hc hn remote e he => ?_, fun r hr => ?_,
    fun remote e he => h.stored remote e (hmem he).1, ?_, ?_⟩
  · have hne : j ≠ x.nextConn := by
      rintro rfl
      simp [ClientCreds.addConn] at hj
    simp only [ClientCreds.addConn, ClientCreds.setConn, Function.update_of_ne hne]
    exact h.fresh j (Nat.le_of_succ_le hj)
  · rcases conns_addConn hc with hc | ⟨-, rfl⟩
    · exact h.keys j c hc
    · exact ⟨K, hkeys⟩
  · rcases conns_addConn hc with hc | ⟨-, rfl⟩
    · exact h.ticket j c n d hc ht
    · obtain ⟨e, he, rfl, -⟩ := ClientConn.make_ticket ht
      simp [hnew, ClientConn.make, he]
  · rcases conns_addConn hc with hc | ⟨rfl, rfl⟩
    · exact h.origin j c n hc hn
    obtain ⟨e, he, rfl⟩ := htaken hn
    obtain ⟨hin, hexpiry, -⟩ := hentry e he
    obtain ⟨r, hr, hauth, haddress, hconn, hrexp, hdata⟩ := h.entry hin
    refine ⟨r, hr, ⟨K, hkeys.expected, hauth⟩, haddress, hconn, hrexp ▸ hexpiry, fun n d ht => ?_⟩
    obtain ⟨e', he', -, hdecode⟩ := ClientConn.make_ticket ht
    obtain rfl : e = e' := Option.some.inj (he.symm.trans he')
    exact SessionData.eq_of_extract_encode (hdata ▸ hdecode)
  · rcases conns_addConn hc with hc | ⟨rfl, rfl⟩ <;> rcases conns_addConn hd with hd | ⟨rfl, rfl⟩
    · exact h.once i j c d n hc hd hn hm
    · obtain ⟨e, he, rfl⟩ := htaken hm
      exact (h.spent i c _ hc hn _ e (hentry e he).1 rfl).elim
    · obtain ⟨e, he, rfl⟩ := htaken hn
      exact (h.spent j d _ hd hm _ e (hentry e he).1 rfl).elim
    · rfl
  · rcases conns_addConn hc with hc | ⟨rfl, rfl⟩
    · exact h.spent j c n hc hn remote e (hmem he).1
    obtain ⟨e', he', rfl⟩ := htaken hn
    obtain ⟨hin, -, hleft⟩ := hentry e' he'
    intro hs
    have hremote := h.serial_inj (hmem he).1 hin hs
    exact hleft e ((hmem he).2 hremote) hs
  · obtain ⟨⟨c, k, hc, hk⟩, hkey⟩ := h.receipts r hr
    have hne : r.conn ≠ x.nextConn := Nat.ne_of_lt (h.conn_lt hc)
    exact ⟨⟨c, k, (Function.update_of_ne hne ..).trans hc, hk⟩, hkey⟩
  · exact forall_update ((h.sorted _).sublist hsub) h.sorted
  · exact forall_update (P := fun l => l.length ≤ 3) (hsub.length_le.trans (h.bounded _)) h.bounded

/-- What a new connection is given, and what is left in the store. -/
theorem connect_eq (O : ListLib P C Fault) (x : ClientCreds Addr) (K : GtlsKey) (address : Addr)
    (setData : Bool) :
    x.connect O (some K.1) address setData =
      .ok ({ x with
        storage := Function.update x.storage (K.1, address)
          (extractTicket x.now (x.storage (K.1, address))).2 }.addConn
        (.make O { creds := {}, isClient := true, expectedRemoteKey := some K } K.1 address x.now
          (extractTicket x.now (x.storage (K.1, address))).1 setData)) := by
  simp [connect, GnutlsSession.makeSession, K.2]
  rfl

/-- Only a key of the right size makes a connection. -/
theorem key_of_connect {O : ListLib P C Fault} {key : Option Bytes} {address : Addr}
    {setData : Bool} {y : ClientCreds Addr} (h : x.connect O key address setData = .ok y) :
    ∃ K : GtlsKey, key = some K.1 := by
  cases key with
  | none => cases h
  | some key =>
    by_cases hlen : key.length = gnutlsKeySize
    · exact ⟨⟨key, hlen⟩, rfl⟩
    · simp [connect, GnutlsSession.makeSession, hlen, Bind.bind, Except.bind] at h

theorem Inv.connect (h : x.Inv) {O : ListLib P C Fault} {key : Option Bytes} {address : Addr}
    {setData : Bool} {y : ClientCreds Addr} (hy : x.connect O key address setData = .ok y) :
    y.Inv := by
  obtain ⟨K, rfl⟩ := key_of_connect hy
  rw [connect_eq] at hy
  cases hy
  have hkeys (entry : Option StoredSession) : (ClientConn.make O
      { creds := {}, isClient := true, expectedRemoteKey := some K } K.1 address x.now entry
        setData).Keys K :=
    ⟨rfl, rfl, .inl rfl, by simp [ClientConn.make], by simp [ClientConn.make],
      fun _ => rfl, fun _ _ => rfl⟩
  rcases extractTicket_cases x.now (x.storage (K.1, address)) with
    ⟨heq, -⟩ | ⟨kept, e, dropped, hmine, hexpiry, -, heq⟩
  · rw [heq]
    exact h.addConn (hkeys none) (List.nil_sublist _) (by simp)
  · rw [heq]
    refine h.addConn (hkeys (some e)) ?_ ?_
    · rw [hmine]
      exact List.sublist_append_left _ _
    · rintro e' ⟨⟩
      refine ⟨by simp [hmine], hexpiry, fun e' he' => ?_⟩
      have hsorted := h.sorted (K.1, address)
      rw [hmine] at hsorted
      exact Nat.ne_of_lt ((List.pairwise_append.mp hsorted).2.2 e' he' e List.mem_cons_self)

/-- A ticket that can be stored is. -/
theorem newSessionTicket_eq (O : ListLib P C Fault) (hc : x.conns i = some c) (ticket tp : Bytes)
    (expireTime : Nat) (htp : tp.length ≤ 512) (hexpire : expireTime ≠ 0) :
    x.newSessionTicket O i (some ticket) (some tp) expireTime = .ok { x with
      storage := Function.update x.storage (c.remotePubkey, c.remote)
        (storeTicket (x.storage (c.remotePubkey, c.remote))
          ⟨SessionData.encode ⟨ticket, tp⟩, expireTime * 1000000000, x.receipts.length⟩)
      receipts := x.receipts ++ [⟨i, c.authenticated, c.remote, c.remotePubkey, ⟨ticket, tp⟩,
        expireTime * 1000000000⟩] } := by
  simp only [ClientCreds.newSessionTicket, hc, storeSessionTicket_eq O ticket htp hexpire, ok_bind]
  rfl

theorem Inv.ticketReceived (h : x.Inv) (O : ListLib P C Fault) {data tp : Option Bytes}
    {expireTime : Nat} (hen : x.Enabled (.newSessionTicket i data tp expireTime)) :
    ∃ y, x.newSessionTicket O i data tp expireTime = .ok y ∧ y.Inv := by
  obtain ⟨⟨c, ⟨hc, -⟩, hauth⟩, hsize⟩ := hen
  obtain ⟨k, hauth⟩ := Option.ne_none_iff_exists'.mp hauth
  cases data with
  | none => exact ⟨x, by simp [ClientCreds.newSessionTicket, hc], h⟩
  | some ticket =>
    cases tp with
    | none => exact ⟨x, by simp [ClientCreds.newSessionTicket, hc, storeSessionTicket], h⟩
    | some tp =>
      by_cases hzero : expireTime = 0
      · exact ⟨x, by simp [ClientCreds.newSessionTicket, hc, storeSessionTicket, hzero], h⟩
      · exact ⟨_, newSessionTicket_eq O hc ticket tp expireTime (hsize tp rfl) hzero,
          h.newSessionTicket hc hauth ticket tp _⟩

theorem inv_inductive (O : ListLib P C Fault) : (machine Addr O).Inductive Inv where
  initial x hinit := by
    obtain ⟨hstorage, hconns, hreceipts⟩ := hinit
    constructor <;> simp [hstorage, hconns, hreceipts]
  step x op h hen := by
    cases op with
    | connect key address setData =>
      refine ⟨_, rfl, ?_⟩
      cases hy : x.connect O key address setData with
      | error _ => exact h
      | ok y => exact h.connect hy
    | handshake i resumed k peers alpn => exact h.handshake hen
    | newSessionTicket i data tp expireTime => exact h.ticketReceived O hen
    | checkEstablished i =>
      obtain ⟨c, hc, hlive⟩ := hen
      exact ⟨_, rfl, h.checkEstablished hc hlive⟩
    | setRemoteAddr i address => exact ⟨_, rfl, h.setRemoteAddr i address⟩
    | advance nanos =>
      exact ⟨_, rfl, { h with receipts := fun r hr => (h.receipts r hr).of_conns rfl }⟩

/-- A new connection is given the newest ticket that has not expired, if there is one, and uses it
if gnutls accepts it and it is not empty. -/
def GivesNewest (O : ListLib P C Fault) (x : ClientCreds Addr) (K : GtlsKey) (address : Addr)
    (setData : Bool) : Prop :=
  ∃ y c, x.connect O (some K.1) address setData = .ok y ∧ y.conns x.nextConn = some c ∧
    (∀ e ∈ x.storage (K.1, address), x.now < e.expiry →
      ∃ n, c.start.extracted = some n ∧ e.serial ≤ n) ∧
    ∀ n, c.start.extracted = some n →
      ∃ e ∈ x.storage (K.1, address), e.serial = n ∧ x.now < e.expiry ∧
        ∃ r, x.receipts[n]? = some r ∧
          (setData = true → r.data.tlsSessionTicket ≠ [] → r.data.quicTransportParams ≠ [] →
            c.start.ticket = some (n, r.data))

theorem Inv.givesNewest (h : x.Inv) (O : ListLib P C Fault) (K : GtlsKey) (address : Addr)
    (setData : Bool) : x.GivesNewest O K address setData := by
  refine ⟨_, _, connect_eq O x K address setData, Function.update_self .., ?_⟩
  rcases extractTicket_cases x.now (x.storage (K.1, address)) with
    ⟨heq, hall⟩ | ⟨kept, e, dropped, hmine, hexpiry, hdropped, heq⟩
  · rw [heq]
    refine ⟨fun e he hlt => ?_, fun n hn => by cases hn⟩
    have := hall e he
    omega
  rw [heq]
  have hin : e ∈ x.storage (K.1, address) := by simp [hmine]
  refine ⟨fun e' he' hlt => ⟨e.serial, rfl, ?_⟩, ?_⟩
  · have hsorted := h.sorted (K.1, address)
    rw [hmine] at hsorted he'
    rcases List.mem_append.mp he' with he' | he'
    · exact Nat.le_of_lt ((List.pairwise_append.mp hsorted).2.2 e' he' e List.mem_cons_self)
    rcases List.mem_cons.mp he' with rfl | he'
    · exact le_rfl
    · have := hdropped e' he'
      omega
  · rintro n ⟨⟩
    obtain ⟨r, hr, -, -, -, -, hdata⟩ := h.entry hin
    refine ⟨e, hin, rfl, hexpiry, r, hr, fun hset htls htp => ?_⟩
    have hdecode : extractSessionData O (some (.ok (some e.data))) = some r.data := by
      rw [← hdata, extractSessionData_encode, if_neg (by simp [htls, htp])]
    simp [ClientConn.make, hset, hdecode]

/-- In every state: a connection that resumes with a ticket has it from an earlier connection,
which had its address and was authenticated with the key it expects, and it was made before the
ticket expired; no other connection has the same ticket; no more than three are kept for a key
and an address; a new connection is given the newest that has not expired; and no step fails. -/
theorem resumes_own_sessions (O : ListLib P C Fault) (hx : (machine Addr O).Reachable x) :
    (∀ j c n data, x.conns j = some c → c.start.ticket = some (n, data) →
      ∃ r K, x.receipts[n]? = some r ∧ r.data = data ∧ c.session.expectedRemoteKey = some K ∧
        r.authenticated = some K ∧ r.address = c.start.address ∧ c.start.createdAt < r.expiry ∧
        r.conn < j ∧ ∃ d, x.conns r.conn = some d ∧ d.authenticated = some K) ∧
    (∀ j c k, x.conns j = some c → c.authenticated = some k →
      c.session.expectedRemoteKey = some k) ∧
    (∀ i j c d n data data', x.conns i = some c → x.conns j = some d →
      c.start.ticket = some (n, data) → d.start.ticket = some (n, data') → i = j) ∧
    (∀ remote, (x.storage remote).length ≤ 3) ∧
    (∀ K address setData, x.GivesNewest O K address setData) ∧
    ∀ op, x.Enabled op → ∃ y, x.step O op = .ok y := by
  have hinv := (inv_inductive O).reachable hx
  refine ⟨fun j c n data hc ht => ?_, fun j c k hc hauth => ?_, ?_, hinv.bounded,
    hinv.givesNewest O, fun op hen => (inv_inductive O).progress hx hen⟩
  · obtain ⟨r, hr, hfrom⟩ := hinv.origin j c n hc (hinv.ticket j c n data hc ht)
    obtain ⟨K, hK, hauth⟩ := hfrom.key
    obtain ⟨d, k, hd, hk, hrk⟩ := (hinv.receipts r (List.mem_of_getElem? hr)).conn
    obtain rfl : K = k := Option.some.inj (hauth.symm.trans hrk)
    exact ⟨r, K, hr, hfrom.used n data ht, hK, hauth, hfrom.address, hfrom.unexpired,
      hfrom.earlier, d, hd, hk⟩
  · obtain ⟨K, hkeys⟩ := hinv.keys j c hc
    obtain ⟨rfl, -⟩ := hkeys.authenticated k hauth
    exact hkeys.expected
  · intro i j c d n data data' hc hd ht ht'
    exact hinv.once i j c d n hc hd (hinv.ticket i c n data hc ht) (hinv.ticket j d n data' hd ht')

/-- A connection that is authenticated gets a ticket. -/
theorem reachable_newSessionTicket {O : ListLib P C Fault} (hx : (machine Addr O).Reachable x)
    (hc : x.conns i = some c) (hlive : c.failed = false) (hauth : c.authenticated ≠ none)
    (ticket tp : Bytes) (expireTime : Nat) (htp : tp.length ≤ 512) (hexpire : expireTime ≠ 0) :
    (machine Addr O).Reachable { x with
      storage := Function.update x.storage (c.remotePubkey, c.remote)
        (storeTicket (x.storage (c.remotePubkey, c.remote))
          ⟨SessionData.encode ⟨ticket, tp⟩, expireTime * 1000000000, x.receipts.length⟩)
      receipts := x.receipts ++ [⟨i, c.authenticated, c.remote, c.remotePubkey, ⟨ticket, tp⟩,
        expireTime * 1000000000⟩] } :=
  hx.step (i := .newSessionTicket i (some ticket) (some tp) expireTime)
    ⟨⟨c, ⟨hc, hlive⟩, hauth⟩, by simpa using htp⟩
    (newSessionTicket_eq O hc ticket tp expireTime htp hexpire)

/-- A connection gets a ticket before it is established and one after it, and the next connection
resumes with the second. -/
theorem resumes_own_sessions_newest :
    ∃ (x : ClientCreds Nat) (c : ClientConn Nat),
      (machine Nat (ListBuffer.lib .outOfRange)).Reachable x ∧
      x.conns 1 = some c ∧ c.start.ticket = some (1, ⟨[3], [4]⟩) ∧
      ∃ r K, x.receipts[1]? = some r ∧ c.session.expectedRemoteKey = some K ∧
        r.authenticated = some K ∧ r.address = 5 ∧ r.conn < 1 := by
  let O : ListLib ListBuffer Bytes Fault := ListBuffer.lib .outOfRange
  obtain ⟨K⟩ : Nonempty GtlsKey := ⟨⟨List.replicate gnutlsKeySize 7, by simp⟩⟩
  let peers : PeerCerts := ⟨.rawPk, [GnutlsSession.rawKeyCert K]⟩
  have hK : peers.Presents K :=
    ⟨rfl, GnutlsSession.rawKeyCert K, [], List.replicate certHeaderSize 0, rfl, by simp, rfl⟩
  have hstep (x : ClientCreds Nat) : (machine Nat O).step x (.connect (some K.1) 5 true) = .ok _ :=
    congrArg (fun r => Except.ok (Option.getD (Except.toOption r) x)) (connect_eq O x K 5 true)
  let session : GnutlsSession := { creds := {}, isClient := true, expectedRemoteKey := some K }
  let c : ClientConn Nat := .make O session K.1 5 0 none true
  obtain ⟨x, hx, hc, hreceipts, hstorage, hnow, hnext⟩ : ∃ x : ClientCreds Nat,
      (machine Nat O).Reachable x ∧ x.conns 0 = some c ∧ x.receipts = [] ∧
        x.storage (K.1, 5) = [] ∧ x.now = 0 ∧ x.nextConn = 1 := by
    have hinit : (machine Nat O).Reachable {} := .initial ⟨fun _ => rfl, fun _ => rfl, rfl⟩
    exact ⟨_, hinit.step (i := Op.connect (some K.1) 5 true) trivial (hstep {}), rfl, rfl,
      Function.update_self .., rfl, rfl⟩
  obtain ⟨K', hkeys⟩ := ((inv_inductive O).reachable hx).keys 0 c hc
  obtain rfl : K = K' := Option.some.inj hkeys.expected
  have hshake := hx.step (i := Op.handshake 0 false K peers [])
    ⟨c, ⟨hc, rfl⟩, rfl, hK, by simp⟩ (handshake_full hc hkeys rfl rfl hK [])
  simp only [if_true] at hshake
  have hfirst := reachable_newSessionTicket hshake (i := 0) rfl rfl (by simp)
    [1] [2] 3 (by simp) (by simp)
  have hestablished := hfirst.step (i := Op.checkEstablished 0) ⟨_, rfl, rfl⟩ rfl
  have hsecond := reachable_newSessionTicket hestablished (i := 0) rfl rfl
    (by simp) [3] [4] 3 (by simp) (by simp)
  let first : StoredSession := ⟨SessionData.encode ⟨[1], [2]⟩, 3000000000, 0⟩
  let second : StoredSession := ⟨SessionData.encode ⟨[3], [4]⟩, 3000000000, 1⟩
  obtain ⟨y, hy, hstored, hynow, hynext⟩ : ∃ y : ClientCreds Nat, (machine Nat O).Reachable y ∧
      y.storage (K.1, 5) = [first, second] ∧ y.now = 0 ∧ y.nextConn = 1 := by
    refine ⟨_, hsecond, ?_, hnow, hnext⟩
    refine (Function.update_self ..).trans ?_
    change storeTicket (Function.update x.storage (K.1, 5)
      (storeTicket (x.storage (K.1, 5)) ⟨_, _, x.receipts.length⟩) (K.1, 5))
      ⟨_, _, (x.receipts ++ [_]).length⟩ = _
    rw [Function.update_self, hstorage, hreceipts]
    rfl
  have hconnect := hy.step (i := Op.connect (some K.1) 5 true) trivial (hstep y)
  have htaken : extractTicket y.now (y.storage (K.1, 5)) = (some second, [first]) := by
    rw [hstored, hynow]
    rfl
  rw [htaken, hynow] at hconnect
  let d : ClientConn Nat := .make O session K.1 5 0 (some second) true
  have hticket : d.start.ticket = some (1, ⟨[3], [4]⟩) := by
    change (extractSessionData O (some (.ok (some (SessionData.encode ⟨[3], [4]⟩))))).map
      (fun data => (1, data)) = _
    rw [extractSessionData_encode]
    rfl
  have hd : Function.update y.conns y.nextConn (some d) 1 = some d := by
    rw [hynext, Function.update_self]
  obtain ⟨r, K', hr, -, hK', hauth, haddress, -, hearlier, -⟩ :=
    (resumes_own_sessions O hconnect).1 1 d 1 ⟨[3], [4]⟩ hd hticket
  exact ⟨_, d, hconnect, hd, hticket, r, K', hr, hK', hauth, haddress, hearlier⟩

end ClientCreds

end Libquic
