import Libquic.Lib.Machine
import Libquic.Stream.Basic

/-!
# The peer's raw public key

`GNUTLSSession::load_remote_key` reads the key out of the certificate list that gnutls
reports for the peer, and `validate_remote_key` decides with it whether the handshake goes
on. The key is an optional that several silent returns of the first function leave empty;
reading it empty is `Fault.nullPointer`. The negotiated protocol name is an argument, so
these are the calls after ALPN has completed.
-/
namespace Libquic

def certHeaderSize : Nat := 12
def gnutlsKeySize : Nat := 32

/-- `gtls_key`, an array of exactly 32 bytes. -/
def GtlsKey : Type := { bytes : Bytes // bytes.length = gnutlsKeySize }
  deriving DecidableEq

/-- `gnutls_datum_t`, whose size is an `unsigned int`. -/
structure Datum where
  data : Bytes
  size_lt : data.length < 2 ^ 32

inductive CertType where
  | unknown | x509 | openpgp | rawPk
  deriving DecidableEq, Repr

/-- What gnutls reports of the peer: the negotiated certificate type and the list itself. -/
structure PeerCerts where
  certType : CertType
  certList : List Datum

/-- The credentials' part in the decision: `client_key_verify` is given the client's key,
empty when it sent none, and the selected ALPN. -/
structure GnutlsCreds where
  ccertRequired : Bool := false
  clientKeyVerify : Option (Bytes → Bytes → Bool) := none

structure GnutlsSession where
  creds : GnutlsCreds
  isClient : Bool
  expectedRemoteKey : Option GtlsKey
  remoteKey : Option GtlsKey := none
  loadedRemoteKey : Bool := false

namespace GnutlsSession

/-- `GNUTLSCreds::make_session`; the error is the text of the `std::invalid_argument`. -/
def makeSession (creds : GnutlsCreds) (isClient : Bool) (expectedKey : Option Bytes) :
    Except String GnutlsSession :=
  match expectedKey with
  | none => .ok { creds, isClient, expectedRemoteKey := none }
  | some key =>
    if h : key.length = gnutlsKeySize then
      .ok { creds, isClient, expectedRemoteKey := some ⟨key, h⟩ }
    else .error "Invalid GNUTLS expected pubkey"

/-- `cert_list[0].size - CERT_HEADER_SIZE`, computed in a 64-bit `size_t`. -/
def certSize (cert : Datum) : Nat := (cert.data.length + 2 ^ 64 - certHeaderSize) % 2 ^ 64

/-- A size below the header wraps to one far above any key's, so it is not mistaken for one. -/
theorem certSize_eq_iff (cert : Datum) :
    certSize cert = gnutlsKeySize ↔ cert.data.length = certHeaderSize + gnutlsKeySize := by
  have := cert.size_lt
  simp only [certSize, certHeaderSize, gnutlsKeySize]
  omega

theorem length_drop_header {cert : Datum} (h : certSize cert = gnutlsKeySize) :
    (cert.data.drop certHeaderSize).length = gnutlsKeySize := by
  have := (certSize_eq_iff cert).mp h
  grind

def loadRemoteKey (s : GnutlsSession) (peers : PeerCerts) : GnutlsSession :=
  let s := { s with loadedRemoteKey := true }
  match peers.certList with
  | [] => s
  | cert :: _ =>
    if peers.certType ≠ .rawPk then s
    else if h : certSize cert = gnutlsKeySize then
      { s with remoteKey := some ⟨cert.data.drop certHeaderSize, length_drop_header h⟩ }
    else s

/-- `GNUTLSSession::remote_key`, which loads the key first if that has not happened yet. -/
def remoteKeyBytes (s : GnutlsSession) (peers : PeerCerts) : Bytes × GnutlsSession :=
  let s := if s.loadedRemoteKey then s else s.loadRemoteKey peers
  (s.remoteKey.elim [] Subtype.val, s)

/-- `*_remote_key`. -/
def derefRemoteKey (s : GnutlsSession) : Except Fault GtlsKey :=
  match s.remoteKey with
  | some key => .ok key
  | none => .error .nullPointer

def validateRemoteKey (s : GnutlsSession) (peers : PeerCerts) (alpn : Bytes) :
    Except Fault (Bool × GnutlsSession) :=
  let s := s.loadRemoteKey peers
  if s.isClient then
    match s.expectedRemoteKey with
    | none => .ok (true, s)
    | some expected => do
      let key ← s.derefRemoteKey
      return (decide (key = expected), s)
  else if s.remoteKey = none ∧ s.creds.ccertRequired then .ok (false, s)
  else
    match s.creds.clientKeyVerify with
    | none => .ok (true, s)
    | some verify =>
      let (key, s) := s.remoteKeyBytes peers
      .ok (verify key alpn, s)

end GnutlsSession

/-! ### The key a peer presents -/

/-- The well-formed key of a certificate list: its type is raw public key and its first
entry is a header followed by exactly 32 bytes. -/
def PeerCerts.Presents (peers : PeerCerts) (key : GtlsKey) : Prop :=
  peers.certType = .rawPk ∧
    ∃ cert rest header, peers.certList = cert :: rest ∧
      header.length = certHeaderSize ∧ cert.data = header ++ key.1

/-- A list presents at most one key. -/
theorem PeerCerts.Presents.unique {peers : PeerCerts} {k k' : GtlsKey} (h : peers.Presents k)
    (h' : peers.Presents k') : k = k' := by
  obtain ⟨-, cert, rest, header, hlist, hheader, hdata⟩ := h
  obtain ⟨-, cert', rest', header', hlist', hheader', hdata'⟩ := h'
  have happ : header ++ k.1 = header' ++ k'.1 := by grind
  exact Subtype.ext (List.append_inj_right happ (hheader.trans hheader'.symm))

namespace GnutlsSession

theorem presents_of_first {peers : PeerCerts} {cert : Datum} {rest : List Datum}
    (hraw : peers.certType = .rawPk) (hlist : peers.certList = cert :: rest)
    (h : certSize cert = gnutlsKeySize) :
    peers.Presents ⟨cert.data.drop certHeaderSize, length_drop_header h⟩ := by
  have hlen := (certSize_eq_iff cert).mp h
  refine ⟨hraw, cert, rest, cert.data.take certHeaderSize, hlist, ?_, ?_⟩
  · grind
  · exact (List.take_append_drop certHeaderSize cert.data).symm

/-- What `load_remote_key` does to a session without a key: it stores the key the list
presents, and nothing if the list presents none. -/
theorem loadRemoteKey_spec (s : GnutlsSession) (peers : PeerCerts) (hnone : s.remoteKey = none) :
    ∃ key : Option GtlsKey,
      s.loadRemoteKey peers = { s with remoteKey := key, loadedRemoteKey := true } ∧
        ∀ k, peers.Presents k ↔ key = some k := by
  unfold loadRemoteKey
  cases hlist : peers.certList with
  | nil =>
    refine ⟨none, by simp [hnone], ?_⟩
    rintro k
    simp [PeerCerts.Presents, hlist]
  | cons cert rest =>
    by_cases hraw : peers.certType = .rawPk
    case neg =>
      refine ⟨none, by simp [hnone, hraw], ?_⟩
      intro k
      simp [PeerCerts.Presents, hraw]
    by_cases hsize : certSize cert = gnutlsKeySize
    case neg =>
      refine ⟨none, by simp [hnone, hraw, hsize], ?_⟩
      intro k
      constructor
      · rintro ⟨-, cert', rest', header, hcons, hheader, hdata⟩
        have hcert : cert = cert' := by grind
        have hk := k.2
        have := (certSize_eq_iff cert).not.mp hsize
        grind
      · intro h
        cases h
    refine ⟨some ⟨cert.data.drop certHeaderSize, length_drop_header hsize⟩,
      by simp [hraw, hsize], ?_⟩
    intro k
    constructor
    · rintro ⟨-, cert', rest', header, hcons, hheader, hdata⟩
      have hcert : cert = cert' := by grind
      subst hcert
      have hdrop : cert.data.drop certHeaderSize = k.1 := by grind
      exact congrArg some (Subtype.ext hdrop)
    · intro h
      cases h
      exact presents_of_first hraw hlist hsize

section Validate
variable {s : GnutlsSession} (peers : PeerCerts) (alpn : Bytes)

/-- A client that expects `K` reads the optional key whatever was loaded, so it decides
exactly on the lists that present a key. -/
theorem validateRemoteKey_client {K : GtlsKey} (hc : s.isClient = true)
    (hK : s.expectedRemoteKey = some K) (hnone : s.remoteKey = none) :
    (∀ k, peers.Presents k →
        s.validateRemoteKey peers alpn = .ok (decide (k = K), s.loadRemoteKey peers)) ∧
      ((¬ ∃ k, peers.Presents k) → s.validateRemoteKey peers alpn = .error .nullPointer) := by
  obtain ⟨key, hload, hkey⟩ := loadRemoteKey_spec s peers hnone
  unfold validateRemoteKey
  constructor
  · intro k hk
    obtain rfl := (hkey k).mp hk
    simp [hload, hc, hK, derefRemoteKey]
  · intro hno
    have : key = none := by
      cases key with
      | none => rfl
      | some k => exact (hno ⟨k, (hkey k).mpr rfl⟩).elim
    subst this
    simp [hload, hc, hK, derefRemoteKey, Bind.bind, Except.bind]

/-- The server's answer on the key that was presented, if any. -/
def serverAnswer (creds : GnutlsCreds) (alpn : Bytes) (key : Option GtlsKey) : Bool :=
  if key = none ∧ creds.ccertRequired = true then false
  else creds.clientKeyVerify.elim true fun verify => verify (key.elim [] Subtype.val) alpn

theorem validateRemoteKey_server (hc : s.isClient = false) (hnone : s.remoteKey = none) :
    ∃ key : Option GtlsKey, (∀ k, peers.Presents k ↔ key = some k) ∧
      ∃ t, s.validateRemoteKey peers alpn = .ok (serverAnswer s.creds alpn key, t) := by
  obtain ⟨key, hload, hkey⟩ := loadRemoteKey_spec s peers hnone
  refine ⟨key, hkey, s.loadRemoteKey peers, ?_⟩
  unfold validateRemoteKey serverAnswer
  by_cases hreq : key = none ∧ s.creds.ccertRequired = true
  · simp [hload, hc, hreq]
  cases hv : s.creds.clientKeyVerify with
  | none => simp [hload, hc, hreq, hv]
  | some verify => simp [hload, hc, hreq, hv, remoteKeyBytes]

end Validate

theorem makeSession_eq {creds : GnutlsCreds} {isClient : Bool} {expectedKey : Option Bytes}
    {s : GnutlsSession} (h : makeSession creds isClient expectedKey = .ok s) :
    s.creds = creds ∧ s.isClient = isClient ∧ s.remoteKey = none ∧
      ∀ K, expectedKey = some K → ∃ k : GtlsKey, s.expectedRemoteKey = some k ∧ k.1 = K := by
  unfold makeSession at h
  split at h
  · cases h
    exact ⟨rfl, rfl, rfl, by simp⟩
  · split at h
    · cases h
      refine ⟨rfl, rfl, rfl, ?_⟩
      rintro K ⟨⟩
      exact ⟨_, rfl, rfl⟩
    · cases h

/-- The decision of `validate_remote_key` on any certificate list. A client that expects
`K` decides, and decides right, exactly on the lists that present some key: on any other it
reads a key that was never loaded. A server always decides, from the key that was presented
or its absence. -/
theorem validate_remote_key_iff (creds : GnutlsCreds) (peers : PeerCerts) (alpn : Bytes) :
    (∀ K s, makeSession creds true (some K) = .ok s →
      ((∃ ok t, s.validateRemoteKey peers alpn = .ok (ok, t) ∧
          (ok = true ↔ ∃ k, peers.Presents k ∧ k.1 = K)) ↔ ∃ k, peers.Presents k)) ∧
    (∀ expectedKey s, makeSession creds false expectedKey = .ok s →
      ∃ key : Option GtlsKey, (∀ k, peers.Presents k ↔ key = some k) ∧
        ∃ t, s.validateRemoteKey peers alpn = .ok (serverAnswer creds alpn key, t)) := by
  constructor
  · intro K s hs
    obtain ⟨-, hc, hnone, hkey⟩ := makeSession_eq hs
    obtain ⟨expected, hexp, rfl⟩ := hkey K rfl
    obtain ⟨hsome, hfault⟩ := validateRemoteKey_client peers alpn hc hexp hnone
    constructor
    · rintro ⟨ok, t, hok, -⟩
      by_contra hno
      rw [hfault hno] at hok
      cases hok
    · rintro ⟨k, hk⟩
      refine ⟨_, _, hsome k hk, decide_eq_true_iff.trans ⟨?_, ?_⟩⟩
      · intro heq
        exact ⟨k, hk, congrArg Subtype.val heq⟩
      · rintro ⟨k', hk', heq⟩
        obtain rfl : k' = expected := Subtype.ext heq
        exact hk.unique hk'
  · intro expectedKey s hs
    obtain ⟨rfl, hc, hnone, -⟩ := makeSession_eq hs
    exact validateRemoteKey_server peers alpn hc hnone

/-- A raw Ed25519 key: a header of 12 bytes and the key itself. -/
def rawKeyCert (key : GtlsKey) : Datum :=
  ⟨List.replicate certHeaderSize 0 ++ key.1, by
    rw [List.length_append, List.length_replicate, key.2]; decide⟩

/-- The list of a server that holds the expected key is accepted. -/
theorem validate_remote_key_iff_expected :
    ∃ (K : GtlsKey) (s : GnutlsSession), makeSession {} true (some K.1) = .ok s ∧
      ∃ ok t, s.validateRemoteKey ⟨.rawPk, [rawKeyCert K]⟩ [] = .ok (ok, t) ∧ ok = true := by
  let K : GtlsKey := ⟨List.replicate gnutlsKeySize 7, by simp⟩
  have hK : PeerCerts.Presents ⟨.rawPk, [rawKeyCert K]⟩ K :=
    ⟨rfl, rawKeyCert K, [], List.replicate certHeaderSize 0, rfl, by simp, rfl⟩
  refine ⟨K, { creds := {}, isClient := true, expectedRemoteKey := some K }, rfl, ?_⟩
  obtain ⟨ok, t, hv, hok⟩ :=
    ((validate_remote_key_iff {} ⟨.rawPk, [rawKeyCert K]⟩ []).1 K.1 _ rfl).mpr ⟨K, hK⟩
  exact ⟨ok, t, hv, hok.mpr ⟨K, hK, rfl⟩⟩

/-- The first entry is a raw P-256 key, 91 bytes long: `load_remote_key` returns without a
key and the client dereferences the empty optional. So it does on an empty list. -/
theorem unloaded_key_read :
    ∃ (cert : Datum) (K : GtlsKey) (s : GnutlsSession),
      makeSession {} true (some K.1) = .ok s ∧ cert.data.length = 91 ∧
        s.validateRemoteKey ⟨.rawPk, [cert]⟩ [] = .error .nullPointer ∧
        s.validateRemoteKey ⟨.rawPk, []⟩ [] = .error .nullPointer := by
  refine ⟨⟨List.replicate 91 4, by simp⟩, ⟨List.replicate gnutlsKeySize 7, by simp⟩, _, rfl, ?_⟩
  exact ⟨by simp, rfl, rfl⟩

end GnutlsSession

end Libquic
