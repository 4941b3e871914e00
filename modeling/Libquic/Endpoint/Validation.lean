import Libquic.Lib.Machine
import Libquic.Lib.PartialMap
import Libquic.Stream.Basic

/-!
# Address validation

A server need not believe the address of a client before it has an answer from there. A client
that sends a token of an earlier connection is accepted at once if the token was given out to its
IP address within the last hour; if it was not, the client gets a Retry packet with another token,
and is accepted if it returns that from the same address and port within ten seconds.

What ngtcp2 does with tokens is a parameter, of which it is assumed that a token that was made is
known by its first byte and is valid for what it was made for, and that nobody makes a valid one
without the secret of the endpoint. What arrives is otherwise arbitrary. Tokens can be read on the
way, kept, and sent again from any address. Tokens that cannot be made are left out.
-/
namespace Libquic

open Lib

variable {Addr T : Type}

/-- `NGTCP2_SECONDS` -/
def ngtcp2Seconds : Nat := 1000000000

/-- `NGTCP2_MIN_INITIAL_DCIDLEN` -/
def minInitialDcidlen : Nat := 8

/-- What the first byte of a token says: `NGTCP2_CRYPTO_TOKEN_MAGIC_RETRY`,
`NGTCP2_CRYPTO_TOKEN_MAGIC_REGULAR`, or something else. -/
inductive TokenMagic where
  | retry | regular | other
  deriving DecidableEq, Repr

/-- The functions of ngtcp2 for tokens, `T`, and what is assumed of them. -/
structure TokenCrypto (Addr T : Type) where
  magic : T → TokenMagic
  /-- Whether two addresses have the same IP. The port is not in a regular token. -/
  sameIp : Addr → Addr → Bool
  /-- `ngtcp2_crypto_generate_retry_token`, with the random bytes that it draws -/
  generateRetryToken (random secret : Bytes) (version : Nat) (remote : Addr) (scid odcid : Bytes)
    (time : Nat) : T
  /-- `ngtcp2_crypto_verify_retry_token`, with the original `dcid` as its result -/
  verifyRetryToken (token : T) (secret : Bytes) (version : Nat) (remote : Addr) (dcid : Bytes)
    (timeout now : Nat) : Option Bytes
  /-- `ngtcp2_crypto_generate_regular_token` -/
  generateRegularToken (random secret : Bytes) (remote : Addr) (time : Nat) : T
  /-- `ngtcp2_crypto_verify_regular_token` -/
  verifyRegularToken (token : T) (secret : Bytes) (remote : Addr) (timeout now : Nat) : Bool
  magic_retry : ∀ random secret version remote scid odcid time,
    magic (generateRetryToken random secret version remote scid odcid time) = .retry
  magic_regular : ∀ random secret remote time,
    magic (generateRegularToken random secret remote time) = .regular
  verify_retry : ∀ random secret version remote scid odcid time version' remote' dcid timeout now
    odcid', verifyRetryToken (generateRetryToken random secret version remote scid odcid time)
        secret version' remote' dcid timeout now = some odcid' ↔
      version' = version ∧ remote' = remote ∧ dcid = scid ∧ now < time + timeout ∧ odcid' = odcid
  verify_regular : ∀ random secret remote time remote' timeout now,
    verifyRegularToken (generateRegularToken random secret remote time) secret remote' timeout
        now = true ↔ sameIp remote remote' = true ∧ now < time + timeout

/-- `ngtcp2_pkt_hd` of an Initial packet, and the address that it comes from. -/
structure Initial (Addr T : Type) where
  remote : Addr
  version : Nat
  dcid : Bytes
  scid : Bytes
  /-- If `tokenlen` is not 0. -/
  token : Option T
  deriving DecidableEq, Repr

/-- `ngtcp2_token_type` -/
inductive TokenType where
  | unknown | retry | newToken
  deriving DecidableEq, Repr

/-- What a new inbound connection is told: the type of the token, and the transport parameters
`original_dcid` and `retry_scid`. -/
structure InboundParams where
  tokenType : TokenType
  originalDcid : Bytes
  retryScid : Option Bytes
  deriving DecidableEq, Repr

/-- A Retry packet, with the `scid` and the token for the client. -/
structure Retry (T : Type) where
  version : Nat
  dcid : Bytes
  scid : Bytes
  token : T
  deriving DecidableEq, Repr

/-- What `accept_initial_connection` makes of an Initial packet: a connection, a Retry packet, or a
close with `INVALID_TOKEN`. -/
inductive Verdict (T : Type) where
  | accept (params : InboundParams)
  | retry (packet : Retry T)
  | close
  deriving DecidableEq, Repr

/-- An inbound connection that was made, for which packet and when. -/
structure Accepted (Addr T : Type) where
  initial : Initial Addr T
  time : Nat
  params : InboundParams
  deriving DecidableEq, Repr

/-- A server, and what it has done. -/
structure ValidatingServer (Addr T : Type) where
  /-- `_static_secret` -/
  secret : Bytes
  now : Nat := 0
  accepted : List (Accepted Addr T) := []
  /-- The Retry packets, with what they answered and when. -/
  retries : List (Initial Addr T × Retry T × Nat) := []
  /-- The addresses that got tokens for later connections, and when. -/
  validated : List (Addr × Nat) := []
  /-- All tokens that were given out. -/
  issued : List T := []

/-! ## The client -/

section

variable [DecidableEq Addr]

/-- `path_validation_tokens`, after `store_path_validation_token` for each of these in turn. -/
def pathValidationTokens (stored : List (Addr × T)) : Addr → Option (T) :=
  stored.foldl (fun tokens entry => PartialMap.assign tokens entry.1 entry.2) fun _ => none

/-- The token of a new connection, from `get_path_validation_token` -/
def getPathValidationToken (stored : List (Addr × T)) (remote : Addr) :
    Option (T) := pathValidationTokens stored remote

/-- A client sends the last token that it has for the server. -/
theorem getPathValidationToken_append {remote : Addr} {token : T}
    (before : List (Addr × T)) {after : List (Addr × T)}
    (hafter : ∀ entry ∈ after, entry.1 ≠ remote) :
    getPathValidationToken (before ++ (remote, token) :: after) remote = some token := by
  unfold getPathValidationToken pathValidationTokens
  rw [List.foldl_append, List.foldl_cons]
  generalize hstored : PartialMap.assign _ remote token = tokens
  have hnow : tokens remote = some token := hstored ▸ PartialMap.assign_self ..
  clear hstored
  induction after generalizing tokens with
  | nil => exact hnow
  | cons entry after ih =>
    have hother := hafter entry (by simp)
    refine ih (fun entry hentry => hafter entry (by simp [hentry])) _ ?_
    change PartialMap.assign tokens entry.1 entry.2 remote = some token
    rw [PartialMap.assign_apply, if_neg (Ne.symm hother)]
    exact hnow

end

/-! ## The server -/

namespace ValidatingServer

variable (K : TokenCrypto Addr T)

def verifyToken (s : ValidatingServer Addr T) (hdr : Initial Addr T) (token : T) : Bool :=
  K.verifyRegularToken token s.secret hdr.remote (3600 * ngtcp2Seconds) s.now

def verifyRetryToken (s : ValidatingServer Addr T) (hdr : Initial Addr T) (token : T) :
    Option Bytes :=
  K.verifyRetryToken token s.secret hdr.version hdr.remote hdr.dcid (10 * ngtcp2Seconds) s.now

/-- `send_retry`, with a random `scid` -/
def makeRetry (s : ValidatingServer Addr T) (hdr : Initial Addr T) (scid random : Bytes) :
    Retry T where
  version := hdr.version
  dcid := hdr.scid
  scid := scid
  token := K.generateRetryToken random s.secret hdr.version hdr.remote scid hdr.dcid s.now

/-- `accept_initial_connection`, up to the new connection. -/
def judge (s : ValidatingServer Addr T) (hdr : Initial Addr T) (scid random : Bytes) :
    Verdict T :=
  match hdr.token with
  | none => .accept ⟨.unknown, hdr.dcid, none⟩
  | some token =>
    match K.magic token with
    | .retry =>
      match s.verifyRetryToken K hdr token with
      | none => .close
      | some originalCid => .accept ⟨.retry, originalCid, some hdr.dcid⟩
    | .regular =>
      if s.verifyToken K hdr token then .accept ⟨.newToken, hdr.dcid, none⟩
      else .retry (s.makeRetry K hdr scid random)
    | .other =>
      if hdr.dcid.length < minInitialDcidlen then .close
      else .retry (s.makeRetry K hdr scid random)

def acceptInitial (s : ValidatingServer Addr T) (hdr : Initial Addr T) (scid random : Bytes) :
    ValidatingServer Addr T :=
  match s.judge K hdr scid random with
  | .accept params => { s with accepted := s.accepted ++ [⟨hdr, s.now, params⟩] }
  | .retry packet =>
    { s with
      retries := s.retries ++ [(hdr, packet, s.now)]
      issued := s.issued ++ [packet.token] }
  | .close => s

/-- A token for later connections, from `server_handshake_completed` and `server_path_validation` -/
def submitNewToken (remote : Addr) (random : Bytes) (s : ValidatingServer Addr T) :
    ValidatingServer Addr T :=
  { s with
    validated := s.validated ++ [(remote, s.now)]
    issued := s.issued ++ [K.generateRegularToken random s.secret remote s.now] }

inductive Op (Addr T : Type) where
  | initial (hdr : Initial Addr T) (scid random : Bytes)
  /-- The handshake of a connection is complete. -/
  | serverHandshakeCompleted (remote : Addr) (random : Bytes)
  | serverPathValidation (remote : Addr) (success newToken : Bool) (random : Bytes)
  | tick (ns : Nat)

/-- A token that is valid for the packet it comes with is one that was given out. -/
def Enabled (s : ValidatingServer Addr T) : Op Addr T → Prop
  | .initial hdr _ _ => ∀ token, hdr.token = some token →
      s.verifyRetryToken K hdr token ≠ none ∨ s.verifyToken K hdr token = true → token ∈ s.issued
  | _ => True

def step (s : ValidatingServer Addr T) : Op Addr T → Except Fault (ValidatingServer Addr T)
  | .initial hdr scid random => .ok (s.acceptInitial K hdr scid random)
  | .serverHandshakeCompleted remote random => .ok (s.submitNewToken K remote random)
  | .serverPathValidation remote success newToken random =>
    .ok (if success && newToken then s.submitNewToken K remote random else s)
  | .tick ns => .ok { s with now := s.now + ns }

def machine : Machine (ValidatingServer Addr T) (Op Addr T) Fault where
  initial s := s = { secret := s.secret }
  enabled := Enabled K
  step := step K

/-! ## What was done -/

variable {K} {s t : ValidatingServer Addr T} {hdr : Initial Addr T} {scid random : Bytes}

/-- A token that was given out is one of a Retry packet, or of an address that was validated. -/
inductive Known (K : TokenCrypto Addr T) (s : ValidatingServer Addr T) : T → Prop where
  | retry {hdr : Initial Addr T} {p : Retry T} {time : Nat} (random : Bytes)
      (h : (hdr, p, time) ∈ s.retries) : Known K s
        (K.generateRetryToken random s.secret hdr.version hdr.remote p.scid hdr.dcid time)
  | regular {remote : Addr} {time : Nat} (random : Bytes) (h : (remote, time) ∈ s.validated) :
      Known K s (K.generateRegularToken random s.secret remote time)

/-- Why the connection was accepted. -/
inductive Validated (K : TokenCrypto Addr T) (s : ValidatingServer Addr T)
    (a : Accepted Addr T) : Prop where
  /-- There was no token. -/
  | none (htoken : a.initial.token = none) (hparams : a.params = ⟨.unknown, a.initial.dcid, none⟩)
  /-- The client has followed a Retry packet that was sent to its address. -/
  | retry {first : Initial Addr T} {packet : Retry T} {time : Nat}
      (hretry : (first, packet, time) ∈ s.retries) (hremote : first.remote = a.initial.remote)
      (hversion : first.version = a.initial.version) (hscid : packet.scid = a.initial.dcid)
      (htime : time ≤ a.time ∧ a.time < time + 10 * ngtcp2Seconds)
      (hparams : a.params = ⟨.retry, first.dcid, some packet.scid⟩)
  /-- An address with the same IP was validated. -/
  | newToken {remote : Addr} {time : Nat} (hvalidated : (remote, time) ∈ s.validated)
      (hip : K.sameIp remote a.initial.remote = true)
      (htime : time ≤ a.time ∧ a.time < time + 3600 * ngtcp2Seconds)
      (hparams : a.params = ⟨.newToken, a.initial.dcid, none⟩)

structure Inv (K : TokenCrypto Addr T) (s : ValidatingServer Addr T) : Prop where
  issued : ∀ token ∈ s.issued, Known K s token
  retries : ∀ entry ∈ s.retries, entry.2.2 ≤ s.now
  validated : ∀ entry ∈ s.validated, entry.2 ≤ s.now
  accepted : ∀ a ∈ s.accepted, Validated K s a

/-- Time passes, and what was done is not forgotten. -/
structure Grows (s t : ValidatingServer Addr T) : Prop where
  secret : t.secret = s.secret
  now : s.now ≤ t.now
  retries : s.retries ⊆ t.retries
  validated : s.validated ⊆ t.validated
  issued : s.issued ⊆ t.issued

theorem Grows.refl (s : ValidatingServer Addr T) : Grows s s :=
  ⟨rfl, le_rfl, fun _ h => h, fun _ h => h, fun _ h => h⟩

theorem Grows.trans {u : ValidatingServer Addr T} (h : Grows s t) (h' : Grows t u) : Grows s u :=
  ⟨h'.secret.trans h.secret, h.now.trans h'.now,
    List.Subset.trans h.retries h'.retries, List.Subset.trans h.validated h'.validated,
    List.Subset.trans h.issued h'.issued⟩

theorem Known.grows {token : T} (h : Known K s token) (hst : Grows s t) : Known K t token := by
  cases h with
  | retry random h => exact hst.secret ▸ .retry random (hst.retries h)
  | regular random h => exact hst.secret ▸ .regular random (hst.validated h)

theorem Validated.grows {a : Accepted Addr T} (h : Validated K s a) (hst : Grows s t) :
    Validated K t a := by
  cases h with
  | none htoken hparams => exact .none htoken hparams
  | retry hretry hremote hversion hscid htime hparams =>
    exact .retry (hst.retries hretry) hremote hversion hscid htime hparams
  | newToken hvalidated hip htime hparams =>
    exact .newToken (hst.validated hvalidated) hip htime hparams

theorem grows_tick (ns : Nat) (s : ValidatingServer Addr T) :
    Grows s { s with now := s.now + ns } :=
  ⟨rfl, Nat.le_add_right .., fun _ h => h, fun _ h => h, fun _ h => h⟩

theorem grows_submitNewToken (remote : Addr) (random : Bytes) (s : ValidatingServer Addr T) :
    Grows s (s.submitNewToken K remote random) :=
  ⟨rfl, le_rfl, fun _ h => h, List.subset_append_left .., List.subset_append_left ..⟩

/-! ## Why connections are accepted -/

/-- The tokens with which a packet is accepted. -/
theorem judge_accept {params : InboundParams} (h : s.judge K hdr scid random = .accept params) :
    hdr.token = none ∧ params = ⟨.unknown, hdr.dcid, none⟩ ∨
    (∃ token odcid, hdr.token = some token ∧ K.magic token = .retry ∧
      s.verifyRetryToken K hdr token = some odcid ∧ params = ⟨.retry, odcid, some hdr.dcid⟩) ∨
    ∃ token, hdr.token = some token ∧ K.magic token = .regular ∧
      s.verifyToken K hdr token = true ∧ params = ⟨.newToken, hdr.dcid, none⟩ := by
  unfold judge at h
  cases htoken : hdr.token with
  | none =>
    rw [htoken] at h
    cases h
    exact .inl ⟨rfl, rfl⟩
  | some token =>
    simp only [htoken] at h
    cases hmagic : K.magic token with
    | retry =>
      simp only [hmagic] at h
      cases hvalid : s.verifyRetryToken K hdr token with
      | none => simp [hvalid] at h
      | some odcid =>
        simp only [hvalid, Verdict.accept.injEq] at h
        exact .inr (.inl ⟨token, odcid, rfl, hmagic, hvalid, h.symm⟩)
    | regular =>
      simp only [hmagic] at h
      split_ifs at h with hvalid
      cases h
      exact .inr (.inr ⟨token, rfl, hmagic, hvalid, rfl⟩)
    | other =>
      simp only [hmagic] at h
      split_ifs at h

theorem judge_retry {packet : Retry T} (h : s.judge K hdr scid random = .retry packet) :
    packet = s.makeRetry K hdr scid random := by
  unfold judge at h
  grind

/-- A packet is accepted for one of the reasons. -/
theorem Inv.validated_of_judge (h : s.Inv K) (he : s.Enabled K (.initial hdr scid random))
    {params : InboundParams} (hjudge : s.judge K hdr scid random = .accept params) :
    Validated K s ⟨hdr, s.now, params⟩ := by
  rcases judge_accept hjudge with ⟨htoken, rfl⟩ | ⟨token, odcid, htoken, hmagic, hvalid, rfl⟩ |
    ⟨token, htoken, hmagic, hvalid, rfl⟩
  · exact .none htoken rfl
  · have hknown := h.issued _ (he _ htoken (.inl (by simp [hvalid])))
    cases hknown with
    | @retry first packet time _ hmem =>
      obtain ⟨hversion, hremote, hscid, htime, rfl⟩ := (K.verify_retry ..).mp hvalid
      refine .retry hmem hremote.symm hversion.symm hscid.symm ⟨h.retries _ hmem, htime⟩ ?_
      rw [hscid]
    | regular => simp [K.magic_regular] at hmagic
  · have hknown := h.issued _ (he _ htoken (.inr hvalid))
    cases hknown with
    | retry => simp [K.magic_retry] at hmagic
    | @regular remote time _ hmem =>
      obtain ⟨hip, htime⟩ := (K.verify_regular ..).mp hvalid
      exact .newToken hmem hip ⟨h.validated _ hmem, htime⟩ rfl

theorem grows_acceptInitial (s : ValidatingServer Addr T) (hdr : Initial Addr T)
    (scid random : Bytes) : Grows s (s.acceptInitial K hdr scid random) := by
  unfold acceptInitial
  cases s.judge K hdr scid random with
  | accept params => exact ⟨rfl, le_rfl, fun _ h => h, fun _ h => h, fun _ h => h⟩
  | retry packet =>
    exact ⟨rfl, le_rfl, List.subset_append_left .., fun _ h => h, List.subset_append_left ..⟩
  | close => exact .refl s

theorem grows_of_step {op : Op Addr T} (h : s.step K op = .ok t) : Grows s t := by
  cases op with
  | initial hdr scid random =>
    cases h
    exact grows_acceptInitial s hdr scid random
  | serverHandshakeCompleted remote random =>
    cases h
    exact grows_submitNewToken remote random s
  | serverPathValidation remote success newToken random =>
    cases h
    split_ifs
    · exact grows_submitNewToken remote random s
    · exact .refl s
  | tick ns =>
    cases h
    exact grows_tick ns s

theorem grows_of_steps (h : (machine K).Steps s t) : Grows s t := by
  induction h with
  | refl => exact .refl s
  | tail _ _ ht ih => exact ih.trans (grows_of_step ht)

theorem Inv.acceptInitial (h : s.Inv K) (he : s.Enabled K (.initial hdr scid random)) :
    (s.acceptInitial K hdr scid random).Inv K := by
  have hgrows := grows_acceptInitial (K := K) s hdr scid random
  have hold : ∀ a ∈ s.accepted, Validated K (s.acceptInitial K hdr scid random) a :=
    fun a ha => (h.accepted a ha).grows hgrows
  have hissued : ∀ token ∈ s.issued, Known K (s.acceptInitial K hdr scid random) token :=
    fun token htoken => (h.issued token htoken).grows hgrows
  unfold ValidatingServer.acceptInitial at *
  cases hjudge : s.judge K hdr scid random with
  | accept params =>
    rw [hjudge] at hold hissued hgrows
    refine ⟨hissued, h.retries, h.validated, fun a ha => ?_⟩
    rcases List.mem_append.mp ha with ha | ha
    · exact hold a ha
    · obtain rfl := List.mem_singleton.mp ha
      exact (h.validated_of_judge he hjudge).grows hgrows
  | retry packet =>
    rw [hjudge] at hold hissued
    obtain rfl := judge_retry hjudge
    refine ⟨fun token htoken => ?_, fun entry hentry => ?_, h.validated, hold⟩
    · rcases List.mem_append.mp htoken with htoken | htoken
      · exact hissued token htoken
      · obtain rfl := List.mem_singleton.mp htoken
        exact .retry (p := s.makeRetry K hdr scid random) random
          (List.mem_append_right _ (List.mem_singleton.mpr rfl))
    · rcases List.mem_append.mp hentry with hentry | hentry
      · exact h.retries entry hentry
      · obtain rfl := List.mem_singleton.mp hentry
        exact le_rfl
  | close => exact h

theorem Inv.submitNewToken (h : s.Inv K) (remote : Addr) (random : Bytes) :
    (s.submitNewToken K remote random).Inv K := by
  have hgrows := grows_submitNewToken (K := K) remote random s
  refine ⟨fun token htoken => ?_, h.retries, fun entry hentry => ?_,
    fun a ha => (h.accepted a ha).grows hgrows⟩
  · rcases List.mem_append.mp htoken with htoken | htoken
    · exact (h.issued token htoken).grows hgrows
    · obtain rfl := List.mem_singleton.mp htoken
      exact .regular random (List.mem_append_right _ (List.mem_singleton.mpr rfl))
  · rcases List.mem_append.mp hentry with hentry | hentry
    · exact h.validated entry hentry
    · obtain rfl := List.mem_singleton.mp hentry
      exact le_rfl

theorem inductive_inv : (machine K).Inductive (Inv K) where
  initial s h := by
    rw [show s = { secret := s.secret } from h]
    exact ⟨by simp, by simp, by simp, by simp⟩
  step s op h he := by
    cases op with
    | initial hdr scid random => exact ⟨_, rfl, h.acceptInitial he⟩
    | serverHandshakeCompleted remote random => exact ⟨_, rfl, h.submitNewToken remote random⟩
    | serverPathValidation remote success newToken random =>
      refine ⟨_, rfl, ?_⟩
      split_ifs
      · exact h.submitNewToken remote random
      · exact h
    | tick ns =>
      have hgrows : Grows s { s with now := s.now + ns } := grows_tick ns s
      exact ⟨_, rfl, fun token htoken => (h.issued token htoken).grows hgrows,
        fun entry hentry => (h.retries entry hentry).trans hgrows.now,
        fun entry hentry => (h.validated entry hentry).trans hgrows.now,
        fun a ha => (h.accepted a ha).grows hgrows⟩

theorem judge_retry_token [DecidableEq Addr] {version time : Nat} {remote : Addr}
    {random' odcid : Bytes}
    (htoken : hdr.token =
      some (K.generateRetryToken random' s.secret version remote hdr.dcid odcid time)) :
    s.judge K hdr scid random =
      if hdr.version = version ∧ hdr.remote = remote ∧ s.now < time + 10 * ngtcp2Seconds then
        .accept ⟨.retry, odcid, some hdr.dcid⟩
      else .close := by
  have hverify := K.verify_retry random' s.secret version remote hdr.dcid odcid time hdr.version
    hdr.remote hdr.dcid (10 * ngtcp2Seconds) s.now
  unfold judge
  simp only [htoken, K.magic_retry, ValidatingServer.verifyRetryToken]
  split_ifs with hvalid
  · rw [(hverify odcid).mpr ⟨hvalid.1, hvalid.2.1, rfl, hvalid.2.2, rfl⟩]
  · split
    next => rfl
    next odcid' hsome =>
      obtain ⟨hversion, hremote, -, htime, -⟩ := (hverify odcid').mp hsome
      exact absurd ⟨hversion, hremote, htime⟩ hvalid

theorem judge_regular_token {time : Nat} {remote : Addr} {random' : Bytes}
    (htoken : hdr.token = some (K.generateRegularToken random' s.secret remote time)) :
    s.judge K hdr scid random =
      if K.sameIp remote hdr.remote = true ∧ s.now < time + 3600 * ngtcp2Seconds then
        .accept ⟨.newToken, hdr.dcid, none⟩
      else .retry (s.makeRetry K hdr scid random) := by
  unfold judge
  simp only [htoken, K.magic_regular, ValidatingServer.verifyToken]
  exact if_congr (K.verify_regular ..) rfl rfl

end ValidatingServer

/-! ## Ideal tokens -/

/-- A token that is what it was made from. -/
inductive Token (Addr : Type) where
  | retry (random secret : Bytes) (version : Nat) (remote : Addr) (scid odcid : Bytes) (time : Nat)
  | regular (random secret : Bytes) (remote : Addr) (time : Nat)
  /-- Any other bytes. -/
  | raw (magic : TokenMagic)
  deriving DecidableEq, Repr

def Token.crypto [DecidableEq Addr] (sameIp : Addr → Addr → Bool) :
    TokenCrypto Addr (Token Addr) where
  magic
    | .retry .. => .retry
    | .regular .. => .regular
    | .raw magic => magic
  sameIp := sameIp
  generateRetryToken := .retry
  verifyRetryToken
    | .retry _ secret version remote scid odcid time, secret', version', remote', dcid, timeout,
        now =>
      if secret' = secret ∧ version' = version ∧ remote' = remote ∧ dcid = scid ∧
          now < time + timeout then some odcid
      else none
    | _, _, _, _, _, _, _ => none
  generateRegularToken := .regular
  verifyRegularToken
    | .regular _ secret remote time, secret', remote', timeout, now =>
      secret' == secret && sameIp remote remote' && now < time + timeout
    | _, _, _, _, _ => false
  magic_retry := by simp
  magic_regular := by simp
  verify_retry := by grind
  verify_regular := by simp

namespace ValidatingServer

variable {K : TokenCrypto Addr T} {s : ValidatingServer Addr T}

/-- Every inbound connection came with a reason to believe its address, or without a token: it
followed a Retry packet that this endpoint had sent to the same address in the last ten seconds,
and learns the `dcid` of the packet that was answered, or it came from an IP address that was
validated within the last hour. -/
theorem accepted_validated (h : (machine K).Reachable s) {a : Accepted Addr T}
    (ha : a ∈ s.accepted) : Validated K s a :=
  (inductive_inv.reachable h).accepted a ha

/-- A client at address 5 is sent a Retry packet and follows it after nine seconds. -/
theorem accepted_validated_retried :
    ∃ s : ValidatingServer Nat (Token Nat), (machine (Token.crypto (· == ·))).Reachable s ∧
      ∃ a ∈ s.accepted, a.params = ⟨.retry, [1, 2, 3, 4, 5, 6, 7, 8], some [9]⟩ ∧
        Validated (Token.crypto (· == ·)) s a := by
  let first : Initial Nat (Token Nat) :=
    ⟨5, 1, [1, 2, 3, 4, 5, 6, 7, 8], [0], some (.raw .other)⟩
  let token : Token Nat := .retry [6] [7] 1 5 [9] [1, 2, 3, 4, 5, 6, 7, 8] 0
  let next : Initial Nat (Token Nat) := ⟨5, 1, [9], [0], some token⟩
  let waited : ValidatingServer Nat (Token Nat) :=
    { secret := [7]
      now := 9 * ngtcp2Seconds
      retries := [(first, ⟨1, [0], [9], token⟩, 0)]
      issued := [token] }
  have hstart : (machine (Token.crypto (· == ·))).Reachable
      ({ secret := [7] } : ValidatingServer Nat (Token Nat)) := .initial rfl
  have hretried : (machine (Token.crypto (· == ·))).Reachable { waited with now := 0 } := by
    refine hstart.step (i := .initial first [9] [6]) ?_ rfl
    rintro _ ⟨⟩ (hvalid | hvalid)
    · exact absurd rfl hvalid
    · cases hvalid
  have hwaited : (machine (Token.crypto (· == ·))).Reachable waited :=
    hretried.step (i := .tick (9 * ngtcp2Seconds)) trivial (by simp [machine, step, waited])
  have hnext : (machine (Token.crypto (· == ·))).Reachable
      (waited.acceptInitial (Token.crypto (· == ·)) next [] []) := by
    refine hwaited.step (i := .initial next [] []) ?_ rfl
    rintro _ ⟨⟩ -
    exact List.mem_singleton.mpr rfl
  have hjudge : waited.judge (Token.crypto (· == ·)) next [] [] =
      .accept ⟨.retry, [1, 2, 3, 4, 5, 6, 7, 8], some [9]⟩ := by
    have htoken : next.token = some ((Token.crypto (· == ·)).generateRetryToken [6] waited.secret 1
        5 next.dcid [1, 2, 3, 4, 5, 6, 7, 8] 0) := rfl
    rw [judge_retry_token htoken, if_pos (by simp [waited, next, ngtcp2Seconds])]
  have hmem : ⟨next, waited.now, ⟨.retry, [1, 2, 3, 4, 5, 6, 7, 8], some [9]⟩⟩ ∈
      (waited.acceptInitial (Token.crypto (· == ·)) next [] []).accepted := by
    simp [acceptInitial, hjudge]
  exact ⟨_, hnext, _, hmem, rfl, accepted_validated hnext hmem⟩

/-! ## Clients that return -/

/-- A client that does not come back from a Retry packet is accepted, or is sent one. If it is, then
whatever else happens meanwhile, it is accepted when it comes back in time from where it was, and
learns the `dcid` of its first packet; otherwise it is turned away. -/
theorem retry_followed [DecidableEq Addr] (s : ValidatingServer Addr T) (hdr : Initial Addr T)
    (scid random : Bytes) (hfirst : ∀ token, hdr.token = some token → K.magic token ≠ .retry)
    (hdcid : minInitialDcidlen ≤ hdr.dcid.length) :
    (∃ params, s.judge K hdr scid random = .accept params) ∨
    ∃ packet, s.judge K hdr scid random = .retry packet ∧
      ∀ t, (machine K).Steps (s.acceptInitial K hdr scid random) t →
        ∀ remote version scid' random',
        t.Enabled K
          (.initial ⟨remote, version, packet.scid, hdr.scid, some packet.token⟩ scid' random') ∧
        t.judge K ⟨remote, version, packet.scid, hdr.scid, some packet.token⟩ scid' random' =
          if version = hdr.version ∧ remote = hdr.remote ∧ t.now < s.now + 10 * ngtcp2Seconds then
            .accept ⟨.retry, hdr.dcid, some packet.scid⟩
          else .close := by
  cases hjudge : s.judge K hdr scid random with
  | accept params => exact .inl ⟨params, rfl⟩
  | close =>
    unfold judge at hjudge
    grind
  | retry packet =>
    refine .inr ⟨packet, rfl, fun t hsteps remote version scid' random' => ?_⟩
    obtain rfl := judge_retry hjudge
    have hgrows := grows_of_steps hsteps
    have hsecret : t.secret = s.secret :=
      hgrows.secret.trans (grows_acceptInitial s hdr scid random).secret
    constructor
    · intro token htoken _
      obtain rfl := Option.some.inj htoken
      refine hgrows.issued ?_
      simp [acceptInitial, hjudge]
    · have htoken : some (s.makeRetry K hdr scid random).token = some (K.generateRetryToken random
          t.secret hdr.version hdr.remote scid hdr.dcid s.now) := by
        rw [hsecret]
        rfl
      exact judge_retry_token htoken

/-- A client without any token that the server knows. -/
theorem retry_followed_unknown :
    ∃ packet, judge (Token.crypto (· == ·)) { secret := [7] }
        ⟨5, 1, [1, 2, 3, 4, 5, 6, 7, 8], [0], some (.raw .other)⟩ [9] [6] = .retry packet ∧
      ∀ t, (machine (Token.crypto (· == ·))).Steps
          (acceptInitial (Token.crypto (· == ·)) { secret := [7] }
            ⟨(5 : Nat), 1, [1, 2, 3, 4, 5, 6, 7, 8], [0], some (.raw .other)⟩ [9] [6]) t →
        t.now < 10 * ngtcp2Seconds →
        t.judge (Token.crypto (· == ·)) ⟨5, 1, packet.scid, [0], some packet.token⟩ [] [] =
          .accept ⟨.retry, [1, 2, 3, 4, 5, 6, 7, 8], some packet.scid⟩ := by
  rcases retry_followed (K := Token.crypto (· == ·)) { secret := [7] }
      ⟨(5 : Nat), 1, [1, 2, 3, 4, 5, 6, 7, 8], [0], some (.raw .other)⟩ [9] [6]
      (by simp [Token.crypto]) (by simp [minInitialDcidlen]) with ⟨params, haccept⟩ | hretry
  · cases haccept
  · obtain ⟨packet, hjudge, hlater⟩ := hretry
    refine ⟨packet, hjudge, fun t hsteps hnow => ?_⟩
    rw [(hlater t hsteps 5 1 [] []).2, if_pos (by simpa using hnow)]

/-- A client that has stored the token of an earlier connection is accepted at once within an hour,
if it still has the IP address that the token was given to. If not, it is sent a Retry packet. -/
theorem new_token_returned [DecidableEq Addr] (s : ValidatingServer Addr T) (remote server : Addr)
    (random : Bytes) (before after : List (Addr × T)) (hafter : ∀ entry ∈ after, entry.1 ≠ server)
    {t : ValidatingServer Addr T} (hsteps : (machine K).Steps (s.submitNewToken K remote random) t)
    (hdr : Initial Addr T) (scid random' : Bytes)
    (htoken : hdr.token = getPathValidationToken
      (before ++ (server, K.generateRegularToken random s.secret remote s.now) :: after) server) :
    t.Enabled K (.initial hdr scid random') ∧
      t.judge K hdr scid random' =
        if K.sameIp remote hdr.remote = true ∧ t.now < s.now + 3600 * ngtcp2Seconds then
          .accept ⟨.newToken, hdr.dcid, none⟩
        else .retry (t.makeRetry K hdr scid random') := by
  have hgrows := grows_of_steps hsteps
  have hsecret : t.secret = s.secret := hgrows.secret
  rw [getPathValidationToken_append before hafter] at htoken
  constructor
  · intro token hsome _
    obtain rfl := Option.some.inj (htoken.symm.trans hsome)
    exact hgrows.issued (by simp [submitNewToken])
  · exact judge_regular_token (hsecret ▸ htoken)

/-- A client of two servers that comes back at once, from another port. An address is a pair of an
IP address and a port here. -/
theorem new_token_returned_soon :
    judge (Token.crypto fun a b => a.1 == b.1)
        (submitNewToken (Token.crypto fun a b => a.1 == b.1) (5, 1000) [6] { secret := [7] })
        ⟨(5, 1001), 1, [1], [0], getPathValidationToken
          [((8, 80), .regular [6] [7] (5, 1000) 0), ((8, 81), .raw .regular)] (8, 80)⟩ [] [] =
      .accept ⟨.newToken, [1], none⟩ := by
  have hjudge := (new_token_returned (K := Token.crypto fun a b => a.1 == b.1) { secret := [7] }
    ((5, 1000) : Nat × Nat) (8, 80) [6] [] [((8, 81), .raw .regular)] (by simp) .refl
    ⟨(5, 1001), 1, [1], [0], getPathValidationToken
      [((8, 80), .regular [6] [7] (5, 1000) 0), ((8, 81), .raw .regular)] (8, 80)⟩ [] [] rfl).2
  rw [hjudge, if_pos (by simp [submitNewToken, ngtcp2Seconds, Token.crypto])]

end ValidatingServer

end Libquic
