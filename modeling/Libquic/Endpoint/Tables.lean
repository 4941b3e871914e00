import Libquic.Lib.Machine
import Libquic.Lib.PartialMap
import Libquic.Stream.Basic

/-!
# The tables of an endpoint

`Endpoint` keeps its connections by reference id, and maps connection ids and hashed stateless
reset tokens to reference ids. A connection in turn keeps the ids and tokens it is known by. These
are the functions that change any of the tables, and runs of them in any order. Random ids are
inputs: an attempt draws them from a list until one is free.
-/
namespace Libquic

open Lib PartialMap

variable {κ τ : Type}

/-- What a `Connection` keeps for the tables. -/
structure TableConn (κ τ : Type) where
  associatedCids : List κ := []
  associatedResets : List τ := []
  deriving DecidableEq, Repr

/-- The tables; a null pointer in `conns` is a key without a connection. -/
structure Tables (κ τ : Type) where
  conns : Nat → Option (Option (TableConn κ τ)) := fun _ => none
  connLookup : κ → Option Nat := fun _ => none
  resetTokenConns : τ → Option Nat := fun _ => none
  /-- `_last_lookup_cid` and `_last_lookup_conn` -/
  lastLookup : Option (κ × Nat) := none
  nextRid : Nat := 0

namespace Tables

/-- The connection is in `conns`. -/
def Live (s : Tables κ τ) (rid : Nat) (c : TableConn κ τ) : Prop := s.conns rid = some (some c)

/-- `get_conn` of a reference id -/
def getConn (rid : Nat) (s : Tables κ τ) : Option (TableConn κ τ) := (s.conns rid).join

/-- The connection changes its own sets. -/
def setConn (rid : Nat) (c : TableConn κ τ) (s : Tables κ τ) : Tables κ τ :=
  { s with conns := assign s.conns rid (some c) }

variable [DecidableEq κ] [DecidableEq τ]

/-! ## Connection ids -/

def associateCid (cid : κ) (rid : Nat) (c : TableConn κ τ) (weakly : Bool) (s : Tables κ τ) :
    Tables κ τ :=
  let inserted := (s.connLookup cid).isNone
  let s := { s with connLookup := emplace s.connLookup cid rid }
  if inserted || !weakly then
    s.setConn rid { c with associatedCids := c.associatedCids.insert cid }
  else s

def dissociateCid (cid : κ) (rid : Nat) (c : TableConn κ τ) (s : Tables κ τ) : Tables κ τ :=
  { s with connLookup := erase s.connLookup cid, lastLookup := none }.setConn rid
    { c with associatedCids := c.associatedCids.filter (· ≠ cid) }

/-- The end of `server_handshake_completed`, with the client's initial dcid. -/
def serverHandshakeCompleted (initDcid : κ) (rid : Nat) (c : TableConn κ τ) (s : Tables κ τ) :
    Tables κ τ :=
  if initDcid ∈ c.associatedCids then s.dissociateCid initDcid rid c else s

/-- The lookup in both maps, which remembers what it finds. -/
def searchConn (cid : κ) (s : Tables κ τ) : Option Nat × Tables κ τ :=
  match s.connLookup cid with
  | none => (none, s)
  | some rid =>
    match s.getConn rid with
    | none => (none, s)
    | some _ => (some rid, { s with lastLookup := some (cid, rid) })

/-- `fetch_associated_conn`: the connection that is found, and the tables with the last lookup. -/
def fetchAssociatedConn (cid : κ) (s : Tables κ τ) : Option Nat × Tables κ τ :=
  match s.lastLookup with
  | none => s.searchConn cid
  | some last => if cid = last.1 then (some last.2, s) else s.searchConn cid

/-! ## Stateless reset tokens -/

def associateReset (htok : τ) (rid : Nat) (c : TableConn κ τ) (s : Tables κ τ) : Tables κ τ :=
  { s with resetTokenConns := assign s.resetTokenConns htok rid }.setConn rid
    { c with associatedResets := c.associatedResets.insert htok }

def dissociateReset (htok : τ) (rid : Nat) (c : TableConn κ τ) (s : Tables κ τ) : Tables κ τ :=
  { s with resetTokenConns := erase s.resetTokenConns htok }.setConn rid
    { c with associatedResets := c.associatedResets.filter (· ≠ htok) }

/-- `check_stateless_reset`: the connection that a token belongs to. -/
def checkStatelessReset (htok : τ) (s : Tables κ τ) : Option Nat × Tables κ τ :=
  match s.resetTokenConns htok with
  | none => (none, s)
  | some rid =>
    match s.getConn rid with
    | some _ => (some rid, s)
    | none => (none, { s with resetTokenConns := erase s.resetTokenConns htok })

/-! ## Connections -/

def deleteConnection (rid : Nat) (c : TableConn κ τ) (s : Tables κ τ) : Tables κ τ :=
  { s with
    connLookup := eraseAll s.connLookup c.associatedCids
    resetTokenConns := eraseAll s.resetTokenConns c.associatedResets
    conns := erase s.conns rid
    lastLookup := none }

/-- `conn_lookup.emplace` of random ids until one is new, and `conns.emplace` of a null pointer. -/
def emplaceAttempt (draws : List κ) (s : Tables κ τ) : Except Fault (κ × Tables κ τ) :=
  match draws.find? fun cid => (s.connLookup cid).isNone with
  | none => .error .divergence
  | some cid =>
    if (s.conns (s.nextRid + 1)).isSome then .error .assertion
    else .ok (cid,
      { s with
        nextRid := s.nextRid + 1
        connLookup := assign s.connLookup cid (s.nextRid + 1)
        conns := assign s.conns (s.nextRid + 1) none })

/-- The connection has been made, and `initial_association` has added its only id. -/
def established (cid : κ) (s : Tables κ τ) : Tables κ τ :=
  s.associateCid cid s.nextRid {} false

/-- `_connect`. An exception while the connection is made is passed on after both entries are
erased. -/
def connect (draws : List κ) (throws : Bool) (s : Tables κ τ) : Except Fault (Tables κ τ) := do
  let attempt ← s.emplaceAttempt draws
  if throws then
    .ok { attempt.2 with
      conns := erase attempt.2.conns attempt.2.nextRid
      connLookup := erase attempt.2.connLookup attempt.1
      lastLookup := none }
  else .ok (attempt.2.established attempt.1)

/-- `accept_initial_connection` from the new reference id on. Nothing catches an exception. -/
def acceptInitialConnection (draws : List κ) (throws : Bool) (s : Tables κ τ) :
    Except Fault (Tables κ τ) := do
  let attempt ← s.emplaceAttempt draws
  if throws then .ok attempt.2 else .ok (attempt.2.established attempt.1)

end Tables

/-! ## Runs -/

/-- What changes the tables. -/
inductive TableOp (κ τ : Type) where
  | connect (draws : List κ) (throws : Bool)
  | accept (draws : List κ) (throws : Bool)
  /-- `get_new_connection_id` -/
  | issue (rid : Nat) (cid : κ)
  /-- `remove_connection_id` -/
  | retire (rid : Nat) (cid : κ)
  /-- `associate_initial_dcid` -/
  | initialDcid (rid : Nat) (cid : κ)
  | handshakeCompleted (rid : Nat) (initDcid : κ)
  | fetch (cid : κ)
  /-- `on_connection_id_status`, for a new token or one that is no longer used -/
  | activate (rid : Nat) (htok : τ)
  | deactivate (rid : Nat) (htok : τ)
  | checkReset (htok : τ)
  | delete (rid : Nat)
  deriving DecidableEq, Repr

/-- The tables, and how many inbound connections could not be made. -/
structure TableRun (κ τ : Type) where
  tables : Tables κ τ := {}
  failedAccepts : Nat := 0

namespace TableRun

variable [DecidableEq κ] [DecidableEq τ]

/-- Only connections that are there hear of anything. An attempt draws an id that is not in use. -/
def Enabled (s : TableRun κ τ) : TableOp κ τ → Prop
  | .connect draws _ | .accept draws _ => ∃ cid ∈ draws, s.tables.connLookup cid = none
  | .issue rid _ | .retire rid _ | .initialDcid rid _ | .handshakeCompleted rid _
  | .activate rid _ | .deactivate rid _ | .delete rid => s.tables.getConn rid ≠ none
  | .fetch _ | .checkReset _ => True

instance (s : TableRun κ τ) (op : TableOp κ τ) : Decidable (s.Enabled op) :=
  match op with
  | .connect draws _ | .accept draws _ =>
    inferInstanceAs (Decidable (∃ cid ∈ draws, s.tables.connLookup cid = none))
  | .issue rid _ | .retire rid _ | .initialDcid rid _ | .handshakeCompleted rid _
  | .activate rid _ | .deactivate rid _ | .delete rid =>
    inferInstanceAs (Decidable (s.tables.getConn rid ≠ none))
  | .fetch _ | .checkReset _ => inferInstanceAs (Decidable True)

/-- A function of a connection that is there. -/
def onConn (rid : Nat) (f : TableConn κ τ → Tables κ τ) (s : TableRun κ τ) :
    Except Fault (TableRun κ τ) :=
  match s.tables.getConn rid with
  | none => .error .nullPointer
  | some c => .ok { s with tables := f c }

def step (s : TableRun κ τ) : TableOp κ τ → Except Fault (TableRun κ τ)
  | .connect draws throws => do
    let tables ← s.tables.connect draws throws
    .ok { s with tables := tables }
  | .accept draws throws => do
    let tables ← s.tables.acceptInitialConnection draws throws
    .ok { tables := tables, failedAccepts := s.failedAccepts + if throws then 1 else 0 }
  | .issue rid cid => s.onConn rid fun c => s.tables.associateCid cid rid c false
  | .retire rid cid => s.onConn rid fun c => s.tables.dissociateCid cid rid c
  | .initialDcid rid cid => s.onConn rid fun c => s.tables.associateCid cid rid c true
  | .handshakeCompleted rid cid => s.onConn rid fun c => s.tables.serverHandshakeCompleted cid rid c
  | .fetch cid => .ok { s with tables := (s.tables.fetchAssociatedConn cid).2 }
  | .activate rid htok => s.onConn rid fun c => s.tables.associateReset htok rid c
  | .deactivate rid htok => s.onConn rid fun c => s.tables.dissociateReset htok rid c
  | .checkReset htok => .ok { s with tables := (s.tables.checkStatelessReset htok).2 }
  | .delete rid => s.onConn rid fun c => s.tables.deleteConnection rid c

/-- An endpoint without connections. -/
def machine (κ τ : Type) [DecidableEq κ] [DecidableEq τ] :
    Machine (TableRun κ τ) (TableOp κ τ) Fault where
  initial s := s = {}
  enabled := Enabled
  step := step

instance (s : TableRun κ τ) (op : TableOp κ τ) : Decidable ((machine κ τ).enabled s op) :=
  inferInstanceAs (Decidable (s.Enabled op))

end TableRun

end Libquic
