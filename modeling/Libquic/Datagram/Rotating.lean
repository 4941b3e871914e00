import Libquic.Stream.Basic

/-!
# The buffer that reassembles split datagrams

`dgram::rotating_buffer`, with its table of slots, its pool of pieces and the list of free
pieces that runs through it. Indices that the code keeps in 16 bits are natural numbers here,
cut down where the code does so, and an access outside a container is a fault.
-/
namespace Libquic

/-- `std::countr_zero` of a 32-bit integer -/
def countrZero (n : Nat) : Nat := ((List.range 32).find? n.testBit).getD 32

/-- What `opt::enable_datagrams` lets through. -/
structure DatagramOptions where
  bufsize : Nat
  reorderLimit : Nat
  hasSingleBit : ∃ k, bufsize = 2 ^ k
  bufsize_ge : 64 ≤ bufsize
  bufsize_le : bufsize ≤ 8192
  reorderLimit_ge : bufsize ≤ reorderLimit
  reorderLimit_le : reorderLimit ≤ 8192

namespace DatagramOptions

variable (o : DatagramOptions)

/-- How many counters there are in a block: two blocks fill the buffer. -/
def blockSize : Nat := o.bufsize / 2

def blockShift : Nat := countrZero (o.bufsize / 2)

def nblocks : Nat := (1 <<< 14) >>> o.blockShift

def reorderBlocks : Nat := (o.reorderLimit + o.bufsize / 2 - 1) >>> o.blockShift

/-- `blocks & (nblocks - 1)` of an `int`. The number of blocks is a power of two. -/
def wrap (blocks : Int) : Int := blocks % o.nblocks

end DatagramOptions

/-- `NO_PIECE` -/
def noPiece : Nat := 0xffff

structure Piece (β : Type) where
  data : List β := []
  nextFree : Nat := noPiece
  first : Bool := false
  deriving DecidableEq, Repr

structure RotatingBuffer (β : Type) where
  /-- The newest block, once any datagram has arrived. -/
  newest : Option Int := none
  held : Nat → Int := fun _ => 0
  /-- 0 if empty, and otherwise 1 + an index into `pieces`. -/
  slots : List Nat := []
  pieces : List (Piece β) := []
  freeHead : Nat := noPiece

/-- The two lowest bits of the id of a first half; those of a second half are both set. -/
def dgidSplitFirst : Nat := 0b10

def dgidSplitSecond : Nat := 0b11

namespace RotatingBuffer

variable {β : Type} (o : DatagramOptions)

def heldBlock (newest block : Int) : Bool := decide (o.wrap (newest - block) ≤ 1)

def takePiece (x : RotatingBuffer β) : Except Fault (Nat × RotatingBuffer β) :=
  if x.freeHead = noPiece then
    .ok ((x.pieces.length + 1 - 1) % 2 ^ 16, { x with pieces := x.pieces ++ [{}] })
  else
    match x.pieces[x.freeHead]? with
    | none => .error .outOfRange
    | some p => .ok (x.freeHead, { x with freeHead := p.nextFree })

def releasePiece (index : Nat) (x : RotatingBuffer β) : Except Fault (RotatingBuffer β) :=
  match x.pieces[index]? with
  | none => .error .outOfRange
  | some p => .ok { x with
      pieces := x.pieces.set index { p with data := [], nextFree := x.freeHead }
      freeHead := index }

/-- The loop of `clear_half`, over the slots with these indices. -/
def clearSlots : List Nat → RotatingBuffer β → Except Fault (RotatingBuffer β)
  | [], x => .ok x
  | i :: rest, x =>
    match x.slots[i]? with
    | none => .error .outOfRange
    | some 0 => clearSlots rest x
    | some (index + 1) => do
      let x ← x.releasePiece index
      clearSlots rest { x with slots := x.slots.set i 0 }

def clearHalf (half : Nat) (x : RotatingBuffer β) : Except Fault (RotatingBuffer β) :=
  if x.held half = 0 then .ok x
  else do
    let x ← clearSlots (List.range' (half * o.blockSize) o.blockSize) x
    .ok { x with held := Function.update x.held half 0 }

/-- Whether the counter is not late, and the buffer afterwards. -/
def advance (counter : Nat) (x : RotatingBuffer β) : Except Fault (Bool × RotatingBuffer β) :=
  let block : Int := (counter >>> o.blockShift : Nat)
  match x.newest with
  | none => .ok (true, { x with newest := some block })
  | some newest =>
    if heldBlock o newest block then .ok (true, x)
    else if o.wrap (newest - block) < o.reorderBlocks then .ok (false, x)
    else do
      let x ← x.clearHalf o (block % 2).toNat
      let x ← if o.wrap (block - newest) > 1 then x.clearHalf o ((block - 1) % 2).toNat else .ok x
      .ok (true, { x with newest := some block })

def observe (dgid : Nat) (x : RotatingBuffer β) : Except Fault (RotatingBuffer β) := do
  let result ← x.advance o (dgid >>> 2)
  .ok result.2

def completes (dgid : Nat) (x : RotatingBuffer β) : Except Fault Bool :=
  let counter := dgid >>> 2
  if x.slots.isEmpty then .ok false
  else
    match x.newest with
    | none => .error .nullPointer
    | some newest =>
      if !heldBlock o newest (counter >>> o.blockShift : Nat) then .ok false
      else
        match x.slots[counter &&& (o.bufsize - 1)]? with
        | none => .error .outOfRange
        | some 0 => .ok false
        | some (index + 1) =>
          match x.pieces[index]? with
          | none => .error .outOfRange
          | some p => .ok (p.first != (dgid &&& 0b11 == dgidSplitFirst))

/-- Keep a piece in the slot `i`, which is empty. -/
def store (i half : Nat) (first : Bool) (data : List β) (x : RotatingBuffer β) :
    Except Fault (RotatingBuffer β) := do
  let taken ← x.takePiece
  let x := taken.2
  match x.pieces[taken.1]? with
  | none => .error .outOfRange
  | some p => .ok { x with
      pieces := x.pieces.set taken.1 { p with data := data, first := first }
      slots := x.slots.set i ((taken.1 + 1) % 2 ^ 16)
      held := Function.update x.held half (x.held half + 1) }

/-- Release the piece in the slot `i`. -/
def pair (i half index : Nat) (x : RotatingBuffer β) : Except Fault (RotatingBuffer β) := do
  let x ← x.releasePiece index
  .ok { x with
    slots := x.slots.set i 0
    held := Function.update x.held half (x.held half - 1) }

/-- The end of `receive`, for a piece that belongs in the slot `i`. -/
def receiveAt (i half : Nat) (first : Bool) (data : List β) (x : RotatingBuffer β) :
    Except Fault (Option (List β) × RotatingBuffer β) :=
  match x.slots[i]? with
  | none => .error .outOfRange
  | some 0 => do
    let x ← x.store i half first data
    .ok (none, x)
  | some (index + 1) =>
    match x.pieces[index]? with
    | none => .error .outOfRange
    | some p =>
      if p.first = first then .ok (none, x)
      else do
        let x ← x.pair i half index
        .ok (some (if p.first then p.data ++ data else data ++ p.data), x)

/-- Take a piece, and return the datagram if the piece completes it. -/
def receive (data : List β) (dgid : Nat) (x : RotatingBuffer β) :
    Except Fault (Option (List β) × RotatingBuffer β) := do
  let counter := dgid >>> 2
  let advanced ← x.advance o counter
  let x := advanced.2
  if !advanced.1 then .ok (none, x)
  else
    let x := if x.slots.isEmpty then { x with slots := List.replicate o.bufsize 0 } else x
    x.receiveAt (counter &&& (o.bufsize - 1)) ((counter >>> o.blockShift) &&& 1)
      (dgid &&& 0b11 == dgidSplitFirst) data

/-- What `recv_datagram` does with the id and the rest of a datagram when splitting is enabled:
the payload for the application, if there is one now. -/
def recvDatagram (dgid : Nat) (data : List β) (x : RotatingBuffer β) :
    Except Fault (Option (List β) × RotatingBuffer β) :=
  if dgid % 4 = 0 then do
    let x ← x.observe o dgid
    .ok (some data, x)
  else x.receive o data dgid

end RotatingBuffer

end Libquic
