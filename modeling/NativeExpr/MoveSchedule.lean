import NativeExpr.Transfer

/-!
# Parallel moves

The arguments of a call all have to be in their places at once, while the place of
one may be where another still is. A schedule is an order of single moves that has
the effect of moving all values together: a move waits as long as its target is
still read, and when every move waits the first target is copied into the scratch
register of its bank and read from there.

Values for the outgoing area go first, then those for XMM registers, then those for
general-purpose registers.
-/

namespace NativeExpr

/-- One value on its way to its place. -/
structure Move where
  target : Place
  source : Location
deriving DecidableEq

/-- One value on its way into a register. -/
structure RegisterMove where
  target : Register
  source : Location
deriving DecidableEq

namespace RegisterMove

/-- Whether a move leaves its value where it is. -/
def isIdle (move : RegisterMove) : Bool := move.source == .register move.target

/-- Whether no pending move reads the target of a move. -/
def isReady (move : RegisterMove) (pending : List RegisterMove) : Bool :=
  pending.all fun other => other.source != .register move.target

/-- Reads a value from another register than the one it was in. -/
def redirect (old new : Register) (move : RegisterMove) : RegisterMove :=
  if move.source = .register old then { move with source := .register new } else move

/-- The requests of a move. -/
def requests (move : RegisterMove) : List Request :=
  Transfer.intoRegister move.target move.source

end RegisterMove

/-- An order of single steps. -/
structure MoveSchedule where
  requests : List Request
  /-- Whether the steps carry out all moves. They do not when a value would have to
  wait in the scratch register for a move into that register itself. -/
  settled : Bool
deriving DecidableEq

namespace MoveSchedule

/-- Some steps before a schedule. -/
def after (first : List Request) (schedule : MoveSchedule) : MoveSchedule :=
  { schedule with requests := first ++ schedule.requests }

/-- One schedule followed by another, which is not begun if the first does not settle. -/
def andThen (first second : MoveSchedule) : MoveSchedule :=
  if first.settled then second.after first.requests else first

/-- One round of resolution: the steps to take and the moves that are left. The first
move that is ready is carried out; if there is none, the target of the first move is
copied into the scratch register, and what was to be read there is read from the copy. -/
def round (scratch : Register) (pending : List RegisterMove) :
    List Request × List RegisterMove :=
  let waits (move : RegisterMove) : Bool := !move.isReady pending
  match pending.dropWhile waits, pending with
  | ready :: later, _ => (ready.requests, pending.takeWhile waits ++ later)
  | [], blocked :: _ =>
    ([.move scratch blocked.target], pending.map (RegisterMove.redirect blocked.target scratch))
  | [], [] => ([], [])

/-- The schedule of a number of rounds. -/
def resolveWithin (scratch : Register) : Nat → List RegisterMove → MoveSchedule
  | 0, pending => ⟨[], pending.isEmpty⟩
  | rounds + 1, pending =>
    let (requests, left) := round scratch pending
    (resolveWithin scratch rounds left).after requests

/-- The schedule of moves into the registers of one bank. A round that copies a target
makes the first move ready, so two rounds for each move are enough. -/
def resolve (scratch : Register) (moves : List RegisterMove) : MoveSchedule :=
  let pending := moves.filter fun move => !move.isIdle
  resolveWithin scratch (2 * pending.length) pending

/-- The moves into the registers of a bank. -/
def movesInto (bank : Bank) (moves : List Move) : List RegisterMove :=
  moves.filterMap fun move =>
    match move.target with
    | .register register => if register.bank = bank then some ⟨register, move.source⟩ else none
    | .stack _ => none

/-- The steps that store values in the outgoing area. -/
def outgoing (moves : List Move) : List Request :=
  moves.flatMap fun move =>
    match move.target with
    | .register _ => []
    | .stack offset => Transfer.intoOutgoing offset move.source

/-- The schedule of a list of moves. -/
def ofMoves (moves : List Move) : MoveSchedule :=
  ((resolve (Convention.scratch .xmm) (movesInto .xmm moves)).andThen
    (resolve (Convention.scratch .generalPurpose) (movesInto .generalPurpose moves))).after
      (outgoing moves)

end MoveSchedule

end NativeExpr
