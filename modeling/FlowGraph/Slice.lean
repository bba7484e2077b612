/-!
# Slices

The positions that a slice selects from a sequence.  Negative bounds count from
the end, bounds outside the sequence are moved to its ends, and a negative step
walks backwards.
-/

namespace FlowGraph

/-- The bounds of a slice; a missing bound stands for the end of the sequence
where the walk starts or stops. -/
structure Slice where
  start : Option Int
  stop : Option Int
  step : Int

namespace Slice

/-- A bound moved into the range from `lowest` to `highest`. -/
def clamp (lowest highest bound : Int) : Int :=
  max lowest (min highest bound)

/-- A bound counted from the start of a sequence. -/
def settle (length lowest highest bound : Int) : Int :=
  clamp lowest highest (if bound < 0 then bound + length else bound)

/-- The first position and the position that is not reached any more. -/
def bounds (slice : Slice) (length : Nat) : Int × Int :=
  if 0 < slice.step then
    (((slice.start.map (settle length 0 length)).getD 0),
      ((slice.stop.map (settle length 0 length)).getD length))
  else
    (((slice.start.map (settle length (-1) (length - 1))).getD (length - 1)),
      ((slice.stop.map (settle length (-1) (length - 1))).getD (-1)))

/-- The number of steps from one bound to the other. -/
def count (slice : Slice) (length : Nat) : Nat :=
  let (start, stop) := slice.bounds length
  if 0 < slice.step then
    ((stop - start + slice.step - 1) / slice.step).toNat
  else
    ((start - stop - slice.step - 1) / (-slice.step)).toNat

/-- The position after a number of steps. -/
def position (slice : Slice) (length index : Nat) : Nat :=
  ((slice.bounds length).1 + (index : Int) * slice.step).toNat

/-- The selected positions in the order of the walk. -/
def positions (slice : Slice) (length : Nat) : List Nat :=
  (List.range (slice.count length)).map (slice.position length)

/-- The selected items of a list. -/
def select {α : Type} (slice : Slice) (items : List α) : List α :=
  (slice.positions items.length).filterMap fun position => items[position]?

end Slice

/-- The item at a position that counts from the end when it is negative. -/
def itemAt? {α : Type} (items : List α) (position : Int) : Option α :=
  let settled := if position < 0 then position + items.length else position
  if settled < 0 then none else items[settled.toNat]?

end FlowGraph
