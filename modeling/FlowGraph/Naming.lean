import FlowGraph.Value.Text

/-!
# Fresh names

A counter hands out `radix1`, `radix2`, … for every radix on its own.
-/

namespace FlowGraph

/-- How many names of each radix were handed out. -/
structure NameCounter where
  counts : List (String × Nat)

namespace NameCounter

def start : NameCounter :=
  ⟨[]⟩

/-- How many names of a radix were handed out. -/
def count (counter : NameCounter) (radix : String) : Nat :=
  (counter.counts.lookup radix).getD 0

/-- Hand out the next name of a radix. -/
def next (counter : NameCounter) (radix : String) : NameCounter × String :=
  let number := counter.count radix + 1
  (⟨assign radix number counter.counts⟩, radix ++ toString number)

end NameCounter

/-- The name of the derivative of a value. -/
def derivativeName (lead : String) (value : Value) : String :=
  lead ++ value.formatted

end FlowGraph
