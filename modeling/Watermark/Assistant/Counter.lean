/-!
# Counting the changes of the settings

Whoever may change the settings holds a handle of a counter. A handle holds no count, it reaches one: a clone of a
handle reaches the counter that the handle reaches, and a change that is counted through either is seen through both.

`Counters` is what stands behind the handles: the counts, and a table of the count that each handle reaches.
-/

namespace Watermark

/-- How often the settings have changed. -/
structure Generation where
  current : UInt64
deriving DecidableEq

namespace Generation

/-- No change yet. -/
def initial : Generation := ⟨0⟩

/-- One change more. -/
def bump (g : Generation) : Generation := ⟨g.current + 1⟩

end Generation

/-- A handle of a counter. Handles are numbered in the order in which they were made. -/
structure Handle where
  number : Nat
deriving DecidableEq

/-- Counters, and which of them each handle reaches. -/
structure Counters where
  /-- How many counters there are. -/
  size : Nat
  counts : Vector Generation size
  /-- The counter that the first handle reaches. -/
  first : Fin size
  /-- The counters that the other handles reach, in the order in which these were cloned. -/
  clones : List (Fin size)

namespace Counters

/-- A new counter and its handle. -/
def start : Counters := ⟨1, #v[.initial], 0, []⟩

variable (c : Counters)

/-- The counter that a handle reaches, if there is such a handle. -/
def reached? (h : Handle) : Option (Fin c.size) := (c.first :: c.clones)[h.number]?

/-- The count that the handles of the counter `i` show. -/
def count (i : Fin c.size) : Generation := c.counts[i]

/-- The count that the first handle shows. -/
def generation : Generation := c.count c.first

/-- The handle that is made next. -/
def nextHandle : Handle := ⟨c.clones.length + 1⟩

/-- One handle more, of the counter `i`. -/
def clone (i : Fin c.size) : Counters := { c with clones := c.clones ++ [i] }

/-- One change more on the counter `i`. -/
def bump (i : Fin c.size) : Counters := { c with counts := c.counts.set i (c.count i).bump }

end Counters

end Watermark
