namespace ClassModel

/-- Counts changes, modulo 2 ^ 64. -/
structure Counter where
  count : UInt64
  deriving DecidableEq, Repr

namespace Counter

def zero : Counter := ⟨0⟩

def increment (c : Counter) : Counter := ⟨c.count + 1⟩

end Counter

/-- The state of an outer counter, which belongs to the host, and of an inner one, which belongs
to whoever keeps derived values. -/
structure Stamp where
  outer : UInt64
  inner : UInt64
  deriving DecidableEq, Repr

def Stamp.capture (outer inner : Counter) : Stamp := ⟨outer.count, inner.count⟩

end ClassModel
