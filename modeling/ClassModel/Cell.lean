import ClassModel.Stamp

namespace ClassModel

structure Cell (α : Type) where
  entry : Option (Stamp × α)
  computations : Nat

namespace Cell

variable {α ε : Type}

def empty : Cell α := ⟨none, 0⟩

def current (c : Cell α) (s : Stamp) : Option α :=
  c.entry.bind fun e ↦ if e.1 = s then some e.2 else none

def store (c : Cell α) (s : Stamp) (a : α) : Cell α := ⟨some (s, a), c.computations + 1⟩

def lacks (c : Cell α) (s : Stamp) : Bool := (c.current s).isNone

/-- The value at stamp `s`, where `made` is what making it comes to if it has to be made. A value
that could not be made leaves the cell as it is. -/
def fetch (c : Cell α) (s : Stamp) (made : Except ε α) : Except ε α × Cell α :=
  match c.current s with
  | some a => (.ok a, c)
  | none =>
    match made with
    | .ok a => (.ok a, c.store s a)
    | .error e => (.error e, c)

@[simp] theorem current_empty (s : Stamp) : (empty : Cell α).current s = none := rfl

@[simp] theorem current_store (c : Cell α) (s t : Stamp) (a : α) :
    (c.store s a).current t = if s = t then some a else none := rfl

theorem current_eq_some_iff {c : Cell α} {s : Stamp} {a : α} :
    c.current s = some a ↔ c.entry = some (s, a) := by
  rcases c with ⟨_ | ⟨t, b⟩, n⟩
  · simp [current]
  · simp only [current, Option.bind_some, Option.ite_none_right_eq_some, Option.some.injEq,
      Prod.mk.injEq]

end Cell

end ClassModel
