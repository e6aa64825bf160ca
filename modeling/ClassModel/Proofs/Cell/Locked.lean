import ClassModel.Cell

namespace ClassModel

variable {σ ε ε' α : Type}

inductive Lapse (ε : Type)
  | failed (e : ε)
  | aborted

def Lapse.map (f : ε → ε') : Lapse ε → Lapse ε'
  | .failed e => .failed (f e)
  | .aborted => .aborted

/-- Makes a value, and may do anything to a world meanwhile. -/
abbrev Maker (σ ε α : Type) := σ → Except (Lapse ε) α × σ

def Maker.counted (made : Except (Lapse ε) α) : Maker Nat ε α := fun n ↦ (made, n + 1)

structure LockedCell (α : Type) where
  cell : Cell α
  /-- Whether something has been broken off while the lock was held alone. -/
  poisoned : Bool

namespace LockedCell

def empty : LockedCell α := ⟨.empty, false⟩

def lock (l : LockedCell α) : Except (Cell α) (Cell α) :=
  if l.poisoned then .error l.cell else .ok l.cell

def held (l : LockedCell α) : Cell α :=
  match l.lock with
  | .ok c => c
  | .error c => c

def look (l : LockedCell α) (s : Stamp) : Option α := l.held.current s

def settle (l : LockedCell α) (s : Stamp) (make : Maker σ ε α) (w : σ) :
    Except (Lapse ε) α × LockedCell α × σ :=
  match l.held.current s with
  | some a => (.ok a, l, w)
  | none =>
    match make w with
    | (.ok a, w) => (.ok a, { l with cell := l.held.store s a }, w)
    | (.error (.failed e), w) => (.error (.failed e), l, w)
    | (.error .aborted, w) => (.error .aborted, { l with poisoned := true }, w)

/-- The value at stamp `s`. The lock is held alone only if there is none yet. -/
def fetch (l : LockedCell α) (s : Stamp) (make : Maker σ ε α) (w : σ) :
    Except (Lapse ε) α × LockedCell α × σ :=
  match l.look s with
  | some a => (.ok a, l, w)
  | none => l.settle s make w

@[simp] theorem held_eq (l : LockedCell α) : l.held = l.cell := by
  unfold held lock
  cases l.poisoned <;> rfl

/-- Whether working in place on `c` in world `w` comes to what fetching does, and runs the maker
just if there is no value. -/
structure Fetches (c : Cell α) (s : Stamp) (make : Maker σ ε α) (w : σ)
    (r : Except (Lapse ε) α × LockedCell α × σ) : Prop where
  result : r.1 = (c.fetch s (make w).1).1
  cell : r.2.1.cell = (c.fetch s (make w).1).2
  world : r.2.2 = if c.lacks s then (make w).2 else w

variable {l : LockedCell α} {s : Stamp} {a : α}

theorem fetches_of_current (h : l.cell.current s = some a) (make : Maker σ ε α) (w : σ) :
    Fetches l.cell s make w (.ok a, l, w) := by
  constructor <;> simp [Cell.fetch, Cell.lacks, h]

/-- What is done with the lock held alone fetches from the cell as it is by then, whatever it was
when it was looked at before. -/
theorem fetches_settle (l : LockedCell α) (s : Stamp) (make : Maker σ ε α) (w : σ) :
    Fetches l.cell s make w (l.settle s make w) := by
  unfold settle
  rw [held_eq]
  cases h : l.cell.current s with
  | some a => exact fetches_of_current h make w
  | none =>
    rcases hm : make w with ⟨made, w'⟩
    cases made with
    | ok a => constructor <;> simp [Cell.fetch, Cell.lacks, h, hm]
    | error e => cases e <;> constructor <;> simp [Cell.fetch, Cell.lacks, h, hm]

theorem fetches_fetch (l : LockedCell α) (s : Stamp) (make : Maker σ ε α) (w : σ) :
    Fetches l.cell s make w (l.fetch s make w) := by
  unfold fetch look
  rw [held_eq]
  cases h : l.cell.current s with
  | some a => exact fetches_of_current h make w
  | none => exact l.fetches_settle s make w

end LockedCell

end ClassModel
