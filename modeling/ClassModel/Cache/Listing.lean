import ClassModel.Cell

namespace ClassModel

structure Listing (α ι : Type) where
  list : Cell (List α)
  index : Cell ι

namespace Listing

variable {α ι β : Type}

def empty : Listing α ι := ⟨.empty, .empty⟩

def members (l : Listing α ι) (s : Stamp) (read : List α × List β) :
    List α × Listing α ι × List β :=
  match l.list.current s with
  | some as => (as, l, [])
  | none => (read.1, { l with list := l.list.store s read.1 }, read.2)

def indexed (l : Listing α ι) (s : Stamp) (read : List α × List β)
    (make : List α → ι × List β) : ι × Listing α ι × List β :=
  match l.index.current s with
  | some ix => (ix, l, [])
  | none =>
    let (as, l', read') := l.members s read
    let (ix, made) := make as
    (ix, { l' with index := l'.index.store s ix }, read' ++ made)

def computations (l : Listing α ι) : Nat := l.list.computations + l.index.computations

end Listing

end ClassModel
