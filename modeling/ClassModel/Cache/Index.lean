import ClassModel.Member.Member

namespace ClassModel

abbrev Index (α : Type) := List (String × α)

namespace Index

variable {α : Type}

def alter (n : String) (f : Option α → α) : Index α → Index α
  | [] => [(n, f none)]
  | (k, a) :: ix => if n = k then (k, f (some a)) :: ix else (k, a) :: alter n f ix

theorem lookup_alter (n m : String) (f : Option α → α) (ix : Index α) :
    List.lookup m (alter n f ix) =
      if m = n then some (f (List.lookup n ix)) else List.lookup m ix := by
  induction ix with
  | nil => grind [alter]
  | cons e ix ih =>
    obtain ⟨k, a⟩ := e
    grind [alter]

variable [Member α]

/-- A member takes the place of another one of its name only if that is external and it is not. -/
def prefer (a : α) : Option α → α
  | none => a
  | some b => if Member.isExternal b && !Member.isExternal a then a else b

def addPreferred (ix : Index α) (a : α) : Index α :=
  match Member.name? a with
  | some n => alter n (prefer a) ix
  | none => ix

def preferred (as : List α) : Index α := as.foldl addPreferred []

def addGrouped (ix : Index (List α)) (a : α) : Index (List α) :=
  match Member.name? a with
  | some n => alter n (fun g ↦ g.getD [] ++ [a]) ix
  | none => ix

def grouped (as : List α) : Index (List α) := as.foldl addGrouped []

end Index

end ClassModel
