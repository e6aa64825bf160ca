namespace ClassModel

/-- A number is `mantissa / 10 ^ decimals`; it is written as an integer iff `decimals` is 0. -/
inductive Json
  | null
  | bool (b : Bool)
  | number (mantissa : Int) (decimals : Nat)
  | string (s : String)
  | array (items : List Json)
  | object (entries : List (String × Json))
  deriving Repr, Inhabited

namespace Json

def ofNat (n : Nat) : Json := number n 0

def string? : Json → Option String
  | string s => some s
  | _ => none

def natBelow? (bound : Nat) : Json → Option Nat
  | number (.ofNat n) 0 => if n < bound then some n else none
  | _ => none

def array? : Json → Option (List Json)
  | array items => some items
  | _ => none

def sole? (entries : List (String × Json)) (name : String) : Option Json :=
  match entries.filter (·.1 == name) with
  | [e] => some e.2
  | _ => none

/-- The values of a record's fields: an object that has each of them once, or an array of just these
values in order. -/
def record? (names : List String) : Json → Option (List Json)
  | object entries => names.mapM (sole? entries)
  | array items => if items.length = names.length then some items else none
  | _ => none

/-- The name of an alternative without contents: a string, or an object whose only entry is
`null` under that name. -/
def tag? : Json → Option String
  | string s => some s
  | object [(s, null)] => some s
  | _ => none

theorem natBelow?_ofNat {bound n : Nat} (h : n < bound) : natBelow? bound (ofNat n) = some n :=
  if_pos h

end Json

end ClassModel
