namespace ClassModel.Toml

inductive Style
  /-- By a header. -/
  | header
  /-- On the way of another table's header. -/
  | implicit
  /-- On the way of a dotted key. -/
  | dotted
  /-- In braces. -/
  | inline
  /-- On the way of a dotted key in braces. -/
  | inlineDotted
  deriving DecidableEq, Repr

def Style.isDotted : Style → Bool
  | dotted | inlineDotted => true
  | _ => false

/-- Values as far as readers need them: nobody asks for floats and times. -/
inductive Node
  | string (s : String)
  | integer (n : Int)
  | float
  | boolean (b : Bool)
  | datetime
  | array (items : List Node)
  | table (style : Style) (entries : List (String × Node))
  /-- Tables defined by repeated headers in double brackets. -/
  | tables (items : List Node)
  deriving Repr, Inhabited

namespace Node

def string? : Node → Option String
  | string s => some s
  | _ => none

def bool? : Node → Option Bool
  | boolean b => some b
  | _ => none

def isEmpty : Node → Bool
  | array items | tables items => items.isEmpty
  | table _ entries => entries.isEmpty
  | _ => false

/-- The values of a record's fields: by their keys, or by their places in an array. A time is a
record without any of the fields. -/
def record? (names : List String) : Node → Option (List (Option Node))
  | table _ entries => some (names.map fun k ↦ entries.lookup k)
  | array items | tables items => some ((List.range names.length).map fun i ↦ items[i]?)
  | datetime => some (names.map fun _ ↦ none)
  | _ => none

end Node

abbrev Entries := List (String × Node)

def Entries.add (es : Entries) (k : String) (n : Node) : Option Entries :=
  if (es.lookup k).isSome then none else some (es ++ [(k, n)])

def Entries.replace (es : Entries) (k : String) (n : Node) : Entries :=
  es.map fun e ↦ if e.1 == k then (k, n) else e

def Entries.remove (es : Entries) (k : String) : Entries :=
  es.filter fun e ↦ e.1 != k

inductive Route
  | header
  | dottedKey
  | inlineKey
  deriving DecidableEq, Repr

namespace Route

def fresh : Route → Style
  | header => .implicit
  | dottedKey => .dotted
  | inlineKey => .inlineDotted

/-- Whether a path may lead through a table. A table that is complete is closed to dotted keys, and
one in braces to everything outside of them. -/
def enters : Route → Style → Bool
  | header, .header | header, .implicit | header, .dotted => true
  | dottedKey, .implicit | dottedKey, .dotted => true
  | inlineKey, .inlineDotted => true
  | _, _ => false

end Route

/-- Changes the table at the end of a path, and gives back what the change gives. Tables that are
missing on the way are created; of repeated tables the way leads through the last. -/
def Entries.at {α : Type} (r : Route) (f : Style → Entries → Option (Entries × α)) (style : Style)
    (es : Entries) : List String → Option (Entries × α)
  | [] => f style es
  | k :: ks =>
    match es.lookup k with
    | none => do
      let (child, a) ← Entries.at r f r.fresh [] ks
      some (es ++ [(k, .table r.fresh child)], a)
    | some (.table s child) =>
      if r.enters s then do
        let (child, a) ← Entries.at r f s child ks
        some (es.replace k (.table s child), a)
      else none
    | some (.tables items) =>
      match items.getLast? with
      | some (.table s child) => do
        let (child, a) ← Entries.at r f s child ks
        some (es.replace k (.tables (items.dropLast ++ [.table s child])), a)
      | _ => none
    | some _ => none

def Entries.put (r : Route) (es : Entries) (path : List String) (k : String) (n : Node) :
    Option Entries :=
  let add (s : Style) (es : Entries) : Option (Entries × Unit) :=
    if s.isDotted == path.isEmpty then none else (es.add k n).map (·, ())
  (es.at r add .header path).map Prod.fst

end ClassModel.Toml
