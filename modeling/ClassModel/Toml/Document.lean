import ClassModel.Toml.Number

namespace ClassModel.Toml

def arrayRest (item : Chars → Option (Node × Chars)) : Nat → Chars → Option (List Node × Chars)
  | 0, _ => none
  | fuel + 1, cs => do
    match ← skipLines false cs with
    | ']' :: cs => some ([], cs)
    | cs =>
      let (n, cs) ← item cs
      match ← skipLines false cs with
      | ',' :: cs =>
        let (ns, cs) ← arrayRest item fuel cs
        some (n :: ns, cs)
      | ']' :: cs => some ([n], cs)
      | _ => none

def keyValue (item : Chars → Option (Node × Chars)) (cs : Chars) :
    Option (((List String × String) × Node) × Chars) := do
  let (k, cs) ← key? cs
  let (n, cs) ← item (skipSpaces (← symbol '=' cs))
  some ((k, n), cs)

def inlineRest (item : Chars → Option (Node × Chars)) :
    Nat → Entries → Chars → Option (Entries × Chars)
  | 0, _, _ => none
  | fuel + 1, es, cs => do
    let (((path, k), n), cs) ← keyValue item cs
    let es ← es.put .inlineKey path k n
    match skipSpaces cs with
    | ',' :: cs => inlineRest item fuel es cs
    | '}' :: cs => some (es, cs)
    | _ => none

/-- A value with at most `room` arrays and tables around its innermost parts. -/
def value : Nat → Chars → Option (Node × Chars)
  | room, cs =>
    match cs with
    | 't' :: 'r' :: 'u' :: 'e' :: cs => some (.boolean true, cs)
    | 'f' :: 'a' :: 'l' :: 's' :: 'e' :: cs => some (.boolean false, cs)
    | '[' :: cs =>
      match room with
      | 0 => none
      | room + 1 => do
        let (ns, cs) ← arrayRest (value room) (cs.length + 1) cs
        some (.array ns, cs)
    | '{' :: cs =>
      match room with
      | 0 => none
      | room + 1 =>
        match skipSpaces cs with
        | '}' :: cs => some (.table .inline [], cs)
        | cs => do
          let (es, cs) ← inlineRest (value room) cs.length [] cs
          some (.table .inline es, cs)
    | c :: rest =>
      if c == '"' || c == '\'' then (string? cs).map fun r ↦ (.string (String.ofList r.1), r.2)
      else number (c :: rest)
    | [] => none

/-- A document read in part: the tables that are complete, and the one that the next entries go to,
with the path of its header. -/
structure Draft where
  root : Entries
  entries : Entries
  path : List String
  repeated : Bool

namespace Draft

def start : Draft := ⟨[], [], [], false⟩

def finish (d : Draft) : Option Entries :=
  match d.path.getLast? with
  | none => some d.entries
  | some k =>
    let close (_ : Style) (es : Entries) : Option (Entries × Unit) :=
      if d.repeated then
        match es.lookup k with
        | some (.tables items) =>
          some (es.replace k (.tables (items ++ [.table .header d.entries])), ())
        | _ => none
      else (es.add k (.table .header d.entries)).map (·, ())
    (d.root.at .header close .header d.path.dropLast).map Prod.fst

/-- Begins the table of a header. A table that so far only lay on the way of other headers keeps its
entries. -/
def openTable (d : Draft) (path : List String) (k : String) : Option Draft := do
  let root ← d.finish
  let begin (_ : Style) (es : Entries) : Option (Entries × Entries) :=
    match es.lookup k with
    | none => some (es, [])
    | some (.table .implicit child) => some (es.remove k, child)
    | some _ => none
  let (root, es) ← root.at .header begin .header path
  some ⟨root, es, path ++ [k], false⟩

def openRepeated (d : Draft) (path : List String) (k : String) : Option Draft := do
  let root ← d.finish
  let begin (_ : Style) (es : Entries) : Option (Entries × Unit) :=
    match es.lookup k with
    | none => some (es ++ [(k, .tables [])], ())
    | some (.tables _) => some (es, ())
    | some _ => none
  let (root, _) ← root.at .header begin .header path
  some ⟨root, [], path ++ [k], true⟩

def put (d : Draft) (path : List String) (k : String) (n : Node) : Option Draft := do
  some { d with entries := ← d.entries.put .dottedKey path k n }

def line (d : Draft) (cs : Chars) : Option (Draft × Chars) :=
  match cs with
  | '[' :: '[' :: cs => do
    let ((path, k), cs) ← key? cs
    let cs ← lineEnd? (← symbol ']' (← symbol ']' cs))
    some (← d.openRepeated path k, cs)
  | '[' :: cs => do
    let ((path, k), cs) ← key? cs
    let cs ← lineEnd? (← symbol ']' cs)
    some (← d.openTable path k, cs)
  | cs =>
    match lineEnd? cs with
    | some cs => some (d, cs)
    | none => do
      let (((path, k), n), cs) ← keyValue (value maxDepth) cs
      let cs ← lineEnd? cs
      some (← d.put path k n, cs)

def lines : Nat → Draft → Chars → Option Entries
  | fuel, d, cs =>
    match skipSpaces cs with
    | [] => d.finish
    | cs =>
      match fuel with
      | 0 => none
      | fuel + 1 => do
        let (d, cs) ← d.line cs
        d.lines fuel cs

end Draft

def document? (text : String) : Option Entries :=
  let cs :=
    match text.toList with
    | '\ufeff' :: cs => cs
    | cs => cs
  Draft.start.lines cs.length cs

end ClassModel.Toml
