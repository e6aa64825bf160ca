import ClassModel.Proofs.Checked.Slice

namespace ClassModel

/-- What must never happen when a text is read by positions. -/
inductive Breach
  /-- A position is none of a token. -/
  | noToken
  /-- A slice of the text begins or ends in a character or behind the text. -/
  | badSlice
  /-- Spans of different files are to be covered by one. -/
  | mixedFiles
  /-- A number gets too large for its counter. -/
  | overflow
  /-- A loop goes on. -/
  | endless
  deriving DecidableEq, Repr

namespace Checked

def rest (text : List Char) (pos : Nat) : Except Breach (List Char) :=
  match fromByte? pos text with
  | some cs => .ok cs
  | none => .error .badSlice

def slice (text : List Char) (start stop : Nat) : Except Breach (List Char) :=
  match slice? text start stop with
  | some cs => .ok cs
  | none => .error .badSlice

def bump (text : List Char) (pos : Nat) : Except Breach (Option Char × Nat) := do
  match ← rest text pos with
  | [] => .ok (none, pos)
  | c :: _ => .ok (some c, pos + c.utf8Size)

def eatWhile (text : List Char) (p : Char → Bool) : Nat → Nat → Except Breach Nat
  | 0, _ => .error .endless
  | turns + 1, pos => do
    match ← rest text pos with
    | [] => .ok pos
    | c :: _ => if p c then eatWhile text p turns (← bump text pos).2 else .ok pos

def closingMark? : List Char → Option Nat
  | [] => none
  | '*' :: '/' :: _ => some 0
  | c :: cs => (closingMark? cs).map (c.utf8Size + ·)

def fault (file : FileId) (f : Fault) (start stop : Nat) : Report :=
  .error .lexical f.message (.ofNat file start stop)

def comment (file : FileId) (text : List Char) (pos : Nat) :
    Except Breach (Option (Nat × List Report)) := do
  match ← rest text pos with
  | '/' :: '/' :: _ =>
    let stop ← eatWhile text (· ≠ '\n') (text.length + 1) pos
    .ok (some (stop, []))
  | '/' :: '*' :: _ =>
    match closingMark? (← rest text (pos + 2)) with
    | some n => .ok (some (pos + 2 + n + 2, []))
    | none => .ok (some (byteSize text, [fault file .openComment pos (byteSize text)]))
  | _ => .ok none

def skipLayout (file : FileId) (text : List Char) :
    Nat → Nat → Except Breach (Nat × List Report)
  | 0, _ => .error .endless
  | turns + 1, pos => do
    let pos ← eatWhile text isBlank (text.length + 1) pos
    match ← comment file text pos with
    | none => .ok (pos, [])
    | some (pos, reports) =>
      let (pos, later) ← skipLayout file text turns pos
      .ok (pos, reports ++ later)

def eatNumber (text : List Char) : Nat → Nat → Except Breach Nat
  | 0, _ => .error .endless
  | turns + 1, pos => do
    match ← rest text pos with
    | [] => .ok pos
    | c :: cs =>
      if c.isAlphanum || c == '_' then eatNumber text turns (← bump text pos).2
      else if c == '.' && cs.head?.any Char.isDigit then eatNumber text turns (← bump text pos).2
      else .ok pos

def eatQuoted (text : List Char) (q : Char) : Nat → Nat → Except Breach (Option Fault × Nat)
  | 0, _ => .error .endless
  | turns + 1, pos => do
    match ← bump text pos with
    | (none, pos) => .ok (some (if q = '"' then .openString else .openCharacter), pos)
    | (some c, pos) =>
      if c = '\n' then .ok (some .brokenLiteral, pos)
      -- Whatever stands behind a backslash is passed over, be it a line feed.
      else if c = '\\' then eatQuoted text q turns (← bump text pos).2
      else if c = q then .ok (none, pos)
      else eatQuoted text q turns pos

abbrev Placed := Token.Kind × Span

def token (file : FileId) (start : Nat) (kind : Token.Kind) (pos : Nat) :
    Placed × Nat × List Report :=
  ((kind, .ofNat file start pos), pos, [])

def faultyToken (file : FileId) (start : Nat) (f : Fault) (pos : Nat) :
    Placed × Nat × List Report :=
  ((.error, .ofNat file start pos), pos, [fault file f start pos])

def symbolToken (file : FileId) (text : List Char) (start : Nat) (c : Char) (pos : Nat) :
    Except Breach (Placed × Nat × List Report) := do
  if c = '.' then
    match ← rest text pos with
    | '.' :: '.' :: _ => .ok (token file start .ellipsis (pos + 2))
    | _ => .ok (token file start .dot pos)
  else
    match Token.Kind.ofPunctuation? c with
    | some kind => .ok (token file start kind pos)
    | none => .ok (faultyToken file start .strayCharacter pos)

def nextToken (file : FileId) (text : List Char) (start : Nat) :
    Except Breach (Placed × Nat × List Report) := do
  let turns := text.length + 1
  match ← bump text start with
  | (none, pos) => .ok (token file start .eof pos)
  | (some c, pos) =>
    if isNameStart c then
      let pos ← eatWhile text isNameChar turns pos
      let name ← slice text start pos
      .ok (token file start (.ofName (String.ofList name)) pos)
    else if c.isDigit then
      let pos ← eatNumber text turns pos
      .ok (token file start .number pos)
    else if c = '"' ∨ c = '\'' then
      match ← eatQuoted text c turns pos with
      | (some f, pos) => .ok (faultyToken file start f pos)
      | (none, pos) => .ok (token file start (if c = '"' then .string else .character) pos)
    else symbolToken file text start c pos

def lexFrom (file : FileId) (text : List Char) :
    Nat → Nat → Except Breach (List Placed × List Report)
  | 0, _ => .error .endless
  | turns + 1, pos => do
    let (pos, skipped) ← skipLayout file text (text.length + 1) pos
    if byteSize text ≤ pos then .ok ([(.eof, .ofNat file pos pos)], skipped)
    else
      let (t, pos, reports) ← nextToken file text pos
      let (ts, later) ← lexFrom file text turns pos
      .ok (t :: ts, skipped ++ reports ++ later)

def lex (file : FileId) (text : List Char) : Except Breach (List Placed × List Report) :=
  lexFrom file text (text.length + 1) 0

end Checked

end ClassModel
