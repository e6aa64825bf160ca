import ClassModel.Proofs.Checked.Lexer
import ClassModel.Reading.Method

namespace ClassModel

namespace Checked

/-- Why a reading does not go on: something that must not happen has happened, or it has stopped
with a report, or at a token that has been reported before. -/
inductive Fall
  | breach (b : Breach)
  | stopped (report : Option Report)

structure Input where
  tokens : List Placed
  text : List Char

def checked {α : Type} (r : Except Breach α) : Except Fall α := r.mapError .breach

def count (bound n : Nat) : Except Fall Nat :=
  if n < bound then .ok n else .error (.breach .overflow)

def depthBehind (opening closing k : Token.Kind) (depth : Nat) : Except Fall Nat :=
  if k = opening then count UInt64.size (depth + 2)
  else if k = closing then .ok depth
  else .ok (depth + 1)

def complain {α : Type} (message : String) (span : Span) : Except Fall α :=
  .error (.stopped (some (.error .grammatical message span)))

namespace Input

variable (i : Input)

/-- More turns than any loop over the tokens needs. -/
def turns : Nat := i.tokens.length

def token (pos : Nat) : Except Fall Placed :=
  match i.tokens[pos]? with
  | some t => .ok t
  | none => .error (.breach .noToken)

def kindAt (pos : Nat) : Except Fall Token.Kind := return (← i.token pos).1

def spanAt (pos : Nat) : Except Fall Span := return (← i.token pos).2

def source (first last : Span) : Except Fall String :=
  return String.ofList (← checked (slice i.text first.start.toNat last.stop.toNat))

def textAt (pos : Nat) : Except Fall String := do
  let span ← i.spanAt pos
  i.source span span

def kindBehind (pos : Nat) : Token.Kind := (i.tokens[pos + 1]?.map Prod.fst).getD .eof

def spanBefore (pos : Nat) : Except Fall Span :=
  if 0 < pos then i.spanAt (pos - 1) else i.spanAt pos

def advance (pos : Nat) : Except Fall Nat := do
  if (← i.kindAt pos) = .eof then .ok pos
  else
    let _ ← i.token (pos + 1)
    .ok (pos + 1)

def eat (k : Token.Kind) (pos : Nat) : Except Fall (Bool × Nat) := do
  if (← i.kindAt pos) = k then .ok (true, ← i.advance pos) else .ok (false, pos)

def found (pos : Nat) : Except Fall String := do
  if (← i.kindAt pos) = .eof then .ok "end of input"
  else .ok ("`" ++ (← i.textAt pos) ++ "`")

def expected {α : Type} (what : String) (pos : Nat) : Except Fall α := do
  if (← i.kindAt pos) = .error then .error (.stopped none)
  else
    let found ← i.found pos
    complain ("expected " ++ what ++ ", found " ++ found) (← i.spanAt pos)

def expect (k : Token.Kind) (what : String) (pos : Nat) : Except Fall Nat := do
  match ← i.eat k pos with
  | (true, pos) => .ok pos
  | (false, pos) => i.expected what pos

def identifier (pos : Nat) : Except Fall (String × Nat) := do
  if (← i.kindAt pos) = .identifier then
    let name ← i.textAt pos
    .ok (name, ← i.advance pos)
  else i.expected Wanted.identifier.text pos

def dotted : Nat → String → Nat → Except Fall (String × Nat)
  | 0, _, _ => .error (.breach .endless)
  | turns + 1, name, pos => do
    if (← i.kindAt pos) = .dot ∧ i.kindBehind pos = .identifier then
      let pos ← i.advance pos
      let next ← i.textAt pos
      let pos ← i.advance pos
      dotted turns (name ++ "." ++ next) pos
    else .ok (name, pos)

def qualifiedName (pos : Nat) : Except Fall (String × Nat) := do
  let (name, pos) ← i.identifier pos
  i.dotted i.turns name pos

def dims : Nat → Nat → Nat → Except Fall (Nat × Nat)
  | 0, _, _ => .error (.breach .endless)
  | turns + 1, n, pos => do
    match ← i.eat .leftBracket pos with
    | (true, pos) =>
      let pos ← i.expect .rightBracket Wanted.rightBracket.text pos
      dims turns (← count UInt32.size (n + 1)) pos
    | (false, pos) => .ok (n, pos)

def typeRef (allowVoid : Bool) (pos : Nat) : Except Fall (TypeRef × Nat) := do
  if (← i.kindAt pos) = .void then
    if allowVoid then
      let pos ← i.advance pos
      if (← i.kindAt pos) = .leftBracket then
        complain "`void` cannot have array dimensions" (← i.spanAt pos)
      else .ok (⟨"void", 0⟩, pos)
    else complain "`void` is not allowed here" (← i.spanAt pos)
  else
    let (name, pos) ← i.qualifiedName pos
    if (← i.kindAt pos) = .less then
      complain "generic types are not supported" (← i.spanAt pos)
    else
      let (n, pos) ← i.dims i.turns 0 pos
      .ok (⟨name, n⟩, pos)

def closePairs (opening closing : Token.Kind) (what : String) :
    Nat → Nat → Nat → Except Fall Nat
  | 0, _, _ => .error (.breach .endless)
  | _ + 1, 0, pos => .ok pos
  | turns + 1, depth + 1, pos => do
    let k ← i.kindAt pos
    if k = .eof then i.expected what pos
    else
      let depth ← depthBehind opening closing k depth
      closePairs opening closing what turns depth (← i.advance pos)

def skipPair (opening closing : Token.Kind) (what : String) (pos : Nat) : Except Fall Nat := do
  let pos ← i.expect opening "opening delimiter" pos
  i.closePairs opening closing what (i.turns + 1) 1 pos

def arguments (pos : Nat) : Except Fall Nat := do
  if (← i.kindAt pos) = .leftParen then
    i.skipPair .leftParen .rightParen Wanted.rightParen.text pos
  else .ok pos

def annotation (pos : Nat) : Except Fall (Bool × Nat) := do
  let pos ← i.expect .atSign "`@`" pos
  let (name, pos) ← i.qualifiedName pos
  let pos ← i.arguments pos
  .ok (Grammar.marksDeprecated name, pos)

def header : Nat → Bool → Modifiers → Nat → Except Fall (Bool × Modifiers × Nat)
  | 0, _, _, _ => .error (.breach .endless)
  | turns + 1, deprecated, ms, pos => do
    match ← i.kindAt pos with
    | .atSign =>
      let (marked, pos) ← i.annotation pos
      header turns (deprecated || marked) ms pos
    | .modifier m =>
      if ms.has m then
        let text ← i.textAt pos
        complain ("repeated modifier `" ++ text ++ "`") (← i.spanAt pos)
      else header turns deprecated (ms.insert m) (← i.advance pos)
    | _ => .ok (deprecated, ms, pos)

def resultType (pos : Nat) : Except Fall (Option TypeRef × Nat) := do
  if (← i.kindAt pos) = .identifier ∧ i.kindBehind pos = .leftParen then .ok (none, pos)
  else
    let (t, pos) ← i.typeRef true pos
    .ok (some t, pos)

def annotations : Nat → Nat → Except Fall Nat
  | 0, _ => .error (.breach .endless)
  | turns + 1, pos => do
    if (← i.kindAt pos) = .atSign then
      let (_, pos) ← i.annotation pos
      annotations turns pos
    else .ok pos

def param (pos : Nat) : Except Fall ((Param × Bool) × Nat) := do
  let pos ← i.annotations i.turns pos
  let (_, pos) ← i.eat (.modifier .final) pos
  let (t, pos) ← i.typeRef false pos
  match ← i.eat .ellipsis pos with
  | (true, pos) =>
    let n ← count UInt32.size (t.dims + 1)
    let (name, pos) ← i.identifier pos
    .ok ((⟨⟨t.name, n⟩, name⟩, true), pos)
  | (false, pos) =>
    let (name, pos) ← i.identifier pos
    .ok ((⟨t, name⟩, false), pos)

def paramList : Nat → List Param → Bool → Nat → Except Fall ((List Param × Bool) × Nat)
  | 0, _, _, _ => .error (.breach .endless)
  | turns + 1, ps, varargs, pos => do
    let ((p, last), pos) ← i.param pos
    let ps := ps ++ [p]
    let varargs := varargs || last
    if (← i.kindAt pos) = .comma then
      if varargs then complain "a varargs parameter must be the last one" (← i.spanAt pos)
      else paramList turns ps varargs (← i.advance pos)
    else .ok ((ps, varargs), pos)

def params (pos : Nat) : Except Fall ((List Param × Bool) × Nat) := do
  if (← i.kindAt pos) = .rightParen then .ok (([], false), pos)
  else i.paramList i.turns [] false pos

def typeList : Nat → List TypeRef → Nat → Except Fall (List TypeRef × Nat)
  | 0, _, _ => .error (.breach .endless)
  | turns + 1, ts, pos => do
    let (t, pos) ← i.typeRef false pos
    let ts := ts ++ [t]
    match ← i.eat .comma pos with
    | (true, pos) => typeList turns ts pos
    | (false, pos) => .ok (ts, pos)

def throwsClause (pos : Nat) : Except Fall (List TypeRef × Nat) := do
  match ← i.eat .throws pos with
  | (true, pos) => i.typeList i.turns [] pos
  | (false, pos) => .ok ([], pos)

def semicolon : Nat → Nat → Nat → Except Fall Nat
  | 0, _, _ => .error (.breach .endless)
  | turns + 1, depth, pos => do
    match ← i.kindAt pos with
    | .eof => .ok pos
    | .semicolon => if depth = 0 then .ok pos else semicolon turns depth (← i.advance pos)
    | .leftParen | .leftBrace | .leftBracket =>
      let depth ← count UInt64.size (depth + 1)
      semicolon turns depth (← i.advance pos)
    | .rightParen | .rightBrace | .rightBracket => semicolon turns (depth - 1) (← i.advance pos)
    | _ => semicolon turns depth (← i.advance pos)

def defaultValue (pos : Nat) : Except Fall (String × Nat) := do
  let first ← i.spanAt pos
  let pos ← i.semicolon i.turns 0 pos
  if (← i.spanAt pos) = first then i.expected Wanted.defaultValue.text pos
  else .ok (← i.source first (← i.spanBefore pos), pos)

def defaultClause (isAnnotationMethod : Bool) (pos : Nat) :
    Except Fall (Option String × Nat) := do
  if (← i.kindAt pos) = .modifier .default then
    if isAnnotationMethod then
      let (value, pos) ← i.defaultValue (← i.advance pos)
      .ok (some value, pos)
    else
      complain "default values are only allowed in annotation types" (← i.spanAt pos)
  else .ok (none, pos)

def body (pos : Nat) : Except Fall Nat := do
  if (← i.kindAt pos) = .leftBrace then
    i.skipPair .leftBrace .rightBrace Wanted.rightBrace.text pos
  else i.expect .semicolon Wanted.bodyOrSemicolon.text pos

def declaration (ctx : Context) : Except Fall Method := do
  let first ← i.spanAt 0
  let (deprecated, modifiers, pos) ← i.header i.turns false .none 0
  let (result, pos) ← i.resultType pos
  let nameSpan ← i.spanAt pos
  let (name, pos) ← i.identifier pos
  if result.isNone ∧ ctx.className ≠ some name then
    complain "method declaration needs a return type" nameSpan
  else
    let pos ← i.expect .leftParen Wanted.leftParen.text pos
    let ((params, varargs), pos) ← i.params pos
    let pos ← i.expect .rightParen Wanted.rightParen.text pos
    let (throws, pos) ← i.throwsClause pos
    let isAnnotationMethod := ctx.kind == .annotationType && result.isSome
    let (value, pos) ← i.defaultClause isAnnotationMethod pos
    let pos ← i.body pos
    let last ← i.spanBefore pos
    if (← i.kindAt pos) = .eof then
      match first.merge last with
      | none => .error (.breach .mixedFiles)
      | some span =>
        .ok ⟨name, result, params, modifiers, throws, result.isNone, varargs, isAnnotationMethod,
          value, deprecated, span, .source⟩
    else i.expected Wanted.endOfInput.text pos

end Input

def readMethod (file : FileId) (ctx : Context) (text : String) : Except Breach Reading := do
  let (tokens, faults) ← lex file text.toList
  match (⟨tokens, text.toList⟩ : Input).declaration ctx with
  | .error (.breach b) => .error b
  | .error (.stopped report) =>
    let reports := faults ++ report.toList
    match reports.find? (·.severity == .error) with
    | some r => .ok ⟨.error (.ofReport r), reports⟩
    | none =>
      .ok ⟨.error (.grammatical "incomplete method declaration"
        (.ofNat file 0 (byteSize text.toList))), reports⟩
  | .ok m =>
    match faults.find? (·.severity == .error) with
    | some r => .ok ⟨.error (.ofReport r), faults⟩
    | none => .ok ⟨.ok m, faults⟩

end Checked

end ClassModel
