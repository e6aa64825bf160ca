import ClassModel.Reading.Outline

namespace ClassModel

namespace Grammar

def expected (w : Wanted) : List Word → Stop
  | ⟨.error, _⟩ :: _ => .faulty
  | ws => .complaint (.expected w) ws

def startsWith (k : Token.Kind) : List Word → Bool
  | w :: _ => w.kind == k
  | [] => false

def skip (k : Token.Kind) (w : Wanted) (ws : List Word) : Except Stop (List Word) :=
  if startsWith k ws then .ok ws.tail else .error (expected w ws)

def identifier : List Word → Except Stop (String × List Word)
  | ⟨.identifier, s⟩ :: ws => .ok (s, ws)
  | ws => .error (expected .identifier ws)

def dotted : List Word → String × List Word
  | ⟨.dot, _⟩ :: ⟨.identifier, s⟩ :: ws =>
    let (t, rest) := dotted ws
    ("." ++ s ++ t, rest)
  | ws => ("", ws)

def qualifiedName (ws : List Word) : Except Stop (String × List Word) := do
  let (s, ws) ← identifier ws
  let (t, ws) := dotted ws
  .ok (s ++ t, ws)

def dims : List Word → Except Stop (Nat × List Word)
  | ⟨.leftBracket, _⟩ :: ⟨.rightBracket, _⟩ :: ws => do
    let (n, ws) ← dims ws
    .ok (n + 1, ws)
  | ⟨.leftBracket, _⟩ :: ws => .error (expected .rightBracket ws)
  | ws => .ok (0, ws)

def typeRef (ws : List Word) : Except Stop (TypeRef × List Word) :=
  if startsWith .void ws then .error (.complaint .voidMisplaced ws)
  else do
    let (s, ws) ← qualifiedName ws
    if startsWith .less ws then .error (.complaint .genericType ws)
    else
      let (n, ws) ← dims ws
      .ok (⟨s, n⟩, ws)

def typeOrVoid (ws : List Word) : Except Stop (TypeRef × List Word) :=
  if startsWith .void ws then
    if startsWith .leftBracket ws.tail then .error (.complaint .voidArray ws.tail)
    else .ok (⟨"void", 0⟩, ws.tail)
  else typeRef ws

/-- The words behind the closing word of `depth + 1` open pairs, other pairs not counted. -/
def behind (opening closing : Token.Kind) : Nat → List Word → Option (List Word)
  | _, [] => none
  | depth, w :: ws =>
    if w.kind = opening then behind opening closing (depth + 1) ws
    else if w.kind = closing then
      match depth with
      | 0 => some ws
      | depth + 1 => behind opening closing depth ws
    else behind opening closing depth ws

def skipPair (opening closing : Token.Kind) (w : Wanted) (ws : List Word) :
    Except Stop (List Word) :=
  match behind opening closing 0 ws with
  | some rest => .ok rest
  | none => .error (expected w [])

def annotationName (ws : List Word) : Except Stop (String × List Word) := do
  let (s, ws) ← qualifiedName ws
  if startsWith .leftParen ws then
    let ws ← skipPair .leftParen .rightParen .rightParen ws.tail
    .ok (s, ws)
  else .ok (s, ws)

def marksDeprecated (name : String) : Bool :=
  name == "Deprecated" || name == "java.lang.Deprecated"

theorem bind_eq_ok {ε α β : Type} {x : Except ε α} {f : α → Except ε β} {b : β} :
    x >>= f = .ok b ↔ ∃ a, x = .ok a ∧ f a = .ok b := by
  cases x <;> simp [bind, Except.bind]

theorem length_dotted_le (ws : List Word) : (dotted ws).2.length ≤ ws.length := by
  fun_induction dotted ws <;> grind

theorem identifier_shortens {ws rest : List Word} {s : String}
    (h : identifier ws = .ok (s, rest)) : rest.length < ws.length := by
  fun_cases identifier ws <;> grind [identifier]

theorem qualifiedName_shortens {ws rest : List Word} {s : String}
    (h : qualifiedName ws = .ok (s, rest)) : rest.length < ws.length := by
  obtain ⟨⟨t, ws'⟩, ht, h⟩ := bind_eq_ok.1 h
  obtain ⟨-, rfl⟩ := Prod.mk.inj (Except.ok.inj h)
  exact Nat.lt_of_le_of_lt (length_dotted_le ws') (identifier_shortens ht)

theorem length_behind_lt {opening closing : Token.Kind} {depth : Nat} {ws rest : List Word}
    (h : behind opening closing depth ws = some rest) : rest.length < ws.length := by
  fun_induction behind opening closing depth ws <;> grind

theorem skipPair_shortens {opening closing : Token.Kind} {w : Wanted} {ws rest : List Word}
    (h : skipPair opening closing w ws = .ok rest) : rest.length < ws.length := by
  grind [skipPair, → length_behind_lt]

theorem annotationName_shortens {ws rest : List Word} {s : String}
    (h : annotationName ws = .ok (s, rest)) : rest.length < ws.length := by
  obtain ⟨⟨t, ws'⟩, ht, h⟩ := bind_eq_ok.1 h
  have := qualifiedName_shortens ht
  grind [→ skipPair_shortens, bind_eq_ok]

theorem length_dims_le {ws rest : List Word} {n : Nat} (h : dims ws = .ok (n, rest)) :
    rest.length ≤ ws.length := by
  fun_induction dims ws generalizing n rest with
  | case1 _ _ ws ih =>
    obtain ⟨⟨n, rest'⟩, hd, h⟩ := bind_eq_ok.1 h
    have := ih hd
    grind
  | _ => grind

theorem typeRef_shortens {ws rest : List Word} {t : TypeRef} (h : typeRef ws = .ok (t, rest)) :
    rest.length < ws.length := by
  unfold typeRef at h
  grind [→ qualifiedName_shortens, → length_dims_le, bind_eq_ok]

/-- Annotations and modifiers, as far as they go: whether an annotation marks the declaration as
deprecated, and the modifiers added to `ms`. -/
def header (deprecated : Bool) (ms : Modifiers) (ws : List Word) :
    Except Stop (Bool × Modifiers × List Word) :=
  match ws with
  | ⟨.atSign, _⟩ :: rest =>
    match _h : annotationName rest with
    | .error e => .error e
    | .ok (s, rest') => header (deprecated || marksDeprecated s) ms rest'
  | ⟨.modifier m, _⟩ :: rest =>
    if ms.has m then .error (.complaint .repeatedModifier ws)
    else header deprecated (ms.insert m) rest
  | _ => .ok (deprecated, ms, ws)
termination_by ws.length
decreasing_by
  · have := annotationName_shortens _h
    grind
  · grind

/-- The result type, which is missing where a name stands before a parenthesis. -/
def resultType : List Word → Except Stop (Option TypeRef × List Word)
  | ⟨.identifier, s⟩ :: ⟨.leftParen, p⟩ :: ws =>
    .ok (none, ⟨.identifier, s⟩ :: ⟨.leftParen, p⟩ :: ws)
  | ws => do
    let (t, ws) ← typeOrVoid ws
    .ok (some t, ws)

def annotations (ws : List Word) : Except Stop (List Word) :=
  match ws with
  | ⟨.atSign, _⟩ :: rest =>
    match _h : annotationName rest with
    | .error e => .error e
    | .ok (_, rest') => annotations rest'
  | _ => .ok ws
termination_by ws.length
decreasing_by
  have := annotationName_shortens _h
  grind

def param (ws : List Word) : Except Stop ((Param × Bool) × List Word) := do
  let ws ← annotations ws
  let (t, ws) ← typeRef (if startsWith (.modifier .final) ws then ws.tail else ws)
  if startsWith .ellipsis ws then
    let (s, ws) ← identifier ws.tail
    .ok ((⟨⟨t.name, t.dims + 1⟩, s⟩, true), ws)
  else
    let (s, ws) ← identifier ws
    .ok ((⟨t, s⟩, false), ws)

/-- One or more items with commas between them. An item may be `final`, which forbids a comma
behind it. -/
def commaList {α : Type} (item : List Word → Except Stop (α × List Word))
    (shortens : ∀ {ws a rest}, item ws = .ok (a, rest) → rest.length < ws.length)
    (final : α → Option Complaint) (ws : List Word) : Except Stop (List α × List Word) :=
  match _h : item ws with
  | .error e => .error e
  | .ok (a, ⟨.comma, c⟩ :: rest) =>
    match final a with
    | some why => .error (.complaint why (⟨.comma, c⟩ :: rest))
    | none => do
      let (as, rest') ← commaList item shortens final rest
      .ok (a :: as, rest')
  | .ok (a, rest) => .ok ([a], rest)
termination_by ws.length
decreasing_by
  have := shortens _h
  grind

theorem length_annotations_le {ws rest : List Word} (h : annotations ws = .ok rest) :
    rest.length ≤ ws.length := by
  fun_induction annotations ws <;> grind [→ annotationName_shortens]

theorem param_shortens {ws rest : List Word} {p : Param × Bool} (h : param ws = .ok (p, rest)) :
    rest.length < ws.length := by
  unfold param at h
  obtain ⟨ws₁, h₁, h⟩ := bind_eq_ok.1 h
  obtain ⟨⟨t, ws₂⟩, h₂, h⟩ := bind_eq_ok.1 h
  have := length_annotations_le h₁
  have := typeRef_shortens h₂
  grind [→ identifier_shortens, bind_eq_ok]

def params (ws : List Word) : Except Stop ((List Param × Bool) × List Word) :=
  if startsWith .rightParen ws then .ok (([], false), ws)
  else do
    let (ps, ws) ← commaList param param_shortens
      (fun p ↦ if p.2 then some .varargsNotLast else none) ws
    .ok ((ps.map Prod.fst, ps.any Prod.snd), ws)

def throwsClause (ws : List Word) : Except Stop (List TypeRef × List Word) :=
  if startsWith .throws ws then commaList typeRef typeRef_shortens (fun _ ↦ none) ws.tail
  else .ok ([], ws)

/-- The words from the first semicolon outside of brackets on. Brackets of all three kinds are
counted alike, and closing ones that were not opened are passed over. -/
def fromSemicolon : Nat → List Word → List Word
  | _, [] => []
  | depth, w :: ws =>
    match w.kind with
    | .semicolon => if depth = 0 then w :: ws else fromSemicolon depth ws
    | .leftParen | .leftBrace | .leftBracket => fromSemicolon (depth + 1) ws
    | .rightParen | .rightBrace | .rightBracket => fromSemicolon (depth - 1) ws
    | _ => fromSemicolon depth ws

/-- A default value, if there is one, by the numbers of words from its start on and from behind it
on. -/
def defaultClause (isAnnotationMethod : Bool) (ws : List Word) :
    Except Stop (Option (Nat × Nat) × List Word) :=
  if startsWith (.modifier .default) ws then
    if isAnnotationMethod then
      let start := ws.tail
      let rest := fromSemicolon 0 start
      if rest.length = start.length then .error (expected .defaultValue start)
      else .ok (some (start.length, rest.length), rest)
    else .error (.complaint .misplacedDefault ws)
  else .ok (none, ws)

def body (ws : List Word) : Except Stop (List Word) :=
  if startsWith .leftBrace ws then skipPair .leftBrace .rightBrace .rightBrace ws.tail
  else skip .semicolon .bodyOrSemicolon ws

/-- Reads a declaration in a class. A declaration without result type is a constructor, and bears
the name of the class. -/
def outline (ctx : Context) (ws : List Word) : Except Stop Outline := do
  let (deprecated, modifiers, ws) ← header false .none ws
  let (result, start) ← resultType ws
  let (name, ws) ← identifier start
  if result.isNone ∧ ctx.className ≠ some name then .error (.complaint .missingResult start)
  else
    let ws ← skip .leftParen .leftParen ws
    let ((params, varargs), ws) ← params ws
    let ws ← skip .rightParen .rightParen ws
    let (throws, ws) ← throwsClause ws
    let inAnnotation := ctx.kind == .annotationType && result.isSome
    let (default, ws) ← defaultClause inAnnotation ws
    let ws ← body ws
    if ws.isEmpty then
      .ok ⟨name, result, params, modifiers, throws, varargs, inAnnotation, default, deprecated⟩
    else .error (expected .endOfInput ws)

end Grammar

end ClassModel
