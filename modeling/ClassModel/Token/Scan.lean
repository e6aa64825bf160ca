import ClassModel.Report.Basic
import ClassModel.Token.Lexeme

namespace ClassModel

def byteSize : List Char → Nat
  | [] => 0
  | c :: cs => c.utf8Size + byteSize cs

def Span.ofNat (file : FileId) (start stop : Nat) : Span := ⟨file, .ofNat start, .ofNat stop⟩

/-- A token, with the blanks and comments in front of it. -/
structure Token where
  lead : List Char
  kind : Token.Kind
  text : List Char
  span : Span
  deriving DecidableEq, Repr

structure Word where
  kind : Token.Kind
  text : String
  deriving DecidableEq, Repr

namespace Token

def word (t : Token) : Word := ⟨t.kind, String.ofList t.text⟩

/-- The tokens among lexemes of which the first begins at byte `pos`, after the text `lead`. -/
def place (file : FileId) (pos : Nat) (lead : List Char) : List Lexeme → List Token
  | [] => []
  | l :: ls =>
    let stop := pos + byteSize l.text
    match l.kind? with
    | some k => ⟨lead, k, l.text, .ofNat file pos stop⟩ :: place file stop [] ls
    | none => place file stop (lead ++ l.text) ls

def source : List Token → List Char
  | [] => []
  | t :: ts => t.text ++ ts.flatMap fun u ↦ u.lead ++ u.text

end Token

def faultReports (file : FileId) (pos : Nat) : List Lexeme → List Report
  | [] => []
  | l :: ls =>
    let stop := pos + byteSize l.text
    match l.fault? with
    | some f => .error .lexical f.message (.ofNat file pos stop) :: faultReports file stop ls
    | none => faultReports file stop ls

/-- The tokens of a text, the empty span at its end, and reports of its faults. -/
structure Scan where
  tokens : List Token
  finish : Span
  reports : List Report
  deriving DecidableEq, Repr

namespace Scan

def ofText (file : FileId) (cs : List Char) : Scan :=
  let ls := Lexeme.ofText cs
  ⟨Token.place file 0 [] ls, .ofNat file (byteSize cs) (byteSize cs), faultReports file 0 ls⟩

def words (s : Scan) : List Word := s.tokens.map Token.word

def kinds (s : Scan) : List (Token.Kind × Span) :=
  s.tokens.map (fun t ↦ (t.kind, t.span)) ++ [(.eof, s.finish)]

/-- The span of the token with `n` tokens from it on, or of the end of the text if `n` is 0. -/
def spanBefore (s : Scan) (n : Nat) : Span :=
  match s.tokens[s.tokens.length - n]? with
  | some t => t.span
  | none => s.finish

/-- The source text of the tokens with more than `b` and at most `a` tokens from them on. -/
def between (s : Scan) (a b : Nat) : List Char :=
  Token.source ((s.tokens.drop (s.tokens.length - a)).take (a - b))

def extent (s : Scan) : Span :=
  match s.tokens.head?, s.tokens.getLast? with
  | some t, some u => t.span.cover u.span
  | _, _ => s.finish

end Scan

end ClassModel
