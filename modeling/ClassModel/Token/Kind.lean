import ClassModel.Member.Modifiers

namespace ClassModel

inductive Token.Kind
  | modifier (m : Modifier)
  | void
  | throws
  | identifier
  | number
  | string
  | character
  | leftParen
  | rightParen
  | leftBrace
  | rightBrace
  | leftBracket
  | rightBracket
  | less
  | greater
  | comma
  | dot
  | ellipsis
  | semicolon
  | atSign
  | operator
  | error
  | eof
  deriving DecidableEq, Repr

namespace Token.Kind

def ofKeyword? (s : String) : Option Kind :=
  if s = "void" then some void
  else if s = "throws" then some throws
  else (Modifier.ofKeyword? s).map modifier

def ofName (s : String) : Kind := (ofKeyword? s).getD identifier

def isModifier : Kind → Bool
  | modifier _ => true
  | _ => false

def ofPunctuation? : Char → Option Kind
  | '(' => some leftParen
  | ')' => some rightParen
  | '{' => some leftBrace
  | '}' => some rightBrace
  | '[' => some leftBracket
  | ']' => some rightBracket
  | '<' => some less
  | '>' => some greater
  | ',' => some comma
  | '.' => some dot
  | ';' => some semicolon
  | '@' => some atSign
  | '+' | '-' | '*' | '/' | '%' | '=' | '!' | '&' | '|' | '^' | '~' | '?' | ':' => some operator
  | _ => none

end Token.Kind

end ClassModel
