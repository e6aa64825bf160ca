import ClassModel.Member.Declaration
import ClassModel.Token.Scan

namespace ClassModel

inductive Wanted
  | identifier
  | leftParen
  | rightParen
  | rightBracket
  | rightBrace
  | bodyOrSemicolon
  | defaultValue
  | endOfInput
  deriving DecidableEq, Repr

def Wanted.text : Wanted → String
  | identifier => "identifier"
  | leftParen => "`(`"
  | rightParen => "`)`"
  | rightBracket => "`]`"
  | rightBrace => "`\x7d`"
  | bodyOrSemicolon => "`\x7b` or `;`"
  | defaultValue => "default value"
  | endOfInput => "end of input"

inductive Complaint
  | expected (wanted : Wanted)
  | repeatedModifier
  | voidMisplaced
  | voidArray
  | genericType
  | missingResult
  | misplacedDefault
  | varargsNotLast
  deriving DecidableEq, Repr

/-- The wording of a complaint about the first of the words `ws`, or about their end. -/
def Complaint.message (ws : List Word) : Complaint → String
  | expected w => s!"expected {w.text}, found {found}"
  | repeatedModifier => s!"repeated modifier {found}"
  | voidMisplaced => "`void` is not allowed here"
  | voidArray => "`void` cannot have array dimensions"
  | genericType => "generic types are not supported"
  | missingResult => "method declaration needs a return type"
  | misplacedDefault => "default values are only allowed in annotation types"
  | varargsNotLast => "a varargs parameter must be the last one"
where
  found : String :=
    match ws with
    | [] => "end of input"
    | w :: _ => s!"`{w.text}`"

inductive Stop
  /-- At a token that is faulty in itself. -/
  | faulty
  /-- At the first of the words `rest`, or at their end. -/
  | complaint (complaint : Complaint) (rest : List Word)
  deriving DecidableEq, Repr

structure Context where
  className : Option String
  kind : ClassKind
  deriving DecidableEq, Repr

/-- What the words of a declaration say. A default value is given by the numbers of words from its
start on and from behind it on. -/
structure Outline where
  name : String
  result : Option TypeRef
  params : List Param
  modifiers : Modifiers
  throws : List TypeRef
  isVarargs : Bool
  isAnnotationMethod : Bool
  default : Option (Nat × Nat)
  isDeprecated : Bool
  deriving DecidableEq

end ClassModel
