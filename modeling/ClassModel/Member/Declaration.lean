import ClassModel.Member.Modifiers
import ClassModel.Span

namespace ClassModel

inductive Origin
  | source
  | augmented
  | synthetic
  deriving DecidableEq, Repr

structure TypeRef where
  name : String
  dims : Nat
  deriving DecidableEq, Repr

structure Param where
  type : TypeRef
  name : String
  deriving DecidableEq, Repr

structure Field where
  name : String
  type : TypeRef
  modifiers : Modifiers
  span : Span
  origin : Origin
  deriving DecidableEq

/-- A method or, without a result type, a constructor. -/
structure Method where
  name : String
  result : Option TypeRef
  params : List Param
  modifiers : Modifiers
  throws : List TypeRef
  isConstructor : Bool
  isVarargs : Bool
  isAnnotationMethod : Bool
  defaultText : Option String
  isDeprecated : Bool
  span : Span
  origin : Origin
  deriving DecidableEq

inductive ClassKind
  | ordinary
  | interface
  | enumeration
  | annotationType
  deriving DecidableEq, Repr

def brackets (n : Nat) : String := String.join (List.replicate n "[]")

def TypeRef.text (t : TypeRef) : String := t.name ++ brackets t.dims

def Param.text (p : Param) : String := p.type.text ++ " " ++ p.name

/-- A parameter that takes any number of arguments: its last dimension is written as dots. -/
def Param.varargsText (p : Param) : String :=
  (⟨p.type.name, p.type.dims - 1⟩ : TypeRef).text ++ "... " ++ p.name

namespace Method

def paramTexts (varargs : Bool) : List Param → List String
  | [] => []
  | [p] => [if varargs then p.varargsText else p.text]
  | p :: ps => p.text :: paramTexts varargs ps

def isStatic (m : Method) : Bool := m.modifiers.has .static

def signature (m : Method) : String :=
  String.join (m.modifiers.keywords.map (· ++ " "))
    ++ (match m.result with
      | some t => t.text ++ " "
      | none => "")
    ++ m.name ++ "(" ++ ", ".intercalate (paramTexts m.isVarargs m.params) ++ ")"
    ++ (if m.throws.isEmpty then "" else " throws " ++ ", ".intercalate (m.throws.map TypeRef.text))

end Method

end ClassModel
