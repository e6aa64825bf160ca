import ClassModel.Member.Member

namespace ClassModel

inductive EnumMethod
  | values
  | valueOf
  deriving DecidableEq, Repr

def EnumMethod.text (enum : String) : EnumMethod → String
  | values => "public static " ++ enum ++ "[] values() \x7b \x7d"
  | valueOf => "public static " ++ enum ++ " valueOf(java.lang.String name) " ++
      "throws java.lang.IllegalArgumentException \x7b \x7d"

/-- A method made from a template. It has no text of its own and stands at the span of its class. -/
structure Synthetic (α : Type) where
  method : α
  anchor : Span

namespace Synthetic

variable {α : Type}

instance [MethodMember α] : MethodMember (Synthetic α) where
  name? s := Member.name? s.method
  isExternal _ := false
  span s := s.anchor
  isConstructor s := MethodMember.isConstructor s.method

def isPhysical (_ : Synthetic α) : Bool := false

def offset (s : Synthetic α) : UInt32 := s.anchor.start

end Synthetic

end ClassModel
