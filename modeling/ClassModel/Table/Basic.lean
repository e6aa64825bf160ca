import ClassModel.Member.Declaration
import ClassModel.Member.Member
import ClassModel.Member.Members
import ClassModel.Numbered
import ClassModel.Reading.Method
import ClassModel.Stamp

namespace ClassModel

abbrev ClassId := UInt32

/-- Tells members apart: by the number of the declaration, or by that of the method made from a
template. -/
inductive Tag
  | declared (n : Nat)
  | made (n : Nat)
  deriving DecidableEq, Repr

structure Handle (α : Type) where
  tag : Tag
  decl : α
  deriving DecidableEq

instance : Member (Handle Field) where
  name? h := some h.decl.name
  isExternal h := h.decl.origin == .augmented
  span h := h.decl.span

instance : MethodMember (Handle Method) where
  name? h := some h.decl.name
  isExternal h := h.decl.origin == .augmented
  span h := h.decl.span
  isConstructor h := h.decl.isConstructor

/-- What a class is declared with. It never changes. -/
structure ClassHeader where
  name : Option String
  kind : ClassKind
  superClass : Option ClassId
  span : Span
  origin : Origin
  deriving DecidableEq, Repr

structure ClassRef where
  tag : Tag
  id : ClassId
  header : ClassHeader
  deriving DecidableEq, Repr

instance : Member ClassRef where
  name? c := c.header.name
  isExternal c := c.header.origin == .augmented
  span c := c.header.span

def ClassRef.context (c : ClassRef) : Context := ⟨c.header.name, c.header.kind⟩

abbrev ClassBody := Members (Handle Field) (Handle Method) ClassRef

structure ClassNode where
  ref : ClassRef
  body : ClassBody

structure ClassTable where
  classes : Numbered ClassNode
  modifications : Counter

structure UnknownClass where
  id : ClassId
  deriving DecidableEq, Repr

def UnknownClass.message (e : UnknownClass) : String :=
  "unknown class ClassId(" ++ toString e.id ++ ")"

namespace ClassTable

def empty : ClassTable := ⟨.empty, .zero⟩

def class? (t : ClassTable) (id : ClassId) : Option ClassNode := t.classes.get? id

def classNamed? (t : ClassTable) (name : String) : Option ClassNode :=
  t.classes.items.find? fun c ↦ c.ref.header.name == some name

def require (t : ClassTable) (id : ClassId) : Except UnknownClass ClassNode :=
  match t.class? id with
  | some c => .ok c
  | none => .error ⟨id⟩

def requireSuper (t : ClassTable) (h : ClassHeader) : Except UnknownClass Unit :=
  match h.superClass with
  | some id => (t.require id).map fun _ ↦ ()
  | none => .ok ()

def modifyBody (t : ClassTable) (id : ClassId) (f : ClassBody → ClassBody) : ClassTable :=
  { t with classes := t.classes.modify id fun c ↦ { c with body := f c.body } }

end ClassTable

end ClassModel
