import ClassModel.Report.Basic

namespace ClassModel

/-- A member may lack a name; it may be defined outside of its class. -/
class Member (α : Type) where
  name? : α → Option String
  isExternal : α → Bool
  span : α → Span

class MethodMember (α : Type) extends Member α where
  isConstructor : α → Bool

inductive MemberKind
  | constructor
  | field
  | method
  | innerType
  deriving DecidableEq, Repr

def MemberKind.text : MemberKind → String
  | constructor => "constructor"
  | field => "field"
  | method => "method"
  | innerType => "inner type"

/-- Reports a member that cannot be looked up because it has no name. -/
def Report.unnamedMember (kind : MemberKind) (owner : String) (member ownerSpan : Span)
    (severity : Severity) : Report :=
  ⟨severity, .unnamed, kind.text ++ " of `" ++ owner ++ "` has no name", member,
    [⟨ownerSpan, "declared in this class"⟩], ["the member is left out of name lookups"]⟩

theorem Report.unnamedMember_about (kind : MemberKind) (owner : String) (member ownerSpan : Span)
    (severity : Severity) :
    let r := unnamedMember kind owner member ownerSpan severity
    r.code.text = "E301" ∧ r.severity = severity ∧ r.span = member ∧
      r.labels.map Label.span = [ownerSpan] :=
  ⟨show Code.unnamed.text = "E301" by decide, rfl, rfl, rfl⟩

end ClassModel
