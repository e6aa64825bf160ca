import ClassModel.Report.Basic

namespace ClassModel

structure Settings where
  /-- Whether members defined outside of the class are listed. -/
  collectAugments : Bool := true
  /-- Whether enums have the methods that they need not declare. -/
  synthesizeEnumMethods : Bool := true
  /-- How grave a member without a name is. -/
  malformedSeverity : Severity := .error
  deriving DecidableEq, Repr

end ClassModel
