import ClassModel.Span

namespace ClassModel

inductive Severity
  | warning
  | error
  deriving DecidableEq, Repr

namespace Severity

def rank : Severity → Nat
  | warning => 0
  | error => 1

def isError (s : Severity) : Bool := s == error

def text : Severity → String
  | warning => "warning"
  | error => "error"

def ofText? : String → Option Severity
  | "warning" => some warning
  | "error" => some error
  | _ => none

@[simp] theorem ofText?_text (s : Severity) : ofText? s.text = some s := by
  cases s <;> rfl

end Severity

inductive Category
  | error
  deriving DecidableEq, Repr

namespace Category

def letter : Category → Char
  | error => 'E'

def name : Category → String
  | error => "Error"

def ofName? : String → Option Category
  | "Error" => some error
  | _ => none

@[simp] theorem ofName?_name (c : Category) : ofName? c.name = some c := by
  cases c; rfl

end Category

/-- What a report is about, independent of its wording. -/
structure Code where
  category : Category
  number : UInt16
  deriving DecidableEq, Repr

namespace Code

def lexical : Code := ⟨.error, 100⟩

def grammatical : Code := ⟨.error, 101⟩

def unnamed : Code := ⟨.error, 301⟩

/-- The letter of the category and at least three digits. -/
def text (c : Code) : String :=
  let digits := toString c.number.toNat
  c.category.letter.toString ++ "".pushn '0' (3 - digits.length) ++ digits

end Code

structure Label where
  span : Span
  message : String
  deriving DecidableEq, Repr

structure Report where
  severity : Severity
  code : Code
  message : String
  span : Span
  labels : List Label
  notes : List String
  deriving DecidableEq, Repr

namespace Report

def error (code : Code) (message : String) (span : Span) : Report :=
  ⟨.error, code, message, span, [], []⟩

def isError (r : Report) : Bool := r.severity.isError

end Report

end ClassModel
