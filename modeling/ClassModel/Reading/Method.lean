import ClassModel.Reading.Grammar
import ClassModel.Report.Log

namespace ClassModel

/-- Why a text is no method declaration: because of a faulty token, or else of how the tokens
follow each other. -/
inductive ReadError
  | lexical (message : String) (span : Span)
  | grammatical (message : String) (span : Span)
  deriving DecidableEq, Repr

namespace ReadError

def span : ReadError → Span
  | lexical _ s | grammatical _ s => s

def message : ReadError → String
  | lexical m _ => "invalid token in method declaration: " ++ m
  | grammatical m _ => "malformed method declaration: " ++ m

def ofReport (r : Report) : ReadError :=
  if r.code = .lexical then lexical r.message r.span else grammatical r.message r.span

end ReadError

structure Reading where
  result : Except ReadError Method
  reports : List Report

namespace Scan

/-- The report of what stopped the reading, unless that has been reported with the tokens. -/
def stopReports (s : Scan) : Stop → List Report
  | .faulty => []
  | .complaint c rest => [.error .grammatical (c.message rest) (s.spanBefore rest.length)]

def method (s : Scan) (o : Outline) : Method where
  name := o.name
  result := o.result
  params := o.params
  modifiers := o.modifiers
  throws := o.throws
  isConstructor := o.result.isNone
  isVarargs := o.isVarargs
  isAnnotationMethod := o.isAnnotationMethod
  defaultText := o.default.map fun p ↦ String.ofList (s.between p.1 p.2)
  isDeprecated := o.isDeprecated
  span := s.extent
  origin := .source

/-- Reads the declaration. Any report makes it fail, and the first one says why. -/
def read (s : Scan) (ctx : Context) : Reading :=
  match Grammar.outline ctx s.words with
  | .ok o =>
    match s.reports with
    | [] => ⟨.ok (s.method o), []⟩
    | r :: rs => ⟨.error (.ofReport r), r :: rs⟩
  | .error stop =>
    match s.reports ++ s.stopReports stop with
    | [] =>
      ⟨.error (.grammatical "incomplete method declaration" ⟨s.finish.file, 0, s.finish.stop⟩), []⟩
    | r :: rs => ⟨.error (.ofReport r), r :: rs⟩

end Scan

def readMethod (file : FileId) (ctx : Context) (text : String) : Reading :=
  (Scan.ofText file text.toList).read ctx

def readMethodLogged (file : FileId) (ctx : Context) (text : String) (log : Log) :
    Except ReadError Method × Log :=
  let r := readMethod file ctx text
  (r.result, log.emitAll r.reports)

end ClassModel
