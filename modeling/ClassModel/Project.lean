import ClassModel.Settings
import ClassModel.Text.Blank
import ClassModel.Toml.Document

namespace ClassModel

structure Project where
  name : String
  description : String
  members : Settings
  deriving DecidableEq, Repr

inductive ProjectError
  | unreadable
  | malformed
  | missingField (name : String)
  deriving DecidableEq, Repr

def ProjectError.message? : ProjectError → Option String
  | missingField name => some ("missing required field: " ++ name)
  | _ => none

open Toml

/-- A severity by its name, or by a table whose only entry is empty and has this name. -/
def Severity.ofToml? : Node → Option Severity
  | .string s => ofText? s
  | .table _ [(k, n)] => if n.isEmpty then ofText? k else none
  | _ => none

def readField {α : Type} (read : Node → Option α) (default : α) : Option Node → Option α
  | some n => read n
  | none => some default

def Settings.ofToml? (n : Node) : Option Settings :=
  let default : Settings := {}
  match n.record? ["collect_augments", "synthesize_enum_methods", "malformed_severity"] with
  | some [a, e, s] => do
    some ⟨← readField Node.bool? default.collectAugments a,
      ← readField Node.bool? default.synthesizeEnumMethods e,
      ← readField Severity.ofToml? default.malformedSeverity s⟩
  | _ => none

namespace Project

def heading? (n : Node) : Option (String × String) :=
  match n.record? ["name", "description"] with
  | some [some name, d] => do some (← name.string?, ← readField Node.string? "" d)
  | _ => none

def ofEntries? (es : Entries) : Option Project :=
  match es.lookup "project" with
  | none => none
  | some p => do
    let (name, description) ← heading? p
    let members ← readField Settings.ofToml? {} (es.lookup "members")
    some ⟨name, description, members⟩

/-- Reads a description. A name of nothing but blanks counts as missing. -/
def ofText (text : String) : Except ProjectError Project :=
  match document? text >>= ofEntries? with
  | none => .error .malformed
  | some p => if p.name.toList.all isBlank then .error (.missingField "project.name") else .ok p

def load (file : String) (files : List (String × ByteArray)) : Except ProjectError Project :=
  match files.lookup file >>= String.fromUTF8? with
  | none => .error .unreadable
  | some text => ofText text

end Project

end ClassModel
