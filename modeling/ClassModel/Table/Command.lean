import ClassModel.Table.Basic

namespace ClassModel

inductive Edit
  | addClass (header : ClassHeader)
  | addInner (outer : ClassId) (header : ClassHeader)
  | addField (id : ClassId) (field : Field)
  | addMethod (id : ClassId) (method : Method)
  | removeField (id : ClassId) (name : String)
  | removeMethods (id : ClassId) (name : String)
  deriving DecidableEq

inductive Edited
  | addedClass (c : ClassRef)
  | addedField (f : Handle Field)
  | addedMethod (m : Handle Method)
  | removedField (f : Option (Handle Field))
  | removedMethods (ms : List (Handle Method))
  deriving DecidableEq

/-- A table in the course of a command. -/
structure Draft where
  table : ClassTable
  /-- How many tags of declarations have been given out. -/
  declared : Nat
  changed : Bool

namespace Draft

def declare (d : Draft) (table : ClassTable) : Draft := ⟨table, d.declared + 1, true⟩

def allocate (d : Draft) (h : ClassHeader) : ClassRef × Draft :=
  let c : ClassRef := ⟨.declared d.declared, d.table.classes.next, h⟩
  (c, d.declare { d.table with classes := (d.table.classes.add ⟨c, .none⟩).2 })

def modifyBody (d : Draft) (id : ClassId) (f : ClassBody → ClassBody) : Draft :=
  { d with table := d.table.modifyBody id f, changed := true }

/-- Carries out an edit. One that fails has changed nothing. -/
def apply (d : Draft) : Edit → Except UnknownClass (Edited × Draft)
  | .addClass h => do
    d.table.requireSuper h
    let (c, d) := d.allocate h
    .ok (.addedClass c, d)
  | .addInner outer h => do
    let _ ← d.table.require outer
    d.table.requireSuper h
    let (c, d) := d.allocate h
    .ok (.addedClass c, d.modifyBody outer (·.addInnerType c))
  | .addField id field => do
    let _ ← d.table.require id
    let f : Handle Field := ⟨.declared d.declared, field⟩
    .ok (.addedField f, d.declare (d.table.modifyBody id (·.addField f)))
  | .addMethod id method => do
    let _ ← d.table.require id
    let m : Handle Method := ⟨.declared d.declared, method⟩
    .ok (.addedMethod m, d.declare (d.table.modifyBody id (·.addMethod m)))
  | .removeField id name => do
    let c ← d.table.require id
    match c.body.fields.find? (·.decl.name == name) with
    | none => .ok (.removedField none, d)
    | some f => .ok (.removedField (some f), d.modifyBody id (·.removeField (·.decl.name == name)))
  | .removeMethods id name => do
    let c ← d.table.require id
    match c.body.methods.filter (·.decl.name == name) with
    | [] => .ok (.removedMethods [], d)
    | ms => .ok (.removedMethods ms, d.modifyBody id (·.removeMethods (·.decl.name == name)))

end Draft

inductive Step
  | edit (e : Edit)
  | declare (id : ClassId) (file : FileId) (text : String)
  | abort
  deriving DecidableEq

inductive Halt
  | unknownClass (e : UnknownClass)
  | unreadable (e : ReadError)
  | aborted
  deriving DecidableEq

namespace Draft

def applyQuietly (d : Draft) (e : Edit) : Except Halt Edited × Draft × List Report :=
  match d.apply e with
  | .ok (r, d) => (.ok r, d, [])
  | .error e => (.error (.unknownClass e), d, [])

/-- Carries out a step: what it gives back, the draft behind it, and the reports. -/
def act (d : Draft) : Step → Except Halt Edited × Draft × List Report
  | .edit e => d.applyQuietly e
  | .declare id file text =>
    match d.table.class? id with
    | none => (.error (.unknownClass ⟨id⟩), d, [])
    | some c =>
      let r := readMethod file c.ref.context text
      match r.result with
      | .ok m =>
        let (e, d, _) := d.applyQuietly (.addMethod id m)
        (e, d, r.reports)
      | .error e => (.error (.unreadable e), d, r.reports)
  | .abort => (.error .aborted, d, [])

def commit (d : Draft) (aborted : Bool) : ClassTable :=
  if d.changed && !aborted then { d.table with modifications := d.table.modifications.increment }
  else d.table

end Draft

structure Outcome (ρ : Type) where
  results : List (Except Halt ρ)
  failure : Option Halt

def Outcome.aborted {ρ : Type} (o : Outcome ρ) : Bool := o.failure == some .aborted

/-- Carries out steps in order, up to the first that fails. With `keepGoing` only breaking off
ends them early. -/
def carryOut {σ κ ρ : Type} (act : σ → κ → Except Halt ρ × σ) (keepGoing : Bool) :
    σ → List κ → Outcome ρ × σ
  | s, [] => (⟨[], none⟩, s)
  | s, k :: ks =>
    match act s k with
    | (.ok r, s) =>
      let (o, s) := carryOut act keepGoing s ks
      (⟨.ok r :: o.results, o.failure⟩, s)
    | (.error h, s) =>
      if keepGoing && h != .aborted then
        let (o, s) := carryOut act keepGoing s ks
        (⟨.error h :: o.results, o.failure⟩, s)
      else (⟨[], some h⟩, s)

end ClassModel
