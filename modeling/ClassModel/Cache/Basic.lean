import ClassModel.Cache.Index
import ClassModel.Cache.Listing
import ClassModel.InternalError
import ClassModel.Member.EnumMethod
import ClassModel.Member.Members
import ClassModel.Settings

namespace ClassModel

structure Owner where
  name : Option String
  isEnum : Bool
  span : Span
  deriving DecidableEq, Repr

structure Creation (M : Type) where
  result : Except InternalError M
  reports : List Report

/-- What surrounds a cache when it is asked something. -/
structure Moment (F M I : Type) where
  /-- How often the host has changed its structure. -/
  count : UInt64
  /-- The members that the owner declares. -/
  own : Members F M I
  /-- The members that are defined for the owner outside of it. -/
  augments : Members F M I
  create : String → Creation M
  inheritedField : String → Option F
  inheritedMethods : String → List M
  inheritedInnerType : String → Option I

inductive Event
  | readOwn (kind : MemberKind)
  | readAugments (kind : MemberKind)
  | create (text : String)
  | inherit (kind : MemberKind) (name : String)
  | report (r : Report)
  deriving DecidableEq

inductive Query
  | constructors
  | fields
  | methods
  | innerTypes
  | findField (name : String) (bases : Bool)
  | findMethods (name : String) (bases : Bool)
  | findInnerType (name : String) (bases : Bool)
  | enumMethod (which : EnumMethod)
  deriving DecidableEq, Repr

inductive Answer (F M I : Type)
  | fields (fs : List F)
  | methods (ms : List M)
  | innerTypes (is : List I)
  | field (f : Option F)
  | innerType (i : Option I)
  | enumMethod (r : Except InternalError (Option (Synthetic M)))

structure Cache (F M I : Type) where
  owner : Owner
  settings : Settings
  drops : Counter
  constructors : Cell (List M)
  fields : Listing F (Index F)
  methods : Listing M (Index (List M))
  innerTypes : Listing I (Index I)
  values : Cell (Synthetic M)
  valueOf : Cell (Synthetic M)

namespace Cache

variable {F M I α ι : Type}

def new (owner : Owner) (settings : Settings) : Cache F M I :=
  ⟨owner, settings, .zero, .empty, .empty, .empty, .empty, .empty, .empty⟩

def stamp (c : Cache F M I) (m : Moment F M I) : Stamp := ⟨m.count, c.drops.count⟩

def drop (c : Cache F M I) : Cache F M I := { c with drops := c.drops.increment }

def computations (c : Cache F M I) : Nat :=
  c.constructors.computations + c.fields.computations + c.methods.computations +
    c.innerTypes.computations + c.values.computations + c.valueOf.computations

def collect (c : Cache F M I) (kind : MemberKind) (own augments : List α) : List α × List Event :=
  if c.settings.collectAugments then (own ++ augments, [.readOwn kind, .readAugments kind])
  else (own, [.readOwn kind])

def unnamedReports [Member α] (c : Cache F M I) (kind : MemberKind) (as : List α) : List Event :=
  (as.filter fun a ↦ (Member.name? a).isNone).map fun a ↦
    .report (.unnamedMember kind (c.owner.name.getD "<anonymous>") (Member.span a) c.owner.span
      c.settings.malformedSeverity)

section

variable [Member F] [MethodMember M] [Member I]

def readFields (c : Cache F M I) (m : Moment F M I) : List F × List Event :=
  c.collect .field m.own.fields m.augments.fields

def readMethods (c : Cache F M I) (m : Moment F M I) : List M × List Event :=
  c.collect .method m.own.methods m.augments.methods

def readInnerTypes (c : Cache F M I) (m : Moment F M I) : List I × List Event :=
  c.collect .innerType m.own.innerTypes m.augments.innerTypes

def listFields (c : Cache F M I) (m : Moment F M I) : List F × Cache F M I × List Event :=
  let (fs, l, es) := c.fields.members (c.stamp m) (c.readFields m)
  (fs, { c with fields := l }, es)

def listMethods (c : Cache F M I) (m : Moment F M I) : List M × Cache F M I × List Event :=
  let (ms, l, es) := c.methods.members (c.stamp m) (c.readMethods m)
  (ms, { c with methods := l }, es)

def listInnerTypes (c : Cache F M I) (m : Moment F M I) : List I × Cache F M I × List Event :=
  let (is, l, es) := c.innerTypes.members (c.stamp m) (c.readInnerTypes m)
  (is, { c with innerTypes := l }, es)

def listConstructors (c : Cache F M I) (m : Moment F M I) : List M × Cache F M I × List Event :=
  match c.constructors.current (c.stamp m) with
  | some ms => (ms, c, [])
  | none =>
    let (ms, c', es) := c.listMethods m
    let cs := ms.filter MethodMember.isConstructor
    (cs, { c' with constructors := c'.constructors.store (c.stamp m) cs }, es)

def fieldIndex (c : Cache F M I) (m : Moment F M I) : Index F × Cache F M I × List Event :=
  let (ix, l, es) := c.fields.indexed (c.stamp m) (c.readFields m)
    fun fs ↦ (.preferred fs, c.unnamedReports .field fs)
  (ix, { c with fields := l }, es)

def methodIndex (c : Cache F M I) (m : Moment F M I) :
    Index (List M) × Cache F M I × List Event :=
  let (ix, l, es) := c.methods.indexed (c.stamp m) (c.readMethods m)
    fun ms ↦ (.grouped ms, c.unnamedReports .method ms)
  (ix, { c with methods := l }, es)

def innerTypeIndex (c : Cache F M I) (m : Moment F M I) : Index I × Cache F M I × List Event :=
  let (ix, l, es) := c.innerTypes.indexed (c.stamp m) (c.readInnerTypes m)
    fun is ↦ (.preferred is, c.unnamedReports .innerType is)
  (ix, { c with innerTypes := l }, es)

def enumName? (c : Cache F M I) : Option String :=
  if c.settings.synthesizeEnumMethods && c.owner.isEnum then c.owner.name else none

def enumCell (c : Cache F M I) : EnumMethod → Cell (Synthetic M)
  | .values => c.values
  | .valueOf => c.valueOf

def setEnumCell (c : Cache F M I) (cell : Cell (Synthetic M)) : EnumMethod → Cache F M I
  | .values => { c with values := cell }
  | .valueOf => { c with valueOf := cell }

/-- A method that enums need not declare. It is made anew until making it has succeeded. -/
def enumMethod (c : Cache F M I) (m : Moment F M I) (which : EnumMethod) :
    Except InternalError (Option (Synthetic M)) × Cache F M I × List Event :=
  match c.enumName? with
  | none => (.ok none, c, [])
  | some name =>
    let cell := c.enumCell which
    let text := which.text name
    let made := m.create text
    let (r, cell') := cell.fetch (c.stamp m) (made.result.map fun a ↦ ⟨a, c.owner.span⟩)
    (r.map some, c.setEnumCell cell' which,
      if cell.lacks (c.stamp m) then .create text :: made.reports.map .report else [])

/-- Answers a query. Lookups that include the classes above the owner keep nothing. -/
def ask (c : Cache F M I) (m : Moment F M I) : Query → Answer F M I × Cache F M I × List Event
  | .constructors => (c.listConstructors m).map .methods id
  | .fields => (c.listFields m).map .fields id
  | .methods => (c.listMethods m).map .methods id
  | .innerTypes => (c.listInnerTypes m).map .innerTypes id
  | .findField n true => (.field (m.inheritedField n), c, [.inherit .field n])
  | .findField n false => (c.fieldIndex m).map (fun ix ↦ .field (ix.lookup n)) id
  | .findMethods n true => (.methods (m.inheritedMethods n), c, [.inherit .method n])
  | .findMethods n false => (c.methodIndex m).map (fun ix ↦ .methods ((ix.lookup n).getD [])) id
  | .findInnerType n true => (.innerType (m.inheritedInnerType n), c, [.inherit .innerType n])
  | .findInnerType n false => (c.innerTypeIndex m).map (fun ix ↦ .innerType (ix.lookup n)) id
  | .enumMethod which => (c.enumMethod m which).map .enumMethod id

end

end Cache

end ClassModel
