import ClassModel.Cache.Basic
import ClassModel.Report.Log
import ClassModel.Table.Command
import ClassModel.Table.Hierarchy

namespace ClassModel

abbrev ClassCache := Cache (Handle Field) (Handle Method) ClassRef

abbrev ClassMoment := Moment (Handle Field) (Handle Method) ClassRef

abbrev ClassAnswer := Answer (Handle Field) (Handle Method) ClassRef

namespace ClassRef

def owner (c : ClassRef) : Owner := ⟨c.header.name, c.header.kind == .enumeration, c.header.span⟩

def create (c : ClassRef) (text : String) : Creation Method :=
  let r := readMethod c.header.span.file c.context text
  ⟨match r.result with
    | .ok m => .ok { m with origin := .synthetic, span := c.header.span }
    | .error e => .error ⟨"cannot create method from `" ++ text ++ "`: " ++ e.message⟩, r.reports⟩

end ClassRef

def Creation.map {M N : Type} (f : M → N) (c : Creation M) : Creation N :=
  ⟨c.result.map f, c.reports⟩

/-- A cache over a class of a table. It looks above the class in the table `resolver`, and may be
told members `augments` that are defined outside of the class. -/
structure OpenCache where
  table : Nat
  resolver : Nat
  owner : ClassRef
  augments : Option ClassBody
  cache : ClassCache

inductive Request
  | query (q : Query)
  | drop
  | owner
  deriving DecidableEq

inductive Response
  | answer (a : ClassAnswer)
  | dropped
  | owner (name : Option String)

inductive Action
  | step (k : Step)
  | request (cache : Nat) (r : Request)
  | count

inductive Acted
  | edited (e : Edited)
  | response (r : Response)
  | count (n : UInt64)

structure Workspace where
  tables : List ClassTable
  caches : List OpenCache
  log : Log
  /-- How many tags of declarations have been given out. -/
  declared : Nat
  /-- How many tags of methods made from templates have been given out. -/
  made : Nat

namespace Workspace

def start : Workspace := ⟨[.empty], [], .empty, 0, 0⟩

def table (w : Workspace) (i : Nat) : ClassTable := (w.tables[i]?).getD .empty

def setTable (w : Workspace) (i : Nat) (t : ClassTable) : Workspace :=
  { w with tables := w.tables.set i t }

def addTable (w : Workspace) : Nat × Workspace :=
  (w.tables.length, { w with tables := w.tables ++ [.empty] })

def ownerNode (w : Workspace) (o : OpenCache) : ClassNode :=
  ((w.table o.table).class? o.owner.id).getD ⟨o.owner, .none⟩

def moment (w : Workspace) (o : OpenCache) : ClassMoment :=
  let owner := w.ownerNode o
  let resolver := w.table o.resolver
  { count := (w.table o.table).modifications.count
    own := owner.body
    augments := o.augments.getD .none
    create := fun text ↦ (o.owner.create text).map fun m ↦ ⟨.made w.made, m⟩
    inheritedField := resolver.inheritedField owner
    inheritedMethods := resolver.inheritedMethods owner
    inheritedInnerType := resolver.inheritedInnerType owner }

/-- Records what happened besides the answer to a query. -/
def record (w : Workspace) : List Event → Workspace
  | [] => w
  | .report r :: es => { w with log := w.log.emit r }.record es
  | .create _ :: es => { w with made := w.made + 1 }.record es
  | _ :: es => w.record es

def request (w : Workspace) (i : Nat) (r : Request) : Option Response × Workspace :=
  match w.caches[i]? with
  | none => (none, w)
  | some o =>
    match r with
    | .query q =>
      let (a, c, es) := o.cache.ask (w.moment o) q
      (some (.answer a), { w with caches := w.caches.set i { o with cache := c } }.record es)
    | .drop => (some .dropped, { w with caches := w.caches.set i { o with cache := o.cache.drop } })
    | .owner => (some (.owner o.owner.header.name), w)

/-- Carries out an action of a command on table `i`. The flag says whether the command has changed
anything so far. -/
def act (i : Nat) (s : Workspace × Bool) : Action → Except Halt (Option Acted) × Workspace × Bool
  | .step k =>
    let (r, d, rs) := (⟨s.1.table i, s.1.declared, s.2⟩ : Draft).act k
    (r.map fun e ↦ some (.edited e),
      { s.1.setTable i d.table with declared := d.declared, log := s.1.log.emitAll rs }, d.changed)
  | .request cache r =>
    let (a, w) := s.1.request cache r
    (.ok (a.map .response), w, s.2)
  | .count => (.ok (some (.count (s.1.table i).modifications.count)), s)

def command (w : Workspace) (i : Nat) (keepGoing : Bool) (actions : List Action) :
    Outcome (Option Acted) × Workspace :=
  let (o, w, changed) := carryOut (act i) keepGoing (w, false) actions
  (o, w.setTable i ((⟨w.table i, w.declared, changed⟩ : Draft).commit o.aborted))

def handles {α : Type} (w : Workspace) (as : List α) : List (Handle α) × Workspace :=
  (as.mapIdx fun i a ↦ ⟨.declared (w.declared + i), a⟩,
    { w with declared := w.declared + as.length })

def classRefs (w : Workspace) (table : Nat) (ids : List ClassId) : List ClassRef :=
  ids.filterMap fun id ↦ ((w.table table).class? id).map ClassNode.ref

/-- Makes a cache over a class. It is told members from outside only if `augments` is given, which
names inner types by their classes. -/
def openCache (w : Workspace) (table : Nat) (id : ClassId) (resolver : Nat) (settings : Settings)
    (augments : Option (Members Field Method ClassId)) : Except UnknownClass Nat × Workspace :=
  match (w.table table).require id with
  | .error e => (.error e, w)
  | .ok c =>
    let given := augments.getD .none
    let (fs, w) := w.handles given.fields
    let (ms, w) := w.handles given.methods
    let body : ClassBody := ⟨fs, ms, w.classRefs table given.innerTypes⟩
    (.ok w.caches.length,
      { w with caches := w.caches ++
          [⟨table, resolver, c.ref, augments.map fun _ ↦ body, .new c.ref.owner settings⟩] })

def augment (w : Workspace) (i : Nat) (table : Nat) (fields : Option (List Field))
    (methods : Option (List Method)) (inner : Option (List ClassId)) : Workspace :=
  match w.caches[i]? with
  | none => w
  | some o =>
    let (fs, w) := w.handles (fields.getD [])
    let (ms, w) := w.handles (methods.getD [])
    let replace (b : ClassBody) : ClassBody :=
      ⟨(fields.map fun _ ↦ fs).getD b.fields, (methods.map fun _ ↦ ms).getD b.methods,
        (inner.map (w.classRefs table)).getD b.innerTypes⟩
    { w with caches := w.caches.set i { o with augments := o.augments.map replace } }

def create (w : Workspace) (table : Nat) (id : ClassId) (text : String) :
    Except UnknownClass (Except InternalError (Handle Method)) × Workspace :=
  match (w.table table).require id with
  | .error e => (.error e, w)
  | .ok c =>
    let r := c.ref.create text
    (.ok (r.result.map fun m ↦ ⟨.made w.made, m⟩),
      { w with made := w.made + 1, log := w.log.emitAll r.reports })

def takeReports (w : Workspace) : List Report × Workspace :=
  (w.log.take.1, { w with log := w.log.take.2 })

end Workspace

end ClassModel
