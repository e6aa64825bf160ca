import ClassModel.Naming.Interner
import ClassModel.Naming.State

namespace ClassModel

/-- A workspace that has identifiers in place of names. -/
structure Session (σ : Type) where
  workspace : Workspace
  names : σ

variable {σ : Type} (I : Interner σ)

-- Reading a text in a class enters the names `met ctx text`, whatever comes of it.
variable (met : Context → String → List String)

namespace Interner

/-- Enters the names that are met in a text, and those of what has been read. -/
def read {α : Type} [Named α] (t : σ) (ctx : Context) (text : String) (a : α) : α × σ :=
  I.encode (I.internAll t (met ctx text)) a

def create (t : σ) (c : ClassRef) (text : String) : Creation Method × σ :=
  let c := rename (I.text t) c
  I.read met t c.context text (c.create text)

/-- Enters the names that are met in what a query to a cache over a class does. -/
def record (t : σ) (c : ClassRef) : List Event → σ
  | [] => t
  | .create text :: es => record (I.create met t c text).2 c es
  | _ :: es => record t c es

end Interner

def Workspace.addRead (i : Nat) (s : Workspace × Bool) (id : ClassId) :
    Except ReadError Method → Except Halt (Option Acted) × Workspace × Bool
  | .ok m => act i s (.step (.edit (.addMethod id m)))
  | .error e => (.error (.unreadable e), s)

namespace Session

def start (names : σ) : Session σ := ⟨.start, names⟩

def shown (s : Session σ) : Workspace := rename (I.text s.names) s.workspace

def moment (s : Session σ) (o : OpenCache) : ClassMoment :=
  { s.workspace.moment o with
    create := fun text ↦
      (I.create met s.names o.owner text).1.map fun m ↦ ⟨.made s.workspace.made, m⟩ }

/-- Asks a cache. Its owner's name is read back for that. -/
def ask (s : Session σ) (o : OpenCache) (q : Query) : ClassAnswer × ClassCache × List Event :=
  let c : ClassCache := { o.cache with owner := rename (I.text s.names) o.cache.owner }
  let (a, c, es) := c.ask (s.moment I met o) q
  (a, { c with owner := o.cache.owner }, es)

def request (s : Session σ) (i : Nat) : Request → Option Response × Session σ
  | .query q =>
    match s.workspace.caches[i]? with
    | none => (none, s)
    | some o =>
      let (q, t) := I.encode s.names q
      let (a, c, es) := (⟨s.workspace, t⟩ : Session σ).ask I met o q
      let w := { s.workspace with caches := s.workspace.caches.set i { o with cache := c } }
      (some (.answer a), ⟨w.record es, I.record met t o.owner es⟩)
  | r =>
    let (a, w) := s.workspace.request i r
    (a, { s with workspace := w })

def declare (i : Nat) (s : Session σ × Bool) (id : ClassId) (file : FileId) (text : String) :
    Except Halt (Option Acted) × Session σ × Bool :=
  let w := s.1.workspace
  match (w.table i).class? id with
  | none => (.error (.unknownClass ⟨id⟩), s)
  | some c =>
    let ctx := (rename (I.text s.1.names) c.ref).context
    let r := readMethod file ctx text
    let (result, t) := I.read met s.1.names ctx text r.result
    let (a, w, changed) :=
      Workspace.addRead i ({ w with log := w.log.emitAll r.reports }, s.2) id result
    (a, ⟨w, t⟩, changed)

def act (i : Nat) (s : Session σ × Bool) :
    Action → Except Halt (Option Acted) × Session σ × Bool
  | .step (.edit e) =>
    let (e, t) := I.encode s.1.names e
    let (a, w, changed) := Workspace.act i (s.1.workspace, s.2) (.step (.edit e))
    (a, ⟨w, t⟩, changed)
  | .step (.declare id file text) => declare I met i s id file text
  | .step .abort => (.error .aborted, s)
  | .request cache r =>
    let (a, s') := s.1.request I met cache r
    (.ok (a.map .response), s', s.2)
  | .count => (.ok (some (.count (s.1.workspace.table i).modifications.count)), s)

def command (s : Session σ) (i : Nat) (keepGoing : Bool) (actions : List Action) :
    Outcome (Option Acted) × Session σ :=
  let (o, s, changed) := carryOut (act I met i) keepGoing (s, false) actions
  let w := s.workspace
  let t := (⟨w.table i, w.declared, changed⟩ : Draft).commit o.aborted
  (o, { s with workspace := w.setTable i t })

def addTable (s : Session σ) : Nat × Session σ :=
  let (i, w) := s.workspace.addTable
  (i, { s with workspace := w })

def openCache (s : Session σ) (table : Nat) (id : ClassId) (resolver : Nat) (settings : Settings)
    (augments : Option (Members Field Method ClassId)) : Except UnknownClass Nat × Session σ :=
  let (augments, t) := I.encode s.names augments
  let (r, w) := s.workspace.openCache table id resolver settings augments
  (r, ⟨w, t⟩)

def augment (s : Session σ) (i : Nat) (table : Nat) (fields : Option (List Field))
    (methods : Option (List Method)) (inner : Option (List ClassId)) : Session σ :=
  let (fields, t) := I.encode s.names fields
  let (methods, t) := I.encode t methods
  ⟨s.workspace.augment i table fields methods inner, t⟩

def create (s : Session σ) (table : Nat) (id : ClassId) (text : String) :
    Except UnknownClass (Except InternalError (Handle Method)) × Session σ :=
  let w := s.workspace
  match (w.table table).require id with
  | .error e => (.error e, s)
  | .ok c =>
    let (r, t) := I.create met s.names c.ref text
    (.ok (r.result.map fun m ↦ ⟨.made w.made, m⟩),
      ⟨{ w with made := w.made + 1, log := w.log.emitAll r.reports }, t⟩)

def takeReports (s : Session σ) : List Report × Session σ :=
  let (rs, w) := s.workspace.takeReports
  (rs, { s with workspace := w })

end Session

end ClassModel
