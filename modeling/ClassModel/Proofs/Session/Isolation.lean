import ClassModel.Proofs.Session.Commands
import ClassModel.Proofs.Workspace.Isolation

namespace ClassModel

variable {σ : Type} (I : Interner σ) (met : Context → String → List String)

namespace Session

def perform (s : Session σ) : Operation → Session σ
  | .command i keepGoing actions => (s.command I met i keepGoing actions).2
  | .addTable => s.addTable.2
  | .openCache i id resolver settings augments => (s.openCache I i id resolver settings augments).2
  | .augment i j fields methods inner => s.augment I i j fields methods inner
  | .request i r => (s.request I met i r).2
  | .create i id text => (s.create I met i id text).2
  | .takeReports => s.takeReports.2

def performAll (s : Session σ) (ops : List Operation) : Session σ := ops.foldl (perform I met) s

def exchanges (s : Session σ) : Operation → List (Action × Except Halt (Option Acted))
  | .command i keepGoing actions =>
    let (o, s) := s.command I met i keepGoing actions
    actions.zip (rename (I.text s.names) o).replies
  | .request j r =>
    let (a, s) := s.request I met j r
    [(.request j r, .ok ((rename (I.text s.names) a).map .response))]
  | _ => []

def transcript (s : Session σ) : List Operation → List (Action × Except Halt (Option Acted))
  | [] => []
  | op :: ops => s.exchanges I met op ++ (s.perform I met op).transcript ops

open Interner

variable {I} (hI : I.Lawful) {s : Session σ} {w : Workspace}

theorem shows_start (t : σ) : (start t).Shows I .start := fun _ _ _ ↦ rfl

theorem computations_shown (s : Session σ) (j : Nat) :
    ((s.shown I).caches[j]?).map (·.cache.computations) =
      (s.workspace.caches[j]?).map (·.cache.computations) := by
  have hcache : (s.shown I).caches[j]? = rename (I.text s.names) s.workspace.caches[j]? :=
    s.workspace.cache_rename j
  rw [hcache]
  cases s.workspace.caches[j]? <;> rfl

include hI

theorem grows_perform (s : Session σ) (op : Operation) :
    I.Grows s.names (s.perform I met op).names := by
  cases op with
  | command i keepGoing actions => exact grows_command met hI s i keepGoing actions
  | addTable | takeReports => exact .refl _
  | openCache i id resolver settings augments => exact grows_encode hI s.names augments
  | augment i j fields methods inner =>
    exact (grows_encode hI s.names fields).trans (grows_encode hI _ methods)
  | request i r => exact grows_request met hI s i r
  | create i id text =>
    unfold perform Session.create
    dsimp only
    cases (s.workspace.table i).require id with
    | error e => exact .refl _
    | ok c => exact grows_create met hI s.names c.ref text

theorem grows_performAll (s : Session σ) (ops : List Operation) :
    I.Grows s.names (s.performAll I met ops).names := by
  induction ops generalizing s with
  | nil => exact .refl _
  | cons op ops ih => exact (grows_perform met hI s op).trans (ih _)

theorem create_shows (h : s.Shows I w) (i : Nat) (id : ClassId) (text : String) :
    (s.create I met i id text).2.Shows I (w.create i id text).2 := by
  refine .of_enough fun hx ↦ ?_
  have hs := (grows_perform met hI s (.create i id text) hx).1
  have hclass := h.natural hI (fun w : Workspace ↦ (w.table i).class? id) fun f _ w ↦ by
    rw [w.table_rename, ClassTable.class?_rename]
  unfold Session.create Workspace.create ClassTable.require
  dsimp only
  cases hc : (s.workspace.table i).class? id with
  | none =>
    rw [hc] at hclass
    rw [hclass.none hs]
    exact h
  | some c =>
    rw [hc] at hclass
    obtain ⟨c', hc', hstands⟩ := hclass.some hs
    have href : I.Stands s.names c.ref c'.ref := hstands.natural hI ClassNode.ref fun _ _ _ ↦ rfl
    rw [hc']
    exact ((h.mono (grows_create met hI s.names c.ref text)).prod
      (stands_create met hI href text)).natural hI
        (fun x : Workspace × Creation Method ↦
          { x.1 with made := x.1.made + 1, log := x.1.log.emitAll x.2.reports })
        fun _ _ _ ↦ rfl

theorem perform_shows (h : s.Shows I w) (op : Operation) :
    (s.perform I met op).Shows I (w.perform op) := by
  cases op with
  | command i keepGoing actions =>
    exact fun u hg hu ↦ congrArg Prod.snd (command_stands met hI h i keepGoing actions u hg hu)
  | addTable =>
    exact h.natural hI (fun w ↦ w.addTable.2) fun _ _ w ↦ congrArg Prod.snd w.addTable_rename
  | openCache i id resolver settings augments =>
    have hencode := grows_encode hI s.names augments
    exact ((h.mono hencode).prod (stands_encode hI s.names augments)).natural hI
      (fun x : Workspace × Option (Members Field Method ClassId) ↦
        (x.1.openCache i id resolver settings x.2).2)
      fun _ _ x ↦ congrArg Prod.snd (x.1.openCache_rename i id resolver settings x.2)
  | augment i j fields methods inner =>
    have hfields := grows_encode hI s.names fields
    have hmethods := grows_encode hI (I.encode s.names fields).2 methods
    have hlists := ((stands_encode hI s.names fields).mono hmethods).prod
      (stands_encode hI _ methods)
    exact ((h.mono (hfields.trans hmethods)).prod hlists).natural hI
      (fun x : Workspace × Option (List Field) × Option (List Method) ↦
        x.1.augment i j x.2.1 x.2.2 inner)
      fun _ _ x ↦ x.1.augment_rename i j x.2.1 x.2.2 inner
  | request i r =>
    exact fun u hg hu ↦ congrArg Prod.snd (request_stands met hI h i r u hg hu)
  | create i id text => exact create_shows met hI h i id text
  | takeReports => exact h.natural hI (fun w ↦ w.takeReports.2) fun _ _ _ ↦ rfl

theorem exchanges_eq (h : s.Shows I w) (op : Operation)
    (hx : I.exhausted (s.perform I met op).names = false) :
    s.exchanges I met op = w.exchanges op := by
  cases op with
  | command i keepGoing actions =>
    exact congrArg (fun x ↦ actions.zip x.1.replies)
      ((command_stands met hI h i keepGoing actions).rename_text hx)
  | request i r =>
    exact congrArg (fun x ↦ [(Action.request i r, Except.ok (x.1.map Acted.response))])
      ((request_stands met hI h i r).rename_text hx)
  | _ => rfl

/-- A session does what the workspace with names does. -/
theorem performAll_shows (h : s.Shows I w) (ops : List Operation)
    (hx : I.exhausted (s.performAll I met ops).names = false) :
    (s.performAll I met ops).Shows I (w.performAll ops) ∧
      s.transcript I met ops = w.transcript ops := by
  induction ops generalizing s w with
  | nil => exact ⟨h, rfl⟩
  | cons op ops ih =>
    have hnext := (grows_performAll met hI (s.perform I met op) ops hx).1
    obtain ⟨hshows, hrest⟩ := ih (perform_shows met hI h op) hx
    refine ⟨hshows, ?_⟩
    rw [transcript, Workspace.transcript, exchanges_eq met hI h op hnext, hrest]

/-- An interner is not noticed. Whatever numbers it gives, names go in and the same names come out
as from a workspace without one. -/
theorem shown_performAll (t : σ) (ops : List Operation)
    (hx : I.exhausted ((start t).performAll I met ops).names = false) :
    ((start t).performAll I met ops).shown I = Workspace.start.performAll ops :=
  (performAll_shows met hI (shows_start t) ops hx).1.rename_text hx

/-- In a session whose tables and caches share an interner, which is used as long as it has
identifiers, leaving out all that is asked of one cache, within commands too, changes no table and
neither an answer nor the work of another cache, but for the numbers of methods made from
templates. Names are compared where they differ only in their identifiers. -/
theorem caches_isolated (t : σ) (before ops : List Operation) (k : Nat)
    (hx : I.exhausted (((start t).performAll I met before).performAll I met ops).names = false)
    (hx' : I.exhausted (((start t).performAll I met before).performAll I met
      (ops.filterMap (Operation.without k))).names = false) :
    let s := (start t).performAll I met before
    let rest := ops.filterMap (Operation.without k)
    let full := s.performAll I met ops
    let less := s.performAll I met rest
    (less.shown I).tables = (full.shown I).tables ∧
    (∀ j, j ≠ k → (less.workspace.caches[j]?).map (·.cache.computations) =
      (full.workspace.caches[j]?).map (·.cache.computations)) ∧
    (s.transcript I met rest).map Workspace.unnumber =
      ((s.transcript I met ops).filter (!·.1.asks k)).map Workspace.unnumber := by
  intro s rest full less
  have hs : I.exhausted s.names = false := (grows_performAll met hI s ops hx).1
  have hshows := (performAll_shows met hI (shows_start t) before hs).1
  obtain ⟨hfull, htranscript⟩ := performAll_shows met hI hshows ops hx
  obtain ⟨hless, htranscript'⟩ := performAll_shows met hI hshows rest hx'
  obtain ⟨hagree, hexchanges⟩ :=
    (Workspace.Agree.refl k (Workspace.start.performAll before)).performAll ops
  have hfull' : full.shown I = _ := hfull.rename_text hx
  have hless' : less.shown I = _ := hless.rename_text hx'
  refine ⟨?_, fun j hj ↦ ?_, ?_⟩
  · rw [hless', hfull']
    exact hagree.tables.symm
  · have hcaches := congrArg (Option.map fun o : OpenCache ↦ o.cache.computations)
      (hagree.others j hj)
    rw [Option.map_map, Option.map_map, ← hfull', ← hless'] at hcaches
    exact (less.computations_shown j).symm.trans
      (hcaches.symm.trans (full.computations_shown j))
  · rw [htranscript, htranscript']
    exact hexchanges.symm

omit hI in
/-- Two enums share an interner that already has a name. Methods are made for both, a text that is
no method is read, and the first cache is asked within a command, too. Without what is asked of it,
the second one gets other identifiers. -/
theorem caches_isolated_of_enums :
    let I := NameTable.interner
    let met : Context → String → List String := fun _ text ↦ [text]
    let header (name : String) : ClassHeader := ⟨some name, .enumeration, none, .dummy, .source⟩
    let field (name : String) : Field := ⟨name, ⟨"int", 0⟩, .none, .dummy, .source⟩
    let before : List Operation := [.command 0 false [.step (.edit (.addClass (header "void"))),
      .step (.edit (.addClass (header "E")))], .openCache 0 0 0 {} none, .openCache 0 1 0 {} none]
    let ops : List Operation := [.request 0 (.query (.enumMethod .valueOf)),
      .request 0 (.query (.findField "y" false)), .request 1 (.query (.enumMethod .values)),
      .request 0 .drop, .command 0 true [.step (.edit (.addField 1 (field "x"))),
        .request 0 (.query (.findField "x" true)), .step (.declare 1 3 "E("), .count],
      .request 1 (.query (.findField "x" false)), .request 1 (.query (.findField "z" false))]
    let t := (NameTable.empty.enter "values").2
    let s := (start t).performAll I met before
    let rest := ops.filterMap (Operation.without 0)
    I.Lawful ∧
      I.exhausted (s.performAll I met ops).names = false ∧
      I.exhausted (s.performAll I met rest).names = false ∧
      (s.performAll I met ops).names.names ≠ (s.performAll I met rest).names.names ∧
      ((s.performAll I met rest).shown I).tables = ((s.performAll I met ops).shown I).tables ∧
      ((s.performAll I met rest).workspace.caches[1]?).map (·.cache.computations) =
        ((s.performAll I met ops).workspace.caches[1]?).map (·.cache.computations) ∧
      (s.transcript I met rest).map Workspace.unnumber =
        ((s.transcript I met ops).filter (!·.1.asks 0)).map Workspace.unnumber := by
  intro I met header field before ops t s rest
  have hI : I.Lawful := NameTable.interner_lawful
  have hx : I.exhausted (s.performAll I met ops).names = false := by decide +kernel
  have hx' : I.exhausted (s.performAll I met rest).names = false := by decide +kernel
  have hnames : (s.performAll I met ops).names.names ≠ (s.performAll I met rest).names.names := by
    decide +kernel
  clear_value before ops t
  obtain ⟨htables, hwork, hanswers⟩ := caches_isolated met hI t before ops 0 hx hx'
  exact ⟨hI, hx, hx', hnames, htables, hwork 1 (by decide), hanswers⟩

end Session

end ClassModel
