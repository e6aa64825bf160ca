import ClassModel.Proofs.Session.Answers
import ClassModel.Proofs.Workspace.Failure

namespace ClassModel

variable {σ : Type} {I : Interner σ} (met : Context → String → List String) {t : σ}

theorem Workspace.act_abort (i : Nat) (w : Workspace) (changed : Bool) :
    act i (w, changed) (.step .abort) = (.error .aborted, w, changed) := by
  have habort : Step.abort.failure? (w.table i) = some .aborted := rfl
  exact act_failure habort

theorem Draft.reports_applyQuietly (d : Draft) (e : Edit) : (d.applyQuietly e).2.2 = [] := by
  unfold applyQuietly
  cases d.apply e <;> rfl

theorem Workspace.act_declare (i : Nat) (w : Workspace) (changed : Bool) (id : ClassId)
    (file : FileId) (text : String) :
    act i (w, changed) (.step (.declare id file text)) =
      match (w.table i).class? id with
      | none => (.error (.unknownClass ⟨id⟩), w, changed)
      | some c =>
        let r := readMethod file c.ref.context text
        addRead i ({ w with log := w.log.emitAll r.reports }, changed) id r.result := by
  let d : Draft := ⟨w.table i, w.declared, changed⟩
  cases hc : (w.table i).class? id with
  | none =>
    have hfail : Step.failure? (w.table i) (.declare id file text) = some (.unknownClass ⟨id⟩) := by
      rw [Step.failure?, hc]
    rw [act_failure hfail, Step.reports, hc]
    rfl
  | some c =>
    cases hr : (readMethod file c.ref.context text).result with
    | ok m =>
      let r := readMethod file c.ref.context text
      let quiet := d.applyQuietly (.addMethod id m)
      let w' : Workspace := { w with log := w.log.emitAll r.reports }
      have hread : d.act (.declare id file text) = (quiet.1, quiet.2.1, r.reports) :=
        Draft.act_declare_of_ok hc hr
      have hadd : d.act (.edit (.addMethod id m)) = (quiet.1, quiet.2.1, []) :=
        Prod.ext rfl (Prod.ext rfl (d.reports_applyQuietly _))
      dsimp only
      rw [hr, addRead]
      exact (w.act_step i changed _ hread).trans (w'.act_step i changed _ hadd).symm
    | error e =>
      have hfail : Step.failure? (w.table i) (.declare id file text) = some (.unreadable e) := by
        simp only [Step.failure?, hc, hr]
      dsimp only
      rw [act_failure hfail, Step.reports, hc, hr]
      rfl

theorem Workspace.addRead_rename {f : String → String} (hf : f.Injective) (i : Nat)
    (w : Workspace) (changed : Bool) (id : ClassId) (r : Except ReadError Method) :
    addRead i (rename f w, changed) id (rename f r) =
      rename f (addRead i (w, changed) id r) := by
  cases r with
  | ok m => exact w.act_edit_rename hf i changed (.addMethod id m)
  | error e => rfl

theorem Outcome.rename_eq {α : Type} [Renames α] {f g : String → String} {o o' : Outcome α}
    (hresults : o.results.map (Except.map (rename f)) = o'.results.map (Except.map (rename g)))
    (hfailure : o.failure = o'.failure) : rename f o = rename g o' := by
  obtain ⟨results, failure⟩ := o
  obtain ⟨results', failure'⟩ := o'
  obtain rfl : failure = failure' := hfailure
  exact congrArg (Outcome.mk · failure) hresults

def Workspace.commitTable (w : Workspace) (i : Nat) (changed aborted : Bool) : Workspace :=
  w.setTable i ((⟨w.table i, w.declared, changed⟩ : Draft).commit aborted)

theorem Workspace.commitTable_rename {f : String → String} (w : Workspace) (i : Nat)
    (changed aborted : Bool) :
    (rename f w).commitTable i changed aborted = rename f (w.commitTable i changed aborted) := by
  have hdraft : (⟨(rename f w).table i, w.declared, changed⟩ : Draft) =
      rename f ⟨w.table i, w.declared, changed⟩ :=
    congrArg (Draft.mk · w.declared changed) (w.table_rename i)
  change (rename f w).setTable i
    ((⟨(rename f w).table i, w.declared, changed⟩ : Draft).commit aborted) = _
  rw [hdraft, Draft.commit_rename]
  exact w.setTable_rename i _

namespace Session

open Interner

variable (hI : I.Lawful) {s : Session σ} {w : Workspace}

include hI

theorem grows_declare (i : Nat) (s : Session σ × Bool) (id : ClassId) (file : FileId)
    (text : String) : I.Grows s.1.names (declare I met i s id file text).2.1.names := by
  unfold declare
  dsimp only
  cases (s.1.workspace.table i).class? id with
  | none => exact .refl _
  | some c => exact grows_read met hI s.1.names _ text _

theorem declare_stands (h : s.Shows I w) (i : Nat) (changed : Bool) (id : ClassId)
    (file : FileId) (text : String) :
    I.Stands (declare I met i (s, changed) id file text).2.1.names
      ((declare I met i (s, changed) id file text).1,
        (declare I met i (s, changed) id file text).2.1.workspace,
        (declare I met i (s, changed) id file text).2.2)
      (Workspace.act i (w, changed) (.step (.declare id file text))) := by
  refine .of_enough fun hx ↦ ?_
  have hs := (grows_declare met hI i (s, changed) id file text hx).1
  have hclass := h.natural hI (fun w : Workspace ↦ (w.table i).class? id) fun f _ w ↦ by
    rw [w.table_rename, ClassTable.class?_rename]
  rw [Workspace.act_declare]
  unfold declare
  dsimp only
  cases hc : (s.workspace.table i).class? id with
  | none =>
    rw [hc] at hclass
    rw [hclass.none hs]
    exact h.natural hI (fun w ↦ (Except.error (Halt.unknownClass ⟨id⟩), w, changed))
      fun _ _ _ ↦ rfl
  | some c =>
    rw [hc] at hclass
    obtain ⟨c', hc', hstands⟩ := hclass.some hs
    have href : rename (I.text s.names) c.ref = c'.ref :=
      congrArg ClassNode.ref (hstands.rename_text hs)
    rw [hc']
    dsimp only
    rw [href]
    let r := readMethod file c'.ref.context text
    have hread := stands_read met hI s.names c'.ref.context text r.result
    have hgrows := grows_read met hI s.names c'.ref.context text r.result
    exact ((h.mono hgrows).prod hread).natural hI
      (fun x : Workspace × Except ReadError Method ↦
        Workspace.addRead i ({ x.1 with log := x.1.log.emitAll r.reports }, changed) id x.2)
      fun f hf x ↦ Workspace.addRead_rename hf i
        { x.1 with log := x.1.log.emitAll r.reports } changed id x.2

theorem grows_act (i : Nat) (s : Session σ × Bool) (a : Action) :
    I.Grows s.1.names (act I met i s a).2.1.names := by
  cases a with
  | step k =>
    cases k with
    | edit e => exact grows_encode hI s.1.names e
    | declare id file text => exact grows_declare met hI i s id file text
    | abort => exact .refl _
  | request cache r => exact grows_request met hI s.1 cache r
  | count => exact .refl _

theorem act_stands (h : s.Shows I w) (i : Nat) (changed : Bool) (a : Action) :
    I.Stands (act I met i (s, changed) a).2.1.names
      ((act I met i (s, changed) a).1, (act I met i (s, changed) a).2.1.workspace,
        (act I met i (s, changed) a).2.2) (Workspace.act i (w, changed) a) := by
  cases a with
  | step k =>
    cases k with
    | edit e =>
      exact ((h.mono (grows_encode hI s.names e)).prod (stands_encode hI s.names e)).natural hI
        (fun x : Workspace × Edit ↦ Workspace.act i (x.1, changed) (.step (.edit x.2)))
        fun _ hf x ↦ x.1.act_edit_rename hf i changed x.2
    | declare id file text => exact declare_stands met hI h i changed id file text
    | abort =>
      rw [Workspace.act_abort]
      exact h.natural hI
        (fun w ↦ ((.error .aborted : Except Halt (Option Acted)), w, changed)) fun _ _ _ ↦ rfl
  | request cache r =>
    refine (request_stands met hI h cache r).natural hI
      (fun x ↦ ((.ok (x.1.map .response) : Except Halt (Option Acted)), x.2, changed))
      fun f _ x ↦ ?_
    obtain ⟨a, w⟩ := x
    cases a <;> rfl
  | count =>
    refine h.natural hI (fun w ↦ ((.ok (some (.count (w.table i).modifications.count)) :
      Except Halt (Option Acted)), w, changed)) fun f _ w ↦ ?_
    rw [w.table_rename]
    rfl

theorem grows_command (s : Session σ) (i : Nat) (keepGoing : Bool) (actions : List Action) :
    I.Grows s.names (s.command I met i keepGoing actions).2.names :=
  carryOut_reflects (P := fun x ↦ I.Grows x.1.names (s.command I met i keepGoing actions).2.names)
    (fun x a h ↦ (grows_act met hI i x a).trans h) keepGoing (.refl _)

/-- A command with identifiers does what it does with names. -/
theorem command_stands (h : s.Shows I w) (i : Nat) (keepGoing : Bool) (actions : List Action) :
    I.Stands (s.command I met i keepGoing actions).2.names
      ((s.command I met i keepGoing actions).1, (s.command I met i keepGoing actions).2.workspace)
      (w.command i keepGoing actions) := by
  intro u hg hu
  have hstep (x : Session σ × Bool) (y : Workspace × Bool) (a : Action)
      (hxy : x.1.Shows I y.1 ∧ x.2 = y.2) (hgrows : I.Grows (act I met i x a).2.1.names u) :
      (act I met i x a).1.map (rename (I.mark u)) = (Workspace.act i y a).1.map (rename marked) ∧
        (act I met i x a).2.1.Shows I (Workspace.act i y a).2.1 ∧
        (act I met i x a).2.2 = (Workspace.act i y a).2.2 := by
    obtain ⟨x, changed⟩ := x
    obtain ⟨y, changed'⟩ := y
    obtain ⟨hshows, rfl⟩ := hxy
    have hact := act_stands met hI hshows i changed a
    have hhere := hact u hgrows hu
    exact ⟨congrArg Prod.fst hhere, fun v hv hv' ↦ congrArg (·.2.1) (hact v hv hv'),
      congrArg (·.2.2) hhere⟩
  have hstart : (s, false).1.Shows I (w, false).1 ∧ (s, false).2 = (w, false).2 := ⟨h, rfl⟩
  obtain ⟨hresults, hfailure, hlast, hchanged⟩ := carryOut_simulates
    (P := fun x : Session σ × Bool ↦ I.Grows x.1.names u)
    (fun x a hgrows ↦ (grows_act met hI i x a).trans hgrows) hstep keepGoing actions hstart hg
  let o := carryOut (Workspace.act i) keepGoing (w, false) actions
  have hend := hlast.natural hI (fun w : Workspace ↦ w.commitTable i o.2.2 o.1.aborted)
    fun _ _ w ↦ w.commitTable_rename i o.2.2 o.1.aborted
  refine Prod.ext (Outcome.rename_eq hresults hfailure) ?_
  unfold command Outcome.aborted
  dsimp only
  rw [hfailure, hchanged]
  exact hend u hg hu

end Session

end ClassModel
