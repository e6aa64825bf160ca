import ClassModel.Proofs.Table.InPlace
import ClassModel.Proofs.Workspace.Run

namespace ClassModel

namespace Workspace

theorem setTable_self (w : Workspace) (i : Nat) : w.setTable i (w.table i) = w := by
  have htables : w.tables.set i (w.table i) = w.tables := by
    rcases Nat.lt_or_ge i w.tables.length with hi | hi
    · rw [table, List.getElem?_eq_getElem hi]
      exact List.set_getElem_self hi
    · exact List.set_eq_of_length_le hi
  rw [setTable, htables]

theorem act_failure {i : Nat} {s : Workspace × Bool} {k : Step} {x : Halt}
    (h : k.failure? (s.1.table i) = some x) :
    act i s (.step k) =
      (.error x, { s.1 with log := s.1.log.emitAll (k.reports (s.1.table i)) }, s.2) := by
  have hk := Draft.act_failure (d := ⟨s.1.table i, s.1.declared, s.2⟩) h
  simp only [act, hk, setTable_self, Except.map]

theorem exists_of_act_error {i : Nat} {s : Workspace × Bool} {a : Action} {x : Halt}
    (h : (act i s a).1 = .error x) :
    ∃ k, a = .step k ∧ k.failure? (s.1.table i) = some x := by
  cases a with
  | step k =>
    refine ⟨k, rfl, ?_⟩
    rw [fst_act_step] at h
    cases hk : ((⟨s.1.table i, s.1.declared, s.2⟩ : Draft).act k).1 with
    | ok r => simp [hk, Except.map] at h
    | error y =>
      obtain rfl : y = x := by simpa [hk, Except.map] using h
      exact Draft.failure?_of_act hk
  | request cache r => cases h
  | count => cases h

/-- A command of which a step fails is the command of the actions before it, but for the reports
of the text in that step. -/
theorem command_of_failure {w : Workspace} {i : Nat} {before after : List Action} {k : Step}
    {x : Halt} (hb : (w.command i false before).1.failure = none)
    (hk : k.failure? ((w.command i false before).2.table i) = some x) (hx : x ≠ .aborted) :
    w.command i false (before ++ .step k :: after) =
      let r := w.command i false before
      (⟨r.1.results, some x⟩,
        { r.2 with log := r.2.log.emitAll (k.reports (r.2.table i)) }) := by
  obtain ⟨hfail, hreports⟩ := Step.failure?_of_classes (w.classes_command i false before i) k
  rw [hfail] at hk
  have hact := act_failure hk
  have hstop : carryOut (act i) false (carryOut (act i) false (w, false) before).2
      (.step k :: after) = (⟨[], some x⟩, (act i _ (.step k)).2) :=
    carryOut_of_error (congrArg Prod.fst hact)
  have hall := carryOut_append (.step k :: after) hb
  dsimp only at hall
  rw [hstop, hact, List.append_nil] at hall
  have hended : (carryOut (act i) false (w, false) before).1.aborted = false := by
    have hb' : (carryOut (act i) false (w, false) before).1.failure = none := hb
    simp [Outcome.aborted, hb']
  have haborted : ∀ rs, (⟨rs, some x⟩ : Outcome (Option Acted)).aborted = false := by
    simp [Outcome.aborted, hx]
  dsimp only
  rw [hreports]
  simp only [command, hall, haborted, hended]
  rfl

theorem exists_of_failure_command {w : Workspace} {i : Nat} {actions : List Action} {x : Halt}
    (h : (w.command i false actions).1.failure = some x) :
    ∃ before k after, actions = before ++ .step k :: after ∧
      (w.command i false before).1.failure = none ∧
      k.failure? ((w.command i false before).2.table i) = some x := by
  obtain ⟨before, a, after, rfl, hb, ha⟩ := exists_of_failure h
  obtain ⟨k, rfl, hk⟩ := exists_of_act_error ha
  refine ⟨before, k, after, rfl, hb, ?_⟩
  rw [(Step.failure?_of_classes (w.classes_command i false before i) k).1]
  exact hk

/-- An edit that needs classes that are not there fails with the first of them, and even if it is
carried out in place it has done nothing until then. A command that ends at the first failure, be it
of an edit or of reading a declaration, ends with just this failure, and leaves what the command of
the actions before it leaves, but for the reports of what has been read. -/
theorem failures_leave_nothing :
    (∀ (d : Draft) (e : Edit),
      match e.classes.find? d.table.lacks with
      | some id => (Draft.Work.edit e).run d = .error ⟨id⟩ d ∧
          d.act (.edit e) = (.error (.unknownClass ⟨id⟩), d, [])
      | none => ∃ r d', (Draft.Work.edit e).run d = .ok r d' ∧
          d.act (.edit e) = (.ok r, d', [])) ∧
    ∀ (w : Workspace) (i : Nat) (x : Halt), x ≠ .aborted →
      (∀ before k after, (w.command i false before).1.failure = none →
        k.failure? ((w.command i false before).2.table i) = some x →
        w.command i false (before ++ .step k :: after) =
          let r := w.command i false before
          (⟨r.1.results, some x⟩,
            { r.2 with log := r.2.log.emitAll (k.reports (r.2.table i)) })) ∧
      ∀ actions, (w.command i false actions).1.failure = some x → ∃ before k after,
        actions = before ++ .step k :: after ∧ (w.command i false before).1.failure = none ∧
        k.failure? ((w.command i false before).2.table i) = some x := by
  constructor
  · intro d e
    have hrun := Draft.run_edit d e
    cases h : e.classes.find? d.table.lacks with
    | some id =>
      rw [h] at hrun
      have hk : (Step.edit e).failure? d.table = some (.unknownClass ⟨id⟩) := by
        rw [Step.failure?, h, Option.map_some]
      exact ⟨hrun.2, Draft.act_failure hk⟩
    | none =>
      rw [h] at hrun
      obtain ⟨r, d', he, hrun⟩ := hrun
      refine ⟨r, d', hrun, ?_⟩
      rw [Draft.act, Draft.applyQuietly, he]
  · intro w i x hx
    exact ⟨fun before k after hb hk ↦ command_of_failure hb hk hx,
      fun actions h ↦ exists_of_failure_command h⟩

/-- A class that is to stand in another but has a super class that is not there, and a declaration
that ends too early. -/
theorem failures_behind_inner_class :
    let header (name : String) (s : Option ClassId) : ClassHeader :=
      ⟨some name, .ordinary, s, .dummy, .source⟩
    let before : List Action := [.step (.edit (.addClass (header "A" none))),
      .step (.edit (.addInner 0 (header "B" (some 0))))]
    let after : List Action := [.step (.edit (.removeField 0 "x"))]
    let r := start.command 0 false before
    let inner : Step := .edit (.addInner 1 (header "C" (some 7)))
    let e : ReadError := .grammatical "expected identifier, found end of input" ⟨3, 6, 6⟩
    let log : Log := ⟨[.error .grammatical "expected identifier, found end of input" ⟨3, 6, 6⟩], 1⟩
    r.1.failure = none ∧
      start.command 0 false (before ++ .step inner :: after) =
        (⟨r.1.results, some (.unknownClass ⟨7⟩)⟩, r.2) ∧
      start.command 0 false (before ++ .step (.declare 0 3 "int f(") :: after) =
        (⟨r.1.results, some (.unreadable e)⟩, { r.2 with log }) := by
  intro header before after r inner e log
  have hb : r.1.failure = none := rfl
  have hinner : inner.failure? (r.2.table 0) = some (.unknownClass ⟨7⟩) := rfl
  have hread : Step.failure? (r.2.table 0) (.declare 0 3 "int f(") = some (.unreadable e) := by
    decide +kernel
  have hlog : r.2.log.emitAll (Step.reports (r.2.table 0) (.declare 0 3 "int f(")) = log := by
    decide +kernel
  have hclass := (failures_leave_nothing.2 start 0 (.unknownClass ⟨7⟩) (by decide)).1
  have htext := (failures_leave_nothing.2 start 0 (.unreadable e) (by decide)).1
  refine ⟨hb, hclass before _ after hb hinner, ?_⟩
  rw [htext before _ after hb hread, ← hlog]

end Workspace

end ClassModel
