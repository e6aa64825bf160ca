import ClassModel.Proofs.Cache.Provenance
import ClassModel.Proofs.Cache.Run

namespace ClassModel

namespace Cache

variable {F M I : Type} {c : Cache F M I} {m : Moment F M I}
  {P : EnumMethod → Stamp → Synthetic M → Prop}

theorem enumCell_setEnumCell (c : Cache F M I) (cell : Cell (Synthetic M))
    (which which' : EnumMethod) :
    (c.setEnumCell cell which).enumCell which' =
      if which' = which then cell else c.enumCell which' := by
  cases which <;> cases which' <;> rfl

theorem setEnumCell_self (c : Cache F M I) (which : EnumMethod) :
    c.setEnumCell (c.enumCell which) which = c := by
  cases which <;> rfl

theorem enumName?_eq_some {name : String} :
    c.enumName? = some name ↔
      c.settings.synthesizeEnumMethods = true ∧ c.owner.isEnum = true ∧
        c.owner.name = some name := by
  simp [enumName?, and_assoc]

section

variable {which : EnumMethod} {name : String}

theorem enumMethod_of_no_name (hname : c.enumName? = none) :
    c.enumMethod m which = (.ok none, c, []) := by
  simp [enumMethod, hname]

theorem enumMethod_of_current (hname : c.enumName? = some name) {s : Synthetic M}
    (hc : (c.enumCell which).current (c.stamp m) = some s) :
    c.enumMethod m which = (.ok (some s), c, []) := by
  simp [enumMethod, hname, Cell.fetch, Cell.lacks, hc, setEnumCell_self, Except.map]

theorem enumMethod_of_ok (hname : c.enumName? = some name)
    (hc : (c.enumCell which).current (c.stamp m) = none) {a : M}
    (ha : (m.create (which.text name)).result = .ok a) :
    c.enumMethod m which = (.ok (some ⟨a, c.owner.span⟩),
      c.setEnumCell ((c.enumCell which).store (c.stamp m) ⟨a, c.owner.span⟩) which,
      .create (which.text name) :: (m.create (which.text name)).reports.map .report) := by
  simp [enumMethod, hname, Cell.fetch, Cell.lacks, hc, ha, Except.map]

theorem enumMethod_of_error (hname : c.enumName? = some name)
    (hc : (c.enumCell which).current (c.stamp m) = none) {e : InternalError}
    (he : (m.create (which.text name)).result = .error e) :
    c.enumMethod m which = (.error e, c,
      .create (which.text name) :: (m.create (which.text name)).reports.map .report) := by
  simp [enumMethod, hname, Cell.fetch, Cell.lacks, hc, he, setEnumCell_self, Except.map]

/-- What a query for a method made from a template gives is kept, or has just been made. -/
theorem enumMethod_cases (c : Cache F M I) (m : Moment F M I) (which : EnumMethod)
    (hname : c.enumName? = some name) :
    (∃ s, (c.enumCell which).current (c.stamp m) = some s ∧
      c.enumMethod m which = (.ok (some s), c, [])) ∨
    (∃ a, (m.create (which.text name)).result = .ok a ∧
      c.enumMethod m which = (.ok (some ⟨a, c.owner.span⟩),
        c.setEnumCell ((c.enumCell which).store (c.stamp m) ⟨a, c.owner.span⟩) which,
        .create (which.text name) :: (m.create (which.text name)).reports.map .report)) ∨
    (∃ e, (m.create (which.text name)).result = .error e ∧
      c.enumMethod m which = (.error e, c,
        .create (which.text name) :: (m.create (which.text name)).reports.map .report)) := by
  cases hc : (c.enumCell which).current (c.stamp m) with
  | some s => exact .inl ⟨s, rfl, enumMethod_of_current hname hc⟩
  | none =>
    cases hr : (m.create (which.text name)).result with
    | ok a => exact .inr (.inl ⟨a, rfl, enumMethod_of_ok hname hc hr⟩)
    | error e => exact .inr (.inr ⟨e, rfl, enumMethod_of_error hname hc hr⟩)

theorem current_enumCell_enumMethod (hname : c.enumName? = some name) :
    ((c.enumMethod m which).2.1.enumCell which).current (c.stamp m) =
      ((c.enumCell which).current (c.stamp m)).or
        ((m.create (which.text name)).result.toOption.map (⟨·, c.owner.span⟩)) := by
  cases hc : (c.enumCell which).current (c.stamp m) with
  | some s =>
    rw [enumMethod_of_current hname hc, Option.some_or]
    exact hc
  | none =>
    rw [Option.none_or]
    cases hr : (m.create (which.text name)).result with
    | ok a =>
      rw [enumMethod_of_ok hname hc hr]
      dsimp only
      rw [enumCell_setEnumCell, if_pos rfl, Cell.current_store]
      exact if_pos rfl
    | error e =>
      rw [enumMethod_of_error hname hc hr]
      exact hc

theorem setEnumCell_setEnumCell (c : Cache F M I) (cell cell' : Cell (Synthetic M))
    (which : EnumMethod) :
    (c.setEnumCell cell which).setEnumCell cell' which = c.setEnumCell cell' which := by
  cases which <;> rfl

theorem exists_cell_enumMethod (c : Cache F M I) (m : Moment F M I) (which : EnumMethod) :
    ∃ cell, (c.enumMethod m which).2.1 = c.setEnumCell cell which := by
  unfold enumMethod
  cases c.enumName? with
  | none => exact ⟨_, (c.setEnumCell_self which).symm⟩
  | some name => exact ⟨_, rfl⟩

end

theorem holds_enumMethod (h : ∀ which, (c.enumCell which).Holds (P which))
    (hmade : ∀ which name a, c.enumName? = some name →
      (m.create (which.text name)).result = .ok a → P which (c.stamp m) ⟨a, c.owner.span⟩)
    (which which' : EnumMethod) :
    ((c.enumMethod m which).2.1.enumCell which').Holds (P which') := by
  cases hname : c.enumName? with
  | none =>
    rw [enumMethod_of_no_name hname]
    exact h which'
  | some name =>
    rcases c.enumMethod_cases m which hname with ⟨s, -, he⟩ | ⟨a, hr, he⟩ | ⟨e, -, he⟩
    · rw [he]
      exact h which'
    · rw [he]
      dsimp only
      rw [enumCell_setEnumCell]
      split
      · next hw =>
        subst hw
        exact Cell.holds_store _ (hmade which' name a hname hr)
      · exact h which'
    · rw [he]
      exact h which'

variable [Member F] [MethodMember M] [Member I]

/-- A query about anything else neither sees nor changes a cell for a method made from a
template. -/
theorem ask_setEnumCell (c : Cache F M I) (m : Moment F M I) (cell : Cell (Synthetic M))
    {which : EnumMethod} {q : Query} (hq : q ≠ .enumMethod which) :
    (c.setEnumCell cell which).ask m q =
      ((c.ask m q).1, (c.ask m q).2.1.setEnumCell cell which, (c.ask m q).2.2) := by
  cases q with
  | constructors =>
    have hcell : (c.setEnumCell cell which).constructors = c.constructors := by
      cases which <;> rfl
    have hstamp : (c.setEnumCell cell which).stamp m = c.stamp m := by
      cases which <;> rfl
    unfold ask listConstructors
    rw [hcell, hstamp]
    cases c.constructors.current (c.stamp m) <;> cases which <;> rfl
  | fields | methods | innerTypes => cases which <;> rfl
  | findField n bases | findMethods n bases | findInnerType n bases =>
    cases bases <;> cases which <;> rfl
  | enumMethod which' =>
    have hname : (c.setEnumCell cell which).enumName? = c.enumName? := by
      cases which <;> rfl
    unfold ask enumMethod
    rw [hname]
    cases c.enumName? with
    | none => rfl
    | some name => cases which <;> cases which' <;> first | rfl | exact absurd rfl hq

theorem enumCell_ask (c : Cache F M I) (m : Moment F M I) {which : EnumMethod} {q : Query}
    (hq : q ≠ .enumMethod which) : (c.ask m q).2.1.enumCell which = c.enumCell which := by
  have hask := c.ask_setEnumCell m (c.enumCell which) hq
  rw [setEnumCell_self] at hask
  rw [congrArg (·.2.1) hask, enumCell_setEnumCell, if_pos rfl]

theorem holds_ask (h : ∀ which, (c.enumCell which).Holds (P which))
    (hmade : ∀ which name a, c.enumName? = some name →
      (m.create (which.text name)).result = .ok a → P which (c.stamp m) ⟨a, c.owner.span⟩)
    (q : Query) (which : EnumMethod) : ((c.ask m q).2.1.enumCell which).Holds (P which) := by
  by_cases hq : q = .enumMethod which
  · subst hq
    exact holds_enumMethod h hmade which which
  · rw [c.enumCell_ask m hq]
    exact h which

end Cache

end ClassModel
