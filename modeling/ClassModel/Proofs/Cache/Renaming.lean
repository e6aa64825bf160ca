import ClassModel.Workspace

namespace ClassModel

namespace Cell

variable {α β ε : Type}

def map (f : α → β) (c : Cell α) : Cell β := ⟨c.entry.map fun e ↦ (e.1, f e.2), c.computations⟩

theorem current_map (f : α → β) (c : Cell α) (s : Stamp) :
    (c.map f).current s = (c.current s).map f := by
  obtain ⟨_ | ⟨t, a⟩, n⟩ := c
  · rfl
  · by_cases h : t = s <;> simp [map, current, h]

theorem lacks_map (f : α → β) (c : Cell α) (s : Stamp) : (c.map f).lacks s = c.lacks s := by
  rw [lacks, current_map, lacks, Option.isNone_map]

theorem fetch_map (f : α → β) (c : Cell α) (s : Stamp) (made : Except ε α) :
    (c.map f).fetch s (made.map f) = ((c.fetch s made).1.map f, (c.fetch s made).2.map f) := by
  unfold fetch
  rw [current_map]
  cases c.current s with
  | some a => rfl
  | none => cases made <;> rfl

end Cell

def Synthetic.map {M N : Type} (f : M → N) (s : Synthetic M) : Synthetic N :=
  ⟨f s.method, s.anchor⟩

variable {F M I : Type} (f : M → M)

def Moment.mapMade (m : Moment F M I) : Moment F M I :=
  { m with create := fun text ↦ (m.create text).map f }

def Answer.mapMade : Answer F M I → Answer F M I
  | .enumMethod r => .enumMethod (r.map (Option.map (Synthetic.map f)))
  | a => a

namespace Cache

def mapMade (c : Cache F M I) : Cache F M I :=
  { c with values := c.values.map (.map f), valueOf := c.valueOf.map (.map f) }

variable (c : Cache F M I) (m : Moment F M I)

theorem enumCell_mapMade (which : EnumMethod) :
    (c.mapMade f).enumCell which = (c.enumCell which).map (.map f) := by
  cases which <;> rfl

theorem setEnumCell_mapMade (cell : Cell (Synthetic M)) (which : EnumMethod) :
    (c.mapMade f).setEnumCell (cell.map (.map f)) which =
      (c.setEnumCell cell which).mapMade f := by
  cases which <;> rfl

theorem enumMethod_mapMade (which : EnumMethod) :
    (c.mapMade f).enumMethod (m.mapMade f) which =
      ((c.enumMethod m which).1.map (Option.map (.map f)), (c.enumMethod m which).2.1.mapMade f,
        (c.enumMethod m which).2.2) := by
  have hname : (c.mapMade f).enumName? = c.enumName? := rfl
  have hstamp : (c.mapMade f).stamp (m.mapMade f) = c.stamp m := rfl
  unfold enumMethod
  rw [hname]
  cases c.enumName? with
  | none => rfl
  | some name =>
    have hmade : ((m.mapMade f).create (which.text name)).result.map
          (fun a ↦ (⟨a, (c.mapMade f).owner.span⟩ : Synthetic M)) =
        ((m.create (which.text name)).result.map
          (fun a ↦ (⟨a, c.owner.span⟩ : Synthetic M))).map (.map f) := by
      simp only [Moment.mapMade, Creation.map]
      cases (m.create (which.text name)).result <;> rfl
    have hreports : ((m.mapMade f).create (which.text name)).reports =
        (m.create (which.text name)).reports := rfl
    dsimp only
    rw [hmade, hstamp, enumCell_mapMade, Cell.fetch_map, Cell.lacks_map, hreports]
    dsimp only
    rw [setEnumCell_mapMade]
    cases ((c.enumCell which).fetch (c.stamp m) _).1 <;> rfl

theorem listConstructors_mapMade [MethodMember M] :
    (c.mapMade f).listConstructors (m.mapMade f) =
      ((c.listConstructors m).1, (c.listConstructors m).2.1.mapMade f,
        (c.listConstructors m).2.2) := by
  have hstamp : (c.mapMade f).stamp (m.mapMade f) = c.stamp m := rfl
  have hcell : (c.mapMade f).constructors = c.constructors := rfl
  unfold listConstructors
  rw [hcell, hstamp]
  cases c.constructors.current (c.stamp m) <;> rfl

/-- Asking commutes with renaming what is made from templates. -/
theorem ask_mapMade [Member F] [MethodMember M] [Member I] (q : Query) :
    (c.mapMade f).ask (m.mapMade f) q =
      ((c.ask m q).1.mapMade f, (c.ask m q).2.1.mapMade f, (c.ask m q).2.2) := by
  cases q with
  | constructors =>
    rw [ask, listConstructors_mapMade]
    rfl
  | fields | methods | innerTypes => rfl
  | findField n bases | findMethods n bases | findInnerType n bases => cases bases <;> rfl
  | enumMethod which =>
    rw [ask, enumMethod_mapMade]
    rfl

end Cache

end ClassModel
