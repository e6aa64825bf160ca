import ClassModel.Proofs.Cache.EnumMethod
import ClassModel.Proofs.Cache.Renaming
import ClassModel.Proofs.Session.Tables
import ClassModel.Session

namespace ClassModel

instance : Renames Event where
  rename f
    | .inherit kind name => .inherit kind (f name)
    | e => e
  rename_id e := by cases e <;> rfl
  rename_rename f g e := by cases e <;> rfl

/-- Renaming a member changes nothing about it but names. -/
class NamedMember (α : Type) [Member α] [Renames α] : Prop where
  name?_rename (f : String → String) (a : α) :
    Member.name? (rename f a) = rename f (Member.name? a)
  isExternal_rename (f : String → String) (a : α) :
    Member.isExternal (rename f a) = Member.isExternal a
  span_rename (f : String → String) (a : α) : Member.span (rename f a) = Member.span a

instance : NamedMember (Handle Field) := ⟨fun _ _ ↦ rfl, fun _ _ ↦ rfl, fun _ _ ↦ rfl⟩

instance : NamedMember (Handle Method) := ⟨fun _ _ ↦ rfl, fun _ _ ↦ rfl, fun _ _ ↦ rfl⟩

instance : NamedMember ClassRef := ⟨fun _ _ ↦ rfl, fun _ _ ↦ rfl, fun _ _ ↦ rfl⟩

section

variable {α ι : Type} [Renames α] [Renames ι] {f : String → String}

theorem Cell.current_rename (c : Cell α) (s : Stamp) :
    (rename f c).current s = rename f (c.current s) :=
  Cell.current_map (rename f) c s

theorem Listing.members_rename (l : Listing α ι) (s : Stamp) (read : List α × List Event) :
    (rename f l).members s (rename f read) = rename f (l.members s read) := by
  have hlist : (rename f l).list.current s = rename f (l.list.current s) :=
    l.list.current_rename s
  unfold members
  rw [hlist]
  cases l.list.current s <;> rfl

theorem Listing.indexed_rename (l : Listing α ι) (s : Stamp) (read : List α × List Event)
    {make make' : List α → ι × List Event}
    (h : ∀ as, make' (rename f as) = rename f (make as)) :
    (rename f l).indexed s (rename f read) make' = rename f (l.indexed s read make) := by
  have hindex : (rename f l).index.current s = rename f (l.index.current s) :=
    l.index.current_rename s
  unfold indexed
  rw [hindex, members_rename]
  cases l.index.current s with
  | some ix => rfl
  | none =>
    let listed := l.members s read
    have hevents := rename_append f listed.2.2 (make listed.1).2
    change ((make' (rename f listed.1)).1,
      { rename f listed.2.1 with
        index := (rename f listed.2.1).index.store s (make' (rename f listed.1)).1 },
      rename f listed.2.2 ++ (make' (rename f listed.1)).2) = _
    rw [h]
    exact congrArg (fun es ↦ ((rename f (make listed.1)).1,
      { rename f listed.2.1 with
        index := (rename f listed.2.1).index.store s (rename f (make listed.1)).1 }, es))
      hevents.symm

namespace Index

theorem alter_rename (hf : f.Injective) (n : String) {g g' : Option α → α}
    (h : ∀ a, g' (rename f a) = rename f (g a)) (ix : Index α) :
    alter (f n) g' (rename f ix) = rename f (alter n g ix) := by
  induction ix with
  | nil => exact congrArg (fun a ↦ [(f n, a)]) (h none)
  | cons e ix ih =>
    obtain ⟨k, a⟩ := e
    change alter (f n) g' ((f k, rename f a) :: rename f ix) = _
    rw [alter, alter, ih]
    by_cases hk : n = k
    · rw [if_pos hk, if_pos (congrArg f hk)]
      exact congrArg (fun a ↦ (f k, a) :: rename f ix) (h (some a))
    · rw [if_neg hk, if_neg fun hfk ↦ hk (hf hfk)]
      rfl

theorem lookup_rename (hf : f.Injective) (n : String) (ix : Index α) :
    List.lookup (f n) (rename f ix) = rename f (List.lookup n ix) := by
  induction ix with
  | nil => rfl
  | cons e ix ih =>
    obtain ⟨k, a⟩ := e
    change List.lookup (f n) ((f k, rename f a) :: rename f ix) = _
    rw [List.lookup_cons, List.lookup_cons, hf.beq_eq, ih]
    cases n == k <;> rfl

variable [Member α] [NamedMember α]

theorem prefer_rename (a : α) (b : Option α) :
    prefer (rename f a) (rename f b) = rename f (prefer a b) := by
  cases b with
  | none => rfl
  | some b =>
    change (if Member.isExternal (rename f b) && !Member.isExternal (rename f a) then rename f a
      else rename f b) = _
    rw [NamedMember.isExternal_rename, NamedMember.isExternal_rename, prefer]
    split <;> rfl

theorem addPreferred_rename (hf : f.Injective) (ix : Index α) (a : α) :
    addPreferred (rename f ix) (rename f a) = rename f (addPreferred ix a) := by
  rw [addPreferred, NamedMember.name?_rename, addPreferred]
  cases Member.name? a with
  | none => rfl
  | some n => exact alter_rename hf n (prefer_rename a) ix

theorem addGrouped_rename (hf : f.Injective) (ix : Index (List α)) (a : α) :
    addGrouped (rename f ix) (rename f a) = rename f (addGrouped ix a) := by
  rw [addGrouped, NamedMember.name?_rename, addGrouped]
  cases Member.name? a with
  | none => rfl
  | some n =>
    refine alter_rename hf n (fun as ↦ ?_) ix
    cases as with
    | none => rfl
    | some as => exact (rename_append f as [a]).symm

theorem preferred_rename (hf : f.Injective) (as : List α) :
    preferred (rename f as) = rename f (preferred as) :=
  foldl_rename (addPreferred_rename hf) as []

theorem grouped_rename (hf : f.Injective) (as : List α) :
    grouped (rename f as) = rename f (grouped as) :=
  foldl_rename (addGrouped_rename hf) as []

end Index

end

/-- Whether a moment is another one under other names. Nothing is said of methods to be made. -/
structure Moment.Renamed (f : String → String) (m m' : ClassMoment) : Prop where
  count : m'.count = m.count
  own : m'.own = rename f m.own
  augments : m'.augments = rename f m.augments
  inheritedField : ∀ n, m'.inheritedField (f n) = rename f (m.inheritedField n)
  inheritedMethods : ∀ n, m'.inheritedMethods (f n) = rename f (m.inheritedMethods n)
  inheritedInnerType : ∀ n, m'.inheritedInnerType (f n) = rename f (m.inheritedInnerType n)

namespace Cache

def renameKept (f : String → String) (c : ClassCache) : ClassCache :=
  { rename f c with owner := c.owner }

variable {f : String → String} (c : ClassCache) {m m' : ClassMoment} (h : m.Renamed f m')

theorem collect_rename {α : Type} [Renames α] (kind : MemberKind) (own augments : List α) :
    (c.renameKept f).collect kind (rename f own) (rename f augments) =
      rename f (c.collect kind own augments) := by
  have hsettings : (c.renameKept f).settings = c.settings := rfl
  unfold collect
  rw [hsettings]
  split
  · exact congrArg (·, [Event.readOwn kind, Event.readAugments kind])
      (rename_append f own augments).symm
  · rfl

theorem unnamedReports_rename {α : Type} [Member α] [Renames α] [NamedMember α]
    (kind : MemberKind) (as : List α) :
    (c.renameKept f).unnamedReports kind (rename f as) =
      rename f (c.unnamedReports kind as) := by
  have hname (a : α) : (Member.name? (rename f a)).isNone = (Member.name? a).isNone := by
    rw [NamedMember.name?_rename]
    exact Option.isNone_map
  unfold unnamedReports
  rw [filter_rename hname]
  refine map_rename (fun a ↦ ?_) _
  rw [NamedMember.span_rename]
  rfl

include h in
theorem stamp_rename : (c.renameKept f).stamp m' = c.stamp m :=
  congrArg (Stamp.mk · c.drops.count) h.count

include h in
theorem readFields_rename : (c.renameKept f).readFields m' = rename f (c.readFields m) := by
  rw [readFields, h.own, h.augments]
  exact c.collect_rename .field m.own.fields m.augments.fields

include h in
theorem readMethods_rename : (c.renameKept f).readMethods m' = rename f (c.readMethods m) := by
  rw [readMethods, h.own, h.augments]
  exact c.collect_rename .method m.own.methods m.augments.methods

include h in
theorem readInnerTypes_rename :
    (c.renameKept f).readInnerTypes m' = rename f (c.readInnerTypes m) := by
  rw [readInnerTypes, h.own, h.augments]
  exact c.collect_rename .innerType m.own.innerTypes m.augments.innerTypes

def renameAsked {α : Type} [Renames α] (f : String → String)
    (r : α × ClassCache × List Event) : α × ClassCache × List Event :=
  (rename f r.1, r.2.1.renameKept f, rename f r.2.2)

theorem renameAsked_map {α β : Type} [Renames α] [Renames β] {g g' : α → β}
    (hg : ∀ a, g' (rename f a) = rename f (g a)) (r : α × ClassCache × List Event) :
    (renameAsked f r).map g' id = renameAsked f (r.map g id) :=
  Prod.ext (hg r.1) rfl

include h in
theorem listFields_rename :
    (c.renameKept f).listFields m' = renameAsked f (c.listFields m) := by
  unfold listFields
  rw [c.stamp_rename h, c.readFields_rename h]
  exact congrArg (fun r ↦ (r.1, { c.renameKept f with fields := r.2.1 }, r.2.2))
    (c.fields.members_rename (c.stamp m) (c.readFields m))

include h in
theorem listMethods_rename :
    (c.renameKept f).listMethods m' = renameAsked f (c.listMethods m) := by
  unfold listMethods
  rw [c.stamp_rename h, c.readMethods_rename h]
  exact congrArg (fun r ↦ (r.1, { c.renameKept f with methods := r.2.1 }, r.2.2))
    (c.methods.members_rename (c.stamp m) (c.readMethods m))

include h in
theorem listInnerTypes_rename :
    (c.renameKept f).listInnerTypes m' = renameAsked f (c.listInnerTypes m) := by
  unfold listInnerTypes
  rw [c.stamp_rename h, c.readInnerTypes_rename h]
  exact congrArg (fun r ↦ (r.1, { c.renameKept f with innerTypes := r.2.1 }, r.2.2))
    (c.innerTypes.members_rename (c.stamp m) (c.readInnerTypes m))

variable (hf : f.Injective)

include h hf in
theorem fieldIndex_rename :
    (c.renameKept f).fieldIndex m' = renameAsked f (c.fieldIndex m) := by
  have hindexed : (rename f c.fields).indexed (c.stamp m) (rename f (c.readFields m))
        (fun fs ↦ (.preferred fs, (c.renameKept f).unnamedReports .field fs)) =
      rename f (c.fields.indexed (c.stamp m) (c.readFields m)
        fun fs ↦ (.preferred fs, c.unnamedReports .field fs)) :=
    c.fields.indexed_rename _ _ fun fs ↦
      Prod.ext (Index.preferred_rename hf fs) (c.unnamedReports_rename .field fs)
  unfold fieldIndex
  rw [c.stamp_rename h, c.readFields_rename h]
  exact congrArg (fun r ↦ (r.1, { c.renameKept f with fields := r.2.1 }, r.2.2)) hindexed

include h hf in
theorem methodIndex_rename :
    (c.renameKept f).methodIndex m' = renameAsked f (c.methodIndex m) := by
  have hindexed : (rename f c.methods).indexed (c.stamp m) (rename f (c.readMethods m))
        (fun ms ↦ (.grouped ms, (c.renameKept f).unnamedReports .method ms)) =
      rename f (c.methods.indexed (c.stamp m) (c.readMethods m)
        fun ms ↦ (.grouped ms, c.unnamedReports .method ms)) :=
    c.methods.indexed_rename _ _ fun ms ↦
      Prod.ext (Index.grouped_rename hf ms) (c.unnamedReports_rename .method ms)
  unfold methodIndex
  rw [c.stamp_rename h, c.readMethods_rename h]
  exact congrArg (fun r ↦ (r.1, { c.renameKept f with methods := r.2.1 }, r.2.2)) hindexed

include h hf in
theorem innerTypeIndex_rename :
    (c.renameKept f).innerTypeIndex m' = renameAsked f (c.innerTypeIndex m) := by
  have hindexed : (rename f c.innerTypes).indexed (c.stamp m) (rename f (c.readInnerTypes m))
        (fun is ↦ (.preferred is, (c.renameKept f).unnamedReports .innerType is)) =
      rename f (c.innerTypes.indexed (c.stamp m) (c.readInnerTypes m)
        fun is ↦ (.preferred is, c.unnamedReports .innerType is)) :=
    c.innerTypes.indexed_rename _ _ fun is ↦
      Prod.ext (Index.preferred_rename hf is) (c.unnamedReports_rename .innerType is)
  unfold innerTypeIndex
  rw [c.stamp_rename h, c.readInnerTypes_rename h]
  exact congrArg (fun r ↦ (r.1, { c.renameKept f with innerTypes := r.2.1 }, r.2.2)) hindexed

include h in
theorem listConstructors_rename :
    (c.renameKept f).listConstructors m' = renameAsked f (c.listConstructors m) := by
  have hcell : (c.renameKept f).constructors.current (c.stamp m) =
      rename f (c.constructors.current (c.stamp m)) :=
    c.constructors.current_rename (c.stamp m)
  unfold listConstructors
  rw [c.stamp_rename h, hcell, c.listMethods_rename h]
  cases c.constructors.current (c.stamp m) with
  | some ms => rfl
  | none =>
    have hfilter : (rename f (c.listMethods m).1).filter MethodMember.isConstructor =
        rename f ((c.listMethods m).1.filter MethodMember.isConstructor) :=
      filter_rename (fun _ ↦ rfl) _
    exact congrArg (fun cs ↦ (cs, { (c.listMethods m).2.1.renameKept f with
      constructors := (rename f (c.listMethods m).2.1.constructors).store (c.stamp m) cs },
      rename f (c.listMethods m).2.2)) hfilter

theorem rename_made (text : String) (rs : List Report) :
    rename f (Event.create text :: rs.map .report) = .create text :: rs.map .report :=
  congrArg (Event.create text :: ·) List.map_map

include h in
theorem enumMethod_rename (which : EnumMethod)
    (hcreate : ∀ text es, (c.enumMethod m which).2.2 = .create text :: es →
      m'.create text = rename f (m.create text)) :
    (c.renameKept f).enumMethod m' which = renameAsked f (c.enumMethod m which) := by
  cases hname : c.enumName? with
  | none =>
    have hname' : (c.renameKept f).enumName? = none := hname
    rw [enumMethod_of_no_name hname, enumMethod_of_no_name hname']
    rfl
  | some name =>
    have hname' : (c.renameKept f).enumName? = some name := hname
    have hcell : ((c.renameKept f).enumCell which).current ((c.renameKept f).stamp m') =
        rename f ((c.enumCell which).current (c.stamp m)) := by
      rw [c.stamp_rename h]
      cases which <;> exact Cell.current_rename _ _
    cases hc : (c.enumCell which).current (c.stamp m) with
    | some s =>
      rw [hc] at hcell
      rw [enumMethod_of_current hname hc, enumMethod_of_current hname' hcell]
      rfl
    | none =>
      rw [hc] at hcell
      cases hr : (m.create (which.text name)).result with
      | ok a =>
        rw [enumMethod_of_ok hname hc hr] at hcreate ⊢
        have hmade := hcreate _ _ rfl
        have hr' : (m'.create (which.text name)).result = .ok (rename f a) := by
          rw [hmade]
          exact congrArg (rename f) hr
        rw [enumMethod_of_ok hname' hcell hr', hmade, c.stamp_rename h, renameAsked,
          rename_made]
        cases which <;> rfl
      | error e =>
        rw [enumMethod_of_error hname hc hr] at hcreate ⊢
        have hmade := hcreate _ _ rfl
        have hr' : (m'.create (which.text name)).result = .error e := by
          rw [hmade]
          exact congrArg (rename f) hr
        rw [enumMethod_of_error hname' hcell hr', hmade, renameAsked, rename_made]
        rfl

include h hf in
theorem ask_rename (q : Query)
    (hcreate : ∀ text es, (c.ask m q).2.2 = .create text :: es →
      m'.create text = rename f (m.create text)) :
    (c.renameKept f).ask m' (rename f q) = renameAsked f (c.ask m q) := by
  cases q with
  | constructors =>
    change ((c.renameKept f).listConstructors m').map Answer.methods id = _
    rw [listConstructors_rename c h]
    rfl
  | fields =>
    change ((c.renameKept f).listFields m').map Answer.fields id = _
    rw [c.listFields_rename h]
    rfl
  | methods =>
    change ((c.renameKept f).listMethods m').map Answer.methods id = _
    rw [c.listMethods_rename h]
    rfl
  | innerTypes =>
    change ((c.renameKept f).listInnerTypes m').map Answer.innerTypes id = _
    rw [c.listInnerTypes_rename h]
    rfl
  | findField n bases =>
    cases bases with
    | true =>
      exact congrArg (fun a ↦ (Answer.field a, c.renameKept f, [Event.inherit .field (f n)]))
        (h.inheritedField n)
    | false =>
      change ((c.renameKept f).fieldIndex m').map (fun ix ↦ Answer.field (ix.lookup (f n))) id = _
      rw [c.fieldIndex_rename h hf]
      exact renameAsked_map (fun ix ↦ congrArg Answer.field (Index.lookup_rename hf n ix)) _
  | findMethods n bases =>
    cases bases with
    | true =>
      exact congrArg (fun a ↦ (Answer.methods a, c.renameKept f, [Event.inherit .method (f n)]))
        (h.inheritedMethods n)
    | false =>
      have hlookup (ix : Index (List (Handle Method))) :
          ((rename f ix).lookup (f n)).getD [] = rename f ((ix.lookup n).getD []) := by
        rw [Index.lookup_rename hf]
        exact getD_rename f (ix.lookup n) []
      change ((c.renameKept f).methodIndex m').map
        (fun ix ↦ Answer.methods ((ix.lookup (f n)).getD [])) id = _
      rw [c.methodIndex_rename h hf]
      exact renameAsked_map (fun ix ↦ congrArg Answer.methods (hlookup ix)) _
  | findInnerType n bases =>
    cases bases with
    | true =>
      exact congrArg (fun a ↦
        (Answer.innerType a, c.renameKept f, [Event.inherit .innerType (f n)]))
        (h.inheritedInnerType n)
    | false =>
      change ((c.renameKept f).innerTypeIndex m').map
        (fun ix ↦ Answer.innerType (ix.lookup (f n))) id = _
      rw [c.innerTypeIndex_rename h hf]
      exact renameAsked_map (fun ix ↦ congrArg Answer.innerType (Index.lookup_rename hf n ix)) _
  | enumMethod which =>
    change ((c.renameKept f).enumMethod m' which).map Answer.enumMethod id = _
    rw [c.enumMethod_rename h which hcreate]
    rfl

end Cache

end ClassModel
