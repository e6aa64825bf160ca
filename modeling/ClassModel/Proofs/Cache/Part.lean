import ClassModel.Proofs.Cache.Provenance

namespace ClassModel

variable {F M I α ι β : Type}

/-- When what a cell keeps was made, and how often anything has been made for it. -/
structure Mark where
  stamp : Option Stamp
  computations : Nat

def Mark.renew (k : Mark) (s : Stamp) : Mark :=
  if k.stamp = some s then k else ⟨some s, k.computations + 1⟩

@[simp] theorem Mark.stamp_renew (k : Mark) (s : Stamp) : (k.renew s).stamp = some s := by
  unfold renew
  split
  · assumption
  · rfl

@[simp] theorem Mark.renew_renew (k : Mark) (s : Stamp) : (k.renew s).renew s = k.renew s := by
  rw [renew, if_pos (k.stamp_renew s)]

theorem Mark.computations_renew (k : Mark) (s : Stamp) :
    (k.renew s).computations = k.computations + if k.stamp = some s then 0 else 1 := by
  unfold renew
  split <;> rfl

namespace Cell

variable {c : Cell α} {s : Stamp}

def mark (c : Cell α) : Mark := ⟨c.entry.map Prod.fst, c.computations⟩

theorem mark_stamp_of_current {a : α} (h : c.current s = some a) : c.mark.stamp = some s := by
  rw [current_eq_some_iff] at h
  simp [mark, h]

theorem mark_stamp_of_current_none (h : c.current s = none) : c.mark.stamp ≠ some s := by
  obtain ⟨_ | ⟨t, a⟩, n⟩ := c
  · simp [mark]
  · simpa [mark, current] using h

theorem renew_mark_of_current {a : α} (h : c.current s = some a) : c.mark.renew s = c.mark := by
  rw [Mark.renew, if_pos (mark_stamp_of_current h)]

theorem mark_store (h : c.current s = none) (a : α) : (c.store s a).mark = c.mark.renew s := by
  rw [Mark.renew, if_neg (mark_stamp_of_current_none h)]
  rfl

theorem mark_fetch {ε : Type} (c : Cell α) (s : Stamp) (made : Except ε α) :
    (c.fetch s made).2.mark = if c.lacks s ∧ made.isOk then c.mark.renew s else c.mark := by
  unfold fetch lacks
  cases h : c.current s with
  | some a => simp
  | none =>
    cases made with
    | ok a => simpa [Except.isOk, Except.toBool] using mark_store h a
    | error e => simp [Except.isOk, Except.toBool]

end Cell

namespace Listing

variable {l : Listing α ι} {s : Stamp}

theorem list_mark_members (l : Listing α ι) (s : Stamp) (read : List α × List β) :
    (l.members s read).2.1.list.mark = l.list.mark.renew s := by
  unfold members
  cases hc : l.list.current s with
  | some as => exact (Cell.renew_mark_of_current hc).symm
  | none => exact Cell.mark_store hc _

theorem index_members (l : Listing α ι) (s : Stamp) (read : List α × List β) :
    (l.members s read).2.1.index = l.index := by
  unfold members
  cases l.list.current s <;> rfl

theorem index_mark_indexed (l : Listing α ι) (s : Stamp) (read : List α × List β)
    (make : List α → ι × List β) :
    (l.indexed s read make).2.1.index.mark = l.index.mark.renew s := by
  unfold indexed
  cases hi : l.index.current s with
  | some ix => exact (Cell.renew_mark_of_current hi).symm
  | none =>
    have hi' : (l.members s read).2.1.index.current s = none := by rwa [index_members]
    rw [← index_members l s read]
    exact Cell.mark_store hi' _

theorem list_mark_indexed (hl : l.index.mark.stamp = some s → l.list.mark.stamp = some s)
    (read : List α × List β) (make : List α → ι × List β) :
    (l.indexed s read make).2.1.list.mark = l.list.mark.renew s := by
  unfold indexed
  cases hi : l.index.current s with
  | some ix => rw [Mark.renew, if_pos (hl (Cell.mark_stamp_of_current hi))]
  | none => exact l.list_mark_members s read

theorem filter_members (l : Listing α ι) (s : Stamp) (read : List α × List β) (p : β → Bool) :
    (l.members s read).2.2.filter p =
      if l.list.mark.stamp = some s then [] else read.2.filter p := by
  unfold members
  cases hc : l.list.current s with
  | some as => simp [Cell.mark_stamp_of_current hc]
  | none => simp [Cell.mark_stamp_of_current_none hc]

theorem filter_indexed (hl : l.index.mark.stamp = some s → l.list.mark.stamp = some s)
    (read : List α × List β) (make : List α → ι × List β) {p : β → Bool}
    (hm : ∀ as, (make as).2.filter p = []) :
    (l.indexed s read make).2.2.filter p =
      if l.list.mark.stamp = some s then [] else read.2.filter p := by
  unfold indexed
  cases hi : l.index.current s with
  | some ix => simp [hl (Cell.mark_stamp_of_current hi)]
  | none =>
    simp only [List.filter_append, hm, List.append_nil]
    exact l.filter_members s read p

end Listing

inductive Part
  | list (kind : MemberKind)
  | fieldIndex
  | methodIndex
  | innerTypeIndex
  | enumMethod (which : EnumMethod)
  deriving DecidableEq, Repr

namespace Part

def all : List Part :=
  [.list .constructor, .list .field, .list .method, .list .innerType, .fieldIndex, .methodIndex,
    .innerTypeIndex, .enumMethod .values, .enumMethod .valueOf]

theorem mem_all (p : Part) : p ∈ all := by
  rcases p with (_ | _ | _ | _) | _ | _ | _ | (_ | _) <;> decide

def source? : Part → Option Part
  | .list .constructor | .methodIndex => some (.list .method)
  | .fieldIndex => some (.list .field)
  | .innerTypeIndex => some (.list .innerType)
  | .list .field | .list .method | .list .innerType | .enumMethod _ => none

end Part

def Query.parts : Query → List Part
  | .constructors => [.list .constructor, .list .method]
  | .fields => [.list .field]
  | .methods => [.list .method]
  | .innerTypes => [.list .innerType]
  | .findField _ false => [.fieldIndex, .list .field]
  | .findMethods _ false => [.methodIndex, .list .method]
  | .findInnerType _ false => [.innerTypeIndex, .list .innerType]
  | .findField _ true | .findMethods _ true | .findInnerType _ true | .enumMethod _ => []

def Event.isRead : Event → Bool
  | .readOwn _ | .readAugments _ => true
  | _ => false

def Moment.grants (m : Moment F M I) : Event → Bool
  | .create text => (m.create text).result.isOk
  | _ => false

namespace Cache

def mark (c : Cache F M I) : Part → Mark
  | .list .constructor => c.constructors.mark
  | .list .field => c.fields.list.mark
  | .list .method => c.methods.list.mark
  | .list .innerType => c.innerTypes.list.mark
  | .fieldIndex => c.fields.index.mark
  | .methodIndex => c.methods.index.mark
  | .innerTypeIndex => c.innerTypes.index.mark
  | .enumMethod .values => c.values.mark
  | .enumMethod .valueOf => c.valueOf.mark

theorem computations_eq_sum (c : Cache F M I) :
    c.computations = Part.all.foldr (fun p n ↦ (c.mark p).computations + n) 0 := by
  simp only [computations, Listing.computations, Part.all, mark, Cell.mark, List.foldr_cons,
    List.foldr_nil]
  omega

/-- Whether whatever is kept for the stamp `s` has been made from a list that is kept for it. -/
def Closed (c : Cache F M I) (s : Stamp) : Prop :=
  ∀ p p', p.source? = some p' → (c.mark p).stamp = some s → (c.mark p').stamp = some s

def Renews (c : Cache F M I) (s : Stamp) (ps : List Part) (c' : Cache F M I) : Prop :=
  ∀ p, c'.mark p = if p ∈ ps then (c.mark p).renew s else c.mark p

variable {c : Cache F M I} {m : Moment F M I}

theorem renews_of_current {s : Stamp} {ps : List Part}
    (h : ∀ p ∈ ps, (c.mark p).stamp = some s) : c.Renews s ps c := by
  intro p
  split
  · next hp => rw [Mark.renew, if_pos (h p hp)]
  · rfl

theorem renews_listFields (c : Cache F M I) (m : Moment F M I) :
    c.Renews (c.stamp m) [.list .field] (c.listFields m).2.1 := by
  intro p
  have hl := c.fields.list_mark_members (c.stamp m) (c.readFields m)
  have hi := c.fields.index_members (c.stamp m) (c.readFields m)
  rcases p with (_ | _ | _ | _) | _ | _ | _ | (_ | _) <;> simp_all [mark, listFields]

theorem renews_listMethods (c : Cache F M I) (m : Moment F M I) :
    c.Renews (c.stamp m) [.list .method] (c.listMethods m).2.1 := by
  intro p
  have hl := c.methods.list_mark_members (c.stamp m) (c.readMethods m)
  have hi := c.methods.index_members (c.stamp m) (c.readMethods m)
  rcases p with (_ | _ | _ | _) | _ | _ | _ | (_ | _) <;> simp_all [mark, listMethods]

theorem renews_listInnerTypes (c : Cache F M I) (m : Moment F M I) :
    c.Renews (c.stamp m) [.list .innerType] (c.listInnerTypes m).2.1 := by
  intro p
  have hl := c.innerTypes.list_mark_members (c.stamp m) (c.readInnerTypes m)
  have hi := c.innerTypes.index_members (c.stamp m) (c.readInnerTypes m)
  rcases p with (_ | _ | _ | _) | _ | _ | _ | (_ | _) <;> simp_all [mark, listInnerTypes]

theorem renews_fieldIndex [Member F] (hc : c.Closed (c.stamp m)) :
    c.Renews (c.stamp m) [.fieldIndex, .list .field] (c.fieldIndex m).2.1 := by
  intro p
  have hs : c.fields.index.mark.stamp = some (c.stamp m) → _ := hc .fieldIndex _ rfl
  have hl := Listing.list_mark_indexed hs (c.readFields m) c.indexFields
  have hi := c.fields.index_mark_indexed (c.stamp m) (c.readFields m) c.indexFields
  rcases p with (_ | _ | _ | _) | _ | _ | _ | (_ | _) <;> simp_all [mark, fieldIndex_eq]

theorem renews_methodIndex [MethodMember M] (hc : c.Closed (c.stamp m)) :
    c.Renews (c.stamp m) [.methodIndex, .list .method] (c.methodIndex m).2.1 := by
  intro p
  have hs : c.methods.index.mark.stamp = some (c.stamp m) → _ := hc .methodIndex _ rfl
  have hl := Listing.list_mark_indexed hs (c.readMethods m) c.indexMethods
  have hi := c.methods.index_mark_indexed (c.stamp m) (c.readMethods m) c.indexMethods
  rcases p with (_ | _ | _ | _) | _ | _ | _ | (_ | _) <;> simp_all [mark, methodIndex_eq]

theorem renews_innerTypeIndex [Member I] (hc : c.Closed (c.stamp m)) :
    c.Renews (c.stamp m) [.innerTypeIndex, .list .innerType] (c.innerTypeIndex m).2.1 := by
  intro p
  have hs : c.innerTypes.index.mark.stamp = some (c.stamp m) → _ := hc .innerTypeIndex _ rfl
  have hl := Listing.list_mark_indexed hs (c.readInnerTypes m) c.indexInnerTypes
  have hi := c.innerTypes.index_mark_indexed (c.stamp m) (c.readInnerTypes m) c.indexInnerTypes
  rcases p with (_ | _ | _ | _) | _ | _ | _ | (_ | _) <;> simp_all [mark, innerTypeIndex_eq]

theorem renews_listConstructors [MethodMember M] (hc : c.Closed (c.stamp m)) :
    c.Renews (c.stamp m) [.list .constructor, .list .method] (c.listConstructors m).2.1 := by
  unfold listConstructors
  cases hcs : c.constructors.current (c.stamp m) with
  | some cs =>
    have hs : (c.mark (.list .constructor)).stamp = some (c.stamp m) :=
      Cell.mark_stamp_of_current hcs
    exact renews_of_current (by simpa [hs] using hc _ _ rfl hs)
  | none =>
    intro p
    have hl := renews_listMethods c m p
    have hcs' : (c.listMethods m).2.1.constructors.current (c.stamp m) = none := hcs
    have hm := Cell.mark_store hcs' ((c.listMethods m).1.filter MethodMember.isConstructor)
    rcases p with (_ | _ | _ | _) | _ | _ | _ | (_ | _) <;> simp_all [mark]

theorem mark_setEnumCell (c : Cache F M I) (cell : Cell (Synthetic M)) (which : EnumMethod)
    (p : Part) :
    (c.setEnumCell cell which).mark p = if p = .enumMethod which then cell.mark else c.mark p := by
  cases which <;> rcases p with (_ | _ | _ | _) | _ | _ | _ | (_ | _) <;> rfl

theorem mark_enumCell (c : Cache F M I) (which : EnumMethod) :
    (c.enumCell which).mark = c.mark (.enumMethod which) := by
  cases which <;> rfl

theorem renews_enumMethod (c : Cache F M I) (m : Moment F M I) (which : EnumMethod) :
    c.Renews (c.stamp m)
      (if (c.enumMethod m which).2.2.any m.grants then [.enumMethod which] else [])
      (c.enumMethod m which).2.1 := by
  unfold enumMethod
  cases c.enumName? with
  | none => exact renews_of_current (by simp)
  | some name =>
    intro p
    have hr (rs : List Report) : (rs.map Event.report).any m.grants = false := by
      simp [Moment.grants]
    dsimp only
    rw [mark_setEnumCell, Cell.mark_fetch, mark_enumCell]
    by_cases hp : p = .enumMethod which
    · by_cases hl : (c.enumCell which).lacks (c.stamp m)
      · cases he : (m.create (which.text name)).result <;>
          simp [hp, hl, he, hr, Moment.grants, Except.map, Except.isOk, Except.toBool]
      · simp [hp, hl]
    · rw [if_neg hp]
      split <;> simp [hp]

theorem filter_isRead_readEvents (c : Cache F M I) (kind : MemberKind) :
    (c.readEvents kind).filter Event.isRead = c.readEvents kind := by
  unfold readEvents
  split <;> rfl

theorem count_readOwn_readEvents (c : Cache F M I) (kind : MemberKind) :
    (c.readEvents kind).count (.readOwn kind) = 1 := by
  unfold readEvents
  split <;> simp

theorem count_readAugments_readEvents (c : Cache F M I) (kind : MemberKind) :
    (c.readEvents kind).count (.readAugments kind) =
      if c.settings.collectAugments then 1 else 0 := by
  unfold readEvents
  split <;> simp

theorem filter_isRead_unnamedReports [Member α] (kind : MemberKind) (as : List α) :
    (c.unnamedReports kind as).filter Event.isRead = [] := by
  rw [unnamedReports, List.filter_map, List.map_eq_nil_iff, List.filter_eq_nil_iff]
  intro a _ h
  cases h

theorem filter_isRead_members {l : Listing α ι} {s : Stamp} {read : List α × List Event}
    {kind : MemberKind} (hr : read.2 = c.readEvents kind) :
    (l.members s read).2.2.filter Event.isRead =
      if l.list.mark.stamp = some s then [] else c.readEvents kind := by
  rw [Listing.filter_members, hr, filter_isRead_readEvents]

theorem filter_isRead_indexed {l : Listing α ι} {s : Stamp} {read : List α × List Event}
    {kind : MemberKind} (make : List α → ι × List Event)
    (hl : l.index.mark.stamp = some s → l.list.mark.stamp = some s)
    (hr : read.2 = c.readEvents kind) (hm : ∀ as, (make as).2.filter Event.isRead = []) :
    (l.indexed s read make).2.2.filter Event.isRead =
      if l.list.mark.stamp = some s then [] else c.readEvents kind := by
  rw [Listing.filter_indexed hl read make hm, hr, filter_isRead_readEvents]

theorem filter_isRead_listConstructors [MethodMember M] (hc : c.Closed (c.stamp m)) :
    (c.listConstructors m).2.2.filter Event.isRead =
      if (c.mark (.list .method)).stamp = some (c.stamp m) then [] else c.readEvents .method := by
  unfold listConstructors
  cases hcs : c.constructors.current (c.stamp m) with
  | some cs =>
    have hs : (c.mark (.list .constructor)).stamp = some (c.stamp m) :=
      Cell.mark_stamp_of_current hcs
    rw [if_pos (hc _ _ rfl hs)]
    rfl
  | none => exact filter_isRead_members (c.readMethods_snd m)

theorem filter_isRead_enumMethod (c : Cache F M I) (m : Moment F M I) (which : EnumMethod) :
    (c.enumMethod m which).2.2.filter Event.isRead = [] := by
  unfold enumMethod
  cases c.enumName? with
  | none => rfl
  | some name =>
    dsimp only
    split
    · rw [List.filter_eq_nil_iff]
      intro e he hr
      obtain rfl | ⟨r, -, rfl⟩ := by simpa using he
      · cases hr
      · cases hr
    · rfl

/-- The parts that a query takes at a moment; a method that is made from a template only if making
it is tried and succeeds. -/
def needs (c : Cache F M I) (m : Moment F M I) : Query → List Part
  | .enumMethod which => if (c.enumMethod m which).2.2.any m.grants then [.enumMethod which] else []
  | q => q.parts

variable [Member F] [MethodMember M] [Member I]

theorem renews_ask (hc : c.Closed (c.stamp m)) (q : Query) :
    c.Renews (c.stamp m) (c.needs m q) (c.ask m q).2.1 := by
  cases q with
  | constructors => exact renews_listConstructors hc
  | fields => exact renews_listFields c m
  | methods => exact renews_listMethods c m
  | innerTypes => exact renews_listInnerTypes c m
  | findField n bases =>
    cases bases with
    | true => exact renews_of_current (by simp [needs, Query.parts])
    | false => exact renews_fieldIndex hc
  | findMethods n bases =>
    cases bases with
    | true => exact renews_of_current (by simp [needs, Query.parts])
    | false => exact renews_methodIndex hc
  | findInnerType n bases =>
    cases bases with
    | true => exact renews_of_current (by simp [needs, Query.parts])
    | false => exact renews_innerTypeIndex hc
  | enumMethod which => exact renews_enumMethod c m which

/-- What a query reads: the list that it is about, unless that is kept already. -/
theorem filter_isRead_ask (hc : c.Closed (c.stamp m)) (q : Query) :
    (c.ask m q).2.2.filter Event.isRead =
      match q.kind? with
      | some kind =>
        if (c.mark (.list kind)).stamp = some (c.stamp m) then [] else c.readEvents kind
      | none => [] := by
  cases q with
  | constructors => exact filter_isRead_listConstructors hc
  | fields => exact filter_isRead_members (c.readFields_snd m)
  | methods => exact filter_isRead_members (c.readMethods_snd m)
  | innerTypes => exact filter_isRead_members (c.readInnerTypes_snd m)
  | findField n bases =>
    cases bases with
    | true => rfl
    | false =>
      exact filter_isRead_indexed c.indexFields (hc .fieldIndex _ rfl) (c.readFields_snd m)
        (filter_isRead_unnamedReports .field)
  | findMethods n bases =>
    cases bases with
    | true => rfl
    | false =>
      exact filter_isRead_indexed c.indexMethods (hc .methodIndex _ rfl) (c.readMethods_snd m)
        (filter_isRead_unnamedReports .method)
  | findInnerType n bases =>
    cases bases with
    | true => rfl
    | false =>
      exact filter_isRead_indexed c.indexInnerTypes (hc .innerTypeIndex _ rfl)
        (c.readInnerTypes_snd m) (filter_isRead_unnamedReports .innerType)
  | enumMethod which => exact c.filter_isRead_enumMethod m which

end Cache

end ClassModel
