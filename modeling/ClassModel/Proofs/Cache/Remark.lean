import ClassModel.Proofs.Cache.Part

namespace ClassModel

variable {F M I α ι β : Type}

namespace Listing

variable {l : Listing α ι} {s : Stamp} {read : List α × List β} {p : β → Bool}

theorem filter_members_eq_nil (hr : read.2.filter p = []) :
    (l.members s read).2.2.filter p = [] := by
  rw [filter_members, hr, ite_self]

theorem filter_indexed_of_read (make : List α → ι × List β) (hr : read.2.filter p = []) :
    (l.indexed s read make).2.2.filter p =
      if l.index.mark.stamp = some s then [] else (make (l.members s read).1).2.filter p := by
  unfold indexed
  cases hi : l.index.current s with
  | some ix => simp [Cell.mark_stamp_of_current hi]
  | none =>
    have hm : (l.members s read).2.2.filter p = [] := filter_members_eq_nil hr
    simp [Cell.mark_stamp_of_current_none hi, hm]

theorem current_members_self (l : Listing α ι) (s : Stamp) (read : List α × List β) :
    (l.members s read).2.1.list.current s = some (l.members s read).1 := by
  unfold members
  cases hc : l.list.current s with
  | some as => exact hc
  | none => exact if_pos rfl

/-- An index that has to be made is made from the list that is kept then. -/
theorem current_indexed_self (hi : l.index.mark.stamp ≠ some s) (read : List α × List β)
    (make : List α → ι × List β) :
    (l.indexed s read make).2.1.list.current s = some (l.members s read).1 := by
  unfold indexed
  cases hc : l.index.current s with
  | some ix => exact absurd (Cell.mark_stamp_of_current hc) hi
  | none => exact l.current_members_self s read

end Listing

def Query.lookup? : Query → Option (MemberKind × String)
  | .findField n false => some (.field, n)
  | .findMethods n false => some (.method, n)
  | .findInnerType n false => some (.innerType, n)
  | _ => none

theorem Query.lookup?_eq_some {q : Query} {kind : MemberKind} {n : String} :
    q.lookup? = some (kind, n) ↔ kind = .field ∧ q = .findField n false ∨
      kind = .method ∧ q = .findMethods n false ∨
      kind = .innerType ∧ q = .findInnerType n false := by
  cases q with
  | findField k bases | findMethods k bases | findInnerType k bases =>
    cases bases <;> simp [lookup?, eq_comm]
  | _ => simp [lookup?]

def MemberKind.index : MemberKind → Part
  | .field => .fieldIndex
  | .method | .constructor => .methodIndex
  | .innerType => .innerTypeIndex

theorem Query.index_mem_parts {q : Query} {kind : MemberKind} (hk : kind ≠ .constructor) :
    kind.index ∈ q.parts ↔ ∃ n, q.lookup? = some (kind, n) := by
  cases q with
  | findField n bases | findMethods n bases | findInnerType n bases =>
    cases bases <;> cases kind <;> simp_all [MemberKind.index, Query.parts, lookup?]
  | _ => cases kind <;> simp [MemberKind.index, Query.parts, lookup?]

def unnamedSpans [Member α] (as : List α) : List Span :=
  (as.filter fun a ↦ (Member.name? a).isNone).map Member.span

def Members.unnamed [Member F] [MethodMember M] [Member I] (v : Members F M I) :
    MemberKind → List Span
  | .field => unnamedSpans v.fields
  | .method | .constructor => unnamedSpans v.methods
  | .innerType => unnamedSpans v.innerTypes

namespace Cache

variable {c : Cache F M I} {kind : MemberKind}

def complaints (c : Cache F M I) (kind : MemberKind) (spans : List Span) : List Report :=
  spans.map fun s ↦
    .unnamedMember kind (c.owner.name.getD "<anonymous>") s c.owner.span
      c.settings.malformedSeverity

theorem unnamedReports_eq [Member α] (c : Cache F M I) (kind : MemberKind) (as : List α) :
    c.unnamedReports kind as = (c.complaints kind (unnamedSpans as)).map .report := by
  simp [unnamedReports, complaints, unnamedSpans]

theorem filter_not_isRead_readEvents (c : Cache F M I) (kind : MemberKind) :
    (c.readEvents kind).filter (fun e ↦ !e.isRead) = [] := by
  unfold readEvents
  split <;> rfl

theorem filter_not_isRead_report (rs : List Report) :
    (rs.map Event.report).filter (fun e ↦ !e.isRead) = rs.map .report := by
  rw [List.filter_eq_self]
  intro e he
  obtain ⟨r, -, rfl⟩ := List.mem_map.1 he
  rfl

theorem filter_not_isRead_members {l : Listing α ι} {s : Stamp} {read : List α × List Event}
    (hr : read.2 = c.readEvents kind) :
    (l.members s read).2.2.filter (fun e ↦ !e.isRead) = [] :=
  Listing.filter_members_eq_nil (hr ▸ c.filter_not_isRead_readEvents kind)

theorem filter_not_isRead_indexed [Member α] {l : Listing α ι} {s : Stamp}
    {read : List α × List Event} (make : List α → ι × List Event)
    (hm : ∀ as, (make as).2 = c.unnamedReports kind as) (hr : read.2 = c.readEvents kind) :
    (l.indexed s read make).2.2.filter (fun e ↦ !e.isRead) =
      (if l.index.mark.stamp = some s then []
        else c.complaints kind (unnamedSpans (l.members s read).1)).map .report := by
  rw [Listing.filter_indexed_of_read make (hr ▸ c.filter_not_isRead_readEvents kind), hm,
    unnamedReports_eq, filter_not_isRead_report, apply_ite (List.map Event.report)]
  rfl

theorem filter_not_isRead_listConstructors [MethodMember M] (c : Cache F M I)
    (m : Moment F M I) : (c.listConstructors m).2.2.filter (fun e ↦ !e.isRead) = [] := by
  unfold listConstructors
  cases c.constructors.current (c.stamp m) with
  | some cs => rfl
  | none => exact filter_not_isRead_members (c.readMethods_snd m)

theorem filter_not_isRead_enumMethod (c : Cache F M I) (m : Moment F M I) (which : EnumMethod) :
    (c.enumMethod m which).2.2.filter (fun e ↦ !e.isRead) = (c.enumMethod m which).2.2 := by
  unfold enumMethod
  cases c.enumName? with
  | none => rfl
  | some name =>
    dsimp only
    split
    · exact congrArg _ (filter_not_isRead_report _)
    · rfl

variable [Member F] [MethodMember M] [Member I] {m : Moment F M I}

def listed (c : Cache F M I) (m : Moment F M I) : Members F M I :=
  ⟨(c.listFields m).1, (c.listMethods m).1, (c.listInnerTypes m).1⟩

/-- The reports that a lookup of a kind makes: none if the index that it looks into is current. -/
def due (c : Cache F M I) (m : Moment F M I) (kind : MemberKind) : List Report :=
  if (c.mark kind.index).stamp = some (c.stamp m) then []
  else c.complaints kind ((c.listed m).unnamed kind)

def remarks (c : Cache F M I) (m : Moment F M I) : Query → List Event
  | .findField n true => [.inherit .field n]
  | .findMethods n true => [.inherit .method n]
  | .findInnerType n true => [.inherit .innerType n]
  | .findField _ false => (c.due m .field).map .report
  | .findMethods _ false => (c.due m .method).map .report
  | .findInnerType _ false => (c.due m .innerType).map .report
  | .enumMethod which => (c.enumMethod m which).2.2
  | .constructors | .fields | .methods | .innerTypes => []

theorem filter_not_isRead_ask (c : Cache F M I) (m : Moment F M I) (q : Query) :
    (c.ask m q).2.2.filter (fun e ↦ !e.isRead) = c.remarks m q := by
  cases q with
  | constructors => exact c.filter_not_isRead_listConstructors m
  | fields => exact filter_not_isRead_members (c.readFields_snd m)
  | methods => exact filter_not_isRead_members (c.readMethods_snd m)
  | innerTypes => exact filter_not_isRead_members (c.readInnerTypes_snd m)
  | findField n bases =>
    cases bases with
    | true => rfl
    | false =>
      exact filter_not_isRead_indexed c.indexFields (fun _ ↦ rfl) (c.readFields_snd m)
  | findMethods n bases =>
    cases bases with
    | true => rfl
    | false =>
      exact filter_not_isRead_indexed c.indexMethods (fun _ ↦ rfl) (c.readMethods_snd m)
  | findInnerType n bases =>
    cases bases with
    | true => rfl
    | false =>
      exact filter_not_isRead_indexed c.indexInnerTypes (fun _ ↦ rfl) (c.readInnerTypes_snd m)
  | enumMethod which => exact c.filter_not_isRead_enumMethod m which

theorem mem_ask_iff_remarks {e : Event} (he : e.isRead = false) {q : Query} :
    e ∈ (c.ask m q).2.2 ↔ e ∈ c.remarks m q := by
  rw [← filter_not_isRead_ask, List.mem_filter]
  simp [he]

theorem create_mem_ask {text : String} {q : Query} (he : .create text ∈ (c.ask m q).2.2) :
    c.enumName? ≠ none ∧ ∃ which, q = .enumMethod which := by
  have hr := (mem_ask_iff_remarks rfl).1 he
  cases q with
  | constructors | fields | methods | innerTypes => cases hr
  | findField n bases | findMethods n bases | findInnerType n bases =>
    cases bases <;> simp [remarks] at hr
  | enumMethod which =>
    refine ⟨fun hname ↦ ?_, which, rfl⟩
    simp [remarks, enumMethod, hname] at hr

end Cache

end ClassModel
