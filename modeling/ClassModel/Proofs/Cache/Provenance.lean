import ClassModel.Cache.Basic
import ClassModel.Proofs.Cache.Lookup

namespace ClassModel

variable {F M I α ι β : Type}

def Cell.Holds (P : Stamp → α → Prop) (c : Cell α) : Prop :=
  ∀ s a, c.current s = some a → P s a

namespace Cell

theorem holds_empty (P : Stamp → α → Prop) : (empty : Cell α).Holds P := by
  intro s a h
  simp at h

theorem holds_store {P : Stamp → α → Prop} (c : Cell α) {s : Stamp} {a : α} (h : P s a) :
    (c.store s a).Holds P := by
  intro t b hb
  rw [current_store] at hb
  split at hb
  · next hst =>
    obtain rfl := Option.some.inj hb
    exact hst ▸ h
  · cases hb

theorem Holds.mono {P Q : Stamp → α → Prop} {c : Cell α} (h : c.Holds P)
    (hPQ : ∀ s a, P s a → Q s a) : c.Holds Q :=
  fun s a hc ↦ hPQ s a (h s a hc)

end Cell

/-- Whether a kept list stands in the relation `R` to its stamp, and a kept index has been made from
such a list. -/
structure Listing.Holds (R : Stamp → List α → Prop) (make : List α → ι) (l : Listing α ι) :
    Prop where
  list : l.list.Holds R
  index : l.index.Holds fun s ix ↦ ∃ as, R s as ∧ make as = ix

namespace Listing

theorem holds_empty (R : Stamp → List α → Prop) (make : List α → ι) :
    (empty : Listing α ι).Holds R make :=
  ⟨Cell.holds_empty _, Cell.holds_empty _⟩

variable {R S : Stamp → List α → Prop} {l : Listing α ι} {s : Stamp}

theorem Holds.mono {make : List α → ι} (h : l.Holds R make) (hRS : ∀ s as, R s as → S s as) :
    l.Holds S make :=
  ⟨h.list.mono hRS, h.index.mono fun s _ ⟨as, hR, he⟩ ↦ ⟨as, hRS s as hR, he⟩⟩

theorem Holds.members {make : List α → ι} (h : l.Holds R make) (read : List α × List β)
    (hr : l.list.current s = none → R s read.1) :
    R s (l.members s read).1 ∧ (l.members s read).2.1.Holds R make := by
  unfold Listing.members
  cases hc : l.list.current s with
  | some as => exact ⟨h.list s as hc, h⟩
  | none => exact ⟨hr hc, Cell.holds_store _ (hr hc), h.index⟩

theorem Holds.indexed (make : List α → ι × List β) (h : l.Holds R fun as ↦ (make as).1)
    (read : List α × List β)
    (hr : l.index.current s = none → l.list.current s = none → R s read.1) :
    (∃ as, R s as ∧ (make as).1 = (l.indexed s read make).1) ∧
      (l.indexed s read make).2.1.Holds R fun as ↦ (make as).1 := by
  unfold Listing.indexed
  cases hc : l.index.current s with
  | some ix => exact ⟨h.index s ix hc, h⟩
  | none =>
    obtain ⟨hR, hl⟩ := h.members read (hr hc)
    have hm : ∃ as, R s as ∧ (make as).1 = (make (l.members s read).1).1 := ⟨_, hR, rfl⟩
    exact ⟨hm, hl.list, Cell.holds_store _ hm⟩

theorem events_members {read : List α × List β} (hc : l.list.current s = none) :
    (l.members s read).2.2 = read.2 := by
  simp [Listing.members, hc]

theorem mem_events_indexed (make : List α → ι × List β) {read : List α × List β} {e : β}
    (hi : l.index.current s = none) (hc : l.list.current s = none) (he : e ∈ read.2) :
    e ∈ (l.indexed s read make).2.2 := by
  simp [Listing.indexed, Listing.members, hi, hc, he]

end Listing

def Members.append (v w : Members F M I) : Members F M I :=
  ⟨v.fields ++ w.fields, v.methods ++ w.methods, v.innerTypes ++ w.innerTypes⟩

/-- The members that there are to be listed: those of the owner, and behind them those defined
outside of it if they count. -/
def Moment.merged (settings : Settings) (m : Moment F M I) : Members F M I :=
  if settings.collectAugments then m.own.append m.augments else m.own

namespace Cache

theorem collect_fst (c : Cache F M I) (kind : MemberKind) (own augments : List α) :
    (c.collect kind own augments).1 =
      if c.settings.collectAugments then own ++ augments else own := by
  unfold collect
  split <;> rfl

def readEvents (c : Cache F M I) (kind : MemberKind) : List Event :=
  if c.settings.collectAugments then [.readOwn kind, .readAugments kind] else [.readOwn kind]

theorem readOwn_mem_readEvents (c : Cache F M I) (kind : MemberKind) :
    .readOwn kind ∈ c.readEvents kind := by
  unfold readEvents
  split <;> simp

theorem kind_eq_of_mem_readEvents {c : Cache F M I} {e : Event} {kind kind' : MemberKind}
    (he : e = .readOwn kind ∨ e = .readAugments kind) (h : e ∈ c.readEvents kind') :
    kind = kind' := by
  unfold readEvents at h
  rcases he with rfl | rfl
  · split at h <;> simpa using h
  · split at h
    · simpa using h
    · simp at h

theorem collect_snd (c : Cache F M I) (kind : MemberKind) (own augments : List α) :
    (c.collect kind own augments).2 = c.readEvents kind := by
  unfold collect readEvents
  split <;> rfl

theorem readFields_fst (c : Cache F M I) (m : Moment F M I) :
    (c.readFields m).1 = (m.merged c.settings).fields := by
  rw [readFields, collect_fst, Moment.merged]
  split <;> rfl

theorem readFields_snd (c : Cache F M I) (m : Moment F M I) :
    (c.readFields m).2 = c.readEvents .field :=
  c.collect_snd .field _ _

theorem readMethods_fst (c : Cache F M I) (m : Moment F M I) :
    (c.readMethods m).1 = (m.merged c.settings).methods := by
  rw [readMethods, collect_fst, Moment.merged]
  split <;> rfl

theorem readMethods_snd (c : Cache F M I) (m : Moment F M I) :
    (c.readMethods m).2 = c.readEvents .method :=
  c.collect_snd .method _ _

theorem readInnerTypes_fst (c : Cache F M I) (m : Moment F M I) :
    (c.readInnerTypes m).1 = (m.merged c.settings).innerTypes := by
  rw [readInnerTypes, collect_fst, Moment.merged]
  split <;> rfl

theorem readInnerTypes_snd (c : Cache F M I) (m : Moment F M I) :
    (c.readInnerTypes m).2 = c.readEvents .innerType :=
  c.collect_snd .innerType _ _

def indexFields [Member F] (c : Cache F M I) (fs : List F) : Index F × List Event :=
  (.preferred fs, c.unnamedReports .field fs)

def indexMethods [MethodMember M] (c : Cache F M I) (ms : List M) :
    Index (List M) × List Event :=
  (.grouped ms, c.unnamedReports .method ms)

def indexInnerTypes [Member I] (c : Cache F M I) (is : List I) : Index I × List Event :=
  (.preferred is, c.unnamedReports .innerType is)

theorem fieldIndex_eq [Member F] (c : Cache F M I) (m : Moment F M I) :
    c.fieldIndex m =
      (c.fields.indexed (c.stamp m) (c.readFields m) c.indexFields).map id
        fun r ↦ ({ c with fields := r.1 }, r.2) := rfl

theorem methodIndex_eq [MethodMember M] (c : Cache F M I) (m : Moment F M I) :
    c.methodIndex m =
      (c.methods.indexed (c.stamp m) (c.readMethods m) c.indexMethods).map id
        fun r ↦ ({ c with methods := r.1 }, r.2) := rfl

theorem innerTypeIndex_eq [Member I] (c : Cache F M I) (m : Moment F M I) :
    c.innerTypeIndex m =
      (c.innerTypes.indexed (c.stamp m) (c.readInnerTypes m) c.indexInnerTypes).map id
        fun r ↦ ({ c with innerTypes := r.1 }, r.2) := rfl

end Cache

def Query.kind? : Query → Option MemberKind
  | .fields | .findField _ false => some .field
  | .constructors | .methods | .findMethods _ false => some .method
  | .innerTypes | .findInnerType _ false => some .innerType
  | .findField _ true | .findMethods _ true | .findInnerType _ true | .enumMethod _ => none

variable [Member F] [MethodMember M] [Member I]

/-- The answer to a query about a class with the members `v`, as far as these alone decide it. -/
def Members.answer? (v : Members F M I) : Query → Option (Answer F M I)
  | .constructors => some (.methods (v.methods.filter MethodMember.isConstructor))
  | .fields => some (.fields v.fields)
  | .methods => some (.methods v.methods)
  | .innerTypes => some (.innerTypes v.innerTypes)
  | .findField n false => some (.field (Index.winner n v.fields))
  | .findMethods n false => some (.methods (v.methods.filter (Index.bears n)))
  | .findInnerType n false => some (.innerType (Index.winner n v.innerTypes))
  | .findField _ true | .findMethods _ true | .findInnerType _ true | .enumMethod _ => Option.none

theorem Members.answer?_eq_none {v : Members F M I} {q : Query} (hq : q.kind? = .none) :
    v.answer? q = Option.none := by
  cases q with
  | constructors | fields | methods | innerTypes => cases hq
  | findField n bases | findMethods n bases | findInnerType n bases =>
    cases bases with
    | true => rfl
    | false => cases hq
  | enumMethod which => rfl

namespace Cache

/-- Whether everything that a cache keeps has been made from members that `seen` relates to its
stamp, as members of the kind in question. Different things that are kept may stem from different
members. -/
structure StemsFrom (seen : MemberKind → Stamp → Members F M I → Prop) (c : Cache F M I) :
    Prop where
  constructors : c.constructors.Holds fun s cs ↦
    ∃ v, seen .method s v ∧ v.methods.filter MethodMember.isConstructor = cs
  fields : c.fields.Holds (fun s fs ↦ ∃ v, seen .field s v ∧ v.fields = fs) Index.preferred
  methods : c.methods.Holds (fun s ms ↦ ∃ v, seen .method s v ∧ v.methods = ms) Index.grouped
  innerTypes :
    c.innerTypes.Holds (fun s is ↦ ∃ v, seen .innerType s v ∧ v.innerTypes = is) Index.preferred

section

variable {seen seen' : MemberKind → Stamp → Members F M I → Prop} {c : Cache F M I}
  {m : Moment F M I}

theorem stemsFrom_new (seen : MemberKind → Stamp → Members F M I → Prop) (owner : Owner)
    (settings : Settings) : (new owner settings : Cache F M I).StemsFrom seen :=
  ⟨Cell.holds_empty _, Listing.holds_empty _ _, Listing.holds_empty _ _, Listing.holds_empty _ _⟩

theorem StemsFrom.mono (h : c.StemsFrom seen) (hs : ∀ kind s v, seen kind s v → seen' kind s v) :
    c.StemsFrom seen' where
  constructors := h.constructors.mono fun s _ ⟨v, hv, he⟩ ↦ ⟨v, hs _ s v hv, he⟩
  fields := h.fields.mono fun s _ ⟨v, hv, he⟩ ↦ ⟨v, hs _ s v hv, he⟩
  methods := h.methods.mono fun s _ ⟨v, hv, he⟩ ↦ ⟨v, hs _ s v hv, he⟩
  innerTypes := h.innerTypes.mono fun s _ ⟨v, hv, he⟩ ↦ ⟨v, hs _ s v hv, he⟩

theorem StemsFrom.drop (h : c.StemsFrom seen) : c.drop.StemsFrom seen :=
  ⟨h.constructors, h.fields, h.methods, h.innerTypes⟩

theorem StemsFrom.listFields (h : c.StemsFrom seen)
    (hm : c.readEvents .field ⊆ (c.listFields m).2.2 →
      seen .field (c.stamp m) (m.merged c.settings)) :
    (∃ v, seen .field (c.stamp m) v ∧ v.fields = (c.listFields m).1) ∧
      (c.listFields m).2.1.StemsFrom seen := by
  obtain ⟨hv, hl⟩ := h.fields.members (c.readFields m) fun hc ↦ by
    refine ⟨_, hm fun e he ↦ ?_, (c.readFields_fst m).symm⟩
    have hes : (c.listFields m).2.2 = (c.readFields m).2 := Listing.events_members hc
    rwa [hes, readFields_snd]
  exact ⟨hv, h.constructors, hl, h.methods, h.innerTypes⟩

theorem StemsFrom.listMethods (h : c.StemsFrom seen)
    (hm : c.readEvents .method ⊆ (c.listMethods m).2.2 →
      seen .method (c.stamp m) (m.merged c.settings)) :
    (∃ v, seen .method (c.stamp m) v ∧ v.methods = (c.listMethods m).1) ∧
      (c.listMethods m).2.1.StemsFrom seen := by
  obtain ⟨hv, hl⟩ := h.methods.members (c.readMethods m) fun hc ↦ by
    refine ⟨_, hm fun e he ↦ ?_, (c.readMethods_fst m).symm⟩
    have hes : (c.listMethods m).2.2 = (c.readMethods m).2 := Listing.events_members hc
    rwa [hes, readMethods_snd]
  exact ⟨hv, h.constructors, h.fields, hl, h.innerTypes⟩

theorem StemsFrom.listInnerTypes (h : c.StemsFrom seen)
    (hm : c.readEvents .innerType ⊆ (c.listInnerTypes m).2.2 →
      seen .innerType (c.stamp m) (m.merged c.settings)) :
    (∃ v, seen .innerType (c.stamp m) v ∧ v.innerTypes = (c.listInnerTypes m).1) ∧
      (c.listInnerTypes m).2.1.StemsFrom seen := by
  obtain ⟨hv, hl⟩ := h.innerTypes.members (c.readInnerTypes m) fun hc ↦ by
    refine ⟨_, hm fun e he ↦ ?_, (c.readInnerTypes_fst m).symm⟩
    have hes : (c.listInnerTypes m).2.2 = (c.readInnerTypes m).2 := Listing.events_members hc
    rwa [hes, readInnerTypes_snd]
  exact ⟨hv, h.constructors, h.fields, h.methods, hl⟩

theorem StemsFrom.listConstructors (h : c.StemsFrom seen)
    (hm : c.readEvents .method ⊆ (c.listConstructors m).2.2 →
      seen .method (c.stamp m) (m.merged c.settings)) :
    (∃ v, seen .method (c.stamp m) v ∧
      v.methods.filter MethodMember.isConstructor = (c.listConstructors m).1) ∧
      (c.listConstructors m).2.1.StemsFrom seen := by
  unfold Cache.listConstructors at hm ⊢
  cases hc : c.constructors.current (c.stamp m) with
  | some cs => exact ⟨h.constructors _ cs hc, h⟩
  | none =>
    rw [hc] at hm
    obtain ⟨⟨v, hv, he⟩, h'⟩ := h.listMethods hm
    have hcs : ∃ w, seen .method (c.stamp m) w ∧ w.methods.filter MethodMember.isConstructor =
        (c.listMethods m).1.filter MethodMember.isConstructor := ⟨v, hv, by rw [he]⟩
    exact ⟨hcs, Cell.holds_store _ hcs, h'.fields, h'.methods, h'.innerTypes⟩

theorem StemsFrom.fieldIndex (h : c.StemsFrom seen)
    (hm : c.readEvents .field ⊆ (c.fieldIndex m).2.2 →
      seen .field (c.stamp m) (m.merged c.settings)) :
    (∃ v, seen .field (c.stamp m) v ∧ Index.preferred v.fields = (c.fieldIndex m).1) ∧
      (c.fieldIndex m).2.1.StemsFrom seen := by
  obtain ⟨⟨_, ⟨v, hv, rfl⟩, he⟩, hl⟩ := h.fields.indexed c.indexFields (c.readFields m)
      fun hi hc ↦ by
    refine ⟨_, hm fun e he ↦ ?_, (c.readFields_fst m).symm⟩
    have hr : e ∈ (c.readFields m).2 := by rwa [readFields_snd]
    exact Listing.mem_events_indexed c.indexFields hi hc hr
  exact ⟨⟨v, hv, he⟩, h.constructors, hl, h.methods, h.innerTypes⟩

theorem StemsFrom.methodIndex (h : c.StemsFrom seen)
    (hm : c.readEvents .method ⊆ (c.methodIndex m).2.2 →
      seen .method (c.stamp m) (m.merged c.settings)) :
    (∃ v, seen .method (c.stamp m) v ∧ Index.grouped v.methods = (c.methodIndex m).1) ∧
      (c.methodIndex m).2.1.StemsFrom seen := by
  obtain ⟨⟨_, ⟨v, hv, rfl⟩, he⟩, hl⟩ := h.methods.indexed c.indexMethods (c.readMethods m)
      fun hi hc ↦ by
    refine ⟨_, hm fun e he ↦ ?_, (c.readMethods_fst m).symm⟩
    have hr : e ∈ (c.readMethods m).2 := by rwa [readMethods_snd]
    exact Listing.mem_events_indexed c.indexMethods hi hc hr
  exact ⟨⟨v, hv, he⟩, h.constructors, h.fields, hl, h.innerTypes⟩

theorem StemsFrom.innerTypeIndex (h : c.StemsFrom seen)
    (hm : c.readEvents .innerType ⊆ (c.innerTypeIndex m).2.2 →
      seen .innerType (c.stamp m) (m.merged c.settings)) :
    (∃ v, seen .innerType (c.stamp m) v ∧ Index.preferred v.innerTypes = (c.innerTypeIndex m).1) ∧
      (c.innerTypeIndex m).2.1.StemsFrom seen := by
  obtain ⟨⟨_, ⟨v, hv, rfl⟩, he⟩, hl⟩ :=
    h.innerTypes.indexed c.indexInnerTypes (c.readInnerTypes m) fun hi hc ↦ by
      refine ⟨_, hm fun e he ↦ ?_, (c.readInnerTypes_fst m).symm⟩
      have hr : e ∈ (c.readInnerTypes m).2 := by rwa [readInnerTypes_snd]
      exact Listing.mem_events_indexed c.indexInnerTypes hi hc hr
  exact ⟨⟨v, hv, he⟩, h.constructors, h.fields, h.methods, hl⟩

/-- Making a method from a template leaves all lists and indexes alone. -/
theorem StemsFrom.enumMethod (h : c.StemsFrom seen) (m : Moment F M I)
    (which : EnumMethod) : (c.enumMethod m which).2.1.StemsFrom seen := by
  unfold Cache.enumMethod
  cases c.enumName? with
  | none => exact h
  | some name => cases which <;> exact ⟨h.constructors, h.fields, h.methods, h.innerTypes⟩

/-- A query keeps only what stems from members seen at the present stamp, and such members also
give the answer. The present members need to count as seen only if the query reads them. -/
theorem StemsFrom.ask (h : c.StemsFrom seen) {m : Moment F M I} (q : Query)
    (hm : ∀ kind, c.readEvents kind ⊆ (c.ask m q).2.2 →
      seen kind (c.stamp m) (m.merged c.settings)) :
    (∀ kind, q.kind? = some kind →
      ∃ v, seen kind (c.stamp m) v ∧ v.answer? q = some (c.ask m q).1) ∧
      (c.ask m q).2.1.StemsFrom seen := by
  cases q with
  | constructors =>
    obtain ⟨⟨v, hv, he⟩, h'⟩ := h.listConstructors (hm .method)
    refine ⟨fun kind hk ↦ ?_, h'⟩
    obtain rfl := Option.some.inj hk
    exact ⟨v, hv, congrArg (some ∘ Answer.methods) he⟩
  | fields =>
    obtain ⟨⟨v, hv, he⟩, h'⟩ := h.listFields (hm .field)
    refine ⟨fun kind hk ↦ ?_, h'⟩
    obtain rfl := Option.some.inj hk
    exact ⟨v, hv, congrArg (some ∘ Answer.fields) he⟩
  | methods =>
    obtain ⟨⟨v, hv, he⟩, h'⟩ := h.listMethods (hm .method)
    refine ⟨fun kind hk ↦ ?_, h'⟩
    obtain rfl := Option.some.inj hk
    exact ⟨v, hv, congrArg (some ∘ Answer.methods) he⟩
  | innerTypes =>
    obtain ⟨⟨v, hv, he⟩, h'⟩ := h.listInnerTypes (hm .innerType)
    refine ⟨fun kind hk ↦ ?_, h'⟩
    obtain rfl := Option.some.inj hk
    exact ⟨v, hv, congrArg (some ∘ Answer.innerTypes) he⟩
  | findField n bases =>
    cases bases with
    | true => exact ⟨(fun kind hk ↦ by cases hk), h⟩
    | false =>
      obtain ⟨⟨v, hv, he⟩, h'⟩ := h.fieldIndex (hm .field)
      refine ⟨fun kind hk ↦ ?_, h'⟩
      obtain rfl := Option.some.inj hk
      have hn : Index.winner n v.fields = List.lookup n (c.fieldIndex m).1 := by
        rw [← he, Index.lookup_preferred]
      exact ⟨v, hv, congrArg (some ∘ Answer.field) hn⟩
  | findMethods n bases =>
    cases bases with
    | true => exact ⟨(fun kind hk ↦ by cases hk), h⟩
    | false =>
      obtain ⟨⟨v, hv, he⟩, h'⟩ := h.methodIndex (hm .method)
      refine ⟨fun kind hk ↦ ?_, h'⟩
      obtain rfl := Option.some.inj hk
      have hn : v.methods.filter (Index.bears n) =
          (List.lookup n (c.methodIndex m).1).getD [] := by
        rw [← he, Index.lookup_grouped]
      exact ⟨v, hv, congrArg (some ∘ Answer.methods) hn⟩
  | findInnerType n bases =>
    cases bases with
    | true => exact ⟨(fun kind hk ↦ by cases hk), h⟩
    | false =>
      obtain ⟨⟨v, hv, he⟩, h'⟩ := h.innerTypeIndex (hm .innerType)
      refine ⟨fun kind hk ↦ ?_, h'⟩
      obtain rfl := Option.some.inj hk
      have hn : Index.winner n v.innerTypes = List.lookup n (c.innerTypeIndex m).1 := by
        rw [← he, Index.lookup_preferred]
      exact ⟨v, hv, congrArg (some ∘ Answer.innerType) hn⟩
  | enumMethod which => exact ⟨(fun kind hk ↦ by cases hk), h.enumMethod m which⟩

end

structure DerivedFrom (seen : Stamp → Members F M I → Prop) (c : Cache F M I) : Prop where
  constructors : c.constructors.Holds fun s cs ↦
    ∃ v, seen s v ∧ v.methods.filter MethodMember.isConstructor = cs
  fields : c.fields.Holds (fun s fs ↦ ∃ v, seen s v ∧ v.fields = fs) Index.preferred
  methods : c.methods.Holds (fun s ms ↦ ∃ v, seen s v ∧ v.methods = ms) Index.grouped
  innerTypes : c.innerTypes.Holds (fun s is ↦ ∃ v, seen s v ∧ v.innerTypes = is) Index.preferred

section

variable {seen seen' : Stamp → Members F M I → Prop} {c : Cache F M I}

theorem derivedFrom_iff : c.DerivedFrom seen ↔ c.StemsFrom fun _ ↦ seen :=
  ⟨fun h ↦ ⟨h.constructors, h.fields, h.methods, h.innerTypes⟩,
    fun h ↦ ⟨h.constructors, h.fields, h.methods, h.innerTypes⟩⟩

theorem derivedFrom_new (seen : Stamp → Members F M I → Prop) (owner : Owner)
    (settings : Settings) : (new owner settings : Cache F M I).DerivedFrom seen :=
  derivedFrom_iff.2 (stemsFrom_new _ owner settings)

theorem DerivedFrom.mono (h : c.DerivedFrom seen) (hs : ∀ s v, seen s v → seen' s v) :
    c.DerivedFrom seen' :=
  derivedFrom_iff.2 ((derivedFrom_iff.1 h).mono fun _ ↦ hs)

/-- If the present members count as seen, a query is answered from members that do, and keeps only
what stems from such members. -/
theorem DerivedFrom.ask (h : c.DerivedFrom seen) {m : Moment F M I}
    (hm : seen (c.stamp m) (m.merged c.settings)) (q : Query) :
    (∃ v, seen (c.stamp m) v ∧ ∀ a, v.answer? q = some a → (c.ask m q).1 = a) ∧
      (c.ask m q).2.1.DerivedFrom seen := by
  obtain ⟨hv, h'⟩ := (derivedFrom_iff.1 h).ask q fun _ _ ↦ hm
  refine ⟨?_, derivedFrom_iff.2 h'⟩
  cases hk : q.kind? with
  | none => exact ⟨_, hm, fun a ha ↦ by simp [Members.answer?_eq_none hk] at ha⟩
  | some kind =>
    obtain ⟨v, hs, he⟩ := hv kind hk
    exact ⟨v, hs, fun a ha ↦ Option.some.inj (he.symm.trans ha)⟩

end

end Cache

end ClassModel
