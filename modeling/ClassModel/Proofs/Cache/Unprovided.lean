import ClassModel.Proofs.Cache.Work

namespace ClassModel

variable {F M I α ι β : Type}

def Moment.unprovided (m : Moment F M I) : Moment F M I := { m with augments := .none }

def Turn.unprovided : Turn F M I → Turn F M I
  | .move m => .move m.unprovided
  | .drop => .drop
  | .ask q => .ask q

def Event.isWithin : Event → Bool
  | .readAugments _ => false
  | _ => true

namespace Listing

variable (l : Listing α ι) (s : Stamp) (read : List α × List β) (p : β → Bool)

theorem members_filter :
    l.members s (read.1, read.2.filter p) =
      ((l.members s read).1, (l.members s read).2.1, (l.members s read).2.2.filter p) := by
  unfold members
  cases l.list.current s with
  | some as => rfl
  | none => rfl

theorem indexed_filter {make : List α → ι × List β}
    (hm : ∀ as, (make as).2.filter p = (make as).2) :
    l.indexed s (read.1, read.2.filter p) make =
      ((l.indexed s read make).1, (l.indexed s read make).2.1,
        (l.indexed s read make).2.2.filter p) := by
  unfold indexed
  cases l.index.current s with
  | some ix => rfl
  | none => simp only [members_filter, List.filter_append, hm]

end Listing

namespace Cache

def collecting (b : Bool) (c : Cache F M I) : Cache F M I :=
  { c with settings := { c.settings with collectAugments := b } }

def withhold (r : α × Cache F M I × List Event) : α × Cache F M I × List Event :=
  (r.1, r.2.1.collecting false, r.2.2.filter Event.isWithin)

variable {c : Cache F M I} (m : Moment F M I)

theorem collect_withheld (hc : c.settings.collectAugments = true) (kind : MemberKind)
    (own augments : List α) :
    (c.collecting false).collect kind own augments =
      ((c.collect kind own []).1, (c.collect kind own []).2.filter Event.isWithin) := by
  simp only [collect, collecting, hc, if_true, List.append_nil]
  rfl

theorem members_withheld (hc : c.settings.collectAugments = true) (l : Listing α ι) (s : Stamp)
    (kind : MemberKind) (own augments : List α) :
    let r := l.members s (c.collect kind own [])
    l.members s ((c.collecting false).collect kind own augments) =
      (r.1, r.2.1, r.2.2.filter Event.isWithin) := by
  rw [collect_withheld hc]
  exact l.members_filter s (c.collect kind own []) Event.isWithin

theorem filter_isWithin_unnamedReports [Member α] (c : Cache F M I) (kind : MemberKind)
    (as : List α) :
    (c.unnamedReports kind as).filter Event.isWithin = c.unnamedReports kind as := by
  rw [List.filter_eq_self]
  intro e he
  obtain ⟨a, -, rfl⟩ := List.mem_map.1 he
  rfl

theorem indexed_withheld [Member α] (hc : c.settings.collectAugments = true) (l : Listing α ι)
    (s : Stamp) (kind : MemberKind) (own augments : List α) (make : List α → ι) :
    let r := l.indexed s (c.collect kind own []) fun as ↦ (make as, c.unnamedReports kind as)
    l.indexed s ((c.collecting false).collect kind own augments)
        (fun as ↦ (make as, c.unnamedReports kind as)) =
      (r.1, r.2.1, r.2.2.filter Event.isWithin) := by
  rw [collect_withheld hc]
  exact l.indexed_filter s (c.collect kind own []) Event.isWithin
    fun as ↦ c.filter_isWithin_unnamedReports kind as

theorem listMethods_withheld (hc : c.settings.collectAugments = true) :
    (c.collecting false).listMethods m = withhold (c.listMethods m.unprovided) :=
  congrArg (fun r ↦ (r.1, { c.collecting false with methods := r.2.1 }, r.2.2))
    (members_withheld hc c.methods (c.stamp m) .method m.own.methods m.augments.methods)

theorem listConstructors_withheld [MethodMember M] (hc : c.settings.collectAugments = true) :
    (c.collecting false).listConstructors m = withhold (c.listConstructors m.unprovided) := by
  have hcell : (c.collecting false).constructors = c.constructors := rfl
  have hstamp : (c.collecting false).stamp m = c.stamp m.unprovided := rfl
  unfold listConstructors
  rw [hcell, hstamp, listMethods_withheld m hc]
  cases c.constructors.current (c.stamp m.unprovided) <;> rfl

theorem enumMethod_withheld (which : EnumMethod) :
    (c.collecting false).enumMethod m which = withhold (c.enumMethod m.unprovided which) := by
  have hname : (c.collecting false).enumName? = c.enumName? := rfl
  unfold enumMethod
  rw [hname]
  cases c.enumName? with
  | none => rfl
  | some name =>
    have hreports (rs : List Report) : (rs.map Event.report).filter Event.isWithin =
        rs.map Event.report := by
      rw [List.filter_eq_self]
      intro e he
      obtain ⟨r, -, rfl⟩ := List.mem_map.1 he
      rfl
    have hset (cell : Cell (Synthetic M)) : (c.collecting false).setEnumCell cell which =
        (c.setEnumCell cell which).collecting false := by
      cases which <;> rfl
    have hcell : (c.collecting false).enumCell which = c.enumCell which := by
      cases which <;> rfl
    have hstamp : (c.collecting false).stamp m = c.stamp m.unprovided := rfl
    dsimp only [withhold]
    rw [hset, hcell, hstamp]
    split
    · rw [List.filter_cons_of_pos rfl, hreports]
      rfl
    · rfl

variable [Member F] [MethodMember M] [Member I]

theorem ask_withheld (hc : c.settings.collectAugments = true) (q : Query) :
    (c.collecting false).ask m q = withhold (c.ask m.unprovided q) := by
  cases q with
  | constructors =>
    rw [ask, listConstructors_withheld m hc]
    rfl
  | fields =>
    exact congrArg (fun r ↦ (Answer.fields r.1, { c.collecting false with fields := r.2.1 }, r.2.2))
      (members_withheld hc c.fields (c.stamp m) .field m.own.fields m.augments.fields)
  | methods =>
    rw [ask, listMethods_withheld m hc]
    rfl
  | innerTypes =>
    exact congrArg
      (fun r ↦ (Answer.innerTypes r.1, { c.collecting false with innerTypes := r.2.1 }, r.2.2))
      (members_withheld hc c.innerTypes (c.stamp m) .innerType m.own.innerTypes
        m.augments.innerTypes)
  | findField n bases =>
    cases bases with
    | true => rfl
    | false =>
      exact congrArg
        (fun r : Index F × Listing F (Index F) × List Event ↦
          (Answer.field (r.1.lookup n), { c.collecting false with fields := r.2.1 }, r.2.2))
        (indexed_withheld hc c.fields (c.stamp m) .field m.own.fields m.augments.fields
          Index.preferred)
  | findMethods n bases =>
    cases bases with
    | true => rfl
    | false =>
      exact congrArg
        (fun r : Index (List M) × Listing M (Index (List M)) × List Event ↦
          (Answer.methods ((r.1.lookup n).getD []), { c.collecting false with methods := r.2.1 },
            r.2.2))
        (indexed_withheld hc c.methods (c.stamp m) .method m.own.methods m.augments.methods
          Index.grouped)
  | findInnerType n bases =>
    cases bases with
    | true => rfl
    | false =>
      exact congrArg
        (fun r : Index I × Listing I (Index I) × List Event ↦
          (Answer.innerType (r.1.lookup n), { c.collecting false with innerTypes := r.2.1 }, r.2.2))
        (indexed_withheld hc c.innerTypes (c.stamp m) .innerType m.own.innerTypes
          m.augments.innerTypes Index.preferred)
  | enumMethod which =>
    rw [ask, enumMethod_withheld]
    rfl

end Cache

structure Sight (F M I : Type) where
  answer : Option (Answer F M I)
  events : List Event
  computations : Nat

def Sight.within (s : Sight F M I) : Sight F M I :=
  { s with events := s.events.filter Event.isWithin }

variable [Member F] [MethodMember M] [Member I]

namespace Hosted

def sight (h : Hosted F M I) (t : Turn F M I) : Sight F M I :=
  ⟨(h.exchange? t).map Exchange.answer, h.eventsOf t, (h.turn t).cache.computations⟩

def sights (h : Hosted F M I) : List (Turn F M I) → List (Sight F M I)
  | [] => []
  | t :: ts => h.sight t :: (h.turn t).sights ts

variable {c : Cache F M I} (m : Moment F M I)

theorem sight_withheld (hc : c.settings.collectAugments = true) (t : Turn F M I) :
    (⟨c.collecting false, m⟩ : Hosted F M I).sight t =
      ((⟨c, m.unprovided⟩ : Hosted F M I).sight t.unprovided).within := by
  cases t with
  | move m' | drop => rfl
  | ask q =>
    have hask := Cache.ask_withheld m hc q
    simp only [sight, exchange?, eventsOf, turn, hask]
    rfl

theorem turn_withheld (hc : c.settings.collectAugments = true) (t : Turn F M I) :
    ∃ c' m', c'.settings.collectAugments = true ∧
      (⟨c.collecting false, m⟩ : Hosted F M I).turn t = ⟨c'.collecting false, m'⟩ ∧
      (⟨c, m.unprovided⟩ : Hosted F M I).turn t.unprovided = ⟨c', m'.unprovided⟩ := by
  cases t with
  | move m' => exact ⟨c, m', hc, rfl, rfl⟩
  | drop => exact ⟨c.drop, m, hc, rfl, rfl⟩
  | ask q =>
    refine ⟨(c.ask m.unprovided q).2.1, m, ?_, ?_, rfl⟩
    · rw [Cache.settings_ask]
      exact hc
    · rw [turn, Cache.ask_withheld m hc]
      rfl

theorem sights_withheld (hc : c.settings.collectAugments = true) (ts : List (Turn F M I)) :
    (⟨c.collecting false, m⟩ : Hosted F M I).sights ts =
      ((⟨c, m.unprovided⟩ : Hosted F M I).sights (ts.map Turn.unprovided)).map Sight.within := by
  induction ts generalizing c m with
  | nil => rfl
  | cons t ts ih =>
    obtain ⟨c', m', hc', hoff, hon⟩ := turn_withheld m hc t
    rw [List.map_cons, sights, sights, List.map_cons, sight_withheld m hc, hoff, hon, ih m' hc']

end Hosted

/-- What can be seen of a cache that lists no members from outside of its class does not depend on
what there is outside. In any run it is what can be seen of one that lists them if there are none,
but for the attempts of the latter to read them. -/
theorem augments_unobservable (owner : Owner) (settings : Settings) (m : Moment F M I)
    (ts : List (Turn F M I)) :
    let off (m : Moment F M I) : Hosted F M I :=
      ⟨.new owner { settings with collectAugments := false }, m⟩
    let on : Hosted F M I :=
      ⟨.new owner { settings with collectAugments := true }, m.unprovided⟩
    (off m).sights ts = (on.sights (ts.map Turn.unprovided)).map Sight.within ∧
      (∀ s ∈ (off m).sights ts, ∀ kind, .readAugments kind ∉ s.events) ∧
      ∀ m' ts', m'.unprovided = m.unprovided → ts'.map Turn.unprovided = ts.map Turn.unprovided →
        (off m').sights ts' = (off m).sights ts := by
  intro off on
  have hoff (m : Moment F M I) (ts : List (Turn F M I)) : (off m).sights ts = _ :=
    Hosted.sights_withheld (c := .new owner { settings with collectAugments := true }) m rfl ts
  refine ⟨hoff m ts, fun s hs kind hmem ↦ ?_, fun m' ts' hm hts ↦ ?_⟩
  · rw [hoff] at hs
    obtain ⟨s', -, rfl⟩ := List.mem_map.1 hs
    exact Bool.false_ne_true (List.mem_filter.1 hmem).2
  · rw [hoff, hoff, hm, hts]

/-- An inner class without a name and a field of the name of another one are defined outside of an
enum, at times, while its fields change silently, the count goes back and no method can be made. -/
theorem augments_unobservable_of_enum :
    let field (n : Nat) : Handle Field := ⟨.declared n, "x", ⟨"int", 0⟩, .none, .dummy, .source⟩
    let inner : ClassRef := ⟨.declared 7, 1, none, .ordinary, none, .dummy, .augmented⟩
    let moment (count : UInt64) (n : Nat) (augments : ClassBody) :
        Moment (Handle Field) (Handle Method) ClassRef :=
      .bare count ⟨[field n], [], []⟩ augments
    let ts (a : ClassBody) : List (Turn (Handle Field) (Handle Method) ClassRef) := [
      .ask (.findField "x" false), .move (moment 3 1 a), .ask (.findInnerType "B" false), .drop,
      .ask (.enumMethod .values), .move (moment 2 0 .none), .ask .fields, .ask .constructors]
    let off (a : ClassBody) : Hosted (Handle Field) (Handle Method) ClassRef :=
      ⟨.new ⟨some "E", true, .dummy⟩ { collectAugments := false }, moment 3 0 a⟩
    let given : ClassBody := ⟨[field 2], [], [inner]⟩
    (moment 3 0 given).unprovided = (moment 3 0 .none).unprovided ∧
      (ts given).map Turn.unprovided = (ts .none).map Turn.unprovided ∧
      (off given).sights (ts given) = (off .none).sights (ts .none) := by
  intro field inner moment ts off given
  have h := augments_unobservable ⟨some "E", true, .dummy⟩ {} (moment 3 0 .none) (ts .none)
  exact ⟨rfl, rfl, h.2.2 (moment 3 0 given) (ts given) rfl rfl⟩

end ClassModel
