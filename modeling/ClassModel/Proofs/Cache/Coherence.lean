import ClassModel.Proofs.Cache.Stretch

namespace ClassModel

variable {F M I α ι β : Type}

namespace Listing

variable {l : Listing α ι} {s : Stamp} {as : List α} {read : List α × List β} {e : β}

theorem current_members (hc : l.list.current s = some as) :
    (l.members s read).2.1.list.current s = some as := by
  simp [members, hc]

theorem current_indexed (make : List α → ι × List β) (hc : l.list.current s = some as) :
    (l.indexed s read make).2.1.list.current s = some as := by
  unfold indexed
  cases l.index.current s with
  | some ix => exact hc
  | none => exact current_members hc

theorem current_of_mem_members (he : e ∈ (l.members s read).2.2) :
    e ∈ read.2 ∧ (l.members s read).2.1.list.current s = some read.1 := by
  unfold members at he ⊢
  cases hc : l.list.current s with
  | some as => simp [hc] at he
  | none => simpa [hc] using he

theorem current_of_mem_indexed (make : List α → ι × List β) (hm : ∀ as, e ∉ (make as).2)
    (he : e ∈ (l.indexed s read make).2.2) :
    e ∈ read.2 ∧ (l.indexed s read make).2.1.list.current s = some read.1 := by
  unfold indexed at he ⊢
  cases hc : l.index.current s with
  | some ix => simp [hc] at he
  | none =>
    simp only [hc, List.mem_append] at he
    exact current_of_mem_members (he.resolve_right (hm _))

theorem members_again (l : Listing α ι) (s : Stamp) (read read' : List α × List β) :
    ((l.members s read).2.1.members s read').1 = (l.members s read).1 := by
  unfold members
  cases hc : l.list.current s with
  | some as => simp [hc]
  | none => simp

theorem indexed_again (l : Listing α ι) (s : Stamp) (read read' : List α × List β)
    (make make' : List α → ι × List β) :
    ((l.indexed s read make).2.1.indexed s read' make').1 = (l.indexed s read make).1 := by
  unfold indexed
  cases hc : l.index.current s with
  | some ix => simp [hc]
  | none => simp

end Listing

namespace Cache

variable {c : Cache F M I} {m : Moment F M I} {s : Stamp} {v w : Members F M I}
  {kind kind' : MemberKind}

theorem readOwn_notMem_unnamedReports [Member α] (as : List α) :
    .readOwn kind ∉ c.unnamedReports kind' as := by
  simp [unnamedReports]

theorem current_of_readOwn_mem_members {l : Listing α ι} {read : List α × List Event}
    (hr : read.2 = c.readEvents kind') (he : .readOwn kind ∈ (l.members s read).2.2) :
    kind = kind' ∧ (l.members s read).2.1.list.current s = some read.1 := by
  obtain ⟨hmem, hc⟩ := Listing.current_of_mem_members he
  rw [hr] at hmem
  exact ⟨kind_eq_of_mem_readEvents (.inl rfl) hmem, hc⟩

theorem current_of_readOwn_mem_indexed {l : Listing α ι} {read : List α × List Event}
    (make : List α → ι × List Event) (hm : ∀ as, .readOwn kind ∉ (make as).2)
    (hr : read.2 = c.readEvents kind') (he : .readOwn kind ∈ (l.indexed s read make).2.2) :
    kind = kind' ∧ (l.indexed s read make).2.1.list.current s = some read.1 := by
  obtain ⟨hmem, hc⟩ := Listing.current_of_mem_indexed make hm he
  rw [hr] at hmem
  exact ⟨kind_eq_of_mem_readEvents (.inl rfl) hmem, hc⟩

def Keeps (c : Cache F M I) (s : Stamp) (v : Members F M I) : MemberKind → Prop
  | .field => c.fields.list.current s = some v.fields
  | .method | .constructor => c.methods.list.current s = some v.methods
  | .innerType => c.innerTypes.list.current s = some v.innerTypes

def kept (c : Cache F M I) (s : Stamp) : Members F M I :=
  ⟨(c.fields.list.current s).getD [], (c.methods.list.current s).getD [],
    (c.innerTypes.list.current s).getD []⟩

theorem Keeps.kept (h : c.Keeps s v kind) : c.Keeps s (c.kept s) kind := by
  cases kind <;> simp_all [Keeps, Cache.kept]

theorem Keeps.listMethods (h : c.Keeps (c.stamp m) v kind) :
    (c.listMethods m).2.1.Keeps (c.stamp m) v kind := by
  cases kind with
  | method | constructor => exact Listing.current_members h
  | field | innerType => exact h

theorem Keeps.enumMethod (h : c.Keeps s v kind) (m : Moment F M I) (which : EnumMethod) :
    (c.enumMethod m which).2.1.Keeps s v kind := by
  unfold Cache.enumMethod
  cases c.enumName? with
  | none => exact h
  | some name => cases which <;> cases kind <;> exact h

theorem keeps_of_readOwn_mem_listMethods (he : .readOwn kind ∈ (c.listMethods m).2.2) :
    (c.listMethods m).2.1.Keeps (c.stamp m) (m.merged c.settings) kind := by
  obtain ⟨rfl, hc⟩ := current_of_readOwn_mem_members (c.readMethods_snd m) he
  exact hc.trans (congrArg some (c.readMethods_fst m))

theorem readOwn_notMem_enumMethod (which : EnumMethod) :
    .readOwn kind ∉ (c.enumMethod m which).2.2 := by
  unfold enumMethod
  cases c.enumName? with
  | none => simp
  | some name =>
    dsimp only
    split <;> simp

section

variable [MethodMember M]

theorem Keeps.listConstructors (h : c.Keeps (c.stamp m) v kind) :
    (c.listConstructors m).2.1.Keeps (c.stamp m) v kind := by
  unfold Cache.listConstructors
  cases c.constructors.current (c.stamp m) with
  | some cs => exact h
  | none =>
    have h' := h.listMethods
    cases kind <;> exact h'

theorem keeps_of_readOwn_mem_listConstructors (he : .readOwn kind ∈ (c.listConstructors m).2.2) :
    (c.listConstructors m).2.1.Keeps (c.stamp m) (m.merged c.settings) kind := by
  unfold listConstructors at he ⊢
  cases hc : c.constructors.current (c.stamp m) with
  | some cs => simp [hc] at he
  | none =>
    rw [hc] at he
    have h := keeps_of_readOwn_mem_listMethods he
    cases kind <;> exact h

theorem constructors_again (c : Cache F M I) {m m' : Moment F M I}
    (hs : c.stamp m' = c.stamp m) :
    ((c.listConstructors m).2.1.listConstructors m').1 = (c.listConstructors m).1 := by
  unfold listConstructors
  cases hc : c.constructors.current (c.stamp m) with
  | some cs => simp [hs, hc]
  | none =>
    have hnow : (c.listMethods m).2.1.stamp m' = c.stamp m := hs
    rw [stamp] at hnow
    simp [hnow, stamp]

end

variable [Member F] [MethodMember M] [Member I]

theorem answer?_eq_of_keeps {q : Query} (hq : q.kind? = some kind) (hv : c.Keeps s v kind)
    (hw : c.Keeps s w kind) : v.answer? q = w.answer? q := by
  unfold Query.kind? at hq
  split at hq <;> cases hq <;> simp_all [Keeps, Members.answer?]

/-- A query leaves alone what is kept for the present stamp. -/
theorem Keeps.ask (h : c.Keeps (c.stamp m) v kind) (q : Query) :
    (c.ask m q).2.1.Keeps (c.stamp m) v kind := by
  cases q with
  | constructors => exact h.listConstructors
  | fields =>
    cases kind with
    | field => exact Listing.current_members h
    | constructor | method | innerType => exact h
  | methods => exact h.listMethods
  | innerTypes =>
    cases kind with
    | innerType => exact Listing.current_members h
    | constructor | method | field => exact h
  | findField n bases =>
    cases bases with
    | true => exact h
    | false =>
      cases kind with
      | field => exact Listing.current_indexed c.indexFields h
      | constructor | method | innerType => exact h
  | findMethods n bases =>
    cases bases with
    | true => exact h
    | false =>
      cases kind with
      | method | constructor => exact Listing.current_indexed c.indexMethods h
      | field | innerType => exact h
  | findInnerType n bases =>
    cases bases with
    | true => exact h
    | false =>
      cases kind with
      | innerType => exact Listing.current_indexed c.indexInnerTypes h
      | constructor | method | field => exact h
  | enumMethod which => exact h.enumMethod m which

theorem keeps_of_readOwn_mem {q : Query} (he : .readOwn kind ∈ (c.ask m q).2.2) :
    (c.ask m q).2.1.Keeps (c.stamp m) (m.merged c.settings) kind := by
  cases q with
  | constructors => exact keeps_of_readOwn_mem_listConstructors he
  | fields =>
    obtain ⟨rfl, hc⟩ := current_of_readOwn_mem_members (c.readFields_snd m) he
    exact hc.trans (congrArg some (c.readFields_fst m))
  | methods => exact keeps_of_readOwn_mem_listMethods he
  | innerTypes =>
    obtain ⟨rfl, hc⟩ := current_of_readOwn_mem_members (c.readInnerTypes_snd m) he
    exact hc.trans (congrArg some (c.readInnerTypes_fst m))
  | findField n bases =>
    cases bases with
    | true => simp [ask] at he
    | false =>
      obtain ⟨rfl, hc⟩ := current_of_readOwn_mem_indexed c.indexFields
        readOwn_notMem_unnamedReports (c.readFields_snd m) he
      exact hc.trans (congrArg some (c.readFields_fst m))
  | findMethods n bases =>
    cases bases with
    | true => simp [ask] at he
    | false =>
      obtain ⟨rfl, hc⟩ := current_of_readOwn_mem_indexed c.indexMethods
        readOwn_notMem_unnamedReports (c.readMethods_snd m) he
      exact hc.trans (congrArg some (c.readMethods_fst m))
  | findInnerType n bases =>
    cases bases with
    | true => simp [ask] at he
    | false =>
      obtain ⟨rfl, hc⟩ := current_of_readOwn_mem_indexed c.indexInnerTypes
        readOwn_notMem_unnamedReports (c.readInnerTypes_snd m) he
      exact hc.trans (congrArg some (c.readInnerTypes_fst m))
  | enumMethod which => exact absurd he (readOwn_notMem_enumMethod which)

/-- What has been answered about the class itself is answered again for as long as neither counter
advances, whatever has become of the class meanwhile. -/
theorem ask_again (c : Cache F M I) {m m' : Moment F M I} (hm : m'.count = m.count) {q : Query}
    {kind : MemberKind} (hq : q.kind? = some kind) :
    ((c.ask m q).2.1.ask m' q).1 = (c.ask m q).1 := by
  have hs : c.stamp m' = c.stamp m := by
    rw [stamp, stamp, hm]
  have hlist {α ι : Type} (l : Listing α ι) (read read' : List α × List Event) :
      ((l.members (c.stamp m) read).2.1.members (c.stamp m') read').1 =
        (l.members (c.stamp m) read).1 := by
    rw [hs]
    exact l.members_again _ read read'
  have hindex {α ι : Type} (l : Listing α ι) (read read' : List α × List Event)
      (make make' : List α → ι × List Event) :
      ((l.indexed (c.stamp m) read make).2.1.indexed (c.stamp m') read' make').1 =
        (l.indexed (c.stamp m) read make).1 := by
    rw [hs]
    exact l.indexed_again _ read read' make make'
  cases q with
  | constructors => exact congrArg Answer.methods (c.constructors_again hs)
  | fields => exact congrArg Answer.fields (hlist c.fields _ _)
  | methods => exact congrArg Answer.methods (hlist c.methods _ _)
  | innerTypes => exact congrArg Answer.innerTypes (hlist c.innerTypes _ _)
  | findField n bases =>
    cases bases with
    | true => cases hq
    | false =>
      exact congrArg (fun ix : Index F ↦ Answer.field (ix.lookup n))
        (hindex c.fields _ _ c.indexFields c.indexFields)
  | findMethods n bases =>
    cases bases with
    | true => cases hq
    | false =>
      exact congrArg (fun ix : Index (List M) ↦ Answer.methods ((ix.lookup n).getD []))
        (hindex c.methods _ _ c.indexMethods c.indexMethods)
  | findInnerType n bases =>
    cases bases with
    | true => cases hq
    | false =>
      exact congrArg (fun ix : Index I ↦ Answer.innerType (ix.lookup n))
        (hindex c.innerTypes _ _ c.indexInnerTypes c.indexInnerTypes)
  | enumMethod which => cases hq

end Cache

variable [Member F] [MethodMember M] [Member I]

namespace Hosted

/-- Whether all that is kept dates from no later than now, and what dates from now has been made
from the lists that are kept now. -/
def Coherent (h : Hosted F M I) : Prop :=
  h.cache.StemsFrom fun kind s v ↦ s ≤ h.stamp ∧ (s = h.stamp → h.cache.Keeps h.stamp v kind)

variable {h : Hosted F M I} {ts : List (Turn F M I)} {v : Members F M I} {kind : MemberKind}

/-- Counters that have gone up do not come back to a stamp for which something is kept. -/
theorem Coherent.later {h' : Hosted F M I} (hc : h.Coherent) (hs : h.stamp ≤ h'.stamp)
    (hk : ∀ v kind, h.cache.Keeps h.stamp v kind → h'.cache.Keeps h.stamp v kind) :
    h.cache.StemsFrom fun kind s v ↦
      s ≤ h'.stamp ∧ (s = h'.stamp → h'.cache.Keeps h'.stamp v kind) := by
  refine hc.mono fun kind s v ⟨hle, hv⟩ ↦ ⟨Stamp.le_trans hle hs, fun he ↦ ?_⟩
  have hnow : h'.stamp = h.stamp := Stamp.le_antisymm (he ▸ hle) hs
  rw [hnow]
  exact hk v kind (hv (he.trans hnow))

theorem Coherent.ask (hc : h.Coherent) (q : Query) :
    (∀ kind, q.kind? = some kind → ∃ v, (h.turn (.ask q)).cache.Keeps h.stamp v kind ∧
      v.answer? q = some (h.cache.ask h.moment q).1) ∧ (h.turn (.ask q)).Coherent := by
  have hs := h.stamp_ask q
  have hl := hc.later (Stamp.le_of_eq hs.symm) fun v kind hk ↦ hk.ask q
  obtain ⟨ha, hc'⟩ := Cache.StemsFrom.ask hl q fun kind hr ↦ by
    have hmem : .readOwn kind ∈ (h.cache.ask h.moment q).2.2 :=
      hr (h.cache.readOwn_mem_readEvents kind)
    rw [hs]
    exact ⟨Stamp.le_refl _, fun _ ↦ Cache.keeps_of_readOwn_mem hmem⟩
  refine ⟨fun kind hq ↦ ?_, hc'⟩
  obtain ⟨v, ⟨-, hv⟩, he⟩ := ha kind hq
  rw [hs] at hv
  exact ⟨v, hv rfl, he⟩

theorem Coherent.turn (hc : h.Coherent) {t : Turn F M I} (hs : h.stamp ≤ (h.turn t).stamp) :
    (h.turn t).Coherent := by
  cases t with
  | move m => exact hc.later hs fun _ _ hk ↦ hk
  | drop => exact (hc.later hs fun _ kind hk ↦ by cases kind <;> exact hk).drop
  | ask q => exact (hc.ask q).2

theorem keeps_after (hs : h.Steady ts) (hk : h.cache.Keeps h.stamp v kind) :
    (h.after ts).cache.Keeps h.stamp v kind := by
  induction ts generalizing h with
  | nil => exact hk
  | cons t ts ih =>
    have ht : (h.turn t).cache.Keeps h.stamp v kind := by
      cases t with
      | move m => exact hk
      | drop => cases kind <;> exact hk
      | ask q => exact hk.ask q
    have ha := ih hs.2 (hs.1.symm ▸ ht)
    rwa [hs.1] at ha

/-- As long as the stamp stays the same, all answers come from the lists kept at the end. -/
theorem Coherent.transcript (hc : h.Coherent) (hs : h.Steady ts) :
    ∀ e ∈ h.transcript ts, ∀ a,
      ((h.after ts).cache.kept h.stamp).answer? e.query = some a → e.answer = a := by
  induction ts generalizing h with
  | nil => simp [Hosted.transcript]
  | cons t ts ih =>
    have ih' := ih (hc.turn (Stamp.le_of_eq hs.1.symm)) hs.2
    rw [hs.1] at ih'
    intro e he a ha
    rw [Hosted.transcript, List.mem_append] at he
    refine he.elim (fun he ↦ ?_) fun he ↦ ih' e he a ha
    cases t with
    | move m | drop => simp [exchange?] at he
    | ask q =>
      obtain rfl : e = ⟨h.moment, q, (h.cache.ask h.moment q).1⟩ := by
        simpa [exchange?] using he
      cases hq : q.kind? with
      | none => simp [Members.answer?_eq_none hq] at ha
      | some kind =>
        obtain ⟨v, hv, hva⟩ := (hc.ask q).1 kind hq
        have hend : (h.after (.ask q :: ts)).cache.Keeps h.stamp v kind := by
          have hk := keeps_after hs.2 (hs.1.symm ▸ hv)
          rwa [hs.1] at hk
        rw [Cache.answer?_eq_of_keeps hq hend.kept hend, hva] at ha
        exact Option.some.inj ha

end Hosted

/-- If the count never decreases, all that is answered about the class itself while the stamp stays
the same fits one list of members of each kind, whatever silent changes lie behind it or happen
meanwhile. -/
theorem answers_agree (owner : Owner) (settings : Settings) (m : Moment F M I)
    (before ts : List (Turn F M I)) (ha : Ascends m before)
    (hd : before.countP Turn.isDrop < UInt64.size)
    (hs : ((⟨.new owner settings, m⟩ : Hosted F M I).after before).Steady ts) :
    ∃ v : Members F M I,
      ∀ e ∈ ((⟨.new owner settings, m⟩ : Hosted F M I).after before).transcript ts, ∀ a,
        v.answer? e.query = some a → e.answer = a := by
  have hc : ((⟨.new owner settings, m⟩ : Hosted F M I).after before).Coherent := by
    refine Hosted.after_induction (fun _ _ hc ht ↦ hc.turn ht) ?_ ha ?_
    · exact Cache.stemsFrom_new _ owner settings
    · simpa [Cache.new, Counter.zero] using hd
  exact ⟨_, hc.transcript hs⟩

/-- The fields are changed silently between a drop and a lookup, and again before they are
listed. -/
theorem answers_agree_across_silent_changes :
    let field (n : Nat) : Handle Field := ⟨.declared n, "x", ⟨"int", 0⟩, .none, .dummy, .source⟩
    let moment (count : UInt64) (fields : List (Handle Field)) :
        Moment (Handle Field) (Handle Method) ClassRef := .bare count ⟨fields, [], []⟩ .none
    let start : Hosted _ _ _ := ⟨.new ⟨some "A", false, .dummy⟩ {}, moment 0 []⟩
    let before := [.ask .fields, .move (moment 1 [field 0]), .ask (.findField "x" false), .drop,
      .move (moment 1 [field 1])]
    let ts := [.ask (.findField "x" false), .move (moment 1 []), .ask .fields]
    Ascends (moment 0 []) before ∧ before.countP Turn.isDrop < UInt64.size ∧
      (start.after before).Steady ts ∧
      ∃ v : Members (Handle Field) (Handle Method) ClassRef,
        ∀ e ∈ (start.after before).transcript ts, ∀ a,
          v.answer? e.query = some a → e.answer = a := by
  intro field moment start before ts
  have ha : Ascends (moment 0 []) before := by
    simp [before, moment, Ascends, Moment.bare]
  have hd : before.countP Turn.isDrop < UInt64.size := by
    rw [show before.countP Turn.isDrop = 1 by simp [before, List.countP_cons, Turn.isDrop]]
    decide
  have hs : (start.after before).Steady ts := ⟨rfl, rfl, rfl, trivial⟩
  exact ⟨ha, hd, hs, answers_agree _ {} _ before ts ha hd hs⟩

end ClassModel
