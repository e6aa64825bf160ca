import ClassModel.Proofs.Cache.Part
import ClassModel.Proofs.Cache.Stretch

namespace ClassModel

variable {F M I : Type}

def Turn.kind? : Turn F M I → Option MemberKind
  | .ask q => q.kind?
  | _ => none

theorem Turn.kind?_ne_constructor (t : Turn F M I) : t.kind? ≠ some .constructor := by
  cases t with
  | move m | drop => simp [kind?]
  | ask q =>
    cases q with
    | findField n bases | findMethods n bases | findInnerType n bases =>
      cases bases <;> simp [kind?, Query.kind?]
    | _ => simp [kind?, Query.kind?]

namespace Cache

variable {c c' c'' : Cache F M I} {s : Stamp} {ps qs : List Part}

theorem Renews.trans (h : c.Renews s ps c') (h' : c'.Renews s qs c'') :
    c.Renews s (ps ++ qs) c'' := by
  intro p
  rw [h' p, h p]
  by_cases hp : p ∈ ps <;> by_cases hq : p ∈ qs <;> simp [hp, hq]

theorem Renews.closed (h : c.Renews s ps c') (hc : c.Closed s)
    (hps : ∀ p p', p.source? = some p' → p ∈ ps → p' ∈ ps) : c'.Closed s := by
  intro p p' hs he
  rw [h p']
  split
  · exact Mark.stamp_renew _ s
  · next hp' =>
    rw [h p, if_neg fun hp ↦ hp' (hps p p' hs hp)] at he
    exact hc p p' hs he

theorem computations_of_renews (h : c.Renews s ps c') (hf : ∀ p, (c.mark p).stamp ≠ some s) :
    c'.computations = c.computations + Part.all.countP (· ∈ ps) := by
  have hp (p : Part) : (c'.mark p).computations =
      (c.mark p).computations + if p ∈ ps then 1 else 0 := by
    rw [h p]
    split
    · rw [Mark.computations_renew, if_neg (hf p)]
    · rfl
  have hsum (l : List Part) : l.foldr (fun p n ↦ (c'.mark p).computations + n) 0 =
      l.foldr (fun p n ↦ (c.mark p).computations + n) 0 + l.countP (· ∈ ps) := by
    induction l with
    | nil => rfl
    | cons p l ih =>
      simp only [List.foldr_cons, List.countP_cons, decide_eq_true_eq]
      rw [ih, hp]
      omega
  rw [computations_eq_sum, computations_eq_sum, hsum]

theorem mark_drop (c : Cache F M I) (p : Part) : c.drop.mark p = c.mark p := by
  rcases p with (_ | _ | _ | _) | _ | _ | _ | (_ | _) <;> rfl

theorem mark_new (owner : Owner) (settings : Settings) (p : Part) :
    ((new owner settings : Cache F M I).mark p).stamp = none := by
  rcases p with (_ | _ | _ | _) | _ | _ | _ | (_ | _) <;> rfl

end Cache

/-- With a part that is made from a list, a query takes that list. -/
theorem Cache.source_mem_needs {c : Cache F M I} {m : Moment F M I} {q : Query} {p p' : Part}
    (hs : p.source? = some p') (hp : p ∈ c.needs m q) : p' ∈ c.needs m q := by
  cases q with
  | constructors =>
    rcases List.mem_cons.1 hp with rfl | hp
    · cases hs
      simp [needs, Query.parts]
    · obtain rfl := List.mem_singleton.1 hp
      cases hs
  | fields | methods | innerTypes =>
    obtain rfl := List.mem_singleton.1 hp
    cases hs
  | findField n bases | findMethods n bases | findInnerType n bases =>
    cases bases with
    | true => cases hp
    | false =>
      rcases List.mem_cons.1 hp with rfl | hp
      · cases hs
        simp [needs, Query.parts]
      · obtain rfl := List.mem_singleton.1 hp
        cases hs
  | enumMethod which =>
    obtain rfl := List.mem_singleton.1 (List.mem_ite_nil_right.1 hp).2
    cases hs

theorem Cache.mem_needs {c : Cache F M I} {m : Moment F M I} {q : Query} {p : Part}
    (hp : ∀ which, p ≠ .enumMethod which) : p ∈ c.needs m q ↔ p ∈ q.parts := by
  cases q with
  | enumMethod which => simp [needs, Query.parts, hp which]
  | _ => rfl

theorem Cache.enumMethod_mem_needs {c : Cache F M I} {m : Moment F M I} {q : Query}
    {which : EnumMethod} :
    .enumMethod which ∈ c.needs m q ↔ q = .enumMethod which ∧
      ∃ text, .create text ∈ (c.enumMethod m which).2.2 ∧ (m.create text).result.isOk := by
  cases q with
  | enumMethod which' =>
    simp only [needs, List.mem_ite_nil_right, List.any_eq_true, List.mem_singleton,
      Part.enumMethod.injEq, Query.enumMethod.injEq]
    constructor
    · rintro ⟨⟨e, he, hg⟩, rfl⟩
      cases e with
      | create text => exact ⟨rfl, text, he, hg⟩
      | _ => cases hg
    · rintro ⟨rfl, text, he, hg⟩
      exact ⟨⟨_, he, hg⟩, rfl⟩
  | findField n bases | findMethods n bases | findInnerType n bases =>
    cases bases <;> simp [needs, Query.parts]
  | _ => simp [needs, Query.parts]

/-- Whether all that is kept dates from no later than now, and what dates from now has been made
from lists that do. -/
structure Hosted.Ordered (h : Hosted F M I) : Prop where
  dated : ∀ p s, (h.cache.mark p).stamp = some s → s ≤ h.stamp
  closed : h.cache.Closed h.stamp

theorem Hosted.ordered_new (owner : Owner) (settings : Settings) (m : Moment F M I) :
    (⟨.new owner settings, m⟩ : Hosted F M I).Ordered := by
  refine ⟨fun p s he ↦ ?_, fun p p' _ he ↦ ?_⟩ <;> simp [Cache.mark_new] at he

namespace Hosted

variable {h : Hosted F M I} {t : Turn F M I} {ts : List (Turn F M I)}

def needsOf (h : Hosted F M I) : Turn F M I → List Part
  | .ask q => h.cache.needs h.moment q
  | _ => []

theorem source_mem_needsOf {p p' : Part} (hs : p.source? = some p') (hp : p ∈ h.needsOf t) :
    p' ∈ h.needsOf t := by
  cases t with
  | move m | drop => cases hp
  | ask q => exact Cache.source_mem_needs hs hp

theorem list_mem_needsOf {kind : MemberKind} (hk : kind ≠ .constructor) :
    .list kind ∈ h.needsOf t ↔ t.kind? = some kind := by
  cases t with
  | move m | drop => simp [needsOf, Turn.kind?]
  | ask q =>
    cases q with
    | constructors | fields | methods | innerTypes =>
      cases kind <;> simp_all [needsOf, Cache.needs, Query.parts, Turn.kind?, Query.kind?]
    | findField n bases | findMethods n bases | findInnerType n bases =>
      cases bases <;> cases kind <;>
        simp_all [needsOf, Cache.needs, Query.parts, Turn.kind?, Query.kind?]
    | enumMethod which => simp [needsOf, Cache.needs, Turn.kind?, Query.kind?]

end Hosted

variable [Member F] [MethodMember M] [Member I]

namespace Hosted

variable {h : Hosted F M I} {t : Turn F M I} {ts : List (Turn F M I)}

def eventsOf (h : Hosted F M I) : Turn F M I → List Event
  | .ask q => (h.cache.ask h.moment q).2.2
  | _ => []

def events (h : Hosted F M I) : List (Turn F M I) → List Event
  | [] => []
  | t :: ts => h.eventsOf t ++ (h.turn t).events ts

def demand (h : Hosted F M I) : List (Turn F M I) → List Part
  | [] => []
  | t :: ts => h.needsOf t ++ (h.turn t).demand ts

/-- Whether a stretch begins where a run has led: at its start, or where the stamp has just
changed. -/
def Opens (h : Hosted F M I) (before : List (Turn F M I)) : Prop :=
  ∀ ts t, before = ts ++ [t] → (h.after ts).stamp ≠ (h.after before).stamp

theorem renews_turn (hc : h.cache.Closed h.stamp) (t : Turn F M I) :
    h.cache.Renews h.stamp (h.needsOf t) (h.turn t).cache := by
  cases t with
  | move m => exact fun _ ↦ rfl
  | drop => exact fun p ↦ h.cache.mark_drop p
  | ask q => exact Cache.renews_ask hc q

theorem closed_turn (hc : h.cache.Closed h.stamp) (t : Turn F M I) :
    (h.turn t).cache.Closed h.stamp :=
  (renews_turn hc t).closed hc fun _ _ ↦ source_mem_needsOf

theorem Ordered.stamp_le {p : Part} {s : Stamp} (ho : h.Ordered)
    (he : ((h.turn t).cache.mark p).stamp = some s) : s ≤ h.stamp := by
  rw [renews_turn ho.closed t p] at he
  split at he
  · rw [Mark.stamp_renew] at he
    exact Stamp.le_of_eq (Option.some.inj he).symm
  · exact ho.dated p s he

theorem Ordered.turn (ho : h.Ordered) (hs : h.stamp ≤ (h.turn t).stamp) : (h.turn t).Ordered := by
  refine ⟨fun p s he ↦ Stamp.le_trans (ho.stamp_le he) hs, fun p p' hsrc he ↦ ?_⟩
  have hnow : (h.turn t).stamp = h.stamp := Stamp.le_antisymm (ho.stamp_le he) hs
  rw [hnow] at he ⊢
  exact closed_turn ho.closed t p p' hsrc he

theorem stamp_ne_of_opens {before : List (Turn F M I)} (ho : h.Ordered)
    (hnew : ∀ p, (h.cache.mark p).stamp = none) (hopen : h.Opens before)
    (ha : Ascends h.moment before)
    (hd : h.cache.drops.count.toNat + before.countP Turn.isDrop < UInt64.size) (p : Part) :
    ((h.after before).cache.mark p).stamp ≠ some (h.after before).stamp := by
  rcases List.eq_nil_or_concat before with rfl | ⟨ts, t, rfl⟩
  · rw [after, List.foldl_nil, hnew]
    simp
  · rw [List.concat_eq_append] at *
    obtain ⟨hts, ht⟩ := ascends_append.1 ha
    rw [List.countP_append, List.countP_singleton] at hd
    have hd' : h.cache.drops.count.toNat + ts.countP Turn.isDrop < UInt64.size := by omega
    have hlast := after_induction (fun _ _ ho hs ↦ ho.turn hs) ho hts hd'
    have hdrops := toNat_drops_after hd'
    have hle := stamp_le_turn (ascends_cons.1 ht).1 (by omega)
    have hne := hopen ts t rfl
    rw [after_concat] at hne ⊢
    exact fun he ↦ hne (Stamp.le_antisymm hle (hlast.stamp_le he))

/-- In a stretch the parts are renewed that its queries take. -/
theorem renews_of_steady (hc : h.cache.Closed h.stamp) (hs : h.Steady ts) :
    h.cache.Renews h.stamp (h.demand ts) (h.after ts).cache := by
  induction ts generalizing h with
  | nil => exact Cache.renews_of_current (by simp [demand])
  | cons t ts ih =>
    have ih' := ih (hs.1.symm ▸ closed_turn hc t) hs.2
    rw [hs.1] at ih'
    exact (renews_turn hc t).trans ih'

theorem count_eventsOf {e : Event} {kind : MemberKind} (hc : h.cache.Closed h.stamp)
    (he : e = .readOwn kind ∨ e = .readAugments kind) (t : Turn F M I) :
    (h.eventsOf t).count e =
      if t.kind? = some kind ∧ (h.cache.mark (.list kind)).stamp ≠ some h.stamp then
        (h.cache.readEvents kind).count e
      else 0 := by
  have hread : e.isRead := by rcases he with rfl | rfl <;> rfl
  cases t with
  | move m | drop => rfl
  | ask q =>
    have hf := Cache.filter_isRead_ask hc q
    rw [eventsOf, ← List.count_filter hread, hf]
    cases hk : q.kind? with
    | none => simp [Turn.kind?, hk]
    | some k =>
      simp only [Turn.kind?, hk, Option.some.injEq, apply_ite (List.count e), List.count_nil]
      by_cases hkind : k = kind
      · subst hkind
        simp [stamp]
      · have hnot : e ∉ h.cache.readEvents k := fun hmem ↦
          hkind (Cache.kind_eq_of_mem_readEvents he hmem).symm
        simp [hkind, List.count_eq_zero.2 hnot]

/-- In a stretch a list is read once if it is asked about and not yet kept, and not at all
otherwise. -/
theorem count_events_of_steady {e : Event} {kind : MemberKind} (hc : h.cache.Closed h.stamp)
    (hs : h.Steady ts) (he : e = .readOwn kind ∨ e = .readAugments kind) :
    (h.events ts).count e =
      if (∃ t ∈ ts, t.kind? = some kind) ∧ (h.cache.mark (.list kind)).stamp ≠ some h.stamp then
        (h.cache.readEvents kind).count e
      else 0 := by
  have hk (t : Turn F M I) (ht : t.kind? = some kind) : kind ≠ .constructor :=
    fun hk ↦ t.kind?_ne_constructor (hk ▸ ht)
  induction ts generalizing h with
  | nil => simp [events]
  | cons t ts ih =>
    have hr := renews_turn hc t
    have hnext := ih (hs.1.symm ▸ closed_turn hc t) hs.2
    have hset : (h.turn t).cache.readEvents kind = h.cache.readEvents kind := by
      rw [Cache.readEvents, Cache.readEvents, h.settings_turn t]
    rw [events, List.count_append, count_eventsOf hc he, hnext, hs.1, hset]
    by_cases ht : t.kind? = some kind
    · have hmark : ((h.turn t).cache.mark (.list kind)).stamp = some h.stamp := by
        rw [hr, if_pos ((list_mem_needsOf (hk t ht)).2 ht), Mark.stamp_renew]
      simp [ht, hmark]
    · by_cases hts : ∃ t ∈ ts, t.kind? = some kind
      · obtain ⟨t', ht', hkind⟩ := hts
        have hmark : (h.turn t).cache.mark (.list kind) = h.cache.mark (.list kind) := by
          rw [hr, if_neg (mt (list_mem_needsOf (hk t' hkind)).1 ht)]
        simp [ht, hmark]
      · simp [ht, hts]

/-- Whether a run takes a part: by a query that it is made for, or, if it is made from a template,
by a query that tries to make it and succeeds. -/
def Takes (h : Hosted F M I) (ts : List (Turn F M I)) : Part → Prop
  | .enumMethod which => ∃ us vs text, ts = us ++ .ask (.enumMethod which) :: vs ∧
      .create text ∈ (h.after us).eventsOf (.ask (.enumMethod which)) ∧
      ((h.after us).moment.create text).result.isOk
  | p => ∃ q, .ask q ∈ ts ∧ p ∈ q.parts

theorem mem_demand {p : Part} :
    p ∈ h.demand ts ↔ ∃ us q vs, ts = us ++ .ask q :: vs ∧
      p ∈ (h.after us).cache.needs (h.after us).moment q := by
  induction ts generalizing h with
  | nil => simp [demand]
  | cons t ts ih =>
    rw [demand, List.mem_append, ih]
    constructor
    · rintro (hp | ⟨us, q, vs, rfl, hp⟩)
      · cases t with
        | move m | drop => cases hp
        | ask q => exact ⟨[], q, ts, rfl, hp⟩
      · exact ⟨t :: us, q, vs, rfl, hp⟩
    · rintro ⟨us, q, vs, he, hp⟩
      rcases List.cons_eq_append_iff.1 he with ⟨rfl, he⟩ | ⟨us, rfl, rfl⟩
      · obtain ⟨rfl, rfl⟩ := List.cons.inj he
        exact .inl hp
      · exact .inr ⟨us, q, vs, rfl, hp⟩

theorem mem_demand_iff_takes (h : Hosted F M I) (ts : List (Turn F M I)) (p : Part) :
    p ∈ h.demand ts ↔ h.Takes ts p := by
  rw [mem_demand]
  by_cases hp : ∃ which, p = .enumMethod which
  · obtain ⟨which, rfl⟩ := hp
    constructor
    · rintro ⟨us, q, vs, hts, hq⟩
      obtain ⟨rfl, text, he, hok⟩ := Cache.enumMethod_mem_needs.1 hq
      exact ⟨us, vs, text, hts, he, hok⟩
    · rintro ⟨us, vs, text, hts, he, hok⟩
      exact ⟨us, _, vs, hts, Cache.enumMethod_mem_needs.2 ⟨rfl, text, he, hok⟩⟩
  · have htakes : h.Takes ts p ↔ ∃ q, .ask q ∈ ts ∧ p ∈ q.parts := by
      cases p with
      | enumMethod which => exact absurd ⟨which, rfl⟩ hp
      | _ => rfl
    rw [htakes]
    constructor
    · rintro ⟨us, q, vs, rfl, hq⟩
      exact ⟨q, by simp, (Cache.mem_needs (not_exists.1 hp)).1 hq⟩
    · rintro ⟨q, hmem, hq⟩
      obtain ⟨us, vs, hts⟩ := List.append_of_mem hmem
      exact ⟨us, q, vs, hts, (Cache.mem_needs (not_exists.1 hp)).2 hq⟩

theorem turn_idle (h : Hosted F M I) {t : Turn F M I} (hk : t.kind? = none)
    (ht : ∀ which, t ≠ .ask (.enumMethod which)) :
    (h.turn t).cache.computations = h.cache.computations ∧
      ∀ e ∈ h.eventsOf t, e.isRead = false := by
  cases t with
  | move m | drop => exact ⟨rfl, by simp [eventsOf]⟩
  | ask q =>
    cases q with
    | constructors | fields | methods | innerTypes => cases hk
    | findField n bases | findMethods n bases | findInnerType n bases =>
      cases bases with
      | true => exact ⟨rfl, by simp [eventsOf, Cache.ask, Event.isRead]⟩
      | false => cases hk
    | enumMethod which => exact absurd rfl (ht which)

end Hosted

/-- In a stretch of a run in which the stamp stays the same, each list is read once if it is asked
about, from outside too if that is collected, and each part is computed once if it is taken. -/
theorem work_of_stretch (owner : Owner) (settings : Settings) (m : Moment F M I)
    (before ts : List (Turn F M I)) (ha : Ascends m before)
    (hd : before.countP Turn.isDrop < UInt64.size)
    (ho : (⟨.new owner settings, m⟩ : Hosted F M I).Opens before)
    (hs : ((⟨.new owner settings, m⟩ : Hosted F M I).after before).Steady ts) :
    let h := (⟨.new owner settings, m⟩ : Hosted F M I).after before
    (∀ kind, (h.events ts).count (.readOwn kind) =
      if ∃ t ∈ ts, t.kind? = some kind then 1 else 0) ∧
    (∀ kind, (h.events ts).count (.readAugments kind) =
      if settings.collectAugments then (h.events ts).count (.readOwn kind) else 0) ∧
    (∃ ps : List Part, ps.Nodup ∧ (∀ p, p ∈ ps ↔ h.Takes ts p) ∧
      (h.after ts).cache.computations = h.cache.computations + ps.length) ∧
    ∀ t, t.kind? = none → (∀ which, t ≠ .ask (.enumMethod which)) →
      ((h.after ts).turn t).cache.computations = (h.after ts).cache.computations ∧
        ∀ e ∈ (h.after ts).eventsOf t, e.isRead = false := by
  intro h
  have hf : ∀ p, (h.cache.mark p).stamp ≠ some h.stamp :=
    Hosted.stamp_ne_of_opens (Hosted.ordered_new owner settings m) (Cache.mark_new owner settings)
      ho ha (by simpa [Cache.new, Counter.zero] using hd)
  have hc : h.cache.Closed h.stamp := fun p _ _ he ↦ absurd he (hf p)
  have hset : h.cache.settings = settings := Hosted.settings_after _ before
  have hread (e : Event) (kind : MemberKind) (he : e = .readOwn kind ∨ e = .readAugments kind) :
      (h.events ts).count e =
        if ∃ t ∈ ts, t.kind? = some kind then (h.cache.readEvents kind).count e else 0 := by
    rw [Hosted.count_events_of_steady hc hs he]
    simp [hf]
  refine ⟨fun kind ↦ ?_, fun kind ↦ ?_, ?_, fun t hk ht ↦ (h.after ts).turn_idle hk ht⟩
  · rw [hread _ kind (.inl rfl), Cache.count_readOwn_readEvents]
  · rw [hread _ kind (.inr rfl), hread _ kind (.inl rfl), Cache.count_readOwn_readEvents,
      Cache.count_readAugments_readEvents, hset]
    split <;> simp
  · refine ⟨Part.all.filter (· ∈ h.demand ts), ?_, fun p ↦ ?_, ?_⟩
    · exact List.filter_sublist.nodup (by decide)
    · rw [List.mem_filter, decide_eq_true_eq, Hosted.mem_demand_iff_takes]
      exact and_iff_right p.mem_all
    · rw [← List.countP_eq_length_filter]
      exact Cache.computations_of_renews (Hosted.renews_of_steady hc hs) hf

/-- The stretch after a change of the count: methods are asked about in three ways, with a silent
change in between, and a method is made only at the second attempt. -/
theorem work_of_stretch_about_methods :
    let method : Handle Method :=
      ⟨.made 0, "values", none, [], .none, [], false, false, false, none, false, .dummy, .synthetic⟩
    let moment (count : UInt64) : Moment (Handle Field) (Handle Method) ClassRef :=
      .bare count ⟨[], [method], []⟩ .none
    let later : Moment (Handle Field) (Handle Method) ClassRef :=
      { moment 1 with own := .none, create := fun _ ↦ ⟨.ok method, []⟩ }
    let start : Hosted _ _ _ := ⟨.new ⟨some "A", true, .dummy⟩ {}, moment 0⟩
    let before := [.ask .methods, .move (moment 1)]
    let ts := [.ask .constructors, .ask (.enumMethod .values), .move later, .ask .methods,
      .ask (.findMethods "values" false), .ask (.enumMethod .values), .ask (.enumMethod .values)]
    let h := start.after before
    Ascends (moment 0) before ∧ before.countP Turn.isDrop < UInt64.size ∧ start.Opens before ∧
      h.Steady ts ∧ (h.events ts).count (.readOwn .method) = 1 ∧
      (h.events ts).count (.readAugments .method) = 1 ∧ (h.events ts).count (.readOwn .field) = 0 ∧
      ∃ ps : List Part, ps.Nodup ∧ (∀ p, p ∈ ps ↔ h.Takes ts p) ∧
        (h.after ts).cache.computations = h.cache.computations + ps.length := by
  intro method moment later start before ts h
  have ha : Ascends (moment 0) before := ⟨by decide, trivial⟩
  have hd : before.countP Turn.isDrop < UInt64.size := by
    rw [show before.countP Turn.isDrop = 0 by simp [before, Turn.isDrop]]
    decide
  have ho : start.Opens before := by
    intro us t he
    have he' : [Turn.ask .methods] ++ [.move (moment 1)] = us ++ [t] := he
    obtain ⟨rfl, -⟩ := List.append_inj' he' rfl
    decide
  have hs : h.Steady ts := by
    simp only [ts, Hosted.steady_ask, Hosted.steady_move]
    exact ⟨rfl, trivial⟩
  obtain ⟨hown, haug, hps, -⟩ := work_of_stretch _ {} _ before ts ha hd ho hs
  have hmethod : (h.events ts).count (.readOwn .method) = 1 :=
    (hown .method).trans (if_pos ⟨.ask .methods, by simp [ts], rfl⟩)
  have hfield : (h.events ts).count (.readOwn .field) = 0 :=
    (hown .field).trans (if_neg (by simp [ts, Turn.kind?, Query.kind?]))
  have haugments : (h.events ts).count (.readAugments .method) = 1 := by
    rw [haug .method, hmethod]
    rfl
  exact ⟨ha, hd, ho, hs, hmethod, haugments, hfield, hps⟩

end ClassModel
