import ClassModel.Proofs.Cache.Coherence
import ClassModel.Proofs.Cache.Remark
import ClassModel.Proofs.Cache.Shadowing
import ClassModel.Proofs.Cache.Work
import ClassModel.Report.Log

namespace ClassModel

variable {F M I : Type}

def Moment.reportsOf (m : Moment F M I) : Event → List Report
  | .create text => (m.create text).reports
  | _ => []

def Turn.lookedUp? : Turn F M I → Option MemberKind
  | .ask q => q.lookup?.map Prod.fst
  | _ => none

theorem Turn.lookedUp?_eq_some {t : Turn F M I} {kind : MemberKind} :
    t.lookedUp? = some kind ↔ ∃ q n, t = .ask q ∧ q.lookup? = some (kind, n) := by
  cases t with
  | move m | drop => simp [lookedUp?]
  | ask q => simp [lookedUp?]

theorem Turn.kind?_of_lookedUp? {t : Turn F M I} {kind : MemberKind}
    (h : t.lookedUp? = some kind) : t.kind? = some kind := by
  obtain ⟨q, n, rfl, hq⟩ := lookedUp?_eq_some.1 h
  obtain ⟨rfl, rfl⟩ | ⟨rfl, rfl⟩ | ⟨rfl, rfl⟩ := Query.lookup?_eq_some.1 hq <;> rfl

/-- What happens to a cache whose reports are collected: a turn, or the reports are taken out. -/
inductive Deed (F M I : Type)
  | turn (t : Turn F M I)
  | take

def Deed.turn? : Deed F M I → Option (Turn F M I)
  | .turn t => some t
  | .take => none

def Members.Alike (v w : Members F M I) : MemberKind → Prop
  | .field => v.fields = w.fields
  | .method | .constructor => v.methods = w.methods
  | .innerType => v.innerTypes = w.innerTypes

theorem Cache.Keeps.alike {c : Cache F M I} {s : Stamp} {v w : Members F M I} {kind : MemberKind}
    (hv : c.Keeps s v kind) (hw : c.Keeps s w kind) : v.Alike w kind := by
  cases kind <;> exact Option.some.inj (hv.symm.trans hw)

namespace Index

variable {α : Type} [Member α]

theorem names_winner (n : String) (as : List α) :
    (∀ x ∈ (winner n as).toList.map Member.name?, x = some n) ∧
      (some n ∈ as.map Member.name? → (winner n as).toList.map Member.name? ≠ []) := by
  cases hw : winner n as with
  | some a => simp [name?_of_winner hw]
  | none => simpa using winner_eq_none_iff.1 hw

theorem names_filter (n : String) (as : List α) :
    (∀ x ∈ (as.filter (bears n)).map Member.name?, x = some n) ∧
      (some n ∈ as.map Member.name? → (as.filter (bears n)).map Member.name? ≠ []) := by
  constructor
  · intro x hx
    obtain ⟨a, ha, rfl⟩ := List.mem_map.1 hx
    exact eq_of_beq (List.mem_filter.1 ha).2
  · intro hmem hnil
    obtain ⟨a, ha, hname⟩ := List.mem_map.1 hmem
    have hfound : a ∈ as.filter (bears n) := List.mem_filter.2 ⟨ha, beq_iff_eq.2 hname⟩
    rw [List.map_eq_nil_iff.1 hnil] at hfound
    cases hfound

end Index

variable [Member F] [MethodMember M] [Member I]

theorem Members.Alike.unnamed_eq {v w : Members F M I} {kind : MemberKind} (h : v.Alike w kind) :
    v.unnamed kind = w.unnamed kind := by
  cases kind <;> exact congrArg unnamedSpans h

def Members.names (v : Members F M I) : MemberKind → List (Option String)
  | .field => v.fields.map Member.name?
  | .method | .constructor => v.methods.map Member.name?
  | .innerType => v.innerTypes.map Member.name?

def Answer.names : Answer F M I → List (Option String)
  | .fields fs => fs.map Member.name?
  | .methods ms => ms.map Member.name?
  | .innerTypes is => is.map Member.name?
  | .field f => f.toList.map Member.name?
  | .innerType i => i.toList.map Member.name?
  | .enumMethod _ => []

theorem Members.exists_answer? (v : Members F M I) {q : Query} {kind : MemberKind} {n : String}
    (hq : q.lookup? = some (kind, n)) :
    ∃ a, v.answer? q = some a ∧ (∀ x ∈ a.names, x = some n) ∧
      (some n ∈ v.names kind → a.names ≠ []) := by
  obtain ⟨rfl, rfl⟩ | ⟨rfl, rfl⟩ | ⟨rfl, rfl⟩ := Query.lookup?_eq_some.1 hq
  · exact ⟨_, rfl, Index.names_winner n v.fields⟩
  · exact ⟨_, rfl, Index.names_filter n v.methods⟩
  · exact ⟨_, rfl, Index.names_winner n v.innerTypes⟩

namespace Cache

variable {c : Cache F M I} {m : Moment F M I} {q : Query} {kind : MemberKind}

theorem filterMap_report?_ask (c : Cache F M I) (m : Moment F M I) (q : Query) :
    (c.ask m q).2.2.filterMap Event.report? = (c.remarks m q).filterMap Event.report? := by
  rw [← filter_not_isRead_ask, List.filterMap_filter]
  congr 1
  funext e
  cases e <;> rfl

theorem filterMap_report?_report (rs : List Report) :
    (rs.map Event.report).filterMap Event.report? = rs := by
  rw [List.filterMap_map]
  exact List.filterMap_some

theorem keeps_listed {n : String} (hq : q.lookup? = some (kind, n))
    (hi : (c.mark kind.index).stamp ≠ some (c.stamp m)) :
    (c.ask m q).2.1.Keeps (c.stamp m) (c.listed m) kind := by
  obtain ⟨rfl, rfl⟩ | ⟨rfl, rfl⟩ | ⟨rfl, rfl⟩ := Query.lookup?_eq_some.1 hq
  · exact Listing.current_indexed_self hi (c.readFields m) c.indexFields
  · exact Listing.current_indexed_self hi (c.readMethods m) c.indexMethods
  · exact Listing.current_indexed_self hi (c.readInnerTypes m) c.indexInnerTypes

end Cache

namespace Hosted

variable {h : Hosted F M I} {t : Turn F M I} {ts us vs : List (Turn F M I)} {kind : MemberKind}

def reportsOf (h : Hosted F M I) (t : Turn F M I) : List Report :=
  (h.eventsOf t).filterMap Event.report?

theorem reportsOf_lookedUp (ht : t.lookedUp? = some kind) :
    h.reportsOf t = h.cache.due h.moment kind := by
  obtain ⟨q, n, rfl, hq⟩ := Turn.lookedUp?_eq_some.1 ht
  rw [reportsOf, eventsOf, Cache.filterMap_report?_ask]
  obtain ⟨rfl, rfl⟩ | ⟨rfl, rfl⟩ | ⟨rfl, rfl⟩ := Query.lookup?_eq_some.1 hq <;>
    exact Cache.filterMap_report?_report _

/-- Only lookups in the class alone, and calls for methods made from templates, make reports. -/
theorem reportsOf_eq_nil (ht : t.lookedUp? = none) (hw : ∀ which, t ≠ .ask (.enumMethod which)) :
    h.reportsOf t = [] := by
  cases t with
  | move m | drop => rfl
  | ask q =>
    rw [reportsOf, eventsOf, Cache.filterMap_report?_ask]
    cases q with
    | constructors | fields | methods | innerTypes => rfl
    | findField n bases | findMethods n bases | findInnerType n bases =>
      cases bases with
      | true => rfl
      | false => cases ht
    | enumMethod which => exact absurd rfl (hw which)

theorem reportsOf_enumMethod (h : Hosted F M I) (which : EnumMethod) :
    h.reportsOf (.ask (.enumMethod which)) =
      (h.eventsOf (.ask (.enumMethod which))).flatMap h.moment.reportsOf := by
  have he : h.eventsOf (.ask (.enumMethod which)) = (h.cache.enumMethod h.moment which).2.2 := rfl
  rw [reportsOf, he]
  unfold Cache.enumMethod
  cases h.cache.enumName? with
  | none => rfl
  | some name =>
    dsimp only
    split
    · have hrest (rs : List Report) : (rs.map Event.report).flatMap h.moment.reportsOf = [] := by
        simp [Moment.reportsOf]
      rw [List.flatMap_cons, hrest, List.append_nil]
      exact Cache.filterMap_report?_report _
    · rfl

theorem mem_events {e : Event} (he : e ∈ h.events ts) :
    ∃ us t vs, ts = us ++ t :: vs ∧ e ∈ (h.after us).eventsOf t := by
  induction ts generalizing h with
  | nil => cases he
  | cons t ts ih =>
    rcases List.mem_append.1 he with he | he
    · exact ⟨[], t, ts, rfl, he⟩
    · obtain ⟨us, t', vs, hts, hmem⟩ := ih he
      exact ⟨t :: us, t', vs, congrArg (t :: ·) hts, hmem⟩

/-- In a stretch at whose start nothing is kept for its stamp, an index is current once its kind has
been looked up. -/
theorem mark_index_after (hf : ∀ p, (h.cache.mark p).stamp ≠ some h.stamp) (hs : h.Steady us)
    (hk : kind ≠ .constructor) :
    ((h.after us).cache.mark kind.index).stamp = some (h.after us).stamp ↔
      ∃ u ∈ us, u.lookedUp? = some kind := by
  have hc : h.cache.Closed h.stamp := fun p _ _ he ↦ absurd he (hf p)
  have htakes : h.Takes us kind.index ↔ ∃ q, .ask q ∈ us ∧ kind.index ∈ q.parts := by
    cases kind <;> exact Iff.rfl
  have hlooks : (∃ q, .ask q ∈ us ∧ kind.index ∈ q.parts) ↔ ∃ u ∈ us, u.lookedUp? = some kind := by
    simp only [Turn.lookedUp?_eq_some, Query.index_mem_parts hk]
    constructor
    · rintro ⟨q, hq, n, hn⟩
      exact ⟨_, hq, q, n, rfl, hn⟩
    · rintro ⟨_, hq, q, n, rfl, hn⟩
      exact ⟨q, hq, n, hn⟩
  rw [renews_of_steady hc hs, stamp_after hs, ← hlooks, ← htakes, ← mem_demand_iff_takes]
  split
  · next hmem => exact iff_of_true (Mark.stamp_renew _ _) hmem
  · next hmem => exact iff_of_false (hf _) hmem

theorem complaints_after (h : Hosted F M I) (ts : List (Turn F M I)) (kind : MemberKind)
    (spans : List Span) :
    (h.after ts).cache.complaints kind spans = h.cache.complaints kind spans := by
  rw [Cache.complaints, h.owner_after, h.settings_after]
  rfl

/-- A list that is kept behind some query of a stretch stays to its end. -/
theorem keeps_end {q : Query} {v : Members F M I} (hs : h.Steady (us ++ .ask q :: vs))
    (hk : ((h.after us).turn (.ask q)).cache.Keeps (h.after us).stamp v kind) :
    (h.after (us ++ .ask q :: vs)).cache.Keeps h.stamp v kind := by
  obtain ⟨hus, hsteady⟩ := steady_append.1 hs
  have hkeeps := keeps_after hsteady.2 (hsteady.1.symm ▸ hk)
  rw [hsteady.1, stamp_after hus] at hkeeps
  rw [after_append]
  exact hkeeps

/-- In such a stretch, the first lookup of a kind reports the members without a name in the list
that is kept at the end, and later ones report nothing. -/
theorem reportsOf_of_steady (hf : ∀ p, (h.cache.mark p).stamp ≠ some h.stamp)
    (hs : h.Steady (us ++ t :: vs)) (ht : t.lookedUp? = some kind) :
    (h.after us).reportsOf t =
      if ∃ u ∈ us, u.lookedUp? = some kind then []
      else h.cache.complaints kind
        (((h.after (us ++ t :: vs)).cache.kept h.stamp).unnamed kind) := by
  have hk : kind ≠ .constructor := fun hk ↦
    t.kind?_ne_constructor (hk ▸ Turn.kind?_of_lookedUp? ht)
  have hindex := mark_index_after hf (steady_append.1 hs).1 hk
  rw [reportsOf_lookedUp ht, Cache.due]
  by_cases hfirst : ∃ u ∈ us, u.lookedUp? = some kind
  · rw [if_pos hfirst]
    exact if_pos (hindex.2 hfirst)
  · rw [if_neg hfirst]
    refine (if_neg (mt hindex.1 hfirst)).trans ?_
    obtain ⟨q, n, rfl, hq⟩ := Turn.lookedUp?_eq_some.1 ht
    have hend := keeps_end hs (Cache.keeps_listed hq (mt hindex.1 hfirst))
    rw [complaints_after, (hend.alike hend.kept).unnamed_eq]

/-- The list of a kind that is kept at the end of such a stretch is one that there was to be listed
at some moment of it, if the kind is asked about at all. -/
theorem alike_kept (hf : ∀ p, (h.cache.mark p).stamp ≠ some h.stamp) (hs : h.Steady ts)
    (ht : ∃ t ∈ ts, t.kind? = some kind) :
    ∃ us, us <+: ts ∧ ((h.after ts).cache.kept h.stamp).Alike
      ((h.after us).moment.merged h.cache.settings) kind := by
  have hc : h.cache.Closed h.stamp := fun p _ _ he ↦ absurd he (hf p)
  have hread : .readOwn kind ∈ h.events ts := by
    rw [← List.count_pos_iff, count_events_of_steady hc hs (.inl rfl), if_pos ⟨ht, hf _⟩,
      Cache.count_readOwn_readEvents]
    exact Nat.one_pos
  obtain ⟨us, t, vs, rfl, hmem⟩ := mem_events hread
  refine ⟨us, List.prefix_append us _, ?_⟩
  cases t with
  | move m | drop => cases hmem
  | ask q =>
    have hend := keeps_end hs (Cache.keeps_of_readOwn_mem hmem)
    rw [settings_after] at hend
    exact hend.kept.alike hend

def reports (h : Hosted F M I) (ts : List (Turn F M I)) : List Report :=
  (h.events ts).filterMap Event.report?

theorem reports_cons (h : Hosted F M I) (t : Turn F M I) (ts : List (Turn F M I)) :
    h.reports (t :: ts) = h.reportsOf t ++ (h.turn t).reports ts :=
  List.filterMap_append

end Hosted

/-- A cache, what surrounds it, and the log that collects its reports. -/
structure Logged (F M I : Type) where
  host : Hosted F M I
  log : Log

namespace Logged

def deed (l : Logged F M I) : Deed F M I → Logged F M I
  | .turn t => ⟨l.host.turn t, l.log.emitAll (l.host.reportsOf t)⟩
  | .take => { l with log := l.log.take.2 }

def after (l : Logged F M I) (ds : List (Deed F M I)) : Logged F M I := ds.foldl deed l

theorem errors_after (l : Logged F M I) (ds : List (Deed F M I)) :
    (l.after ds).log.errors =
      l.log.errors + (l.host.reports (ds.filterMap Deed.turn?)).countP Report.isError := by
  induction ds generalizing l with
  | nil => rfl
  | cons d ds ih =>
    refine (ih (l.deed d)).trans ?_
    cases d with
    | turn t =>
      have hcons : (Deed.turn t :: ds).filterMap Deed.turn? = t :: ds.filterMap Deed.turn? := rfl
      rw [hcons, Hosted.reports_cons, List.countP_append, deed]
      dsimp only
      rw [Log.errors_emitAll, Nat.add_assoc]
    | take => rfl

end Logged

theorem Log.errors_emitAll_of_severity {rs : List Report} {severity : Severity}
    (h : ∀ r ∈ rs, r.severity = severity) (log : Log) :
    (log.emitAll rs).errors = log.errors + if severity = .error then rs.length else 0 := by
  rw [errors_emitAll]
  congr 1
  cases severity with
  | warning =>
    refine List.countP_eq_zero.2 fun r hr ↦ ?_
    rw [Report.isError, h r hr]
    decide
  | error =>
    refine List.countP_eq_length.2 fun r hr ↦ ?_
    rw [Report.isError, h r hr]
    rfl

/-- In a stretch of a run in which the stamp stays the same, the members without a name are reported
at the first lookup of their kind, each once and in their order, and no other query or turn reports
anything, but for what is reported when a method is made from text. The lists are given with such
members in them, and lookups go by name as if they were not there. Taking reports out of the log
does not lower the number of errors. -/
theorem reports_of_stretch (owner : Owner) (settings : Settings) (m : Moment F M I)
    (before ts : List (Turn F M I)) (ha : Ascends m before)
    (hd : before.countP Turn.isDrop < UInt64.size)
    (ho : (⟨.new owner settings, m⟩ : Hosted F M I).Opens before)
    (hs : ((⟨.new owner settings, m⟩ : Hosted F M I).after before).Steady ts) :
    let h := (⟨.new owner settings, m⟩ : Hosted F M I).after before
    ∃ v : Members F M I,
      (∀ kind, (∃ t ∈ ts, t.kind? = some kind) →
        ∃ us, us <+: ts ∧ v.Alike ((h.after us).moment.merged settings) kind) ∧
      (∀ e ∈ h.transcript ts, ∀ a, v.answer? e.query = some a → e.answer = a) ∧
      (∀ e ∈ h.transcript ts, ∀ kind n, e.query.lookup? = some (kind, n) →
        (∀ x ∈ e.answer.names, x = some n) ∧ (some n ∈ v.names kind → e.answer.names ≠ [])) ∧
      (∀ us t vs, ts = us ++ t :: vs →
        let reports := (h.after us).reportsOf t
        (∀ kind, t.lookedUp? = some kind →
          (reports =
            if ∃ u ∈ us, u.lookedUp? = some kind then []
            else (v.unnamed kind).map fun span ↦
              { severity := settings.malformedSeverity
                code := ⟨.error, 301⟩
                message := kind.text ++ " of `" ++ owner.name.getD "<anonymous>" ++ "` has no name"
                span := span
                labels := [⟨owner.span, "declared in this class"⟩]
                notes := ["the member is left out of name lookups"] }) ∧
          ∀ log : Log, (log.emitAll reports).errors =
            log.errors + if settings.malformedSeverity = .error then reports.length else 0) ∧
        (∀ which, t = .ask (.enumMethod which) →
          reports = ((h.after us).eventsOf t).flatMap (h.after us).moment.reportsOf) ∧
        (t.lookedUp? = none → (∀ which, t ≠ .ask (.enumMethod which)) → reports = [])) ∧
      ∀ (ds : List (Deed F M I)) (log : Log), ds.filterMap Deed.turn? = ts →
        ((⟨h, log⟩ : Logged F M I).after ds).log.errors =
          log.errors + (h.reports ts).countP Report.isError := by
  intro h
  have hd' : (Cache.new owner settings : Cache F M I).drops.count.toNat +
      before.countP Turn.isDrop < UInt64.size := by
    simpa [Cache.new, Counter.zero] using hd
  have hf : ∀ p, (h.cache.mark p).stamp ≠ some h.stamp :=
    Hosted.stamp_ne_of_opens (Hosted.ordered_new owner settings m) (Cache.mark_new owner settings)
      ho ha hd'
  have hc : h.Coherent :=
    Hosted.after_induction (fun _ _ hc ht ↦ hc.turn ht) (Cache.stemsFrom_new _ owner settings) ha
      hd'
  have howner : h.cache.owner = owner := Hosted.owner_after _ before
  have hsettings : h.cache.settings = settings := Hosted.settings_after _ before
  have hanswers := hc.transcript hs
  refine ⟨(h.after ts).cache.kept h.stamp, fun kind ht ↦ ?_, hanswers, ?_, ?_, ?_⟩
  · exact hsettings ▸ Hosted.alike_kept hf hs ht
  · intro e he kind n hq
    obtain ⟨a, hv, hnames⟩ := ((h.after ts).cache.kept h.stamp).exists_answer? hq
    rw [hanswers e he a hv]
    exact hnames
  · rintro us t vs rfl
    refine ⟨fun kind ht ↦ ?_, ?_, Hosted.reportsOf_eq_nil⟩
    · have hreports := Hosted.reportsOf_of_steady hf hs ht
      rw [Cache.complaints, howner, hsettings] at hreports
      refine ⟨hreports, Log.errors_emitAll_of_severity fun r hr ↦ ?_⟩
      rw [hreports] at hr
      split at hr
      · cases hr
      · obtain ⟨span, -, rfl⟩ := List.mem_map.1 hr
        exact (Report.unnamedMember_about ..).2.1
    · rintro which rfl
      exact (h.after us).reportsOf_enumMethod which
  · rintro ds log rfl
    exact Logged.errors_after ⟨h, log⟩ ds

/-- An inner class without a name beside one with a name. The reports are taken out of the log
between two lookups. -/
theorem reports_of_stretch_about_inner_classes :
    let inner (name : Option String) (span : Span) : ClassRef :=
      ⟨.declared 0, 0, ⟨name, .ordinary, none, span, .source⟩⟩
    let moment (count : UInt64) : Moment (Handle Field) (Handle Method) ClassRef :=
      .bare count ⟨[], [], [inner none ⟨7, 3, 5⟩, inner (some "B") ⟨7, 6, 8⟩]⟩ .none
    let start : Hosted _ _ _ := ⟨.new ⟨some "A", false, ⟨7, 0, 9⟩⟩ {}, moment 0⟩
    let lookup (name : String) : Turn (Handle Field) (Handle Method) ClassRef :=
      .ask (.findInnerType name false)
    let before := [lookup "B", .move (moment 1)]
    let ts := [.ask .innerTypes, lookup "B", lookup "C"]
    let h := start.after before
    Ascends (moment 0) before ∧ before.countP Turn.isDrop < UInt64.size ∧ start.Opens before ∧
      h.Steady ts ∧
      ((⟨h, .empty⟩ : Logged _ _ _).after
        [.turn (.ask .innerTypes), .turn (lookup "B"), .take, .turn (lookup "C")]).log.errors = 1 ∧
      (h.after [.ask .innerTypes]).reportsOf (lookup "B") =
        [{ severity := .error
           code := ⟨.error, 301⟩
           message := "inner type of `A` has no name"
           span := ⟨7, 3, 5⟩
           labels := [⟨⟨7, 0, 9⟩, "declared in this class"⟩]
           notes := ["the member is left out of name lookups"] }] ∧
      (h.after [.ask .innerTypes, lookup "B"]).reportsOf (lookup "C") = [] := by
  intro inner moment start lookup before ts h
  have ha : Ascends (moment 0) before := ⟨by decide, trivial⟩
  have hd : before.countP Turn.isDrop < UInt64.size := by
    rw [show before.countP Turn.isDrop = 0 by simp [before, lookup, Turn.isDrop]]
    decide
  have ho : start.Opens before := by
    intro us t he
    have he' : [lookup "B"] ++ [.move (moment 1)] = us ++ [t] := he
    obtain ⟨rfl, -⟩ := List.append_inj' he' rfl
    decide
  have hs : h.Steady ts := by
    simp only [ts, lookup, Hosted.steady_ask]
    trivial
  obtain ⟨v, hv, -, -, hreports, herrors⟩ := reports_of_stretch _ {} _ before ts ha hd ho hs
  have hmoment (us : List (Turn _ _ _)) (hus : us <+: ts) : (h.after us).moment = moment 1 := by
    rw [List.prefix_iff_eq_take.1 hus]
    rcases us.length with _ | _ | _ | _ | n <;> rfl
  have hunnamed : v.unnamed .innerType = [⟨7, 3, 5⟩] := by
    obtain ⟨us, hus, halike⟩ := hv .innerType ⟨_, List.mem_cons_self, rfl⟩
    rw [halike.unnamed_eq, hmoment us hus]
    rfl
  obtain ⟨hfirst, -⟩ := (hreports [.ask .innerTypes] _ _ rfl).1 .innerType rfl
  obtain ⟨hsecond, -⟩ := (hreports [.ask .innerTypes, lookup "B"] _ _ rfl).1 .innerType rfl
  rw [hunnamed] at hfirst
  exact ⟨ha, hd, ho, hs, herrors _ .empty rfl, hfirst, hsecond⟩

end ClassModel
