import ClassModel.Proofs.Cache.EnumMethod
import ClassModel.Proofs.Cache.Remark
import ClassModel.Proofs.Cache.Work

namespace ClassModel

variable {F M I : Type}

def Turn.calls (which : EnumMethod) : Turn F M I → Bool
  | .ask q => q = .enumMethod which
  | _ => false

variable [Member F] [MethodMember M] [Member I]

namespace Hosted

variable {h : Hosted F M I} {ts us : List (Turn F M I)} {which : EnumMethod} {name text : String}

def firstMade (h : Hosted F M I) (which : EnumMethod) (text : String) (ts : List (Turn F M I)) :
    Option M :=
  (h.transcript ts).findSome? fun e ↦
    if e.query = .enumMethod which then (e.moment.create text).result.toOption else none

theorem enumName?_turn (h : Hosted F M I) (t : Turn F M I) :
    (h.turn t).cache.enumName? = h.cache.enumName? := by
  rw [Cache.enumName?, h.owner_turn t, h.settings_turn t]
  rfl

theorem enumName?_after (h : Hosted F M I) (ts : List (Turn F M I)) :
    (h.after ts).cache.enumName? = h.cache.enumName? := by
  induction ts generalizing h with
  | nil => rfl
  | cons t ts ih => exact (ih _).trans (h.enumName?_turn t)

/-- A turn adds to a cell only what it makes when nothing is kept for the present stamp. -/
theorem current_enumCell_turn (hname : h.cache.enumName? = some name) (t : Turn F M I) :
    ((h.turn t).cache.enumCell which).current h.stamp =
      ((h.cache.enumCell which).current h.stamp).or
        ((h.firstMade which (which.text name) [t]).map (⟨·, h.cache.owner.span⟩)) := by
  cases t with
  | move m => exact (Option.or_none).symm
  | drop =>
    have hcell : h.cache.drop.enumCell which = h.cache.enumCell which := by
      cases which <;> rfl
    rw [turn, hcell]
    exact (Option.or_none).symm
  | ask q =>
    by_cases hq : q = .enumMethod which
    · subst hq
      have hmade : h.firstMade which (which.text name) [.ask (.enumMethod which)] =
          (h.moment.create (which.text name)).result.toOption := by
        simp [firstMade, transcript, exchange?]
      rw [hmade]
      exact Cache.current_enumCell_enumMethod hname
    · have hmade : h.firstMade which (which.text name) [.ask q] = none := by
        simp [firstMade, transcript, exchange?, hq]
      rw [hmade, turn, h.cache.enumCell_ask h.moment hq]
      exact (Option.or_none).symm

theorem firstMade_cons (h : Hosted F M I) (t : Turn F M I) (ts : List (Turn F M I)) :
    h.firstMade which text (t :: ts) =
      (h.firstMade which text [t]).or ((h.turn t).firstMade which text ts) := by
  simp only [firstMade, transcript, List.findSome?_append, List.append_nil]

/-- In a stretch a cell keeps what was kept at its start, or else the first method made in it. -/
theorem current_enumCell_after (which : EnumMethod) (hname : h.cache.enumName? = some name)
    (hs : h.Steady ts) :
    ((h.after ts).cache.enumCell which).current h.stamp =
      ((h.cache.enumCell which).current h.stamp).or
        ((h.firstMade which (which.text name) ts).map (⟨·, h.cache.owner.span⟩)) := by
  induction ts generalizing h with
  | nil => exact (Option.or_none).symm
  | cons t ts ih =>
    have hlater := ih ((h.enumName?_turn t).trans hname) hs.2
    rw [hs.1, h.owner_turn t, current_enumCell_turn hname t] at hlater
    rw [firstMade_cons, Option.map_or, ← Option.or_assoc]
    exact hlater

def setEnumCell (h : Hosted F M I) (cell : Cell (Synthetic M)) (which : EnumMethod) :
    Hosted F M I :=
  { h with cache := h.cache.setEnumCell cell which }

/-- What a turn does to a cell for a method made from a template reaches nothing else, and what the
cell keeps matters for no other turn. -/
theorem turn_setEnumCell (h : Hosted F M I) (cell : Cell (Synthetic M)) (which : EnumMethod)
    (t : Turn F M I) :
    ∃ cell', (h.setEnumCell cell which).turn t =
      (if t.calls which then h else h.turn t).setEnumCell cell' which := by
  cases t with
  | move m => exact ⟨cell, rfl⟩
  | drop =>
    refine ⟨cell, ?_⟩
    cases which <;> rfl
  | ask q =>
    by_cases hq : q = .enumMethod which
    · subst hq
      obtain ⟨cell', he⟩ := (h.cache.setEnumCell cell which).exists_cell_enumMethod h.moment which
      rw [Cache.setEnumCell_setEnumCell] at he
      refine ⟨cell', ?_⟩
      rw [Turn.calls, if_pos (decide_eq_true rfl)]
      exact congrArg (Hosted.mk · h.moment) he
    · refine ⟨cell, ?_⟩
      rw [Turn.calls, if_neg (by simpa using hq), turn, setEnumCell]
      dsimp only
      rw [h.cache.ask_setEnumCell h.moment cell hq]
      rfl

theorem after_setEnumCell (h : Hosted F M I) (cell : Cell (Synthetic M)) (which : EnumMethod)
    (ts : List (Turn F M I)) :
    ∃ cell', (h.setEnumCell cell which).after ts =
      (h.after (ts.filter fun t ↦ !t.calls which)).setEnumCell cell' which := by
  induction ts generalizing h cell with
  | nil => exact ⟨cell, rfl⟩
  | cons t ts ih =>
    obtain ⟨cell', ht⟩ := h.turn_setEnumCell cell which t
    obtain ⟨cell'', hts⟩ := ih (if t.calls which then h else h.turn t) cell'
    refine ⟨cell'', ?_⟩
    rw [← ht] at hts
    refine Eq.trans hts ?_
    cases hcalls : t.calls which <;> simp [hcalls, after]

end Hosted

/-- A call for a method made from a template, behind a part of a stretch. An owner that is not to
have such methods gets none, and nothing is made from text. Any other owner gets the first method
that has been made at the calls before, and nothing is made again. If there is none, making one is
tried, and if that fails, the failure is given back and the cache stays as it is. All other queries
come to the same as if there had been no call for the method at all. -/
theorem enumMethod_of_stretch (owner : Owner) (settings : Settings) (m : Moment F M I)
    (before ts : List (Turn F M I)) (ha : Ascends m before)
    (hd : before.countP Turn.isDrop < UInt64.size)
    (ho : (⟨.new owner settings, m⟩ : Hosted F M I).Opens before)
    (hs : ((⟨.new owner settings, m⟩ : Hosted F M I).after before).Steady ts)
    (which : EnumMethod) :
    let start : Hosted F M I := ⟨.new owner settings, m⟩
    let h := start.after before
    let now := h.after ts
    let call := now.cache.ask now.moment (.enumMethod which)
    (¬(settings.synthesizeEnumMethods = true ∧ owner.isEnum = true ∧ owner.name ≠ none) →
      call = (.enumMethod (.ok none), now.cache, []) ∧
        ∀ q text, .create text ∉ now.eventsOf (.ask q)) ∧
    (∀ name, settings.synthesizeEnumMethods = true → owner.isEnum = true →
      owner.name = some name →
      let made := now.moment.create (which.text name)
      (∀ a, h.firstMade which (which.text name) ts = some a →
        call = (.enumMethod (.ok (some ⟨a, owner.span⟩)), now.cache, [])) ∧
      (h.firstMade which (which.text name) ts = none →
        call.2.2 = .create (which.text name) :: made.reports.map .report ∧
        (∀ a, made.result = .ok a → call.1 = .enumMethod (.ok (some ⟨a, owner.span⟩))) ∧
        ∀ e, made.result = .error e → call.1 = .enumMethod (.error e) ∧ call.2.1 = now.cache)) ∧
    ∀ q, q ≠ .enumMethod which →
      let without := start.after ((before ++ ts).filter fun t ↦ !t.calls which)
      (now.cache.ask now.moment q).1 = (without.cache.ask without.moment q).1 ∧
        now.eventsOf (.ask q) = without.eventsOf (.ask q) := by
  intro start h now call
  have hf : (h.cache.enumCell which).current h.stamp = none := by
    have hmark := Hosted.stamp_ne_of_opens (Hosted.ordered_new owner settings m)
      (Cache.mark_new owner settings) ho ha (by simpa [Cache.new, Counter.zero] using hd)
      (.enumMethod which)
    rw [← Cache.mark_enumCell] at hmark
    exact Option.eq_none_iff_forall_ne_some.2 fun s hc ↦ hmark (Cell.mark_stamp_of_current hc)
  have hnow : now.cache.enumName? = start.cache.enumName? :=
    (h.enumName?_after ts).trans (start.enumName?_after before)
  have howner : now.cache.owner = owner := (h.owner_after ts).trans (start.owner_after before)
  have hcall : call = (now.cache.enumMethod now.moment which).map .enumMethod id := rfl
  refine ⟨fun hnot ↦ ?_, fun name hsynth henum hname ↦ ?_, fun q hq ↦ ?_⟩
  · have hnone : now.cache.enumName? = none := by
      rw [hnow, Option.eq_none_iff_forall_ne_some]
      intro name he
      obtain ⟨hsynth, henum, hname⟩ := Cache.enumName?_eq_some.1 he
      exact hnot ⟨hsynth, henum, fun hn ↦ Option.some_ne_none _ (hname.symm.trans hn)⟩
    constructor
    · rw [hcall, Cache.enumMethod_of_no_name hnone]
      rfl
    · intro q text he
      exact (Cache.create_mem_ask he).1 hnone
  · intro made
    have hsome : start.cache.enumName? = some name :=
      Cache.enumName?_eq_some.2 ⟨hsynth, henum, hname⟩
    have hcell := Hosted.current_enumCell_after which
      ((start.enumName?_after before).trans hsome) hs
    rw [hf, Option.none_or, start.owner_after before, ← Hosted.stamp_after hs] at hcell
    constructor
    · intro a hmade
      rw [hmade] at hcell
      rw [hcall, Cache.enumMethod_of_current (hnow.trans hsome) hcell]
      rfl
    · intro hmade
      rw [hmade] at hcell
      cases hr : made.result with
      | ok a =>
        rw [hcall, Cache.enumMethod_of_ok (hnow.trans hsome) hcell hr, howner]
        refine ⟨rfl, fun b hb ↦ ?_, fun e he ↦ ?_⟩
        · rw [Except.ok.inj hb]
          rfl
        · cases he
      | error e =>
        rw [hcall, Cache.enumMethod_of_error (hnow.trans hsome) hcell hr]
        refine ⟨rfl, fun a ha ↦ ?_, fun e' he ↦ ?_⟩
        · cases ha
        · rw [Except.error.inj he]
          exact ⟨rfl, rfl⟩
  · obtain ⟨cell, he⟩ := start.after_setEnumCell (start.cache.enumCell which) which (before ++ ts)
    have hself : start.setEnumCell (start.cache.enumCell which) which = start :=
      congrArg (Hosted.mk · start.moment) (start.cache.setEnumCell_self which)
    rw [hself, Hosted.after_append] at he
    intro without
    have hwithout : now = without.setEnumCell cell which := he
    have hask := without.cache.ask_setEnumCell without.moment cell hq
    rw [hwithout]
    exact ⟨congrArg (·.1) hask, congrArg (·.2.2) hask⟩

/-- A method is made, then the count goes up and making it fails; later it is made again. The
failure does not bring back the first method, and the second one stays although making it would
fail. -/
theorem enumMethod_of_stretch_with_failures :
    let method (n : Nat) : Handle Method :=
      ⟨.made n, "values", none, [], .none, [], false, false, false, none, false, .dummy, .synthetic⟩
    let deny : Moment (Handle Field) (Handle Method) ClassRef := .bare 1 .none .none
    let grant (count : UInt64) (n : Nat) : Moment (Handle Field) (Handle Method) ClassRef :=
      { deny with count := count, create := fun _ ↦ ⟨.ok (method n), []⟩ }
    let start : Hosted _ _ _ := ⟨.new ⟨some "A", true, .dummy⟩ {}, grant 0 0⟩
    let before := [.ask (.enumMethod .values), .move deny]
    let ts := [.ask (.enumMethod .values), .move (grant 1 1), .ask (.enumMethod .valueOf),
      .ask (.enumMethod .values), .move deny]
    let h := start.after before
    let now := h.after ts
    Ascends (grant 0 0) before ∧ before.countP Turn.isDrop < UInt64.size ∧ start.Opens before ∧
      h.Steady ts ∧
      (h.cache.ask h.moment (.enumMethod .values)).1 = .enumMethod (.error ⟨"none"⟩) ∧
      (h.cache.ask h.moment (.enumMethod .values)).2.1 = h.cache ∧
      now.cache.ask now.moment (.enumMethod .values) =
        (.enumMethod (.ok (some ⟨method 1, .dummy⟩)), now.cache, []) := by
  intro method deny grant start before ts h now
  have ha : Ascends (grant 0 0) before := ⟨by decide, trivial⟩
  have hd : before.countP Turn.isDrop < UInt64.size := by
    rw [show before.countP Turn.isDrop = 0 by simp [before, Turn.isDrop]]
    decide
  have ho : start.Opens before := by
    intro us t he
    have he' : [Turn.ask (.enumMethod .values)] ++ [.move deny] = us ++ [t] := he
    obtain ⟨rfl, -⟩ := List.append_inj' he' rfl
    decide
  have hs : h.Steady ts := by
    simp only [ts, Hosted.steady_ask, Hosted.steady_move]
    exact ⟨rfl, rfl, trivial⟩
  obtain ⟨-, hfirst, -⟩ := enumMethod_of_stretch _ {} _ before [] ha hd ho trivial .values
  obtain ⟨-, hlater, -⟩ := enumMethod_of_stretch _ {} _ before ts ha hd ho hs .values
  obtain ⟨-, -, herror⟩ := (hfirst "A" rfl rfl rfl).2 rfl
  obtain ⟨hanswer, hcache⟩ := herror _ rfl
  exact ⟨ha, hd, ho, hs, hanswer, hcache, (hlater "A" rfl rfl rfl).1 (method 1) rfl⟩

end ClassModel
