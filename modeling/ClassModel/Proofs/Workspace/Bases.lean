import ClassModel.Proofs.Workspace.Freshness
import ClassModel.Proofs.Workspace.Inheritance

namespace ClassModel

namespace Index

variable {α : Type} [Member α]

/-- Whether no member of the name `n` that is external stands before one that is not. -/
def Settled (n : String) (as : List α) : Prop :=
  as.Pairwise fun a b ↦
    ¬(bears n a = true ∧ Member.isExternal a = true ∧
      bears n b = true ∧ Member.isExternal b = false)

theorem winner_of_settled {n : String} {as : List α} (h : Settled n as) :
    winner n as = as.find? (bears n) := by
  induction as with
  | nil => rfl
  | cons a as ih =>
    obtain ⟨ha, has⟩ := List.pairwise_cons.1 h
    have hrest := ih has
    unfold winner at hrest ⊢
    rw [List.find?_cons, List.find?_cons]
    cases hn : bears n a with
    | false => simpa using hrest
    | true =>
      cases he : Member.isExternal a with
      | false => rfl
      | true =>
        have hnone : as.find? (fun b ↦ bears n b && !Member.isExternal b) = none := by
          rw [List.find?_eq_none]
          intro b hb hbears
          rw [Bool.and_eq_true, Bool.not_eq_true'] at hbears
          exact ha b hb ⟨hn, he, hbears.1, hbears.2⟩
        simp [hnone]

end Index

namespace Workspace

/-- Whether cache `i`, which is over the class `c` of the table `t`, finds with the classes above
`c` what it finds without them and then what there is above. -/
structure Joins (w : Workspace) (i : Nat) (t : ClassTable) (c : ClassNode) (name : String) :
    Prop where
  methods : ∃ ms : List (Handle Method),
    (w.request i (.query (.findMethods name false))).1 = some (.answer (.methods ms)) ∧
    (w.request i (.query (.findMethods name true))).1 = some (.answer (.methods (ms ++
      ((t.superClass? c).elim [] (t.inheritedMethods · name)).filter (!·.decl.isConstructor))))
  field : Index.Settled name c.body.fields → ∃ f : Option (Handle Field),
    (w.request i (.query (.findField name false))).1 = some (.answer (.field f)) ∧
    (w.request i (.query (.findField name true))).1 =
      some (.answer (.field (f.or ((t.superClass? c).bind (t.inheritedField · name)))))
  innerType : Index.Settled name c.body.innerTypes → ∃ x : Option ClassRef,
    (w.request i (.query (.findInnerType name false))).1 = some (.answer (.innerType x)) ∧
    (w.request i (.query (.findInnerType name true))).1 =
      some (.answer (.innerType (x.or ((t.superClass? c).bind (t.inheritedInnerType · name)))))

theorem moment_inherited {w : Workspace} {o : OpenCache} {c : ClassNode}
    (hr : o.resolver = o.table) (hc : (w.table o.table).class? o.owner.id = some c) :
    (w.moment o).inheritedField = (w.table o.table).inheritedField c ∧
      (w.moment o).inheritedMethods = (w.table o.table).inheritedMethods c ∧
      (w.moment o).inheritedInnerType = (w.table o.table).inheritedInnerType c := by
  have howner : w.ownerNode o = c := by
    rw [ownerNode, hc, Option.getD_some]
  simp only [moment, howner, hr, and_self]

/-- Lookups that include the classes above read the class itself, and what they find there is what
the cache alone has to find. -/
theorem own_of_joins {w : Workspace} {i : Nat} {o : OpenCache} {c : ClassNode} {name : String}
    (ho : w.caches[i]? = some o) (hr : o.resolver = o.table) (hf : (w.table o.table).Founded)
    (hc : (w.table o.table).class? o.owner.id = some c) (h : w.Joins i (w.table o.table) c name) :
    (w.request i (.query (.findMethods name false))).1 =
      some (.answer (.methods (c.body.methods.filter (·.decl.name == name)))) := by
  obtain ⟨-, hmethods, -⟩ := moment_inherited hr hc
  obtain ⟨ms, hms, hall⟩ := h.methods
  rw [(request_query ho _).1, Cache.ask, hmethods, hf.inheritedMethods_eq hc name] at hall
  simp only [Option.some.injEq, Response.answer.injEq, Answer.methods.injEq,
    List.append_cancel_right_eq] at hall
  rw [hms, hall]

/-- A cache that keeps nothing that is out of date joins what is in the class and above it. -/
theorem joins_of_dated {w : Workspace} {n i : Nat} {o : OpenCache} {c : ClassNode}
    (ho : w.caches[i]? = some o) (hd : o.Dated n (w.table o.table) False) (ha : o.augments = none)
    (hr : o.resolver = o.table) (hf : (w.table o.table).Founded)
    (hc : (w.table o.table).class? o.owner.id = some c) (name : String) :
    w.Joins i (w.table o.table) c name := by
  obtain ⟨hfield, hmethods, hinner⟩ := moment_inherited hr hc
  have hown : ∀ q a, c.body.answer? q = some a →
      (w.request i (.query q)).1 = some (.answer a) := fun _ _ ↦ request_of_dated ho hd ha hc
  have habove : ∀ q, (w.request i (.query q)).1 =
      some (.answer (o.cache.ask (w.moment o) q).1) := fun q ↦ (request_query ho q).1
  refine ⟨⟨_, hown _ _ rfl, ?_⟩, fun hs ↦ ⟨_, hown _ _ rfl, ?_⟩, fun hs ↦ ⟨_, hown _ _ rfl, ?_⟩⟩
  · rw [habove, Cache.ask, hmethods, hf.inheritedMethods_eq hc name]
    rfl
  · rw [habove, Cache.ask, hfield, hf.inheritedField_eq hc name, Index.winner_of_settled hs]
    rfl
  · rw [habove, Cache.ask, hinner, hf.inheritedInnerType_eq hc name, Index.winner_of_settled hs]
    rfl

theorem founded_underWay {ops : List Operation} {j : Nat} {keepGoing : Bool}
    {actions : List Action} {s : Workspace × Bool}
    (hs : (start.performAll ops).underWay j keepGoing actions = s) {i : Nat}
    (hsize : (s.1.table i).classes.size ≤ UInt32.size) : (s.1.table i).Founded := by
  have hgrows := (start.performAll ops).grows_series j keepGoing actions i
  rw [← hs] at hsize ⊢
  exact ((start.grows_performAll ops i).trans hgrows).founded hsize (founded_start i)

/-- As long as no change of its table is overdue, be it in a command or, with no actions, between
commands, a cache that is told nothing from outside and looks above its class in its own table finds
there what it should behind what it finds in the class. -/
theorem joins_of_not_overdue {ops : List Operation} {j : Nat} {keepGoing : Bool}
    {actions : List Action} {s : Workspace × Bool} {i : Nat} {o : OpenCache}
    (hs : (start.performAll ops).underWay j keepGoing actions = s)
    (hn : Operation.sizes ops + actions.countP Action.isDrop < UInt64.size)
    (ho : s.1.caches[i]? = some o) (ha : o.augments = none) (hr : o.resolver = o.table)
    (hsize : (s.1.table o.table).classes.size ≤ UInt32.size)
    (hdue : start.overdue o.table false ops = false) (hmark : o.table = j → s.2 = false) :
    ∃ c, (s.1.table o.table).class? o.owner.id = some c ∧ c.ref = o.owner ∧
      ∀ name, s.1.Joins i (s.1.table o.table) c name := by
  have hdated := dated_underWay hn j keepGoing
  rw [hs] at hdated
  have hpaid : ¬(start.overdue o.table false ops = true ∨ o.table = j ∧ s.2 = true) := by
    rintro (howed | ⟨hj, howed⟩)
    · exact Bool.noConfusion (howed.symm.trans hdue)
    · exact Bool.noConfusion (howed.symm.trans (hmark hj))
  have hd := (hdated.caches o (List.mem_of_getElem? ho)).same (Nat.le_refl _) hpaid
  obtain ⟨c, hc, href⟩ := hd.present
  exact ⟨c, hc, href, joins_of_dated ho hd ha hr (founded_underWay hs hsize) hc⟩

/-- A change by a command that was broken off, made up for by a later command, and a command under
way that has found nothing to remove. -/
theorem joins_after_broken_command :
    let header (name : String) (s : Option ClassId) : ClassHeader :=
      ⟨some name, .ordinary, s, .dummy, .source⟩
    let method (result : Option TypeRef) : Method :=
      ⟨"B", result, [], .none, [], result.isNone, false, false, none, false, .dummy, .source⟩
    let ops : List Operation := [
      .command 0 false [.step (.edit (.addClass (header "A" none))),
        .step (.edit (.addClass (header "B" (some 0)))),
        .step (.edit (.addMethod 0 (method none)))],
      .openCache 0 1 0 {} none,
      .request 0 (.query (.findMethods "B" false)),
      .command 0 false [.step (.edit (.addMethod 1 (method none))), .step .abort],
      .command 0 true [.step (.edit (.addMethod 0 (method (some ⟨"int", 0⟩)))),
        .step (.edit (.addField 7 ⟨"x", ⟨"int", 0⟩, .none, .dummy, .source⟩))]]
    let actions : List Action := [.request 0 (.query .methods), .step (.edit (.removeField 1 "x"))]
    let s := (start.performAll ops).underWay 0 true actions
    ∃ o c, Operation.sizes ops + actions.countP Action.isDrop < UInt64.size ∧
      s.1.caches[0]? = some o ∧ o.augments = none ∧ o.resolver = o.table ∧
      (s.1.table o.table).classes.size ≤ UInt32.size ∧ start.overdue o.table false ops = false ∧
      s.2 = false ∧ (s.1.table o.table).class? o.owner.id = some c ∧
      s.1.Joins 0 (s.1.table o.table) c "B" := by
  intro header method ops actions s
  have hn : Operation.sizes ops + actions.countP Action.isDrop < UInt64.size := by decide
  have hview : (s.1.caches[0]?).map (fun o ↦ (o.table, o.resolver, o.augments.isNone)) =
      some (0, 0, true) := by
    decide +kernel
  have hdue : start.overdue 0 false ops = false := by decide +kernel
  have hmark : s.2 = false := by decide +kernel
  have hsize : (s.1.table 0).classes.size ≤ UInt32.size := by decide +kernel
  obtain ⟨o, ho, hview⟩ := Option.map_eq_some_iff.1 hview
  simp only [Prod.mk.injEq, Option.isNone_iff_eq_none] at hview
  obtain ⟨ht, hr, ha⟩ := hview
  rw [← ht] at hdue hr hsize
  obtain ⟨c, hc, -, hjoins⟩ :=
    joins_of_not_overdue (s := s) rfl hn ho ha hr hsize hdue fun _ ↦ hmark
  exact ⟨o, c, hn, ho, ha, hr, hsize, hdue, hmark, hc, hjoins "B"⟩

def methodCount : Response → Nat
  | .answer (.methods ms) => ms.length
  | _ => 0

/-- After a command that has changed its class and been broken off, a cache that has been asked
before finds with the classes above what it does not find without them. -/
theorem joins_fails_if_overdue :
    let header : ClassHeader := ⟨some "A", .ordinary, none, .dummy, .source⟩
    let method : Method := ⟨"f", some ⟨"int", 0⟩, [], .none, [], false, false, false, none, false,
      .dummy, .source⟩
    let w := start.performAll [.command 0 false [.step (.edit (.addClass header))],
      .openCache 0 0 0 {} none, .request 0 (.query (.findMethods "f" false)),
      .command 0 false [.step (.edit (.addMethod 0 method)), .step .abort]]
    ∃ o c, w.caches[0]? = some o ∧ o.augments = none ∧ o.resolver = o.table ∧
      (w.table o.table).class? o.owner.id = some c ∧ ¬w.Joins 0 (w.table o.table) c "f" := by
  intro header method w
  have hsize : (w.table 0).classes.size ≤ UInt32.size := by decide +kernel
  have hf : (w.table 0).Founded := founded_performAll _ 0 hsize
  have hview : (w.caches[0]?).map (fun o ↦
      (o.table, o.resolver, o.augments.isNone, o.owner.id)) = some (0, 0, true, 0) := by
    decide +kernel
  have hclass : ((w.table 0).class? 0).map (fun c ↦
      (c.body.methods.filter (·.decl.name == "f")).length) = some 1 := by
    decide +kernel
  have hfound : (w.request 0 (.query (.findMethods "f" false))).1.map methodCount = some 0 := by
    decide +kernel
  obtain ⟨o, ho, hview⟩ := Option.map_eq_some_iff.1 hview
  obtain ⟨c, hc, hone⟩ := Option.map_eq_some_iff.1 hclass
  simp only [Prod.mk.injEq, Option.isNone_iff_eq_none] at hview
  obtain ⟨ht, hr, ha, hid⟩ := hview
  rw [← ht] at hf hr
  have hc : (w.table o.table).class? o.owner.id = some c := by
    rw [ht, hid]
    exact hc
  refine ⟨o, c, ho, ha, hr, hc, fun h ↦ ?_⟩
  rw [own_of_joins ho hr hf hc h] at hfound
  exact Nat.zero_ne_one ((Option.some.inj hfound).symm.trans hone)

end Workspace

end ClassModel
