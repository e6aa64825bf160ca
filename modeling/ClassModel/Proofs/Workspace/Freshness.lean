import ClassModel.Proofs.Workspace.Overdue

namespace ClassModel

namespace Workspace

/-- Any tables, and caches over classes of theirs that are told nothing from outside and have not
been asked anything yet. -/
structure Untouched (w : Workspace) : Prop where
  wellNumbered : ∀ i, (w.table i).WellNumbered
  caches : ∀ o ∈ w.caches, o.augments = none ∧ (∃ s, o.cache = .new o.owner.owner s) ∧
    ∃ c, (w.table o.table).class? o.owner.id = some c ∧ c.ref = o.owner

theorem Untouched.dated {w : Workspace} (h : w.Untouched) (owed : Nat → Prop) : w.Dated 0 owed := by
  refine ⟨h.wellNumbered, fun o ho ↦ ?_⟩
  obtain ⟨-, ⟨s, hs⟩, hc⟩ := h.caches o ho
  refine ⟨hc, ?_, fun _ ↦ hs ▸ Cache.derivedFrom_new _ _ _⟩
  rw [hs]
  exact Nat.le_refl 0

/-- A cache that keeps nothing that is out of date answers from the members that its class has. -/
theorem request_of_dated {w : Workspace} {n i : Nat} {o : OpenCache} {c : ClassNode}
    (ho : w.caches[i]? = some o) (hd : o.Dated n (w.table o.table) False) (ha : o.augments = none)
    (hc : (w.table o.table).class? o.owner.id = some c) {q : Query} {a : ClassAnswer}
    (hq : c.body.answer? q = some a) : (w.request i (.query q)).1 = some (.answer a) := by
  rw [(request_query ho q).1, (hd.ask q).1 ha not_false c hc a hq]

/-- After any run in which no command is broken off, every answer about a class itself of a cache
that is told nothing from outside is the one that the members give that the class has at that
moment. -/
theorem request_eq_of_run {w : Workspace} (hw : w.Untouched) {ops : List Operation}
    (he : ∀ op ∈ ops, op.Ends) (hn : Operation.sizes ops < UInt64.size) {i : Nat} {o : OpenCache}
    (ho : (w.performAll ops).caches[i]? = some o) (ha : o.augments = none) :
    ∃ c, ((w.performAll ops).table o.table).class? o.owner.id = some c ∧ c.ref = o.owner ∧
      ∀ q a, c.body.answer? q = some a →
        ((w.performAll ops).request i (.query q)).1 = some (.answer a) := by
  have hall := (hw.dated fun _ ↦ false = true).performAll ops (by omega)
  have hd := (hall.caches o (List.mem_of_getElem? ho)).same (Nat.le_refl _)
    (Bool.eq_false_iff.1 (overdue_of_ends he w o.table))
  obtain ⟨c, hc, href⟩ := hd.present
  exact ⟨c, hc, href, fun q a ↦ request_of_dated ho hd ha hc⟩

theorem untouched_start : start.Untouched := by
  refine ⟨fun i ↦ ?_, fun o ho ↦ by cases ho⟩
  have ht : start.table i = .empty := by
    cases i <;> rfl
  rw [ht]
  exact ClassTable.wellNumbered_empty

/-- A field is listed although the fields were asked for before it came, in a command that also
fails at something. -/
theorem fields_after_addField :
    let field : Field := ⟨"x", ⟨"int", 0⟩, .none, .dummy, .source⟩
    let ops : List Operation := [
      .command 0 false [.step (.edit (.addClass ⟨some "A", .ordinary, none, .dummy, .source⟩))],
      .openCache 0 0 0 {} none,
      .request 0 (.query .fields),
      .command 0 true [.step (.edit (.addField 0 field)), .step (.edit (.addField 1 field))]]
    start.Untouched ∧ (∀ op ∈ ops, op.Ends) ∧ Operation.sizes ops < UInt64.size ∧
      ((start.performAll ops).request 0 (.query .fields)).1 =
        some (.answer (.fields [⟨.declared 1, field⟩])) := by
  intro field ops
  have he : ∀ op ∈ ops, op.Ends := by simp [ops, Operation.Ends]
  have hn : Operation.sizes ops < UInt64.size := by decide
  refine ⟨untouched_start, he, hn, ?_⟩
  obtain ⟨c, hc, -, hq⟩ := request_eq_of_run untouched_start he hn (i := 0) rfl rfl
  obtain rfl := Option.some.inj hc
  exact hq .fields _ rfl

end Workspace

end ClassModel
