import ClassModel.Proofs.Table.InPlace
import ClassModel.Proofs.Workspace.Ledger

namespace ClassModel

namespace Workspace

variable {s : Workspace × Bool} {i : Nat} {e : Edit} {id : ClassId} {c : ClassNode}

/-- An edit of which all classes are there gives back its result. -/
theorem exists_act_edit (s : Workspace × Bool) (h : e.classes.find? (s.1.table i).lacks = none) :
    ∃ r d', (⟨s.1.table i, s.1.declared, s.2⟩ : Draft).Applied e r d' ∧
      (act i s (.step (.edit e))).1 = .ok (some (.edited r)) ∧
      ∀ j, (act i s (.step (.edit e))).2.1.table j =
        if j = i ∧ i < s.1.tables.length then d'.table else s.1.table j := by
  obtain ⟨r, d', he⟩ := Draft.exists_applied (d := ⟨s.1.table i, s.1.declared, s.2⟩) h
  have hact : (⟨s.1.table i, s.1.declared, s.2⟩ : Draft).act (.edit e) = (.ok r, d', []) := by
    rw [Draft.act, Draft.applyQuietly, he]
  refine ⟨r, d', Draft.applied_of_apply he, ?_, fun j ↦ ?_⟩
  · rw [fst_act_step, hact]
    rfl
  · rw [table_act_step, hact]

/-- What the edits about the members of a class give back and do to its lists, in a command on table
`i`. -/
structure Serves (s : Workspace × Bool) (i : Nat) (id : ClassId) (c : ClassNode) : Prop where
  addField : ∀ f, let r := act i s (.step (.edit (.addField id f)))
    ∃ tag, r.1 = .ok (some (.edited (.addedField ⟨tag, f⟩))) ∧
      Roster.fields.listAt r.2.1 (i, id) = c.body.fields ++ [⟨tag, f⟩]
  addMethod : ∀ m, let r := act i s (.step (.edit (.addMethod id m)))
    ∃ tag, r.1 = .ok (some (.edited (.addedMethod ⟨tag, m⟩))) ∧
      Roster.methods.listAt r.2.1 (i, id) = c.body.methods ++ [⟨tag, m⟩]
  removeField : ∀ name, let r := act i s (.step (.edit (.removeField id name)))
    r.1 = .ok (some (.edited (.removedField (c.body.fields.find? (·.decl.name == name))))) ∧
      Roster.fields.listAt r.2.1 (i, id) = c.body.fields.eraseP (·.decl.name == name)
  removeMethods : ∀ name, let r := act i s (.step (.edit (.removeMethods id name)))
    r.1 = .ok (some (.edited (.removedMethods (c.body.methods.filter (·.decl.name == name))))) ∧
      Roster.methods.listAt r.2.1 (i, id) = c.body.methods.filter (!·.decl.name == name)

theorem serves_of_class? (hc : (s.1.table i).class? id = some c) : Serves s i id c := by
  have hlacks : [id].find? (s.1.table i).lacks = none := by
    simp [ClassTable.lacks_of_class? hc]
  have hi : i < s.1.tables.length := lt_length_of_class? hc
  constructor
  · intro f
    obtain ⟨r, d', ha, hr, ht⟩ := exists_act_edit (e := .addField id f) s hlacks
    cases ha
    refine ⟨_, hr, ?_⟩
    rw [Roster.listAt, ht, if_pos ⟨rfl, hi⟩]
    exact Roster.fields.list_modifyBody_self hc _
  · intro m
    obtain ⟨r, d', ha, hr, ht⟩ := exists_act_edit (e := .addMethod id m) s hlacks
    cases ha
    refine ⟨_, hr, ?_⟩
    rw [Roster.listAt, ht, if_pos ⟨rfl, hi⟩]
    exact Roster.methods.list_modifyBody_self hc _
  · intro name
    obtain ⟨r, d', ha, hr, ht⟩ := exists_act_edit (e := .removeField id name) s hlacks
    dsimp only
    rw [hr, Roster.listAt, ht, if_pos ⟨rfl, hi⟩]
    cases ha with
    | keepField hc' hf =>
      obtain rfl := Option.some.inj (hc.symm.trans hc')
      rw [hf, Roster.fields.list_of_class? hc]
      exact ⟨rfl, (List.eraseP_of_forall_not (List.find?_eq_none.1 hf)).symm⟩
    | removeField hc' hf =>
      obtain rfl := Option.some.inj (hc.symm.trans hc')
      rw [hf]
      exact ⟨rfl, Roster.fields.list_modifyBody_self hc _⟩
  · intro name
    obtain ⟨r, d', ha, hr, ht⟩ := exists_act_edit (e := .removeMethods id name) s hlacks
    dsimp only
    rw [hr, Roster.listAt, ht, if_pos ⟨rfl, hi⟩]
    cases ha with
    | keepMethods hc' hm =>
      obtain rfl := Option.some.inj (hc.symm.trans hc')
      rw [hm, Roster.methods.list_of_class? hc]
      refine ⟨rfl, (List.filter_eq_self.2 fun m hmem ↦ ?_).symm⟩
      simpa using List.filter_eq_nil_iff.1 hm m hmem
    | removeMethods hc' hm =>
      obtain rfl := Option.some.inj (hc.symm.trans hc')
      exact ⟨rfl, Roster.methods.list_modifyBody_self hc _⟩

/-- All lists of members are accounted for by what commands, failing ones among them, have given
back: a list has what has been added to it and not been removed since, in the order in which it was
added; an entry stands in its list once and in no other, and nowhere after it has been removed; what
an edit removes is what it should find in the list; and an action changes no list but the one that
its edit is about. An edit of which the classes are there gives back its result, and what a command
gives back covers the actions that it has carried out. -/
theorem members_accounted_for (ops : List Operation) :
    let w := start.performAll ops
    let tr := start.history ops
    Roster.fields.Accounts tr w ∧ Roster.methods.Accounts tr w ∧ Roster.innerTypes.Accounts tr w ∧
    (∀ later, tr <+: start.history (ops ++ later)) ∧
    (∀ (s : Workspace × Bool) i a p,
      let change := Change.of? i a (act i s a).1
      (Roster.fields.listAt (act i s a).2.1 p ≠ Roster.fields.listAt s.1 p →
        change.bind Roster.fields.place? = some p) ∧
      (Roster.methods.listAt (act i s a).2.1 p ≠ Roster.methods.listAt s.1 p →
        change.bind Roster.methods.place? = some p) ∧
      (Roster.innerTypes.listAt (act i s a).2.1 p ≠ Roster.innerTypes.listAt s.1 p →
        change.bind Roster.innerTypes.place? = some p)) ∧
    (∀ (s : Workspace × Bool) i e, e.classes.find? (s.1.table i).lacks = none →
      ∃ r, (act i s (.step (.edit e))).1 = .ok (some (.edited r))) ∧
    (∀ (s : Workspace × Bool) i id c, (s.1.table i).class? id = some c → Serves s i id c) ∧
    ∀ (w : Workspace) i keepGoing actions, ∃ s : Workspace × Bool,
      (w.command i keepGoing actions).1.Covers (act i) keepGoing (w, false) actions s ∧
      ∀ j, ((w.command i keepGoing actions).2.table j).classes = (s.1.table j).classes := by
  intro w tr
  refine ⟨?_, ?_, ?_, ?_, ?_, ?_, ?_, ?_⟩
  · exact ((Roster.Ledger.start Roster.fields).performAll Roster.lawful_fields ops).accounts
  · exact ((Roster.Ledger.start Roster.methods).performAll Roster.lawful_methods ops).accounts
  · exact ((Roster.Ledger.start Roster.innerTypes).performAll
      Roster.lawful_innerTypes ops).accounts
  · intro later
    exact ⟨_, (start.history_append ops later).symm⟩
  · intro s i a p
    exact ⟨Roster.listAt_act Roster.lawful_fields, Roster.listAt_act Roster.lawful_methods,
      Roster.listAt_act Roster.lawful_innerTypes⟩
  · intro s i e h
    obtain ⟨r, -, -, hr, -⟩ := exists_act_edit s h
    exact ⟨r, hr⟩
  · intro s i id c hc
    exact serves_of_class? hc
  · intro w i keepGoing actions
    exact ⟨_, carryOut_covers (act i) keepGoing (w, false) actions,
      w.classes_command i keepGoing actions⟩

/-- Three fields of two names and three methods of two names. A field and two methods are removed,
as is a field that is not there, and one in a class that is not there. -/
theorem members_after_removals :
    let field (name : String) : Field := ⟨name, ⟨"int", 0⟩, .none, .dummy, .source⟩
    let method (name : String) : Method :=
      ⟨name, some ⟨"int", 0⟩, [], .none, [], false, false, false, none, false, .dummy, .source⟩
    let ops : List Operation := [
      .command 0 false [.step (.edit (.addClass ⟨some "A", .ordinary, none, .dummy, .source⟩)),
        .step (.edit (.addField 0 (field "x"))), .step (.edit (.addField 0 (field "y"))),
        .step (.edit (.addField 0 (field "x"))), .step (.edit (.addMethod 0 (method "f"))),
        .step (.edit (.addMethod 0 (method "g"))), .step (.edit (.addMethod 0 (method "f")))],
      .command 0 true [.step (.edit (.removeField 0 "x")), .step (.edit (.removeField 0 "z")),
        .step (.edit (.removeField 1 "x")), .step (.edit (.removeMethods 0 "f"))]]
    let w := start.performAll ops
    Roster.fields.listAt w (0, 0) = [⟨.declared 2, field "y"⟩, ⟨.declared 3, field "x"⟩] ∧
      Roster.methods.listAt w (0, 0) = [⟨.declared 5, method "g"⟩] ∧
      (∀ q, (Roster.fields.listAt w q).count ⟨.declared 1, field "x"⟩ = 0) ∧
      ∃ c, (w.table 0).class? 0 = some c ∧
        (act 0 (w, false) (.step (.edit (.removeField 0 "x")))).1 =
          .ok (some (.edited (.removedField (some ⟨.declared 3, field "x"⟩)))) := by
  intro field method ops w
  obtain ⟨hfields, hmethods, -, -, -, -, hserves, -⟩ := members_accounted_for ops
  have hlist : Roster.fields.listAt w (0, 0) =
      [⟨.declared 2, field "y"⟩, ⟨.declared 3, field "x"⟩] := by
    rw [hfields.lists]
    decide +kernel
  refine ⟨hlist, ?_, fun q ↦ ?_, ?_⟩
  · rw [hmethods.lists]
    decide +kernel
  · have hadded : ((0, 0), ⟨.declared 1, field "x"⟩) ∈
        Roster.fields.additions (start.history ops) := by
      decide +kernel
    have hremoved : (⟨.declared 1, field "x"⟩ : Handle Field) ∈
        Roster.fields.removals (start.history ops) := by
      decide +kernel
    rw [hfields.once _ _ hadded q, if_neg fun h ↦ h.2 hremoved]
  · have hsome : ((w.table 0).class? 0).isSome = true := by decide +kernel
    clear_value w
    obtain ⟨c, hc⟩ := Option.isSome_iff_exists.1 hsome
    rw [Roster.listAt, Roster.fields.list_of_class? hc] at hlist
    have hfind : c.body.fields.find? (·.decl.name == "x") = some ⟨.declared 3, field "x"⟩ := by
      rw [show c.body.fields = _ from hlist]
      rfl
    have hremove := ((hserves (w, false) 0 0 c hc).removeField "x").1
    rw [hfind] at hremove
    exact ⟨c, hc, hremove⟩

end Workspace

end ClassModel
