import ClassModel.Proofs.Table.Editing

namespace ClassModel

def Edit.classes : Edit → List ClassId
  | .addClass h => h.superClass.toList
  | .addInner outer h => outer :: h.superClass.toList
  | .addField id _ | .addMethod id _ | .removeField id _ | .removeMethods id _ => [id]

namespace ClassTable

variable {t : ClassTable} {id : ClassId}

def lacks (t : ClassTable) (id : ClassId) : Bool := (t.class? id).isNone

theorem lacks_of_class? {c : ClassNode} (hc : t.class? id = some c) : t.lacks id = false := by
  rw [lacks, hc]
  rfl

theorem exists_of_not_lacks (h : t.lacks id = false) : ∃ c, t.class? id = some c := by
  rw [lacks, Option.isNone_eq_false_iff, Option.isSome_iff_exists] at h
  exact h

theorem require_of_lacks (h : t.lacks id = true) : t.require id = .error ⟨id⟩ := by
  rw [require, Option.isNone_iff_eq_none.1 h]

/-- A super class that is not there is the only thing that can stop a class from being added. -/
theorem requireSuper_eq (t : ClassTable) (h : ClassHeader) :
    t.requireSuper h = match h.superClass.toList.find? t.lacks with
      | some id => .error ⟨id⟩
      | none => .ok () := by
  unfold requireSuper
  cases h.superClass with
  | none => rfl
  | some s =>
    rw [Option.toList_some, List.find?_singleton]
    cases hs : t.lacks s with
    | true => simp [require_of_lacks hs, Except.map]
    | false =>
      obtain ⟨c, hc⟩ := exists_of_not_lacks hs
      simp [Draft.require_eq_ok.2 hc, Except.map]

theorem modifyBody_eq_self {c : ClassNode} {f : ClassBody → ClassBody} (hc : t.class? id = some c)
    (hf : f c.body = c.body) : t.modifyBody id f = t := by
  have hclasses : (t.modifyBody id f).classes = t.classes :=
    Numbered.modify_eq_self hc (congrArg (ClassNode.mk c.ref) hf)
  exact congrArg (fun classes ↦ { t with classes }) hclasses

end ClassTable

namespace Draft

open ClassTable

/-- Work on a draft. A failure leaves the draft as it is then. -/
abbrev Work := EStateM UnknownClass Draft

namespace Work

def require (id : ClassId) : Work ClassNode := do
  match (← get).table.class? id with
  | some c => pure c
  | none => throw ⟨id⟩

def tag : Work Tag :=
  modifyGet fun d ↦ (.declared d.declared, { d with declared := d.declared + 1 })

def push (h : ClassHeader) : Work ClassRef := do
  if let some s := h.superClass then
    let _ ← require s
  let c : ClassRef := ⟨← tag, (← get).table.classes.next, h⟩
  modify fun d ↦
    { d with table := { d.table with classes := (d.table.classes.add ⟨c, .none⟩).2 } }
  pure c

def writeBody (id : ClassId) (f : ClassBody → ClassBody) : Work Unit :=
  modify fun d ↦ { d with table := d.table.modifyBody id f }

def mark (changed : Bool) : Work Unit :=
  modify fun d ↦ { d with changed := changed || d.changed }

def edit : Edit → Work Edited
  | .addClass h => do
    let c ← push h
    mark true
    pure (.addedClass c)
  | .addInner outer h => do
    let _ ← require outer
    let c ← push h
    writeBody outer (·.addInnerType c)
    mark true
    pure (.addedClass c)
  | .addField id field => do
    let _ ← require id
    let f : Handle Field := ⟨← tag, field⟩
    writeBody id (·.addField f)
    mark true
    pure (.addedField f)
  | .addMethod id method => do
    let _ ← require id
    let m : Handle Method := ⟨← tag, method⟩
    writeBody id (·.addMethod m)
    mark true
    pure (.addedMethod m)
  | .removeField id name => do
    let c ← require id
    let f := c.body.fields.find? (·.decl.name == name)
    writeBody id (·.removeField (·.decl.name == name))
    mark f.isSome
    pure (.removedField f)
  | .removeMethods id name => do
    let c ← require id
    let ms := c.body.methods.filter (·.decl.name == name)
    writeBody id (·.removeMethods (·.decl.name == name))
    mark (!ms.isEmpty)
    pure (.removedMethods ms)

variable {d d' : Draft} {α β : Type}

theorem run_bind_ok {x : Work α} {f : α → Work β} {a : α} (h : x.run d = .ok a d') :
    (x >>= f).run d = (f a).run d' := by
  simp only [EStateM.run] at h
  simp [EStateM.run, bind, EStateM.bind, h]

theorem run_bind_error {x : Work α} {f : α → Work β} {e : UnknownClass}
    (h : x.run d = .error e d') : (x >>= f).run d = .error e d' := by
  simp only [EStateM.run] at h
  simp [EStateM.run, bind, EStateM.bind, h]

theorem run_require {id : ClassId} {c : ClassNode} (hc : d.table.class? id = some c) :
    (require id).run d = .ok c d := by
  have hread : (get : Work Draft).run d = .ok d d := rfl
  rw [require, run_bind_ok hread, hc]
  rfl

theorem run_require_lacks {id : ClassId} (h : d.table.lacks id = true) :
    (require id).run d = .error ⟨id⟩ d := by
  have hread : (get : Work Draft).run d = .ok d d := rfl
  rw [require, run_bind_ok hread, Option.isNone_iff_eq_none.1 h]
  rfl

theorem run_push {h : ClassHeader} (hs : d.table.requireSuper h = .ok ()) :
    (push h).run d = .ok (d.allocate h).1 { (d.allocate h).2 with changed := d.changed } := by
  rw [requireSuper_eq] at hs
  unfold push
  cases hsuper : h.superClass with
  | none => rfl
  | some s =>
    rw [hsuper, Option.toList_some, List.find?_singleton] at hs
    cases hl : d.table.lacks s with
    | true => simp [hl] at hs
    | false =>
      obtain ⟨c, hc⟩ := exists_of_not_lacks hl
      rw [run_bind_ok (run_require hc)]
      rfl

theorem run_push_lacks {h : ClassHeader} {id : ClassId}
    (hs : h.superClass.toList.find? d.table.lacks = some id) :
    (push h).run d = .error ⟨id⟩ d := by
  unfold push
  cases hsuper : h.superClass with
  | none => simp [hsuper] at hs
  | some s =>
    rw [hsuper, Option.toList_some, List.find?_singleton] at hs
    cases hl : d.table.lacks s with
    | true =>
      obtain rfl : s = id := by simpa [hl] using hs
      exact run_bind_error (run_require_lacks hl)
    | false => simp [hl] at hs

theorem run_writeBody_self {id : ClassId} {c : ClassNode} {f : ClassBody → ClassBody}
    (hc : d.table.class? id = some c) (hf : f c.body = c.body) :
    (writeBody id f).run d = .ok () d := by
  have ht : d.table.modifyBody id f = d.table := modifyBody_eq_self hc hf
  have hrun : (writeBody id f).run d = .ok () { d with table := d.table.modifyBody id f } := rfl
  rw [hrun, ht]

/-- In place an edit comes to the draft that it should. -/
theorem run_edit_ok {e : Edit} {r : Edited} (h : d.Applied e r d') :
    (edit e).run d = .ok r d' := by
  cases h with
  | addClass hs => exact (run_bind_ok (run_push hs)).trans rfl
  | addInner hc hs =>
    refine (run_bind_ok (run_require hc)).trans ?_
    exact (run_bind_ok (run_push hs)).trans rfl
  | addField hc | addMethod hc => exact (run_bind_ok (run_require hc)).trans rfl
  | @keepField id c name hc hf =>
    have hkeep : c.body.fields.eraseP (·.decl.name == name) = c.body.fields :=
      List.eraseP_of_forall_not (List.find?_eq_none.1 hf)
    have hbody : c.body.removeField (·.decl.name == name) = c.body :=
      congrArg (fun fs ↦ { c.body with fields := fs }) hkeep
    refine (run_bind_ok (run_require hc)).trans ?_
    rw [hf]
    exact (run_bind_ok (run_writeBody_self hc hbody)).trans rfl
  | removeField hc hf =>
    refine (run_bind_ok (run_require hc)).trans ?_
    rw [hf]
    rfl
  | @keepMethods id c name hc hm =>
    have hkeep : (c.body.methods.filter fun m ↦ !(m.decl.name == name)) = c.body.methods := by
      rw [List.filter_eq_self]
      intro m hmem
      simpa using List.filter_eq_nil_iff.1 hm m hmem
    have hbody : c.body.removeMethods (·.decl.name == name) = c.body :=
      congrArg (fun ms ↦ { c.body with methods := ms }) hkeep
    refine (run_bind_ok (run_require hc)).trans ?_
    rw [hm]
    exact (run_bind_ok (run_writeBody_self hc hbody)).trans rfl
  | @removeMethods id c name hc hm =>
    refine (run_bind_ok (run_require hc)).trans ?_
    obtain ⟨m, ms, hcons⟩ := List.exists_cons_of_ne_nil hm
    rw [hcons]
    rfl

/-- An edit looks for all classes that it needs before it does anything. -/
theorem run_edit_lacks {e : Edit} {id : ClassId} (h : e.classes.find? d.table.lacks = some id) :
    (edit e).run d = .error ⟨id⟩ d := by
  have hone (j : ClassId) (hj : [j].find? d.table.lacks = some id) :
      (require j).run d = .error ⟨id⟩ d := by
    obtain ⟨hl, rfl⟩ : d.table.lacks j = true ∧ j = id := by
      simpa [List.find?_singleton] using hj
    exact run_require_lacks hl
  cases e with
  | addClass h' => exact run_bind_error (run_push_lacks h)
  | addInner outer h' =>
    rw [Edit.classes, List.find?_cons] at h
    cases hl : d.table.lacks outer with
    | true =>
      obtain rfl : outer = id := by simpa [hl] using h
      exact run_bind_error (run_require_lacks hl)
    | false =>
      obtain ⟨c, hc⟩ := exists_of_not_lacks hl
      rw [hl] at h
      exact (run_bind_ok (run_require hc)).trans (run_bind_error (run_push_lacks h))
  | addField j | addMethod j | removeField j | removeMethods j => exact run_bind_error (hone j h)

end Work

end Draft

namespace Step

def failure? (t : ClassTable) : Step → Option Halt
  | .edit e => (e.classes.find? t.lacks).map fun id ↦ .unknownClass ⟨id⟩
  | .declare id file text =>
    match t.class? id with
    | none => some (.unknownClass ⟨id⟩)
    | some c =>
      match (readMethod file c.ref.context text).result with
      | .ok _ => none
      | .error e => some (.unreadable e)
  | .abort => some .aborted

def reports (t : ClassTable) : Step → List Report
  | .declare id file text =>
    (t.class? id).elim [] fun c ↦ (readMethod file c.ref.context text).reports
  | .edit _ | .abort => []

theorem failure?_of_classes {t t' : ClassTable} (h : t'.classes = t.classes) (k : Step) :
    k.failure? t' = k.failure? t ∧ k.reports t' = k.reports t := by
  have hclass : t'.class? = t.class? := congrArg Numbered.get? h
  have hlacks : t'.lacks = t.lacks := congrArg (fun f id ↦ (f id).isNone) hclass
  cases k with
  | edit e => simp only [failure?, reports, hlacks, and_self]
  | declare id file text => simp only [failure?, reports, hclass, and_self]
  | abort => exact ⟨rfl, rfl⟩

end Step

namespace Draft

open ClassTable

variable {d : Draft} {e : Edit}

theorem apply_lacks {id : ClassId} (h : e.classes.find? d.table.lacks = some id) :
    d.apply e = .error ⟨id⟩ := by
  have hsuper (h' : ClassHeader) (hs : h'.superClass.toList.find? d.table.lacks = some id) :
      d.table.requireSuper h' = .error ⟨id⟩ := by
    rw [requireSuper_eq, hs]
  have hone (j : ClassId) (hj : [j].find? d.table.lacks = some id) :
      d.table.require j = .error ⟨id⟩ := by
    obtain ⟨hl, rfl⟩ : d.table.lacks j = true ∧ j = id := by
      simpa [List.find?_singleton] using hj
    exact require_of_lacks hl
  cases e with
  | addClass h' => simp [apply, hsuper h' h, bind, Except.bind]
  | addInner outer h' =>
    rw [Edit.classes, List.find?_cons] at h
    cases hl : d.table.lacks outer with
    | true =>
      obtain rfl : outer = id := by simpa [hl] using h
      simp [apply, require_of_lacks hl, bind, Except.bind]
    | false =>
      obtain ⟨c, hc⟩ := exists_of_not_lacks hl
      rw [hl] at h
      simp [apply, require_eq_ok.2 hc, hsuper h' h, bind, Except.bind]
  | addField j | addMethod j | removeField j | removeMethods j =>
    simp [apply, hone j h, bind, Except.bind]

theorem exists_applied (h : e.classes.find? d.table.lacks = none) :
    ∃ r d', d.apply e = .ok (r, d') := by
  have hsuper (h' : ClassHeader) (hs : h'.superClass.toList.find? d.table.lacks = none) :
      d.table.requireSuper h' = .ok () := by
    rw [requireSuper_eq, hs]
  have hpresent : ∀ j ∈ e.classes, ∃ c, d.table.class? j = some c := by
    intro j hj
    exact exists_of_not_lacks (Bool.eq_false_iff.2 (List.find?_eq_none.1 h j hj))
  cases e with
  | addClass h' => simp [apply, hsuper h' h, bind, Except.bind]
  | addInner outer h' =>
    obtain ⟨c, hc⟩ := hpresent outer List.mem_cons_self
    rw [Edit.classes, List.find?_cons, lacks_of_class? hc] at h
    simp [apply, require_eq_ok.2 hc, hsuper h' h, bind, Except.bind]
  | addField j | addMethod j =>
    obtain ⟨c, hc⟩ := hpresent j List.mem_cons_self
    simp [apply, require_eq_ok.2 hc, bind, Except.bind]
  | removeField j name =>
    obtain ⟨c, hc⟩ := hpresent j List.mem_cons_self
    cases hf : c.body.fields.find? (·.decl.name == name) <;>
      simp [apply, require_eq_ok.2 hc, hf, bind, Except.bind]
  | removeMethods j name =>
    obtain ⟨c, hc⟩ := hpresent j List.mem_cons_self
    cases hm : c.body.methods.filter (·.decl.name == name) <;>
      simp [apply, require_eq_ok.2 hc, hm, bind, Except.bind]

/-- In place or not, an edit fails with the first class that it needs and that is not there. Then
nothing has been done. Otherwise it succeeds, and both ways come to the same. -/
theorem run_edit (d : Draft) (e : Edit) :
    match e.classes.find? d.table.lacks with
    | some id => d.apply e = .error ⟨id⟩ ∧ (Work.edit e).run d = .error ⟨id⟩ d
    | none => ∃ r d', d.apply e = .ok (r, d') ∧ (Work.edit e).run d = .ok r d' := by
  cases h : e.classes.find? d.table.lacks with
  | some id => exact ⟨apply_lacks h, Work.run_edit_lacks h⟩
  | none =>
    obtain ⟨r, d', he⟩ := exists_applied h
    exact ⟨r, d', he, Work.run_edit_ok (applied_of_apply he)⟩

theorem act_failure {k : Step} {x : Halt} (h : k.failure? d.table = some x) :
    d.act k = (.error x, d, k.reports d.table) := by
  cases k with
  | edit e =>
    obtain ⟨id, hid, rfl⟩ := Option.map_eq_some_iff.1 h
    rw [act, applyQuietly, apply_lacks hid]
    rfl
  | declare id file text =>
    cases hc : d.table.class? id with
    | none =>
      simp only [Step.failure?, hc] at h
      obtain rfl := Option.some.inj h
      rw [act_declare_of_none file text hc, Step.reports, hc]
      rfl
    | some c =>
      cases hr : (readMethod file c.ref.context text).result with
      | ok m => simp [Step.failure?, hc, hr] at h
      | error y =>
        simp only [Step.failure?, hc, hr] at h
        obtain rfl := Option.some.inj h
        rw [act_declare_of_error hc hr, Step.reports, hc]
        rfl
  | abort =>
    obtain rfl := Option.some.inj h
    rfl

theorem failure?_of_act {k : Step} {x : Halt} (h : (d.act k).1 = .error x) :
    k.failure? d.table = some x := by
  cases hk : k.failure? d.table with
  | some y =>
    rw [act_failure hk] at h
    exact congrArg some (Except.error.inj h)
  | none =>
    have hok : ∀ e r d', d.apply e = .ok (r, d') → (d.applyQuietly e).1 = .ok r := by
      intro e r d' he
      rw [applyQuietly, he]
    cases k with
    | edit e =>
      obtain ⟨r, d', he⟩ := exists_applied (Option.map_eq_none_iff.1 hk)
      rw [act, hok e r d' he] at h
      cases h
    | declare id file text =>
      cases hc : d.table.class? id with
      | none => simp [Step.failure?, hc] at hk
      | some c =>
        cases hr : (readMethod file c.ref.context text).result with
        | error y => simp [Step.failure?, hc, hr] at hk
        | ok m =>
          have hl : [id].find? d.table.lacks = none := by
            simp [lacks_of_class? hc]
          obtain ⟨r, d', he⟩ := exists_applied (e := .addMethod id m) hl
          rw [act_declare_of_ok hc hr, hok _ r d' he] at h
          cases h
    | abort => cases hk

end Draft

end ClassModel
