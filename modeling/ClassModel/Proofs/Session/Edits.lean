import ClassModel.Proofs.Session.Tables

namespace ClassModel

variable {f : String → String}

namespace Draft

variable (d : Draft)

theorem allocate_rename (h : ClassHeader) :
    (rename f d).allocate (rename f h) = rename f (d.allocate h) := by
  have hnext : (rename f d).table.classes.next = d.table.classes.next :=
    d.table.classes.next_rename
  have hadd := d.table.classes.add_rename (f := f) ⟨(d.allocate h).1, .none⟩
  unfold allocate
  rw [hnext]
  exact congrArg (fun cs ↦ ((⟨.declared d.declared, d.table.classes.next, rename f h⟩ : ClassRef),
    (⟨⟨cs, d.table.modifications⟩, d.declared + 1, true⟩ : Draft))) hadd

theorem modifyBody_rename (id : ClassId) {g g' : ClassBody → ClassBody}
    (h : ∀ b, g' (rename f b) = rename f (g b)) :
    (rename f d).modifyBody id g' = rename f (d.modifyBody id g) :=
  congrArg (fun t ↦ (⟨t, d.declared, true⟩ : Draft)) (d.table.modifyBody_rename id h)

theorem declare_modifyBody_rename (id : ClassId) {g g' : ClassBody → ClassBody}
    (h : ∀ b, g' (rename f b) = rename f (g b)) :
    (rename f d).declare ((rename f d).table.modifyBody id g') =
      rename f (d.declare (d.table.modifyBody id g)) :=
  congrArg (fun t ↦ (⟨t, d.declared + 1, true⟩ : Draft)) (d.table.modifyBody_rename id h)

theorem apply_removeField {id : ClassId} {c : ClassNode} {name : String}
    {found : Option (Handle Field)} (hc : d.table.require id = .ok c)
    (hfound : c.body.fields.find? (·.decl.name == name) = found) :
    d.apply (.removeField id name) = .ok (.removedField found,
      found.elim d fun _ ↦ d.modifyBody id (·.removeField (·.decl.name == name))) := by
  simp only [apply, hc, bind, Except.bind, hfound]
  cases found <;> rfl

theorem apply_removeMethods {id : ClassId} {c : ClassNode} {name : String}
    {found : List (Handle Method)} (hc : d.table.require id = .ok c)
    (hfound : c.body.methods.filter (·.decl.name == name) = found) :
    d.apply (.removeMethods id name) = .ok (.removedMethods found,
      if found = [] then d else d.modifyBody id (·.removeMethods (·.decl.name == name))) := by
  simp only [apply, hc, bind, Except.bind, hfound]
  cases found <;> rfl

theorem apply_removeField_rename (hf : f.Injective) (id : ClassId) (name : String) :
    (rename f d).apply (.removeField id (f name)) = rename f (d.apply (.removeField id name)) := by
  have hrequire : (rename f d).table.require id = rename f (d.table.require id) :=
    d.table.require_rename id
  have hname (a : Handle Field) : ((rename f a).decl.name == f name) = (a.decl.name == name) :=
    hf.beq_eq
  have hbody : (rename f d).modifyBody id (·.removeField (·.decl.name == f name)) =
      rename f (d.modifyBody id (·.removeField (·.decl.name == name))) :=
    d.modifyBody_rename id fun b ↦ b.removeField_rename hname
  cases hc : d.table.require id with
  | error x =>
    rw [hc] at hrequire
    rw [apply, hrequire, apply, hc]
    rfl
  | ok c =>
    rw [hc] at hrequire
    have hfound : (rename f c).body.fields.find? (·.decl.name == f name) =
        rename f (c.body.fields.find? (·.decl.name == name)) :=
      find?_rename hname c.body.fields
    rw [apply_removeField _ hrequire hfound, d.apply_removeField hc rfl, hbody]
    cases c.body.fields.find? (·.decl.name == name) <;> rfl

theorem apply_removeMethods_rename (hf : f.Injective) (id : ClassId) (name : String) :
    (rename f d).apply (.removeMethods id (f name)) =
      rename f (d.apply (.removeMethods id name)) := by
  have hrequire : (rename f d).table.require id = rename f (d.table.require id) :=
    d.table.require_rename id
  have hname (a : Handle Method) : ((rename f a).decl.name == f name) = (a.decl.name == name) :=
    hf.beq_eq
  have hbody : (rename f d).modifyBody id (·.removeMethods (·.decl.name == f name)) =
      rename f (d.modifyBody id (·.removeMethods (·.decl.name == name))) :=
    d.modifyBody_rename id fun b ↦ b.removeMethods_rename hname
  cases hc : d.table.require id with
  | error x =>
    rw [hc] at hrequire
    rw [apply, hrequire, apply, hc]
    rfl
  | ok c =>
    rw [hc] at hrequire
    have hfound : (rename f c).body.methods.filter (·.decl.name == f name) =
        rename f (c.body.methods.filter (·.decl.name == name)) :=
      filter_rename hname c.body.methods
    rw [apply_removeMethods _ hrequire hfound, d.apply_removeMethods hc rfl, hbody]
    cases c.body.methods.filter (·.decl.name == name) <;> rfl

theorem apply_rename (hf : f.Injective) (e : Edit) :
    (rename f d).apply (rename f e) = rename f (d.apply e) := by
  have hrequire (id : ClassId) : (rename f d).table.require id = rename f (d.table.require id) :=
    d.table.require_rename id
  have hsuper (h : ClassHeader) :
      (rename f d).table.requireSuper (rename f h) = d.table.requireSuper h :=
    d.table.requireSuper_rename h
  cases e with
  | addClass h =>
    change (rename f d).apply (.addClass (rename f h)) = _
    rw [apply, hsuper, allocate_rename, apply]
    cases d.table.requireSuper h <;> rfl
  | addInner outer h =>
    change (rename f d).apply (.addInner outer (rename f h)) = _
    rw [apply, hsuper, hrequire, allocate_rename, apply]
    cases d.table.require outer with
    | error x => rfl
    | ok b =>
      cases d.table.requireSuper h with
      | error x => rfl
      | ok u =>
        let c := (d.allocate h).1
        have hbody : (rename f (d.allocate h).2).modifyBody outer (·.addInnerType (rename f c)) =
            rename f ((d.allocate h).2.modifyBody outer (·.addInnerType c)) :=
          modifyBody_rename _ outer fun b ↦ b.addInnerType_rename c
        exact congrArg (fun d' ↦ Except.ok (Edited.addedClass (rename f c), d')) hbody
  | addField id field =>
    let a : Handle Field := ⟨.declared d.declared, field⟩
    have hbody : (rename f d).declare ((rename f d).table.modifyBody id (·.addField (rename f a))) =
        rename f (d.declare (d.table.modifyBody id (·.addField a))) :=
      d.declare_modifyBody_rename id fun b ↦ b.addField_rename a
    change (rename f d).apply (.addField id (rename f field)) = _
    rw [apply, hrequire, apply]
    cases d.table.require id with
    | error x => rfl
    | ok c => exact congrArg (fun d' ↦ Except.ok (Edited.addedField (rename f a), d')) hbody
  | addMethod id method =>
    let a : Handle Method := ⟨.declared d.declared, method⟩
    have hbody :
        (rename f d).declare ((rename f d).table.modifyBody id (·.addMethod (rename f a))) =
        rename f (d.declare (d.table.modifyBody id (·.addMethod a))) :=
      d.declare_modifyBody_rename id fun b ↦ b.addMethod_rename a
    change (rename f d).apply (.addMethod id (rename f method)) = _
    rw [apply, hrequire, apply]
    cases d.table.require id with
    | error x => rfl
    | ok c => exact congrArg (fun d' ↦ Except.ok (Edited.addedMethod (rename f a), d')) hbody
  | removeField id name => exact d.apply_removeField_rename hf id name
  | removeMethods id name => exact d.apply_removeMethods_rename hf id name

end Draft

end ClassModel
