import ClassModel.Table.Command

namespace ClassModel

namespace ClassTable

def WellNumbered (t : ClassTable) : Prop :=
  ∀ id c, t.class? id = some c → c.ref.id = id

/-- Classes do not vanish, and keep what they were declared with. -/
def Extends (t t' : ClassTable) : Prop :=
  ∀ id c, t.class? id = some c → ∃ c', t'.class? id = some c' ∧ c'.ref = c.ref

variable {t t' t'' : ClassTable}

theorem Extends.refl (t : ClassTable) : t.Extends t := fun _ c h ↦ ⟨c, h, rfl⟩

theorem Extends.trans (h : t.Extends t') (h' : t'.Extends t'') : t.Extends t'' := by
  intro id c hc
  obtain ⟨c', hc', he⟩ := h id c hc
  obtain ⟨c'', hc'', he'⟩ := h' id c' hc'
  exact ⟨c'', hc'', he'.trans he⟩

theorem wellNumbered_empty : empty.WellNumbered := by
  intro id c h
  cases h

theorem class?_modifyBody (t : ClassTable) (id j : ClassId) (f : ClassBody → ClassBody) :
    (t.modifyBody id f).class? j =
      if id = j then (t.class? j).map fun c ↦ { c with body := f c.body } else t.class? j :=
  t.classes.get?_modify id j _

theorem classes_modifyBody_ne {id : ClassId} {c : ClassNode} {f : ClassBody → ClassBody}
    (hc : t.class? id = some c) (hf : f c.body ≠ c.body) :
    (t.modifyBody id f).classes ≠ t.classes := by
  intro he
  have h : (t.modifyBody id f).class? id = t.class? id := congrArg (·.get? id) he
  rw [class?_modifyBody, if_pos rfl, hc] at h
  exact hf (congrArg ClassNode.body (Option.some.inj h))

theorem size_modifyBody (t : ClassTable) (id : ClassId) (f : ClassBody → ClassBody) :
    (t.modifyBody id f).classes.size = t.classes.size :=
  t.classes.size_modify id _

theorem extends_modifyBody (t : ClassTable) (id : ClassId) (f : ClassBody → ClassBody) :
    t.Extends (t.modifyBody id f) := by
  intro j c hc
  rw [class?_modifyBody, hc]
  split
  · exact ⟨_, rfl, rfl⟩
  · exact ⟨c, rfl, rfl⟩

theorem WellNumbered.modifyBody (h : t.WellNumbered) (id : ClassId) (f : ClassBody → ClassBody) :
    (t.modifyBody id f).WellNumbered := by
  intro j c hc
  rw [class?_modifyBody] at hc
  split at hc
  · obtain ⟨c', hc', rfl⟩ := Option.map_eq_some_iff.1 hc
    exact h j c' hc'
  · exact h j c hc

end ClassTable

def Step.Asks : Step → Edit → Prop
  | .edit e, e' => e' = e
  | .declare id _ _, e' => ∃ m, e' = .addMethod id m
  | .abort, _ => False

def Edited.effective : Edited → Bool
  | .addedClass _ | .addedField _ | .addedMethod _ => true
  | .removedField f => f.isSome
  | .removedMethods ms => !ms.isEmpty

namespace Draft

open ClassTable

variable {d d' d'' : Draft}

theorem table_declare (d : Draft) (t : ClassTable) : (d.declare t).table = t := rfl

theorem table_modifyBody (d : Draft) (id : ClassId) (f : ClassBody → ClassBody) :
    (d.modifyBody id f).table = d.table.modifyBody id f := rfl

theorem class?_allocate (d : Draft) (h : ClassHeader) (j : ClassId) :
    (d.allocate h).2.table.class? j =
      if j.toNat = d.table.classes.size then some ⟨(d.allocate h).1, .none⟩
      else d.table.class? j :=
  d.table.classes.get?_add _ j

theorem size_allocate (d : Draft) (h : ClassHeader) :
    (d.allocate h).2.table.classes.size = d.table.classes.size + 1 :=
  d.table.classes.size_add _

theorem classes_ne_of_size {t t' : ClassTable} (h : t'.classes.size = t.classes.size + 1) :
    t'.classes ≠ t.classes := by
  intro he
  rw [he] at h
  exact Nat.succ_ne_self _ h.symm

theorem class?_allocate_of_some (d : Draft) (h : ClassHeader) {j : ClassId} {c : ClassNode}
    (hc : d.table.class? j = some c) : (d.allocate h).2.table.class? j = some c := by
  rw [class?_allocate, if_neg (Nat.ne_of_lt (Numbered.lt_size_of_get? hc)), hc]

theorem extends_allocate (d : Draft) (h : ClassHeader) :
    d.table.Extends (d.allocate h).2.table :=
  fun _ c hc ↦ ⟨c, d.class?_allocate_of_some h hc, rfl⟩

theorem wellNumbered_allocate (h : d.table.WellNumbered) (hd : ClassHeader) :
    (d.allocate hd).2.table.WellNumbered := by
  intro j c hc
  rw [class?_allocate] at hc
  split at hc
  · next hj =>
    obtain rfl := Option.some.inj hc
    exact Numbered.next_eq hj
  · exact h j c hc

/-- All that an edit can do when it does not fail. -/
inductive Applied (d : Draft) : Edit → Edited → Draft → Prop
  | addClass {h : ClassHeader} (hs : d.table.requireSuper h = .ok ()) :
    Applied d (.addClass h) (.addedClass (d.allocate h).1) (d.allocate h).2
  | addInner {outer : ClassId} {c : ClassNode} {h : ClassHeader}
      (hc : d.table.class? outer = some c) (hs : d.table.requireSuper h = .ok ()) :
    Applied d (.addInner outer h) (.addedClass (d.allocate h).1)
      ((d.allocate h).2.modifyBody outer (·.addInnerType (d.allocate h).1))
  | addField {id : ClassId} {c : ClassNode} {f : Field} (hc : d.table.class? id = some c) :
    Applied d (.addField id f) (.addedField ⟨.declared d.declared, f⟩)
      (d.declare (d.table.modifyBody id (·.addField ⟨.declared d.declared, f⟩)))
  | addMethod {id : ClassId} {c : ClassNode} {m : Method} (hc : d.table.class? id = some c) :
    Applied d (.addMethod id m) (.addedMethod ⟨.declared d.declared, m⟩)
      (d.declare (d.table.modifyBody id (·.addMethod ⟨.declared d.declared, m⟩)))
  | keepField {id : ClassId} {c : ClassNode} {name : String} (hc : d.table.class? id = some c)
      (hf : c.body.fields.find? (·.decl.name == name) = none) :
    Applied d (.removeField id name) (.removedField none) d
  | removeField {id : ClassId} {c : ClassNode} {name : String} {f : Handle Field}
      (hc : d.table.class? id = some c)
      (hf : c.body.fields.find? (·.decl.name == name) = some f) :
    Applied d (.removeField id name) (.removedField (some f))
      (d.modifyBody id (·.removeField (·.decl.name == name)))
  | keepMethods {id : ClassId} {c : ClassNode} {name : String} (hc : d.table.class? id = some c)
      (hm : c.body.methods.filter (·.decl.name == name) = []) :
    Applied d (.removeMethods id name) (.removedMethods []) d
  | removeMethods {id : ClassId} {c : ClassNode} {name : String} (hc : d.table.class? id = some c)
      (hm : c.body.methods.filter (·.decl.name == name) ≠ []) :
    Applied d (.removeMethods id name)
      (.removedMethods (c.body.methods.filter (·.decl.name == name)))
      (d.modifyBody id (·.removeMethods (·.decl.name == name)))

theorem require_eq_ok {t : ClassTable} {id : ClassId} {c : ClassNode} :
    t.require id = .ok c ↔ t.class? id = some c := by
  unfold ClassTable.require
  cases t.class? id <;> simp

theorem applied_of_apply {e : Edit} {r : Edited} (h : d.apply e = .ok (r, d')) :
    d.Applied e r d' := by
  cases e with
  | addClass hd =>
    obtain ⟨⟨⟩, hs, h⟩ := Grammar.bind_eq_ok.1 h
    obtain ⟨rfl, rfl⟩ := Prod.mk.inj (Except.ok.inj h)
    exact .addClass hs
  | addInner outer hd =>
    obtain ⟨c, hc, h⟩ := Grammar.bind_eq_ok.1 h
    obtain ⟨⟨⟩, hs, h⟩ := Grammar.bind_eq_ok.1 h
    obtain ⟨rfl, rfl⟩ := Prod.mk.inj (Except.ok.inj h)
    exact .addInner (require_eq_ok.1 hc) hs
  | addField id f =>
    obtain ⟨c, hc, h⟩ := Grammar.bind_eq_ok.1 h
    obtain ⟨rfl, rfl⟩ := Prod.mk.inj (Except.ok.inj h)
    exact .addField (require_eq_ok.1 hc)
  | addMethod id m =>
    obtain ⟨c, hc, h⟩ := Grammar.bind_eq_ok.1 h
    obtain ⟨rfl, rfl⟩ := Prod.mk.inj (Except.ok.inj h)
    exact .addMethod (require_eq_ok.1 hc)
  | removeField id name =>
    obtain ⟨c, hc, h⟩ := Grammar.bind_eq_ok.1 h
    cases hf : c.body.fields.find? (·.decl.name == name) with
    | none =>
      simp only [hf] at h
      obtain ⟨rfl, rfl⟩ := Prod.mk.inj (Except.ok.inj h)
      exact .keepField (require_eq_ok.1 hc) hf
    | some f =>
      simp only [hf] at h
      obtain ⟨rfl, rfl⟩ := Prod.mk.inj (Except.ok.inj h)
      exact .removeField (require_eq_ok.1 hc) hf
  | removeMethods id name =>
    obtain ⟨c, hc, h⟩ := Grammar.bind_eq_ok.1 h
    cases hm : c.body.methods.filter (·.decl.name == name) with
    | nil =>
      simp only [hm] at h
      obtain ⟨rfl, rfl⟩ := Prod.mk.inj (Except.ok.inj h)
      exact .keepMethods (require_eq_ok.1 hc) hm
    | cons m ms =>
      simp only [hm] at h
      obtain ⟨rfl, rfl⟩ := Prod.mk.inj (Except.ok.inj h)
      exact hm ▸ .removeMethods (require_eq_ok.1 hc) (by simp [hm])

theorem Applied.changed {e : Edit} {r : Edited} (h : d.Applied e r d') :
    d'.changed = (d.changed || r.effective) := by
  cases h with
  | addClass | addInner | addField | addMethod | removeField => exact (Bool.or_true _).symm
  | keepField | keepMethods => exact (Bool.or_false _).symm
  | removeMethods hc hm => simp [Edited.effective, modifyBody, hm]

theorem Applied.declared_le {e : Edit} {r : Edited} (h : d.Applied e r d') :
    d.declared ≤ d'.declared := by
  cases h with
  | addClass | addInner | addField | addMethod => exact Nat.le_succ _
  | keepField | keepMethods | removeField | removeMethods => exact Nat.le_refl _

/-- An edit is effective iff it changes the classes. -/
theorem Applied.classes_ne {e : Edit} {r : Edited} (h : d.Applied e r d') :
    d'.table.classes ≠ d.table.classes ↔ r.effective := by
  cases h with
  | addClass => exact iff_of_true (classes_ne_of_size (d.size_allocate _)) rfl
  | addInner =>
    refine iff_of_true (classes_ne_of_size ?_) rfl
    rw [table_modifyBody, size_modifyBody, size_allocate]
  | addField hc =>
    refine iff_of_true (classes_modifyBody_ne hc fun he ↦ ?_) rfl
    cases List.append_right_eq_self.1 (congrArg Members.fields he)
  | addMethod hc =>
    refine iff_of_true (classes_modifyBody_ne hc fun he ↦ ?_) rfl
    cases List.append_right_eq_self.1 (congrArg Members.methods he)
  | keepField | keepMethods => exact iff_of_false (fun h ↦ h rfl) Bool.false_ne_true
  | @removeField id c name f hc hf =>
    refine iff_of_true (classes_modifyBody_ne hc fun he ↦ ?_) rfl
    have hkept := List.eraseP_eq_self_iff.1 (congrArg Members.fields he)
    have hname : f.decl.name = name := by simpa using List.find?_some hf
    exact hkept f (List.mem_of_find?_eq_some hf) (beq_iff_eq.2 hname)
  | @removeMethods id c name hc hm =>
    refine iff_of_true (classes_modifyBody_ne hc fun he ↦ hm ?_) (by simp [Edited.effective, hm])
    have hkept := List.filter_eq_self.1 (congrArg Members.methods he)
    rw [List.filter_eq_nil_iff]
    intro m hmem hname
    simpa [hname] using hkept m hmem

/-- What any series of steps does to a draft: the count waits for the end of the command, and as
long as the draft is not marked as changed, the table is the one from before. -/
structure Follows (d d' : Draft) : Prop where
  modifications : d'.table.modifications = d.table.modifications
  unchanged : d'.changed = false → d.changed = false ∧ d'.table = d.table
  extends_table : d.table.Extends d'.table
  wellNumbered : d.table.WellNumbered → d'.table.WellNumbered

theorem Follows.refl (d : Draft) : d.Follows d :=
  ⟨rfl, fun h ↦ ⟨h, rfl⟩, .refl _, id⟩

theorem Follows.trans (h : d.Follows d') (h' : d'.Follows d'') : d.Follows d'' where
  modifications := h'.modifications.trans h.modifications
  unchanged hc := by
    obtain ⟨hc', ht'⟩ := h'.unchanged hc
    obtain ⟨hc, ht⟩ := h.unchanged hc'
    exact ⟨hc, ht'.trans ht⟩
  extends_table := h.extends_table.trans h'.extends_table
  wellNumbered hw := h'.wellNumbered (h.wellNumbered hw)

theorem follows_allocate (d : Draft) (h : ClassHeader) : d.Follows (d.allocate h).2 :=
  ⟨rfl, (fun hc ↦ by cases hc), d.extends_allocate h, fun hw ↦ wellNumbered_allocate hw h⟩

theorem follows_modifyBody (d : Draft) (id : ClassId) (f : ClassBody → ClassBody) :
    d.Follows (d.modifyBody id f) :=
  ⟨rfl, (fun hc ↦ by cases hc), extends_modifyBody _ id f, fun hw ↦ hw.modifyBody id f⟩

theorem follows_declare_modifyBody (d : Draft) (id : ClassId) (f : ClassBody → ClassBody) :
    d.Follows (d.declare (d.table.modifyBody id f)) :=
  ⟨rfl, (fun hc ↦ by cases hc), extends_modifyBody _ id f, fun hw ↦ hw.modifyBody id f⟩

theorem Applied.follows {e : Edit} {r : Edited} (h : d.Applied e r d') : d.Follows d' := by
  cases h with
  | addClass => exact d.follows_allocate _
  | addInner => exact (d.follows_allocate _).trans (follows_modifyBody _ _ _)
  | addField | addMethod => exact d.follows_declare_modifyBody _ _
  | keepField | keepMethods => exact .refl d
  | removeField | removeMethods => exact d.follows_modifyBody _ _

theorem act_declare_of_none {id : ClassId} (file : FileId) (text : String)
    (hc : d.table.class? id = none) :
    d.act (.declare id file text) = (.error (.unknownClass ⟨id⟩), d, []) := by
  simp [act, hc]

theorem act_declare_of_ok {id : ClassId} {c : ClassNode} {file : FileId} {text : String}
    {m : Method} (hc : d.table.class? id = some c)
    (hr : (readMethod file c.ref.context text).result = .ok m) :
    d.act (.declare id file text) =
      ((d.applyQuietly (.addMethod id m)).1, (d.applyQuietly (.addMethod id m)).2.1,
        (readMethod file c.ref.context text).reports) := by
  simp [act, hc, hr]

theorem act_declare_of_error {id : ClassId} {c : ClassNode} {file : FileId} {text : String}
    {e : ReadError} (hc : d.table.class? id = some c)
    (hr : (readMethod file c.ref.context text).result = .error e) :
    d.act (.declare id file text) =
      (.error (.unreadable e), d, (readMethod file c.ref.context text).reports) := by
  simp [act, hc, hr]

theorem applyQuietly_cases (d : Draft) (e : Edit) :
    (∃ r, (d.applyQuietly e).1 = .ok r ∧ d.Applied e r (d.applyQuietly e).2.1) ∨
      ∃ x, (d.applyQuietly e).1 = .error (.unknownClass x) ∧ (d.applyQuietly e).2.1 = d := by
  unfold applyQuietly
  cases h : d.apply e with
  | ok p => exact .inl ⟨p.1, rfl, applied_of_apply h⟩
  | error x => exact .inr ⟨x, rfl, rfl⟩

/-- A step either applies the edit that it asks for, or fails and leaves the draft alone. -/
theorem act_cases (d : Draft) (k : Step) :
    (∃ e r, (d.act k).1 = .ok r ∧ d.Applied e r (d.act k).2.1 ∧ k.Asks e) ∨
      ∃ x, (d.act k).1 = .error x ∧ (d.act k).2.1 = d ∧ (x = .aborted → k = .abort) := by
  have hq (e : Edit) (hk : k.Asks e) : (∃ e' r, (d.applyQuietly e).1 = .ok r ∧
      d.Applied e' r (d.applyQuietly e).2.1 ∧ k.Asks e') ∨
        ∃ x, (d.applyQuietly e).1 = .error x ∧ (d.applyQuietly e).2.1 = d ∧
          (x = .aborted → k = .abort) := by
    rcases d.applyQuietly_cases e with ⟨r, hr, ha⟩ | ⟨x, hx, hd⟩
    · exact .inl ⟨e, r, hr, ha, hk⟩
    · exact .inr ⟨_, hx, hd, fun h ↦ by cases h⟩
  cases k with
  | edit e => exact hq e rfl
  | declare id file text =>
    cases hc : d.table.class? id with
    | none =>
      rw [act_declare_of_none file text hc]
      exact .inr ⟨_, rfl, rfl, fun h ↦ by cases h⟩
    | some c =>
      cases hr : (readMethod file c.ref.context text).result with
      | ok m =>
        rw [act_declare_of_ok hc hr]
        exact hq (.addMethod id m) ⟨m, rfl⟩
      | error x =>
        rw [act_declare_of_error hc hr]
        exact .inr ⟨_, rfl, rfl, fun h ↦ by cases h⟩
  | abort => exact .inr ⟨_, rfl, rfl, fun _ ↦ rfl⟩

theorem follows_act (d : Draft) (k : Step) : d.Follows (d.act k).2.1 := by
  rcases d.act_cases k with ⟨e, r, -, ha, -⟩ | ⟨x, -, hd, -⟩
  · exact ha.follows
  · rw [hd]
    exact .refl d

theorem classes_commit (d : Draft) (aborted : Bool) :
    (d.commit aborted).classes = d.table.classes := by
  unfold commit
  split <;> rfl

def effective (r : Except Halt Edited) : Bool :=
  match r with
  | .ok e => e.effective
  | .error _ => false

theorem changed_act (d : Draft) (k : Step) :
    (d.act k).2.1.changed = (d.changed || effective (d.act k).1) := by
  rcases d.act_cases k with ⟨e, r, hr, ha, -⟩ | ⟨x, hx, hd, -⟩
  · rw [hr]
    exact ha.changed
  · rw [hx, hd]
    exact (Bool.or_false _).symm

theorem act_classes_ne (d : Draft) (k : Step) :
    (d.act k).2.1.table.classes ≠ d.table.classes ↔ effective (d.act k).1 := by
  rcases d.act_cases k with ⟨e, r, hr, ha, -⟩ | ⟨x, hx, hd, -⟩
  · rw [hr]
    exact ha.classes_ne
  · rw [hx, hd]
    exact iff_of_false (fun h ↦ h rfl) Bool.false_ne_true

theorem act_ne_aborted (d : Draft) {k : Step} (hk : k ≠ .abort) :
    (d.act k).1 ≠ .error .aborted := by
  rcases d.act_cases k with ⟨e, r, hr, -, -⟩ | ⟨x, hx, -, hab⟩
  · simp [hr]
  · rw [hx]
    exact fun h ↦ hk (hab (Except.error.inj h))

end Draft

end ClassModel
