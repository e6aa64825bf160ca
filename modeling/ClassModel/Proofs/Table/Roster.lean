import ClassModel.Proofs.Table.Editing

namespace ClassModel

/-- A list of the members of a class, with the edits that are about it and what they give back. -/
structure Roster (β : Type) where
  entries : ClassBody → List β
  entries_none : entries .none = []
  tag : β → Tag
  classOf? : Edit → Option ClassId
  added? : Edited → Option β
  removed : Edited → List β
  /-- Whether an edit gives back what it should if the list is this. -/
  Answers : Edit → List β → Edited → Prop

namespace Roster

def fields : Roster (Handle Field) where
  entries b := b.fields
  entries_none := rfl
  tag := Handle.tag
  classOf?
    | .addField id _ | .removeField id _ => some id
    | _ => none
  added?
    | .addedField f => some f
    | _ => none
  removed
    | .removedField f => f.toList
    | _ => []
  Answers
    | .addField _ f, _, r => ∃ tag, r = .addedField ⟨tag, f⟩
    | .removeField _ name, fs, r => r = .removedField (fs.find? (·.decl.name == name))
    | _, _, _ => True

def methods : Roster (Handle Method) where
  entries b := b.methods
  entries_none := rfl
  tag := Handle.tag
  classOf?
    | .addMethod id _ | .removeMethods id _ => some id
    | _ => none
  added?
    | .addedMethod m => some m
    | _ => none
  removed
    | .removedMethods ms => ms
    | _ => []
  Answers
    | .addMethod _ m, _, r => ∃ tag, r = .addedMethod ⟨tag, m⟩
    | .removeMethods _ name, ms, r => r = .removedMethods (ms.filter (·.decl.name == name))
    | _, _, _ => True

def innerTypes : Roster ClassRef where
  entries b := b.innerTypes
  entries_none := rfl
  tag := ClassRef.tag
  classOf?
    | .addInner id _ => some id
    | _ => none
  added?
    | .addedClass c => some c
    | _ => none
  removed _ := []
  Answers
    | .addInner _ h, _, r => ∃ c, r = .addedClass c ∧ c.header = h
    | _, _, _ => True

variable {β : Type} (K : Roster β)

def list (t : ClassTable) (id : ClassId) : List β := (t.class? id).elim [] (K.entries ·.body)

theorem list_of_class? {t : ClassTable} {id : ClassId} {c : ClassNode} (hc : t.class? id = some c) :
    K.list t id = K.entries c.body := by
  rw [list, hc, Option.elim_some]

theorem list_of_classes {t t' : ClassTable} (h : t'.classes = t.classes) (id : ClassId) :
    K.list t' id = K.list t id := by
  rw [list, ClassTable.class?, h, list, ClassTable.class?]

theorem list_modifyBody_ne (t : ClassTable) {id j : ClassId} (f : ClassBody → ClassBody)
    (h : id ≠ j) : K.list (t.modifyBody id f) j = K.list t j := by
  rw [list, ClassTable.class?_modifyBody, if_neg h, list]

theorem list_modifyBody_self {t : ClassTable} {id : ClassId} {c : ClassNode}
    (hc : t.class? id = some c) (f : ClassBody → ClassBody) :
    K.list (t.modifyBody id f) id = K.entries (f c.body) := by
  rw [list, ClassTable.class?_modifyBody, if_pos rfl, hc]
  rfl

theorem list_modifyBody_of_entries (t : ClassTable) (id j : ClassId) {f : ClassBody → ClassBody}
    (hf : ∀ b, K.entries (f b) = K.entries b) : K.list (t.modifyBody id f) j = K.list t j := by
  by_cases h : id = j
  · subst h
    cases hc : t.class? id with
    | none => rw [list, ClassTable.class?_modifyBody, if_pos rfl, hc, list, hc, Option.map_none]
    | some c => rw [K.list_modifyBody_self hc, hf, K.list_of_class? hc]
  · exact K.list_modifyBody_ne t f h

theorem list_allocate (d : Draft) (h : ClassHeader) (j : ClassId) :
    K.list (d.allocate h).2.table j = K.list d.table j := by
  rw [list, Draft.class?_allocate]
  split
  · next hj =>
    have hnone : d.table.class? j = none := Numbered.get?_eq_none (Nat.le_of_eq hj.symm)
    rw [list, hnone]
    exact K.entries_none
  · rfl

section

variable [DecidableEq β] {d d' : Draft} {e : Edit} {r : Edited}

/-- All that an edit does to the lists of one kind. -/
structure Obeys (d : Draft) (e : Edit) (r : Edited) (d' : Draft) : Prop where
  present : ∀ id, K.classOf? e = some id → ∃ c, d.table.class? id = some c
  frame : ∀ j, K.classOf? e ≠ some j → K.list d'.table j = K.list d.table j
  moved : ∀ id, K.classOf? e = some id → (K.list d.table id).Nodup →
    K.list d'.table id = (K.list d.table id).filter (· ∉ K.removed r) ++ (K.added? r).toList
  answers : ∀ id, K.classOf? e = some id → K.Answers e (K.list d.table id) r
  removed : ∀ a ∈ K.removed r, ∃ id, K.classOf? e = some id ∧ a ∈ K.list d.table id
  added : ∀ id a, K.classOf? e = some id → K.added? r = some a →
    K.tag a = .declared d.declared ∧ d'.declared = d.declared + 1

variable {K}

theorem Obeys.of_none (he : K.classOf? e = none) (hr : K.removed r = [])
    (hf : ∀ j, K.list d'.table j = K.list d.table j) : K.Obeys d e r d' where
  present id h := by simp [he] at h
  frame j _ := hf j
  moved id h := by simp [he] at h
  answers id h := by simp [he] at h
  removed a ha := by simp [hr] at ha
  added id a h := by simp [he] at h

theorem Obeys.of_some {id : ClassId} {c : ClassNode} (he : K.classOf? e = some id)
    (hc : d.table.class? id = some c) (hf : ∀ j, id ≠ j → K.list d'.table j = K.list d.table j)
    (hm : (K.entries c.body).Nodup → K.list d'.table id =
      (K.entries c.body).filter (· ∉ K.removed r) ++ (K.added? r).toList)
    (ha : K.Answers e (K.entries c.body) r) (hr : ∀ a ∈ K.removed r, a ∈ K.entries c.body)
    (hn : ∀ a, K.added? r = some a →
      K.tag a = .declared d.declared ∧ d'.declared = d.declared + 1) : K.Obeys d e r d' := by
  have hlist := K.list_of_class? hc
  have hid : ∀ j, K.classOf? e = some j → j = id := by
    intro j hj
    exact Option.some.inj (hj.symm.trans he)
  refine ⟨?_, ?_, ?_, ?_, ?_, ?_⟩
  · intro j hj
    exact ⟨c, hid j hj ▸ hc⟩
  · intro j hj
    exact hf j fun h ↦ hj (h ▸ he)
  · intro j hj hnodup
    rw [hid j hj, hlist] at hnodup ⊢
    exact hm hnodup
  · intro j hj
    rw [hid j hj, hlist]
    exact ha
  · intro a hmem
    refine ⟨id, he, ?_⟩
    rw [hlist]
    exact hr a hmem
  · intro j a _ hadd
    exact hn a hadd

theorem Obeys.of_added {id : ClassId} {c : ClassNode} {a : β} (he : K.classOf? e = some id)
    (hc : d.table.class? id = some c) (hf : ∀ j, id ≠ j → K.list d'.table j = K.list d.table j)
    (hm : K.list d'.table id = K.entries c.body ++ [a]) (ha : K.Answers e (K.entries c.body) r)
    (hr : K.removed r = []) (hn : K.added? r = some a) (ht : K.tag a = .declared d.declared)
    (hd : d'.declared = d.declared + 1) : K.Obeys d e r d' := by
  have hkept : (K.entries c.body).filter (· ∉ K.removed r) = K.entries c.body := by
    rw [hr]
    exact List.filter_eq_self.2 fun _ _ ↦ rfl
  apply Obeys.of_some he hc hf _ ha
  · simp [hr]
  · intro b hb
    obtain rfl := Option.some.inj (hn.symm.trans hb)
    exact ⟨ht, hd⟩
  · intro _
    rw [hm, hkept, hn]
    rfl

theorem Obeys.of_removed {id : ClassId} {c : ClassNode} (he : K.classOf? e = some id)
    (hc : d.table.class? id = some c) (hf : ∀ j, id ≠ j → K.list d'.table j = K.list d.table j)
    (hm : (K.entries c.body).Nodup →
      K.list d'.table id = (K.entries c.body).filter (· ∉ K.removed r))
    (ha : K.Answers e (K.entries c.body) r) (hr : ∀ a ∈ K.removed r, a ∈ K.entries c.body)
    (hn : K.added? r = none) : K.Obeys d e r d' := by
  apply Obeys.of_some he hc hf _ ha hr
  · simp [hn]
  · intro hnodup
    rw [hm hnodup, hn]
    exact (List.append_nil _).symm

theorem Obeys.of_kept {id : ClassId} {c : ClassNode} (he : K.classOf? e = some id)
    (hc : d.table.class? id = some c) (ha : K.Answers e (K.entries c.body) r)
    (hr : K.removed r = []) (hn : K.added? r = none) : K.Obeys d e r d := by
  apply Obeys.of_removed he hc (fun _ _ ↦ rfl) _ ha _ hn
  · intro _
    rw [hr, K.list_of_class? hc]
    exact (List.filter_eq_self.2 fun _ _ ↦ rfl).symm
  · simp [hr]

end

theorem eraseP_eq_filter {α : Type} [DecidableEq α] {p : α → Bool} {as : List α} {a : α}
    (hn : as.Nodup) (hf : as.find? p = some a) : as.eraseP p = as.filter (· ∉ [a]) := by
  induction as with
  | nil => cases hf
  | cons b as ih =>
    obtain ⟨hb, hn⟩ := List.nodup_cons.1 hn
    cases hp : p b with
    | true =>
      rw [List.find?_cons_of_pos hp] at hf
      obtain rfl := Option.some.inj hf
      have hkeep : ∀ c ∈ as, decide (c ∉ [b]) = true := by
        intro c hc
        have hne : c ≠ b := fun h ↦ hb (h ▸ hc)
        simp [hne]
      rw [List.eraseP_cons_of_pos hp, List.filter_cons_of_neg (by simp),
        List.filter_eq_self.2 hkeep]
    | false =>
      rw [List.find?_cons_of_neg (by simp [hp])] at hf
      have hne : b ≠ a := fun h ↦ hb (h ▸ List.mem_of_find?_eq_some hf)
      rw [List.eraseP_cons_of_neg (by simp [hp]), ih hn hf,
        List.filter_cons_of_pos (by simp [hne])]

theorem filter_notMem_filter {α : Type} [DecidableEq α] (p : α → Bool) (as : List α) :
    (as.filter fun a ↦ !p a) = as.filter (· ∉ as.filter p) := by
  apply List.filter_congr
  intro a ha
  simp [ha]

variable {d d' : Draft} {e : Edit} {r : Edited}

theorem obeys_modifyBody {K : Roster β} [DecidableEq β] {id : ClassId}
    {f : ClassBody → ClassBody} (he : K.classOf? e = none) (hr : K.removed r = [])
    (hf : ∀ b, K.entries (f b) = K.entries b) : K.Obeys d e r (d.modifyBody id f) := by
  apply Obeys.of_none he hr
  intro j
  exact K.list_modifyBody_of_entries _ _ j hf

theorem obeys_declare {K : Roster β} [DecidableEq β] {id : ClassId}
    {f : ClassBody → ClassBody} (he : K.classOf? e = none) (hr : K.removed r = [])
    (hf : ∀ b, K.entries (f b) = K.entries b) :
    K.Obeys d e r (d.declare (d.table.modifyBody id f)) := by
  apply Obeys.of_none he hr
  intro j
  exact K.list_modifyBody_of_entries _ _ j hf

theorem obeys_addClass (K : Roster β) [DecidableEq β] {h : ClassHeader}
    (he : K.classOf? e = none) (hr : K.removed r = []) : K.Obeys d e r (d.allocate h).2 :=
  .of_none he hr (K.list_allocate d h)

theorem obeys_addInner {K : Roster β} [DecidableEq β] {h : ClassHeader} {outer : ClassId}
    {f : ClassBody → ClassBody} (he : K.classOf? e = none) (hr : K.removed r = [])
    (hf : ∀ b, K.entries (f b) = K.entries b) :
    K.Obeys d e r ((d.allocate h).2.modifyBody outer f) := by
  apply Obeys.of_none he hr
  intro j
  rw [Draft.table_modifyBody, K.list_modifyBody_of_entries _ _ j hf, K.list_allocate]

theorem obeys_fields (h : d.Applied e r d') : fields.Obeys d e r d' := by
  cases h with
  | addClass => exact fields.obeys_addClass rfl rfl
  | addInner => exact obeys_addInner rfl rfl fun _ ↦ rfl
  | addField hc =>
    refine Obeys.of_added rfl hc ?_ ?_ ⟨_, rfl⟩ rfl rfl rfl rfl
    · intro j hj
      exact fields.list_modifyBody_ne _ _ hj
    · exact fields.list_modifyBody_self hc _
  | addMethod => exact obeys_declare rfl rfl fun _ ↦ rfl
  | removeMethods => exact obeys_modifyBody rfl rfl fun _ ↦ rfl
  | keepMethods => exact .of_none rfl rfl fun j ↦ rfl
  | keepField hc hf => exact .of_kept rfl hc (congrArg _ hf.symm) rfl rfl
  | removeField hc hf =>
    refine Obeys.of_removed rfl hc ?_ ?_ (congrArg _ hf.symm) ?_ rfl
    · intro j hj
      exact fields.list_modifyBody_ne _ _ hj
    · intro hn
      exact (fields.list_modifyBody_self hc _).trans (eraseP_eq_filter hn hf)
    · intro a ha
      obtain rfl := List.mem_singleton.1 ha
      exact List.mem_of_find?_eq_some hf

theorem obeys_methods (h : d.Applied e r d') : methods.Obeys d e r d' := by
  cases h with
  | addClass => exact methods.obeys_addClass rfl rfl
  | addInner => exact obeys_addInner rfl rfl fun _ ↦ rfl
  | addMethod hc =>
    refine Obeys.of_added rfl hc ?_ ?_ ⟨_, rfl⟩ rfl rfl rfl rfl
    · intro j hj
      exact methods.list_modifyBody_ne _ _ hj
    · exact methods.list_modifyBody_self hc _
  | addField => exact obeys_declare rfl rfl fun _ ↦ rfl
  | removeField => exact obeys_modifyBody rfl rfl fun _ ↦ rfl
  | keepField => exact .of_none rfl rfl fun j ↦ rfl
  | keepMethods hc hm => exact .of_kept rfl hc (congrArg _ hm.symm) rfl rfl
  | removeMethods hc =>
    refine Obeys.of_removed rfl hc ?_ ?_ rfl ?_ rfl
    · intro j hj
      exact methods.list_modifyBody_ne _ _ hj
    · intro _
      exact (methods.list_modifyBody_self hc _).trans (filter_notMem_filter _ _)
    · intro a ha
      exact (List.mem_filter.1 ha).1

theorem obeys_innerTypes (h : d.Applied e r d') : innerTypes.Obeys d e r d' := by
  cases h with
  | addClass => exact innerTypes.obeys_addClass rfl rfl
  | @addInner outer c h hc =>
    have hc' := d.class?_allocate_of_some h hc
    refine Obeys.of_added rfl hc ?_ ?_ ⟨_, rfl, rfl⟩ rfl rfl rfl rfl
    · intro j hj
      exact (innerTypes.list_modifyBody_ne _ _ hj).trans (innerTypes.list_allocate d h j)
    · exact innerTypes.list_modifyBody_self hc' _
  | addField | addMethod => exact obeys_declare rfl rfl fun _ ↦ rfl
  | removeField | removeMethods => exact obeys_modifyBody rfl rfl fun _ ↦ rfl
  | keepField | keepMethods => exact .of_none rfl rfl fun j ↦ rfl

end Roster

end ClassModel
