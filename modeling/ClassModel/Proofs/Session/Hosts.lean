import ClassModel.Proofs.Session.Caches
import ClassModel.Proofs.Session.Edits

namespace ClassModel

variable {f : String → String}

theorem Draft.commit_rename (d : Draft) (aborted : Bool) :
    (rename f d).commit aborted = rename f (d.commit aborted) := by
  have hchanged : (rename f d).changed = d.changed := rfl
  unfold commit
  rw [hchanged]
  split <;> rfl

namespace Workspace

variable (w : Workspace)

theorem table_rename (i : Nat) : (rename f w).table i = rename f (w.table i) := by
  have htables : (rename f w).tables[i]? = rename f w.tables[i]? := List.getElem?_map
  rw [table, htables, table]
  cases w.tables[i]? <;> rfl

theorem setTable_rename (i : Nat) (t : ClassTable) :
    (rename f w).setTable i (rename f t) = rename f (w.setTable i t) :=
  congrArg (fun ts ↦ { rename f w with tables := ts }) List.map_set.symm

theorem setCache_rename (i : Nat) (o : OpenCache) :
    { rename f w with caches := (rename f w).caches.set i (rename f o) } =
      rename f { w with caches := w.caches.set i o } :=
  congrArg (fun os ↦ { rename f w with caches := os }) List.map_set.symm

theorem cache_rename (i : Nat) : (rename f w).caches[i]? = rename f w.caches[i]? :=
  List.getElem?_map

def afterStep (i : Nat) (r : Except Halt Edited) (d : Draft) (rs : List Report) :
    Except Halt (Option Acted) × Workspace × Bool :=
  (r.map fun e ↦ some (.edited e),
    { w.setTable i d.table with declared := d.declared, log := w.log.emitAll rs }, d.changed)

theorem act_step (i : Nat) (changed : Bool) (k : Step) {r : Except Halt Edited} {d : Draft}
    {rs : List Report} (h : (⟨w.table i, w.declared, changed⟩ : Draft).act k = (r, d, rs)) :
    act i (w, changed) (.step k) = w.afterStep i r d rs := by
  rw [act, h]
  rfl

theorem afterStep_rename (i : Nat) (r : Except Halt Edited) (d : Draft) (rs : List Report) :
    (rename f w).afterStep i (rename f r) (rename f d) rs =
      rename f (w.afterStep i r d rs) := by
  have hresult : (rename f r).map (fun e ↦ some (Acted.edited e)) =
      rename f (r.map fun e ↦ some (Acted.edited e)) := by
    cases r <;> rfl
  have htable : (rename f w).setTable i (rename f d.table) = rename f (w.setTable i d.table) :=
    w.setTable_rename i d.table
  exact Prod.ext hresult (Prod.ext (congrArg
    (fun w' : Workspace ↦ { w' with declared := d.declared, log := w.log.emitAll rs }) htable) rfl)

theorem act_edit_rename (hf : f.Injective) (i : Nat) (changed : Bool) (e : Edit) :
    act i (rename f w, changed) (.step (.edit (rename f e))) =
      rename f (act i (w, changed) (.step (.edit e))) := by
  let d : Draft := ⟨w.table i, w.declared, changed⟩
  let r := d.act (.edit e)
  have hdraft : (⟨(rename f w).table i, w.declared, changed⟩ : Draft) = rename f d :=
    congrArg (Draft.mk · w.declared changed) (w.table_rename i)
  have hquiet : (rename f d).applyQuietly (rename f e) =
      (rename f r.1, rename f r.2.1, r.2.2) := by
    change _ = (rename f (d.applyQuietly e).1, rename f (d.applyQuietly e).2.1,
      (d.applyQuietly e).2.2)
    rw [Draft.applyQuietly, d.apply_rename hf, Draft.applyQuietly]
    cases d.apply e <;> rfl
  have hact : (⟨(rename f w).table i, w.declared, changed⟩ : Draft).act (.edit (rename f e)) =
      (rename f r.1, rename f r.2.1, r.2.2) := by
    rw [hdraft]
    exact hquiet
  exact ((rename f w).act_step i changed _ hact).trans (w.afterStep_rename i r.1 r.2.1 r.2.2)

theorem handles_rename {α : Type} [Renames α] (as : List α) :
    (rename f w).handles (rename f as) = rename f (w.handles as) := by
  have hlength : (rename f as).length = as.length := List.length_map _
  have hmap : (rename f as).mapIdx (fun i a ↦ (⟨.declared (w.declared + i), a⟩ : Handle α)) =
      rename f (as.mapIdx fun i a ↦ (⟨.declared (w.declared + i), a⟩ : Handle α)) := by
    refine List.ext_getElem? fun i ↦ ?_
    change ((as.map (rename f)).mapIdx _)[i]? = ((as.mapIdx _).map (rename f))[i]?
    rw [List.getElem?_mapIdx, List.getElem?_map, List.getElem?_map, List.getElem?_mapIdx]
    cases as[i]? <;> rfl
  unfold handles
  rw [hlength]
  exact congrArg (·, { rename f w with declared := w.declared + as.length }) hmap

theorem classRefs_rename (table : Nat) (ids : List ClassId) :
    (rename f w).classRefs table ids = rename f (w.classRefs table ids) := by
  have hclass (id : ClassId) : (((rename f w).table table).class? id).map ClassNode.ref =
      ((w.table table).class? id).map (rename f ∘ ClassNode.ref) := by
    rw [table_rename, ClassTable.class?_rename]
    cases (w.table table).class? id <;> rfl
  unfold classRefs
  rw [funext hclass]
  simp only [← Option.map_map]
  exact List.map_filterMap.symm

theorem openCache_rename (table : Nat) (id : ClassId) (resolver : Nat) (settings : Settings)
    (augments : Option (Members Field Method ClassId)) :
    (rename f w).openCache table id resolver settings (rename f augments) =
      rename f (w.openCache table id resolver settings augments) := by
  unfold openCache
  rw [table_rename, ClassTable.require_rename]
  cases (w.table table).require id with
  | error e => rfl
  | ok c =>
    let given := augments.getD .none
    let w₁ := (w.handles given.fields).2
    let w₂ := (w₁.handles given.methods).2
    let body : ClassBody := ⟨(w.handles given.fields).1, (w₁.handles given.methods).1,
      w₂.classRefs table given.innerTypes⟩
    have hgiven : (rename f augments).getD .none = rename f given := getD_rename f augments .none
    have hfields : (rename f w).handles (rename f given).fields =
        (rename f body.fields, rename f w₁) :=
      w.handles_rename given.fields
    have hmethods : (rename f w₁).handles (rename f given).methods =
        (rename f body.methods, rename f w₂) :=
      w₁.handles_rename given.methods
    have hids : (rename f given).innerTypes = given.innerTypes := List.map_id _
    have hbody : (rename f augments).map (fun _ ↦ rename f body) =
        rename f (augments.map fun _ ↦ body) := by
      cases augments <;> rfl
    let o (b : Option ClassBody) : OpenCache :=
      ⟨table, resolver, rename f c.ref, b, .new (rename f c.ref).owner settings⟩
    have hopen := rename_append f w₂.caches
      [⟨table, resolver, c.ref, augments.map fun _ ↦ body, .new c.ref.owner settings⟩]
    rw [hgiven]
    dsimp only
    rw [hfields]
    dsimp only
    rw [hmethods]
    dsimp only
    rw [hids, w₂.classRefs_rename]
    refine Prod.ext (congrArg Except.ok (List.length_map _)) ?_
    exact congrArg (fun os ↦ { rename f w₂ with caches := os })
      ((congrArg (fun b ↦ rename f w₂.caches ++ [o b]) hbody).trans hopen.symm)

theorem augment_rename (i table : Nat) (fields : Option (List Field))
    (methods : Option (List Method)) (inner : Option (List ClassId)) :
    (rename f w).augment i table (rename f fields) (rename f methods) inner =
      rename f (w.augment i table fields methods inner) := by
  unfold augment
  rw [cache_rename]
  cases w.caches[i]? with
  | none => rfl
  | some o =>
    let w₁ := (w.handles (fields.getD [])).2
    let w₂ := (w₁.handles (methods.getD [])).2
    let fs := (w.handles (fields.getD [])).1
    let ms := (w₁.handles (methods.getD [])).1
    let replace (b : ClassBody) : ClassBody :=
      ⟨(fields.map fun _ ↦ fs).getD b.fields, (methods.map fun _ ↦ ms).getD b.methods,
        (inner.map (w₂.classRefs table)).getD b.innerTypes⟩
    have hfields : (rename f w).handles ((rename f fields).getD []) =
        (rename f fs, rename f w₁) :=
      (congrArg (rename f w).handles (getD_rename f fields [])).trans
        (w.handles_rename (fields.getD []))
    have hmethods : (rename f w₁).handles ((rename f methods).getD []) =
        (rename f ms, rename f w₂) :=
      (congrArg (rename f w₁).handles (getD_rename f methods [])).trans
        (w₁.handles_rename (methods.getD []))
    let replace' (b : ClassBody) : ClassBody :=
      ⟨((rename f fields).map fun _ ↦ rename f fs).getD b.fields,
        ((rename f methods).map fun _ ↦ rename f ms).getD b.methods,
        (inner.map ((rename f w₂).classRefs table)).getD b.innerTypes⟩
    have hreplace (b : ClassBody) : replace' (rename f b) = rename f (replace b) := by
      simp only [replace', funext (w₂.classRefs_rename (f := f) table)]
      cases fields <;> cases methods <;> cases inner <;> rfl
    have haugments : (rename f o.augments).map replace' = rename f (o.augments.map replace) := by
      cases o.augments with
      | none => rfl
      | some b => exact congrArg some (hreplace b)
    dsimp only
    rw [hfields]
    dsimp only
    rw [hmethods]
    exact (congrArg (fun a ↦ { rename f w₂ with
      caches := (rename f w₂).caches.set i { rename f o with augments := a } }) haugments).trans
      (w₂.setCache_rename i { o with augments := o.augments.map replace })

theorem addTable_rename : (rename f w).addTable = rename f w.addTable := by
  have hlength : (rename f w).tables.length = w.tables.length := List.length_map _
  unfold addTable
  rw [hlength]
  exact congrArg (fun ts ↦ (w.tables.length, { rename f w with tables := ts }))
    (rename_append f w.tables [.empty]).symm

theorem request_rename (i : Nat) {r : Request} (hr : ∀ q, r ≠ .query q) :
    (rename f w).request i r = rename f (w.request i r) := by
  unfold request
  rw [cache_rename]
  cases w.caches[i]? with
  | none => rfl
  | some o =>
    cases r with
    | query q => exact absurd rfl (hr q)
    | drop =>
      exact congrArg (some Response.dropped, ·)
        (w.setCache_rename i { o with cache := o.cache.drop })
    | owner => rfl

theorem moment_renamed (hf : f.Injective) (o : OpenCache) :
    (w.moment o).Renamed f ((rename f w).moment (rename f o)) := by
  have hnode : (rename f w).ownerNode (rename f o) = rename f (w.ownerNode o) := by
    change (((rename f w).table o.table).class? o.owner.id).getD _ = _
    rw [table_rename, ClassTable.class?_rename, ownerNode]
    cases (w.table o.table).class? o.owner.id <;> rfl
  have hresolver : (rename f w).table (rename f o).resolver = rename f (w.table o.resolver) :=
    w.table_rename o.resolver
  have htable : (rename f w).table o.table = rename f (w.table o.table) :=
    w.table_rename o.table
  refine ⟨?_, ?_, ?_, fun n ↦ ?_, fun n ↦ ?_, fun n ↦ ?_⟩
  · exact congrArg (·.modifications.count) htable
  · exact congrArg ClassNode.body hnode
  · exact getD_rename f o.augments .none
  · unfold moment
    dsimp only
    rw [hresolver, hnode]
    exact (w.table o.resolver).inheritedField_rename hf _ n
  · unfold moment
    dsimp only
    rw [hresolver, hnode]
    exact (w.table o.resolver).inheritedMethods_rename hf _ n
  · unfold moment
    dsimp only
    rw [hresolver, hnode]
    exact (w.table o.resolver).inheritedInnerType_rename hf _ n

end Workspace

end ClassModel
