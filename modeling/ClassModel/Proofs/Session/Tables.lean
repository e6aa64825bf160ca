import ClassModel.Naming.State
import Mathlib.Logic.Function.Defs

namespace ClassModel

variable {f : String → String}

namespace Numbered

variable {α : Type} [Renames α]

theorem get?_rename (s : Numbered α) (i : UInt32) :
    (rename f s).get? i = rename f (s.get? i) :=
  List.getElem?_map

theorem next_rename (s : Numbered α) : (rename f s).next = s.next :=
  congrArg UInt32.ofNat (List.length_map _)

theorem add_rename (s : Numbered α) (a : α) :
    ((rename f s).add (rename f a)).2 = rename f (s.add a).2 := by
  simp [add, rename]

theorem modify_rename (s : Numbered α) (i : UInt32) {g g' : α → α}
    (h : ∀ a, g' (rename f a) = rename f (g a)) :
    (rename f s).modify i g' = rename f (s.modify i g) := by
  refine congrArg Numbered.mk (List.ext_getElem? fun j ↦ ?_)
  change ((s.items.map (rename f)).modify i.toNat g')[j]? =
    ((s.items.modify i.toNat g).map (rename f))[j]?
  rw [List.getElem?_modify, List.getElem?_map, List.getElem?_map, List.getElem?_modify]
  cases s.items[j]? with
  | none => rfl
  | some a => by_cases hj : i.toNat = j <;> simp [hj, h]

end Numbered

namespace Members

variable {F M I : Type} [Renames F] [Renames M] [Renames I] (ms : Members F M I)

theorem addField_rename (a : F) :
    (rename f ms).addField (rename f a) = rename f (ms.addField a) := by
  simp [addField, rename]

theorem addMethod_rename (a : M) :
    (rename f ms).addMethod (rename f a) = rename f (ms.addMethod a) := by
  simp [addMethod, rename]

theorem addInnerType_rename (a : I) :
    (rename f ms).addInnerType (rename f a) = rename f (ms.addInnerType a) := by
  simp [addInnerType, rename]

theorem removeField_rename {p p' : F → Bool} (h : ∀ a, p' (rename f a) = p a) :
    (rename f ms).removeField p' = rename f (ms.removeField p) := by
  simp [removeField, rename, List.eraseP_map, Function.comp_def, h]

theorem removeMethods_rename {p p' : M → Bool} (h : ∀ a, p' (rename f a) = p a) :
    (rename f ms).removeMethods p' = rename f (ms.removeMethods p) := by
  simp [removeMethods, rename, List.filter_map, Function.comp_def, h]

end Members

namespace ClassTable

variable (t : ClassTable)

theorem class?_rename (id : ClassId) : (rename f t).class? id = rename f (t.class? id) :=
  t.classes.get?_rename id

theorem require_rename (id : ClassId) : (rename f t).require id = rename f (t.require id) := by
  rw [require, class?_rename, require]
  cases t.class? id <;> rfl

theorem requireSuper_rename (h : ClassHeader) :
    (rename f t).requireSuper (rename f h) = t.requireSuper h := by
  have hheader : (rename f h).superClass = h.superClass := rfl
  rw [requireSuper, hheader, requireSuper]
  cases h.superClass with
  | none => rfl
  | some id =>
    dsimp only
    rw [require_rename]
    cases t.require id <;> rfl

theorem modifyBody_rename (id : ClassId) {g g' : ClassBody → ClassBody}
    (h : ∀ b, g' (rename f b) = rename f (g b)) :
    (rename f t).modifyBody id g' = rename f (t.modifyBody id g) :=
  congrArg (ClassTable.mk · t.modifications)
    (t.classes.modify_rename id fun c ↦ congrArg (ClassNode.mk (rename f c.ref)) (h c.body))

theorem climb_rename (seen : List ClassId) (next : Option ClassId) :
    (rename f t).climb seen next =
      ((t.climb seen next).1.map (rename f), (t.climb seen next).2) := by
  fun_induction climb t seen next with
  | case1 seen => rw [climb, List.map_nil]
  | case2 seen id hs => rw [climb, dif_pos hs, List.map_nil]
  | case3 seen id hs ht =>
    have hclass : (rename f t).class? id = none := by rw [class?_rename, ht]; rfl
    rw [climb_missing hs hclass, List.map_nil]
  | case4 seen id hs c ht cs e he ih =>
    have hclass : (rename f t).class? id = some (rename f c) := by rw [class?_rename, ht]; rfl
    have hsuper : (rename f c).ref.header.superClass = c.ref.header.superClass := rfl
    rw [climb_class hs hclass, hsuper, ih, he, List.map_cons]

theorem chain_rename (owner : ClassNode) :
    (rename f t).chain (rename f owner) = (t.chain owner).map (rename f) :=
  congrArg (rename f owner :: ·)
    (congrArg Prod.fst (t.climb_rename [owner.ref.id] owner.ref.header.superClass))

variable (hf : f.Injective) (owner : ClassNode) (name : String)

include hf in
theorem inheritedField_rename :
    (rename f t).inheritedField (rename f owner) (f name) =
      rename f (t.inheritedField owner name) := by
  have hfind (c : ClassNode) : (rename f c).body.fields.find? (·.decl.name == f name) =
      (c.body.fields.find? (·.decl.name == name)).map (rename f) :=
    find?_rename (fun _ ↦ hf.beq_eq) c.body.fields
  unfold inheritedField
  rw [chain_rename, List.findSome?_map]
  simp only [Function.comp_def, hfind]
  exact List.map_findSome?.symm

include hf in
theorem inheritedMethods_rename :
    (rename f t).inheritedMethods (rename f owner) (f name) =
      rename f (t.inheritedMethods owner name) := by
  have hfilter (c : ClassNode) : (rename f c).body.methods.filter (fun m ↦
        m.decl.name == f name && !((rename f c).ref.id != owner.ref.id && m.decl.isConstructor)) =
      (c.body.methods.filter fun m ↦
        m.decl.name == name && !(c.ref.id != owner.ref.id && m.decl.isConstructor)).map
          (rename f) :=
    filter_rename (fun m ↦ congrArg (· && !(c.ref.id != owner.ref.id && m.decl.isConstructor))
      hf.beq_eq) c.body.methods
  unfold inheritedMethods
  rw [chain_rename, List.flatMap_map]
  exact (congrArg (List.flatMap · (t.chain owner)) (funext hfilter)).trans List.map_flatMap.symm

include hf in
theorem inheritedInnerType_rename :
    (rename f t).inheritedInnerType (rename f owner) (f name) =
      rename f (t.inheritedInnerType owner name) := by
  have hname (c : ClassRef) : ((rename f c).header.name == some (f name)) =
      (c.header.name == some name) := by
    change (c.header.name.map f == (some name).map f) = _
    exact (Option.map_injective hf).beq_eq
  have hfind (c : ClassNode) :
      (rename f c).body.innerTypes.find? (·.header.name == some (f name)) =
        (c.body.innerTypes.find? (·.header.name == some name)).map (rename f) :=
    find?_rename hname c.body.innerTypes
  unfold inheritedInnerType
  rw [chain_rename, List.findSome?_map]
  simp only [Function.comp_def, hfind]
  exact List.map_findSome?.symm

end ClassTable

end ClassModel
