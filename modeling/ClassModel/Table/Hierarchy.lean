import ClassModel.Table.Basic

namespace ClassModel

inductive ChainEnd
  | root
  | cycle (id : ClassId)
  | missing (id : ClassId)
  deriving DecidableEq, Repr

namespace ClassTable

theorem countP_notMem_cons_lt {α : Type} [DecidableEq α] {seen : List α} {id : α} {ids : List α}
    (h : id ∉ seen) (hid : id ∈ ids) :
    ids.countP (· ∉ id :: seen) < ids.countP (· ∉ seen) := by
  induction ids with
  | nil => simp at hid
  | cons a ids ih =>
    simp only [List.countP_cons]
    by_cases ha : a = id
    · have hle : ids.countP (· ∉ id :: seen) ≤ ids.countP (· ∉ seen) :=
        List.countP_mono_left fun b _ hb ↦ decide_eq_true fun hs ↦
          of_decide_eq_true hb (List.mem_cons_of_mem id hs)
      rw [ha, if_neg (by simp), if_pos (by simpa using h)]
      exact Nat.lt_succ_of_le hle
    · have hlt := ih ((List.mem_cons.1 hid).resolve_left fun e ↦ ha e.symm)
      have he : (a ∉ id :: seen) = (a ∉ seen) := by simp [ha]
      simp only [he]
      exact Nat.add_lt_add_right hlt _

def ids (t : ClassTable) : List ClassId := (List.range t.classes.size).map .ofNat

theorem mem_ids_of_class? {t : ClassTable} {id : ClassId} {c : ClassNode}
    (h : t.class? id = some c) : id ∈ t.ids :=
  List.mem_map.2 ⟨id.toNat, List.mem_range.2 (Numbered.lt_size_of_get? h), UInt32.ofNat_toNat⟩

/-- The classes from `next` upwards, up to one of `seen` or one that is not there. -/
def climb (t : ClassTable) (seen : List ClassId) (next : Option ClassId) :
    List ClassNode × ChainEnd :=
  match next with
  | none => ([], .root)
  | some id =>
    if _hs : id ∈ seen then ([], .cycle id)
    else
      match _ht : t.class? id with
      | none => ([], .missing id)
      | some c =>
        let (cs, e) := t.climb (id :: seen) c.ref.header.superClass
        (c :: cs, e)
termination_by t.ids.countP (· ∉ seen)
decreasing_by exact countP_notMem_cons_lt _hs (mem_ids_of_class? _ht)

theorem climb_missing {t : ClassTable} {seen : List ClassId} {id : ClassId} (hs : id ∉ seen)
    (h : t.class? id = none) : t.climb seen (some id) = ([], .missing id) := by
  rw [climb, dif_neg hs]
  split
  · rfl
  · next c hc => cases h.symm.trans hc

theorem climb_class {t : ClassTable} {seen : List ClassId} {id : ClassId} {c : ClassNode}
    (hs : id ∉ seen) (h : t.class? id = some c) :
    t.climb seen (some id) =
      (c :: (t.climb (id :: seen) c.ref.header.superClass).1,
        (t.climb (id :: seen) c.ref.header.superClass).2) := by
  rw [climb, dif_neg hs]
  split
  · next hc => cases h.symm.trans hc
  · next c' hc =>
    obtain rfl : c = c' := Option.some.inj (h.symm.trans hc)
    rfl

def chain (t : ClassTable) (owner : ClassNode) : List ClassNode :=
  owner :: (t.climb [owner.ref.id] owner.ref.header.superClass).1

def inheritedField (t : ClassTable) (owner : ClassNode) (name : String) : Option (Handle Field) :=
  (t.chain owner).findSome? fun c ↦ c.body.fields.find? (·.decl.name == name)

/-- Constructors are not inherited. -/
def inheritedMethods (t : ClassTable) (owner : ClassNode) (name : String) : List (Handle Method) :=
  (t.chain owner).flatMap fun c ↦ c.body.methods.filter fun m ↦
    m.decl.name == name && !(c.ref.id != owner.ref.id && m.decl.isConstructor)

def inheritedInnerType (t : ClassTable) (owner : ClassNode) (name : String) : Option ClassRef :=
  (t.chain owner).findSome? fun c ↦ c.body.innerTypes.find? (·.header.name == some name)

end ClassTable

end ClassModel
