import ClassModel.Proofs.Table.Editing
import ClassModel.Table.Hierarchy
import Mathlib.Logic.Relation

namespace ClassModel

namespace ClassTable

def refs (t : ClassTable) : List ClassRef := t.classes.items.map ClassNode.ref

/-- Every class has its number, its super class is older, and it is the inner class of one class at
most, which is older too. -/
structure Founded (t : ClassTable) : Prop where
  numbered : t.WellNumbered
  superClass_lt : ∀ id c s, t.class? id = some c → c.ref.header.superClass = some s → s < id
  inner_present : ∀ id c x, t.class? id = some c → x ∈ c.body.innerTypes →
    id < x.id ∧ ∃ d, t.class? x.id = some d ∧ d.ref = x
  inner_ascending : ∀ id c, t.class? id = some c →
    c.body.innerTypes.Pairwise fun x y ↦ x.id < y.id
  outer_unique : ∀ id id' c c' x, t.class? id = some c → t.class? id' = some c' →
    x ∈ c.body.innerTypes → x ∈ c'.body.innerTypes → id = id'

variable {t t' : ClassTable} {id : ClassId} {c d : ClassNode}

theorem lt_size_of_class? (h : t.class? id = some c) : id.toNat < t.classes.size :=
  Numbered.lt_size_of_get? h

theorem exists_class? (h : id.toNat < t.classes.size) : ∃ c, t.class? id = some c :=
  Numbered.exists_get? h

theorem Founded.exists_superClass (h : t.Founded) {s : ClassId} (hc : t.class? id = some c)
    (hs : c.ref.header.superClass = some s) : ∃ d, t.class? s = some d :=
  exists_class? (Nat.lt_trans (UInt32.lt_iff_toNat_lt.1 (h.superClass_lt id c s hc hs))
    (lt_size_of_class? hc))

theorem founded_empty : empty.Founded where
  numbered := wellNumbered_empty
  superClass_lt _ _ _ h := by cases h
  inner_present _ _ _ h := by cases h
  inner_ascending _ _ h := by cases h
  outer_unique _ _ _ _ _ h := by cases h

theorem map_ref_class? (t : ClassTable) (id : ClassId) :
    (t.class? id).map ClassNode.ref = t.refs[id.toNat]? :=
  List.getElem?_map.symm

theorem map_ref_classNamed? (t : ClassTable) (name : String) :
    (t.classNamed? name).map ClassNode.ref = t.refs.find? (·.header.name == some name) := by
  rw [refs, List.find?_map]
  rfl

theorem refs_modifyBody (t : ClassTable) (id : ClassId) (f : ClassBody → ClassBody) :
    (t.modifyBody id f).refs = t.refs :=
  t.classes.map_items_modify id fun _ ↦ rfl

theorem length_refs (t : ClassTable) : t.refs.length = t.classes.size := List.length_map _

theorem exists_of_class?_modifyBody {f : ClassBody → ClassBody} {j : ClassId}
    (hc : (t.modifyBody id f).class? j = some c) :
    ∃ c', t.class? j = some c' ∧ c.ref = c'.ref ∧
      (c.body = c'.body ∨ j = id ∧ c.body = f c'.body) := by
  rw [class?_modifyBody] at hc
  split at hc
  · next hj =>
    obtain ⟨c', hc', rfl⟩ := Option.map_eq_some_iff.1 hc
    exact ⟨c', hc', rfl, .inr ⟨hj.symm, rfl⟩⟩
  · exact ⟨c, hc, rfl, .inl rfl⟩

/-- A change of a body that adds no inner types but `xs`, which are newer than all that are
there. -/
theorem Founded.modifyBody (h : t.Founded) (xs : List ClassRef) {f : ClassBody → ClassBody}
    (hf : ∀ b, (f b).innerTypes = b.innerTypes ++ xs) (hxs : xs.Pairwise fun x y ↦ x.id < y.id)
    (hin : ∀ x ∈ xs, id < x.id ∧ ∃ d, t.class? x.id = some d ∧ d.ref = x)
    (hnew : ∀ x ∈ xs, ∀ j c, t.class? j = some c → ∀ y ∈ c.body.innerTypes, y.id < x.id) :
    (t.modifyBody id f).Founded := by
  have hback : ∀ j c, (t.modifyBody id f).class? j = some c → ∃ c', t.class? j = some c' ∧
      c.ref = c'.ref ∧ (c.body.innerTypes = c'.body.innerTypes ∨
        j = id ∧ c.body.innerTypes = c'.body.innerTypes ++ xs) := by
    intro j c hc
    obtain ⟨c', hc', hr, hb | ⟨hj, hb⟩⟩ := exists_of_class?_modifyBody hc
    · exact ⟨c', hc', hr, .inl (congrArg _ hb)⟩
    · exact ⟨c', hc', hr, .inr ⟨hj, (congrArg _ hb).trans (hf c'.body)⟩⟩
  have hmem : ∀ j c x, (t.modifyBody id f).class? j = some c → x ∈ c.body.innerTypes →
      (∃ c', t.class? j = some c' ∧ x ∈ c'.body.innerTypes) ∨ j = id ∧ x ∈ xs := by
    intro j c x hc hx
    obtain ⟨c', hc', -, hi | ⟨hj, hi⟩⟩ := hback j c hc
    · exact .inl ⟨c', hc', hi ▸ hx⟩
    · rw [hi] at hx
      rcases List.mem_append.1 hx with hx | hx
      · exact .inl ⟨c', hc', hx⟩
      · exact .inr ⟨hj, hx⟩
  refine ⟨h.numbered.modifyBody id f, fun j c s hc hs ↦ ?_, fun j c x hc hx ↦ ?_,
    fun j c hc ↦ ?_, fun j k c d x hc hd hx hx' ↦ ?_⟩
  · obtain ⟨c', hc', hr, -⟩ := hback j c hc
    exact h.superClass_lt j c' s hc' (hr ▸ hs)
  · have hpresent : j < x.id ∧ ∃ d, t.class? x.id = some d ∧ d.ref = x := by
      rcases hmem j c x hc hx with ⟨c', hc', hx⟩ | ⟨rfl, hx⟩
      · exact h.inner_present j c' x hc' hx
      · exact hin x hx
    obtain ⟨hlt, d, hd, hr⟩ := hpresent
    obtain ⟨d', hd', hr'⟩ := extends_modifyBody t id f _ d hd
    exact ⟨hlt, d', hd', hr'.trans hr⟩
  · obtain ⟨c', hc', -, hi | ⟨-, hi⟩⟩ := hback j c hc
    · exact hi ▸ h.inner_ascending j c' hc'
    · rw [hi]
      exact List.pairwise_append.2 ⟨h.inner_ascending j c' hc', hxs,
        fun y hy x hx ↦ hnew x hx j c' hc' y hy⟩
  · rcases hmem j c x hc hx with ⟨c', hc', hx⟩ | ⟨rfl, hx⟩
    · rcases hmem k d x hd hx' with ⟨d', hd', hx'⟩ | ⟨-, hx'⟩
      · exact h.outer_unique j k c' d' x hc' hd' hx hx'
      · exact absurd (hnew x hx' j c' hc' x hx) (UInt32.lt_irrefl _)
    · rcases hmem k d x hd hx' with ⟨d', hd', hx'⟩ | ⟨rfl, -⟩
      · exact absurd (hnew x hx k d' hd' x hx') (UInt32.lt_irrefl _)
      · rfl

def superClass? (t : ClassTable) (c : ClassNode) : Option ClassNode :=
  c.ref.header.superClass.bind t.class?

/-- The way up from a class that is older than all that have been passed. -/
theorem Founded.climb_eq (h : t.Founded) {id : ClassId} {seen : List ClassId}
    (hid : id.toNat < t.classes.size) (hseen : ∀ s ∈ seen, id < s) :
    t.climb seen (some id) = ((t.class? id).elim [] t.chain, .root) := by
  induction hn : id.toNat using Nat.strongRecOn generalizing id seen with
  | ind n ih =>
    subst hn
    obtain ⟨c, hc⟩ := exists_class? hid
    have hnew : id ∉ seen := fun hs ↦ UInt32.lt_irrefl _ (hseen id hs)
    -- What has been passed does not matter above `c`, so this is the way up that `chain` takes.
    have hup : t.climb (id :: seen) c.ref.header.superClass =
        ((t.climb [c.ref.id] c.ref.header.superClass).1, .root) := by
      cases hs : c.ref.header.superClass with
      | none => simp [climb]
      | some s =>
        have hlt : s < id := h.superClass_lt id c s hc hs
        have hlt' : s.toNat < id.toNat := UInt32.lt_iff_toNat_lt.1 hlt
        have hsize := Nat.lt_trans hlt' hid
        have habove : ∀ j ∈ id :: seen, s < j := by
          intro j hj
          rcases List.mem_cons.1 hj with rfl | hj
          · exact hlt
          · exact UInt32.lt_trans hlt (hseen j hj)
        have howner : ∀ j ∈ [c.ref.id], s < j := by
          intro j hj
          rw [List.mem_singleton.1 hj, h.numbered id c hc]
          exact hlt
        rw [ih s.toNat hlt' hsize habove rfl, ih s.toNat hlt' hsize howner rfl]
    rw [climb_class hnew hc, hup, hc]
    rfl

/-- The classes above a class are its super class and those above that one, up to one that has no
super class. -/
theorem Founded.climb_owner (h : t.Founded) (hc : t.class? id = some c) :
    t.climb [c.ref.id] c.ref.header.superClass = ((t.superClass? c).elim [] t.chain, .root) := by
  unfold superClass?
  cases hs : c.ref.header.superClass with
  | none => simp [climb]
  | some s =>
    have hlt := h.superClass_lt id c s hc hs
    have hsize := Nat.lt_trans (UInt32.lt_iff_toNat_lt.1 hlt) (lt_size_of_class? hc)
    refine h.climb_eq hsize fun j hj ↦ ?_
    rw [List.mem_singleton.1 hj, h.numbered id c hc]
    exact hlt

theorem Founded.chain_eq (h : t.Founded) (hc : t.class? id = some c) :
    t.chain c = c :: (t.superClass? c).elim [] t.chain := by
  rw [chain, h.climb_owner hc]

theorem Founded.superClass?_lt (h : t.Founded) (hc : t.class? id = some c)
    (hd : t.superClass? c = some d) : d.ref.id < id ∧ t.class? d.ref.id = some d := by
  obtain ⟨s, hs, hd⟩ := Option.bind_eq_some_iff.1 hd
  rw [h.numbered s d hd]
  exact ⟨h.superClass_lt id c s hc hs, hd⟩

/-- What is true of a class whenever it is true of its super class, is true of all classes. -/
theorem Founded.induction (h : t.Founded) {P : ClassNode → Prop}
    (step : ∀ id c, t.class? id = some c → (∀ d, t.superClass? c = some d → P d) → P c) :
    ∀ id c, t.class? id = some c → P c := by
  intro id
  induction hn : id.toNat using Nat.strongRecOn generalizing id with
  | ind n ih =>
    intro c hc
    refine step id c hc fun d hd ↦ ?_
    obtain ⟨hlt, hd⟩ := h.superClass?_lt hc hd
    exact ih d.ref.id.toNat (hn ▸ UInt32.lt_iff_toNat_lt.1 hlt) d.ref.id rfl d hd

theorem Founded.le_of_mem_chain (h : t.Founded) :
    ∀ id c, t.class? id = some c → ∀ d ∈ t.chain c, d.ref.id ≤ c.ref.id := by
  refine h.induction fun id c hc ih d hd ↦ ?_
  rw [h.chain_eq hc] at hd
  rcases List.mem_cons.1 hd with rfl | hd
  · exact UInt32.le_refl _
  · cases hs : t.superClass? c with
    | none => simp [hs] at hd
    | some e =>
      rw [hs] at hd
      have hlt := (h.superClass?_lt hc hs).1
      rw [h.numbered id c hc]
      exact UInt32.le_trans (ih e hs d hd) (UInt32.le_of_lt hlt)

/-- The way up leads from newer to older classes, and so comes to none twice. -/
theorem Founded.pairwise_chain (h : t.Founded) :
    ∀ id c, t.class? id = some c → (t.chain c).Pairwise fun d e ↦ e.ref.id < d.ref.id := by
  refine h.induction fun id c hc ih ↦ ?_
  rw [h.chain_eq hc]
  cases hs : t.superClass? c with
  | none => exact List.pairwise_singleton ..
  | some d =>
    obtain ⟨hlt, hd⟩ := h.superClass?_lt hc hs
    refine List.pairwise_cons.2 ⟨fun e he ↦ ?_, ih d hs⟩
    rw [h.numbered id c hc]
    exact UInt32.lt_of_le_of_lt (h.le_of_mem_chain _ d hd e he) hlt

theorem Founded.mem_chain_iff (h : t.Founded) :
    ∀ id c, t.class? id = some c → ∀ e, e ∈ t.chain c ↔
      Relation.ReflTransGen (fun c d ↦ t.superClass? c = some d) c e := by
  refine h.induction fun id c hc ih e ↦ ?_
  rw [h.chain_eq hc, Relation.ReflTransGen.cases_head_iff, List.mem_cons, eq_comm]
  refine or_congr .rfl ?_
  cases hs : t.superClass? c with
  | none => simp
  | some d => simpa using ih d hs e

end ClassTable

namespace Draft

open ClassTable

variable {d d' : Draft}

theorem refs_allocate (d : Draft) (h : ClassHeader) :
    (d.allocate h).2.table.refs = d.table.refs ++ [(d.allocate h).1] :=
  List.map_append

theorem founded_allocate (hd : d.table.Founded) {h : ClassHeader}
    (hs : d.table.requireSuper h = .ok ()) : (d.allocate h).2.table.Founded := by
  have hback : ∀ j c, (d.allocate h).2.table.class? j = some c →
      d.table.class? j = some c ∨
        j.toNat = d.table.classes.size ∧ c = ⟨(d.allocate h).1, .none⟩ := by
    intro j c hc
    rw [class?_allocate] at hc
    split at hc
    · next hj => exact .inr ⟨hj, (Option.some.inj hc).symm⟩
    · exact .inl hc
  have hmem : ∀ j c x, (d.allocate h).2.table.class? j = some c → x ∈ c.body.innerTypes →
      d.table.class? j = some c := by
    intro j c x hc hx
    rcases hback j c hc with hc | ⟨-, rfl⟩
    · exact hc
    · cases hx
  refine ⟨wellNumbered_allocate hd.numbered h, fun j c s hc hsuper ↦ ?_, fun j c x hc hx ↦ ?_,
    fun j c hc ↦ ?_, fun j k c c' x hc hc' hx hx' ↦ ?_⟩
  · rcases hback j c hc with hc | ⟨hj, rfl⟩
    · exact hd.superClass_lt j c s hc hsuper
    · have hsuper : h.superClass = some s := hsuper
      rw [requireSuper, hsuper] at hs
      cases hr : d.table.require s with
      | error e => simp [hr, Except.map] at hs
      | ok e =>
        rw [UInt32.lt_iff_toNat_lt, hj]
        exact lt_size_of_class? (require_eq_ok.1 hr)
  · obtain ⟨hlt, e, he, hr⟩ := hd.inner_present j c x (hmem j c x hc hx) hx
    obtain ⟨e', he', hr'⟩ := d.extends_allocate h _ e he
    exact ⟨hlt, e', he', hr'.trans hr⟩
  · rcases hback j c hc with hc | ⟨-, rfl⟩
    · exact hd.inner_ascending j c hc
    · exact .nil
  · exact hd.outer_unique j k c c' x (hmem j c x hc hx) (hmem k c' x hc' hx') hx hx'

theorem founded_allocate_inner (hd : d.table.Founded) (hsize : d.table.classes.size < UInt32.size)
    {h : ClassHeader} (hs : d.table.requireSuper h = .ok ()) {outer : ClassId} {c : ClassNode}
    (hc : d.table.class? outer = some c) :
    ((d.allocate h).2.table.modifyBody outer (·.addInnerType (d.allocate h).1)).Founded := by
  have hid : (d.allocate h).1.id.toNat = d.table.classes.size := Numbered.toNat_next hsize
  have hnew := d.class?_allocate h (d.allocate h).1.id
  rw [if_pos hid] at hnew
  have hlt : ∀ j c, d.table.class? j = some c → j < (d.allocate h).1.id := by
    intro j c hc
    rw [UInt32.lt_iff_toNat_lt, hid]
    exact lt_size_of_class? hc
  refine (founded_allocate hd hs).modifyBody [(d.allocate h).1] (fun _ ↦ rfl)
    (List.pairwise_singleton ..) ?_ ?_
  · intro x hx
    obtain rfl := List.mem_singleton.1 hx
    exact ⟨hlt outer c hc, _, hnew, rfl⟩
  · intro x hx j e he y hy
    obtain rfl := List.mem_singleton.1 hx
    rw [class?_allocate] at he
    split at he
    · obtain rfl := Option.some.inj he
      cases hy
    · obtain ⟨-, _, hy', -⟩ := hd.inner_present j e y he hy
      exact hlt y.id _ hy'

theorem Applied.founded {e : Edit} {r : Edited} (h : d.Applied e r d')
    (hsize : d'.table.classes.size ≤ UInt32.size) (hd : d.table.Founded) : d'.table.Founded := by
  have hkeep (id : ClassId) (f : ClassBody → ClassBody)
      (hf : ∀ b, (f b).innerTypes = b.innerTypes) : (d.table.modifyBody id f).Founded :=
    hd.modifyBody [] (by simpa using hf) .nil nofun nofun
  cases h with
  | addClass hs => exact founded_allocate hd hs
  | addInner hc hs =>
    rw [table_modifyBody, size_modifyBody, size_allocate] at hsize
    exact founded_allocate_inner hd hsize hs hc
  | addField | addMethod =>
    rw [table_declare]
    exact hkeep _ _ fun _ ↦ rfl
  | removeField | removeMethods =>
    rw [table_modifyBody]
    exact hkeep _ _ fun _ ↦ rfl
  | keepField | keepMethods => exact hd

theorem Applied.refs_prefix {e : Edit} {r : Edited} (h : d.Applied e r d') :
    d.table.refs <+: d'.table.refs := by
  have hkeep (t : ClassTable) (id : ClassId) (f : ClassBody → ClassBody) :
      t.refs <+: (t.modifyBody id f).refs :=
    ⟨[], by rw [refs_modifyBody, List.append_nil]⟩
  cases h with
  | addClass => exact ⟨_, (d.refs_allocate _).symm⟩
  | addInner => exact List.IsPrefix.trans ⟨_, (d.refs_allocate _).symm⟩ (hkeep _ _ _)
  | addField | addMethod | removeField | removeMethods => exact hkeep _ _ _
  | keepField | keepMethods => exact List.prefix_rfl

end Draft

end ClassModel
