import ClassModel.Proofs.Workspace.Hierarchy
import ClassModel.Proofs.Workspace.Ledger

namespace ClassModel

namespace ClassTable

variable {t : ClassTable} {id : ClassId} {c d : ClassNode}

theorem Founded.superClass?_eq_none (h : t.Founded) (hc : t.class? id = some c)
    (hn : t.superClass? c = none) : c.ref.header.superClass = none := by
  cases hs : c.ref.header.superClass with
  | none => rfl
  | some s =>
    obtain ⟨d, hd⟩ := h.exists_superClass hc hs
    rw [superClass?, hs, Option.bind_some, hd] at hn
    cases hn

theorem Founded.class?_of_mem_chain (h : t.Founded) :
    ∀ id c, t.class? id = some c → ∀ e ∈ t.chain c, t.class? e.ref.id = some e := by
  refine h.induction fun id c hc ih e he ↦ ?_
  rw [h.chain_eq hc] at he
  rcases List.mem_cons.1 he with rfl | he
  · rw [h.numbered id e hc]
    exact hc
  · cases hd : t.superClass? c with
    | none => simp [hd] at he
    | some d =>
      rw [hd] at he
      exact ih d hd e he

theorem Founded.findSome?_chain (h : t.Founded) (hc : t.class? id = some c) {α : Type}
    (find : ClassNode → Option α) :
    (t.chain c).findSome? find =
      (find c).or ((t.superClass? c).bind fun d ↦ (t.chain d).findSome? find) := by
  rw [h.chain_eq hc, List.findSome?_cons]
  cases find c with
  | some a => rfl
  | none => cases t.superClass? c <;> rfl

theorem Founded.inheritedField_eq (h : t.Founded) (hc : t.class? id = some c) (name : String) :
    t.inheritedField c name = (c.body.fields.find? (·.decl.name == name)).or
      ((t.superClass? c).bind (t.inheritedField · name)) :=
  h.findSome?_chain hc _

theorem Founded.inheritedInnerType_eq (h : t.Founded) (hc : t.class? id = some c)
    (name : String) :
    t.inheritedInnerType c name = (c.body.innerTypes.find? (·.header.name == some name)).or
      ((t.superClass? c).bind (t.inheritedInnerType · name)) :=
  h.findSome?_chain hc _

/-- An anonymous class is found under no name. -/
theorem name_of_inheritedInnerType {name : String} {x : ClassRef}
    (hx : t.inheritedInnerType c name = some x) : x.header.name = some name := by
  obtain ⟨e, -, he⟩ := List.exists_of_findSome?_eq_some hx
  have hname := List.find?_some he
  exact beq_iff_eq.1 hname

theorem filter_inheritedMethods (t : ClassTable) (c : ClassNode) (name : String) :
    (t.inheritedMethods c name).filter (!·.decl.isConstructor) =
      (t.chain c).flatMap fun e ↦
        e.body.methods.filter fun m ↦ m.decl.name == name && !m.decl.isConstructor := by
  rw [inheritedMethods, List.filter_flatMap]
  apply List.flatMap_congr
  intro e _
  rw [List.filter_filter]
  apply List.filter_congr
  intro m _
  cases m.decl.isConstructor <;> simp

theorem Founded.inheritedMethods_eq (h : t.Founded) (hc : t.class? id = some c) (name : String) :
    t.inheritedMethods c name = c.body.methods.filter (·.decl.name == name) ++
      ((t.superClass? c).elim [] (t.inheritedMethods · name)).filter (!·.decl.isConstructor) := by
  have hown : (c.body.methods.filter fun m ↦
      m.decl.name == name && !(c.ref.id != c.ref.id && m.decl.isConstructor)) =
      c.body.methods.filter (·.decl.name == name) := by
    simp
  rw [inheritedMethods, h.chain_eq hc, List.flatMap_cons, hown]
  congr 1
  cases hd : t.superClass? c with
  | none => rfl
  | some d =>
    obtain ⟨hlt, hd'⟩ := h.superClass?_lt hc hd
    rw [Option.elim_some, Option.elim_some, filter_inheritedMethods]
    apply List.flatMap_congr
    intro e he
    -- The classes above are older than `c`, so none of them is `c` by its number.
    have hle := h.le_of_mem_chain _ d hd' e he
    have hne : (e.ref.id != c.ref.id) = true := by
      rw [bne_iff_ne, h.numbered id c hc]
      exact UInt32.ne_of_lt (UInt32.lt_of_le_of_lt hle hlt)
    simp [hne]

theorem Founded.mem_inheritedMethods_iff (h : t.Founded) (hc : t.class? id = some c)
    (name : String) (m : Handle Method) :
    m ∈ t.inheritedMethods c name ↔ m.decl.name = name ∧
      ∃ e, Relation.ReflTransGen (fun c d ↦ t.superClass? c = some d) c e ∧
        m ∈ e.body.methods ∧ (e = c ∨ m.decl.isConstructor = false) := by
  have hsame : ∀ e ∈ t.chain c, e.ref.id = c.ref.id → e = c := by
    intro e he hid
    have hclass := h.class?_of_mem_chain id c hc e he
    rw [hid, h.numbered id c hc, hc] at hclass
    exact (Option.some.inj hclass).symm
  simp only [inheritedMethods, List.mem_flatMap, List.mem_filter]
  constructor
  · rintro ⟨e, he, hm, hkeep⟩
    simp only [Bool.and_eq_true, beq_iff_eq, Bool.not_eq_true', Bool.and_eq_false_iff] at hkeep
    refine ⟨hkeep.1, e, (h.mem_chain_iff id c hc e).1 he, hm, hkeep.2.imp_left fun hid ↦ ?_⟩
    exact hsame e he (by simpa using hid)
  · rintro ⟨hname, e, he, hm, hkeep⟩
    refine ⟨e, (h.mem_chain_iff id c hc e).2 he, hm, ?_⟩
    rcases hkeep with rfl | hkeep
    · simp [hname]
    · simp [hname, hkeep]

structure Tagged (t : ClassTable) : Prop where
  nodup : ∀ id c, t.class? id = some c → (c.body.methods.map Handle.tag).Nodup
  place : ∀ id id' c c', t.class? id = some c → t.class? id' = some c' →
    ∀ m ∈ c.body.methods, ∀ m' ∈ c'.body.methods, m.tag = m'.tag → id = id'

theorem Tagged.nodup_inheritedMethods (ht : t.Tagged) (h : t.Founded) (hc : t.class? id = some c)
    (name : String) : ((t.inheritedMethods c name).map Handle.tag).Nodup := by
  have hclass := h.class?_of_mem_chain id c hc
  rw [inheritedMethods, List.map_flatMap, List.nodup_flatMap]
  constructor
  · intro e he
    exact (ht.nodup _ e (hclass e he)).sublist (List.filter_sublist.map _)
  · refine (h.pairwise_chain id c hc).imp_of_mem fun {d e} hd he hlt tag hm hm' ↦ ?_
    simp only [List.mem_map, List.mem_filter] at hm hm'
    obtain ⟨m, ⟨hm, -⟩, rfl⟩ := hm
    obtain ⟨m', ⟨hm', -⟩, htag⟩ := hm'
    have hid := ht.place _ _ d e (hclass d hd) (hclass e he) m hm m' hm' htag.symm
    exact UInt32.ne_of_lt hlt hid.symm

end ClassTable

namespace Roster.Ledger

variable {β : Type} [DecidableEq β] {K : Roster β} {tr : List Change} {w : Workspace}
  {p q : Nat × ClassId} {a b : β}

theorem eq_of_tag (h : K.Ledger tr w) (ha : a ∈ K.listAt w p) (hb : b ∈ K.listAt w q)
    (htag : K.tag a = K.tag b) : (p, a) = (q, b) := by
  rw [h.lists] at ha hb
  exact List.inj_on_of_nodup_map h.distinct (mem_surviving.1 ha).1 (mem_surviving.1 hb).1 htag

theorem nodup_tags (h : K.Ledger tr w) (p : Nat × ClassId) : ((K.listAt w p).map K.tag).Nodup := by
  have hnodup : (K.listAt w p).Nodup := by
    rw [h.lists p]
    exact h.nodup_surviving p
  apply hnodup.map_on
  intro a ha b hb htag
  exact congrArg Prod.snd (h.eq_of_tag ha hb htag)

end Roster.Ledger

namespace Workspace

theorem tagged_performAll (ops : List Operation) (i : Nat) :
    ((start.performAll ops).table i).Tagged := by
  have hl := (Roster.Ledger.start Roster.methods).performAll Roster.lawful_methods ops
  constructor
  · intro id c hc
    have hnodup := hl.nodup_tags (i, id)
    rw [Roster.listAt, Roster.methods.list_of_class? hc] at hnodup
    exact hnodup
  · intro id id' c c' hc hc' m hm m' hm' htag
    have hat : m ∈ Roster.methods.listAt (start.performAll ops) (i, id) := by
      rw [Roster.listAt, Roster.methods.list_of_class? hc]
      exact hm
    have hat' : m' ∈ Roster.methods.listAt (start.performAll ops) (i, id') := by
      rw [Roster.listAt, Roster.methods.list_of_class? hc']
      exact hm'
    exact congrArg (·.1.2) (hl.eq_of_tag hat hat' htag)

/-- As long as all classes of a table have numbers of their own, what is found in a class and above
it is what the class declares and then what is found in its super class and above that. Of the
methods of a name each is found once, constructors only if the class itself declares them. -/
theorem inherited_eq (ops : List Operation) (i : Nat)
    (hsize : ((start.performAll ops).table i).classes.size ≤ UInt32.size) {c : ClassNode}
    (hmem : c ∈ ((start.performAll ops).table i).classes.items) (name : String) :
    let t := (start.performAll ops).table i
    (t.superClass? c = none → c.ref.header.superClass = none) ∧
    t.inheritedField c name = (c.body.fields.find? (·.decl.name == name)).or
      ((t.superClass? c).bind (t.inheritedField · name)) ∧
    t.inheritedInnerType c name = (c.body.innerTypes.find? (·.header.name == some name)).or
      ((t.superClass? c).bind (t.inheritedInnerType · name)) ∧
    (∀ x, t.inheritedInnerType c name = some x → x.header.name = some name) ∧
    t.inheritedMethods c name = c.body.methods.filter (·.decl.name == name) ++
      ((t.superClass? c).elim [] (t.inheritedMethods · name)).filter (!·.decl.isConstructor) ∧
    ((t.inheritedMethods c name).map Handle.tag).Nodup ∧
    ∀ m, m ∈ t.inheritedMethods c name ↔ m.decl.name = name ∧
      ∃ e, Relation.ReflTransGen (fun c d ↦ t.superClass? c = some d) c e ∧
        m ∈ e.body.methods ∧ (e = c ∨ m.decl.isConstructor = false) := by
  intro t
  have h : t.Founded := founded_performAll ops i hsize
  have hc : t.class? c.ref.id = some c := h.class?_of_mem hsize hmem
  refine ⟨h.superClass?_eq_none hc, h.inheritedField_eq hc name, h.inheritedInnerType_eq hc name,
    fun x hx ↦ ClassTable.name_of_inheritedInnerType hx, h.inheritedMethods_eq hc name,
    (tagged_performAll ops i).nodup_inheritedMethods h hc name, h.mem_inheritedMethods_iff hc name⟩

/-- A class and its super class, both with a constructor and the lower with an anonymous class in
it, in a command that is broken off. -/
theorem inherited_of_namesake :
    let header (name : Option String) (s : Option ClassId) : ClassHeader :=
      ⟨name, .ordinary, s, .dummy, .source⟩
    let method (result : Option TypeRef) : Method :=
      ⟨"A", result, [], .none, [], result.isNone, false, false, none, false, .dummy, .source⟩
    let t := (start.performAll [.command 0 false [
      .step (.edit (.addClass (header (some "A") none))),
      .step (.edit (.addClass (header (some "A") (some 0)))),
      .step (.edit (.addInner 1 (header none none))),
      .step (.edit (.addMethod 0 (method none))),
      .step (.edit (.addMethod 0 (method (some ⟨"int", 0⟩)))),
      .step (.edit (.addMethod 1 (method none))), .step .abort]]).table 0
    let inner : ClassRef := ⟨.declared 2, 2, header none none⟩
    let c : ClassNode := ⟨⟨.declared 1, 1, header (some "A") (some 0)⟩,
      ⟨[], [⟨.declared 5, method none⟩], [inner]⟩⟩
    t.classes.size ≤ UInt32.size ∧ t.class? 1 = some c ∧ t.inheritedInnerType c "A" = none ∧
      t.inheritedMethods c "A" =
        [⟨.declared 5, method none⟩, ⟨.declared 4, method (some ⟨"int", 0⟩)⟩] := by
  intro header method t inner c
  let d : ClassNode := ⟨⟨.declared 0, 0, header (some "A") none⟩,
    ⟨[], [⟨.declared 3, method none⟩, ⟨.declared 4, method (some ⟨"int", 0⟩)⟩], []⟩⟩
  have hsize : t.classes.size ≤ UInt32.size := by
    rw [show t.classes.size = 3 from rfl]
    decide
  have hc : t.class? 1 = some c := rfl
  have hd : t.class? 0 = some d := rfl
  have hup : t.superClass? c = some d := hd
  have hroot : t.superClass? d = none := rfl
  obtain ⟨-, -, hinner, -, hmethods, -⟩ := inherited_eq _ 0 hsize (Numbered.mem_of_get? hc) "A"
  obtain ⟨-, -, hinner', -, hmethods', -⟩ := inherited_eq _ 0 hsize (Numbered.mem_of_get? hd) "A"
  refine ⟨hsize, hc, ?_, ?_⟩
  · refine hinner.trans ?_
    rw [hup, Option.bind_some, hinner', hroot]
    rfl
  · refine hmethods.trans ?_
    rw [hup, Option.elim_some, hmethods', hroot]
    rfl

end Workspace

end ClassModel
