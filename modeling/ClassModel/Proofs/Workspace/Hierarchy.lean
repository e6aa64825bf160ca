import ClassModel.Proofs.Table.Structure
import ClassModel.Proofs.Workspace.Modification

namespace ClassModel

/-- What becomes of the classes of a table: none goes, none takes the place of another, and they
stay well-founded. -/
structure ClassTable.Grows (t t' : ClassTable) : Prop where
  refs_prefix : t.refs <+: t'.refs
  founded : t'.classes.size ≤ UInt32.size → t.Founded → t'.Founded

namespace ClassTable

variable {t t' t'' : ClassTable}

theorem Grows.refl (t : ClassTable) : t.Grows t := ⟨List.prefix_rfl, fun _ ↦ id⟩

theorem Grows.size_le (h : t.Grows t') : t.classes.size ≤ t'.classes.size := by
  rw [← length_refs, ← length_refs]
  exact h.refs_prefix.length_le

theorem Grows.trans (h : t.Grows t') (h' : t'.Grows t'') : t.Grows t'' :=
  ⟨h.refs_prefix.trans h'.refs_prefix,
    fun hsize ht ↦ h'.founded hsize (h.founded (Nat.le_trans h'.size_le hsize) ht)⟩

theorem grows_of_classes (h : t'.classes = t.classes) : t.Grows t' := by
  have hrefs : t'.refs = t.refs := congrArg (·.items.map ClassNode.ref) h
  refine ⟨hrefs ▸ List.prefix_rfl, fun _ ht ↦ ?_⟩
  have hclass : t'.class? = t.class? := funext fun id ↦ congrArg (·.get? id) h
  exact ⟨fun id c hc ↦ ht.numbered id c (hclass ▸ hc),
    fun id c s hc ↦ ht.superClass_lt id c s (hclass ▸ hc),
    fun id c x hc hx ↦ hclass ▸ ht.inner_present id c x (hclass ▸ hc) hx,
    fun id c hc ↦ ht.inner_ascending id c (hclass ▸ hc),
    fun id id' c c' x hc hc' ↦ ht.outer_unique id id' c c' x (hclass ▸ hc) (hclass ▸ hc')⟩

theorem Grows.extends_table (h : t.Grows t') : t.Extends t' := by
  intro id c hc
  have hr : t.refs[id.toNat]? = some c.ref := by rw [← map_ref_class?, hc, Option.map_some]
  obtain ⟨hid, hat⟩ := List.getElem?_eq_some_iff.1 hr
  have hr' := List.prefix_iff_getElem?.1 h.refs_prefix id.toNat hid
  rw [hat, ← map_ref_class?] at hr'
  exact Option.map_eq_some_iff.1 hr'

theorem Grows.classNamed? (h : t.Grows t') {name : String} {c : ClassNode}
    (hc : t.classNamed? name = some c) : ∃ c', t'.classNamed? name = some c' ∧ c'.ref = c.ref := by
  have hr : t.refs.find? (·.header.name == some name) = some c.ref := by
    rw [← map_ref_classNamed?, hc, Option.map_some]
  have hr' := h.refs_prefix.find?_eq_some hr
  rw [← map_ref_classNamed?] at hr'
  exact Option.map_eq_some_iff.1 hr'

theorem Founded.class?_of_mem (h : t.Founded) (hsize : t.classes.size ≤ UInt32.size)
    {c : ClassNode} (hc : c ∈ t.classes.items) : t.class? c.ref.id = some c := by
  obtain ⟨id, hid⟩ : ∃ id, t.class? id = some c := Numbered.exists_get?_of_mem hsize hc
  rw [h.numbered id c hid]
  exact hid

/-- The class that is found for a name has that name, and none before it has. -/
theorem Founded.classNamed?_first (h : t.Founded) (hsize : t.classes.size ≤ UInt32.size)
    {name : String} {c : ClassNode} (hc : t.classNamed? name = some c) :
    t.class? c.ref.id = some c ∧ c.ref.header.name = some name ∧
      ∀ id d, t.class? id = some d → d.ref.header.name = some name → c.ref.id ≤ id := by
  obtain ⟨hname, i, hi, rfl, hbefore⟩ := List.find?_eq_some_iff_getElem.1 hc
  have hnat : (UInt32.ofNat i).toNat = i :=
    UInt32.toNat_ofNat_of_lt' (Nat.lt_of_lt_of_le hi hsize)
  have hat : t.class? (.ofNat i) = some t.classes.items[i] := by
    rw [class?, Numbered.get?, hnat, List.getElem?_eq_getElem hi]
  rw [h.numbered _ _ hat]
  refine ⟨hat, beq_iff_eq.1 hname, fun id d hd hd' ↦ ?_⟩
  rw [UInt32.le_iff_toNat_le, hnat]
  refine Nat.le_of_not_lt fun hlt ↦ ?_
  obtain ⟨hid, rfl⟩ := List.getElem?_eq_some_iff.1 hd
  have hne := hbefore id.toNat hlt
  simp [hd'] at hne

theorem exists_classNamed? {id : ClassId} {c : ClassNode} {name : String}
    (hc : t.class? id = some c) (hname : c.ref.header.name = some name) :
    ∃ d, t.classNamed? name = some d := by
  rw [← Option.isSome_iff_exists, classNamed?, List.find?_isSome]
  exact ⟨c, Numbered.mem_of_get? hc, beq_iff_eq.2 hname⟩

end ClassTable

namespace Draft

open ClassTable

theorem Applied.grows {d d' : Draft} {e : Edit} {r : Edited} (h : d.Applied e r d') :
    d.table.Grows d'.table :=
  ⟨h.refs_prefix, h.founded⟩

theorem grows_act (d : Draft) (k : Step) : d.table.Grows (d.act k).2.1.table := by
  rcases d.act_cases k with ⟨e, r, -, ha, -⟩ | ⟨x, -, hd, -⟩
  · exact ha.grows
  · rw [hd]
    exact .refl _

end Draft

namespace Workspace

open ClassTable

theorem grows_act {i : Nat} {s : Workspace × Bool} (a : Action) (j : Nat) :
    (s.1.table j).Grows ((act i s a).2.1.table j) := by
  cases a with
  | step k =>
    rw [table_act_step]
    split
    · next hj =>
      rw [hj.1]
      exact Draft.grows_act ⟨s.1.table i, s.1.declared, s.2⟩ k
    · exact .refl _
  | request cache r =>
    have ht : (act i s (.request cache r)).2.1.table j = s.1.table j := s.1.table_request cache r j
    rw [ht]
    exact .refl _
  | count => exact .refl _

theorem grows_series (w : Workspace) (i : Nat) (keepGoing : Bool) (actions : List Action)
    (j : Nat) : (w.table j).Grows
      ((carryOut (act i) keepGoing (w, false) actions).2.1.table j) := by
  have hact : ∀ a ∈ actions, ∀ s : Workspace × Bool, (w.table j).Grows (s.1.table j) →
      (w.table j).Grows ((act i s a).2.1.table j) :=
    fun a _ s hs ↦ hs.trans (grows_act a j)
  exact carryOut_preserves keepGoing hact (.refl _)

theorem grows_command (w : Workspace) (i : Nat) (keepGoing : Bool) (actions : List Action)
    (j : Nat) : (w.table j).Grows ((w.command i keepGoing actions).2.table j) :=
  (w.grows_series i keepGoing actions j).trans
    (grows_of_classes (w.classes_command i keepGoing actions j))

theorem grows_perform (w : Workspace) (op : Operation) (j : Nat) :
    (w.table j).Grows ((w.perform op).table j) := by
  cases ho : op.isCommand with
  | false =>
    rw [w.table_perform ho]
    exact .refl _
  | true =>
    cases op with
    | command i keepGoing actions => exact w.grows_command i keepGoing actions j
    | _ => cases ho

theorem grows_performAll (w : Workspace) (ops : List Operation) (j : Nat) :
    (w.table j).Grows ((w.performAll ops).table j) := by
  induction ops generalizing w with
  | nil => exact .refl _
  | cons op ops ih => exact (w.grows_perform op j).trans (ih (w.perform op))

theorem founded_start (j : Nat) : (start.table j).Founded := by
  cases j with
  | zero => exact founded_empty
  | succ j => exact founded_empty

theorem founded_performAll (ops : List Operation) (i : Nat)
    (hsize : ((start.performAll ops).table i).classes.size ≤ UInt32.size) :
    ((start.performAll ops).table i).Founded :=
  (start.grows_performAll ops i).founded hsize (founded_start i)

/-- After any operations, commands that fail or are broken off among them, every class has its
number, names only an older class as its super class, and is an inner class of one older class at
most; the first class of a name is found by it, and whatever has been found is found from then on;
and the way up from a class comes to each class above it once and ends with one that has no super
class. -/
theorem classes_founded (ops later : List Operation) (i : Nat)
    (hsize : ((start.performAll ops).table i).classes.size ≤ UInt32.size) :
    let t := (start.performAll ops).table i
    let t' := (start.performAll (ops ++ later)).table i
    t.Founded ∧
    (∀ id c s, t.class? id = some c → c.ref.header.superClass = some s →
      ∃ d, t.superClass? c = some d ∧ d.ref.id = s ∧ s < id) ∧
    t.Extends t' ∧
    (∀ name c, t.classNamed? name = some c →
      (t.class? c.ref.id = some c ∧ c.ref.header.name = some name ∧
        ∀ id d, t.class? id = some d → d.ref.header.name = some name → c.ref.id ≤ id) ∧
      ∃ c', t'.classNamed? name = some c' ∧ c'.ref = c.ref) ∧
    (∀ name id d, t.class? id = some d → d.ref.header.name = some name →
      ∃ c, t.classNamed? name = some c) ∧
    ∀ id c, t.class? id = some c →
      (t.climb [c.ref.id] c.ref.header.superClass).2 = .root ∧
      ((t.chain c).Pairwise fun d e ↦ e.ref.id < d.ref.id) ∧
      ∀ e, e ∈ t.chain c ↔ Relation.ReflTransGen (fun c d ↦ t.superClass? c = some d) c e := by
  intro t t'
  have h : t.Founded := founded_performAll ops i hsize
  have hgrows : t.Grows t' := by
    have happend : start.performAll (ops ++ later) = (start.performAll ops).performAll later :=
      List.foldl_append
    simp only [t', happend]
    exact (start.performAll ops).grows_performAll later i
  refine ⟨h, fun id c s hc hs ↦ ?_, hgrows.extends_table, fun name c hc ↦ ?_,
    fun name id d hd hname ↦ exists_classNamed? hd hname, fun id c hc ↦ ?_⟩
  · obtain ⟨d, hd⟩ := h.exists_superClass hc hs
    refine ⟨d, ?_, h.numbered s d hd, h.superClass_lt id c s hc hs⟩
    rw [superClass?, hs, Option.bind_some, hd]
  · exact ⟨h.classNamed?_first hsize hc, hgrows.classNamed? hc⟩
  · refine ⟨?_, h.pairwise_chain id c hc, h.mem_chain_iff id c hc⟩
    rw [h.climb_owner hc]

/-- Three classes of one name, each above or around the next, and a fourth that comes later. -/
theorem classes_founded_of_namesakes :
    let header (s : Option ClassId) : ClassHeader := ⟨some "A", .ordinary, s, .dummy, .source⟩
    let ops : List Operation := [.command 0 true [.step (.edit (.addClass (header none))),
      .step (.edit (.addClass (header (some 7)))), .step (.edit (.addClass (header (some 0)))),
      .step (.edit (.addInner 1 (header (some 1)))), .step .abort]]
    let later : List Operation := [.command 0 false [.step (.edit (.addInner 0 (header (some 2))))]]
    let t := (start.performAll ops).table 0
    let t' := (start.performAll (ops ++ later)).table 0
    let first : ClassRef := ⟨.declared 0, 0, header none⟩
    t.classes.size = 3 ∧ t'.classes.size = 4 ∧
      (∃ c, t.classNamed? "A" = some c ∧ c.ref = first) ∧
      (∃ c', t'.classNamed? "A" = some c' ∧ c'.ref = first) ∧
      ∃ c, t.class? 2 = some c ∧ (t.chain c).Pairwise fun d e ↦ e.ref.id < d.ref.id := by
  intro header ops later t t' first
  have hsize : t.classes.size = 3 := by decide +kernel
  have hsize' : t'.classes.size = 4 := by decide +kernel
  have hle : t.classes.size ≤ UInt32.size := by
    rw [hsize]
    decide
  obtain ⟨-, -, -, hnamed, hexists, hup⟩ := classes_founded ops later 0 hle
  obtain ⟨c, hc⟩ := hexists "A" 2 _ rfl rfl
  obtain ⟨⟨hat, -, hfirst⟩, c', hc', hsame⟩ := hnamed "A" c hc
  have hid : c.ref.id = 0 := by
    have hle := hfirst 0 _ rfl rfl
    rw [UInt32.le_iff_toNat_le] at hle
    exact UInt32.toNat_inj.1 (Nat.le_zero.1 hle)
  have href : c.ref = first := by
    rw [hid] at hat
    exact congrArg ClassNode.ref (Option.some.inj hat).symm
  exact ⟨hsize, hsize', ⟨c, hc, href⟩, ⟨c', hc', hsame.trans href⟩, _, rfl, (hup 2 _ rfl).2.1⟩

end Workspace

end ClassModel
