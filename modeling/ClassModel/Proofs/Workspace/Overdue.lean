import ClassModel.Proofs.Cache.Transparency
import ClassModel.Proofs.Workspace.Ledger

namespace ClassModel

def Action.isDrop : Action → Bool
  | .request _ .drop => true
  | _ => false

def Operation.size : Operation → Nat
  | .command _ _ actions => actions.countP Action.isDrop + 1
  | _ => 1

def Operation.sizes : List Operation → Nat
  | [] => 0
  | op :: ops => op.size + sizes ops

namespace Workspace

/-- Whether a change of table `i` is overdue after an operation, if `b` says so before it. -/
def overdueAfter (w : Workspace) (i : Nat) (b : Bool) : Operation → Bool
  | .command j keepGoing actions =>
    let o := (w.command j keepGoing actions).1
    if i = j ∧ o.effective then o.aborted else b
  | _ => b

def overdue (w : Workspace) (i : Nat) (b : Bool) : List Operation → Bool
  | [] => b
  | op :: ops => (w.perform op).overdue i (w.overdueAfter i b op) ops

theorem merged_moment {w : Workspace} {o : OpenCache} {c : ClassNode} (ha : o.augments = none)
    (hc : (w.table o.table).class? o.owner.id = some c) (settings : Settings) :
    (w.moment o).merged settings = c.body := by
  unfold Moment.merged moment ownerNode
  simp [ha, hc, Members.append, Members.none]

end Workspace

namespace OpenCache

/-- Whether a cache is over a class of the table `t`, and what it keeps dates from the last `n`
changes of its counters. What dates from now is what the class has now, unless a change is owed.
Nothing is said of a cache that is told members from outside. -/
structure Dated (n : Nat) (t : ClassTable) (owed : Prop) (o : OpenCache) : Prop where
  present : ∃ c, t.class? o.owner.id = some c ∧ c.ref = o.owner
  drops : o.cache.drops.count.toNat ≤ n
  derived : o.augments = none → o.cache.DerivedFrom fun s v ↦
    (t.modifications.count - s.outer).toNat ≤ n ∧ s.inner ≤ o.cache.drops.count ∧
      (s = .capture t.modifications o.cache.drops → ¬owed →
        ∀ c, t.class? o.owner.id = some c → v = c.body)

namespace Dated

variable {n n' : Nat} {t t' : ClassTable} {owed owed' : Prop} {o : OpenCache}

theorem exists_of_extends (h : o.Dated n t owed) (he : t.Extends t') :
    ∃ c, t'.class? o.owner.id = some c ∧ c.ref = o.owner := by
  obtain ⟨c, hclass, href⟩ := h.present
  obtain ⟨c', hclass', href'⟩ := he _ c hclass
  exact ⟨c', hclass', href'.trans href⟩

theorem move (h : o.Dated n t owed) (hn : n ≤ n') (he : t.Extends t')
    (hm : t'.modifications = t.modifications) (ho : owed ∨ t' ≠ t → owed') :
    o.Dated n' t' owed' where
  present := h.exists_of_extends he
  drops := Nat.le_trans h.drops hn
  derived ha := by
    rw [hm]
    refine (h.derived ha).mono fun s v ⟨hs, hi, hv⟩ ↦ ⟨Nat.le_trans hs hn, hi, fun hnow hpaid ↦ ?_⟩
    obtain ⟨howed, ht⟩ := not_or.1 (mt ho hpaid)
    rw [Classical.not_not.1 ht]
    exact hv hnow howed

theorem same (h : o.Dated n t owed) (hn : n ≤ n') (ho : owed → owed') : o.Dated n' t owed' :=
  h.move hn (.refl t) rfl fun howed ↦ ho (howed.resolve_right (· rfl))

/-- When the count of the table advances, nothing that is kept dates from now. -/
theorem advance (h : o.Dated n t owed) (he : t.Extends t')
    (hm : t'.modifications = t.modifications.increment) (hn : n + 1 < UInt64.size) :
    o.Dated (n + 1) t' owed' where
  present := h.exists_of_extends he
  drops := Nat.le_succ_of_le h.drops
  derived ha := by
    rw [hm]
    refine (h.derived ha).mono fun s v ⟨hs, hi, _⟩ ↦ ?_
    have hlater := Counter.sub_increment hs hn
    refine ⟨by omega, hi, fun hnow ↦ ?_⟩
    have hzero : s.outer = t.modifications.increment.count := congrArg Stamp.outer hnow
    rw [hzero, UInt64.sub_self] at hlater
    cases hlater

theorem drop (h : o.Dated n t owed) (hn : n + 1 < UInt64.size) :
    ({ o with cache := o.cache.drop } : OpenCache).Dated (n + 1) t owed where
  present := h.present
  drops := by
    have hd := h.drops
    have hi : o.cache.drop.drops.count.toNat = o.cache.drops.count.toNat + 1 :=
      Counter.toNat_increment (by omega)
    rw [hi]
    omega
  derived ha := by
    have hd := h.drops
    have hlt : o.cache.drops.count < o.cache.drop.drops.count := Counter.lt_increment (by omega)
    have hc : o.cache.drop.DerivedFrom _ := ⟨(h.derived ha).constructors, (h.derived ha).fields,
      (h.derived ha).methods, (h.derived ha).innerTypes⟩
    refine hc.mono fun s v ⟨hs, hi, _⟩ ↦ ?_
    refine ⟨Nat.le_succ_of_le hs, UInt64.le_of_lt (UInt64.lt_of_le_of_lt hi hlt), fun hnow ↦ ?_⟩
    have hsi : s.inner = o.cache.drop.drops.count := congrArg Stamp.inner hnow
    exact absurd (hsi ▸ hi) (UInt64.not_le.2 hlt)

theorem ask {w : Workspace} (h : o.Dated n (w.table o.table) owed) (q : Query) :
    (o.augments = none → ¬owed → ∀ c, (w.table o.table).class? o.owner.id = some c →
      ∀ a, c.body.answer? q = some a → (o.cache.ask (w.moment o) q).1 = a) ∧
      ({ o with cache := (o.cache.ask (w.moment o) q).2.1 } : OpenCache).Dated n
        (w.table o.table) owed := by
  have hask := fun ha ↦ (h.derived ha).ask (m := w.moment o) (by
    refine ⟨?_, UInt64.le_refl _, fun _ _ c hc ↦ Workspace.merged_moment ha hc _⟩
    simp [Cache.stamp, Workspace.moment]) q
  refine ⟨fun ha hpaid c hc a hq ↦ ?_, h.present, ?_, fun ha ↦ ?_⟩
  · obtain ⟨⟨v, ⟨-, -, hv⟩, hanswer⟩, -⟩ := hask ha
    exact hanswer a ((hv rfl hpaid c hc).symm ▸ hq)
  · rw [Cache.drops_ask]
    exact h.drops
  · rw [Cache.drops_ask]
    exact (hask ha).2

theorem new {c : ClassNode} {id : ClassId} (table resolver : Nat) (settings : Settings)
    (augments : Option ClassBody) (ht : t.WellNumbered) (hc : t.class? id = some c) :
    (⟨table, resolver, c.ref, augments, .new c.ref.owner settings⟩ : OpenCache).Dated n t owed where
  present := by
    refine ⟨c, ?_, rfl⟩
    rw [ht id c hc]
    exact hc
  drops := Nat.zero_le _
  derived _ := Cache.derivedFrom_new _ _ _

end Dated

end OpenCache

/-- Whether all caches are up to date, `n` steps after a start, but for changes owed to tables. -/
structure Workspace.Dated (n : Nat) (owed : Nat → Prop) (w : Workspace) : Prop where
  wellNumbered : ∀ i, (w.table i).WellNumbered
  caches : ∀ o ∈ w.caches, o.Dated n (w.table o.table) (owed o.table)

namespace Workspace

variable {n n' : Nat} {w w' : Workspace} {owed owed' : Nat → Prop}

theorem Dated.same (h : w.Dated n owed) (hn : n ≤ n') (ht : ∀ j, w'.table j = w.table j)
    (hc : w'.caches = w.caches) (ho : ∀ j, owed j → owed' j) : w'.Dated n' owed' where
  wellNumbered i := by
    rw [ht]
    exact h.wellNumbered i
  caches o hmem := by
    rw [hc] at hmem
    rw [ht]
    exact (h.caches o hmem).same hn (ho _)

theorem Dated.set (h : w.Dated n owed) (hn : n ≤ n') (ht : ∀ j, w'.table j = w.table j) {i : Nat}
    {o : OpenCache} (hc : w'.caches = w.caches.set i o)
    (ho : o.Dated n' (w.table o.table) (owed o.table)) : w'.Dated n' owed where
  wellNumbered i := by
    rw [ht]
    exact h.wellNumbered i
  caches o' hmem := by
    rw [hc] at hmem
    rw [ht]
    rcases List.mem_or_eq_of_mem_set hmem with hmem | rfl
    · exact (h.caches o' hmem).same hn id
    · exact ho

theorem Dated.request (h : w.Dated n owed) (i : Nat) (r : Request) (hn : r = .drop → n < n')
    (hle : n ≤ n') (hsize : n' < UInt64.size) : (w.request i r).2.Dated n' owed := by
  have ht := w.table_request i r
  cases ho : w.caches[i]? with
  | none =>
    refine h.same hle ht ?_ fun _ ↦ id
    simp only [Workspace.request, ho]
  | some o =>
    have hmem := h.caches o (List.mem_of_getElem? ho)
    cases r with
    | query q => exact h.set hle ht (request_query ho q).2.2 ((hmem.ask q).2.same hle id)
    | drop =>
      have hlt : n + 1 ≤ n' := hn rfl
      have hc : (w.request i .drop).2.caches =
          w.caches.set i { o with cache := o.cache.drop } := by
        simp only [Workspace.request, ho]
      exact h.set hle ht hc ((hmem.drop (by omega)).same hlt id)
    | owner =>
      refine h.same hle ht ?_ fun _ ↦ id
      simp only [Workspace.request, ho]

/-- A step of a command leaves the counts alone, and marks the command if it changes a table. -/
theorem table_step (i : Nat) (s : Workspace × Bool) (k : Step) (j : Nat) :
    let s' := (Workspace.act i s (.step k)).2
    (s'.1.table j).modifications = (s.1.table j).modifications ∧
      ((s.1.table j).WellNumbered → (s'.1.table j).WellNumbered) ∧
      (s.1.table j).Extends (s'.1.table j) ∧ (s.2 = true → s'.2 = true) ∧
      (s'.1.table j ≠ s.1.table j → j = i ∧ s'.2 = true) := by
  intro s'
  have ht : s'.1.table j = _ := table_act_step i s k j
  have hf := Draft.follows_act ⟨s.1.table i, s.1.declared, s.2⟩ k
  have hmark : s.2 = true → s'.2 = true := by
    intro hs
    by_contra hs'
    have hold : s.2 = false := (hf.unchanged (eq_false_of_ne_true hs')).1
    exact Bool.noConfusion (hs.symm.trans hold)
  rw [ht]
  split
  · next hj =>
    obtain rfl := hj.1
    refine ⟨hf.modifications, hf.wellNumbered, hf.extends_table, hmark, fun hne ↦ ⟨rfl, ?_⟩⟩
    by_contra hs'
    exact hne (hf.unchanged (eq_false_of_ne_true hs')).2
  · exact ⟨rfl, id, .refl _, hmark, fun hne ↦ absurd rfl hne⟩

/-- In a command on table `i` a change is owed to that table once the draft is marked. -/
theorem Dated.act {i : Nat} {s : Workspace × Bool}
    (h : s.1.Dated n fun j ↦ owed j ∨ j = i ∧ s.2 = true) (a : Action) (hle : n ≤ n')
    (hn : a.isDrop → n < n') (hsize : n' < UInt64.size) :
    (Workspace.act i s a).2.1.Dated n' fun j ↦
      owed j ∨ j = i ∧ (Workspace.act i s a).2.2 = true := by
  cases a with
  | step k =>
    refine ⟨fun j ↦ ?_, fun o ho ↦ ?_⟩
    · obtain ⟨-, hnumbered, -⟩ := table_step i s k j
      exact hnumbered (h.wellNumbered j)
    · obtain ⟨hcount, -, hextends, hmark, hchange⟩ := table_step i s k o.table
      refine (h.caches o ho).move hle hextends hcount ?_
      rintro ((howed | ⟨hi, hs⟩) | hne)
      · exact .inl howed
      · exact .inr ⟨hi, hmark hs⟩
      · exact .inr (hchange hne)
  | request cache r =>
    refine h.request cache r (fun hr ↦ hn ?_) hle hsize
    rw [hr]
    rfl
  | count => exact h.same hle (fun _ ↦ rfl) rfl fun _ ↦ id

theorem Dated.series {i : Nat} {s : Workspace × Bool}
    (h : s.1.Dated n fun j ↦ owed j ∨ j = i ∧ s.2 = true) (keepGoing : Bool)
    (actions : List Action) (hn : n + actions.countP Action.isDrop < UInt64.size) :
    let s' := (carryOut (Workspace.act i) keepGoing s actions).2
    s'.1.Dated (n + actions.countP Action.isDrop) fun j ↦ owed j ∨ j = i ∧ s'.2 = true := by
  induction actions generalizing n s with
  | nil => exact h
  | cons a actions ih =>
    rw [List.countP_cons] at hn ⊢
    have hle : n ≤ n + if a.isDrop then 1 else 0 := Nat.le_add_right ..
    have hstep := h.act a hle (fun hdrop ↦ by simp [hdrop]) (by omega)
    have hrest := ih hstep (by omega)
    rw [Nat.add_assoc, Nat.add_comm (ite _ _ _)] at hrest
    cases hg : goesOn keepGoing (Workspace.act i s a).1 with
    | true =>
      rw [carryOut_of_goesOn hg]
      exact hrest
    | false =>
      obtain ⟨x, -, hx⟩ := carryOut_of_not_goesOn actions hg
      rw [hx]
      exact hstep.same (by omega) (fun _ ↦ rfl) rfl fun _ ↦ id

/-- The end of a command is about the table of the command alone, and only counts its changes. -/
theorem table_command_cases (w : Workspace) (i : Nat) (keepGoing : Bool) (actions : List Action)
    (j : Nat) :
    let s := (carryOut (act i) keepGoing (w, false) actions).2
    let o := (w.command i keepGoing actions).1
    let t := (w.command i keepGoing actions).2.table j
    t = s.1.table j ∧ (j = i → i < s.1.tables.length → o.effective = true → o.aborted = true) ∨
      j = i ∧ o.effective = true ∧ o.aborted = false ∧
        t = { s.1.table j with modifications := (s.1.table j).modifications.increment } := by
  intro s o t
  have hmark : s.2 = o.effective := w.mark_command i keepGoing actions
  have ht : t = if j = i ∧ i < s.1.tables.length then
      (⟨s.1.table i, s.1.declared, s.2⟩ : Draft).commit o.aborted else s.1.table j :=
    table_setTable s.1 i j _
  rw [hmark] at ht
  by_cases hj : j = i ∧ i < s.1.tables.length
  · rw [if_pos hj] at ht
    rw [ht, hj.1]
    cases he : o.effective with
    | false => exact .inl ⟨rfl, fun _ _ h ↦ by cases h⟩
    | true =>
      cases hb : o.aborted with
      | true => exact .inl ⟨rfl, fun _ _ _ ↦ rfl⟩
      | false => exact .inr ⟨rfl, rfl, rfl, rfl⟩
  · rw [if_neg hj] at ht
    exact .inl ⟨ht, fun hi hlt ↦ absurd ⟨hi, hlt⟩ hj⟩

/-- The end of a command makes up for all changes. One that is broken off leaves them overdue. -/
theorem Dated.command (h : w.Dated n owed) (i : Nat) (keepGoing : Bool) (actions : List Action)
    (hn : n + (actions.countP Action.isDrop + 1) < UInt64.size) :
    let o := (w.command i keepGoing actions).1
    (w.command i keepGoing actions).2.Dated (n + (actions.countP Action.isDrop + 1)) fun j ↦
      if j = i ∧ o.effective = true then o.aborted = true else owed j := by
  intro o
  have hstart : w.Dated n fun j ↦ owed j ∨ j = i ∧ false = true :=
    h.same (Nat.le_refl n) (fun _ ↦ rfl) rfl fun _ ↦ .inl
  have hd := hstart.series (s := (w, false)) keepGoing actions (by omega)
  dsimp only at hd
  rw [w.mark_command i keepGoing actions] at hd
  have ht := w.table_command_cases i keepGoing actions
  refine ⟨fun j ↦ ?_, fun x hx ↦ ?_⟩
  · rcases ht j with ⟨ht, -⟩ | ⟨-, -, -, ht⟩
    · rw [ht]
      exact hd.wellNumbered j
    · rw [ht]
      exact hd.wellNumbered j
  · have hx := hd.caches x hx
    obtain ⟨c, hc, -⟩ := hx.present
    rcases ht x.table with ⟨ht, hlate⟩ | ⟨-, -, -, ht⟩
    · rw [ht]
      refine hx.same (by omega) fun howed ↦ ?_
      split
      · next hj =>
        have hlt := lt_length_of_class? hc
        rw [hj.1] at hlt
        exact hlate hj.1 hlt hj.2
      · next hj => exact howed.resolve_right hj
    · rw [ht]
      exact hx.advance (fun _ c hc ↦ ⟨c, hc, rfl⟩) rfl hn

theorem caches_openCache (w : Workspace) (i : Nat) (id : ClassId) (resolver : Nat)
    (settings : Settings) (augments : Option (Members Field Method ClassId)) :
    (w.openCache i id resolver settings augments).2.caches = w.caches ∨
      ∃ c augments', (w.table i).class? id = some c ∧
        (w.openCache i id resolver settings augments).2.caches = w.caches ++
          [⟨i, resolver, c.ref, augments', .new c.ref.owner settings⟩] := by
  unfold openCache
  cases hc : (w.table i).require id with
  | error e => exact .inl rfl
  | ok c => exact .inr ⟨c, _, Draft.require_eq_ok.1 hc, rfl⟩

theorem Dated.openCache (h : w.Dated n owed) (i : Nat) (id : ClassId) (resolver : Nat)
    (settings : Settings) (augments : Option (Members Field Method ClassId)) :
    (w.openCache i id resolver settings augments).2.Dated (n + 1) owed := by
  have ht : ∀ j, (w.openCache i id resolver settings augments).2.table j = w.table j := by
    intro j
    rw [table, tables_openCache, table]
  rcases w.caches_openCache i id resolver settings augments with hc | ⟨c, given, hclass, hc⟩
  · exact h.same (Nat.le_succ n) ht hc fun _ howed ↦ howed
  · refine ⟨fun j ↦ ?_, fun o ho ↦ ?_⟩
    · rw [ht]
      exact h.wellNumbered j
    · rw [ht]
      rw [hc] at ho
      rcases List.mem_append.1 ho with ho | ho
      · exact (h.caches o ho).same (Nat.le_succ n) fun howed ↦ howed
      · obtain rfl := List.mem_singleton.1 ho
        exact .new i resolver settings given (h.wellNumbered i) hclass

theorem Dated.augment (h : w.Dated n owed) (i j : Nat) (fields : Option (List Field))
    (methods : Option (List Method)) (inner : Option (List ClassId)) :
    (w.augment i j fields methods inner).Dated (n + 1) owed := by
  have ht : ∀ k, (w.augment i j fields methods inner).table k = w.table k := by
    intro k
    rw [table, tables_augment, table]
  cases ho : w.caches[i]? with
  | none =>
    refine h.same (Nat.le_succ n) ht ?_ fun _ howed ↦ howed
    simp only [Workspace.augment, ho]
  | some o =>
    have hold := (h.caches o (List.mem_of_getElem? ho)).same (Nat.le_succ n) id
    obtain ⟨f, hc⟩ : ∃ f, (w.augment i j fields methods inner).caches =
        w.caches.set i { o with augments := o.augments.map f } := by
      simp only [Workspace.augment, ho]
      exact ⟨_, rfl⟩
    refine h.set (Nat.le_succ n) ht hc ⟨hold.present, hold.drops, fun hnone ↦ ?_⟩
    have hnone : o.augments = none := Option.map_eq_none_iff.1 hnone
    exact hold.derived hnone

/-- An operation leaves caches up to date but for changes that are overdue. -/
theorem Dated.perform {b : Nat → Bool} (h : w.Dated n fun j ↦ b j = true) (op : Operation)
    (hn : n + op.size < UInt64.size) :
    (w.perform op).Dated (n + op.size) fun j ↦ w.overdueAfter j (b j) op = true := by
  cases op with
  | command i keepGoing actions =>
    refine (h.command i keepGoing actions hn).same (Nat.le_refl _) (fun _ ↦ rfl) rfl ?_
    intro j howed
    rw [overdueAfter, apply_ite (· = true)]
    exact howed
  | addTable => exact h.same (Nat.le_succ n) w.table_addTable rfl fun _ howed ↦ howed
  | openCache i id resolver settings augments => exact h.openCache i id resolver settings augments
  | augment i j fields methods inner => exact h.augment i j fields methods inner
  | request i r => exact h.request i r (fun _ ↦ Nat.lt_succ_self n) (Nat.le_succ n) hn
  | create i id text =>
    refine h.same (Nat.le_succ n) ?_ (w.caches_create i id text) fun _ howed ↦ howed
    intro j
    exact congrArg (fun ts ↦ (ts[j]?).getD .empty) (w.tables_create i id text)
  | takeReports => exact h.same (Nat.le_succ n) (fun _ ↦ rfl) rfl fun _ howed ↦ howed

theorem Dated.performAll {b : Nat → Bool} (h : w.Dated n fun j ↦ b j = true)
    (ops : List Operation) (hn : n + Operation.sizes ops < UInt64.size) :
    (w.performAll ops).Dated (n + Operation.sizes ops) fun j ↦
      w.overdue j (b j) ops = true := by
  induction ops generalizing w n b with
  | nil => exact h
  | cons op ops ih =>
    rw [Operation.sizes, ← Nat.add_assoc] at hn ⊢
    exact ih (h.perform op (by omega)) hn

theorem dated_start : start.Dated 0 fun _ ↦ false = true where
  wellNumbered i := by
    cases i <;> exact ClassTable.wellNumbered_empty
  caches o ho := by cases ho

/-- A command that is not broken off leaves no change overdue. -/
theorem overdue_of_ends {ops : List Operation} (he : ∀ op ∈ ops, op.Ends) (w : Workspace)
    (i : Nat) : w.overdue i false ops = false := by
  induction ops generalizing w with
  | nil => rfl
  | cons op ops ih =>
    have hop : w.overdueAfter i false op = false := by
      cases op with
      | command j keepGoing actions =>
        have hended := w.carryOut_act_not_aborted j keepGoing (he _ List.mem_cons_self)
        rw [overdueAfter]
        split
        · exact hended
        · rfl
      | _ => rfl
    rw [overdue, hop]
    exact ih (fun op' h ↦ he op' (List.mem_cons_of_mem op h)) (w.perform op)

/-- A command on table `i` that is under way, and whether it has changed anything yet. -/
def underWay (w : Workspace) (i : Nat) (keepGoing : Bool) (actions : List Action) :
    Workspace × Bool :=
  (carryOut (act i) keepGoing (w, false) actions).2

/-- While a command is under way, caches are up to date but for changes that are overdue and those
of the command. -/
theorem dated_underWay {ops : List Operation} {actions : List Action}
    (hn : Operation.sizes ops + actions.countP Action.isDrop < UInt64.size) (i : Nat)
    (keepGoing : Bool) :
    let s := (start.performAll ops).underWay i keepGoing actions
    s.1.Dated (Operation.sizes ops + actions.countP Action.isDrop) fun j ↦
      start.overdue j false ops = true ∨ j = i ∧ s.2 = true := by
  have hall := dated_start.performAll ops (by omega)
  rw [Nat.zero_add] at hall
  have hbegin : (start.performAll ops).Dated (Operation.sizes ops) fun j ↦
      start.overdue j false ops = true ∨ j = i ∧ false = true :=
    hall.same (Nat.le_refl _) (fun _ ↦ rfl) rfl fun _ ↦ .inl
  exact hbegin.series (s := (_, false)) keepGoing actions hn

end Workspace

end ClassModel
