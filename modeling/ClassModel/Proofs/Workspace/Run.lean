import ClassModel.Proofs.Cache.Run
import ClassModel.Proofs.Table.Editing
import ClassModel.Proofs.Table.Series
import ClassModel.Workspace

namespace ClassModel

theorem Counter.sub_increment {c : Counter} {n : Nat} {x : UInt64}
    (h : (c.count - x).toNat ≤ n) (hn : n + 1 < UInt64.size) :
    (c.increment.count - x).toNat = (c.count - x).toNat + 1 := by
  have hx := x.toNat_lt
  have hc := c.count.toNat_lt
  have hsize : UInt64.size = 18446744073709551616 := rfl
  rw [increment]
  simp only [UInt64.toNat_sub, UInt64.toNat_add, UInt64.reduceToNat] at h ⊢
  omega

/-- A table across a whole command: either nothing has changed, or the count has advanced by one. -/
def ClassTable.Settles (t t' : ClassTable) : Prop :=
  t' = t ∨ t'.modifications = t.modifications.increment ∧ t.Extends t'

namespace Workspace

open Draft

theorem table_setTable (w : Workspace) (i j : Nat) (t : ClassTable) :
    (w.setTable i t).table j = if j = i ∧ i < w.tables.length then t else w.table j := by
  simp only [table, setTable, List.getElem?_set]
  by_cases hj : i = j
  · subst hj
    by_cases hi : i < w.tables.length
    · simp [hi]
    · simp [hi]
  · simp [hj, Ne.symm hj]

theorem tables_record (w : Workspace) (es : List Event) : (w.record es).tables = w.tables := by
  fun_induction record w es <;> simp_all

theorem caches_record (w : Workspace) (es : List Event) : (w.record es).caches = w.caches := by
  fun_induction record w es <;> simp_all

theorem declared_record (w : Workspace) (es : List Event) :
    (w.record es).declared = w.declared := by
  fun_induction record w es <;> simp_all

theorem log_record_eq (w : Workspace) (es : List Event) :
    (w.record es).log = w.log.emitAll (es.filterMap Event.report?) := by
  induction es generalizing w with
  | nil => rfl
  | cons e es ih => cases e <;> exact ih _

theorem tables_request (w : Workspace) (i : Nat) (r : Request) :
    (w.request i r).2.tables = w.tables := by
  unfold request
  cases w.caches[i]? with
  | none => rfl
  | some o =>
    cases r with
    | query q => exact tables_record _ _
    | drop | owner => rfl

theorem table_request (w : Workspace) (i : Nat) (r : Request) (j : Nat) :
    (w.request i r).2.table j = w.table j := by
  rw [table, table, tables_request]

theorem declared_request (w : Workspace) (i : Nat) (r : Request) :
    (w.request i r).2.declared = w.declared := by
  unfold request
  cases w.caches[i]? with
  | none => rfl
  | some o =>
    cases r with
    | query q => exact declared_record _ _
    | drop | owner => rfl

theorem request_query {w : Workspace} {i : Nat} {o : OpenCache} (ho : w.caches[i]? = some o)
    (q : Query) :
    (w.request i (.query q)).1 = some (.answer (o.cache.ask (w.moment o) q).1) ∧
      (w.request i (.query q)).2.tables = w.tables ∧
      (w.request i (.query q)).2.caches =
        w.caches.set i { o with cache := (o.cache.ask (w.moment o) q).2.1 } := by
  simp [request, ho, tables_record, caches_record]

structure Drafted (w : Workspace) (i : Nat) (s : Workspace × Bool) : Prop where
  length_tables : s.1.tables.length = w.tables.length
  others : ∀ j, ¬(j = i ∧ i < w.tables.length) → s.1.table j = w.table j
  follows : (⟨w.table i, w.declared, false⟩ : Draft).Follows ⟨s.1.table i, s.1.declared, s.2⟩

theorem drafted_start (w : Workspace) (i : Nat) : w.Drafted i (w, false) :=
  ⟨rfl, fun _ _ ↦ rfl, .refl _⟩

theorem table_act_step (i : Nat) (s : Workspace × Bool) (k : Step) (j : Nat) :
    (act i s (.step k)).2.1.table j =
      if j = i ∧ i < s.1.tables.length then
        ((⟨s.1.table i, s.1.declared, s.2⟩ : Draft).act k).2.1.table
      else s.1.table j :=
  s.1.table_setTable i j _

theorem fst_act_step (i : Nat) (s : Workspace × Bool) (k : Step) :
    (act i s (.step k)).1 = ((⟨s.1.table i, s.1.declared, s.2⟩ : Draft).act k).1.map
      fun e ↦ some (.edited e) := rfl

theorem tables_act_step (i : Nat) (s : Workspace × Bool) (k : Step) :
    (act i s (.step k)).2.1.tables =
      s.1.tables.set i ((⟨s.1.table i, s.1.declared, s.2⟩ : Draft).act k).2.1.table := rfl

theorem declared_act_step (i : Nat) (s : Workspace × Bool) (k : Step) :
    (act i s (.step k)).2.1.declared =
      ((⟨s.1.table i, s.1.declared, s.2⟩ : Draft).act k).2.1.declared := rfl

theorem Drafted.step {w : Workspace} {i : Nat} {s : Workspace × Bool} (h : w.Drafted i s)
    (k : Step) : w.Drafted i (Workspace.act i s (.step k)).2 := by
  have hf := follows_act ⟨s.1.table i, s.1.declared, s.2⟩ k
  have ht := table_act_step i s k
  rw [h.length_tables] at ht
  refine ⟨?_, fun j hj ↦ ?_, ?_⟩
  · exact List.length_set.trans h.length_tables
  · rw [ht, if_neg hj]
    exact h.others j hj
  · rw [ht]
    split
    · exact h.follows.trans hf
    · exact h.follows.trans ⟨rfl, fun hc ↦ ⟨(hf.unchanged hc).1, rfl⟩, .refl _, id⟩

theorem Drafted.request {w : Workspace} {i : Nat} {s : Workspace × Bool} (h : w.Drafted i s)
    (cache : Nat) (r : Request) : w.Drafted i ((s.1.request cache r).2, s.2) := by
  have ht := s.1.table_request cache r
  refine ⟨?_, fun j hj ↦ (ht j).trans (h.others j hj), ?_⟩
  · rw [tables_request]
    exact h.length_tables
  · rw [ht]
    exact h.follows.trans ⟨rfl, fun hc ↦ ⟨hc, rfl⟩, .refl _, id⟩

theorem Drafted.act {w : Workspace} {i : Nat} {s : Workspace × Bool} (h : w.Drafted i s)
    (a : Action) : w.Drafted i (Workspace.act i s a).2 := by
  cases a with
  | step k => exact h.step k
  | request cache r => exact h.request cache r
  | count => exact h

theorem drafted_carryOut (w : Workspace) (i : Nat) (keepGoing : Bool) (actions : List Action) :
    w.Drafted i (carryOut (act i) keepGoing (w, false) actions).2 :=
  carryOut_preserves keepGoing (fun a _ _ hs ↦ hs.act a) (w.drafted_start i)

theorem Drafted.modifications {w : Workspace} {i : Nat} {s : Workspace × Bool} (h : w.Drafted i s)
    (j : Nat) : (s.1.table j).modifications = (w.table j).modifications := by
  by_cases hj : j = i ∧ i < w.tables.length
  · rw [hj.1]
    exact h.follows.modifications
  · rw [h.others j hj]

theorem length_tables_command (w : Workspace) (j : Nat) (keepGoing : Bool)
    (actions : List Action) : (w.command j keepGoing actions).2.tables.length = w.tables.length :=
  List.length_set.trans (w.drafted_carryOut j keepGoing actions).length_tables

theorem act_not_aborted (i : Nat) (s : Workspace × Bool) {a : Action} (ha : a ≠ .step .abort) :
    (act i s a).1 ≠ .error .aborted := by
  cases a with
  | step k =>
    have hne := act_ne_aborted ⟨s.1.table i, s.1.declared, s.2⟩ fun hk ↦ ha (congrArg _ hk)
    intro he
    unfold act at he
    cases hr : ((⟨s.1.table i, s.1.declared, s.2⟩ : Draft).act k).1 with
    | ok r => simp [hr, Except.map] at he
    | error x =>
      simp only [hr, Except.map, Except.error.injEq] at he
      exact hne (he ▸ hr)
  | request cache r => exact fun he ↦ by cases he
  | count => exact fun he ↦ by cases he

theorem carryOut_act_not_aborted (w : Workspace) (i : Nat) (keepGoing : Bool)
    {actions : List Action} (hs : .step .abort ∉ actions) :
    (carryOut (act i) keepGoing (w, false) actions).1.aborted = false :=
  carryOut_not_aborted keepGoing (fun _ ha s ↦ act_not_aborted i s (ne_of_mem_of_not_mem ha hs)) _

theorem caches_command (w : Workspace) (i : Nat) (keepGoing : Bool) (steps : List Step) :
    (w.command i keepGoing (steps.map .step)).2.caches = w.caches := by
  have hkeep : ∀ a ∈ steps.map Action.step, ∀ s : Workspace × Bool, s.1.caches = w.caches →
      (act i s a).2.1.caches = w.caches := by
    intro a ha s hs
    obtain ⟨k, -, rfl⟩ := List.mem_map.1 ha
    exact hs
  exact carryOut_preserves keepGoing hkeep rfl

theorem commit_of_unchanged {t : ClassTable} {declared : Nat} {d : Draft}
    (h : (⟨t, declared, false⟩ : Draft).Follows d) (hc : d.changed = false) :
    d.commit false = t := by
  simp [commit, hc, (h.unchanged hc).2]

theorem modifications_commit {t : ClassTable} {declared : Nat} {d : Draft}
    (h : (⟨t, declared, false⟩ : Draft).Follows d) (hc : d.changed = true) :
    (d.commit false).modifications = t.modifications.increment := by
  simp [commit, hc, h.modifications]

theorem settles_commit {t : ClassTable} {declared : Nat} {d : Draft}
    (h : (⟨t, declared, false⟩ : Draft).Follows d) : t.Settles (d.commit false) := by
  cases hc : d.changed with
  | false => exact .inl (commit_of_unchanged h hc)
  | true =>
    refine .inr ⟨modifications_commit h hc, ?_⟩
    simp only [commit, hc]
    exact h.extends_table

theorem wellNumbered_commit {d : Draft} (h : d.table.WellNumbered) :
    (d.commit false).WellNumbered := by
  unfold commit
  split
  · exact h
  · exact h

/-- The end of a command changes no classes, whether it is broken off or not. -/
theorem classes_command (w : Workspace) (i : Nat) (keepGoing : Bool) (actions : List Action)
    (j : Nat) : ((w.command i keepGoing actions).2.table j).classes =
      ((carryOut (act i) keepGoing (w, false) actions).2.1.table j).classes := by
  have hset := table_setTable (carryOut (act i) keepGoing (w, false) actions).2.1 i j
  unfold command
  dsimp only
  rw [hset]
  split
  · next hj =>
    rw [hj.1]
    exact classes_commit ⟨_, _, _⟩ _
  · rfl

theorem table_command_eq (w : Workspace) (i : Nat) (keepGoing : Bool) {actions : List Action}
    (hs : .step .abort ∉ actions) (j : Nat) :
    (w.command i keepGoing actions).2.table j =
      if j = i ∧ i < w.tables.length then
        let s := (carryOut (act i) keepGoing (w, false) actions).2
        (⟨s.1.table i, s.1.declared, s.2⟩ : Draft).commit false
      else w.table j := by
  have hd := w.drafted_carryOut i keepGoing actions
  have hn := w.carryOut_act_not_aborted i keepGoing hs
  have hset := table_setTable (carryOut (act i) keepGoing (w, false) actions).2.1 i j
  rw [hd.length_tables] at hset
  refine (hset _).trans ?_
  rw [hn]
  split
  · rfl
  · next hj => exact hd.others j hj

theorem table_command (w : Workspace) (i : Nat) (keepGoing : Bool) {actions : List Action}
    (hs : .step .abort ∉ actions) (j : Nat) :
    (w.table j).Settles ((w.command i keepGoing actions).2.table j) ∧
      ((w.table j).WellNumbered →
        ((w.command i keepGoing actions).2.table j).WellNumbered) := by
  have hf := (w.drafted_carryOut i keepGoing actions).follows
  rw [w.table_command_eq i keepGoing hs j]
  split
  · next hj =>
    rw [hj.1]
    exact ⟨settles_commit hf, fun hw ↦ wellNumbered_commit (hf.wellNumbered hw)⟩
  · exact ⟨.inl rfl, id⟩

end Workspace

end ClassModel
