import ClassModel.Proofs.Workspace.Run

namespace ClassModel

def Acted.effective (r : Except Halt (Option Acted)) : Bool :=
  match r with
  | .ok (some (.edited e)) => e.effective
  | _ => false

def Outcome.effective (o : Outcome (Option Acted)) : Bool := o.results.any Acted.effective

inductive Operation
  | command (table : Nat) (keepGoing : Bool) (actions : List Action)
  | addTable
  | openCache (table : Nat) (id : ClassId) (resolver : Nat) (settings : Settings)
    (augments : Option (Members Field Method ClassId))
  | augment (cache table : Nat) (fields : Option (List Field)) (methods : Option (List Method))
    (inner : Option (List ClassId))
  | request (cache : Nat) (r : Request)
  | create (table : Nat) (id : ClassId) (text : String)
  | takeReports

namespace Operation

def isCommand : Operation → Bool
  | .command .. => true
  | _ => false

def Ends : Operation → Prop
  | .command _ _ actions => .step .abort ∉ actions
  | _ => True

end Operation

/-- Whether `t'` can be `t` after `n` commands at most: if the count is the same, nothing has
changed. -/
structure ClassTable.Within (n : Nat) (t t' : ClassTable) : Prop where
  advanced : (t'.modifications.count - t.modifications.count).toNat ≤ n
  same : t'.modifications = t.modifications → t' = t

namespace ClassTable

variable {n : Nat} {t t' t'' : ClassTable}

theorem Within.refl (t : ClassTable) : t.Within 0 t :=
  ⟨by simp, fun _ ↦ rfl⟩

theorem Within.succ (h : t.Within n t') : t.Within (n + 1) t' :=
  ⟨Nat.le_succ_of_le h.advanced, h.same⟩

theorem Within.settles (h : t.Within n t') (ht : t'.Settles t'') (hn : n + 1 < UInt64.size) :
    t.Within (n + 1) t'' := by
  rcases ht with rfl | ⟨hm, -⟩
  · exact h.succ
  · have hs : (t''.modifications.count - t.modifications.count).toNat =
        (t'.modifications.count - t.modifications.count).toNat + 1 := by
      rw [hm]
      exact Counter.sub_increment h.advanced hn
    have hle := h.advanced
    refine ⟨by omega, fun he ↦ ?_⟩
    rw [he, UInt64.sub_self] at hs
    cases hs

end ClassTable

namespace Workspace

open Draft

theorem effective_act_step (i : Nat) (s : Workspace × Bool) (k : Step) :
    Acted.effective (act i s (.step k)).1 =
      Draft.effective ((⟨s.1.table i, s.1.declared, s.2⟩ : Draft).act k).1 := by
  rw [fst_act_step]
  cases ((⟨s.1.table i, s.1.declared, s.2⟩ : Draft).act k).1 <;> rfl

theorem effective_act_request (i : Nat) (s : Workspace × Bool) (cache : Nat) (r : Request) :
    Acted.effective (act i s (.request cache r)).1 = false := by
  have hr : (act i s (.request cache r)).1 = .ok ((s.1.request cache r).1.map .response) := rfl
  rw [hr]
  cases (s.1.request cache r).1 <;> rfl

theorem changed_act (i : Nat) (s : Workspace × Bool) (a : Action) :
    (act i s a).2.2 = (s.2 || Acted.effective (act i s a).1) := by
  cases a with
  | step k =>
    rw [effective_act_step]
    exact Draft.changed_act ⟨s.1.table i, s.1.declared, s.2⟩ k
  | request cache r =>
    rw [effective_act_request]
    exact (Bool.or_false _).symm
  | count => exact (Bool.or_false _).symm

/-- An action is effective iff it changes the classes of the table. -/
theorem classes_act_ne {i : Nat} {s : Workspace × Bool} (hi : i < s.1.tables.length) (a : Action) :
    ((act i s a).2.1.table i).classes ≠ (s.1.table i).classes ↔ Acted.effective (act i s a).1 := by
  cases a with
  | step k =>
    rw [effective_act_step, table_act_step, if_pos ⟨rfl, hi⟩]
    exact act_classes_ne ⟨s.1.table i, s.1.declared, s.2⟩ k
  | request cache r =>
    have ht : (act i s (.request cache r)).2.1.table i = s.1.table i := s.1.table_request cache r i
    rw [effective_act_request, ht]
    exact iff_of_false (fun h ↦ h rfl) Bool.false_ne_true
  | count => exact iff_of_false (fun h ↦ h rfl) Bool.false_ne_true

/-- A command has marked its draft iff it had an effect. -/
theorem mark_command (w : Workspace) (i : Nat) (keepGoing : Bool) (actions : List Action) :
    (carryOut (act i) keepGoing (w, false) actions).2.2 =
      (w.command i keepGoing actions).1.effective :=
  (carryOut_mark (fun _ ↦ rfl) (changed_act i) keepGoing (w, false) actions).trans
    (Bool.false_or _)

/-- The count advances by one in a command that has an effect, and one that has none changes
nothing. -/
theorem table_command_self {w : Workspace} {i : Nat} (hi : i < w.tables.length) (keepGoing : Bool)
    {actions : List Action} (hs : .step .abort ∉ actions) :
    if (w.command i keepGoing actions).1.effective then
      ((w.command i keepGoing actions).2.table i).modifications.count =
        (w.table i).modifications.count + 1
    else (w.command i keepGoing actions).2.table i = w.table i := by
  have hf := (w.drafted_carryOut i keepGoing actions).follows
  have ht := w.table_command_eq i keepGoing hs i
  rw [if_pos ⟨rfl, hi⟩] at ht
  have hmark := w.mark_command i keepGoing actions
  rw [ht]
  split
  · next h => exact congrArg Counter.count (modifications_commit hf (hmark.trans h))
  · next h => exact commit_of_unchanged hf (hmark.trans (Bool.eq_false_iff.2 h))

def perform (w : Workspace) : Operation → Workspace
  | .command i keepGoing actions => (w.command i keepGoing actions).2
  | .addTable => w.addTable.2
  | .openCache i id resolver settings augments => (w.openCache i id resolver settings augments).2
  | .augment i j fields methods inner => w.augment i j fields methods inner
  | .request i r => (w.request i r).2
  | .create i id text => (w.create i id text).2
  | .takeReports => w.takeReports.2

def performAll (w : Workspace) (ops : List Operation) : Workspace := ops.foldl perform w

theorem table_addTable (w : Workspace) (j : Nat) : w.addTable.2.table j = w.table j := by
  unfold table addTable
  rcases Nat.lt_trichotomy j w.tables.length with hj | rfl | hj
  · rw [List.getElem?_append_left hj]
  · simp
  · rw [List.getElem?_eq_none (Nat.le_of_lt hj), List.getElem?_eq_none]
    rw [List.length_append]
    exact hj

theorem tables_openCache (w : Workspace) (i : Nat) (id : ClassId) (resolver : Nat)
    (settings : Settings) (augments : Option (Members Field Method ClassId)) :
    (w.openCache i id resolver settings augments).2.tables = w.tables := by
  unfold openCache
  cases (w.table i).require id <;> rfl

theorem tables_augment (w : Workspace) (i j : Nat) (fields : Option (List Field))
    (methods : Option (List Method)) (inner : Option (List ClassId)) :
    (w.augment i j fields methods inner).tables = w.tables := by
  unfold augment
  cases w.caches[i]? <;> rfl

theorem tables_create (w : Workspace) (i : Nat) (id : ClassId) (text : String) :
    (w.create i id text).2.tables = w.tables := by
  unfold create
  cases (w.table i).require id <;> rfl

theorem caches_create (w : Workspace) (table : Nat) (id : ClassId) (text : String) :
    (w.create table id text).2.caches = w.caches := by
  unfold create
  cases (w.table table).require id <;> rfl

/-- Only commands change tables. -/
theorem table_perform (w : Workspace) {op : Operation} (ho : op.isCommand = false) (j : Nat) :
    (w.perform op).table j = w.table j := by
  have htables {w' : Workspace} (h : w'.tables = w.tables) : w'.table j = w.table j := by
    rw [table, table, h]
  cases op with
  | command i keepGoing actions => cases ho
  | addTable => exact w.table_addTable j
  | openCache i id resolver settings augments => exact htables (w.tables_openCache ..)
  | augment i k fields methods inner => exact htables (w.tables_augment ..)
  | request i r => exact w.table_request i r j
  | create i id text => exact htables (w.tables_create ..)
  | takeReports => rfl

theorem length_tables_le_perform (w : Workspace) (op : Operation) :
    w.tables.length ≤ (w.perform op).tables.length := by
  have htables {w' : Workspace} (h : w'.tables = w.tables) :
      w.tables.length ≤ w'.tables.length :=
    Nat.le_of_eq (congrArg List.length h).symm
  cases op with
  | command j keepGoing actions => exact Nat.le_of_eq (w.length_tables_command ..).symm
  | addTable =>
    have hadd : w.addTable.2.tables = w.tables ++ [.empty] := rfl
    rw [perform, hadd, List.length_append]
    exact Nat.le_add_right ..
  | openCache j id resolver settings augments => exact htables (w.tables_openCache ..)
  | augment j k fields methods inner => exact htables (w.tables_augment ..)
  | request j r => exact htables (w.tables_request j r)
  | create j id text => exact htables (w.tables_create ..)
  | takeReports => exact htables rfl

theorem within_performAll {w : Workspace} {t : ClassTable} {i n : Nat} {ops : List Operation}
    (ht : t.Within n (w.table i)) (he : ∀ op ∈ ops, op.Ends)
    (hn : n + ops.countP Operation.isCommand < UInt64.size) :
    t.Within (n + ops.countP Operation.isCommand) ((w.performAll ops).table i) := by
  induction ops generalizing w n with
  | nil => exact ht
  | cons op ops ih =>
    have he' : ∀ op ∈ ops, op.Ends := fun op' hop ↦ he op' (List.mem_cons_of_mem op hop)
    change ClassTable.Within _ t (((w.perform op).performAll ops).table i)
    cases ho : op.isCommand with
    | false =>
      have hcount : (op :: ops).countP Operation.isCommand = ops.countP Operation.isCommand :=
        List.countP_cons_of_neg (by simp [ho])
      rw [hcount] at hn ⊢
      exact ih (by rwa [w.table_perform ho]) he' hn
    | true =>
      rw [List.countP_cons_of_pos ho, Nat.add_comm _ 1, ← Nat.add_assoc] at hn ⊢
      refine ih ?_ he' hn
      cases op with
      | command j keepGoing actions =>
        have hend := he _ (List.mem_cons_self ..)
        exact ht.settles (w.table_command j keepGoing hend i).1 (by omega)
      | _ => cases ho

/-- The count of a table stamps its classes: it advances by one in a command that adds or removes
anything, a command that does not leaves the whole table as it is, and in a run with less than
2 ^ 64 commands an equal count means the same classes with the same members. -/
theorem modifications_stamp_classes {w : Workspace} {i : Nat} (hi : i < w.tables.length) :
    (∀ keepGoing actions, .step .abort ∉ actions →
      if (w.command i keepGoing actions).1.effective then
        ((w.command i keepGoing actions).2.table i).modifications.count =
          (w.table i).modifications.count + 1
      else (w.command i keepGoing actions).2.table i = w.table i) ∧
    (∀ (s : Workspace × Bool) a, i < s.1.tables.length →
      (((act i s a).2.1.table i).classes ≠ (s.1.table i).classes ↔
        Acted.effective (act i s a).1)) ∧
    ∀ ops, (∀ op ∈ ops, op.Ends) → ops.countP Operation.isCommand < UInt64.size →
      ((w.performAll ops).table i).modifications = (w.table i).modifications →
        (w.performAll ops).table i = w.table i := by
  refine ⟨fun keepGoing actions hs ↦ table_command_self hi keepGoing hs,
    fun s a hs ↦ classes_act_ne hs a, fun ops he hn hm ↦ ?_⟩
  have hwithin := within_performAll (.refl (w.table i)) he (by rwa [Nat.zero_add])
  exact hwithin.same hm

/-- A command in which one edit fails and one removes nothing, and after it one that stops at a
failure before it removes anything. -/
theorem modifications_across_failures :
    let header (name : String) : ClassHeader := ⟨some name, .ordinary, none, .dummy, .source⟩
    let field : Field := ⟨"x", ⟨"int", 0⟩, .none, .dummy, .source⟩
    let actions : List Action := [.step (.edit (.addClass (header "A"))),
      .step (.edit (.addInner 7 (header "B"))), .step (.edit (.addField 0 field)),
      .step (.edit (.removeField 0 "y")), .count]
    let w := (start.command 0 true actions).2
    let ops : List Operation := [.addTable, .command 0 false [.step (.edit (.removeMethods 0 "x")),
      .step (.edit (.removeField 7 "x")), .step (.edit (.removeField 0 "x"))], .takeReports]
    0 < start.tables.length ∧ .step .abort ∉ actions ∧ (w.table 0).modifications.count = 1 ∧
      0 < w.tables.length ∧ (∀ op ∈ ops, op.Ends) ∧
      ops.countP Operation.isCommand < UInt64.size ∧
      ((w.performAll ops).table 0).modifications = (w.table 0).modifications ∧
      (w.performAll ops).table 0 = w.table 0 := by
  intro header field actions w ops
  have hi : 0 < start.tables.length := by decide
  have hs : .step .abort ∉ actions := by simp [actions]
  have heff : (start.command 0 true actions).1.effective = true := rfl
  have hcount := (modifications_stamp_classes hi).1 true actions hs
  rw [if_pos heff] at hcount
  have hw : 0 < w.tables.length := by decide
  have he : ∀ op ∈ ops, op.Ends := by simp [ops, Operation.Ends]
  have hn : ops.countP Operation.isCommand < UInt64.size := by decide
  have hm : ((w.performAll ops).table 0).modifications = (w.table 0).modifications := by decide
  exact ⟨hi, hs, hcount, hw, he, hn, hm, (modifications_stamp_classes hw).2.2 ops he hn hm⟩

end Workspace

end ClassModel
