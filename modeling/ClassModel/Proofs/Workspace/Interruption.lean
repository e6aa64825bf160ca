import ClassModel.Proofs.Cache.Coherence
import ClassModel.Proofs.Workspace.Bases

namespace ClassModel

def Outcome.counted (o : Outcome (Option Acted)) : Bool := o.effective && !o.aborted

namespace Workspace

def outcome? (w : Workspace) (i : Nat) : Operation → Option (Outcome (Option Acted))
  | .command j keepGoing actions =>
    if i = j then some (w.command j keepGoing actions).1 else none
  | _ => none

def outcomes (w : Workspace) (i : Nat) : List Operation → List (Outcome (Option Acted))
  | [] => []
  | op :: ops => (w.outcome? i op).toList ++ (w.perform op).outcomes i ops

variable {w : Workspace} {i : Nat}

theorem outcome?_eq_none (w : Workspace) (i : Nat) {op : Operation} (ho : op.isCommand = false) :
    w.outcome? i op = none := by
  cases op with
  | command j keepGoing actions => cases ho
  | _ => rfl

theorem length_outcomes_le (w : Workspace) (i : Nat) (ops : List Operation) :
    (w.outcomes i ops).length ≤ ops.countP Operation.isCommand := by
  induction ops generalizing w with
  | nil => exact Nat.le_refl 0
  | cons op ops ih =>
    have hrest := ih (w.perform op)
    have hop : (w.outcome? i op).toList.length ≤ if op.isCommand then 1 else 0 := by
      cases ho : op.isCommand with
      | true => cases w.outcome? i op <;> simp
      | false => simp [w.outcome?_eq_none i ho]
    rw [outcomes, List.length_append, List.countP_cons]
    omega

theorem count_command (hi : i < w.tables.length) (j : Nat) (keepGoing : Bool)
    (actions : List Action) :
    let o := (w.command j keepGoing actions).1
    ((w.command j keepGoing actions).2.table i).modifications =
      if i = j ∧ o.counted then (w.table i).modifications.increment
      else (w.table i).modifications := by
  intro o
  have hd := w.drafted_carryOut j keepGoing actions
  have hkept := hd.modifications i
  rcases w.table_command_cases j keepGoing actions i with ⟨ht, hlate⟩ | ⟨hj, he, hb, ht⟩
  · have hnot : ¬(i = j ∧ o.counted) := by
      rintro ⟨rfl, hcounted⟩
      rw [Outcome.counted, Bool.and_eq_true, Bool.not_eq_true'] at hcounted
      have hbroken := hlate rfl (hd.length_tables ▸ hi) hcounted.1
      exact Bool.noConfusion (hbroken.symm.trans hcounted.2)
    rw [if_neg hnot, ht, hkept]
  · have hcounted : o.counted = true := by
      rw [Outcome.counted, Bool.and_eq_true, Bool.not_eq_true']
      exact ⟨he, hb⟩
    rw [if_pos ⟨hj, hcounted⟩, ht, hkept]

theorem table_command_of_ineffective (j : Nat) (keepGoing : Bool) (actions : List Action)
    (he : i = j → (w.command j keepGoing actions).1.effective = false) :
    (w.command j keepGoing actions).2.table i = w.table i := by
  have hd := w.drafted_carryOut j keepGoing actions
  have hsame : (carryOut (act j) keepGoing (w, false) actions).2.1.table i = w.table i := by
    by_cases hj : i = j ∧ j < w.tables.length
    · have hmark := (w.mark_command j keepGoing actions).trans (he hj.1)
      rw [hj.1]
      exact (hd.follows.unchanged hmark).2
    · exact hd.others i hj
  rcases w.table_command_cases j keepGoing actions i with ⟨ht, -⟩ | ⟨hj, heff, -⟩
  · exact ht.trans hsame
  · exact Bool.noConfusion (heff.symm.trans (he hj))

theorem count_perform (hi : i < w.tables.length) (op : Operation) :
    ((w.perform op).table i).modifications.count = (w.table i).modifications.count +
      .ofNat ((w.outcome? i op).toList.countP Outcome.counted) := by
  cases ho : op.isCommand with
  | true =>
    cases op with
    | command j keepGoing actions =>
      rw [perform, count_command hi j keepGoing actions, outcome?]
      by_cases hj : i = j
      · cases hb : (w.command j keepGoing actions).1.counted with
        | false => simp [hj, hb]
        | true => simp [hj, hb, Counter.increment]
      · simp [hj]
    | _ => cases ho
  | false =>
    rw [w.table_perform ho, w.outcome?_eq_none i ho]
    exact (UInt64.add_zero _).symm

/-- The count of a table says how many commands on it were counted. -/
theorem count_performAll (hi : i < w.tables.length) (ops : List Operation) :
    ((w.performAll ops).table i).modifications.count =
      (w.table i).modifications.count + .ofNat ((w.outcomes i ops).countP Outcome.counted) := by
  induction ops generalizing w with
  | nil => exact (UInt64.add_zero _).symm
  | cons op ops ih =>
    have hrest := ih (Nat.lt_of_lt_of_le hi (w.length_tables_le_perform op))
    rw [outcomes, List.countP_append, UInt64.ofNat_add, ← UInt64.add_assoc, ← count_perform hi]
    exact hrest

theorem table_perform_of_ineffective {op : Operation}
    (he : ∀ o ∈ w.outcome? i op, o.effective = false) : (w.perform op).table i = w.table i := by
  cases ho : op.isCommand with
  | true =>
    cases op with
    | command j keepGoing actions =>
      apply table_command_of_ineffective
      exact fun hj ↦ he _ (if_pos hj)
    | _ => cases ho
  | false => exact w.table_perform ho i

theorem table_performAll_of_ineffective {ops : List Operation}
    (he : ∀ o ∈ w.outcomes i ops, o.effective = false) :
    (w.performAll ops).table i = w.table i := by
  induction ops generalizing w with
  | nil => rfl
  | cons op ops ih =>
    have hop := table_perform_of_ineffective fun o ho ↦
      he o (List.mem_append_left _ (Option.mem_toList.2 ho))
    exact (ih fun o ho ↦ he o (List.mem_append_right _ ho)).trans hop

/-- In a run of fewer than 2 ^ 64 commands the count is the same again iff all that have changed the
table were broken off. -/
theorem modifications_performAll_eq (hi : i < w.tables.length) {ops : List Operation}
    (hn : ops.countP Operation.isCommand < UInt64.size) :
    ((w.performAll ops).table i).modifications = (w.table i).modifications ↔
      ∀ o ∈ w.outcomes i ops, o.effective → o.aborted := by
  have hfew : (w.outcomes i ops).countP Outcome.counted < UInt64.size := by
    have hle := List.countP_le_length (p := Outcome.counted) (l := w.outcomes i ops)
    have hlength := w.length_outcomes_le i ops
    omega
  have hcount : ((w.performAll ops).table i).modifications.count =
      (w.table i).modifications.count ↔ (w.outcomes i ops).countP Outcome.counted = 0 := by
    rw [count_performAll hi, UInt64.add_eq_left, ← UInt64.toNat_inj, UInt64.toNat_ofNat',
      Nat.mod_eq_of_lt hfew]
    rfl
  have hnone : (w.outcomes i ops).countP Outcome.counted = 0 ↔
      ∀ o ∈ w.outcomes i ops, o.effective → o.aborted := by
    simp [List.countP_eq_zero, Outcome.counted]
  rw [← hnone, ← hcount]
  exact ⟨congrArg Counter.count, fun h ↦ congrArg Counter.mk h⟩

/-- A command that is broken off leaves what its actions have made, with the count from before. -/
theorem table_command_of_aborted (w : Workspace) (i : Nat) (keepGoing : Bool)
    (actions : List Action) (hb : (w.command i keepGoing actions).1.aborted) (j : Nat) :
    (w.command i keepGoing actions).2.table j = (w.underWay i keepGoing actions).1.table j ∧
      ((w.command i keepGoing actions).2.table j).modifications = (w.table j).modifications := by
  have hd := w.drafted_carryOut i keepGoing actions
  have ht : (w.command i keepGoing actions).2.table j =
      (w.underWay i keepGoing actions).1.table j := by
    rcases w.table_command_cases i keepGoing actions j with ⟨ht, -⟩ | ⟨-, -, hend, -⟩
    · exact ht
    · exact Bool.noConfusion (hb.symm.trans hend)
  exact ⟨ht, ht ▸ hd.modifications j⟩

/-- A cache that has been asked does not notice a command that is broken off. -/
theorem request_across_interruption (w : Workspace) (k : Nat) {q : Query} {kind : MemberKind}
    (hq : q.kind? = some kind) (j : Nat) (keepGoing : Bool) (steps : List Step) :
    let c := (w.request k (.query q)).2.command j keepGoing (steps.map .step)
    c.1.aborted → (c.2.request k (.query q)).1 = (w.request k (.query q)).1 := by
  intro c hb
  have hcaches : c.2.caches = (w.request k (.query q)).2.caches :=
    caches_command _ j keepGoing steps
  cases ho : w.caches[k]? with
  | none =>
    have hnone : c.2.caches[k]? = none := by
      rw [hcaches]
      simp [request, ho]
    simp [request, ho, hnone]
  | some o =>
    obtain ⟨hanswer, htables, hasked⟩ := request_query ho q
    obtain ⟨hk, -⟩ := List.getElem?_eq_some_iff.1 ho
    have ho' : c.2.caches[k]? = some { o with cache := (o.cache.ask (w.moment o) q).2.1 } := by
      rw [hcaches, hasked, List.getElem?_set_self hk]
    have hcount : (c.2.table o.table).modifications = (w.table o.table).modifications := by
      have hsame := (table_command_of_aborted _ j keepGoing _ hb o.table).2
      rwa [w.table_request] at hsame
    rw [hanswer, (request_query ho' q).1, Cache.ask_again _ (congrArg Counter.count hcount) hq]

/-- The count of a table is the same at two moments between commands iff each command on the table
that had an effect meanwhile was broken off, and then the table is the same if there was no such
command. One that is broken off leaves what it has done and the count as it was, and a cache that
has been asked before does not notice it. Caches answer from the present members as long as the last
command that had an effect on their table came to its end. -/
theorem interruptions_uncounted (before ops : List Operation) {i : Nat}
    (hi : i < (start.performAll before).tables.length)
    (hn : ops.countP Operation.isCommand < UInt64.size) :
    let w := start.performAll before
    let w' := start.performAll (before ++ ops)
    ((w'.table i).modifications = (w.table i).modifications ↔
      ∀ o ∈ w.outcomes i ops, o.effective → o.aborted) ∧
    ((∀ o ∈ w.outcomes i ops, o.effective → ¬o.aborted) →
      (w'.table i).modifications = (w.table i).modifications → w'.table i = w.table i) ∧
    (∀ j keepGoing actions, (w'.command j keepGoing actions).1.aborted → ∀ k,
      (w'.command j keepGoing actions).2.table k =
          (w'.underWay j keepGoing actions).1.table k ∧
        ((w'.command j keepGoing actions).2.table k).modifications = (w'.table k).modifications) ∧
    (∀ k q kind j keepGoing (steps : List Step), q.kind? = some kind →
      let c := (w'.request k (.query q)).2.command j keepGoing (steps.map .step)
      c.1.aborted → (c.2.request k (.query q)).1 = (w'.request k (.query q)).1) ∧
    ∀ k o, Operation.sizes (before ++ ops) < UInt64.size → w'.caches[k]? = some o →
      o.augments = none → start.overdue o.table false (before ++ ops) = false →
      ∃ c, (w'.table o.table).class? o.owner.id = some c ∧ c.ref = o.owner ∧
        ∀ q a, c.body.answer? q = some a → (w'.request k (.query q)).1 = some (.answer a) := by
  intro w w'
  have hrun : w' = w.performAll ops := List.foldl_append ..
  have hiff := modifications_performAll_eq hi hn
  refine ⟨hrun ▸ hiff, fun hends hsame ↦ ?_, fun j keepGoing actions hb ↦ ?_,
    fun k q kind j keepGoing steps hq ↦ ?_, fun k o hsize ho ha hdue ↦ ?_⟩
  · rw [hrun] at hsame ⊢
    apply table_performAll_of_ineffective
    intro o ho
    by_contra heff
    have heff : o.effective = true := eq_true_of_ne_false heff
    exact hends o ho heff (hiff.1 hsame o ho heff)
  · exact w'.table_command_of_aborted j keepGoing actions hb
  · exact w'.request_across_interruption k hq j keepGoing steps
  · have hall := dated_start.performAll (before ++ ops) (by omega)
    have hd := (hall.caches o (List.mem_of_getElem? ho)).same (Nat.le_refl _)
      (Bool.eq_false_iff.1 hdue)
    obtain ⟨c, hc, href⟩ := hd.present
    exact ⟨c, hc, href, fun q a ↦ request_of_dated ho hd ha hc⟩

/-- A field is added by a command that is broken off, and a second one by a command that ends.
Commands that find nothing to remove change nothing, whether they end or not. -/
theorem fields_after_interruption :
    let header : ClassHeader := ⟨some "A", .ordinary, none, .dummy, .source⟩
    let field (name : String) : Field := ⟨name, ⟨"int", 0⟩, .none, .dummy, .source⟩
    let add (name : String) : Step := .edit (.addField 0 (field name))
    let before : List Operation := [.command 0 false [.step (.edit (.addClass header))],
      .openCache 0 0 0 {} none, .request 0 (.query .fields)]
    let idle : List Operation := [.command 0 false [.step (.edit (.removeField 0 "x"))],
      .command 0 false [.step (.edit (.removeField 0 "y")), .step .abort]]
    let ops : List Operation := [.command 0 false [.step (add "x"), .step .abort],
      .command 0 true [.step (add "y"), .step (.edit (.removeField 7 "x"))]]
    let w := start.performAll before
    let w' := start.performAll (before ++ ops)
    0 < w.tables.length ∧ idle.countP Operation.isCommand < UInt64.size ∧
      ops.countP Operation.isCommand < UInt64.size ∧
      (start.performAll (before ++ idle)).table 0 = w.table 0 ∧
      (w'.table 0).modifications ≠ (w.table 0).modifications ∧
      (w'.command 0 true [.step (add "z"), .step .abort]).1.aborted ∧
      ((w'.command 0 true [.step (add "z"), .step .abort]).2.table 0).modifications =
        (w'.table 0).modifications ∧
      (w'.request 0 (.query .fields)).1 =
        some (.answer (.fields [⟨.declared 1, field "x"⟩, ⟨.declared 2, field "y"⟩])) ∧
      let c := (w'.request 0 (.query .fields)).2.command 0 true ([add "z", .abort].map .step)
      c.1.aborted ∧ (c.2.request 0 (.query .fields)).1 = (w'.request 0 (.query .fields)).1 := by
  intro header field add before idle ops w w'
  have hi : 0 < w.tables.length := by decide
  have hidle : idle.countP Operation.isCommand < UInt64.size := by decide
  have hn : ops.countP Operation.isCommand < UInt64.size := by decide
  have hall := interruptions_uncounted before idle hi hidle
  have hall' := interruptions_uncounted before ops hi hn
  have hcount := hall.1.2 (by decide +kernel)
  have hadvanced : ¬∀ o ∈ w.outcomes 0 ops, o.effective → o.aborted := by decide +kernel
  have hb : (w'.command 0 true [.step (add "z"), .step .abort]).1.aborted := by decide +kernel
  have hb' : ((w'.request 0 (.query .fields)).2.command 0 true
      ([add "z", .abort].map .step)).1.aborted := by decide +kernel
  have hview : (w'.caches[0]?).map (fun o ↦ (o.table, o.augments.isNone, o.owner.id)) =
      some (0, true, 0) := by decide +kernel
  have hdue : start.overdue 0 false (before ++ ops) = false := by decide +kernel
  have hfields : ((w'.table 0).class? 0).map (·.body.fields) =
      some [⟨.declared 1, field "x"⟩, ⟨.declared 2, field "y"⟩] := by decide +kernel
  obtain ⟨o, ho, hview⟩ := Option.map_eq_some_iff.1 hview
  simp only [Prod.mk.injEq, Option.isNone_iff_eq_none] at hview
  obtain ⟨ht, ha, hid⟩ := hview
  rw [← ht] at hdue
  obtain ⟨c, hc, -, hanswer⟩ := hall'.2.2.2.2 0 o (by decide) ho ha hdue
  rw [ht, hid] at hc
  rw [hc] at hfields
  have hlist : c.body.fields = [⟨.declared 1, field "x"⟩, ⟨.declared 2, field "y"⟩] :=
    Option.some.inj hfields
  have hanswer := hanswer .fields (.fields c.body.fields) rfl
  rw [hlist] at hanswer
  have hsame : (start.performAll (before ++ idle)).table 0 = w.table 0 :=
    hall.2.1 (by decide +kernel) hcount
  have hkept := hall'.2.2.1 0 true _ hb 0
  have hasked := hall'.2.2.2.1 0 .fields .field 0 true [add "z", .abort] rfl hb'
  exact ⟨hi, hidle, hn, hsame, fun h ↦ hadvanced (hall'.1.1 h), hb, hkept.2, hanswer, hb', hasked⟩

/-- A field is there after a command that was broken off. The count is the same as before, and the
cache still lists no fields. -/
theorem field_without_count :
    let header : ClassHeader := ⟨some "A", .ordinary, none, .dummy, .source⟩
    let field : Field := ⟨"x", ⟨"int", 0⟩, .none, .dummy, .source⟩
    let before : List Operation := [.command 0 false [.step (.edit (.addClass header))],
      .openCache 0 0 0 {} none, .request 0 (.query .fields)]
    let w := start.performAll before
    let w' := start.performAll (before ++
      [.command 0 false [.step (.edit (.addField 0 field)), .step .abort]])
    (w'.table 0).modifications = (w.table 0).modifications ∧
      ((w.table 0).class? 0).map (·.body.fields) = some [] ∧
      ((w'.table 0).class? 0).map (·.body.fields) = some [⟨.declared 1, field⟩] ∧
      (w'.request 0 (.query .fields)).1 = some (.answer (.fields [])) := by
  intro header field before w w'
  refine ⟨by decide +kernel, by decide +kernel, by decide +kernel, ?_⟩
  rfl

end Workspace

end ClassModel
