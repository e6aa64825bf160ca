import ClassModel.Proofs.Table.Roster
import ClassModel.Proofs.Workspace.Modification
import Mathlib.Data.List.Nodup

namespace ClassModel

structure Change where
  table : Nat
  edit : Edit
  result : Edited

/-- The edit that a step was if it gave this back. What has been read is added. -/
def Step.edit? : Step → Edited → Option Edit
  | .edit e, _ => some e
  | .declare id _ _, .addedMethod m => some (.addMethod id m.decl)
  | _, _ => none

def Change.of? (table : Nat) : Action → Except Halt (Option Acted) → Option Change
  | .step k, .ok (some (.edited r)) => (k.edit? r).map (⟨table, ·, r⟩)
  | _, _ => none

theorem Step.edit?_of_asks {k : Step} {d d' : Draft} {e : Edit} {r : Edited} (hk : k.Asks e)
    (h : d.Applied e r d') : k.edit? r = some e := by
  cases k with
  | edit e' => exact congrArg some hk.symm
  | declare id file text =>
    obtain ⟨m, rfl⟩ := hk
    cases h with
    | addMethod => rfl
  | abort => cases hk

namespace Workspace

theorem declared_le_perform (w : Workspace) {op : Operation} (ho : op.isCommand = false) :
    w.declared ≤ (w.perform op).declared := by
  cases op with
  | command i keepGoing actions => cases ho
  | addTable | takeReports => exact Nat.le_refl _
  | openCache i id resolver settings augments =>
    dsimp only [perform]
    unfold openCache
    cases (w.table i).require id with
    | error e => exact Nat.le_refl _
    | ok c => exact Nat.le_trans (Nat.le_add_right ..) (Nat.le_add_right ..)
  | augment i j fields methods inner =>
    dsimp only [perform]
    unfold augment
    cases w.caches[i]? with
    | none => exact Nat.le_refl _
    | some o => exact Nat.le_trans (Nat.le_add_right ..) (Nat.le_add_right ..)
  | request i r => exact Nat.le_of_eq (w.declared_request i r).symm
  | create i id text =>
    dsimp only [perform]
    unfold create
    cases (w.table i).require id <;> exact Nat.le_refl _

def changes (w : Workspace) : Operation → List Change
  | .command i keepGoing actions =>
    (actions.zip (w.command i keepGoing actions).1.results).filterMap fun x ↦ Change.of? i x.1 x.2
  | _ => []

def history (w : Workspace) : List Operation → List Change
  | [] => []
  | op :: ops => w.changes op ++ (w.perform op).history ops

theorem lt_length_of_class? {w : Workspace} {i : Nat} {id : ClassId} {c : ClassNode}
    (hc : (w.table i).class? id = some c) : i < w.tables.length := by
  apply Nat.lt_of_not_le
  intro hle
  rw [table, List.getElem?_eq_none hle] at hc
  cases hc

theorem history_append (w : Workspace) (ops later : List Operation) :
    w.history (ops ++ later) = w.history ops ++ (w.performAll ops).history later := by
  induction ops generalizing w with
  | nil => rfl
  | cons op ops ih => exact (congrArg _ (ih _)).trans (List.append_assoc ..).symm

end Workspace

namespace Roster

section

variable {β : Type} (K : Roster β)

def place? (c : Change) : Option (Nat × ClassId) := (K.classOf? c.edit).map (c.table, ·)

def addition? (c : Change) : Option ((Nat × ClassId) × β) :=
  (K.place? c).bind fun p ↦ (K.added? c.result).map (p, ·)

def additions (tr : List Change) : List ((Nat × ClassId) × β) := tr.filterMap K.addition?

def removals (tr : List Change) : List β := tr.flatMap fun c ↦ K.removed c.result

def listAt (w : Workspace) (p : Nat × ClassId) : List β := K.list (w.table p.1) p.2

theorem addition?_of_place? {K : Roster β} {c : Change} {p : Nat × ClassId}
    (hp : K.place? c = some p) : K.addition? c = (K.added? c.result).map (p, ·) := by
  rw [addition?, hp, Option.bind_some]

theorem additions_concat (tr : List Change) (c : Change) :
    K.additions (tr ++ [c]) = K.additions tr ++ (K.addition? c).toList := by
  rw [additions, List.filterMap_append, additions]
  cases h : K.addition? c <;> simp [h]

theorem removals_concat (tr : List Change) (c : Change) :
    K.removals (tr ++ [c]) = K.removals tr ++ K.removed c.result := by
  rw [removals, List.flatMap_append, List.flatMap_singleton, removals]

end

variable {β : Type} [DecidableEq β] (K : Roster β)

/-- What has been added to a list and not been removed since. -/
def surviving (tr : List Change) (p : Nat × ClassId) : List β :=
  ((K.additions tr).filter fun x ↦ x.1 = p ∧ x.2 ∉ K.removals tr).map Prod.snd

/-- Whether some changes account for the lists of a workspace. -/
structure Ledger (tr : List Change) (w : Workspace) : Prop where
  lists : ∀ p, K.listAt w p = K.surviving tr p
  fresh : ∀ x ∈ K.additions tr, ∃ n, K.tag x.2 = .declared n ∧ n < w.declared
  distinct : ((K.additions tr).map fun x ↦ K.tag x.2).Nodup
  removals : ∀ a ∈ K.removals tr, ∃ p, (p, a) ∈ K.additions tr
  answers : ∀ before c p, before ++ [c] <+: tr → K.place? c = some p →
    K.Answers c.edit (K.surviving before p) c.result

/-- Also, each entry stands once in the list to which it has been added until it is removed, and
nowhere else. -/
structure Accounts (tr : List Change) (w : Workspace) : Prop extends K.Ledger tr w where
  once : ∀ p a, (p, a) ∈ K.additions tr → ∀ q,
    (K.listAt w q).count a = if q = p ∧ a ∉ K.removals tr then 1 else 0

def Lawful : Prop :=
  ∀ {d d' : Draft} {e : Edit} {r : Edited}, d.Applied e r d' → K.Obeys d e r d'

variable {K} {tr : List Change} {w w' : Workspace} {p q : Nat × ClassId} {a : β}

theorem mem_surviving :
    a ∈ K.surviving tr p ↔ (p, a) ∈ K.additions tr ∧ a ∉ K.removals tr := by
  simp only [surviving, List.mem_map, List.mem_filter, decide_eq_true_eq]
  constructor
  · rintro ⟨⟨_, _⟩, ⟨hx, rfl, ha⟩, rfl⟩
    exact ⟨hx, ha⟩
  · rintro ⟨hx, ha⟩
    exact ⟨(p, a), ⟨hx, rfl, ha⟩, rfl⟩

theorem surviving_concat (tr : List Change) (c : Change) (p : Nat × ClassId) :
    K.surviving (tr ++ [c]) p = (K.surviving tr p).filter (· ∉ K.removed c.result) ++
      ((K.addition? c).toList.filter fun x ↦ x.1 = p ∧ x.2 ∉ K.removals (tr ++ [c])).map
        Prod.snd := by
  have hkept : (K.additions tr).filter (fun x ↦ x.1 = p ∧ x.2 ∉ K.removals (tr ++ [c])) =
      ((K.additions tr).filter fun x ↦ x.1 = p ∧ x.2 ∉ K.removals tr).filter
        (·.2 ∉ K.removed c.result) := by
    rw [List.filter_filter]
    apply List.filter_congr
    intro x _
    rw [removals_concat, ← Bool.decide_and, decide_eq_decide, List.mem_append, not_or]
    exact and_assoc.symm.trans and_comm
  rw [surviving, additions_concat, List.filter_append, List.map_append, hkept, surviving,
    List.filter_map]
  rfl

namespace Ledger

theorem place_unique (h : K.Ledger tr w) (hp : (p, a) ∈ K.additions tr)
    (hq : (q, a) ∈ K.additions tr) : p = q :=
  congrArg Prod.fst (List.inj_on_of_nodup_map h.distinct hp hq rfl)

theorem nodup_surviving (h : K.Ledger tr w) (p : Nat × ClassId) : (K.surviving tr p).Nodup := by
  have hentries : ((K.additions tr).map Prod.snd).Nodup := by
    apply List.Nodup.of_map K.tag
    rw [List.map_map]
    exact h.distinct
  exact hentries.sublist (List.filter_sublist.map Prod.snd)

theorem tag_ne (h : K.Ledger tr w) (hp : (p, a) ∈ K.additions tr) :
    K.tag a ≠ .declared w.declared := by
  obtain ⟨n, hn, hlt⟩ := h.fresh _ hp
  rw [hn]
  intro he
  exact Nat.ne_of_lt hlt (Tag.declared.inj he)

theorem same (h : K.Ledger tr w) (hl : ∀ p, K.listAt w' p = K.listAt w p)
    (hd : w.declared ≤ w'.declared) : K.Ledger tr w' where
  lists p := (hl p).trans (h.lists p)
  fresh x hx := by
    obtain ⟨n, hn, hlt⟩ := h.fresh x hx
    exact ⟨n, hn, Nat.lt_of_lt_of_le hlt hd⟩
  distinct := h.distinct
  removals := h.removals
  answers := h.answers

theorem concat_of_none {c : Change} (h : K.Ledger tr w) (hp : K.place? c = none)
    (hr : K.removed c.result = []) (hl : ∀ p, K.listAt w' p = K.listAt w p)
    (hd : w.declared ≤ w'.declared) : K.Ledger (tr ++ [c]) w' := by
  have ha : K.addition? c = none := by rw [addition?, hp, Option.bind_none]
  have hadd : K.additions (tr ++ [c]) = K.additions tr := by
    rw [additions_concat, ha]
    exact List.append_nil _
  have hrem : K.removals (tr ++ [c]) = K.removals tr := by
    rw [removals_concat, hr, List.append_nil]
  have hsurv : K.surviving (tr ++ [c]) = K.surviving tr := by
    funext p
    rw [surviving, hadd, hrem, surviving]
  have h' := h.same hl hd
  refine ⟨?_, ?_, ?_, ?_, ?_⟩
  · rw [hsurv]
    exact h'.lists
  · rw [hadd]
    exact h'.fresh
  · rw [hadd]
    exact h'.distinct
  · rw [hadd, hrem]
    exact h'.removals
  · intro before c' p hpre hp'
    rcases List.prefix_concat_iff.1 hpre with he | hpre
    · obtain ⟨-, he⟩ := List.append_inj' he rfl
      obtain rfl := List.singleton_inj.1 he
      simp [hp] at hp'
    · exact h.answers before c' p hpre hp'

section

variable {c : Change}

/-- What a change removes from a list that is accounted for has been added to it. -/
theorem placed_of_removed (h : K.Ledger tr w)
    (hr : ∀ a ∈ K.removed c.result, a ∈ K.listAt w p) :
    ∀ a ∈ K.removed c.result, (p, a) ∈ K.additions tr := by
  intro a ha
  have hsurv := hr a ha
  rw [h.lists p] at hsurv
  exact (mem_surviving.1 hsurv).1

theorem placed_of_removals_concat (h : K.Ledger tr w)
    (hr : ∀ a ∈ K.removed c.result, (p, a) ∈ K.additions tr) :
    ∀ a ∈ K.removals (tr ++ [c]), ∃ q, (q, a) ∈ K.additions tr := by
  intro a ha
  rw [removals_concat] at ha
  rcases List.mem_append.1 ha with ha | ha
  · exact h.removals a ha
  · exact ⟨p, hr a ha⟩

/-- A new entry bears a new tag, and so is none that has been removed. -/
theorem surviving_concat_self (h : K.Ledger tr w) (hp : K.place? c = some p)
    (hr : ∀ a ∈ K.removed c.result, (p, a) ∈ K.additions tr)
    (hn : ∀ a, K.added? c.result = some a → K.tag a = .declared w.declared) :
    K.surviving (tr ++ [c]) p =
      (K.surviving tr p).filter (· ∉ K.removed c.result) ++ (K.added? c.result).toList := by
  rw [surviving_concat, addition?_of_place? hp]
  cases hadd : K.added? c.result with
  | none => rfl
  | some a =>
    have hkeep : a ∉ K.removals (tr ++ [c]) := by
      intro hmem
      obtain ⟨q, hq⟩ := h.placed_of_removals_concat hr a hmem
      exact h.tag_ne hq (hn a hadd)
    simp [hkeep]

theorem surviving_concat_ne (h : K.Ledger tr w) (hp : K.place? c = some p)
    (hr : ∀ a ∈ K.removed c.result, (p, a) ∈ K.additions tr) (hq : p ≠ q) :
    K.surviving (tr ++ [c]) q = K.surviving tr q := by
  have hkept : ∀ a ∈ K.surviving tr q, decide (a ∉ K.removed c.result) = true := by
    intro a ha
    apply decide_eq_true
    intro hmem
    exact hq (h.place_unique (hr a hmem) (mem_surviving.1 ha).1)
  rw [surviving_concat, addition?_of_place? hp, List.filter_eq_self.2 hkept]
  cases K.added? c.result <;> simp [hq]

theorem concat_of_some (h : K.Ledger tr w) (hp : K.place? c = some p)
    (hr : ∀ a ∈ K.removed c.result, a ∈ K.listAt w p)
    (hm : K.listAt w' p =
      (K.listAt w p).filter (· ∉ K.removed c.result) ++ (K.added? c.result).toList)
    (hf : ∀ q, p ≠ q → K.listAt w' q = K.listAt w q)
    (hn : ∀ a, K.added? c.result = some a → K.tag a = .declared w.declared ∧
      w'.declared = w.declared + 1)
    (ha : K.Answers c.edit (K.listAt w p) c.result) (hd : w.declared ≤ w'.declared) :
    K.Ledger (tr ++ [c]) w' := by
  have hplaced := h.placed_of_removed hr
  have hnew := addition?_of_place? hp
  refine ⟨?_, ?_, ?_, ?_, ?_⟩
  · intro q
    by_cases hq : p = q
    · subst hq
      rw [hm, h.lists p, h.surviving_concat_self hp hplaced fun a hadd ↦ (hn a hadd).1]
    · rw [hf q hq, h.lists q, h.surviving_concat_ne hp hplaced hq]
  · intro x hx
    rw [additions_concat, hnew] at hx
    rcases List.mem_append.1 hx with hx | hx
    · obtain ⟨n, hn, hlt⟩ := h.fresh x hx
      exact ⟨n, hn, Nat.lt_of_lt_of_le hlt hd⟩
    · obtain ⟨a, hadd, rfl⟩ := Option.map_eq_some_iff.1 (Option.mem_toList.1 hx)
      obtain ⟨htag, hdecl⟩ := hn a hadd
      exact ⟨_, htag, hdecl ▸ Nat.lt_succ_self _⟩
  · rw [additions_concat, hnew]
    cases hadd : K.added? c.result with
    | none => simpa using h.distinct
    | some a =>
      rw [List.map_append]
      apply h.distinct.append (List.nodup_singleton _)
      intro tag hold hnew'
      obtain ⟨⟨q, b⟩, hx, rfl⟩ := List.mem_map.1 hold
      exact h.tag_ne hx ((List.mem_singleton.1 hnew').trans (hn a hadd).1)
  · intro a ha
    obtain ⟨q, hq⟩ := h.placed_of_removals_concat hplaced a ha
    refine ⟨q, ?_⟩
    rw [additions_concat]
    exact List.mem_append_left _ hq
  · intro before c' q hpre hq
    rcases List.prefix_concat_iff.1 hpre with he | hpre
    · -- Until this change the list has been what survives of the earlier ones.
      obtain ⟨rfl, hc⟩ := List.append_inj' he rfl
      obtain rfl := List.singleton_inj.1 hc
      obtain rfl := Option.some.inj (hp.symm.trans hq)
      rw [← h.lists p]
      exact ha
    · exact h.answers before c' q hpre hq

end

theorem applied (hK : K.Lawful) (h : K.Ledger tr w) {i : Nat} {b : Bool} {e : Edit} {r : Edited}
    {d' : Draft} (ha : (⟨w.table i, w.declared, b⟩ : Draft).Applied e r d')
    (ht : ∀ j, w'.table j = if j = i ∧ i < w.tables.length then d'.table else w.table j)
    (hd : w'.declared = d'.declared) : K.Ledger (tr ++ [⟨i, e, r⟩]) w' := by
  have ho := hK ha
  have hle : w.declared ≤ w'.declared := hd ▸ ha.declared_le
  have hlist : ∀ q, (∀ id, K.classOf? e = some id → (i, id) ≠ q) →
      K.listAt w' q = K.listAt w q := by
    intro q hq
    rw [listAt, ht, listAt]
    split
    · next hj =>
      rw [hj.1]
      exact ho.frame q.2 fun he ↦ hq _ he (Prod.ext hj.1.symm rfl)
    · rfl
  cases he : K.classOf? e with
  | none =>
    have hr : K.removed r = [] := by
      rw [List.eq_nil_iff_forall_not_mem]
      intro a hmem
      obtain ⟨id, hid, -⟩ := ho.removed a hmem
      simp [he] at hid
    have hp : K.place? ⟨i, e, r⟩ = none := by rw [place?, he, Option.map_none]
    apply h.concat_of_none hp hr _ hle
    intro q
    apply hlist
    simp [he]
  | some id =>
    -- Without a table `i` there is no class whose list could change, so that `e` would have failed.
    obtain ⟨c, hc⟩ := ho.present id he
    have hi : i < w.tables.length := Workspace.lt_length_of_class? hc
    have hp : K.place? ⟨i, e, r⟩ = some (i, id) := by rw [place?, he, Option.map_some]
    have hnodup : (K.listAt w (i, id)).Nodup := by
      rw [h.lists]
      exact h.nodup_surviving (i, id)
    apply h.concat_of_some hp _ _ _ _ (ho.answers id he) hle
    · intro a hmem
      obtain ⟨j, hj, hmem⟩ := ho.removed a hmem
      obtain rfl := Option.some.inj (he.symm.trans hj)
      exact hmem
    · rw [listAt, ht, if_pos ⟨rfl, hi⟩]
      exact ho.moved id he hnodup
    · intro q hq
      apply hlist
      intro j hj
      obtain rfl := Option.some.inj (he.symm.trans hj)
      exact hq
    · intro a hadd
      rw [hd]
      exact ho.added id a he hadd

theorem act (hK : K.Lawful) {i : Nat} {s : Workspace × Bool} (h : K.Ledger tr s.1) (a : Action) :
    K.Ledger (tr ++ (Change.of? i a (Workspace.act i s a).1).toList)
      (Workspace.act i s a).2.1 := by
  cases a with
  | step k =>
    have ht := Workspace.table_act_step i s k
    rcases Draft.act_cases ⟨s.1.table i, s.1.declared, s.2⟩ k with
      ⟨e, r, hr, ha, hk⟩ | ⟨x, hx, hd, -⟩
    · have hc : Change.of? i (.step k) (Workspace.act i s (.step k)).1 = some ⟨i, e, r⟩ := by
        rw [Workspace.fst_act_step, hr]
        exact congrArg (Option.map _) (Step.edit?_of_asks hk ha)
      rw [hc]
      exact h.applied hK ha ht rfl
    · have hc : Change.of? i (.step k) (Workspace.act i s (.step k)).1 = none := by
        rw [Workspace.fst_act_step, hx]
        rfl
      rw [hc, Option.toList_none, List.append_nil]
      have hdecl : (Workspace.act i s (.step k)).2.1.declared = s.1.declared := by
        rw [Workspace.declared_act_step, hd]
      apply h.same _ (Nat.le_of_eq hdecl.symm)
      intro p
      rw [listAt, ht, hd, listAt]
      split
      · next hj => rw [hj.1]
      · rfl
  | request cache r =>
    apply (List.append_nil tr).symm ▸ h.same _ _
    · intro p
      exact congrArg (K.list · p.2) (s.1.table_request cache r p.1)
    · exact Nat.le_of_eq (s.1.declared_request cache r).symm
  | count =>
    apply (List.append_nil tr).symm ▸ h.same _ _
    · exact fun p ↦ rfl
    · exact Nat.le_refl _

theorem command (hK : K.Lawful) (h : K.Ledger tr w) (i : Nat) (keepGoing : Bool)
    (actions : List Action) :
    K.Ledger (tr ++ w.changes (.command i keepGoing actions))
      (w.command i keepGoing actions).2 := by
  have hact : ∀ tr (s : Workspace × Bool) a, K.Ledger tr s.1 →
      K.Ledger (tr ++ (Change.of? i a (Workspace.act i s a).1).toList)
        (Workspace.act i s a).2.1 :=
    fun tr s a hs ↦ hs.act hK a
  have hfail : ∀ a x, Change.of? i a (.error x) = none := by
    intro a x
    cases a <;> rfl
  have hall : K.Ledger (tr ++ w.changes (.command i keepGoing actions))
      (carryOut (Workspace.act i) keepGoing (w, false) actions).2.1 :=
    carryOut_traced hact hfail keepGoing h
  refine hall.same ?_ (Nat.le_refl _)
  intro p
  exact K.list_of_classes (w.classes_command i keepGoing actions p.1) p.2

theorem perform (hK : K.Lawful) (h : K.Ledger tr w) (op : Operation) :
    K.Ledger (tr ++ w.changes op) (w.perform op) := by
  cases ho : op.isCommand with
  | true =>
    cases op with
    | command i keepGoing actions => exact h.command hK i keepGoing actions
    | _ => cases ho
  | false =>
    have hnone : w.changes op = [] := by
      cases op with
      | command i keepGoing actions => cases ho
      | _ => rfl
    rw [hnone, List.append_nil]
    apply h.same _ (w.declared_le_perform ho)
    intro p
    exact congrArg (K.list · p.2) (w.table_perform ho p.1)

theorem performAll (hK : K.Lawful) (h : K.Ledger tr w) (ops : List Operation) :
    K.Ledger (tr ++ w.history ops) (w.performAll ops) := by
  induction ops generalizing tr w with
  | nil => exact (List.append_nil tr).symm ▸ h
  | cons op ops ih =>
    rw [Workspace.history, ← List.append_assoc]
    exact ih (h.perform hK op)

theorem start (K : Roster β) : K.Ledger [] .start where
  lists p := by
    have hnone : (Workspace.start.table p.1).class? p.2 = none := by
      cases p.1 <;> rfl
    rw [listAt, list, hnone]
    rfl
  fresh := nofun
  distinct := .nil
  removals := nofun
  answers before c p hpre := by simp at hpre

theorem accounts (h : K.Ledger tr w) : K.Accounts tr w where
  toLedger := h
  once p a hp q := by
    rw [h.lists q]
    split
    · next hq =>
      apply List.count_eq_one_of_mem (h.nodup_surviving q)
      exact mem_surviving.2 ⟨hq.1 ▸ hp, hq.2⟩
    · next hq =>
      apply List.count_eq_zero_of_not_mem
      intro hmem
      obtain ⟨hplace, hkept⟩ := mem_surviving.1 hmem
      exact hq ⟨h.place_unique hplace hp, hkept⟩

end Ledger

theorem lawful_fields : fields.Lawful := obeys_fields

theorem lawful_methods : methods.Lawful := obeys_methods

theorem lawful_innerTypes : innerTypes.Lawful := obeys_innerTypes

theorem listAt_act (hK : K.Lawful) {s : Workspace × Bool} {i : Nat} {a : Action}
    (h : K.listAt (Workspace.act i s a).2.1 p ≠ K.listAt s.1 p) :
    (Change.of? i a (Workspace.act i s a).1).bind K.place? = some p := by
  cases a with
  | step k =>
    have ht := Workspace.table_act_step i s k p.1
    rw [listAt, ht, listAt] at h
    split at h
    · next hp =>
      rcases Draft.act_cases ⟨s.1.table i, s.1.declared, s.2⟩ k with
        ⟨e, r, hr, ha, hk⟩ | ⟨x, -, hd, -⟩
      · have he : K.classOf? e = some p.2 := by
          apply Decidable.byContradiction
          intro hne
          exact h (((hK ha).frame p.2 hne).trans (by rw [hp.1]))
        rw [Workspace.fst_act_step, hr]
        simp [Except.map, Change.of?, Step.edit?_of_asks hk ha, place?, he, ← hp.1]
      · rw [hd, hp.1] at h
        exact absurd rfl h
    · exact absurd rfl h
  | request cache r =>
    have ht := s.1.table_request cache r p.1
    exact absurd (congrArg (K.list · p.2) ht) h
  | count => exact absurd rfl h

end Roster

end ClassModel
