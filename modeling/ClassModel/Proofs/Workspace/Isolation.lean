import ClassModel.Proofs.Cache.Renaming
import ClassModel.Proofs.Workspace.Modification

namespace ClassModel

def Handle.unnumbered (h : Handle Method) : Handle Method :=
  match h.tag with
  | .declared _ => h
  | .made _ => { h with tag := .made 0 }

def OpenCache.unnumbered (o : OpenCache) : OpenCache :=
  { o with cache := o.cache.mapMade Handle.unnumbered }

def Response.unnumbered : Response → Response
  | .answer a => .answer (a.mapMade Handle.unnumbered)
  | r => r

def Acted.unnumbered : Acted → Acted
  | .response r => .response r.unnumbered
  | a => a

def Action.asks (k : Nat) : Action → Bool
  | .request j _ => j == k
  | _ => false

/-- The operation without what it asks of a cache, if there is more to it. -/
def Operation.without (k : Nat) : Operation → Option Operation
  | .request j r => if j = k then none else some (.request j r)
  | .command i keepGoing actions => some (.command i keepGoing (actions.filter (!·.asks k)))
  | op => some op

namespace Workspace

def exchanges (w : Workspace) : Operation → List (Action × Except Halt (Option Acted))
  | .command i keepGoing actions => actions.zip (w.command i keepGoing actions).1.replies
  | .request j r => [(.request j r, .ok ((w.request j r).1.map .response))]
  | _ => []

def transcript (w : Workspace) : List Operation → List (Action × Except Halt (Option Acted))
  | [] => []
  | op :: ops => w.exchanges op ++ (w.perform op).transcript ops

/-- Whether two workspaces are the same to all caches but `k`. -/
structure Agree (k : Nat) (w v : Workspace) : Prop where
  tables : w.tables = v.tables
  declared : w.declared = v.declared
  length : w.caches.length = v.caches.length
  others : ∀ j, j ≠ k →
    (w.caches[j]?).map OpenCache.unnumbered = (v.caches[j]?).map OpenCache.unnumbered

theorem Agree.refl (k : Nat) (w : Workspace) : Agree k w w := ⟨rfl, rfl, rfl, fun _ _ ↦ rfl⟩

theorem caches_request_ne (w : Workspace) {i j : Nat} (r : Request) (hj : j ≠ i) :
    (w.request i r).2.caches[j]? = w.caches[j]? := by
  unfold request
  cases w.caches[i]? with
  | none => rfl
  | some o =>
    cases r with
    | query q =>
      dsimp only
      rw [caches_record]
      exact List.getElem?_set_ne hj.symm
    | drop => exact List.getElem?_set_ne hj.symm
    | owner => rfl

theorem length_caches_request (w : Workspace) (i : Nat) (r : Request) :
    (w.request i r).2.caches.length = w.caches.length := by
  unfold request
  cases w.caches[i]? with
  | none => rfl
  | some o =>
    cases r with
    | query q =>
      dsimp only
      rw [caches_record]
      exact List.length_set
    | drop => exact List.length_set
    | owner => rfl

variable {k : Nat} {w v : Workspace}

theorem Agree.table (h : Agree k w v) (i : Nat) : w.table i = v.table i := by
  rw [Workspace.table, h.tables, Workspace.table]

theorem Agree.moment (h : Agree k w v) {o o' : OpenCache} (ho : o.unnumbered = o'.unnumbered) :
    (w.moment o).mapMade Handle.unnumbered = (v.moment o').mapMade Handle.unnumbered := by
  obtain ⟨table, resolver, owner, augments, cache⟩ := o
  obtain ⟨table', resolver', owner', augments', cache'⟩ := o'
  obtain ⟨rfl, rfl, rfl, rfl, -⟩ := OpenCache.mk.inj ho
  have hcreate (n : Nat) (text : String) :
      ((owner.create text).map fun m ↦ (⟨.made n, m⟩ : Handle Method)).map Handle.unnumbered =
        (owner.create text).map fun m ↦ ⟨.made 0, m⟩ := by
    simp only [Creation.map]
    cases (owner.create text).result <;> rfl
  simp only [Moment.mapMade, Workspace.moment, ownerNode, h.table, hcreate]

/-- Two caches that differ in nothing but numbers answer alike. -/
theorem Agree.ask (h : Agree k w v) {o o' : OpenCache} (ho : o.unnumbered = o'.unnumbered)
    (q : Query) :
    (o.cache.ask (w.moment o) q).1.mapMade Handle.unnumbered =
        (o'.cache.ask (v.moment o') q).1.mapMade Handle.unnumbered ∧
      ({ o with cache := (o.cache.ask (w.moment o) q).2.1 } : OpenCache).unnumbered =
        ({ o' with cache := (o'.cache.ask (v.moment o') q).2.1 } : OpenCache).unnumbered := by
  have hcache : o.cache.mapMade Handle.unnumbered = o'.cache.mapMade Handle.unnumbered :=
    congrArg OpenCache.cache ho
  have hask := Cache.ask_mapMade Handle.unnumbered o.cache (w.moment o) q
  rw [hcache, h.moment ho, Cache.ask_mapMade] at hask
  obtain ⟨hanswer, hrest⟩ := Prod.mk.inj hask
  obtain ⟨hkept, -⟩ := Prod.mk.inj hrest
  refine ⟨hanswer.symm, ?_⟩
  obtain ⟨table, resolver, owner, augments, cache⟩ := o
  obtain ⟨table', resolver', owner', augments', cache'⟩ := o'
  obtain ⟨rfl, rfl, rfl, rfl, -⟩ := OpenCache.mk.inj ho
  exact congrArg (OpenCache.mk table resolver owner augments) hkept.symm

theorem unnumbered_drop {o o' : OpenCache} (ho : o.unnumbered = o'.unnumbered) :
    ({ o with cache := o.cache.drop } : OpenCache).unnumbered =
      ({ o' with cache := o'.cache.drop } : OpenCache).unnumbered :=
  congrArg (fun o : OpenCache ↦ { o with cache := o.cache.drop }) ho

theorem Agree.set (h : Agree k w v) (j : Nat) {o o' : OpenCache}
    (ho : j ≠ k → o.unnumbered = o'.unnumbered) {w' v' : Workspace}
    (ht : w'.tables = w.tables ∧ v'.tables = v.tables) (hd : w'.declared = v'.declared)
    (hc : w'.caches = w.caches.set j o ∧ v'.caches = v.caches.set j o') : Agree k w' v' where
  tables := ht.1.trans (h.tables.trans ht.2.symm)
  declared := hd
  length := by rw [hc.1, hc.2, List.length_set, List.length_set, h.length]
  others l hl := by
    rw [hc.1, hc.2, List.getElem?_set, List.getElem?_set, h.length]
    split
    · next hj =>
      split
      · exact congrArg some (ho (hj ▸ hl))
      · rfl
    · exact h.others l hl

theorem Agree.append (h : Agree k w v) {o : OpenCache} {w' v' : Workspace}
    (ht : w'.tables = w.tables ∧ v'.tables = v.tables) (hd : w'.declared = v'.declared)
    (hc : w'.caches = w.caches ++ [o] ∧ v'.caches = v.caches ++ [o]) : Agree k w' v' where
  tables := ht.1.trans (h.tables.trans ht.2.symm)
  declared := hd
  length := by rw [hc.1, hc.2, List.length_append, List.length_append, h.length]
  others l hl := by
    rw [hc.1, hc.2, List.getElem?_append, List.getElem?_append, h.length]
    split
    · exact h.others l hl
    · rfl

/-- What is asked of cache `k` is of no concern to the others. -/
theorem Agree.skip (h : Agree k w v) (r : Request) : Agree k (w.request k r).2 v where
  tables := (w.tables_request k r).trans h.tables
  declared := (w.declared_request k r).trans h.declared
  length := (w.length_caches_request k r).trans h.length
  others j hj := by
    rw [w.caches_request_ne r hj]
    exact h.others j hj

theorem Agree.request (h : Agree k w v) {j : Nat} (hj : j ≠ k) (r : Request) :
    (w.request j r).1.map Response.unnumbered = (v.request j r).1.map Response.unnumbered ∧
      Agree k (w.request j r).2 (v.request j r).2 := by
  have hcaches := h.others j hj
  unfold Workspace.request
  cases ho : w.caches[j]? with
  | none =>
    rw [ho] at hcaches
    cases ho' : v.caches[j]? with
    | none => exact ⟨rfl, h⟩
    | some o' => simp [ho'] at hcaches
  | some o =>
    rw [ho] at hcaches
    cases ho' : v.caches[j]? with
    | none => simp [ho'] at hcaches
    | some o' =>
      rw [ho'] at hcaches
      have hsame : o.unnumbered = o'.unnumbered := Option.some.inj hcaches
      cases r with
      | query q =>
        obtain ⟨hanswer, hkept⟩ := h.ask hsame q
        refine ⟨congrArg (some ∘ Response.answer) hanswer, h.set j (fun _ ↦ hkept) ?_ ?_ ?_⟩
        · exact ⟨tables_record _ _, tables_record _ _⟩
        · dsimp only
          rw [declared_record, declared_record]
          exact h.declared
        · exact ⟨caches_record _ _, caches_record _ _⟩
      | drop =>
        exact ⟨rfl, h.set j (fun _ ↦ unnumbered_drop hsame) ⟨rfl, rfl⟩ h.declared ⟨rfl, rfl⟩⟩
      | owner =>
        have howner := congrArg OpenCache.owner hsame
        have hname : Response.owner o.owner.header.name = .owner o'.owner.header.name :=
          congrArg (fun c : ClassRef ↦ Response.owner c.header.name) howner
        exact ⟨congrArg some hname, h⟩

theorem Agree.reply (h : Agree k w v) {j : Nat} (hj : j ≠ k) (r : Request) :
    ((w.request j r).1.map Acted.response).map Acted.unnumbered =
      ((v.request j r).1.map Acted.response).map Acted.unnumbered := by
  have hmap (a : Option Response) : (a.map Acted.response).map Acted.unnumbered =
      (a.map Response.unnumbered).map Acted.response := by
    cases a <;> rfl
  rw [hmap, hmap, (h.request hj r).1]

theorem Agree.act (i : Nat) {s t : Workspace × Bool} (h : Agree k s.1 t.1 ∧ s.2 = t.2)
    {a : Action} (ha : a.asks k = false) :
    (Workspace.act i s a).1.map (Option.map Acted.unnumbered) =
        (Workspace.act i t a).1.map (Option.map Acted.unnumbered) ∧
      Agree k (Workspace.act i s a).2.1 (Workspace.act i t a).2.1 ∧
      (Workspace.act i s a).2.2 = (Workspace.act i t a).2.2 := by
  obtain ⟨hagree, hchanged⟩ := h
  cases a with
  | step k =>
    have hd : (⟨s.1.table i, s.1.declared, s.2⟩ : Draft) = ⟨t.1.table i, t.1.declared, t.2⟩ := by
      rw [hagree.table, hagree.declared, hchanged]
    have htables : (Workspace.act i s (.step k)).2.1.tables =
        (Workspace.act i t (.step k)).2.1.tables := by
      rw [tables_act_step, tables_act_step, hd, hagree.tables]
    have hdeclared : (Workspace.act i s (.step k)).2.1.declared =
        (Workspace.act i t (.step k)).2.1.declared := by
      rw [declared_act_step, declared_act_step, hd]
    refine ⟨?_, ⟨htables, hdeclared, hagree.length, hagree.others⟩, ?_⟩
    · rw [fst_act_step, fst_act_step, hd]
    · exact congrArg (fun d : Draft ↦ (d.act k).2.1.changed) hd
  | request j r =>
    have hj : j ≠ k := by simpa [Action.asks] using ha
    exact ⟨congrArg Except.ok (hagree.reply hj r), (hagree.request hj r).2, hchanged⟩
  | count =>
    refine ⟨?_, hagree, hchanged⟩
    have htable := hagree.table i
    simp only [Workspace.act, htable]

theorem Agree.setTable (h : Agree k w v) (i : Nat) (t : ClassTable) :
    Agree k (w.setTable i t) (v.setTable i t) :=
  ⟨congrArg (·.set i t) h.tables, h.declared, h.length, h.others⟩

/-- A command is the same without what it asks of cache `k`. -/
theorem Agree.command (h : Agree k w v) (i : Nat) (keepGoing : Bool) (actions : List Action) :
    Agree k (w.command i keepGoing actions).2
        (v.command i keepGoing (actions.filter (!·.asks k))).2 ∧
      (w.command i keepGoing actions).1.Matches (Action.asks k) (Option.map Acted.unnumbered)
        actions (v.command i keepGoing (actions.filter (!·.asks k))).1 := by
  have hskip : ∀ (s t : Workspace × Bool) a, Action.asks k a = true →
      (Agree k s.1 t.1 ∧ s.2 = t.2) → (∃ r, (Workspace.act i s a).1 = .ok r) ∧
        Agree k (Workspace.act i s a).2.1 t.1 ∧ (Workspace.act i s a).2.2 = t.2 := by
    intro s t a ha hst
    cases a with
    | request j r =>
      obtain rfl : j = k := by simpa [Action.asks] using ha
      exact ⟨⟨_, rfl⟩, hst.1.skip r, hst.2⟩
    | _ => cases ha
  have hkeep : ∀ (s t : Workspace × Bool) a, Action.asks k a = false →
      (Agree k s.1 t.1 ∧ s.2 = t.2) →
      (Workspace.act i s a).1.map (Option.map Acted.unnumbered) =
          (Workspace.act i t a).1.map (Option.map Acted.unnumbered) ∧
        Agree k (Workspace.act i s a).2.1 (Workspace.act i t a).2.1 ∧
        (Workspace.act i s a).2.2 = (Workspace.act i t a).2.2 :=
    fun s t a ha hst ↦ Agree.act i hst ha
  have hstart : Agree k (w, false).1 (v, false).1 ∧ (w, false).2 = (v, false).2 := ⟨h, rfl⟩
  obtain ⟨⟨hagree, hchanged⟩, hmatch⟩ := carryOut_filter hskip hkeep keepGoing hstart actions
  refine ⟨?_, hmatch⟩
  unfold Workspace.command Outcome.aborted
  dsimp only
  rw [hagree.table, hagree.declared, hchanged, hmatch.failure]
  exact hagree.setTable i _

theorem Agree.classRefs (h : Agree k w v) (n m i : Nat) :
    Workspace.classRefs { w with declared := n } i =
      Workspace.classRefs { v with declared := m } i := by
  have ht : ({ w with declared := n } : Workspace).table i =
      ({ v with declared := m } : Workspace).table i := h.table i
  funext ids
  rw [Workspace.classRefs, ht, Workspace.classRefs]

theorem Agree.openCache (h : Agree k w v) (i : Nat) (id : ClassId) (resolver : Nat)
    (settings : Settings) (augments : Option (Members Field Method ClassId)) :
    Agree k (w.openCache i id resolver settings augments).2
      (v.openCache i id resolver settings augments).2 := by
  unfold Workspace.openCache
  rw [h.table i]
  cases (v.table i).require id with
  | error e => exact h
  | ok c =>
    dsimp only [handles]
    rw [h.classRefs, h.declared]
    exact h.append ⟨rfl, rfl⟩ rfl ⟨rfl, rfl⟩

theorem Agree.augment (h : Agree k w v) (j i : Nat) (fields : Option (List Field))
    (methods : Option (List Method)) (inner : Option (List ClassId)) :
    Agree k (w.augment j i fields methods inner) (v.augment j i fields methods inner) := by
  unfold Workspace.augment
  cases ho : w.caches[j]? with
  | none =>
    have ho' : v.caches[j]? = none := by
      rw [List.getElem?_eq_none_iff, ← h.length]
      exact List.getElem?_eq_none_iff.1 ho
    rw [ho']
    exact h
  | some o =>
    obtain ⟨o', ho'⟩ : ∃ o', v.caches[j]? = some o' :=
      ⟨_, List.getElem?_eq_getElem (h.length ▸ (List.getElem?_eq_some_iff.1 ho).1)⟩
    rw [ho']
    dsimp only [handles]
    rw [h.classRefs, h.declared]
    refine h.set j (fun hj ↦ ?_) ⟨rfl, rfl⟩ rfl ⟨rfl, rfl⟩
    have hsame := h.others j hj
    rw [ho, ho'] at hsame
    obtain ⟨table, resolver, owner, augments, cache⟩ := o
    obtain ⟨table', resolver', owner', augments', cache'⟩ := o'
    obtain ⟨rfl, rfl, rfl, rfl, hcache⟩ := OpenCache.mk.inj (Option.some.inj hsame)
    exact congrArg (OpenCache.mk table resolver owner _) hcache

theorem Agree.create (h : Agree k w v) (i : Nat) (id : ClassId) (text : String) :
    Agree k (w.create i id text).2 (v.create i id text).2 := by
  unfold Workspace.create
  rw [h.table i]
  cases (v.table i).require id with
  | error e => exact h
  | ok c => exact ⟨h.tables, h.declared, h.length, h.others⟩

def unnumber (x : Action × Except Halt (Option Acted)) : Action × Except Halt (Option Acted) :=
  (x.1, x.2.map (Option.map Acted.unnumbered))

def elsewhere (k : Nat) (xs : List (Action × Except Halt (Option Acted))) :
    List (Action × Except Halt (Option Acted)) :=
  (xs.filter (!·.1.asks k)).map unnumber

theorem elsewhere_append (k : Nat) (xs ys : List (Action × Except Halt (Option Acted))) :
    elsewhere k (xs ++ ys) = elsewhere k xs ++ elsewhere k ys := by
  rw [elsewhere, List.filter_append, List.map_append, elsewhere, elsewhere]

theorem Agree.perform (h : Agree k w v) (op : Operation) :
    match op.without k with
    | none => Agree k (w.perform op) v ∧ elsewhere k (w.exchanges op) = []
    | some op' => Agree k (w.perform op) (v.perform op') ∧
      elsewhere k (w.exchanges op) = (v.exchanges op').map unnumber := by
  cases op with
  | command i keepGoing actions =>
    obtain ⟨hagree, hmatch⟩ := h.command i keepGoing actions
    exact ⟨hagree, hmatch.replies⟩
  | request j r =>
    by_cases hj : j = k
    · subst hj
      rw [Operation.without, if_pos rfl]
      exact ⟨h.skip r, by simp [elsewhere, exchanges, Action.asks]⟩
    · rw [Operation.without, if_neg hj]
      refine ⟨(h.request hj r).2, ?_⟩
      rw [elsewhere, exchanges, List.filter_cons_of_pos (by simp [Action.asks, hj]),
        List.filter_nil]
      exact congrArg (fun a ↦ [(Action.request j r, Except.ok a)]) (h.reply hj r)
  | addTable =>
    have htables : w.tables ++ [.empty] = v.tables ++ [.empty] := by rw [h.tables]
    exact ⟨⟨htables, h.declared, h.length, h.others⟩, rfl⟩
  | openCache i id resolver settings augments => exact ⟨h.openCache .., rfl⟩
  | augment j i fields methods inner => exact ⟨h.augment .., rfl⟩
  | create i id text => exact ⟨h.create .., rfl⟩
  | takeReports => exact ⟨⟨h.tables, h.declared, h.length, h.others⟩, rfl⟩

theorem Agree.performAll (h : Agree k w v) (ops : List Operation) :
    Agree k (w.performAll ops) (v.performAll (ops.filterMap (Operation.without k))) ∧
      elsewhere k (w.transcript ops) =
        (v.transcript (ops.filterMap (Operation.without k))).map unnumber := by
  induction ops generalizing w v with
  | nil => exact ⟨h, rfl⟩
  | cons op ops ih =>
    have hop := h.perform op
    rw [List.filterMap_cons]
    cases he : op.without k with
    | none =>
      rw [he] at hop
      obtain ⟨hagree, hrest⟩ := ih hop.1
      refine ⟨hagree, ?_⟩
      rw [transcript, elsewhere_append, hop.2, List.nil_append]
      exact hrest
    | some op' =>
      rw [he] at hop
      obtain ⟨hagree, hrest⟩ := ih hop.1
      refine ⟨hagree, ?_⟩
      rw [transcript, elsewhere_append, hop.2, hrest, transcript, List.map_append]

end Workspace

end ClassModel
