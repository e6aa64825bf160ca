import ClassModel.Proofs.Cache.EnumMethod
import ClassModel.Proofs.Checked.Safety
import ClassModel.Proofs.Reading.Template
import ClassModel.Proofs.Workspace.Modification

namespace ClassModel

namespace Workspace

/-- What can become of caches: what is true of new caches and stays true when a cache is asked, is
dropped or is told other members, is true of all caches at all times. -/
structure Lasting (P : OpenCache → Prop) : Prop where
  new : ∀ table resolver c augments settings,
    P ⟨table, resolver, c, augments, .new c.owner settings⟩
  ask : ∀ (w : Workspace) o q, P o → P { o with cache := (o.cache.ask (w.moment o) q).2.1 }
  drop : ∀ o, P o → P { o with cache := o.cache.drop }
  augment : ∀ o augments, P o → P { o with augments }

variable {P : OpenCache → Prop} {w : Workspace}

theorem Lasting.request (hP : Lasting P) (h : ∀ o ∈ w.caches, P o) (i : Nat) (r : Request) :
    ∀ o ∈ (w.request i r).2.caches, P o := by
  unfold Workspace.request
  cases ho : w.caches[i]? with
  | none => exact h
  | some o =>
    have hmem := h o (List.mem_of_getElem? ho)
    cases r with
    | query q =>
      dsimp only
      rw [caches_record]
      intro o' ho'
      rcases List.mem_or_eq_of_mem_set ho' with ho' | rfl
      · exact h o' ho'
      · exact hP.ask w o q hmem
    | drop =>
      intro o' ho'
      rcases List.mem_or_eq_of_mem_set ho' with ho' | rfl
      · exact h o' ho'
      · exact hP.drop o hmem
    | owner => exact h

theorem Lasting.command (hP : Lasting P) (h : ∀ o ∈ w.caches, P o) (i : Nat) (keepGoing : Bool)
    (actions : List Action) : ∀ o ∈ (w.command i keepGoing actions).2.caches, P o := by
  have hact : ∀ a ∈ actions, ∀ s : Workspace × Bool, (∀ o ∈ s.1.caches, P o) →
      ∀ o ∈ (act i s a).2.1.caches, P o := by
    intro a _ s hs
    cases a with
    | step k => exact hs
    | request cache r => exact hP.request hs cache r
    | count => exact hs
  exact carryOut_preserves keepGoing hact h

theorem Lasting.perform (hP : Lasting P) (h : ∀ o ∈ w.caches, P o) (op : Operation) :
    ∀ o ∈ (w.perform op).caches, P o := by
  cases op with
  | command i keepGoing actions => exact hP.command h i keepGoing actions
  | addTable => exact h
  | openCache i id resolver settings augments =>
    dsimp only [Workspace.perform]
    unfold openCache
    cases (w.table i).require id with
    | error e => exact h
    | ok c =>
      intro o ho
      rcases List.mem_append.1 ho with ho | ho
      · exact h o ho
      · obtain rfl := List.mem_singleton.1 ho
        exact hP.new ..
  | augment i j fields methods inner =>
    dsimp only [Workspace.perform]
    unfold Workspace.augment
    cases ho : w.caches[i]? with
    | none => exact h
    | some o =>
      intro o' ho'
      rcases List.mem_or_eq_of_mem_set ho' with ho' | rfl
      · exact h o' ho'
      · exact hP.augment o _ (h o (List.mem_of_getElem? ho))
  | request i r => exact hP.request h i r
  | create i id text =>
    intro o ho
    have ho : o ∈ (w.create i id text).2.caches := ho
    rw [caches_create] at ho
    exact h o ho
  | takeReports => exact h

theorem Lasting.performAll (hP : Lasting P) (h : ∀ o ∈ w.caches, P o) (ops : List Operation) :
    ∀ o ∈ (w.performAll ops).caches, P o := by
  induction ops generalizing w with
  | nil => exact h
  | cons op ops ih => exact ih (hP.perform h op)

end Workspace

/-- Whether a cache is over its class, and the methods that it keeps of those made from templates
are what the templates give. -/
structure OpenCache.Templated (o : OpenCache) : Prop where
  owner : o.cache.owner = o.owner.owner
  cells : ∀ which, (o.cache.enumCell which).Holds fun _ s ↦
    s.anchor = o.owner.header.span ∧ ∃ name, o.owner.header.name = some name ∧
      (o.owner.create (which.text name)).result = .ok s.method.decl

theorem ClassRef.create_text {c : ClassRef} {name : String} (hk : c.header.kind = .enumeration)
    (hn : c.header.name = some name) (hi : IsIdentifier name) (which : EnumMethod) :
    c.create (which.text name) = ⟨.ok (which.method name c.header.span), []⟩ := by
  obtain ⟨place, hread⟩ := readMethod_text c.header.span.file c.header.span hi which
  have hctx : c.context = ⟨some name, .enumeration⟩ := by rw [context, hn, hk]
  rw [create, hctx, hread]
  cases which <;> rfl

theorem Creation.result_map_eq_ok {M N : Type} {f : M → N} {c : Creation M} {b : N} :
    (c.map f).result = .ok b ↔ ∃ a, c.result = .ok a ∧ f a = b := by
  unfold Creation.map
  cases c.result <;> simp [Except.map]

/-- A query that succeeds, and does nothing that is seen outside of the cache. -/
theorem OpenCache.Templated.enumMethod {w : Workspace} {o : OpenCache} {name : String}
    (h : o.Templated) (hk : o.owner.header.kind = .enumeration)
    (hn : o.owner.header.name = some name) (hi : IsIdentifier name)
    (hs : o.cache.settings.synthesizeEnumMethods = true) (which : EnumMethod) :
    ∃ tag cell es, o.cache.enumMethod (w.moment o) which =
      (.ok (some ⟨⟨tag, which.method name o.owner.header.span⟩, o.owner.header.span⟩),
        o.cache.setEnumCell cell which, es) ∧ ∀ e ∈ es, ∃ text, e = .create text := by
  have hname : o.cache.enumName? = some name := by
    rw [Cache.enumName?_eq_some, h.owner]
    exact ⟨hs, by simp [ClassRef.owner, hk], hn⟩
  have hmade := ClassRef.create_text hk hn hi which
  have hcreate : (w.moment o).create (which.text name) =
      ⟨.ok ⟨.made w.made, which.method name o.owner.header.span⟩, []⟩ :=
    congrArg (Creation.map _) hmade
  rcases o.cache.enumMethod_cases (w.moment o) which hname with
    ⟨⟨⟨tag, d⟩, anchor⟩, hc, he⟩ | ⟨a, hr, he⟩ | ⟨e, hr, he⟩
  · obtain ⟨hanchor, name', hn', hd⟩ := h.cells which _ _ hc
    obtain rfl := Option.some.inj (hn.symm.trans hn')
    rw [hmade] at hd
    obtain rfl := Except.ok.inj hd
    obtain rfl : anchor = _ := hanchor
    exact ⟨tag, o.cache.enumCell which, [], by rw [he, Cache.setEnumCell_self], nofun⟩
  · rw [hcreate] at hr he
    obtain rfl := Except.ok.inj hr
    rw [h.owner] at he
    exact ⟨_, _, _, he, by simp⟩
  · rw [hcreate] at hr
    cases hr

namespace Workspace

theorem lasting_templated : Lasting OpenCache.Templated where
  new table resolver c augments settings := by
    refine ⟨rfl, fun which ↦ ?_⟩
    cases which <;> exact Cell.holds_empty _
  ask w o q h := by
    have hframe := congrArg Prod.fst (o.cache.frame_ask (w.moment o) q)
    refine ⟨hframe.trans h.owner, Cache.holds_ask h.cells (fun which name a hname ha ↦ ?_) q⟩
    obtain ⟨-, -, hname⟩ := Cache.enumName?_eq_some.1 hname
    obtain ⟨m, hm, rfl⟩ := Creation.result_map_eq_ok.1 ha
    rw [h.owner] at hname ⊢
    exact ⟨rfl, name, hname, hm⟩
  drop o h := ⟨h.owner, fun which ↦ by cases which <;> exact h.cells _⟩
  augment o augments h := ⟨h.owner, h.cells⟩

theorem log_record {w : Workspace} {es : List Event} (h : ∀ e ∈ es, ∃ text, e = .create text) :
    (w.record es).log = w.log := by
  have hnone : es.filterMap Event.report? = [] := by
    refine List.filterMap_eq_nil_iff.2 fun e he ↦ ?_
    obtain ⟨text, rfl⟩ := h e he
    rfl
  rw [log_record_eq, hnone]
  rfl

/-- In every state the methods that an enum need not declare are there, with the signatures that
their templates announce, as long as the places in a template can be told by 32 bits. A template is
then read as it is when all its text is taken out by places. Asking for the methods changes nothing
else that is kept and reports nothing. -/
theorem request_enumMethod {ops : List Operation} {i : Nat} {o : OpenCache} {name : String}
    (ho : (start.performAll ops).caches[i]? = some o)
    (hk : o.owner.header.kind = .enumeration) (hn : o.owner.header.name = some name)
    (hi : IsIdentifier name) (hs : o.cache.settings.synthesizeEnumMethods = true)
    (which : EnumMethod) (hsize : byteSize (which.text name).toList < UInt32.size) :
    let w := start.performAll ops
    let r := w.request i (.query (.enumMethod which))
    (∃ m : Synthetic (Handle Method), r.1 = some (.answer (.enumMethod (.ok (some m)))) ∧
      m.method.decl.signature = which.signature name ∧ m.method.decl.origin = .synthetic ∧
      MethodMember.isConstructor m = false ∧ MethodMember.isConstructor m.method = false ∧
      Member.isExternal m = false ∧ Member.isExternal m.method = false ∧
      Member.span m = o.owner.header.span ∧ Member.span m.method = o.owner.header.span ∧
      ∃ d, Checked.readMethod o.owner.header.span.file o.owner.context (which.text name) =
          .ok ⟨.ok d, []⟩ ∧
        m.method.decl = { d with origin := .synthetic, span := o.owner.header.span }) ∧
    r.2.tables = w.tables ∧ r.2.log = w.log ∧
    ∃ cell, r.2.caches = w.caches.set i { o with cache := o.cache.setEnumCell cell which } := by
  intro w r
  have ho : w.caches[i]? = some o := ho
  have htemplated : o.Templated :=
    lasting_templated.performAll (fun _ h ↦ by cases h) ops o (List.mem_of_getElem? ho)
  obtain ⟨tag, cell, es, he, hes⟩ := htemplated.enumMethod (w := w) hk hn hi hs which
  let m : Synthetic (Handle Method) :=
    ⟨⟨tag, which.method name o.owner.header.span⟩, o.owner.header.span⟩
  let caches := w.caches.set i { o with cache := o.cache.setEnumCell cell which }
  have hr : r = (some (.answer (.enumMethod (.ok (some m)))), { w with caches }.record es) := by
    simp [r, m, caches, request, ho, Cache.ask, he]
  obtain ⟨place, hread⟩ := readMethod_text o.owner.header.span.file o.owner.header.span hi which
  have hchecked := Checked.readMethod_eq o.owner.header.span.file ⟨some name, .enumeration⟩ hsize
  have hctx : o.owner.context = ⟨some name, .enumeration⟩ := by rw [ClassRef.context, hn, hk]
  rw [hread, ← hctx] at hchecked
  refine ⟨⟨m, congrArg Prod.fst hr, EnumMethod.signature_method, ?_⟩, ?_, ?_, cell, ?_⟩
  · cases which <;> exact ⟨rfl, rfl, rfl, rfl, rfl, rfl, rfl, _, hchecked, rfl⟩
  · rw [hr, tables_record]
  · rw [hr]
    exact log_record hes
  · rw [hr, caches_record]

/-- An enum that is called as one of its methods. -/
theorem valueOf_of_enum_values :
    let span : Span := ⟨3, 10, 20⟩
    let c : ClassRef := ⟨.declared 0, 0, ⟨some "values", .enumeration, none, span, .source⟩⟩
    let o : OpenCache := ⟨0, 0, c, none, .new c.owner {}⟩
    let ops : List Operation :=
      [.command 0 false [.step (.edit (.addClass c.header))], .openCache 0 0 0 {} none]
    (start.performAll ops).caches[0]? = some o ∧ c.header.kind = .enumeration ∧
      c.header.name = some "values" ∧ IsIdentifier "values" ∧
      o.cache.settings.synthesizeEnumMethods = true ∧
      byteSize (EnumMethod.valueOf.text "values").toList < UInt32.size ∧
      ∃ m : Synthetic (Handle Method),
        ((start.performAll ops).request 0 (.query (.enumMethod .valueOf))).1 =
          some (.answer (.enumMethod (.ok (some m)))) ∧
        m.method.decl.signature = "public static values valueOf(java.lang.String name) " ++
          "throws java.lang.IllegalArgumentException" ∧ Member.span m = span := by
  intro span c o ops
  have ho : (start.performAll ops).caches[0]? = some o := rfl
  have hs : o.cache.settings.synthesizeEnumMethods = true := rfl
  have hi : IsIdentifier "values" := by decide
  have hsize : byteSize (EnumMethod.valueOf.text "values").toList < UInt32.size := by decide
  obtain ⟨⟨m, hm, hsig, -, -, -, -, -, hspan, -⟩, -⟩ :=
    request_enumMethod ho rfl rfl hi hs .valueOf hsize
  exact ⟨ho, rfl, rfl, hi, hs, hsize, m, hm, hsig, hspan⟩

end Workspace

end ClassModel
