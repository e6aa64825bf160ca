import ClassModel.Proofs.Cache.Run
import ClassModel.Proofs.Session.Hosts
import ClassModel.Proofs.Session.Marks
import ClassModel.Session

namespace ClassModel

variable {σ : Type} {I : Interner σ} (met : Context → String → List String) {t u : σ}

namespace Interner

theorem Stands.some {α : Type} [Renames α] {a : α} {o : Option α} (h : I.Stands t (some a) o)
    (ht : I.exhausted t = false) : ∃ b, o = Option.some b ∧ I.Stands t a b := by
  have hhere := h t (.refl t) ht
  cases o with
  | none => cases hhere
  | some b => exact ⟨b, rfl, fun u hg hu ↦ Option.some.inj (h u hg hu)⟩

theorem Stands.none {α : Type} [Renames α] {o : Option α} (h : I.Stands t Option.none o)
    (ht : I.exhausted t = false) : o = Option.none := by
  have hhere := h t (.refl t) ht
  cases o with
  | none => rfl
  | some b => cases hhere

variable (hI : I.Lawful)

include hI

theorem grows_read {α : Type} [Named α] (t : σ) (ctx : Context) (text : String) (a : α) :
    I.Grows t (I.read met t ctx text a).2 :=
  (grows_internAll hI t (met ctx text)).trans (grows_encode hI _ a)

theorem stands_read {α : Type} [Named α] (t : σ) (ctx : Context) (text : String) (a : α) :
    I.Stands (I.read met t ctx text a).2 (I.read met t ctx text a).1 a :=
  stands_encode hI _ a

theorem grows_create (t : σ) (c : ClassRef) (text : String) :
    I.Grows t (I.create met t c text).2 :=
  grows_read met hI t _ text _

theorem stands_create {c c' : ClassRef} (h : I.Stands t c c') (text : String) :
    I.Stands (I.create met t c text).2 (I.create met t c text).1 (c'.create text) := by
  refine .of_enough fun hx ↦ ?_
  have ht := (grows_create met hI t c text hx).1
  have hread := stands_read met hI t c'.context text (c'.create text)
  rwa [create, h.rename_text ht]

theorem grows_record (t : σ) (c : ClassRef) (es : List Event) :
    I.Grows t (I.record met t c es) := by
  induction es generalizing t with
  | nil => exact .refl t
  | cons e es ih =>
    cases e with
    | create text => exact (grows_create met hI t c text).trans (ih _)
    | _ => exact ih t

end Interner

theorem Workspace.record_rename (f : String → String) (w : Workspace) (es : List Event) :
    (rename f w).record (rename f es) = rename f (w.record es) := by
  induction es generalizing w with
  | nil => rfl
  | cons e es ih =>
    cases e with
    | report r => exact ih { w with log := w.log.emit r }
    | create text => exact ih { w with made := w.made + 1 }
    | _ => exact ih w

theorem Workspace.set_record_rename {f : String → String} (w : Workspace) (i : Nat)
    (o : OpenCache) (c : ClassCache) (es : List Event) :
    ({ rename f w with
        caches := (rename f w).caches.set i { rename f o with cache := rename f c } } :
          Workspace).record (rename f es) =
      rename f (({ w with caches := w.caches.set i { o with cache := c } } : Workspace).record
        es) := by
  rw [← record_rename]
  exact congrArg (·.record (rename f es)) (w.setCache_rename i { o with cache := c })

theorem Creation.map_rename {M N : Type} [Renames M] [Renames N] {f : String → String}
    (g : M → N) (h : ∀ a, g (rename f a) = rename f (g a)) (c : Creation M) :
    (rename f c).map g = rename f (c.map g) := by
  obtain ⟨result, reports⟩ := c
  cases result with
  | error e => rfl
  | ok a => exact congrArg (fun b ↦ Creation.mk (.ok b) reports) (h a)

theorem Cache.owner_ask {F M I : Type} [Member F] [MethodMember M] [Member I] (c : Cache F M I)
    (m : Moment F M I) (q : Query) : (c.ask m q).2.1.owner = c.owner :=
  congrArg Prod.fst (c.frame_ask m q)

namespace Session

open Interner

/-- Whether a session is a workspace with identifiers in place of names. -/
def Shows (I : Interner σ) (s : Session σ) (w : Workspace) : Prop :=
  I.Stands s.names s.workspace w

variable (hI : I.Lawful) {s : Session σ} {w : Workspace}

include hI

theorem Shows.cache (h : s.Shows I w) (i : Nat) :
    I.Stands s.names s.workspace.caches[i]? w.caches[i]? :=
  h.natural hI (fun w : Workspace ↦ w.caches[i]?) fun _ _ w ↦ w.cache_rename i

theorem create_moment (h : s.Shows I w) {o o' : OpenCache} (ho : I.Stands s.names o o')
    (text : String) :
    I.Stands (I.create met s.names o.owner text).2 ((s.moment I met o).create text)
      ((w.moment o').create text) := by
  refine .of_enough fun hx ↦ ?_
  have hs := (grows_create met hI s.names o.owner text hx).1
  have howner : I.Stands s.names o.owner o'.owner :=
    ho.natural hI OpenCache.owner fun _ _ _ ↦ rfl
  have hmade : (rename (I.text s.names) s.workspace).made = w.made :=
    congrArg Workspace.made (h.rename_text hs)
  change s.workspace.made = w.made at hmade
  have hcreate := stands_create met hI howner text
  change I.Stands _ ((I.create met s.names o.owner text).1.map fun m ↦
    (⟨.made s.workspace.made, m⟩ : Handle Method)) _
  rw [hmade]
  exact hcreate.natural hI (Creation.map fun m ↦ (⟨.made w.made, m⟩ : Handle Method))
    fun _ _ c ↦ Creation.map_rename (fun m ↦ (⟨.made w.made, m⟩ : Handle Method)) (fun _ ↦ rfl) c

/-- A cache with identifiers in it answers and keeps what one with names does. -/
theorem ask_stands (h : s.Shows I w) {o o' : OpenCache} (ho : I.Stands s.names o o')
    {q q' : Query} (hq : I.Stands s.names q q') :
    let r := s.ask I met o q
    I.Stands (I.record met s.names o.owner r.2.2) r (o'.cache.ask (w.moment o') q') := by
  intro r u hg hu
  have hgrows : I.Grows s.names u := (grows_record met hI _ _ _).trans hg
  have hs := (hgrows hu).1
  have hhost := h u hgrows hu
  have hcache := ho u hgrows hu
  have howner : rename (I.text s.names) o.cache.owner = o'.cache.owner :=
    congrArg (·.cache.owner) (ho.rename_text hs)
  let c : ClassCache := { o.cache with owner := rename (I.text s.names) o.cache.owner }
  -- Both caches are compared with one in which all names are marked.
  let m : ClassMoment := { (rename marked w).moment (rename marked o') with
    create := fun text ↦ rename marked ((w.moment o').create text) }
  have hnames : (w.moment o').Renamed marked m :=
    { w.moment_renamed marked_injective o' with }
  have hkeys : (s.moment I met o).Renamed (I.mark u) m := by
    have hmoment := s.workspace.moment_renamed (mark_injective hI u) o
    rw [hhost, hcache] at hmoment
    exact { hmoment with }
  have hcreate (text : String) (es : List Event)
      (hes : (c.ask (s.moment I met o) q).2.2 = .create text :: es) :
      m.create text = rename (I.mark u) ((s.moment I met o).create text) := by
    have hrecord : I.Grows (I.create met s.names o.owner text).2
        (I.record met s.names o.owner r.2.2) := by
      have hes' : r.2.2 = .create text :: es := hes
      rw [hes']
      exact grows_record met hI _ _ es
    exact (create_moment met hI h ho text u (hrecord.trans hg) hu).symm
  have hkept : c.renameKept (I.mark u) = o'.cache.renameKept marked := by
    have hall := congrArg OpenCache.cache hcache
    change ({ rename (I.mark u) o.cache with
      owner := rename (I.text s.names) o.cache.owner } : ClassCache) = _
    rw [howner]
    exact congrArg (fun k : ClassCache ↦ { k with owner := o'.cache.owner }) hall
  have hask := c.ask_rename hkeys (mark_injective hI u) q hcreate
  rw [hkept, hq u hgrows hu,
    o'.cache.ask_rename hnames marked_injective q' fun _ _ _ ↦ rfl] at hask
  obtain ⟨hanswer, hrest⟩ := Prod.mk.inj hask
  obtain ⟨hcaches, hevents⟩ := Prod.mk.inj hrest
  refine Prod.ext hanswer.symm (Prod.ext ?_ hevents.symm)
  have hkeep := (o'.cache.owner_ask (w.moment o') q').symm
  have howners : rename (I.mark u) o.cache.owner = rename marked o'.cache.owner :=
    congrArg (·.cache.owner) hcache
  rw [hkeep] at howners
  change ({ (c.ask (s.moment I met o) q).2.1.renameKept (I.mark u) with
    owner := rename (I.mark u) o.cache.owner } : ClassCache) =
      { (o'.cache.ask (w.moment o') q').2.1.renameKept marked with
        owner := rename marked (o'.cache.ask (w.moment o') q').2.1.owner }
  rw [hcaches, howners]

theorem grows_request (s : Session σ) (i : Nat) (r : Request) :
    I.Grows s.names (s.request I met i r).2.names := by
  cases r with
  | query q =>
    unfold request
    cases s.workspace.caches[i]? with
    | none => exact .refl _
    | some o => exact (grows_encode hI s.names q).trans (grows_record met hI _ _ _)
  | drop | owner => exact .refl _

theorem request_stands (h : s.Shows I w) (i : Nat) (r : Request) :
    I.Stands (s.request I met i r).2.names
      ((s.request I met i r).1, (s.request I met i r).2.workspace) (w.request i r) := by
  refine .of_enough fun hx ↦ ?_
  cases r with
  | query q =>
    have hs : I.exhausted s.names = false := (grows_request met hI s i (.query q) hx).1
    have hcache := h.cache hI i
    unfold request at hx ⊢
    cases ho : s.workspace.caches[i]? with
    | none =>
      rw [ho] at hcache
      rw [Workspace.request, hcache.none hs]
      exact h.natural hI (fun w ↦ ((none : Option Response), w)) fun _ _ _ ↦ rfl
    | some o =>
      rw [ho] at hcache hx
      obtain ⟨o', ho', hstands⟩ := hcache.some hs
      let s' : Session σ := ⟨s.workspace, (I.encode s.names q).2⟩
      let asked := s'.ask I met o (I.encode s.names q).1
      have hencode : I.Grows s.names s'.names := grows_encode hI s.names q
      have hrecord : I.Grows s'.names (I.record met s'.names o.owner asked.2.2) :=
        grows_record met hI s'.names o.owner asked.2.2
      have hboth := h.prod hstands
      have hshows : s'.Shows I w := h.mono hencode
      have hask := ask_stands met hI hshows (hstands.mono hencode)
        (stands_encode hI s.names q)
      rw [Workspace.request, ho']
      refine ((hboth.mono (hencode.trans hrecord)).prod hask).natural hI
        (fun x ↦ (some (Response.answer x.2.1), ({ x.1.1 with
          caches := x.1.1.caches.set i { x.1.2 with cache := x.2.2.1 } } : Workspace).record
            x.2.2.2)) fun f _ x ↦ ?_
      exact congrArg ((some (Response.answer (rename f x.2.1)), ·))
        (x.1.1.set_record_rename i x.1.2 x.2.2.1 x.2.2.2)
  | drop => exact h.natural hI (fun w ↦ w.request i .drop) fun _ _ w ↦ w.request_rename i nofun
  | owner => exact h.natural hI (fun w ↦ w.request i .owner) fun _ _ w ↦ w.request_rename i nofun

end Session

end ClassModel
