import ClassModel.Cache.Basic

namespace ClassModel

variable {F M I : Type}

namespace Cache

def frame (c : Cache F M I) : Owner × Settings × Counter := (c.owner, c.settings, c.drops)

theorem frame_listMethods (c : Cache F M I) (m : Moment F M I) :
    (c.listMethods m).2.1.frame = c.frame := rfl

theorem frame_enumMethod (c : Cache F M I) (m : Moment F M I) (which : EnumMethod) :
    (c.enumMethod m which).2.1.frame = c.frame := by
  unfold enumMethod
  cases c.enumName? with
  | none => rfl
  | some name => cases which <;> rfl

theorem frame_listConstructors [MethodMember M] (c : Cache F M I) (m : Moment F M I) :
    (c.listConstructors m).2.1.frame = c.frame := by
  unfold listConstructors
  cases c.constructors.current (c.stamp m) with
  | some cs => rfl
  | none => exact c.frame_listMethods m

variable [Member F] [MethodMember M] [Member I]

theorem frame_ask (c : Cache F M I) (m : Moment F M I) (q : Query) :
    (c.ask m q).2.1.frame = c.frame := by
  cases q with
  | constructors => exact c.frame_listConstructors m
  | fields | methods | innerTypes => rfl
  | findField n bases | findMethods n bases | findInnerType n bases => cases bases <;> rfl
  | enumMethod which => exact c.frame_enumMethod m which

theorem settings_ask (c : Cache F M I) (m : Moment F M I) (q : Query) :
    (c.ask m q).2.1.settings = c.settings :=
  congrArg (fun f ↦ f.2.1) (c.frame_ask m q)

theorem drops_ask (c : Cache F M I) (m : Moment F M I) (q : Query) :
    (c.ask m q).2.1.drops = c.drops :=
  congrArg (fun f ↦ f.2.2) (c.frame_ask m q)

end Cache

def Event.report? : Event → Option Report
  | .report r => some r
  | _ => none

structure Hosted (F M I : Type) where
  cache : Cache F M I
  moment : Moment F M I

inductive Turn (F M I : Type)
  | move (m : Moment F M I)
  | drop
  | ask (q : Query)

def Turn.isDrop : Turn F M I → Bool
  | .drop => true
  | _ => false

structure Exchange (F M I : Type) where
  moment : Moment F M I
  query : Query
  answer : Answer F M I

variable [Member F] [MethodMember M] [Member I]

namespace Hosted

def turn (h : Hosted F M I) : Turn F M I → Hosted F M I
  | .move m => { h with moment := m }
  | .drop => { h with cache := h.cache.drop }
  | .ask q => { h with cache := (h.cache.ask h.moment q).2.1 }

def exchange? (h : Hosted F M I) : Turn F M I → Option (Exchange F M I)
  | .ask q => some ⟨h.moment, q, (h.cache.ask h.moment q).1⟩
  | _ => none

def transcript (h : Hosted F M I) : List (Turn F M I) → List (Exchange F M I)
  | [] => []
  | t :: ts => (h.exchange? t).toList ++ (h.turn t).transcript ts

theorem owner_turn (h : Hosted F M I) (t : Turn F M I) :
    (h.turn t).cache.owner = h.cache.owner := by
  cases t with
  | move m | drop => rfl
  | ask q => exact congrArg Prod.fst (h.cache.frame_ask h.moment q)

theorem settings_turn (h : Hosted F M I) (t : Turn F M I) :
    (h.turn t).cache.settings = h.cache.settings := by
  cases t with
  | move m => rfl
  | drop => rfl
  | ask q => exact h.cache.settings_ask h.moment q

end Hosted

end ClassModel
