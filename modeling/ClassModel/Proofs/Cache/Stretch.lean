import ClassModel.Proofs.Cache.Transparency

namespace ClassModel

variable {F M I : Type}

/-- A stamp is no later than another one if neither counter has gone back in between. -/
instance : LE Stamp := ⟨fun s t ↦ s.outer ≤ t.outer ∧ s.inner ≤ t.inner⟩

namespace Stamp

variable {s t u : Stamp}

theorem le_refl (s : Stamp) : s ≤ s := ⟨UInt64.le_refl _, UInt64.le_refl _⟩

theorem le_of_eq (h : s = t) : s ≤ t := h ▸ le_refl s

theorem le_trans (h : s ≤ t) (h' : t ≤ u) : s ≤ u :=
  ⟨UInt64.le_trans h.1 h'.1, UInt64.le_trans h.2 h'.2⟩

theorem le_antisymm (h : s ≤ t) (h' : t ≤ s) : s = t := by
  have ho := UInt64.le_antisymm h.1 h'.1
  have hi := UInt64.le_antisymm h.2 h'.2
  cases s
  cases t
  simp_all

end Stamp

def Moment.bare (count : UInt64) (own augments : Members F M I) : Moment F M I :=
  ⟨count, own, augments, fun _ ↦ ⟨.error ⟨"none"⟩, []⟩, fun _ ↦ none, fun _ ↦ [], fun _ ↦ none⟩

/-- Whether the count never decreases in a run that starts at the moment `m`. -/
def Ascends (m : Moment F M I) : List (Turn F M I) → Prop
  | [] => True
  | .move m' :: ts => m.count ≤ m'.count ∧ Ascends m' ts
  | .drop :: ts | .ask _ :: ts => Ascends m ts

namespace Hosted

def stamp (h : Hosted F M I) : Stamp := h.cache.stamp h.moment

variable [Member F] [MethodMember M] [Member I]

def after (h : Hosted F M I) (ts : List (Turn F M I)) : Hosted F M I := ts.foldl turn h

def Steady (h : Hosted F M I) : List (Turn F M I) → Prop
  | [] => True
  | t :: ts => (h.turn t).stamp = h.stamp ∧ (h.turn t).Steady ts

variable {h : Hosted F M I} {t : Turn F M I} {ts us : List (Turn F M I)}

theorem after_append (h : Hosted F M I) (ts us : List (Turn F M I)) :
    h.after (ts ++ us) = (h.after ts).after us :=
  List.foldl_append ..

theorem after_concat (h : Hosted F M I) (ts : List (Turn F M I)) (t : Turn F M I) :
    h.after (ts ++ [t]) = (h.after ts).turn t :=
  h.after_append ts [t]

theorem owner_after (h : Hosted F M I) (ts : List (Turn F M I)) :
    (h.after ts).cache.owner = h.cache.owner := by
  induction ts generalizing h with
  | nil => rfl
  | cons t ts ih => exact (ih _).trans (h.owner_turn t)

theorem settings_after (h : Hosted F M I) (ts : List (Turn F M I)) :
    (h.after ts).cache.settings = h.cache.settings := by
  induction ts generalizing h with
  | nil => rfl
  | cons t ts ih => exact (ih _).trans (h.settings_turn t)

theorem stamp_ask (h : Hosted F M I) (q : Query) : (h.turn (.ask q)).stamp = h.stamp := by
  unfold stamp Cache.stamp
  rw [turn, Cache.drops_ask]

theorem steady_ask (q : Query) : h.Steady (.ask q :: ts) ↔ (h.turn (.ask q)).Steady ts :=
  and_iff_right (h.stamp_ask q)

theorem steady_move (m : Moment F M I) :
    h.Steady (.move m :: ts) ↔ m.count = h.moment.count ∧ (h.turn (.move m)).Steady ts := by
  simp [Steady, stamp, Cache.stamp, turn]

theorem stamp_after (hs : h.Steady ts) : (h.after ts).stamp = h.stamp := by
  induction ts generalizing h with
  | nil => rfl
  | cons t ts ih => exact (ih hs.2).trans hs.1

theorem steady_append : h.Steady (ts ++ us) ↔ h.Steady ts ∧ (h.after ts).Steady us := by
  induction ts generalizing h with
  | nil => exact (and_iff_right trivial).symm
  | cons t ts ih =>
    rw [List.cons_append, Steady, ih, Steady, and_assoc]
    rfl

theorem ascends_cons :
    Ascends h.moment (t :: ts) ↔
      h.moment.count ≤ (h.turn t).moment.count ∧ Ascends (h.turn t).moment ts := by
  cases t with
  | move m => exact Iff.rfl
  | drop | ask q => exact (and_iff_right (UInt64.le_refl _)).symm

theorem ascends_append :
    Ascends h.moment (ts ++ us) ↔ Ascends h.moment ts ∧ Ascends (h.after ts).moment us := by
  induction ts generalizing h with
  | nil => exact (and_iff_right trivial).symm
  | cons t ts ih =>
    rw [List.cons_append, ascends_cons, ascends_cons, ih, and_assoc]
    rfl

theorem toNat_drops_turn
    (hd : h.cache.drops.count.toNat + (if t.isDrop then 1 else 0) < UInt64.size) :
    (h.turn t).cache.drops.count.toNat =
      h.cache.drops.count.toNat + if t.isDrop then 1 else 0 := by
  cases t with
  | move m => rfl
  | drop => exact Counter.toNat_increment hd
  | ask q => exact congrArg (fun d ↦ d.count.toNat) (h.cache.drops_ask h.moment q)

theorem toNat_drops_after
    (hd : h.cache.drops.count.toNat + ts.countP Turn.isDrop < UInt64.size) :
    (h.after ts).cache.drops.count.toNat =
      h.cache.drops.count.toNat + ts.countP Turn.isDrop := by
  induction ts generalizing h with
  | nil => rfl
  | cons t ts ih =>
    rw [List.countP_cons] at hd ⊢
    have hd' : h.cache.drops.count.toNat + (if t.isDrop then 1 else 0) < UInt64.size := by omega
    have ht := toNat_drops_turn hd'
    have ha : (h.after (t :: ts)).cache.drops.count.toNat = _ := ih (h := h.turn t) (by omega)
    omega

theorem stamp_le_turn (ha : h.moment.count ≤ (h.turn t).moment.count)
    (hd : h.cache.drops.count.toNat + (if t.isDrop then 1 else 0) < UInt64.size) :
    h.stamp ≤ (h.turn t).stamp := by
  refine ⟨ha, ?_⟩
  change h.cache.drops.count ≤ (h.turn t).cache.drops.count
  rw [UInt64.le_iff_toNat_le, toNat_drops_turn hd]
  omega

/-- What every turn keeps that takes no counter back, is kept by a run in which the count never
decreases and the drops are not too many to be counted. -/
theorem after_induction {P : Hosted F M I → Prop}
    (hstep : ∀ h t, P h → h.stamp ≤ (h.turn t).stamp → P (h.turn t)) (hp : P h)
    (ha : Ascends h.moment ts)
    (hd : h.cache.drops.count.toNat + ts.countP Turn.isDrop < UInt64.size) : P (h.after ts) := by
  induction ts generalizing h with
  | nil => exact hp
  | cons t ts ih =>
    rw [List.countP_cons] at hd
    have hd' : h.cache.drops.count.toNat + (if t.isDrop then 1 else 0) < UInt64.size := by omega
    have ht := toNat_drops_turn hd'
    obtain ⟨hcount, ha'⟩ := ascends_cons.1 ha
    exact ih (hstep h t hp (stamp_le_turn hcount hd')) ha' (by omega)

end Hosted

end ClassModel
