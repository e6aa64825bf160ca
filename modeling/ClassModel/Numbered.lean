namespace ClassModel

structure Numbered (α : Type) where
  items : List α
  deriving Repr

namespace Numbered

variable {α : Type}

def empty : Numbered α := ⟨[]⟩

def size (s : Numbered α) : Nat := s.items.length

def isEmpty (s : Numbered α) : Bool := s.items.isEmpty

/-- The number that the next item will get. Numbers start over behind the last one. -/
def next (s : Numbered α) : UInt32 := .ofNat s.size

def add (s : Numbered α) (a : α) : UInt32 × Numbered α :=
  (s.next, ⟨s.items ++ [a]⟩)

def get? (s : Numbered α) (i : UInt32) : Option α := s.items[i.toNat]?

def modify (s : Numbered α) (i : UInt32) (f : α → α) : Numbered α := ⟨s.items.modify i.toNat f⟩

theorem next_eq {s : Numbered α} {i : UInt32} (h : i.toNat = s.size) : s.next = i := by
  rw [next, ← h, UInt32.ofNat_toNat]

theorem toNat_next {s : Numbered α} (h : s.size < UInt32.size) : s.next.toNat = s.size :=
  UInt32.toNat_ofNat_of_lt' h

theorem get?_add (s : Numbered α) (a : α) (i : UInt32) :
    (s.add a).2.get? i = if i.toNat = s.size then some a else s.get? i := by
  unfold add get? size
  split
  · next h => simp [h]
  · next h => grind

theorem get?_modify (s : Numbered α) (i j : UInt32) (f : α → α) :
    (s.modify i f).get? j = if i = j then (s.get? j).map f else s.get? j := by
  simp only [modify, get?, List.getElem?_modify, UInt32.toNat_inj]
  split <;> simp

theorem modify_eq_self {s : Numbered α} {i : UInt32} {a : α} {f : α → α} (h : s.get? i = some a)
    (hf : f a = a) : s.modify i f = s := by
  have hitems : s.items.modify i.toNat f = s.items := by
    refine List.ext_getElem? fun j ↦ ?_
    rw [List.getElem?_modify]
    split
    · next hj =>
      rw [← hj]
      exact (congrArg (Option.map f) h).trans ((congrArg some hf).trans h.symm)
    · exact Option.map_id' ..
  exact congrArg Numbered.mk hitems

theorem map_items_modify {β : Type} (s : Numbered α) (i : UInt32) {f : α → α} {g : α → β}
    (h : ∀ a, g (f a) = g a) : (s.modify i f).items.map g = s.items.map g := by
  refine List.ext_getElem? fun j ↦ ?_
  rw [modify, List.getElem?_map, List.getElem?_map, List.getElem?_modify]
  cases s.items[j]? with
  | none => rfl
  | some a =>
    simp only [Option.map_eq_map, Option.map_some]
    split
    · rw [h]
    · rfl

theorem size_add (s : Numbered α) (a : α) : (s.add a).2.size = s.size + 1 :=
  List.length_append

theorem size_modify (s : Numbered α) (i : UInt32) (f : α → α) : (s.modify i f).size = s.size :=
  List.length_modify ..

theorem lt_size_of_get? {s : Numbered α} {i : UInt32} {a : α} (h : s.get? i = some a) :
    i.toNat < s.size :=
  (List.getElem?_eq_some_iff.1 h).1

theorem exists_get? {s : Numbered α} {i : UInt32} (h : i.toNat < s.size) : ∃ a, s.get? i = some a :=
  ⟨_, List.getElem?_eq_getElem h⟩

theorem exists_get?_of_mem {s : Numbered α} {a : α} (h : s.size ≤ UInt32.size)
    (ha : a ∈ s.items) : ∃ i, s.get? i = some a := by
  obtain ⟨k, hk, rfl⟩ := List.getElem_of_mem ha
  refine ⟨.ofNat k, ?_⟩
  rw [get?, UInt32.toNat_ofNat_of_lt' (Nat.lt_of_lt_of_le hk h), List.getElem?_eq_getElem hk]

theorem mem_of_get? {s : Numbered α} {i : UInt32} {a : α} (h : s.get? i = some a) : a ∈ s.items :=
  List.mem_of_getElem? h

theorem get?_eq_none {s : Numbered α} {i : UInt32} (h : s.size ≤ i.toNat) : s.get? i = none :=
  List.getElem?_eq_none h

end Numbered

end ClassModel
