namespace ClassModel

inductive Modifier
  | pub
  | prot
  | priv
  | abstract
  | default
  | static
  | final
  | synchronized
  | native
  deriving DecidableEq, Repr

namespace Modifier

def all : List Modifier :=
  [pub, prot, priv, abstract, default, static, final, synchronized, native]

theorem mem_all (m : Modifier) : m ∈ all := by
  cases m <;> decide

def keyword : Modifier → String
  | pub => "public"
  | prot => "protected"
  | priv => "private"
  | abstract => "abstract"
  | default => "default"
  | static => "static"
  | final => "final"
  | synchronized => "synchronized"
  | native => "native"

def ofKeyword? (s : String) : Option Modifier :=
  all.find? fun m ↦ m.keyword == s

theorem ofKeyword?_keyword (m : Modifier) : ofKeyword? m.keyword = some m := by
  cases m <;> rfl

theorem keyword_of_ofKeyword? {s : String} {m : Modifier} (h : ofKeyword? s = some m) :
    m.keyword = s := by
  simpa using List.find?_some h

end Modifier

@[ext]
structure Modifiers where
  has : Modifier → Bool

namespace Modifiers

def none : Modifiers := ⟨fun _ ↦ false⟩

instance : Inhabited Modifiers := ⟨none⟩

def insert (s : Modifiers) (m : Modifier) : Modifiers := ⟨fun k ↦ k == m || s.has k⟩

def union (s t : Modifiers) : Modifiers := ⟨fun k ↦ s.has k || t.has k⟩

def ofList (ms : List Modifier) : Modifiers := ms.foldl insert none

def toList (s : Modifiers) : List Modifier := Modifier.all.filter s.has

def contains (s t : Modifiers) : Bool := t.toList.all s.has

def isEmpty (s : Modifiers) : Bool := s.toList.isEmpty

def keywords (s : Modifiers) : List String := s.toList.map Modifier.keyword

instance : DecidableEq Modifiers := fun s t ↦
  decidable_of_iff (∀ m ∈ Modifier.all, s.has m = t.has m)
    ⟨fun h ↦ Modifiers.ext (funext fun m ↦ h m m.mem_all), fun h _ _ ↦ h ▸ rfl⟩

theorem mem_toList {s : Modifiers} {m : Modifier} : m ∈ s.toList ↔ s.has m = true := by
  simp [toList, m.mem_all]

theorem has_foldl_insert (ms : List Modifier) (s : Modifiers) (k : Modifier) :
    (ms.foldl insert s).has k = (ms.contains k || s.has k) := by
  induction ms generalizing s with
  | nil => simp
  | cons m ms ih =>
    rw [List.foldl_cons, ih, Bool.eq_iff_iff]
    simp [insert, or_left_comm, or_assoc]

theorem ofList_toList (s : Modifiers) : ofList s.toList = s := by
  ext k
  rw [ofList, has_foldl_insert, Bool.eq_iff_iff]
  simp [none, mem_toList]

end Modifiers

end ClassModel
