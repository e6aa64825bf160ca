import ClassModel.Naming.Rename

namespace ClassModel

/-- Gives names identifiers. -/
structure Interner (σ : Type) where
  /-- The identifier of a name, a new one if it has none yet. -/
  intern : σ → String → UInt32 × σ
  resolve : σ → UInt32 → Option String
  /-- Whether a name has come for which no identifier was left. -/
  exhausted : σ → Bool

def numeral (i : UInt32) : String := i.toNat.repr

def ofNumeral? (x : String) : Option UInt32 :=
  let i : UInt32 := .ofNat (Nat.ofDigitChars 10 x.toList 0)
  if numeral i = x then some i else none

theorem ofNumeral?_numeral (i : UInt32) : ofNumeral? (numeral i) = some i := by
  have hlist : (numeral i).toList = Nat.toDigits 10 i.toNat := by
    rw [numeral, Nat.repr_eq_ofList_toDigits, String.toList_ofList]
  rw [ofNumeral?, hlist, Nat.ofDigitChars_ten_toDigits, UInt32.ofNat_toNat]
  exact if_pos rfl

theorem numeral_of_ofNumeral? {x : String} {i : UInt32} (h : ofNumeral? x = some i) :
    numeral i = x := by
  simp only [ofNumeral?, Option.ite_none_right_eq_some, Option.some.injEq] at h
  exact h.2 ▸ h.1

namespace Interner

variable {σ α : Type} (I : Interner σ)

/-- The documented behaviour of an interner. Nothing is said of one that is exhausted. -/
structure Lawful : Prop where
  exhausted_intern : ∀ t n, I.exhausted t = true → I.exhausted (I.intern t n).2 = true
  resolve_intern : ∀ t n, I.exhausted (I.intern t n).2 = false →
    I.resolve (I.intern t n).2 (I.intern t n).1 = some n
  resolve_stays : ∀ t n i m, I.resolve t i = some m → I.resolve (I.intern t n).2 i = some m
  intern_known : ∀ t i n, I.resolve t i = some n → I.intern t n = (i, t)

def internAll (t : σ) (ns : List String) : σ := ns.foldl (fun t n ↦ (I.intern t n).2) t

def key (t : σ) (n : String) : String := numeral (I.intern t n).1

def text (t : σ) (x : String) : String := ((ofNumeral? x).bind (I.resolve t)).getD x

def encode [Named α] (t : σ) (a : α) : α × σ :=
  let t := I.internAll t (names a)
  (rename (I.key t) a, t)

end Interner

/-- The name with identifier `i` stands at position `i`. -/
structure NameTable where
  names : List String
  nodup : names.Nodup
  length_le : names.length ≤ UInt32.size
  full : Bool

namespace NameTable

def empty : NameTable := ⟨[], .nil, Nat.zero_le _, false⟩

def number? (t : NameTable) (s : String) : Option UInt32 := (t.names.idxOf? s).map .ofNat

def name? (t : NameTable) (i : UInt32) : Option String := t.names[i.toNat]?

theorem nodup_concat (t : NameTable) {s : String} (h : s ∉ t.names) : (t.names ++ [s]).Nodup := by
  simp only [List.nodup_append, t.nodup, List.mem_singleton, forall_eq, true_and]
  exact ⟨by simp, fun a ha hs ↦ h (hs ▸ ha)⟩

def enter (t : NameTable) (s : String) : UInt32 × NameTable :=
  if h : s ∈ t.names then (.ofNat (t.names.idxOf s), t)
  else if hlt : t.names.length < UInt32.size then
    (.ofNat t.names.length,
      ⟨t.names ++ [s], t.nodup_concat h, List.length_append ▸ hlt, t.full⟩)
  else (0, { t with full := true })

def interner : Interner NameTable := ⟨enter, name?, full⟩

theorem enter_of_name? {t : NameTable} {i : UInt32} {s : String} (h : t.name? i = some s) :
    t.enter s = (i, t) := by
  obtain ⟨hi, rfl⟩ := List.getElem?_eq_some_iff.1 h
  have hidx : t.names.idxOf t.names[i.toNat] = i.toNat := t.nodup.idxOf_getElem _ hi
  rw [enter, dif_pos (List.getElem_mem hi), hidx, UInt32.ofNat_toNat]

theorem name?_enter (t : NameTable) (s : String) (h : (t.enter s).2.full = false) :
    (t.enter s).2.name? (t.enter s).1 = some s := by
  unfold enter at h ⊢
  split
  · next hs =>
    have hlt : t.names.idxOf s < t.names.length := List.idxOf_lt_length_of_mem hs
    rw [name?, UInt32.toNat_ofNat_of_lt' (Nat.lt_of_lt_of_le hlt t.length_le),
      List.getElem?_eq_getElem hlt, List.getElem_idxOf hlt]
  · next hs =>
    rw [dif_neg hs] at h
    split
    · next hlt => simp [name?, UInt32.toNat_ofNat_of_lt' hlt]
    · next hlt =>
      rw [dif_neg hlt] at h
      cases h

theorem name?_enter_of_some {t : NameTable} {i : UInt32} {m : String} (s : String)
    (h : t.name? i = some m) : (t.enter s).2.name? i = some m := by
  unfold enter
  split
  · exact h
  · split
    · exact (List.getElem?_append_left (List.getElem?_eq_some_iff.1 h).1).trans h
    · exact h

theorem full_enter {t : NameTable} (s : String) (h : t.full = true) :
    (t.enter s).2.full = true := by
  unfold enter
  split
  · exact h
  · split
    · exact h
    · rfl

theorem interner_lawful : interner.Lawful where
  exhausted_intern _ s h := full_enter s h
  resolve_intern := name?_enter
  resolve_stays _ s _ _ h := name?_enter_of_some s h
  intern_known _ _ _ h := enter_of_name? h

end NameTable

end ClassModel
