import ClassModel.Naming.Interner
import Mathlib.Logic.Function.Defs

namespace ClassModel

def prefixed (c : Char) (s : String) : String := .ofList (c :: s.toList)

def unprefixed (s : String) : String := .ofList (s.toList.drop 1)

theorem unprefixed_prefixed (c : Char) (s : String) : unprefixed (prefixed c s) = s := by
  rw [unprefixed, prefixed, String.toList_ofList]
  exact String.ofList_toList

theorem prefixed_inj {c d : Char} {s t : String} : prefixed c s = prefixed d t ↔ c = d ∧ s = t := by
  rw [prefixed, prefixed, String.ofList_inj, List.cons.injEq, String.toList_inj]

def marked (n : String) : String := prefixed '=' n

theorem marked_injective : Function.Injective marked := fun _ _ h ↦ (prefixed_inj.1 h).2

namespace Interner

variable {σ α β : Type} (I : Interner σ)

/-- Marks the name that stands behind an identifier, and leaves everything else apart. -/
def mark (t : σ) (x : String) : String :=
  match (ofNumeral? x).bind (I.resolve t) with
  | some n => marked n
  | none => prefixed '?' x

/-- Whether `u` can be `t` later on. If it is not exhausted, then `t` was not, and all identifiers
still stand for the same names. -/
def Grows (t u : σ) : Prop :=
  I.exhausted u = false → I.exhausted t = false ∧
    ∀ i n, I.resolve t i = some n → I.resolve u i = some n

/-- Whether `a`, from `t` on, is `b` with identifiers in place of names. -/
def Stands [Renames α] (t : σ) (a b : α) : Prop :=
  ∀ u, I.Grows t u → I.exhausted u = false → rename (I.mark u) a = rename marked b

variable {I} {t t' u : σ}

theorem text_eq_unprefixed_mark (t : σ) (x : String) : I.text t x = unprefixed (I.mark t x) := by
  unfold text mark
  cases (ofNumeral? x).bind (I.resolve t) with
  | some n => exact (unprefixed_prefixed '=' n).symm
  | none => exact (unprefixed_prefixed '?' x).symm

theorem Grows.refl (t : σ) : I.Grows t t := fun h ↦ ⟨h, fun _ _ ↦ id⟩

theorem Grows.trans (h : I.Grows t t') (h' : I.Grows t' u) : I.Grows t u := by
  intro hu
  obtain ⟨ht', hstays'⟩ := h' hu
  obtain ⟨ht, hstays⟩ := h ht'
  exact ⟨ht, fun i n hn ↦ hstays' i n (hstays i n hn)⟩

section

variable (hI : I.Lawful)

include hI

theorem mark_injective (t : σ) : Function.Injective (I.mark t) := by
  have hapart (n x : String) : marked n ≠ prefixed '?' x := fun h ↦
    absurd (prefixed_inj.1 h).1 (by decide)
  intro x y h
  unfold mark at h
  cases hx : (ofNumeral? x).bind (I.resolve t) with
  | some n =>
    rw [hx] at h
    cases hy : (ofNumeral? y).bind (I.resolve t) with
    | some m =>
      rw [hy] at h
      obtain rfl : n = m := marked_injective h
      obtain ⟨i, hi, hn⟩ := Option.bind_eq_some_iff.1 hx
      obtain ⟨j, hj, hm⟩ := Option.bind_eq_some_iff.1 hy
      have hij := (hI.intern_known t i n hn).symm.trans (hI.intern_known t j n hm)
      obtain rfl : i = j := congrArg Prod.fst hij
      exact (numeral_of_ofNumeral? hi).symm.trans (numeral_of_ofNumeral? hj)
    | none =>
      rw [hy] at h
      exact absurd h (hapart n y)
  | none =>
    rw [hx] at h
    cases hy : (ofNumeral? y).bind (I.resolve t) with
    | some m =>
      rw [hy] at h
      exact absurd h.symm (hapart m x)
    | none =>
      rw [hy] at h
      exact (prefixed_inj.1 h).2

theorem grows_intern (t : σ) (n : String) : I.Grows t (I.intern t n).2 := by
  intro h
  refine ⟨Bool.eq_false_iff.2 fun ht ↦ ?_, fun i m ↦ hI.resolve_stays t n i m⟩
  rw [hI.exhausted_intern t n ht] at h
  cases h

theorem grows_internAll (t : σ) (ns : List String) : I.Grows t (I.internAll t ns) := by
  induction ns generalizing t with
  | nil => exact .refl t
  | cons n ns ih => exact (grows_intern hI t n).trans (ih _)

theorem exists_resolve_internAll {ns : List String} {n : String} (hn : n ∈ ns)
    (h : I.exhausted (I.internAll t ns) = false) :
    ∃ i, I.resolve (I.internAll t ns) i = some n := by
  induction ns generalizing t with
  | nil => cases hn
  | cons m ns ih =>
    have hgrows : I.Grows (I.intern t m).2 (I.internAll t (m :: ns)) := grows_internAll hI _ ns
    rcases List.mem_cons.1 hn with rfl | hn
    · obtain ⟨hfirst, hstays⟩ := hgrows h
      exact ⟨_, hstays _ n (hI.resolve_intern t n hfirst)⟩
    · exact ih hn h

/-- The key of a name that has been entered goes on to stand for it. -/
theorem mark_key {ns : List String} {n : String} (hn : n ∈ ns)
    (hg : I.Grows (I.internAll t ns) u) (hu : I.exhausted u = false) :
    I.mark u (I.key (I.internAll t ns) n) = marked n := by
  obtain ⟨hlast, hstays⟩ := hg hu
  obtain ⟨i, hi⟩ := exists_resolve_internAll hI hn hlast
  rw [key, hI.intern_known _ i n hi, mark, ofNumeral?_numeral, Option.bind_some, hstays i n hi]

theorem stands_encode [Named α] (t : σ) (a : α) : I.Stands (I.encode t a).2 (I.encode t a).1 a := by
  intro u hg hu
  exact (Renames.rename_rename _ _ a).trans
    (Named.rename_congr fun n hn ↦ mark_key hI hn hg hu)

theorem grows_encode [Named α] (t : σ) (a : α) : I.Grows t (I.encode t a).2 :=
  grows_internAll hI t _

/-- What treats all names alike treats identifiers as it treats the names. -/
theorem Stands.natural [Renames α] [Renames β] (F : α → β)
    (hF : ∀ f : String → String, f.Injective → ∀ a, F (rename f a) = rename f (F a)) {a b : α}
    (h : I.Stands t a b) : I.Stands t (F a) (F b) := by
  intro u hg hu
  rw [← hF _ (mark_injective hI u), h u hg hu, hF _ marked_injective]

end

variable [Renames α] [Renames β] {a b : α} {c d : β}

theorem Stands.mono (h : I.Stands t a b) (hg : I.Grows t t') : I.Stands t' a b :=
  fun u hg' hu ↦ h u (hg.trans hg') hu

theorem Stands.of_enough (h : I.exhausted t = false → I.Stands t a b) : I.Stands t a b :=
  fun u hg hu ↦ h (hg hu).1 u hg hu

theorem Stands.prod (h : I.Stands t a b) (h' : I.Stands t c d) : I.Stands t (a, c) (b, d) :=
  fun u hg hu ↦ Prod.ext (h u hg hu) (h' u hg hu)

/-- The names can be read back. -/
theorem Stands.rename_text (h : I.Stands t a b) (ht : I.exhausted t = false) :
    rename (I.text t) a = b := by
  have htext : I.text t = unprefixed ∘ I.mark t := funext (text_eq_unprefixed_mark t)
  have hid : unprefixed ∘ marked = id := funext (unprefixed_prefixed '=')
  rw [htext, ← Renames.rename_rename, h t (.refl t) ht, Renames.rename_rename, hid,
    Renames.rename_id]

end Interner

end ClassModel
