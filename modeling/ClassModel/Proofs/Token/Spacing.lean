import ClassModel.Proofs.Token.Cutting

namespace ClassModel

namespace Lexeme

def Parting (rest : List Char) : Prop := ∀ c ∈ rest.head?, c = ' '

theorem parting_nil : Parting [] := nofun

theorem parting_blank (cs : List Char) : Parting (' ' :: cs) := by
  rintro c ⟨⟩
  rfl

/-- Whether a lexeme begins without a blank, and is the first one wherever it stands before a blank
or at the end. -/
def Separable (l : Lexeme) : Prop :=
  ∃ c cs, l.text = c :: cs ∧ isBlank c = false ∧
    ∀ rest, Parting rest → first c (cs ++ rest) = (l, rest)

theorem Parting.breaking {rest : List Char} (h : Parting rest) : Breaking rest :=
  fun c hc ↦ .inl (h c hc)

theorem separable_first {c : Char} {cs : List Char} {k : Token.Kind}
    (hk : (first c cs).1.shape = .token k) : (first c cs).1.Separable := by
  have hb : isBlank c = false := by
    refine eq_false_of_ne_true fun hb ↦ ?_
    rw [first, if_pos hb] at hk
    cases hk
  have hcut {rest : List Char} (hr : Breaking rest) := first_cut (c := c) (u := []) rfl
    (by rw [fault?, hk]) (.inr (by rw [kind?, hk]; exact Option.some_ne_none k)) hr
  obtain ⟨ds, hds, -⟩ := hcut breaking_nil
  refine ⟨c, ds, hds, hb, fun rest hr ↦ ?_⟩
  obtain ⟨ds', hds', hfirst⟩ := hcut hr.breaking
  obtain rfl := (List.cons.inj (hds.symm.trans hds')).2
  exact hfirst

theorem separable_of_mem_ofText {cs : List Char} {l : Lexeme} {k : Token.Kind}
    (hl : l ∈ ofText cs) (hk : l.shape = .token k) : l.Separable := by
  fun_induction ofText cs with
  | case1 => cases hl
  | case2 c cs ih =>
    rcases List.mem_cons.1 hl with rfl | hl
    · exact separable_first hk
    · exact ih hl

def oneBlank : Lexeme := ⟨.blank, [' ']⟩

/-- Tokens with a blank between each two of them are read as they are. -/
theorem ofText_intercalate {ls : List Lexeme} (h : ∀ l ∈ ls, l.Separable) :
    ofText ([' '].intercalate (ls.map text)) = ls.intersperse oneBlank := by
  induction ls with
  | nil =>
    rw [List.map_nil, List.intercalate_nil, ofText]
    rfl
  | cons l ls ih =>
    obtain ⟨c, cs, ht, hb, hfirst⟩ := h l List.mem_cons_self
    have ih := ih fun l hl ↦ h l (List.mem_cons_of_mem _ hl)
    cases ls with
    | nil =>
      have hl := hfirst [] parting_nil
      rw [List.append_nil] at hl
      rw [List.map_singleton, List.intercalate_singleton, ht, ofText_cons, hl, ofText]
      rfl
    | cons l' ls =>
      obtain ⟨d, ds, ht', hb', -⟩ := h l' (List.mem_cons_of_mem _ List.mem_cons_self)
      have hrest : ∃ es, [' '].intercalate ((l' :: ls).map text) = d :: es := by
        cases ls with
        | nil => exact ⟨ds, by simp [ht']⟩
        | cons l'' ls => exact ⟨_, by simp [ht', List.intercalate]; rfl⟩
      obtain ⟨es, hes⟩ := hrest
      have hblank : first ' ' (d :: es) = (oneBlank, d :: es) := first_blank hb' es
      have hsplit : [' '].intercalate ((l :: l' :: ls).map text) =
          c :: (cs ++ ' ' :: [' '].intercalate ((l' :: ls).map text)) := by
        simp [List.intercalate, ht]
      rw [hsplit, ofText_cons, hfirst _ (parting_blank _), ofText_cons, hes, hblank, ← hes, ih]
      rfl

end Lexeme

end ClassModel
