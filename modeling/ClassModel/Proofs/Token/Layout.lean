import ClassModel.Token.Scan

namespace ClassModel

/-- Blanks and comments in front of `after`. A comment that is never closed takes the whole rest of
the text. -/
inductive Layout (after : List Char) : List Char → Prop
  | none : Layout after []
  | blank {c : Char} {gap : List Char} (hc : isBlank c = true) (h : Layout after gap) :
    Layout after (c :: gap)
  | lineComment {body gap : List Char} (hb : '\n' ∉ body)
      (he : ∀ c ∈ (gap ++ after).head?, c = '\n') (h : Layout after gap) :
    Layout after ('/' :: '/' :: (body ++ gap))
  | blockComment {body gap : List Char} (hb : ¬['*', '/'] <:+: body ++ ['*'])
      (h : Layout after gap) : Layout after ('/' :: '*' :: (body ++ '*' :: '/' :: gap))
  | openComment {body : List Char} (hb : ¬['*', '/'] <:+: body) (ha : after = []) :
    Layout after ('/' :: '*' :: body)

variable {cs after gap : List Char} {ls : List Lexeme}

theorem Layout.blanks {bs : List Char} (hb : ∀ c ∈ bs, isBlank c = true) (h : Layout after gap) :
    Layout after (bs ++ gap) := by
  induction bs with
  | nil => exact h
  | cons b bs ih =>
    exact .blank (hb b List.mem_cons_self) (ih fun c hc ↦ hb c (List.mem_cons_of_mem b hc))

namespace Lexeme

theorem commentRest_eq_some {r : List Char × List Char} (h : commentRest cs = some r) :
    ∃ body, r.1 = body ++ ['*', '/'] ∧ ¬['*', '/'] <:+: body ++ ['*'] := by
  fun_induction commentRest cs generalizing r with
  | case1 => cases h
  | case2 cs =>
    obtain rfl := Option.some.inj h
    exact ⟨[], rfl, by decide⟩
  | case3 c cs hmark ih =>
    obtain ⟨s, hs, rfl⟩ := Option.map_eq_some_iff.1 h
    obtain ⟨body, hbody, hfirst⟩ := ih hs
    refine ⟨c :: body, by rw [pass, hbody]; rfl, fun hinfix ↦ ?_⟩
    rcases List.infix_cons_iff.1 hinfix with hpre | hinfix
    · obtain ⟨rfl, hslash⟩ := List.cons_prefix_cons.1 hpre
      have hcs := commentRest_append hs
      rw [hbody, List.append_assoc] at hcs
      cases body with
      | nil => exact absurd hslash (by decide)
      | cons d body =>
        obtain ⟨rfl, -⟩ := List.cons_prefix_cons.1 hslash
        exact hmark _ rfl hcs.symm
    · exact hfirst hinfix

theorem commentRest_eq_none (h : commentRest cs = none) : ¬['*', '/'] <:+: cs := by
  fun_induction commentRest cs with
  | case1 => decide
  | case2 => cases h
  | case3 c cs hmark ih =>
    intro hinfix
    rcases List.infix_cons_iff.1 hinfix with hpre | hinfix
    · obtain ⟨rfl, t, ht⟩ := List.cons_prefix_cons.1 hpre
      exact hmark t rfl ht.symm
    · exact ih (Option.map_eq_none_iff.1 h) hinfix

theorem ne_backslash {c : Char} (hend : c = '\\' → cs = [] → False)
    (hmiddle : ∀ d ds, c = '\\' → cs = d :: ds → False) : c ≠ '\\' := by
  intro hc
  cases cs with
  | nil => exact hend hc rfl
  | cons d ds => exact hmiddle d ds hc rfl

theorem quotedRest_ne_openComment (q : Char) (cs : List Char) :
    (quotedRest q cs).2.1 ≠ some .openComment := by
  fun_induction quotedRest q cs with
  | case1 | case2 =>
    intro h
    split at h <;> cases h
  | case3 d cs ih => exact ih
  | case4 | case5 => simp
  | case6 c cs _ _ _ _ ih => exact ih

theorem kind?_literal_ne_none (q : Char) (cs : List Char) :
    (literal q (quotedRest q cs)).1.kind? ≠ none := by
  have hne := quotedRest_ne_openComment q cs
  generalize quotedRest q cs = r at hne ⊢
  obtain ⟨part, f, after⟩ := r
  cases f with
  | none => nofun
  | some f => cases f <;> simp_all [literal, literalShape, kind?]

/-- What begins with neither a blank nor a comment makes a token. -/
theorem kind?_first_ne_none {c : Char} (hb : isBlank c = false)
    (hcomment : c = '/' → cs.head? ≠ some '/' ∧ cs.head? ≠ some '*') :
    (first c cs).1.kind? ≠ Option.none := by
  fun_cases first c cs with
  | case1 h => simp_all
  | case2 | case3 => exact Option.some_ne_none _
  | case4 => exact kind?_literal_ne_none c cs
  | case5 =>
    fun_cases symbol c cs with
    | case1 => exact absurd rfl (hcomment rfl).1
    | case2 | case3 => exact absurd rfl (hcomment rfl).2
    | case4 | case5 | case6 => exact Option.some_ne_none _

structure Skips (cs : List Char) (ls : List Lexeme) (after : List Char) : Prop where
  lexemes : ofText cs = ls ++ ofText after
  silent : ∀ l ∈ ls, l.kind? = none

theorem Skips.text_eq (h : Skips cs ls after) : cs = ls.flatMap text ++ after := by
  have htext := congrArg (List.flatMap text) h.lexemes
  rwa [List.flatMap_append, flatMap_text_ofText, flatMap_text_ofText] at htext

theorem Skips.nil (cs : List Char) : Skips cs [] cs := ⟨rfl, nofun⟩

theorem Skips.cons {c : Char} {l : Lexeme} {ds : List Char} (hf : first c cs = (l, ds))
    (hl : l.kind? = none) (h : Skips ds ls after) : Skips (c :: cs) (l :: ls) after where
  lexemes := by rw [ofText_cons, hf, h.lexemes, List.cons_append]
  silent l' hl' := by
    rcases List.mem_cons.1 hl' with rfl | hl'
    · exact hl
    · exact h.silent l' hl'

theorem Skips.layout (h : Skips cs ls after) : Layout after (ls.flatMap text) := by
  induction ls generalizing cs with
  | nil => exact .none
  | cons l ls ih =>
    have hl := h.silent l List.mem_cons_self
    cases cs with
    | nil =>
      have hnil := h.lexemes
      rw [ofText] at hnil
      cases hnil
    | cons c cs =>
      obtain ⟨rfl, hls⟩ := List.cons.inj ((ofText_cons c cs).symm.trans h.lexemes)
      have hrest : Skips (first c cs).2 ls after :=
        ⟨hls, fun l' hl' ↦ h.silent l' (List.mem_cons_of_mem _ hl')⟩
      have hgap := ih hrest
      have htext := hrest.text_eq
      rw [List.flatMap_cons]
      revert hl htext
      fun_cases first c cs with
      | case1 hb =>
        intro _ _
        refine hgap.blanks fun d hd ↦ ?_
        rcases List.mem_cons.1 hd with rfl | hd
        · exact hb
        · exact List.all_eq_true.1 List.all_takeWhile d hd
      | case2 | case3 => rintro ⟨⟩
      | case4 => exact fun hl ↦ absurd hl (kind?_literal_ne_none c cs)
      | case5 =>
        fun_cases symbol c cs with
        | case1 cs =>
          intro _ htext
          have hbody : '\n' ∉ cs.takeWhile (· ≠ '\n') := fun hn ↦ by
            simpa using List.all_eq_true.1 List.all_takeWhile _ hn
          refine .lineComment hbody (fun d hd ↦ ?_) hgap
          have htext : cs.dropWhile (· ≠ '\n') = _ := htext
          have hstop := List.head?_dropWhile_not (· ≠ '\n') cs
          rw [htext, Option.mem_def.1 hd] at hstop
          simpa using hstop
        | case2 cs r hr =>
          intro _ htext
          obtain ⟨body, hbody, hfirst⟩ := commentRest_eq_some hr
          have hcomment := Layout.blockComment hfirst hgap
          simpa [hbody] using hcomment
        | case3 cs hr =>
          intro _ htext
          obtain ⟨hnil, hafter⟩ := List.nil_eq_append_iff.1 htext
          rw [hnil, List.append_nil]
          exact .openComment (commentRest_eq_none hr) hafter
        | case4 | case5 | case6 => rintro ⟨⟩

end Lexeme

end ClassModel
