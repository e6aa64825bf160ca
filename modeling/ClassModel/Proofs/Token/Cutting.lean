import ClassModel.Proofs.Token.Layout
import ClassModel.Proofs.Token.Places

namespace ClassModel

namespace Lexeme

def Breaking (rest : List Char) : Prop := ∀ c ∈ rest.head?, c = ' ' ∨ c = ';'

theorem breaking_nil : Breaking [] := nofun

theorem breaking_blank (cs : List Char) : Breaking (' ' :: cs) := by
  rintro c ⟨⟩
  exact .inl rfl

theorem breaking_semicolon (cs : List Char) : Breaking (';' :: cs) := by
  rintro c ⟨⟩
  exact .inr rfl

variable {c d : Char} {cs u rest rest' : List Char}

theorem Breaking.not_prefix {mark : List Char} (hb : Breaking rest')
    (hmark : ∀ d ∈ mark, d ≠ ' ' ∧ d ≠ ';') (h : ¬mark <+: u ++ rest) : ¬mark <+: u ++ rest' := by
  induction u generalizing mark with
  | nil =>
    cases mark with
    | nil => exact absurd List.nil_prefix h
    | cons d mark =>
      rintro ⟨ds, rfl⟩
      obtain ⟨hblank, hsemicolon⟩ := hmark d List.mem_cons_self
      exact (hb d rfl).elim hblank hsemicolon
  | cons e u ih =>
    cases mark with
    | nil => exact absurd List.nil_prefix h
    | cons d mark =>
      intro hmark'
      obtain ⟨rfl, hprefix⟩ := List.cons_prefix_cons.1 hmark'
      refine ih (fun d' hd' ↦ hmark d' (List.mem_cons_of_mem d hd')) (fun hno ↦ h ?_) hprefix
      exact List.cons_prefix_cons.2 ⟨rfl, hno⟩

theorem Breaking.takeWhile {p : Char → Bool} (h : Breaking rest) (hp : p ' ' = false)
    (hp' : p ';' = false) : rest.takeWhile p = [] ∧ rest.dropWhile p = rest := by
  cases rest with
  | nil => exact ⟨rfl, rfl⟩
  | cons d rest =>
    have hd : p d = false := by
      rcases h d rfl with rfl | rfl
      · exact hp
      · exact hp'
    exact ⟨List.takeWhile_cons_of_neg (by simp [hd]), List.dropWhile_cons_of_neg (by simp [hd])⟩

theorem takeWhile_cut {p : Char → Bool} (h : cs.dropWhile p = u ++ rest)
    (hu : u = [] → rest'.takeWhile p = [] ∧ rest'.dropWhile p = rest') :
    (cs.takeWhile p ++ (u ++ rest')).takeWhile p = cs.takeWhile p ∧
      (cs.takeWhile p ++ (u ++ rest')).dropWhile p = u ++ rest' := by
  have hall : ∀ d ∈ cs.takeWhile p, p d = true := List.all_eq_true.1 List.all_takeWhile
  have hstop : (u ++ rest').takeWhile p = [] ∧ (u ++ rest').dropWhile p = u ++ rest' := by
    cases u with
    | nil => exact hu rfl
    | cons d u =>
      have hd := List.head?_dropWhile_not p cs
      rw [h] at hd
      have hd : p d = false := hd
      exact ⟨List.takeWhile_cons_of_neg (by simp [hd]), List.dropWhile_cons_of_neg (by simp [hd])⟩
  rw [List.takeWhile_append_of_pos hall, List.dropWhile_append_of_pos hall, hstop.1, hstop.2,
    List.append_nil]
  exact ⟨rfl, rfl⟩

theorem Breaking.numberRest (h : Breaking rest) : numberRest rest = ([], rest) := by
  cases rest with
  | nil => rfl
  | cons d rest =>
    rcases h d rfl with rfl | rfl <;> exact if_neg Bool.false_ne_true

theorem head?_numberRest (h : cs.head?.any Char.isDigit = true) :
    ((Lexeme.numberRest cs).1 ++ rest).head?.any Char.isDigit = true := by
  cases cs with
  | nil => cases h
  | cons d cs =>
    have hd : d.isAlphanum = true := Bool.or_eq_true_iff.2 (.inr h)
    rw [Lexeme.numberRest, hd]
    exact h

theorem Breaking.head?_not_isDigit (h : Breaking rest) : rest.head?.any Char.isDigit = false := by
  cases rest with
  | nil => rfl
  | cons d rest =>
    rcases h d rfl with rfl | rfl <;> rfl

theorem numberRest_cut (h : (numberRest cs).2 = u ++ rest) (hb : Breaking rest') :
    Lexeme.numberRest ((Lexeme.numberRest cs).1 ++ (u ++ rest')) =
      ((Lexeme.numberRest cs).1, u ++ rest') := by
  fun_induction Lexeme.numberRest cs with
  | case1 =>
    obtain ⟨rfl, -⟩ := List.nil_eq_append_iff.1 h
    exact hb.numberRest
  | case2 c cs hc ih =>
    have hagain : (c.isAlphanum || c == '_' ||
        (c == '.' && ((Lexeme.numberRest cs).1 ++ (u ++ rest')).head?.any Char.isDigit)) =
          true := by
      simp only [Bool.or_eq_true, Bool.and_eq_true] at hc ⊢
      exact hc.imp_right fun ⟨hdot, hdigit⟩ ↦ ⟨hdot, head?_numberRest hdigit⟩
    rw [pass, List.cons_append, Lexeme.numberRest, if_pos hagain, ih h]
    rfl
  | case3 c cs hc =>
    cases u with
    | nil => exact hb.numberRest
    | cons d u =>
      obtain ⟨rfl, rfl⟩ := List.cons.inj h
      -- The number ends here because of two characters, of which the cut may take the second one.
      have hstop : ¬(c.isAlphanum || c == '_' ||
          (c == '.' && (u ++ rest').head?.any Char.isDigit)) = true := by
        cases u with
        | nil => simp_all [hb.head?_not_isDigit]
        | cons e u => exact hc
      exact if_neg hstop

theorem quotedRest_cons {q c : Char} (hc : c ≠ '\\') (cs : List Char) :
    quotedRest q (c :: cs) =
      if c = '\n' then ([c], some .brokenLiteral, cs)
      else if c = q then ([c], none, cs)
      else pass c (quotedRest q cs) :=
  quotedRest.eq_4 q c cs (fun h _ ↦ hc h) fun _ _ h _ ↦ hc h

theorem quotedRest_append_of_closed {q : Char} {cs : List Char}
    (h : (quotedRest q cs).2.1 = none) (rest : List Char) :
    quotedRest q ((quotedRest q cs).1 ++ rest) = ((quotedRest q cs).1, none, rest) := by
  fun_induction quotedRest q cs with
  | case1 | case2 | case4 => cases h
  | case3 d cs ih =>
    rw [pass, pass, List.cons_append, List.cons_append, quotedRest, ih h]
    rfl
  | case5 cs hend hmiddle hline =>
    rw [List.cons_append, quotedRest_cons (ne_backslash hend hmiddle), if_neg hline, if_pos rfl]
    rfl
  | case6 c cs hend hmiddle hline hquote ih =>
    rw [pass, List.cons_append, quotedRest_cons (ne_backslash hend hmiddle), if_neg hline,
      if_neg hquote, ih h]
    rfl

theorem commentRest_append_of_closed {r : List Char × List Char} (h : commentRest cs = some r)
    (rest : List Char) : commentRest (r.1 ++ rest) = some (r.1, rest) := by
  fun_induction commentRest cs generalizing r with
  | case1 => cases h
  | case2 =>
    obtain rfl := Option.some.inj h
    rfl
  | case3 c cs hmark ih =>
    obtain ⟨s, hs, rfl⟩ := Option.map_eq_some_iff.1 h
    have hcs := commentRest_append hs
    obtain ⟨body, hbody, -⟩ := commentRest_eq_some hs
    obtain ⟨e, es, hes⟩ : ∃ e es, s.1 = e :: es := List.exists_cons_of_ne_nil (by simp [hbody])
    have hmark' : ∀ ds, c = '*' → s.1 ++ rest = '/' :: ds → False := by
      intro ds hc hds
      rw [hes] at hds hcs
      obtain ⟨he, -⟩ := List.cons.inj hds
      rw [he] at hcs
      exact hmark _ hc hcs.symm
    rw [pass, List.cons_append, commentRest.eq_3 _ _ hmark', ih hs]
    rfl

/-- Neither a comment nor an ellipsis comes about by a cut. -/
theorem symbol_cut (h : (symbol c cs).2 = u ++ rest) (hf : (symbol c cs).1.fault? = none)
    (hu : u ≠ [] ∨ (symbol c cs).1.kind? ≠ none) (hb : Breaking rest') :
    ∃ ds, (symbol c cs).1.text = c :: ds ∧
      symbol c (ds ++ (u ++ rest')) = ((symbol c cs).1, u ++ rest') := by
  revert h hf hu
  fun_cases symbol c cs with
  | case1 cs =>
    intro h _ hu
    have hne : u ≠ [] := hu.resolve_right fun hk ↦ hk rfl
    obtain ⟨htake, hdrop⟩ := takeWhile_cut h fun hnil ↦ absurd hnil hne
    refine ⟨_, rfl, ?_⟩
    rw [List.cons_append, symbol, htake, hdrop]
  | case2 cs r hr =>
    intro _ _ _
    refine ⟨_, rfl, ?_⟩
    rw [List.cons_append, symbol, commentRest_append_of_closed hr]
  | case3 => exact fun _ hf ↦ nomatch hf
  | case4 cs => exact fun _ _ _ ↦ ⟨['.', '.'], rfl, rfl⟩
  | case5 c cs hline hblock hdots k hk =>
    intro h _ _
    obtain rfl : cs = u ++ rest := h
    refine ⟨[], rfl, ?_⟩
    have hno {m : List Char} (hmark : ∀ d ∈ m, d ≠ ' ' ∧ d ≠ ';')
        (h : ∀ ds, u ++ rest ≠ m ++ ds) (ds : List Char) : u ++ rest' ≠ m ++ ds := fun hds ↦
      hb.not_prefix hmark (fun ⟨ds', hds'⟩ ↦ h ds' hds'.symm) ⟨ds, hds.symm⟩
    rw [List.nil_append, symbol.eq_4 c (u ++ rest')
      (fun ds hc ↦ hno (m := ['/']) (by simp) (hline · hc) ds)
      (fun ds hc ↦ hno (m := ['*']) (by simp) (hblock · hc) ds)
      (fun ds hc ↦ hno (m := ['.', '.']) (by simp) (hdots · hc) ds), hk]
  | case6 => exact fun _ hf ↦ nomatch hf

/-- The first lexeme stays the same if the text is cut off behind it, and it makes a token, or
somewhere later. -/
theorem first_cut (h : (first c cs).2 = u ++ rest) (hf : (first c cs).1.fault? = none)
    (hu : u ≠ [] ∨ (first c cs).1.kind? ≠ none) (hb : Breaking rest') :
    ∃ ds, (first c cs).1.text = c :: ds ∧
      first c (ds ++ (u ++ rest')) = ((first c cs).1, u ++ rest') := by
  revert h hf hu
  fun_cases first c cs with
  | case1 hc =>
    intro h _ hu
    have hne : u ≠ [] := hu.resolve_right fun hk ↦ hk rfl
    obtain ⟨htake, hdrop⟩ := takeWhile_cut h fun hnil ↦ absurd hnil hne
    refine ⟨_, rfl, ?_⟩
    rw [first, if_pos hc, htake, hdrop]
  | case2 hc hn =>
    intro h _ _
    obtain ⟨htake, hdrop⟩ := takeWhile_cut h fun _ ↦ hb.takeWhile (by decide) (by decide)
    refine ⟨_, rfl, ?_⟩
    rw [first, if_neg hc, if_pos hn, htake, hdrop]
  | case3 hc hn hd =>
    intro h _ _
    refine ⟨_, rfl, ?_⟩
    rw [first, if_neg hc, if_neg hn, if_pos hd, numberRest_cut h hb]
    rfl
  | case4 hc hn hd hq =>
    intro h hf _
    have hclosed : (quotedRest c cs).2.1 = none := by
      cases hq : (quotedRest c cs).2.1 with
      | none => rfl
      | some f => simp [literal, literalShape, fault?, hq] at hf
    refine ⟨_, rfl, ?_⟩
    rw [first, if_neg hc, if_neg hn, if_neg hd, if_pos hq, quotedRest_append_of_closed hclosed,
      literal, literal, hclosed]
  | case5 hc hn hd hq =>
    intro h hf hu
    obtain ⟨ds, htext, hsymbol⟩ := symbol_cut h hf hu hb
    refine ⟨ds, htext, ?_⟩
    rw [first, if_neg hc, if_neg hn, if_neg hd, if_neg hq, hsymbol]

theorem text_ne_nil_of_mem_ofText {l : Lexeme} (hl : l ∈ ofText cs) : l.text ≠ [] := by
  fun_induction ofText cs with
  | case1 => cases hl
  | case2 c cs ih =>
    rcases List.mem_cons.1 hl with rfl | hl
    · exact first_text_ne_nil c cs
    · exact ih hl

variable {ls ls' : List Lexeme} {l : Lexeme}

/-- Lexemes of which the last one makes a token stay the same if the text is cut off behind
them. -/
theorem ofText_cut (h : ofText cs = ls ++ ls') (hf : ∀ l ∈ ls, l.fault? = none)
    (hl : ls.getLast? = some l) (hk : l.kind? ≠ none) (hb : Breaking rest) :
    ofText (ls.flatMap text ++ rest) = ls ++ ofText rest := by
  induction ls generalizing cs with
  | nil => cases hl
  | cons l₁ ls ih =>
    cases cs with
    | nil =>
      rw [ofText] at h
      cases h
    | cons c cs =>
      rw [ofText_cons] at h
      obtain ⟨rfl, htail⟩ := List.cons.inj h
      have htail : ofText (first c cs).2 = ls ++ ls' := htail
      have htext := congrArg (List.flatMap text) htail
      rw [flatMap_text_ofText, List.flatMap_append] at htext
      have hlater : ofText (ls.flatMap text ++ rest) = ls ++ ofText rest ∧
          (ls.flatMap text ≠ [] ∨ (first c cs).1.kind? ≠ none) := by
        cases ls with
        | nil =>
          obtain rfl := Option.some.inj hl
          exact ⟨rfl, .inr hk⟩
        | cons l₂ ls =>
          have hne : l₂.text ≠ [] := text_ne_nil_of_mem_ofText (by
            rw [htail]
            exact List.mem_cons_self)
          rw [List.getLast?_cons_cons] at hl
          exact ⟨ih htail (fun l' hl' ↦ hf l' (List.mem_cons_of_mem _ hl')) hl,
            .inl fun hnil ↦ hne (List.append_eq_nil_iff.1 hnil).1⟩
      obtain ⟨ds, hds, hfirst⟩ := first_cut htext (hf _ List.mem_cons_self) hlater.2 hb
      rw [List.flatMap_cons, List.append_assoc, hds, List.cons_append, ofText_cons, hfirst,
        hlater.1, List.cons_append]

theorem ofText_suffix (h : ofText cs = ls ++ ls') : ofText (ls'.flatMap text) = ls' := by
  induction ls generalizing cs with
  | nil =>
    have hcs := congrArg (List.flatMap text) h
    rw [flatMap_text_ofText, List.nil_append] at hcs
    rw [← hcs, h, List.nil_append]
  | cons l₁ ls ih =>
    cases cs with
    | nil =>
      rw [ofText] at h
      cases h
    | cons c cs =>
      rw [ofText_cons] at h
      exact ih (List.cons.inj h).2

end Lexeme

/-- A text that ends with a token keeps its lexemes in front of a text that ends any token. -/
theorem Reads.ofText_append {cs rest : List Char} {ws : List Word} (h : Reads cs ws)
    (hb : Lexeme.Breaking rest) :
    Lexeme.ofText (cs ++ rest) = Lexeme.ofText cs ++ Lexeme.ofText rest := by
  obtain ⟨l, k, hl, hk⟩ := h.ends
  have hcut := Lexeme.ofText_cut (List.append_nil _).symm h.faultless hl (by simp [hk]) hb
  rwa [Lexeme.flatMap_text_ofText] at hcut

end ClassModel
