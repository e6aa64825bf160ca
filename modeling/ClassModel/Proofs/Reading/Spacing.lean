import ClassModel.Proofs.Token.Spacing
import ClassModel.Reading.Method

namespace ClassModel

theorem filterMap_intersperse {α β : Type} {f : α → Option β} {sep : α} (h : f sep = none)
    (as : List α) : (as.intersperse sep).filterMap f = as.filterMap f := by
  induction as with
  | nil => rfl
  | cons a as ih =>
    cases as with
    | nil => rfl
    | cons b as =>
      rw [List.intersperse_cons_cons, List.filterMap_cons, List.filterMap_cons, h, ih,
        List.filterMap_cons (l := b :: as)]

theorem mem_of_mem_intersperse {α : Type} {a sep : α} {as : List α}
    (h : a ∈ as.intersperse sep) : a = sep ∨ a ∈ as := by
  induction as with
  | nil => cases h
  | cons b as ih =>
    cases as with
    | nil => exact .inr h
    | cons c as =>
      rw [List.intersperse_cons_cons] at h
      rcases List.mem_cons.1 h with rfl | h
      · exact .inr List.mem_cons_self
      rcases List.mem_cons.1 h with rfl | h
      · exact .inl rfl
      · exact (ih h).imp_right (List.mem_cons_of_mem b)

namespace Lexeme

def tokens (cs : List Char) : List Lexeme := (ofText cs).filter (·.kind?.isSome)

theorem filterMap_word?_tokens (cs : List Char) :
    (tokens cs).filterMap word? = (ofText cs).filterMap word? := by
  rw [tokens, List.filterMap_filter]
  refine congrFun (congrArg _ (funext fun l ↦ ?_)) _
  cases hk : l.kind? <;> simp [word?, hk]

theorem map_text_filterMap_word? {ls : List Lexeme} (h : ∀ l ∈ ls, l.kind?.isSome) :
    (ls.filterMap word?).map (·.text.toList) = ls.map text := by
  induction ls with
  | nil => rfl
  | cons l ls ih =>
    obtain ⟨k, hk⟩ := Option.isSome_iff_exists.1 (h l List.mem_cons_self)
    have hw : l.word? = some ⟨k, String.ofList l.text⟩ := by rw [word?, hk, Option.map_some]
    rw [List.filterMap_cons, hw, List.map_cons, List.map_cons, String.toList_ofList,
      ih fun l' hl ↦ h l' (List.mem_cons_of_mem l hl)]

theorem shape_of_kind? {l : Lexeme} (hk : l.kind?.isSome) (hf : l.fault? = none) :
    ∃ k, l.shape = .token k := by
  unfold kind? at hk
  unfold fault? at hf
  cases hs : l.shape <;> simp_all

end Lexeme

namespace Scan

def spaced (s : Scan) : String := " ".intercalate (s.words.map Word.text)

theorem map_fst_kinds (s : Scan) : s.kinds.map Prod.fst = s.words.map Word.kind ++ [.eof] := by
  rw [kinds, words, List.map_append, List.map_map, List.map_map]
  rfl

variable {file : FileId} {cs : List Char}

theorem toList_spaced (file : FileId) (cs : List Char) :
    (ofText file cs).spaced.toList =
      [' '].intercalate ((Lexeme.tokens cs).map Lexeme.text) := by
  have hall : ∀ l ∈ Lexeme.tokens cs, l.kind?.isSome := fun l hl ↦ (List.mem_filter.1 hl).2
  rw [spaced, String.toList_intercalate, words_ofText_eq, ← Lexeme.filterMap_word?_tokens,
    List.map_map, ← Lexeme.map_text_filterMap_word? hall]
  rfl

/-- If no token is faulty, then the text with one blank between each two tokens falls into just
these tokens and blanks. -/
theorem lexemes_spaced (h : (ofText file cs).reports = []) :
    Lexeme.ofText (ofText file cs).spaced.toList =
      (Lexeme.tokens cs).intersperse Lexeme.oneBlank := by
  rw [toList_spaced]
  refine Lexeme.ofText_intercalate fun l hl ↦ ?_
  obtain ⟨hmem, hk⟩ := List.mem_filter.1 hl
  obtain ⟨k, hs⟩ := Lexeme.shape_of_kind? hk (fault?_of_faultReports_eq_nil h hmem)
  exact Lexeme.separable_of_mem_ofText hmem hs

theorem words_spaced (h : (ofText file cs).reports = []) :
    (ofText file (ofText file cs).spaced.toList).words = (ofText file cs).words := by
  rw [words_ofText_eq, lexemes_spaced h, filterMap_intersperse rfl,
    Lexeme.filterMap_word?_tokens, words_ofText_eq]

theorem reports_spaced (h : (ofText file cs).reports = []) :
    (ofText file (ofText file cs).spaced.toList).reports = [] := by
  refine faultReports_eq_nil file 0 fun l hl ↦ ?_
  rw [lexemes_spaced h] at hl
  rcases mem_of_mem_intersperse hl with rfl | hl
  · rfl
  · exact fault?_of_faultReports_eq_nil h (List.mem_filter.1 hl).1

end Scan

/-- Whether two texts are read alike: as declarations that differ at most in where they stand and in
how their default value is laid out, or not at all for the same reason. -/
inductive Alike : Except ReadError Method → Except ReadError Method → Prop
  | ok {m m' : Method} (h : { m' with span := m.span, defaultText := m.defaultText } = m)
    (hd : m'.defaultText.isSome = m.defaultText.isSome) : Alike (.ok m) (.ok m')
  | error (message : String) (span span' : Span) :
    Alike (.error (.grammatical message span)) (.error (.grammatical message span'))

/-- All that a reader takes from a text is its words. -/
theorem Scan.alike_read {s t : Scan} (hw : t.words = s.words) (hs : s.reports = [])
    (ht : t.reports = []) (ctx : Context) : Alike (s.read ctx).result (t.read ctx).result := by
  unfold read
  rw [hw, hs, ht]
  cases Grammar.outline ctx s.words with
  | ok o =>
    refine .ok rfl ?_
    simp [method]
  | error stop =>
    cases stop with
    | faulty => exact .error ..
    | complaint c rest => exact .error ..

/-- The layout of a text without faulty tokens does not matter: with its comments left out and one
blank between each two tokens it has the same tokens, and is read alike in every class. -/
theorem readMethod_spaced (file : FileId) {text : String}
    (h : (Scan.ofText file text.toList).reports = []) :
    let s := Scan.ofText file text.toList
    let t := Scan.ofText file s.spaced.toList
    t.reports = [] ∧ t.words = s.words ∧ t.kinds.map Prod.fst = s.kinds.map Prod.fst ∧
    ∀ ctx, Alike (readMethod file ctx text).result (readMethod file ctx s.spaced).result := by
  intro s t
  have hw : t.words = s.words := Scan.words_spaced h
  have ht : t.reports = [] := Scan.reports_spaced h
  refine ⟨ht, hw, ?_, fun ctx ↦ Scan.alike_read hw h ht ctx⟩
  rw [Scan.map_fst_kinds, Scan.map_fst_kinds, hw]

/-- Comments go, one of them with a quote in it, and tokens that touch come apart. -/
theorem readMethod_spaced_comments :
    let text := "@A.B(1.)int/* x */f()default'\\''// \" y\n;"
    let spaced := "@ A . B ( 1 . ) int f ( ) default '\\'' ;"
    let s := Scan.ofText 7 text.toList
    let t := Scan.ofText 7 spaced.toList
    s.reports = [] ∧ s.spaced = spaced ∧ t.reports = [] ∧ t.words = s.words ∧
      t.kinds.map Prod.fst = s.kinds.map Prod.fst ∧
      ∀ ctx, Alike (readMethod 7 ctx text).result (readMethod 7 ctx spaced).result := by
  intro text spaced s t
  have hs : s.reports = [] := by decide +kernel
  have hspaced : s.spaced = spaced := by decide +kernel
  obtain ⟨ht, hw, hk, halike⟩ := readMethod_spaced 7 hs
  rw [hspaced] at ht hw hk
  refine ⟨hs, hspaced, ht, hw, hk, fun ctx ↦ ?_⟩
  rw [← hspaced]
  exact halike ctx

end ClassModel
