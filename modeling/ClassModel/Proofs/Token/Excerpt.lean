import ClassModel.Proofs.Token.Cutting

namespace ClassModel

namespace Lexeme

variable {cs rest : List Char} {ls : List Lexeme} {l : Lexeme}

structure Framed (ls : List Lexeme) : Prop where
  head : ∃ l ∈ ls.head?, l.kind? ≠ none
  last : ∃ l ∈ ls.getLast?, l.kind? ≠ none

theorem Framed.starts {ls' : List Lexeme} (hfr : Framed ls) (h : ofText cs = ls ++ ls') :
    ∃ c ds, cs = c :: ds ∧ isBlank c = false := by
  obtain ⟨l, hl, hk⟩ := hfr.head
  cases ls with
  | nil => cases hl
  | cons l₁ ls =>
    obtain rfl := Option.some.inj hl
    cases cs with
    | nil =>
      rw [ofText] at h
      cases h
    | cons c cs =>
      rw [ofText_cons] at h
      obtain ⟨rfl, -⟩ := List.cons.inj h
      refine ⟨c, cs, rfl, eq_false_of_ne_true fun hc ↦ hk ?_⟩
      rw [first, if_pos hc]
      rfl

theorem kind?_ne_none_of_word? {w : Word} (h : l.word? = some w) : l.kind? ≠ none := by
  intro hk
  rw [word?, hk] at h
  cases h

theorem exists_of_filterMap_eq {ws ws' : List Word} {w : Word}
    (h : ls.filterMap word? = ws ++ w :: ws') :
    ∃ ls₁ l ls₂, ls = ls₁ ++ l :: ls₂ ∧ ls₁.filterMap word? = ws ∧ l.word? = some w ∧
      ls₂.filterMap word? = ws' := by
  obtain ⟨k, m, rfl, hk, hm⟩ := List.filterMap_eq_append_iff.1 h
  obtain ⟨silent, l, ls₂, rfl, hsilent, hl, hls⟩ := List.filterMap_eq_cons_iff.1 hm
  refine ⟨k ++ silent, l, ls₂, by simp, ?_, hl, hls⟩
  rw [List.filterMap_append, hk, List.filterMap_eq_nil_iff.2 hsilent, List.append_nil]

/-- Adjacent words of a text stand in a stretch of it that begins with the first and ends with the
last of them. -/
theorem exists_framed {ws₁ ws₂ ws₃ : List Word} (h : ls.filterMap word? = ws₁ ++ (ws₂ ++ ws₃))
    (hne : ws₂ ≠ []) :
    ∃ ls₁ ls₂ ls₃, ls = ls₁ ++ (ls₂ ++ ls₃) ∧ ls₁.filterMap word? = ws₁ ∧
      ls₂.filterMap word? = ws₂ ∧ ls₃.filterMap word? = ws₃ ∧ Framed ls₂ := by
  cases ws₂ with
  | nil => exact absurd rfl hne
  | cons w ws =>
    obtain ⟨ls₁, l, m, rfl, h₁, hl, hm⟩ := exists_of_filterMap_eq h
    have hk := kind?_ne_none_of_word? hl
    rcases List.eq_nil_or_concat ws with rfl | ⟨ws, w', rfl⟩
    · exact ⟨ls₁, [l], m, rfl, h₁, by simp [hl], hm, ⟨l, rfl, hk⟩, ⟨l, rfl, hk⟩⟩
    · have hm : m.filterMap word? = ws ++ w' :: ws₃ := hm.trans (List.concat_append ..)
      obtain ⟨ls₂, l', ls₃, rfl, h₂, hl', h₃⟩ := exists_of_filterMap_eq hm
      refine ⟨ls₁, l :: (ls₂ ++ [l']), ls₃, by simp, h₁, by simp [hl, h₂, hl'], h₃,
        ⟨l, rfl, hk⟩, ⟨l', ?_, kind?_ne_none_of_word? hl'⟩⟩
      rw [← List.cons_append, List.getLast?_concat]
      rfl

/-- Lexemes from anywhere in a text, with the words that they make. They are read again from their
own text. -/
structure Excerpt (ls : List Lexeme) (ws : List Word) : Prop where
  framed : Framed ls
  words : ls.filterMap word? = ws
  faultless : ∀ l ∈ ls, l.fault? = none
  again : ∀ {rest : List Char}, Breaking rest →
    ofText (ls.flatMap text ++ rest) = ls ++ ofText rest

theorem Framed.excerpt {ls₁ ls₂ ls₃ : List Lexeme} (hfr : Framed ls₂)
    (h : ofText cs = ls₁ ++ (ls₂ ++ ls₃)) (hf : ∀ l ∈ ofText cs, l.fault? = none) :
    Excerpt ls₂ (ls₂.filterMap word?) := by
  have hf₂ : ∀ l ∈ ls₂, l.fault? = none := by
    intro l hl
    refine hf l ?_
    rw [h]
    exact List.mem_append_right ls₁ (List.mem_append_left ls₃ hl)
  obtain ⟨l, hl, hk⟩ := hfr.last
  exact ⟨hfr, rfl, hf₂, fun hb ↦ ofText_cut (ofText_suffix h) hf₂ hl hk hb⟩

end Lexeme

namespace Token

variable {file : FileId} {pos : Nat} {lead : List Char}

theorem length_place (ls : List Lexeme) :
    (place file pos lead ls).length = (ls.filterMap Lexeme.word?).length := by
  rw [← map_word_place file pos lead, List.length_map]

theorem exists_place_append (file : FileId) (pos : Nat) (lead : List Char)
    (ls ls' : List Lexeme) :
    ∃ pos' lead', place file pos lead (ls ++ ls') =
      place file pos lead ls ++ place file pos' lead' ls' := by
  induction ls generalizing pos lead with
  | nil => exact ⟨pos, lead, rfl⟩
  | cons l ls ih =>
    rw [List.cons_append, place, place]
    cases l.kind? with
    | none => exact ih (pos + byteSize l.text) (lead ++ l.text)
    | some k =>
      obtain ⟨pos', lead', h⟩ := ih (pos + byteSize l.text) []
      exact ⟨pos', lead', congrArg _ h⟩

theorem flatMap_place {ls : List Lexeme} (hlead : ls = [] → lead = [])
    (hlast : ∀ l ∈ ls.getLast?, l.kind? ≠ none) :
    ((place file pos lead ls).flatMap fun t ↦ t.lead ++ t.text) =
      lead ++ ls.flatMap Lexeme.text := by
  induction ls generalizing pos lead with
  | nil =>
    rw [hlead rfl]
    rfl
  | cons l ls ih =>
    have hlater : ∀ l' ∈ ls.getLast?, l'.kind? ≠ none := by
      intro l' hl'
      refine hlast l' ?_
      rw [List.getLast?_cons, Option.mem_def.1 hl']
      rfl
    rw [place, List.flatMap_cons]
    cases hk : l.kind? with
    | none =>
      have hne : ls ≠ [] := by
        rintro rfl
        exact hlast l rfl hk
      dsimp only
      rw [ih (fun hnil ↦ absurd hnil hne) hlater, List.append_assoc]
    | some k =>
      dsimp only
      rw [List.flatMap_cons, ih (fun _ ↦ rfl) hlater, List.nil_append, List.append_assoc]

theorem source_place {ls : List Lexeme} (h : Lexeme.Framed ls) :
    source (place file pos lead ls) = ls.flatMap Lexeme.text := by
  obtain ⟨⟨l, hl, hk⟩, l', hl', hk'⟩ := h
  cases ls with
  | nil => cases hl
  | cons l₁ ls =>
    obtain rfl := Option.some.inj hl
    obtain ⟨k, hk⟩ := Option.ne_none_iff_exists'.1 hk
    have hlater : ∀ l'' ∈ ls.getLast?, l''.kind? ≠ none := by
      intro l'' hl''
      rw [List.getLast?_cons, Option.mem_def.1 hl''] at hl'
      obtain rfl := Option.some.inj hl'
      exact hk'
    rw [place, hk]
    dsimp only
    rw [source, flatMap_place (fun _ ↦ rfl) hlater, List.nil_append, List.flatMap_cons]

end Token

/-- What stands between two words of a text is the stretch that the words make up. -/
theorem Scan.between_ofText (file : FileId) {cs : List Char} {ls₁ ls₂ ls₃ : List Lexeme}
    (h : Lexeme.ofText cs = ls₁ ++ (ls₂ ++ ls₃)) (hfr : Lexeme.Framed ls₂) :
    (ofText file cs).between
        ((ls₂.filterMap Lexeme.word?).length + (ls₃.filterMap Lexeme.word?).length)
        (ls₃.filterMap Lexeme.word?).length = ls₂.flatMap Lexeme.text := by
  obtain ⟨pos', lead', h₁⟩ := Token.exists_place_append file 0 [] ls₁ (ls₂ ++ ls₃)
  obtain ⟨pos'', lead'', h₂⟩ := Token.exists_place_append file pos' lead' ls₂ ls₃
  have htokens : (ofText file cs).tokens = Token.place file 0 [] ls₁ ++
      (Token.place file pos' lead' ls₂ ++ Token.place file pos'' lead'' ls₃) := by
    rw [← h₂, ← h₁, ← h]
    rfl
  have hstart : ((ofText file cs).tokens.length -
      ((ls₂.filterMap Lexeme.word?).length + (ls₃.filterMap Lexeme.word?).length)) =
        (Token.place file 0 [] ls₁).length := by
    rw [htokens]
    simp only [List.length_append, Token.length_place]
    omega
  have hcount : (ls₂.filterMap Lexeme.word?).length + (ls₃.filterMap Lexeme.word?).length -
      (ls₃.filterMap Lexeme.word?).length = (Token.place file pos' lead' ls₂).length := by
    rw [Token.length_place]
    omega
  rw [between, hstart, hcount, htokens, List.drop_left, List.take_left, Token.source_place hfr]

/-- Adjacent words of a text without faults, with all that stands between them. -/
theorem Scan.exists_excerpt {file : FileId} {cs : List Char} (hr : (ofText file cs).reports = [])
    {ws₁ ws₂ ws₃ : List Word} (hw : (ofText file cs).words = ws₁ ++ (ws₂ ++ ws₃)) (hne : ws₂ ≠ []) :
    ∃ ls, Lexeme.Excerpt ls ws₂ ∧ (ofText file cs).between (ws₂.length + ws₃.length) ws₃.length =
      ls.flatMap Lexeme.text := by
  rw [words_ofText_eq] at hw
  obtain ⟨ls₁, ls, ls₃, h, -, rfl, rfl, hfr⟩ := Lexeme.exists_framed hw hne
  exact ⟨ls, hfr.excerpt h fun l hl ↦ fault?_of_faultReports_eq_nil hr hl,
    between_ofText file h hfr⟩

end ClassModel
