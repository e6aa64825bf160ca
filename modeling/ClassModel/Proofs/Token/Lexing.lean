import ClassModel.Token.Scan

namespace ClassModel

theorem Ranges.has_eq_false_of_disjoint {r t : Ranges} {n : Nat}
    (h : ∀ p ∈ r, ∀ q ∈ t, p.2 < q.1 ∨ q.2 < p.1) (hn : r.has n = true) : t.has n = false := by
  obtain ⟨p, hp, hlo, hhi⟩ := has_iff.1 hn
  refine eq_false_of_ne_true fun ht ↦ ?_
  obtain ⟨q, hq, hlo', hhi'⟩ := has_iff.1 ht
  rcases h p hp q hq with h | h <;> omega

theorem has_of_isAlpha {c : Char} (h : c.isAlpha = true) :
    Ranges.has [(0x41, 0x5a), (0x61, 0x7a)] c.toNat = true := by
  rcases Bool.or_eq_true_iff.1 h with h | h
  · obtain ⟨hlo, hhi⟩ := of_decide_eq_true h
    exact Ranges.has_iff.2 ⟨(0x41, 0x5a), by simp, UInt32.le_iff_toNat_le.1 hlo,
      UInt32.le_iff_toNat_le.1 hhi⟩
  · obtain ⟨hlo, hhi⟩ := Bool.and_eq_true_iff.1 h
    exact Ranges.has_iff.2 ⟨(0x61, 0x7a), by simp,
      UInt32.le_iff_toNat_le.1 (of_decide_eq_true hlo),
      UInt32.le_iff_toNat_le.1 (of_decide_eq_true hhi)⟩

theorem isBlank_eq_false_of_isLetter {c : Char} (h : isLetter c = true) : isBlank c = false := by
  unfold isLetter at h
  split at h
  · exact Ranges.has_eq_false_of_disjoint (by decide) (has_of_isAlpha h)
  split at h
  · exact Ranges.has_eq_false_of_disjoint (by decide +kernel) h
  split at h
  · exact Ranges.has_eq_false_of_disjoint (by decide +kernel) h
  · exact Ranges.has_eq_false_of_disjoint (by decide +kernel) h

theorem isBlank_eq_false_of_isNameStart {c : Char} (h : isNameStart c = true) :
    isBlank c = false := by
  simp only [isNameStart, Bool.or_eq_true, beq_iff_eq] at h
  rcases h with (h | rfl) | rfl
  · exact isBlank_eq_false_of_isLetter h
  · decide
  · decide

theorem byteSize_append (cs cs' : List Char) :
    byteSize (cs ++ cs') = byteSize cs + byteSize cs' := by
  induction cs with
  | nil => simp [byteSize]
  | cons c cs ih => rw [List.cons_append, byteSize, byteSize, ih, Nat.add_assoc]

theorem Lexeme.first_blank {c : Char} (hb : isBlank c = false) (cs : List Char) :
    first ' ' (c :: cs) = (⟨.blank, [' ']⟩, c :: cs) := by
  rw [first, if_pos (by decide), List.takeWhile_cons_of_neg (by simp [hb]),
    List.dropWhile_cons_of_neg (by simp [hb])]

def Lexeme.word? (l : Lexeme) : Option Word := l.kind?.map (⟨·, String.ofList l.text⟩)

namespace Token

theorem map_word_place (file : FileId) (pos : Nat) (lead : List Char) (ls : List Lexeme) :
    (place file pos lead ls).map word = ls.filterMap Lexeme.word? := by
  induction ls generalizing pos lead with
  | nil => rfl
  | cons l ls ih =>
    rw [place, List.filterMap_cons, Lexeme.word?]
    split <;> simp_all [word]

theorem stop_of_getLast?_place (file : FileId) (pos : Nat) (lead : List Char) {ls : List Lexeme}
    {l : Lexeme} {k : Kind} (hl : ls.getLast? = some l) (hk : l.kind? = some k) :
    ∃ t, (place file pos lead ls).getLast? = some t ∧
      t.span.stop = .ofNat (pos + byteSize (ls.flatMap Lexeme.text)) := by
  induction ls generalizing pos lead with
  | nil => cases hl
  | cons l₁ ls ih =>
    rw [List.flatMap_cons, byteSize_append, ← Nat.add_assoc, place]
    cases ls with
    | nil =>
      obtain rfl : l₁ = l := Option.some.inj hl
      rw [hk]
      exact ⟨_, rfl, rfl⟩
    | cons l₂ ls =>
      rw [List.getLast?_cons_cons] at hl
      split
      · obtain ⟨t, ht, hstop⟩ := ih (pos + byteSize l₁.text) [] hl
        exact ⟨t, by rw [List.getLast?_cons, ht]; rfl, hstop⟩
      · exact ih (pos + byteSize l₁.text) (lead ++ l₁.text) hl

end Token

theorem Scan.words_ofText_eq (file : FileId) (cs : List Char) :
    (ofText file cs).words = (Lexeme.ofText cs).filterMap Lexeme.word? :=
  Token.map_word_place file 0 [] _

theorem faultReports_eq_nil (file : FileId) (pos : Nat) {ls : List Lexeme}
    (h : ∀ l ∈ ls, l.fault? = none) : faultReports file pos ls = [] := by
  induction ls generalizing pos with
  | nil => rfl
  | cons l ls ih =>
    rw [faultReports, h l List.mem_cons_self]
    exact ih _ fun l' hl ↦ h l' (List.mem_cons_of_mem l hl)

/-- A text that has the words `ws` and no fault, and ends with a token. -/
structure Reads (cs : List Char) (ws : List Word) : Prop where
  words : (Lexeme.ofText cs).filterMap Lexeme.word? = ws
  faultless : ∀ l ∈ Lexeme.ofText cs, l.fault? = none
  ends : ∃ l k, (Lexeme.ofText cs).getLast? = some l ∧ l.kind? = some k

namespace Reads

variable {cs rest : List Char} {ws : List Word}

theorem of_first {c : Char} {l : Lexeme} (hf : Lexeme.first c cs = (l, rest))
    (hl : l.fault? = none) (h : Reads rest ws) : Reads (c :: cs) (l.word?.toList ++ ws) := by
  obtain ⟨hw, hn, l', k, hlast, hk⟩ := h
  have ho : Lexeme.ofText (c :: cs) = l :: Lexeme.ofText rest := by rw [Lexeme.ofText_cons, hf]
  refine ⟨?_, ?_, l', k, ?_, hk⟩
  · rw [ho, List.filterMap_cons, hw]
    cases l.word? <;> rfl
  · rw [ho]
    intro l₁ h₁
    rcases List.mem_cons.1 h₁ with rfl | h₁
    · exact hl
    · exact hn l₁ h₁
  · rw [ho, List.getLast?_cons, hlast]
    rfl

theorem first_of_ofPunctuation? {c : Char} {k : Token.Kind}
    (hk : Token.Kind.ofPunctuation? c = some k) (hc : c ≠ '/' ∧ c ≠ '.') (cs : List Char) :
    Lexeme.first c cs = (⟨.token k, [c]⟩, cs) := by
  unfold Token.Kind.ofPunctuation? at hk
  split at hk <;> cases hk <;> first | rfl | exact absurd rfl hc.1 | exact absurd rfl hc.2

theorem punctuation {c : Char} {k : Token.Kind} (hk : Token.Kind.ofPunctuation? c = some k)
    (hc : c ≠ '/' ∧ c ≠ '.') (h : Reads rest ws) :
    Reads (c :: rest) (⟨k, String.singleton c⟩ :: ws) :=
  of_first (first_of_ofPunctuation? hk hc rest) rfl h

theorem of_last {c : Char} {k : Token.Kind} (hf : Lexeme.first c cs = (⟨.token k, c :: cs⟩, [])) :
    Reads (c :: cs) [⟨k, String.ofList (c :: cs)⟩] := by
  have ho : Lexeme.ofText (c :: cs) = [⟨.token k, c :: cs⟩] := by
    rw [Lexeme.ofText_cons, hf, Lexeme.ofText]
  refine ⟨by rw [ho]; rfl, fun l hl ↦ ?_, ⟨.token k, c :: cs⟩, k, by rw [ho]; rfl, rfl⟩
  rw [ho] at hl
  obtain rfl := List.mem_singleton.1 hl
  rfl

theorem last {c : Char} {k : Token.Kind} (hk : Token.Kind.ofPunctuation? c = some k)
    (hc : c ≠ '/' ∧ c ≠ '.') : Reads [c] [⟨k, String.singleton c⟩] :=
  of_last (first_of_ofPunctuation? hk hc [])

theorem semicolon : Reads [';'] [⟨.semicolon, ";"⟩] := last rfl (by decide)

def Boundary (cs : List Char) : Prop := ∀ c ∈ cs.head?, isNameChar c = false

theorem boundary_cons {c : Char} (hc : isNameChar c = false) (cs : List Char) :
    Boundary (c :: cs) := by
  rintro d ⟨⟩
  exact hc

theorem name {c : Char} (hc : isNameStart c = true) (hcs : ∀ d ∈ cs, isNameChar d = true)
    (hb : Boundary rest) (h : Reads rest ws) :
    Reads (c :: (cs ++ rest))
      (⟨.ofName (String.ofList (c :: cs)), String.ofList (c :: cs)⟩ :: ws) := by
  have ht : rest.takeWhile isNameChar = [] ∧ rest.dropWhile isNameChar = rest := by
    cases rest with
    | nil => exact ⟨rfl, rfl⟩
    | cons d rest =>
      have hd : isNameChar d = false := hb d rfl
      exact ⟨List.takeWhile_cons_of_neg (by simp [hd]), List.dropWhile_cons_of_neg (by simp [hd])⟩
  have hf : Lexeme.first c (cs ++ rest) = (Lexeme.word (c :: cs), rest) := by
    rw [Lexeme.first, if_neg (by simp [isBlank_eq_false_of_isNameStart hc]), if_pos hc,
      List.takeWhile_append_of_pos hcs, List.dropWhile_append_of_pos hcs, ht.1, ht.2,
      List.append_nil]
  exact of_first hf rfl h

variable {c : Char}

theorem blank_of_not_isBlank (hb : isBlank c = false) (h : Reads (c :: cs) ws) :
    Reads (' ' :: c :: cs) ws :=
  of_first (Lexeme.first_blank hb cs) rfl h

theorem blank (hc : isNameStart c = true) (h : Reads (c :: cs) ws) : Reads (' ' :: c :: cs) ws :=
  h.blank_of_not_isBlank (isBlank_eq_false_of_isNameStart hc)

theorem emptyBody : Reads [' ', '{', ' ', '}'] [⟨.leftBrace, "\x7b"⟩, ⟨.rightBrace, "\x7d"⟩] := by
  have hclose : Reads [' ', '}'] [⟨.rightBrace, "\x7d"⟩] :=
    (last rfl (by decide)).blank_of_not_isBlank (by decide)
  have hopen : Reads ['{', ' ', '}'] [⟨.leftBrace, "\x7b"⟩, ⟨.rightBrace, "\x7d"⟩] :=
    hclose.punctuation rfl (by decide)
  exact hopen.blank_of_not_isBlank (by decide)

theorem dot (hc : isNameStart c = true) (h : Reads (c :: cs) ws) :
    Reads ('.' :: c :: cs) (⟨.dot, "."⟩ :: ws) := by
  have hd : c ≠ '.' := by
    rintro rfl
    revert hc
    decide
  have hf : Lexeme.first '.' (c :: cs) = (⟨.token .dot, ['.']⟩, c :: cs) := by
    show Lexeme.symbol '.' (c :: cs) = _
    rw [Lexeme.symbol.eq_def]
    split
    · next he _ => exact absurd he (by decide)
    · next he _ => exact absurd he (by decide)
    · next he => exact absurd (List.cons.inj he).1 hd
    · rfl
  exact of_first hf rfl h

theorem ellipsis (h : Reads cs ws) :
    Reads ('.' :: '.' :: '.' :: cs) (⟨.ellipsis, "..."⟩ :: ws) :=
  of_first rfl rfl h

theorem words_ofText (file : FileId) (h : Reads cs ws) : (Scan.ofText file cs).words = ws :=
  (Scan.words_ofText_eq file cs).trans h.words

theorem reports_ofText (file : FileId) (h : Reads cs ws) : (Scan.ofText file cs).reports = [] :=
  faultReports_eq_nil file 0 h.faultless

/-- A text that also begins with a token is covered by its tokens. -/
theorem extent_ofText (file : FileId) (hc : isNameStart c = true) (h : Reads (c :: cs) ws)
    (hs : byteSize (c :: cs) < UInt32.size) :
    (Scan.ofText file (c :: cs)).extent = .ofNat file 0 (byteSize (c :: cs)) := by
  obtain ⟨l, k, hl, hk⟩ := h.ends
  obtain ⟨t, ht, hstop⟩ := Token.stop_of_getLast?_place file 0 [] hl hk
  rw [Lexeme.flatMap_text_ofText, Nat.zero_add] at hstop
  have hb : isBlank c = false := isBlank_eq_false_of_isNameStart hc
  have hw : (Lexeme.first c cs).1 = Lexeme.word (c :: cs.takeWhile isNameChar) := by
    rw [Lexeme.first, if_neg (by simp [hb]), if_pos hc]
  have hle : byteSize (Lexeme.first c cs).1.text ≤ byteSize (c :: cs) := by
    rw [← Lexeme.first_append c cs, byteSize_append]
    exact Nat.le_add_right _ _
  have hhead : (Scan.ofText file (c :: cs)).tokens.head? = some
      ⟨[], .ofName (String.ofList (c :: cs.takeWhile isNameChar)), (Lexeme.first c cs).1.text,
        .ofNat file 0 (byteSize (Lexeme.first c cs).1.text)⟩ := by
    rw [Scan.ofText, Lexeme.ofText_cons, Token.place]
    simp [hw, Lexeme.kind?, Lexeme.word]
  have hlast : (Scan.ofText file (c :: cs)).tokens.getLast? = some t := ht
  rw [Scan.extent, hhead, hlast]
  have hmin : min (.ofNat 0) t.span.start = (.ofNat 0 : UInt32) :=
    if_pos (UInt32.zero_le (a := t.span.start))
  have hmax : max (.ofNat (byteSize (Lexeme.first c cs).1.text)) (.ofNat (byteSize (c :: cs))) =
      UInt32.ofNat (byteSize (c :: cs)) :=
    if_pos ((UInt32.ofNat_le_iff_le (Nat.lt_of_le_of_lt hle hs) hs).2 hle)
  simp only [Span.cover, Span.ofNat, hstop, hmin, hmax]

end Reads

end ClassModel
