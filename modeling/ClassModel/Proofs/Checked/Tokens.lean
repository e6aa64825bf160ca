import ClassModel.Proofs.Checked.Lexer
import ClassModel.Proofs.Token.Layout

namespace ClassModel

namespace Checked

open Lexeme

variable {file : FileId} {text cs part : List Char} {pos turns : Nat} {p : Char → Bool}

theorem rest_eq (h : fromByte? pos text = some cs) : rest text pos = .ok cs := by
  rw [rest, h]

theorem bump_nil (h : fromByte? pos text = some []) : bump text pos = .ok (none, pos) := by
  rw [bump, rest_eq h]
  rfl

theorem bump_cons {c : Char} (h : fromByte? pos text = some (c :: cs)) :
    bump text pos = .ok (some c, pos + c.utf8Size) := by
  rw [bump, rest_eq h]
  rfl

theorem slice_eq (h : fromByte? pos text = some (part ++ cs)) :
    slice text pos (pos + byteSize part) = .ok part := by
  rw [slice, slice?_of_fromByte? h]

theorem eatWhile_eq (h : fromByte? pos text = some cs) (ht : cs.length < turns) :
    eatWhile text p turns pos = .ok (pos + byteSize (cs.takeWhile p)) := by
  induction turns generalizing pos cs with
  | zero => omega
  | succ turns ih =>
    rw [eatWhile, rest_eq h]
    cases cs with
    | nil => rfl
    | cons c cs =>
      rw [List.length_cons] at ht
      cases hc : p c with
      | false => simp [bind, Except.bind, hc, byteSize]
      | true =>
        have hrest := ih (fromByte?_succ h) (by omega)
        simp [bind, Except.bind, hc, bump_cons h, hrest, byteSize, Nat.add_assoc]

theorem eatNumber_eq (h : fromByte? pos text = some cs) (ht : cs.length < turns) :
    eatNumber text turns pos = .ok (pos + byteSize (numberRest cs).1) := by
  induction turns generalizing pos cs with
  | zero => omega
  | succ turns ih =>
    rw [eatNumber, rest_eq h]
    cases cs with
    | nil => rfl
    | cons c cs =>
      rw [List.length_cons] at ht
      have hrest := ih (fromByte?_succ h) (by omega)
      cases hc : c.isAlphanum || c == '_' <;> cases hd : c == '.' && cs.head?.any Char.isDigit <;>
        simp [bind, Except.bind, hc, hd, bump_cons h, hrest, numberRest, byteSize, Nat.add_assoc]

theorem eatQuoted_eq (q : Char) (h : fromByte? pos text = some cs) (ht : cs.length < turns) :
    eatQuoted text q turns pos =
      .ok ((quotedRest q cs).2.1, pos + byteSize (quotedRest q cs).1) := by
  induction turns generalizing pos cs with
  | zero => omega
  | succ turns ih =>
    rw [eatQuoted]
    fun_cases quotedRest q cs with
    | case1 =>
      rw [bump_nil h]
      rfl
    | case2 =>
      have hend := ih (fromByte?_succ h) (by simpa using ht)
      simp [bind, Except.bind, bump_cons h, bump_nil (fromByte?_succ h), hend, quotedRest, byteSize]
    | case3 d cs =>
      have hd := fromByte?_succ h
      have hrest := ih (fromByte?_succ hd) (by simp at ht; omega)
      simpa [bind, Except.bind, bump_cons h, bump_cons hd, byteSize, Nat.add_assoc] using hrest
    | case4 cs => simp [bind, Except.bind, bump_cons h, byteSize]
    | case5 cs h₁ h₂ hn =>
      simp [bind, Except.bind, bump_cons h, hn, ne_backslash h₁ h₂, byteSize]
    | case6 c cs h₁ h₂ hn hq =>
      have hrest := ih (fromByte?_succ h) (by simpa using ht)
      simp [bind, Except.bind, bump_cons h, hn, hq, ne_backslash h₁ h₂, hrest, byteSize,
        Nat.add_assoc]

theorem closingMark?_cases (cs : List Char) :
    (closingMark? cs = none ∧ commentRest cs = none) ∨
      ∃ n r, closingMark? cs = some n ∧ commentRest cs = some r ∧ byteSize r.1 = n + 2 := by
  fun_induction commentRest cs with
  | case1 => exact .inl ⟨rfl, rfl⟩
  | case2 cs => exact .inr ⟨0, _, rfl, rfl, rfl⟩
  | case3 c cs h ih =>
    have hmark : closingMark? (c :: cs) = (closingMark? cs).map (c.utf8Size + ·) := by
      rw [closingMark?]
      exact h
    rw [hmark]
    rcases ih with ⟨hn, hr⟩ | ⟨n, r, hn, hr, hsize⟩
    · exact .inl ⟨by rw [hn]; rfl, by rw [hr]; rfl⟩
    · refine .inr ⟨c.utf8Size + n, pass c r, by rw [hn]; rfl, by rw [hr]; rfl, ?_⟩
      rw [Lexeme.pass, byteSize, hsize, Nat.add_assoc]

def made (file : FileId) (pos : Nat) (k : Token.Kind) (l : Lexeme) : Placed × Nat × List Report :=
  ((k, .ofNat file pos (pos + byteSize l.text)), pos + byteSize l.text, faultReports file pos [l])

theorem made_token (k : Token.Kind) (part : List Char) :
    made file pos k ⟨.token k, part⟩ = token file pos k (pos + byteSize part) := rfl

theorem made_faulty (f : Fault) (part : List Char) :
    made file pos .error ⟨.faulty f, part⟩ = faultyToken file pos f (pos + byteSize part) := rfl

theorem symbolToken_eq {c : Char} {k : Token.Kind} (h : fromByte? pos text = some (c :: cs))
    (hk : (symbol c cs).1.kind? = some k) :
    symbolToken file text pos c (pos + c.utf8Size) = .ok (made file pos k (symbol c cs).1) := by
  have hrest := rest_eq (fromByte?_succ h)
  rw [symbolToken]
  revert hk
  fun_cases symbol c cs with
  | case1 => rintro ⟨⟩
  | case2 => rintro ⟨⟩
  | case3 => rintro ⟨⟩
  | case4 cs =>
    rintro ⟨⟩
    rw [if_pos rfl, hrest]
    rfl
  | case5 c cs _ _ hdots kind hkind =>
    rintro ⟨⟩
    rw [made_token]
    split
    · next hc =>
      subst hc
      obtain rfl : Token.Kind.dot = k := Option.some.inj hkind
      rw [hrest]
      simp only [bind, Except.bind]
      split
      · exact absurd rfl (hdots _ rfl)
      · rfl
    · rw [hkind]
      rfl
  | case6 c cs _ _ _ hkind =>
    rintro ⟨⟩
    rw [made_faulty]
    split
    · next hc =>
      subst hc
      cases hkind
    · rw [hkind]
      rfl

theorem nextToken_eq {c : Char} {k : Token.Kind} (h : fromByte? pos text = some (c :: cs))
    (hk : (first c cs).1.kind? = some k) :
    nextToken file text pos = .ok (made file pos k (first c cs).1) := by
  have hrest := fromByte?_succ h
  have hturns := length_lt_of_fromByte? hrest
  rw [nextToken, bump_cons h]
  revert hk
  fun_cases first c cs with
  | case1 => rintro ⟨⟩
  | case2 hb hn =>
    rintro ⟨⟩
    have htext : c :: cs = (c :: cs.takeWhile isNameChar) ++ cs.dropWhile isNameChar := by simp
    have hword := slice_eq (htext ▸ h)
    have hpos : pos + c.utf8Size + byteSize (cs.takeWhile isNameChar) =
        pos + byteSize (c :: cs.takeWhile isNameChar) := Nat.add_assoc ..
    simp [bind, Except.bind, hn, eatWhile_eq hrest hturns, hpos, hword, word, made_token]
  | case3 hb hn hd =>
    rintro ⟨⟩
    simp [bind, Except.bind, hn, hd, eatNumber_eq hrest hturns, number, made_token, byteSize,
      Nat.add_assoc]
  | case4 hb hn hd hq =>
    have heat := eatQuoted_eq c hrest hturns
    generalize quotedRest c cs = r at heat ⊢
    obtain ⟨part, f, after⟩ := r
    cases f with
    | none =>
      rintro ⟨⟩
      simp [bind, Except.bind, hn, hd, hq, heat, literal, literalShape, made_token, byteSize,
        Nat.add_assoc]
    | some f =>
      intro hk
      obtain rfl : k = .error := by cases f <;> cases hk <;> rfl
      simp [bind, Except.bind, hn, hd, hq, heat, literal, literalShape, made_faulty, byteSize,
        Nat.add_assoc]
  | case5 hb hn hd hq =>
    intro hk
    simpa [bind, Except.bind, hn, hd, hq] using symbolToken_eq h hk

theorem faultReports_append (ls ls' : List Lexeme) :
    faultReports file pos (ls ++ ls') =
      faultReports file pos ls ++
        faultReports file (pos + byteSize (ls.flatMap Lexeme.text)) ls' := by
  induction ls generalizing pos with
  | nil => rfl
  | cons l ls ih =>
    rw [List.cons_append, faultReports, faultReports, List.flatMap_cons, byteSize_append,
      ← Nat.add_assoc]
    split <;> simp [ih]

theorem faultReports_cons (l : Lexeme) (ls : List Lexeme) :
    faultReports file pos (l :: ls) =
      faultReports file pos [l] ++ faultReports file (pos + byteSize l.text) ls := by
  have happend : faultReports file pos ([l] ++ ls) = _ := faultReports_append [l] ls
  rwa [List.flatMap_singleton] at happend

theorem comment_eq (file : FileId) (h : fromByte? pos text = some cs) :
    (comment file text pos = .ok none ∧
      ∀ c ds, cs = c :: ds → isBlank c = false → (first c ds).1.kind? ≠ none) ∨
    ∃ c ds l after, cs = c :: ds ∧ first c ds = (l, after) ∧ l.kind? = none ∧
      comment file text pos = .ok (some (pos + byteSize l.text, faultReports file pos [l])) := by
  rw [comment, rest_eq h]
  simp only [bind, Except.bind]
  split
  · next ds =>
    refine .inr ⟨'/', '/' :: ds, _, _, rfl, rfl, rfl, ?_⟩
    rw [eatWhile_eq h (length_lt_of_fromByte? h)]
    rfl
  · next ds =>
    have hinner : fromByte? (pos + 2) text = some ds :=
      fromByte?_add (show fromByte? pos text = some (['/', '*'] ++ ds) from h)
    rw [rest_eq hinner]
    rcases closingMark?_cases ds with ⟨hn, hr⟩ | ⟨n, r, hn, hr, hsize⟩
    · have hf : first '/' ('*' :: ds) = (⟨.faulty .openComment, '/' :: '*' :: ds⟩, []) := by
        change symbol '/' ('*' :: ds) = _
        rw [symbol, hr]
      refine .inr ⟨'/', '*' :: ds, _, _, rfl, hf, rfl, ?_⟩
      simp only [hn, byteSize_of_fromByte? h]
      rfl
    · have hf : first '/' ('*' :: ds) = (⟨.blockComment, '/' :: '*' :: r.1⟩, r.2) := by
        change symbol '/' ('*' :: ds) = _
        rw [symbol, hr]
      have hstop : pos + byteSize ('/' :: '*' :: r.1) = pos + 2 + n + 2 := by
        change pos + (1 + (1 + byteSize r.1)) = _
        omega
      refine .inr ⟨'/', '*' :: ds, _, _, rfl, hf, rfl, ?_⟩
      simp only [hn, hstop]
      rfl
  · next hline hblock =>
    refine .inl ⟨rfl, ?_⟩
    rintro c ds rfl hb
    refine kind?_first_ne_none hb ?_
    rintro rfl
    constructor
    · intro hd
      obtain ⟨ds, rfl⟩ := List.head?_eq_some_iff.1 hd
      exact hline ds rfl
    · intro hd
      obtain ⟨ds, rfl⟩ := List.head?_eq_some_iff.1 hd
      exact hblock ds rfl

theorem eatBlanks_eq (h : fromByte? pos text = some cs) :
    ∃ ls, (∀ {ls' after}, Skips (cs.dropWhile isBlank) ls' after → Skips cs (ls ++ ls') after) ∧
      eatWhile text isBlank (text.length + 1) pos = .ok (pos + byteSize (ls.flatMap Lexeme.text)) ∧
      fromByte? (pos + byteSize (ls.flatMap Lexeme.text)) text = some (cs.dropWhile isBlank) ∧
      ∀ file, faultReports file pos ls = [] := by
  have heat : eatWhile text isBlank (text.length + 1) pos = _ :=
    eatWhile_eq h (length_lt_of_fromByte? h)
  have hdrop : fromByte? (pos + byteSize (cs.takeWhile isBlank)) text =
      some (cs.dropWhile isBlank) := fromByte?_add (by simpa using h)
  obtain ⟨ls, hls, htext, hfaults⟩ : ∃ ls,
      (∀ {ls' after}, Skips (cs.dropWhile isBlank) ls' after → Skips cs (ls ++ ls') after) ∧
      ls.flatMap Lexeme.text = cs.takeWhile isBlank ∧ ∀ file, faultReports file pos ls = [] := by
    cases cs with
    | nil => exact ⟨[], id, rfl, fun _ ↦ rfl⟩
    | cons c cs =>
      cases hc : isBlank c with
      | false =>
        rw [List.dropWhile_cons_of_neg (by simp [hc]), List.takeWhile_cons_of_neg (by simp [hc])]
        exact ⟨[], id, rfl, fun _ ↦ rfl⟩
      | true =>
        have hf : first c cs = (⟨.blank, c :: cs.takeWhile isBlank⟩, cs.dropWhile isBlank) := by
          rw [first, if_pos hc]
        rw [List.dropWhile_cons_of_pos hc, List.takeWhile_cons_of_pos hc]
        exact ⟨[_], fun h ↦ h.cons hf rfl, List.append_nil _, fun _ ↦ rfl⟩
  rw [← htext] at heat hdrop
  exact ⟨ls, hls, heat, hdrop, hfaults⟩

theorem skipLayout_eq (file : FileId) (h : fromByte? pos text = some cs) (ht : cs.length < turns) :
    ∃ ls after, Skips cs ls after ∧ (∀ c ds, after = c :: ds → (first c ds).1.kind? ≠ none) ∧
      skipLayout file text turns pos =
        .ok (pos + byteSize (ls.flatMap Lexeme.text), faultReports file pos ls) := by
  induction turns generalizing pos cs with
  | zero => omega
  | succ turns ih =>
    obtain ⟨ls, hls, heat, hdrop, hfaults⟩ := eatBlanks_eq h
    rw [skipLayout, heat]
    rcases comment_eq file hdrop with ⟨hnone, hfirst⟩ | ⟨c, ds, l, after, hds, hf, hl, hsome⟩
    · refine ⟨ls, cs.dropWhile isBlank, by simpa using hls (.nil _), fun c ds hds ↦ ?_, ?_⟩
      · have hstop := List.head?_dropWhile_not isBlank cs
        rw [hds] at hstop
        exact hfirst c ds hds hstop
      · simp [bind, Except.bind, hnone, hfaults]
    · have hcs : l.text ++ after = c :: ds := by
        have happend := first_append c ds
        rwa [hf] at happend
      have hshort : after.length < turns := by
        have hfirst : after.length < ds.length + 1 := by simpa [hf] using first_shortens c ds
        have hdrops := (List.dropWhile_sublist isBlank (l := cs)).length_le
        rw [hds, List.length_cons] at hdrops
        omega
      rw [hds, ← hcs] at hdrop
      obtain ⟨ls', after', hls', hbegin, hskip⟩ := ih (fromByte?_add hdrop) hshort
      have hstop : pos + byteSize ((ls ++ l :: ls').flatMap Lexeme.text) =
          pos + byteSize (ls.flatMap Lexeme.text) + byteSize l.text +
            byteSize (ls'.flatMap Lexeme.text) := by
        rw [List.flatMap_append, List.flatMap_cons, byteSize_append, byteSize_append,
          Nat.add_assoc, Nat.add_assoc]
      have hreports : faultReports file pos (ls ++ l :: ls') = _ :=
        (faultReports_append ls (l :: ls')).trans (congrArg _ (faultReports_cons l ls'))
      rw [hfaults, List.nil_append] at hreports
      refine ⟨ls ++ l :: ls', after', hls (hds ▸ hls'.cons hf hl), hbegin, ?_⟩
      simp only [bind, Except.bind, hsome, hskip, hstop, hreports]

theorem place_append (lead : List Char) (ls ls' : List Lexeme) (h : ∀ l ∈ ls, l.kind? = none) :
    Token.place file pos lead (ls ++ ls') =
      Token.place file (pos + byteSize (ls.flatMap Lexeme.text))
        (lead ++ ls.flatMap Lexeme.text) ls' := by
  induction ls generalizing pos lead with
  | nil => simp [byteSize]
  | cons l ls ih =>
    rw [List.cons_append, Token.place, h l List.mem_cons_self]
    dsimp only
    rw [ih _ fun l' hl' ↦ h l' (List.mem_cons_of_mem l hl'), List.flatMap_cons, byteSize_append,
      Nat.add_assoc, List.append_assoc]

theorem lexFrom_eq (lead : List Char) (h : fromByte? pos text = some cs) (ht : cs.length < turns) :
    lexFrom file text turns pos =
      .ok ((Token.place file pos lead (ofText cs)).map (fun t ↦ (t.kind, t.span)) ++
          [(.eof, .ofNat file (byteSize text) (byteSize text))],
        faultReports file pos (ofText cs)) := by
  induction turns generalizing pos cs lead with
  | zero => omega
  | succ turns ih =>
    obtain ⟨ls, after, hls, hbegin, hskip⟩ := skipLayout_eq file h (length_lt_of_fromByte? h)
    have hafter : fromByte? (pos + byteSize (ls.flatMap Lexeme.text)) text = some after :=
      fromByte?_add (hls.text_eq ▸ h)
    have hsize := byteSize_of_fromByte? hafter
    rw [lexFrom, hskip, hls.lexemes, place_append lead ls _ hls.silent, faultReports_append]
    simp only [bind, Except.bind]
    cases after with
    | nil =>
      have hsize : byteSize text = pos + byteSize (ls.flatMap Lexeme.text) := hsize
      rw [if_pos (Nat.le_of_eq hsize), hsize]
      simp [ofText, Token.place, faultReports]
    | cons c ds =>
      have hlt : ¬byteSize text ≤ pos + byteSize (ls.flatMap Lexeme.text) := by
        have hc := c.utf8Size_pos
        rw [byteSize] at hsize
        omega
      obtain ⟨k, hk⟩ := Option.ne_none_iff_exists'.1 (hbegin c ds rfl)
      have hlater := hafter
      rw [← first_append c ds] at hlater
      have hshort : (first c ds).2.length < turns := by
        have hfirst := first_shortens c ds
        have hlen := congrArg List.length hls.text_eq
        rw [List.length_append, List.length_cons] at hlen
        omega
      rw [if_neg hlt, nextToken_eq hafter hk]
      simp only [made]
      rw [ih [] (fromByte?_add hlater) hshort, ofText_cons, faultReports_cons _ (ofText _),
        Token.place, hk]
      simp only [List.map_cons, List.cons_append, List.append_assoc]

/-- The tokens found are those of a scan, and there is an end to finding them. -/
theorem lex_eq (file : FileId) (text : List Char) :
    lex file text = .ok ((Scan.ofText file text).kinds, (Scan.ofText file text).reports) :=
  lexFrom_eq [] (fromByte?_zero text) (Nat.lt_succ_self _)

end Checked

end ClassModel
