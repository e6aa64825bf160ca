import ClassModel.Proofs.Token.Excerpt
import ClassModel.Proofs.Token.Tiling

namespace ClassModel

namespace Lexeme

variable {cs after gap body : List Char} {c : Char} {ls ls' : List Lexeme} {l : Lexeme}

def unclosed (body : List Char) : Lexeme := ⟨.faulty .openComment, '/' :: '*' :: body⟩

theorem commentRest_of_first_mark (hb : ¬['*', '/'] <:+: body ++ ['*']) :
    commentRest (body ++ '*' :: '/' :: cs) = some (body ++ ['*', '/'], cs) := by
  induction body with
  | nil => rfl
  | cons c body ih =>
    have htail := ih fun hinfix ↦ hb (List.infix_cons hinfix)
    have hmark : ∀ ds, c = '*' → body ++ '*' :: '/' :: cs = '/' :: ds → False := by
      rintro ds rfl hds
      cases body with
      | nil => exact absurd (List.cons.inj hds).1 (by decide)
      | cons d body =>
        obtain ⟨rfl, -⟩ := List.cons.inj hds
        exact hb ⟨[], body ++ ['*'], by simp⟩
    rw [List.cons_append, commentRest.eq_3 _ _ hmark, htail]
    rfl

theorem commentRest_eq_none_iff : commentRest cs = none ↔ ¬['*', '/'] <:+: cs := by
  refine ⟨commentRest_eq_none, fun hb ↦ Option.eq_none_iff_forall_ne_some.2 fun r hr ↦ hb ?_⟩
  obtain ⟨body, hbody, -⟩ := commentRest_eq_some hr
  have hcs := commentRest_append hr
  rw [hbody] at hcs
  exact ⟨body, r.2, hcs⟩

theorem ofText_unclosed (hb : ¬['*', '/'] <:+: body) :
    ofText ('/' :: '*' :: body) = [unclosed body] := by
  have hf : first '/' ('*' :: body) = (unclosed body, []) := by
    change symbol '/' ('*' :: body) = _
    rw [symbol, commentRest_eq_none_iff.2 hb]
    rfl
  rw [ofText_cons, hf, ofText]

theorem first_of_openComment (hf : (first c cs).1.fault? = some .openComment) :
    ∃ body, ¬['*', '/'] <:+: body ∧ first c cs = (unclosed body, []) := by
  revert hf
  fun_cases first c cs with
  | case1 | case2 | case3 => rintro ⟨⟩
  | case4 =>
    have hne := quotedRest_ne_openComment c cs
    unfold literal literalShape fault?
    cases hq : (quotedRest c cs).2.1 with
    | none => rintro ⟨⟩
    | some f =>
      rintro ⟨⟩
      exact absurd hq hne
  | case5 =>
    fun_cases symbol c cs with
    | case3 cs hr => exact fun _ ↦ ⟨cs, commentRest_eq_none_iff.1 hr, rfl⟩
    | _ => rintro ⟨⟩

theorem eq_unclosed_of_openComment (h : ofText cs = ls ++ l :: ls')
    (hf : l.fault? = some .openComment) :
    ls' = [] ∧ ∃ body, ¬['*', '/'] <:+: body ∧ l = unclosed body := by
  have htail := ofText_suffix h
  generalize (l :: ls').flatMap text = ds at htail
  cases ds with
  | nil =>
    rw [ofText] at htail
    cases htail
  | cons d ds =>
    rw [ofText_cons] at htail
    obtain ⟨rfl, rfl⟩ := List.cons.inj htail
    obtain ⟨body, hb, hfirst⟩ := first_of_openComment hf
    rw [hfirst, ofText]
    exact ⟨rfl, body, hb, rfl⟩

theorem kind?_eq_error_iff (hl : l ∈ ofText cs) (hf : l.fault? ≠ some .openComment) :
    l.kind? = some .error ↔ l.fault? ≠ none := by
  refine ⟨fun hk ↦ (kind?_of_mem_ofText hl hk).2 rfl, fun hne ↦ ?_⟩
  obtain ⟨shape, part⟩ := l
  cases shape with
  | faulty f => cases f <;> first | rfl | exact absurd rfl hf
  | _ => exact absurd rfl hne

theorem Skips.blank {b : Char} (hb : isBlank b = true) (hc : isBlank c = false)
    (h : Skips cs ls (c :: after)) : ∃ ls', Skips (b :: cs) ls' (c :: after) := by
  have hcs := h.text_eq
  cases cs with
  | nil => simp at hcs
  | cons d ds =>
    cases hd : isBlank d with
    | false =>
      have hf : first b (d :: ds) = (⟨.blank, [b]⟩, d :: ds) := by
        rw [first, if_pos hb, List.takeWhile_cons_of_neg (by simp [hd]),
          List.dropWhile_cons_of_neg (by simp [hd])]
      exact ⟨_, h.cons hf rfl⟩
    | true =>
      have hf : first b (d :: ds) =
          (⟨.blank, b :: d :: ds.takeWhile isBlank⟩, ds.dropWhile isBlank) := by
        rw [first, if_pos hb, List.takeWhile_cons_of_pos hd, List.dropWhile_cons_of_pos hd]
      have hlexemes := h.lexemes
      rw [ofText_cons, first, if_pos hd] at hlexemes
      cases ls with
      | nil =>
        obtain ⟨rfl, -⟩ := List.cons.inj hcs
        rw [hc] at hd
        cases hd
      | cons l ls =>
        have htail : Skips (ds.dropWhile isBlank) ls (c :: after) :=
          ⟨(List.cons.inj hlexemes).2, fun l' hl' ↦ h.silent l' (List.mem_cons_of_mem l hl')⟩
        exact ⟨_, htail.cons hf rfl⟩

end Lexeme

open Lexeme in
theorem Layout.skips {cs gap : List Char} {c : Char} (hc : isBlank c = false)
    (h : Layout (c :: cs) gap) : ∃ ls, Skips (gap ++ c :: cs) ls (c :: cs) := by
  induction h with
  | none => exact ⟨[], .nil _⟩
  | blank hb h ih =>
    obtain ⟨ls, hls⟩ := ih
    exact hls.blank hb hc
  | @lineComment body gap hb he h ih =>
    obtain ⟨ls, hls⟩ := ih
    have hbody : ∀ d ∈ body, (decide (d ≠ '\n')) = true := by
      intro d hd
      refine decide_eq_true ?_
      rintro rfl
      exact hb hd
    have hstop : (gap ++ c :: cs).takeWhile (· ≠ '\n') = [] ∧
        (gap ++ c :: cs).dropWhile (· ≠ '\n') = gap ++ c :: cs := by
      generalize gap ++ c :: cs = ds at he
      cases ds with
      | nil => exact ⟨rfl, rfl⟩
      | cons d ds =>
        obtain rfl := he d rfl
        exact ⟨rfl, rfl⟩
    have hf : first '/' ('/' :: (body ++ (gap ++ c :: cs))) =
        (⟨.lineComment, '/' :: '/' :: body⟩, gap ++ c :: cs) := by
      change symbol '/' ('/' :: (body ++ (gap ++ c :: cs))) = _
      rw [symbol, List.takeWhile_append_of_pos hbody, List.dropWhile_append_of_pos hbody, hstop.1,
        hstop.2, List.append_nil]
    have hcons := hls.cons hf rfl
    exact ⟨_, by simpa using hcons⟩
  | @blockComment body gap hb h ih =>
    obtain ⟨ls, hls⟩ := ih
    have hf : first '/' ('*' :: (body ++ '*' :: '/' :: (gap ++ c :: cs))) =
        (⟨.blockComment, '/' :: '*' :: (body ++ ['*', '/'])⟩, gap ++ c :: cs) := by
      change symbol '/' ('*' :: (body ++ '*' :: '/' :: (gap ++ c :: cs))) = _
      rw [symbol, commentRest_of_first_mark hb]
    have hcons := hls.cons hf rfl
    exact ⟨_, by simpa using hcons⟩
  | openComment hb ha => cases ha

variable {file : FileId} {pos : Nat} {lead : List Char} {ls : List Lexeme}

theorem exists_silent_tail (ls : List Lexeme) :
    ∃ ls₁ ls₂, ls = ls₁ ++ ls₂ ∧ (∀ l ∈ ls₁.getLast?, ∃ k, l.kind? = some k) ∧
      ∀ l ∈ ls₂, l.kind? = none := by
  induction ls with
  | nil => exact ⟨[], [], rfl, nofun, nofun⟩
  | cons l ls ih =>
    obtain ⟨ls₁, ls₂, rfl, hlast, hsilent⟩ := ih
    cases ls₁ with
    | cons l₁ ls₁ => exact ⟨l :: l₁ :: ls₁, ls₂, rfl, hlast, hsilent⟩
    | nil =>
      cases hk : l.kind? with
      | some k => exact ⟨[l], ls₂, rfl, by simp [hk], hsilent⟩
      | none => exact ⟨[], l :: ls₂, rfl, nofun, by simpa [hk] using hsilent⟩

theorem Token.place_append_silent {ls' : List Lexeme} (h : ∀ l ∈ ls', l.kind? = none) :
    place file pos lead (ls ++ ls') = place file pos lead ls := by
  obtain ⟨pos', lead', happend⟩ := exists_place_append file pos lead ls ls'
  have hnone : place file pos' lead' (ls' ++ []) = [] := Checked.place_append lead' ls' [] h
  rw [List.append_nil] at hnone
  rw [happend, hnone, List.append_nil]

/-- The tokens through the last lexeme that makes one end where it ends. -/
theorem Tiling.stopOf_place (hs : byteSize (ls.flatMap Lexeme.text) < UInt32.size)
    (h : ∀ l ∈ ls.getLast?, ∃ k, l.kind? = some k) :
    stopOf 0 (Token.place file 0 [] ls) = byteSize (ls.flatMap Lexeme.text) := by
  cases hlast : ls.getLast? with
  | none =>
    rw [List.getLast?_eq_none_iff.1 hlast]
    rfl
  | some l =>
    obtain ⟨k, hk⟩ := h l hlast
    obtain ⟨t, ht, hstop⟩ := Token.stop_of_getLast?_place file 0 [] hlast hk
    rw [stopOf, ht, Option.map_some, Option.getD_some, hstop, Nat.zero_add]
    exact UInt32.toNat_ofNat_of_lt' hs

/-- Reports and faulty tokens have the same places if each fault makes a token. -/
theorem map_span_faultReports (h : ∀ l ∈ ls, l.kind? = some .error ↔ l.fault? ≠ none) :
    (faultReports file pos ls).map Report.span =
      ((Token.place file pos lead ls).filter (·.kind = .error)).map Token.span := by
  induction ls generalizing pos lead with
  | nil => rfl
  | cons l ls ih =>
    have ih' := fun pos lead ↦ @ih pos lead fun l' hl' ↦ h l' (List.mem_cons_of_mem l hl')
    have hl := h l List.mem_cons_self
    rw [faultReports, Token.place]
    cases hf : l.fault? with
    | some f =>
      have hk : l.kind? = some .error := hl.2 (by simp [hf])
      rw [hk]
      dsimp only
      rw [List.filter_cons_of_pos (by simp), List.map_cons, List.map_cons, ih']
      rfl
    | none =>
      have hk : l.kind? ≠ some .error := fun hk ↦ hl.1 hk hf
      cases hk' : l.kind? with
      | none => exact ih' _ _
      | some k =>
        have hne : k ≠ .error := fun he ↦ hk (he ▸ hk')
        dsimp only
        rw [List.filter_cons_of_neg (by simp [hne])]
        exact ih' _ _

namespace Scan

/-- Whether behind the tokens of a text, and behind blanks and comments with an end, a block comment
begins at byte `start` that has none. -/
def OpensAt (s : Scan) (text : List Char) (start : Nat) : Prop :=
  ∃ gap body, fromByte? (Tiling.stopOf 0 s.tokens) text = some (gap ++ '/' :: '*' :: body) ∧
    Layout ('/' :: '*' :: body) gap ∧ ¬['*', '/'] <:+: body ∧
    start = Tiling.stopOf 0 s.tokens + byteSize gap

variable {text : List Char} {ls₁ ls₂ : List Lexeme}

theorem opensAt_iff (hs : byteSize text < UInt32.size) (h : Lexeme.ofText text = ls₁ ++ ls₂)
    (hlast : ∀ l ∈ ls₁.getLast?, ∃ k, l.kind? = some k) (hsilent : ∀ l ∈ ls₂, l.kind? = none)
    (file : FileId) (start : Nat) :
    (ofText file text).OpensAt text start ↔
      ∃ ls body, ls₂ = ls ++ [.unclosed body] ∧
        start = byteSize ((ls₁ ++ ls).flatMap Lexeme.text) := by
  have htext : text = ls₁.flatMap Lexeme.text ++ ls₂.flatMap Lexeme.text := by
    rw [← List.flatMap_append, ← h, Lexeme.flatMap_text_ofText]
  have hstop : Tiling.stopOf 0 (ofText file text).tokens =
      byteSize (ls₁.flatMap Lexeme.text) := by
    rw [ofText]
    dsimp only
    rw [h, Token.place_append_silent hsilent]
    refine Tiling.stopOf_place ?_ hlast
    rw [htext, byteSize_append] at hs
    omega
  have hbehind : fromByte? (byteSize (ls₁.flatMap Lexeme.text)) text =
      some (ls₂.flatMap Lexeme.text) := fromByte?_eq_some_iff.2 ⟨_, htext, rfl⟩
  have hread : Lexeme.ofText (ls₂.flatMap Lexeme.text) = ls₂ := Lexeme.ofText_suffix h
  unfold OpensAt
  rw [hstop, hbehind]
  constructor
  · rintro ⟨gap, body, hgap, hlayout, hb, rfl⟩
    rw [Option.some.inj hgap] at hread
    obtain ⟨ls, hls⟩ := hlayout.skips (by decide)
    refine ⟨ls, body, ?_, ?_⟩
    · rw [← hread, hls.lexemes, Lexeme.ofText_unclosed hb]
    · rw [List.flatMap_append, byteSize_append, List.append_cancel_right hls.text_eq]
  · rintro ⟨ls, body, rfl, rfl⟩
    have hopen : Lexeme.ofText text = (ls₁ ++ ls) ++ [Lexeme.unclosed body] := by
      rw [h, List.append_assoc]
    obtain ⟨-, body', hb, he⟩ := Lexeme.eq_unclosed_of_openComment hopen rfl
    obtain rfl : body = body' := by simpa [Lexeme.unclosed] using he
    have hskips : Lexeme.Skips ((ls ++ [Lexeme.unclosed body]).flatMap Lexeme.text) ls
        ('/' :: '*' :: body) :=
      ⟨by rw [hread, Lexeme.ofText_unclosed hb], fun l hl ↦ hsilent l (List.mem_append_left _ hl)⟩
    refine ⟨ls.flatMap Lexeme.text, body, ?_, hskips.layout, hb, ?_⟩
    · rw [List.flatMap_append, List.flatMap_singleton]
      rfl
    · rw [List.flatMap_append, byteSize_append]

theorem map_snd_filter_kinds (s : Scan) :
    (s.kinds.filter (·.1 = .error)).map Prod.snd =
      (s.tokens.filter (·.kind = .error)).map Token.span := by
  rw [kinds, List.filter_append, List.filter_map, List.map_append, List.map_map]
  exact List.append_nil _

/-- The reports of a text whose lexemes are known apart from a comment at the end that may have
none. -/
theorem map_span_reports {ls : List Lexeme} (h : Lexeme.ofText text = ls ++ ls₂)
    (hclosed : ∀ l ∈ ls, l.fault? ≠ some .openComment) (hsilent : ∀ l ∈ ls₂, l.kind? = none) :
    (ofText file text).reports.map Report.span =
      ((ofText file text).kinds.filter (·.1 = .error)).map Prod.snd ++
        (faultReports file (byteSize (ls.flatMap Lexeme.text)) ls₂).map Report.span := by
  have hreports : faultReports file 0 (ls ++ ls₂) = _ := Checked.faultReports_append ls ls₂
  rw [Nat.zero_add] at hreports
  rw [map_snd_filter_kinds, ofText]
  dsimp only
  rw [h, hreports, Token.place_append_silent hsilent, List.map_append]
  refine congrArg (· ++ _) (map_span_faultReports fun l hl ↦ ?_)
  exact Lexeme.kind?_eq_error_iff (h ▸ List.mem_append_left _ hl) (hclosed l hl)

/-- A comment that is never closed can only be the last of all lexemes. -/
theorem exists_open? (file : FileId) (hs : byteSize text < UInt32.size) :
    ∃ start? : Option Nat, (∀ start, (ofText file text).OpensAt text start ↔ start? = some start) ∧
      (ofText file text).reports.map Report.span =
        ((ofText file text).kinds.filter (·.1 = .error)).map Prod.snd ++
          start?.toList.map (Span.ofNat file · (byteSize text)) := by
  obtain ⟨ls₁, ls₂, h, hlast, hsilent⟩ := exists_silent_tail (Lexeme.ofText text)
  have hopen := opensAt_iff hs h hlast hsilent file
  by_cases hend : ∃ ls body, ls₂ = ls ++ [.unclosed body]
  · obtain ⟨ls, body, rfl⟩ := hend
    rw [← List.append_assoc] at h
    have hclosed : ∀ l ∈ ls₁ ++ ls, l.fault? ≠ some .openComment := by
      intro l hl hf
      obtain ⟨pre, post, hpost⟩ := List.append_of_mem hl
      rw [hpost, List.append_assoc, List.cons_append] at h
      have hnil := (Lexeme.eq_unclosed_of_openComment h hf).1
      simp at hnil
    have hlater : ∀ l ∈ [Lexeme.unclosed body], l.kind? = none :=
      fun l hl ↦ hsilent l (List.mem_append_right ls hl)
    refine ⟨some (byteSize ((ls₁ ++ ls).flatMap Lexeme.text)), fun start ↦ ?_, ?_⟩
    · rw [hopen]
      constructor
      · rintro ⟨ls', body', he, rfl⟩
        obtain ⟨rfl, -⟩ := List.append_inj' he rfl
        rfl
      · intro he
        exact ⟨ls, body, rfl, (Option.some.inj he).symm⟩
    · have htext : byteSize ((ls₁ ++ ls).flatMap Lexeme.text) +
          byteSize (Lexeme.unclosed body).text = byteSize text := by
        have hflat := congrArg (List.flatMap Lexeme.text) h
        rw [Lexeme.flatMap_text_ofText, List.flatMap_append, List.flatMap_singleton] at hflat
        rw [hflat, byteSize_append]
      rw [map_span_reports h hclosed hlater, ← htext]
      rfl
  · have hclosed : ∀ l ∈ ls₁ ++ ls₂, l.fault? ≠ some .openComment := by
      intro l hl hf
      obtain ⟨pre, post, hpost⟩ := List.append_of_mem hl
      rw [hpost] at h
      obtain ⟨rfl, body, -, rfl⟩ := Lexeme.eq_unclosed_of_openComment h hf
      rcases List.eq_nil_or_concat ls₂ with rfl | ⟨ls, l, rfl⟩
      · rw [List.append_nil] at hpost
        obtain ⟨k, hk⟩ := hlast (.unclosed body) (by simp [hpost])
        cases hk
      · rw [List.concat_eq_append] at *
        rw [← List.append_assoc] at hpost
        obtain ⟨-, he⟩ := List.append_inj' hpost rfl
        exact hend ⟨ls, body, congrArg (ls ++ ·) he⟩
    refine ⟨none, fun start ↦ ?_, ?_⟩
    · rw [hopen]
      refine iff_of_false ?_ (Option.some_ne_none _).symm
      rintro ⟨ls, body, he, -⟩
      exact hend ⟨ls, body, he⟩
    · have hall : Lexeme.ofText text = (ls₁ ++ ls₂) ++ [] := by rw [h, List.append_nil]
      exact map_span_reports hall hclosed nofun

theorem OpensAt.le {start : Nat} (h : (ofText file text).OpensAt text start) :
    start ≤ byteSize text := by
  obtain ⟨gap, body, hgap, -, -, rfl⟩ := h
  have hsize := byteSize_of_fromByte? hgap
  rw [byteSize_append] at hsize
  omega

end Scan

/-- Each faulty token is reported, in the order of the tokens, and nothing else is, but for a
comment that is never closed, which is reported last and up to the end of the text. -/
theorem reports_match_error_tokens (file : FileId) {text : List Char}
    (hs : byteSize text < UInt32.size) :
    let s := Scan.ofText file text
    Checked.lex file text = .ok (s.kinds, s.reports) ∧
    (∀ r ∈ s.reports, r.severity = .error ∧ r.code = ⟨.error, 100⟩) ∧
    (∃ start? : Option Nat, (∀ start, s.OpensAt text start ↔ start? = some start) ∧
      s.reports.map Report.span =
        (s.kinds.filter (·.1 = .error)).map Prod.snd ++
          start?.toList.map (Span.ofNat file · (byteSize text))) ∧
    (∀ start, s.OpensAt text start →
      (Span.ofNat file start (byteSize text)).start.toNat = start ∧
      (Span.ofNat file start (byteSize text)).stop.toNat = byteSize text) ∧
    (s.reports = [] ↔ (∀ k ∈ s.kinds, k.1 ≠ .error) ∧ ∀ start, ¬s.OpensAt text start) := by
  intro s
  obtain ⟨start?, hopen, hspans⟩ := Scan.exists_open? file hs
  refine ⟨Checked.lex_eq file text, fun r hr ↦ ⟨severity_of_mem_faultReports hr,
    code_of_mem_faultReports hr⟩, ⟨start?, hopen, hspans⟩, fun start h ↦ ?_, ?_⟩
  · exact ⟨Span.toNat_start_ofNat (Nat.lt_of_le_of_lt h.le hs), Span.toNat_stop_ofNat hs⟩
  · have hnone : start? = none ↔ ∀ start, ¬s.OpensAt text start := by
      rw [Option.eq_none_iff_forall_ne_some]
      exact forall_congr' fun start ↦ not_congr (hopen start).symm
    rw [← List.map_eq_nil_iff (f := Report.span), hspans, List.append_eq_nil_iff,
      List.map_eq_nil_iff, List.map_eq_nil_iff, Option.toList_eq_nil_iff, hnone,
      List.filter_eq_nil_iff]
    simp only [decide_eq_true_eq, ne_eq]
    exact Iff.rfl

/-- A literal that a line ends, a character that begins no token, and a comment that is never closed
behind one that is. -/
theorem reports_of_three_faults :
    let text := "'a\n#/**//*".toList
    byteSize text < UInt32.size ∧
      (Scan.ofText 5 text).reports.map Report.span = [⟨5, 0, 3⟩, ⟨5, 3, 4⟩, ⟨5, 8, 10⟩] ∧
      ∃ start? : Option Nat,
        (∀ start, (Scan.ofText 5 text).OpensAt text start ↔ start? = some start) ∧
        (Scan.ofText 5 text).reports.map Report.span =
          ((Scan.ofText 5 text).kinds.filter (·.1 = .error)).map Prod.snd ++
            start?.toList.map (Span.ofNat 5 · (byteSize text)) := by
  intro text
  have hs : byteSize text < UInt32.size := by decide
  obtain ⟨-, -, hspans, -⟩ := reports_match_error_tokens 5 hs
  exact ⟨hs, by decide +kernel, hspans⟩

end ClassModel
