import ClassModel.Proofs.Token.Cutting
import ClassModel.Proofs.Token.Tiling

namespace ClassModel

def Token.Kind.Quoted (q : Char) (k : Kind) : Prop :=
  q = '"' ∧ k = .string ∨ q = '\'' ∧ k = .character

namespace Lexeme

/-- Characters without a quote `q` or a line feed that is not escaped. -/
inductive Inside (q : Char) : List Char → Prop
  | nil : Inside q []
  | plain {c : Char} {cs : List Char} (hq : c ≠ q) (hl : c ≠ '\n') (he : c ≠ '\\')
    (h : Inside q cs) : Inside q (c :: cs)
  | escaped {c : Char} {cs : List Char} (h : Inside q cs) : Inside q ('\\' :: c :: cs)

variable {q c : Char} {k : Token.Kind} {cs body : List Char}

theorem Inside.lineFeed_mem_iff (h : Inside q body) :
    '\n' ∈ body ↔ ∃ pre post, Inside q pre ∧ body = pre ++ '\\' :: '\n' :: post := by
  refine ⟨fun hn ↦ ?_, ?_⟩
  · induction h with
    | nil => cases hn
    | plain hq hl he h ih =>
      obtain ⟨pre, post, hpre, rfl⟩ := ih ((List.mem_cons.1 hn).resolve_left hl.symm)
      exact ⟨_, post, .plain hq hl he hpre, rfl⟩
    | @escaped c cs h ih =>
      by_cases hc : c = '\n'
      · exact ⟨[], cs, .nil, by rw [hc]; rfl⟩
      · have hcs : '\n' ∈ cs := by
          simpa [Ne.symm hc] using hn
        obtain ⟨pre, post, hpre, rfl⟩ := ih hcs
        exact ⟨_, post, .escaped hpre, rfl⟩
  · rintro ⟨pre, post, -, rfl⟩
    simp

theorem Inside.quotedRest_append (h : Inside q body) (cs : List Char) :
    quotedRest q (body ++ cs) = (body ++ (quotedRest q cs).1, (quotedRest q cs).2) := by
  induction h with
  | nil => rfl
  | plain hq hl he h ih =>
    rw [List.cons_append, quotedRest_cons he, if_neg hl, if_neg hq, ih]
    rfl
  | escaped h ih =>
    rw [List.cons_append, List.cons_append, quotedRest, ih]
    rfl

theorem Inside.quotedRest_lineFeed (h : Inside q body) (rest : List Char) :
    quotedRest q (body ++ '\n' :: rest) = (body ++ ['\n'], some .brokenLiteral, rest) := by
  rw [h.quotedRest_append, quotedRest_cons (by decide), if_pos rfl]

theorem Inside.quotedRest_quote (h : Inside q body) (hl : q ≠ '\n') (he : q ≠ '\\')
    (rest : List Char) :
    quotedRest q (body ++ q :: rest) = (body ++ [q], none, rest) := by
  rw [h.quotedRest_append, quotedRest_cons he, if_neg hl, if_pos rfl]

/-- A literal that is closed ends with the first quote that is not escaped. -/
theorem exists_inside_of_closed (h : (quotedRest q cs).2.1 = none) :
    ∃ body, Inside q body ∧ (quotedRest q cs).1 = body ++ [q] := by
  fun_induction quotedRest q cs with
  | case1 | case2 | case4 => cases h
  | case3 c cs ih =>
    obtain ⟨body, hbody, hr⟩ := ih h
    exact ⟨_, hbody.escaped, by rw [pass, pass, hr]; rfl⟩
  | case5 => exact ⟨[], .nil, rfl⟩
  | case6 c cs hend hmiddle hl hq ih =>
    obtain ⟨body, hbody, hr⟩ := ih h
    exact ⟨_, hbody.plain hq hl (ne_backslash hend hmiddle), by rw [pass, hr]; rfl⟩

theorem first_of_quoted (hq : k.Quoted q) (cs : List Char) :
    first q cs = literal q (quotedRest q cs) := by
  rcases hq with ⟨rfl, -⟩ | ⟨rfl, -⟩
  all_goals
    rw [first, if_neg (by decide), if_neg (by decide), if_neg (by decide), if_pos (by decide)]

theorem first_of_closed (hq : k.Quoted q) (hb : Inside q body) (rest : List Char) :
    first q (body ++ q :: rest) = (⟨.token k, q :: (body ++ [q])⟩, rest) := by
  have hquote : q ≠ '\n' ∧ q ≠ '\\' := by
    rcases hq with ⟨rfl, -⟩ | ⟨rfl, -⟩ <;> decide
  have hshape : literalShape q none = .token k := by
    rcases hq with ⟨rfl, rfl⟩ | ⟨rfl, rfl⟩ <;> rfl
  rw [first_of_quoted hq, hb.quotedRest_quote hquote.1 hquote.2, literal, hshape]

theorem first_of_broken (hq : k.Quoted q) (hb : Inside q body) (rest : List Char) :
    first q (body ++ '\n' :: rest) =
      (⟨.faulty .brokenLiteral, q :: (body ++ ['\n'])⟩, rest) := by
  rw [first_of_quoted hq, hb.quotedRest_lineFeed]
  rfl

theorem ofName_not_quoted (s : String) : ¬(Token.Kind.ofName s).Quoted q := by
  unfold Token.Kind.ofName Token.Kind.ofKeyword? Token.Kind.Quoted
  split
  · simp
  split
  · simp
  cases Modifier.ofKeyword? s <;> simp

theorem ofPunctuation?_not_quoted {c : Char} (h : Token.Kind.ofPunctuation? c = some k) :
    ¬k.Quoted q := by
  unfold Token.Kind.ofPunctuation? at h
  split at h <;> cases h <;> simp [Token.Kind.Quoted]

theorem exists_inside_of_quoted (hk : (first c cs).1.kind? = some k) (hq : k.Quoted q) :
    ∃ body, Inside q body ∧ (first c cs).1.text = q :: (body ++ [q]) := by
  revert hk
  fun_cases first c cs with
  | case1 => rintro ⟨⟩
  | case2 =>
    rintro ⟨⟩
    exact absurd hq (ofName_not_quoted _)
  | case3 =>
    rintro ⟨⟩
    simp [Token.Kind.Quoted] at hq
  | case4 _ _ _ hc =>
    intro hk
    unfold literal literalShape kind? at hk
    cases hr : (quotedRest c cs).2.1 with
    | none =>
      rw [hr] at hk
      obtain rfl := Option.some.inj hk
      have hcq : c = q := by
        rcases hc with rfl | rfl <;> simpa [Token.Kind.Quoted, eq_comm] using hq
      obtain ⟨body, hbody, hrest⟩ := exists_inside_of_closed hr
      rw [hcq] at hbody hrest
      refine ⟨body, hbody, ?_⟩
      rw [hcq, literal, hrest]
    | some f =>
      rw [hr] at hk
      cases f <;> cases hk <;> simp [Token.Kind.Quoted] at hq
  | case5 =>
    fun_cases symbol c cs with
    | case1 | case2 | case3 => rintro ⟨⟩
    | case4 =>
      rintro ⟨⟩
      simp [Token.Kind.Quoted] at hq
    | case5 c cs _ _ _ k' hk =>
      rintro ⟨⟩
      exact absurd hq (ofPunctuation?_not_quoted hk)
    | case6 =>
      rintro ⟨⟩
      simp [Token.Kind.Quoted] at hq

end Lexeme

namespace Scan

variable {file : FileId} {text : List Char} {t : Token}

theorem exists_first_of_mem (ht : t ∈ (ofText file text).tokens) :
    ∃ pre c cs, text = pre ++ c :: cs ∧
      t.span = .ofNat file (byteSize pre) (byteSize pre + byteSize t.text) ∧
      (Lexeme.first c cs).1.kind? = some t.kind ∧ (Lexeme.first c cs).1.text = t.text ∧
      ∀ f, (Lexeme.first c cs).1.fault? = some f →
        .error .lexical f.message t.span ∈ (ofText file text).reports := by
  obtain ⟨ls₁, l, ls₂, h, hk, htext, hspan⟩ := Token.exists_lexeme_of_mem_place ht
  rw [Nat.zero_add] at hspan
  have hflat : text = ls₁.flatMap Lexeme.text ++ (l :: ls₂).flatMap Lexeme.text := by
    rw [← List.flatMap_append, ← h, Lexeme.flatMap_text_ofText]
  have hagain := Lexeme.ofText_suffix h
  have hreports : (ofText file text).reports = faultReports file 0 ls₁ ++
      faultReports file (0 + byteSize (ls₁.flatMap Lexeme.text)) (l :: ls₂) := by
    rw [← Checked.faultReports_append, ← h]
    rfl
  generalize (l :: ls₂).flatMap Lexeme.text = ds at hflat hagain
  cases ds with
  | nil =>
    rw [Lexeme.ofText] at hagain
    cases hagain
  | cons c cs =>
    rw [Lexeme.ofText_cons] at hagain
    obtain ⟨rfl, -⟩ := List.cons.inj hagain
    refine ⟨_, c, cs, hflat, hspan, hk, htext, fun f hf ↦ ?_⟩
    rw [hreports, faultReports, hf, Nat.zero_add, hspan, ← htext]
    exact List.mem_append_right _ List.mem_cons_self

/-- What the text from a token on begins with. -/
theorem first_eq_of_mem (hs : byteSize text < UInt32.size) (ht : t ∈ (ofText file text).tokens)
    {q : Char} {ds : List Char} (hds : fromByte? t.span.start.toNat text = some (q :: ds)) :
    (Lexeme.first q ds).1.kind? = some t.kind ∧ (Lexeme.first q ds).1.text = t.text ∧
      ∀ f, (Lexeme.first q ds).1.fault? = some f →
        .error .lexical f.message t.span ∈ (ofText file text).reports := by
  obtain ⟨pre, c, cs, hpre, hspan, hk, htext, hf⟩ := exists_first_of_mem ht
  have hlt : byteSize pre < UInt32.size := by
    rw [hpre, byteSize_append] at hs
    omega
  have hstart : t.span.start.toNat = byteSize pre := by
    rw [hspan]
    exact Span.toNat_start_ofNat hlt
  have hfrom : fromByte? (byteSize pre) text = some (c :: cs) :=
    fromByte?_eq_some_iff.2 ⟨pre, hpre, rfl⟩
  rw [hstart, hfrom] at hds
  obtain ⟨rfl, rfl⟩ := List.cons.inj (Option.some.inj hds)
  exact ⟨hk, htext, hf⟩

end Scan

open Lexeme in
/-- A literal ends with its quote. It has a line feed in it iff one is escaped, and if a line feed
that is not escaped comes before the quote, then it ends with that and is reported. -/
theorem lineFeed_mem_literal_iff (file : FileId) {text : List Char}
    (hs : byteSize text < UInt32.size) :
    let s := Scan.ofText file text
    ∀ t ∈ s.tokens,
      (t.kind = .string ∨ t.kind = .character → ∃ q body, t.kind.Quoted q ∧ Inside q body ∧
        t.text = q :: (body ++ [q]) ∧
        ('\n' ∈ t.text ↔ ∃ pre post, Inside q pre ∧ body = pre ++ '\\' :: '\n' :: post)) ∧
      ∀ q k body rest, Token.Kind.Quoted q k → Inside q body →
        (fromByte? t.span.start.toNat text = some (q :: (body ++ q :: rest)) →
          t.kind = k ∧ t.text = q :: (body ++ [q])) ∧
        (fromByte? t.span.start.toNat text = some (q :: (body ++ '\n' :: rest)) →
          t.kind = .error ∧ t.text = q :: (body ++ ['\n']) ∧
            .error .lexical Fault.brokenLiteral.message t.span ∈ s.reports) := by
  intro s t ht
  refine ⟨fun hk ↦ ?_, fun q k body rest hq hb ↦ ⟨fun hds ↦ ?_, fun hds ↦ ?_⟩⟩
  · obtain ⟨pre, c, cs, -, -, hkind, htext, -⟩ := Scan.exists_first_of_mem ht
    obtain ⟨q, hq⟩ : ∃ q, t.kind.Quoted q := by
      rcases hk with hk | hk
      · exact ⟨'"', .inl ⟨rfl, hk⟩⟩
      · exact ⟨'\'', .inr ⟨rfl, hk⟩⟩
    obtain ⟨body, hb, hbody⟩ := exists_inside_of_quoted hkind hq
    rw [hbody] at htext
    refine ⟨q, body, hq, hb, htext.symm, ?_⟩
    have hne : '\n' ≠ q := by
      rcases hq with ⟨rfl, -⟩ | ⟨rfl, -⟩ <;> decide
    rw [← htext, ← hb.lineFeed_mem_iff]
    simp [hne]
  · obtain ⟨hkind, htext, -⟩ := Scan.first_eq_of_mem hs ht hds
    rw [first_of_closed hq hb] at hkind htext
    exact ⟨(Option.some.inj hkind).symm, htext.symm⟩
  · obtain ⟨hkind, htext, hf⟩ := Scan.first_eq_of_mem hs ht hds
    rw [first_of_broken hq hb] at hkind htext hf
    exact ⟨(Option.some.inj hkind).symm, htext.symm, hf _ rfl⟩

open Lexeme in
/-- A literal that ends with a line feed, as the backslash in front of it is escaped, and behind it
one with an escaped line feed in it. -/
theorem lineFeed_behind_two_backslashes :
    let text := ['\'', '\\', '\\', '\n', '"', '\\', '\n', '"']
    let broken : Token := ⟨[], .error, ['\'', '\\', '\\', '\n'], ⟨3, 0, 4⟩⟩
    let closed : Token := ⟨[], .string, ['"', '\\', '\n', '"'], ⟨3, 4, 8⟩⟩
    byteSize text < UInt32.size ∧ broken ∈ (Scan.ofText 3 text).tokens ∧
      closed ∈ (Scan.ofText 3 text).tokens ∧ Token.Kind.Quoted '\'' .character ∧
      Inside '\'' ['\\', '\\'] ∧
      .error .lexical Fault.brokenLiteral.message broken.span ∈ (Scan.ofText 3 text).reports ∧
      ∃ q body, closed.kind.Quoted q ∧ Inside q body ∧ closed.text = q :: (body ++ [q]) ∧
        ∃ pre post, Inside q pre ∧ body = pre ++ '\\' :: '\n' :: post := by
  intro text broken closed
  have hs : byteSize text < UInt32.size := by decide
  have htokens : (Scan.ofText 3 text).tokens = [broken, closed] := by decide +kernel
  have hbroken : broken ∈ (Scan.ofText 3 text).tokens := by simp [htokens]
  have hclosed : closed ∈ (Scan.ofText 3 text).tokens := by simp [htokens]
  have hq : Token.Kind.Quoted '\'' .character := .inr ⟨rfl, rfl⟩
  have hb : Inside '\'' ['\\', '\\'] := .escaped .nil
  obtain ⟨-, hends⟩ := lineFeed_mem_literal_iff 3 hs broken hbroken
  obtain ⟨-, -, hreport⟩ := (hends _ _ _ _ hq hb).2 rfl
  obtain ⟨hliteral, -⟩ := lineFeed_mem_literal_iff 3 hs closed hclosed
  obtain ⟨q, body, hkind, hbody, htext, hline⟩ := hliteral (.inl rfl)
  exact ⟨hs, hbroken, hclosed, hq, hb, hreport, q, body, hkind, hbody, htext,
    hline.1 (by decide)⟩

/-- A string that goes on behind a line feed, and is not reported. -/
theorem string_across_lines :
    let text := ['"', '\\', '\n', '"']
    (Scan.ofText 0 text).tokens = [⟨[], .string, text, ⟨0, 0, 4⟩⟩] ∧ '\n' ∈ text ∧
      (Scan.ofText 0 text).reports = [] := by
  decide +kernel

end ClassModel
