import ClassModel.Proofs.Reading.Acceptance
import ClassModel.Proofs.Token.Places

namespace ClassModel

namespace Grammar

/-- Whether what comes of reading the words `ws` is fair to them: it leaves an end of them, and it
is a stop without a complaint only if one of them is faulty. -/
structure Fair {α : Type} (left : α → List Word) (ws : List Word) (r : Except Stop α) : Prop where
  suffix : ∀ a, r = .ok a → left a <:+ ws
  faulty : r = .error .faulty → ∃ w ∈ ws, w.kind = .error

namespace Fair

variable {α β : Type} {left : α → List Word} {left' : β → List Word} {ws rest : List Word}

theorem ok {a : α} (h : left a <:+ ws) : Fair left ws (.ok a) :=
  ⟨fun _ hb ↦ Except.ok.inj hb ▸ h, nofun⟩

theorem complaint (c : Complaint) (rest : List Word) :
    Fair left ws (.error (.complaint c rest)) :=
  ⟨nofun, nofun⟩

theorem expected (w : Wanted) (ws : List Word) : Fair left ws (.error (expected w ws)) := by
  unfold Grammar.expected
  split
  · exact ⟨nofun, fun _ ↦ ⟨_, List.mem_cons_self, rfl⟩⟩
  · exact complaint ..

theorem of_suffix {r : Except Stop α} (h : Fair left rest r) (hs : rest <:+ ws) :
    Fair left ws r := by
  refine ⟨fun a ha ↦ (h.suffix a ha).trans hs, fun hf ↦ ?_⟩
  obtain ⟨w, hw, hk⟩ := h.faulty hf
  exact ⟨w, hs.subset hw, hk⟩

theorem bind {x : Except Stop α} {f : α → Except Stop β} (hx : Fair left ws x)
    (hf : ∀ a, Fair left' (left a) (f a)) : Fair left' ws (x >>= f) := by
  cases x with
  | ok a => exact (hf a).of_suffix (hx.suffix a rfl)
  | error e => exact ⟨nofun, fun h ↦ hx.faulty (congrArg _ (Except.error.inj h))⟩

theorem error {x : Except Stop α} {e : Stop} (hx : Fair left ws x) (he : x = .error e) :
    Fair left' ws (.error e) :=
  ⟨nofun, fun h ↦ hx.faulty (he.trans (congrArg _ (Except.error.inj h)))⟩

end Fair

theorem fair_skip (k : Token.Kind) (w : Wanted) (ws : List Word) : Fair id ws (skip k w ws) := by
  unfold skip
  split
  · exact .ok (List.tail_suffix ws)
  · exact .expected w ws

theorem fair_identifier (ws : List Word) : Fair Prod.snd ws (identifier ws) := by
  unfold identifier
  split
  · exact .ok (List.suffix_cons ..)
  · exact .expected ..

theorem suffix_dotted (ws : List Word) : (dotted ws).2 <:+ ws := by
  fun_induction dotted ws with
  | case1 d s ws t rest hd ih =>
    rw [hd] at ih
    exact ih.trans ⟨[_, _], rfl⟩
  | case2 => exact List.suffix_rfl

theorem fair_qualifiedName (ws : List Word) : Fair Prod.snd ws (qualifiedName ws) :=
  (fair_identifier ws).bind fun a ↦ .ok (suffix_dotted a.2)

theorem fair_dims (ws : List Word) : Fair Prod.snd ws (dims ws) := by
  fun_induction dims ws with
  | case1 l r ws ih =>
    have hs : ws <:+ ⟨.leftBracket, l⟩ :: ⟨.rightBracket, r⟩ :: ws := ⟨[_, _], rfl⟩
    exact (ih.of_suffix hs).bind fun _ ↦ .ok List.suffix_rfl
  | case2 l ws => exact (Fair.expected _ ws).of_suffix (List.suffix_cons ..)
  | case3 => exact .ok List.suffix_rfl

theorem fair_typeRef (ws : List Word) : Fair Prod.snd ws (typeRef ws) := by
  unfold typeRef
  split
  · exact .complaint ..
  · refine (fair_qualifiedName ws).bind fun a ↦ ?_
    dsimp only
    split
    · exact .complaint ..
    · exact (fair_dims a.2).bind fun _ ↦ .ok List.suffix_rfl

theorem fair_typeOrVoid (ws : List Word) : Fair Prod.snd ws (typeOrVoid ws) := by
  unfold typeOrVoid
  split
  · split
    · exact .complaint ..
    · exact .ok (List.tail_suffix ws)
  · exact fair_typeRef ws

theorem suffix_of_behind {opening closing : Token.Kind} {depth : Nat} {ws rest : List Word}
    (h : behind opening closing depth ws = some rest) : rest <:+ ws := by
  fun_induction behind opening closing depth ws with
  | case1 => cases h
  | case2 depth w ws ho ih => exact (ih h).trans (List.suffix_cons w ws)
  | case3 w ws ho hc =>
    obtain rfl := Option.some.inj h
    exact List.suffix_cons w ws
  | case4 w ws ho hc depth ih => exact (ih h).trans (List.suffix_cons w ws)
  | case5 depth w ws ho hc ih => exact (ih h).trans (List.suffix_cons w ws)

theorem fair_skipPair (opening closing : Token.Kind) (w : Wanted) (ws : List Word) :
    Fair id ws (skipPair opening closing w ws) := by
  unfold skipPair
  split
  · next h => exact .ok (suffix_of_behind h)
  · exact .complaint ..

theorem fair_annotationName (ws : List Word) : Fair Prod.snd ws (annotationName ws) := by
  refine (fair_qualifiedName ws).bind fun a ↦ ?_
  dsimp only
  split
  · have hskip := (fair_skipPair .leftParen .rightParen .rightParen a.2.tail).of_suffix
      (List.tail_suffix a.2)
    exact hskip.bind fun _ ↦ .ok List.suffix_rfl
  · exact .ok List.suffix_rfl

theorem fair_header (deprecated : Bool) (ms : Modifiers) (ws : List Word) :
    Fair (fun a ↦ a.2.2) ws (header deprecated ms ws) := by
  fun_induction header deprecated ms ws with
  | case1 deprecated ms a ws e he =>
    exact ((fair_annotationName ws).error he).of_suffix (List.suffix_cons ..)
  | case2 deprecated ms a ws s rest hs ih =>
    have hrest := (fair_annotationName ws).suffix _ hs
    exact ih.of_suffix (hrest.trans (List.suffix_cons ..))
  | case3 => exact .complaint ..
  | case4 deprecated ms m t ws hm ih => exact ih.of_suffix (List.suffix_cons ..)
  | case5 => exact .ok List.suffix_rfl

theorem fair_resultType (ws : List Word) : Fair Prod.snd ws (resultType ws) := by
  unfold resultType
  split
  · exact .ok List.suffix_rfl
  · exact (fair_typeOrVoid ws).bind fun _ ↦ .ok List.suffix_rfl

theorem fair_annotations (ws : List Word) : Fair id ws (annotations ws) := by
  fun_induction annotations ws with
  | case1 a ws e he =>
    exact ((fair_annotationName ws).error he).of_suffix (List.suffix_cons ..)
  | case2 a ws s rest hs ih =>
    have hrest := (fair_annotationName ws).suffix _ hs
    exact ih.of_suffix (hrest.trans (List.suffix_cons ..))
  | case3 => exact .ok List.suffix_rfl

theorem fair_param (ws : List Word) : Fair Prod.snd ws (param ws) := by
  refine (fair_annotations ws).bind fun ws₁ ↦ ?_
  have hfinal : (if startsWith (.modifier .final) ws₁ then ws₁.tail else ws₁) <:+ ws₁ := by
    split
    · exact List.tail_suffix ws₁
    · exact List.suffix_rfl
  refine ((fair_typeRef _).of_suffix hfinal).bind fun a ↦ ?_
  dsimp only
  split
  · have hname := (fair_identifier a.2.tail).of_suffix (List.tail_suffix a.2)
    exact hname.bind fun _ ↦ .ok List.suffix_rfl
  · exact (fair_identifier a.2).bind fun _ ↦ .ok List.suffix_rfl

theorem fair_commaList {α : Type} {item : List Word → Except Stop (α × List Word)}
    {shortens : ∀ {ws a rest}, item ws = .ok (a, rest) → rest.length < ws.length}
    {final : α → Option Complaint} (hitem : ∀ ws, Fair Prod.snd ws (item ws)) (ws : List Word) :
    Fair Prod.snd ws (commaList item shortens final ws) := by
  fun_induction commaList item shortens final ws with
  | case1 ws e he => exact (hitem ws).error he
  | case2 => exact .complaint ..
  | case3 ws a c rest ha hf ih =>
    have hrest := (List.suffix_cons _ rest).trans ((hitem ws).suffix _ ha)
    exact (ih.of_suffix hrest).bind fun _ ↦ .ok List.suffix_rfl
  | case4 ws a rest hne ha => exact .ok ((hitem ws).suffix _ ha)

theorem fair_params (ws : List Word) : Fair Prod.snd ws (params ws) := by
  unfold params
  split
  · exact .ok List.suffix_rfl
  · exact (fair_commaList fair_param ws).bind fun _ ↦ .ok List.suffix_rfl

theorem fair_throwsClause (ws : List Word) : Fair Prod.snd ws (throwsClause ws) := by
  unfold throwsClause
  split
  · exact (fair_commaList fair_typeRef ws.tail).of_suffix (List.tail_suffix ws)
  · exact .ok List.suffix_rfl

theorem fair_defaultClause (isAnnotationMethod : Bool) (ws : List Word) :
    Fair Prod.snd ws (defaultClause isAnnotationMethod ws) := by
  unfold defaultClause
  split
  · split
    · dsimp only
      split
      · exact (Fair.expected _ ws.tail).of_suffix (List.tail_suffix ws)
      · obtain ⟨v, hv, -⟩ := fromSemicolon_sound 0 ws.tail
        exact .ok (List.IsSuffix.trans ⟨v, hv.symm⟩ (List.tail_suffix ws))
    · exact .complaint ..
  · exact .ok List.suffix_rfl

theorem fair_body (ws : List Word) : Fair id ws (body ws) := by
  unfold body
  split
  · exact (fair_skipPair _ _ _ ws.tail).of_suffix (List.tail_suffix ws)
  · exact fair_skip ..

theorem fair_outline (ctx : Context) (ws : List Word) :
    Fair (fun _ ↦ []) ws (outline ctx ws) := by
  refine (fair_header ..).bind fun a₁ ↦ (fair_resultType _).bind fun a₂ ↦ ?_
  refine (fair_identifier _).bind fun a₃ ↦ ?_
  dsimp only
  split
  · exact .complaint ..
  · refine (fair_skip ..).bind fun ws₄ ↦ (fair_params ws₄).bind fun a₅ ↦ ?_
    refine (fair_skip ..).bind fun ws₆ ↦ (fair_throwsClause ws₆).bind fun a₇ ↦ ?_
    refine (fair_defaultClause ..).bind fun a₈ ↦ (fair_body _).bind fun ws₉ ↦ ?_
    split
    · exact .ok List.nil_suffix
    · exact .expected ..

end Grammar

theorem append_ne_of_take_ne {a t : String} (h : t.toList.take a.toList.length ≠ a.toList)
    (s : String) : a ++ s ≠ t := by
  rintro rfl
  rw [String.toList_append, List.take_left] at h
  exact h rfl

theorem Complaint.message_ne (ws : List Word) (c : Complaint) :
    c.message ws ≠ "incomplete method declaration" := by
  cases c with
  | expected w =>
    have hm : message ws (.expected w) =
        "expected " ++ w.text ++ ", found " ++ message.found ws := rfl
    rw [hm, String.append_assoc, String.append_assoc]
    exact append_ne_of_take_ne (by decide) _
  | repeatedModifier =>
    exact append_ne_of_take_ne (a := "repeated modifier ") (by decide) (message.found ws)
  | _ => exact of_decide_eq_true rfl

namespace Scan

theorem reports_ne_nil_of_mem_words {file : FileId} {cs : List Char} {w : Word}
    (hw : w ∈ (ofText file cs).words) (hk : w.kind = .error) : (ofText file cs).reports ≠ [] := by
  intro h
  rw [words_ofText_eq] at hw
  obtain ⟨l, hl, hlw⟩ := List.mem_filterMap.1 hw
  obtain ⟨k, hlk, rfl⟩ := Option.map_eq_some_iff.1 hlw
  exact (Lexeme.kind?_of_mem_ofText hl hlk).2 hk (fault?_of_faultReports_eq_nil h hl)

def complaint? (s : Scan) (ctx : Context) : Option (String × Span) :=
  match Grammar.outline ctx s.words with
  | .error (.complaint c rest) => some (c.message rest, s.spanBefore rest.length)
  | _ => none

theorem reports_read (s : Scan) (ctx : Context) : (s.read ctx).reports =
    s.reports ++ (s.complaint? ctx).toList.map fun c ↦ .error .grammatical c.1 c.2 := by
  unfold read complaint?
  cases h : Grammar.outline ctx s.words with
  | ok o => cases hr : s.reports <;> simp
  | error stop =>
    cases stop with
    | faulty => cases hr : s.reports <;> simp [stopReports]
    | complaint c rest => cases hr : s.reports <;> simp [stopReports]

theorem message_ne_of_complaint? {s : Scan} {ctx : Context} {message : String} {span : Span}
    (h : s.complaint? ctx = some (message, span)) : message ≠ "incomplete method declaration" := by
  unfold complaint? at h
  split at h
  · next c rest _ =>
    obtain ⟨rfl, -⟩ := Prod.mk.inj (Option.some.inj h)
    exact c.message_ne rest
  · cases h

/-- The three ways in which reading a text can end. -/
inductive Ending (s : Scan) (ctx : Context) (result : Except ReadError Method) : Prop
  | lexical (r : Report) (rs : List Report) (hf : s.reports = r :: rs)
    (h : result = .error (.lexical r.message r.span))
  | grammatical (message : String) (span : Span) (hf : s.reports = [])
    (hc : s.complaint? ctx = some (message, span)) (h : result = .error (.grammatical message span))
  | success (m : Method) (hf : s.reports = []) (hc : s.complaint? ctx = none) (h : result = .ok m)

theorem ending_read (file : FileId) (cs : List Char) (ctx : Context) :
    (ofText file cs).Ending ctx ((ofText file cs).read ctx).result := by
  have hfair := (Grammar.fair_outline ctx (ofText file cs).words).faulty
  cases hf : (ofText file cs).reports with
  | cons r rs =>
    have hr : r ∈ (ofText file cs).reports := by rw [hf]; exact List.mem_cons_self
    have hof : ReadError.ofReport r = .lexical r.message r.span :=
      if_pos (code_of_mem_faultReports hr)
    refine .lexical r rs hf ?_
    rw [← hof]
    unfold read
    rw [hf]
    split <;> rfl
  | nil =>
    cases ho : Grammar.outline ctx (ofText file cs).words with
    | ok o =>
      refine .success ((ofText file cs).method o) hf ?_ ?_
      · simp [complaint?, ho]
      · simp [read, ho, hf]
    | error stop =>
      cases stop with
      | faulty =>
        obtain ⟨w, hw, hk⟩ := hfair ho
        exact absurd hf (reports_ne_nil_of_mem_words hw hk)
      | complaint c rest =>
        refine .grammatical (c.message rest) ((ofText file cs).spanBefore rest.length) hf ?_ ?_
        · simp [complaint?, ho]
        · simp only [read, ho, hf]
          rfl

theorem Ending.result_iff {s : Scan} {ctx : Context} {result : Except ReadError Method}
    (h : s.Ending ctx result) :
    ((∃ m, result = .ok m) ↔ s.reports = [] ∧ s.complaint? ctx = none) ∧
    (∀ message span, result = .error (.lexical message span) ↔
      ∃ r, s.reports.head? = some r ∧ r.message = message ∧ r.span = span) ∧
    (∀ message span, result = .error (.grammatical message span) ↔
      s.reports = [] ∧ s.complaint? ctx = some (message, span)) ∧
    ∀ span, result ≠ .error (.grammatical "incomplete method declaration" span) := by
  cases h with
  | lexical r rs hf h => simp [hf, h]
  | grammatical message span hf hc h => simp [hf, hc, h, message_ne_of_complaint? hc]
  | success m hf hc h => simp [hf, hc, h]

end Scan

/-- Reading a text logs what is wrong with its tokens, in their order, and at most one complaint
about what they spell. It succeeds iff it logs nothing, and otherwise fails with the first report
that it logs. -/
theorem readMethodLogged_outcome (file : FileId) (ctx : Context) {text : String}
    (hs : byteSize text.toList < UInt32.size) (log : Log) :
    let faults := (Scan.ofText file text.toList).reports
    let outcome := readMethodLogged file ctx text log
    (∀ r ∈ faults, r.code = .lexical ∧ r.severity = .error) ∧
    faults.Pairwise (fun a b ↦ a.span.stop ≤ b.span.start) ∧
    ∃ complaint : Option (String × Span),
      let logged := faults ++ complaint.toList.map fun c ↦ Report.error .grammatical c.1 c.2
      outcome.2.reports = log.reports ++ logged ∧
      outcome.2.errors = log.errors + logged.length ∧
      ((∃ m, outcome.1 = .ok m) ↔ logged = []) ∧
      (∀ message span, outcome.1 = .error (.lexical message span) ↔
        ∃ r, faults.head? = some r ∧ r.message = message ∧ r.span = span) ∧
      (∀ message span, outcome.1 = .error (.grammatical message span) ↔
        faults = [] ∧ complaint = some (message, span)) ∧
      (∀ span, outcome.1 ≠ .error (.grammatical "incomplete method declaration" span)) ∧
      ∀ log', (readMethodLogged file ctx text log').1 = outcome.1 := by
  intro faults outcome
  have hfault : ∀ r ∈ faults, r.code = .lexical ∧ r.severity = .error := fun r hr ↦
    ⟨code_of_mem_faultReports hr, severity_of_mem_faultReports hr⟩
  have hplaces : 0 + byteSize ((Lexeme.ofText text.toList).flatMap Lexeme.text) < UInt32.size := by
    rwa [Lexeme.flatMap_text_ofText, Nat.zero_add]
  refine ⟨hfault, pairwise_faultReports hplaces,
    (Scan.ofText file text.toList).complaint? ctx, ?_⟩
  intro logged
  have hlogged : (readMethod file ctx text).reports = logged := Scan.reports_read ..
  have herrors : logged.countP Report.isError = logged.length := by
    refine List.countP_eq_length.2 fun r hr ↦ ?_
    rcases List.mem_append.1 hr with hr | hr
    · simp [Report.isError, (hfault r hr).2, Severity.isError]
    · obtain ⟨c, -, rfl⟩ := List.mem_map.1 hr
      rfl
  have hout : outcome.2 = log.emitAll logged := congrArg log.emitAll hlogged
  obtain ⟨hok, hlexical, hgrammatical, hfallback⟩ :=
    (Scan.ending_read file text.toList ctx).result_iff
  refine ⟨by rw [hout, Log.reports_emitAll], by rw [hout, Log.errors_emitAll, herrors], ?_,
    hlexical, hgrammatical, hfallback, fun _ ↦ rfl⟩
  rw [show logged = [] ↔ faults = [] ∧ (Scan.ofText file text.toList).complaint? ctx = none by
    simp [logged]]
  exact hok

/-- A comment that is never closed is reported before a complaint about what stands before it. -/
theorem outcome_of_open_comment :
    let text := "void[] /* x"
    let earlier := Report.error .unnamed "" .dummy
    let outcome := readMethodLogged 7 ⟨some "A", .ordinary⟩ text (Log.empty.emit earlier)
    byteSize text.toList < UInt32.size ∧
      outcome.1 = .error (.lexical "unterminated block comment" ⟨7, 7, 11⟩) ∧
      outcome.2.reports = [earlier,
        .error .lexical "unterminated block comment" ⟨7, 7, 11⟩,
        .error .grammatical "`void` cannot have array dimensions" ⟨7, 4, 5⟩] := by
  intro text earlier outcome
  have hs : byteSize text.toList < UInt32.size := by decide
  have hfaults : (Scan.ofText 7 text.toList).reports =
      [.error .lexical "unterminated block comment" ⟨7, 7, 11⟩] := by decide +kernel
  have hcomplaint : (Scan.ofText 7 text.toList).complaint? ⟨some "A", .ordinary⟩ =
      some ("`void` cannot have array dimensions", ⟨7, 4, 5⟩) := by decide +kernel
  obtain ⟨-, -, _, -, -, -, hlexical, -⟩ :=
    readMethodLogged_outcome 7 ⟨some "A", .ordinary⟩ hs (Log.empty.emit earlier)
  have hreports := Scan.reports_read (Scan.ofText 7 text.toList) ⟨some "A", .ordinary⟩
  rw [hfaults, hcomplaint] at hreports
  exact ⟨hs, (hlexical _ _).2 ⟨_, congrArg List.head? hfaults, rfl, rfl⟩,
    (Log.reports_emitAll _ _).trans (congrArg _ hreports)⟩

end ClassModel
