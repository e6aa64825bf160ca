import ClassModel.Proofs.Checked.Agreement
import ClassModel.Proofs.Reading.Outcome

namespace ClassModel

namespace Checked

variable {file : FileId} {text : List Char}

theorem backs_ofText (file : FileId) (hs : byteSize text < UInt32.size) :
    Backs ⟨(Scan.ofText file text).kinds, text⟩ (Scan.ofText file text) where
  tokens := rfl
  length_lt := Nat.lt_of_le_of_lt (Scan.tiling file text).length_le hs
  kind_ne t ht := ((Scan.tiling file text).span_of_mem (fromByte?_zero text) hs ht).1
  file_eq t ht := ((Scan.tiling file text).span_of_mem (fromByte?_zero text) hs ht).2.1
  ordered := (Scan.tiling file text).pairwise (fromByte?_zero text) hs
  before_finish t ht := by
    obtain ⟨-, -, -, hlt, hpart⟩ := (Scan.tiling file text).span_of_mem (fromByte?_zero text) hs ht
    obtain ⟨pre, post, htext, -, hstop⟩ := slice?_eq_some_iff.1 hpart
    have hfinish : (Scan.ofText file text).finish.start.toNat = byteSize text :=
      Span.toNat_start_ofNat hs
    refine ⟨hlt, UInt32.le_iff_toNat_le.2 ?_⟩
    rw [hfinish, ← hstop, htext, ← List.append_assoc, byteSize_append (pre ++ t.text)]
    exact Nat.le_add_right ..
  source before t part after ht := by
    obtain ⟨ds, hds, hafter⟩ := (Scan.tiling file text).split (fromByte?_zero text) hs ht
    have hsize := byteSize_of_fromByte? hds
    obtain ⟨post, rfl, hstart, hstop⟩ := hafter.exists_source (by omega)
    rw [hstart, hstop]
    exact slice?_of_fromByte? (fromByte?_add hds)

theorem find?_error {rs : List Report} (h : ∀ r ∈ rs, r.severity = .error) :
    rs.find? (·.severity == .error) = rs.head? := by
  cases rs with
  | nil => rfl
  | cons r rs =>
    have hr : (r.severity == .error) = true := beq_iff_eq.2 (h r List.mem_cons_self)
    exact List.find?_cons_of_pos (p := fun r : Report ↦ r.severity == .error) hr

theorem head?_stopReports (s : Scan) (stop : Stop) :
    (s.stopReports stop).head?.toList = s.stopReports stop := by
  cases stop <;> rfl

theorem severity_of_mem_stopReports {s : Scan} {stop : Stop} {r : Report}
    (hr : r ∈ s.stopReports stop) : r.severity = .error := by
  cases stop with
  | faulty => cases hr
  | complaint c rest =>
    obtain rfl := List.mem_singleton.1 hr
    rfl

/-- No access fails, no counter gets too large and no loop runs out of turns. -/
theorem readMethod_eq (file : FileId) (ctx : Context) {text : String}
    (hs : byteSize text.toList < UInt32.size) :
    readMethod file ctx text = .ok (ClassModel.readMethod file ctx text) := by
  have htracks := (backs_ofText file hs).declaration_tracks ctx
  have hfaults : ∀ r ∈ (Scan.ofText file text.toList).reports, r.severity = .error :=
    fun _ ↦ severity_of_mem_faultReports
  have hall : Span.ofNat file 0 (byteSize text.toList) =
      ⟨(Scan.ofText file text.toList).finish.file, 0, (Scan.ofText file text.toList).finish.stop⟩ :=
    rfl
  rw [readMethod, lex_eq, ClassModel.readMethod, Scan.read]
  simp only [bind, Except.bind]
  generalize Scan.ofText file text.toList = s at *
  revert htracks
  generalize Grammar.outline ctx s.words = q
  generalize Input.declaration ⟨s.kinds, text.toList⟩ ctx = r
  rintro (⟨rfl⟩ | ⟨stop⟩)
  · dsimp only
    rw [find?_error hfaults]
    cases s.reports <;> rfl
  · dsimp only
    rw [head?_stopReports, find?_error fun r hr ↦
      (List.mem_append.1 hr).elim (hfaults r) severity_of_mem_stopReports]
    cases s.reports ++ s.stopReports stop <;> simp [hall]

variable {i : Input} {s : Scan}

theorem Backs.within_spanBefore (h : Backs i s) (hf : s.finish.start ≤ s.finish.stop) (n : Nat) :
    (s.spanBefore n).Within 0 s.finish.stop.toNat := by
  rw [Scan.spanBefore]
  split
  · next t ht =>
    obtain ⟨hlt, hle⟩ := h.before_finish t (List.mem_of_getElem? ht)
    have hstop := UInt32.le_trans hle hf
    exact ⟨Nat.zero_le _, UInt32.le_of_lt hlt, UInt32.le_iff_toNat_le.1 hstop⟩
  · exact ⟨Nat.zero_le _, hf, Nat.le_refl _⟩

theorem Backs.extent_eq (h : Backs i s) {first last : Token} (hf : s.tokens.head? = some first)
    (hl : s.tokens.getLast? = some last) :
    s.extent = ⟨s.finish.file, first.span.start, last.span.stop⟩ ∧
      first.span.start < last.span.stop := by
  obtain ⟨ts, hts⟩ := List.head?_eq_some_iff.1 hf
  have hfirst := h.before_finish first (List.mem_of_head? hf)
  have hlast := h.before_finish last (List.mem_of_getLast? hl)
  have hfile := h.file_eq first (List.mem_of_head? hf)
  have hle : first.span.start ≤ last.span.start ∧ first.span.stop ≤ last.span.stop := by
    have hmem := List.mem_of_getLast? hl
    have hordered := h.ordered
    rw [hts] at hmem hordered
    rcases List.mem_cons.1 hmem with rfl | hmem
    · exact ⟨UInt32.le_refl _, UInt32.le_refl _⟩
    · have hnext := (List.pairwise_cons.1 hordered).1 last hmem
      exact ⟨UInt32.le_trans (UInt32.le_of_lt hfirst.1) hnext,
        UInt32.le_trans hnext (UInt32.le_of_lt hlast.1)⟩
  have hmin : min first.span.start last.span.start = first.span.start := if_pos hle.1
  have hmax : max first.span.stop last.span.stop = last.span.stop := if_pos hle.2
  refine ⟨?_, UInt32.lt_of_le_of_lt hle.1 hlast.1⟩
  rw [Scan.extent, hf, hl]
  dsimp only
  rw [Span.cover, hfile, hmin, hmax]

theorem outline_nil (ctx : Context) :
    Grammar.outline ctx [] = .error (Grammar.expected .identifier []) := by
  rw [Grammar.outline, Grammar.header]
  · rfl
  · intro _ _ h
    cases h
  · intro _ _ _ h
    cases h

end Checked

namespace Scan

variable {file : FileId} {text : List Char} {ctx : Context}

theorem within_of_mem_reports (hs : byteSize text < UInt32.size) {r : Report}
    (hr : r ∈ (ofText file text).reports) : r.span.Within 0 (byteSize text) := by
  have hlexemes := Lexeme.flatMap_text_ofText text
  have hwithin := within_of_mem_faultReports (by rwa [hlexemes, Nat.zero_add]) hr
  rwa [hlexemes, Nat.zero_add] at hwithin

theorem within_of_complaint? (hs : byteSize text < UInt32.size) {c : String × Span}
    (hc : (ofText file text).complaint? ctx = some c) : c.2.Within 0 (byteSize text) := by
  have hstop : (ofText file text).finish.stop.toNat = byteSize text := Span.toNat_stop_ofNat hs
  unfold complaint? at hc
  split at hc
  · next c rest _ =>
    obtain rfl := Option.some.inj hc
    rw [← hstop]
    exact (Checked.backs_ofText file hs).within_spanBefore (UInt32.le_refl _) rest.length
  · cases hc

theorem within_of_result_eq_error (hs : byteSize text < UInt32.size) {e : ReadError}
    (he : ((ofText file text).read ctx).result = .error e) : e.span.Within 0 (byteSize text) := by
  cases ending_read file text ctx with
  | lexical r rs hf h =>
    obtain rfl := Except.error.inj (he.symm.trans h)
    exact within_of_mem_reports hs (hf ▸ List.mem_cons_self)
  | grammatical message span hf hc h =>
    obtain rfl := Except.error.inj (he.symm.trans h)
    exact within_of_complaint? hs hc
  | success m hf hc h => cases he.symm.trans h

theorem exists_extent (hs : byteSize text < UInt32.size) (hne : (ofText file text).tokens ≠ []) :
    (ofText file text).extent.Within 0 (byteSize text) ∧
      ∃ first last, (ofText file text).tokens.head? = some first ∧
        (ofText file text).tokens.getLast? = some last ∧
        (ofText file text).extent = ⟨file, first.span.start, last.span.stop⟩ := by
  have hbacks := Checked.backs_ofText file hs
  have hfinish : (ofText file text).finish.start.toNat = byteSize text := Span.toNat_start_ofNat hs
  obtain ⟨first, hfirst⟩ := Option.ne_none_iff_exists'.1 (mt List.head?_eq_none_iff.1 hne)
  obtain ⟨last, hlast⟩ := Option.ne_none_iff_exists'.1 (mt List.getLast?_eq_none_iff.1 hne)
  obtain ⟨hextent, hlt⟩ := hbacks.extent_eq hfirst hlast
  have hend := (hbacks.before_finish last (List.mem_of_getLast? hlast)).2
  refine ⟨?_, first, last, hfirst, hlast, hextent⟩
  rw [hextent, ← hfinish]
  exact ⟨Nat.zero_le _, UInt32.le_of_lt hlt, UInt32.le_iff_toNat_le.1 hend⟩

end Scan

/-- Reading a text ends without any access that fails, and yields spans in the text only. What is
read of a declaration is from its first token to its last. -/
theorem readMethod_safe (file : FileId) (ctx : Context) {text : String}
    (hs : byteSize text.toList < UInt32.size) :
    let s := Scan.ofText file text.toList
    let reading := readMethod file ctx text
    Checked.readMethod file ctx text = .ok reading ∧
    (∀ r ∈ reading.reports, r.span.Within 0 (byteSize text.toList)) ∧
    (∀ e, reading.result = .error e → e.span.Within 0 (byteSize text.toList)) ∧
    ∀ m, reading.result = .ok m → m.span.Within 0 (byteSize text.toList) ∧
      ∃ first last, s.tokens.head? = some first ∧ s.tokens.getLast? = some last ∧
        m.span = ⟨file, first.span.start, last.span.stop⟩ := by
  intro s reading
  refine ⟨Checked.readMethod_eq file ctx hs, fun r hr ↦ ?_,
    fun e he ↦ Scan.within_of_result_eq_error hs he, fun m hm ↦ ?_⟩
  · have hreports : reading.reports = _ := Scan.reports_read s ctx
    rw [hreports] at hr
    rcases List.mem_append.1 hr with hr | hr
    · exact Scan.within_of_mem_reports hs hr
    · obtain ⟨c, hc, rfl⟩ := List.mem_map.1 hr
      exact Scan.within_of_complaint? hs (Option.mem_toList.1 hc)
  · obtain ⟨-, o, ho, rfl⟩ := Scan.read_result_iff.1 hm
    refine Scan.exists_extent hs fun hnil ↦ ?_
    have houtline : Grammar.outline ctx (s.tokens.map Token.word) = .ok o :=
      Grammar.outline_iff.2 ho
    rw [hnil, List.map_nil, Checked.outline_nil] at houtline
    cases houtline

/-- A constructor behind a comment that holds a character of two bytes. -/
theorem span_behind_comment :
    let text := "/*é*/A(); "
    let ctx : Context := ⟨some "A", .ordinary⟩
    byteSize text.toList < UInt32.size ∧
      Checked.readMethod 7 ctx text = .ok (readMethod 7 ctx text) ∧
      ∃ m, (readMethod 7 ctx text).result = .ok m ∧ m.span = ⟨7, 6, 10⟩ := by
  intro text ctx
  have hs : byteSize text.toList < UInt32.size := by decide
  have htokens : (Scan.ofText 7 text.toList).tokens =
      [⟨['/', '*', 'é', '*', '/'], .identifier, ['A'], ⟨7, 6, 7⟩⟩,
        ⟨[], .leftParen, ['('], ⟨7, 7, 8⟩⟩, ⟨[], .rightParen, [')'], ⟨7, 8, 9⟩⟩,
        ⟨[], .semicolon, [';'], ⟨7, 9, 10⟩⟩] := by decide +kernel
  have houtline : Grammar.outline ctx (Scan.ofText 7 text.toList).words =
      .ok ⟨"A", none, [], .none, [], false, false, none, false⟩ := by
    rw [Scan.words, htokens, Grammar.outline, List.map_cons, Grammar.header]
    · rfl
    · intro _ _ h
      cases h
    · intro _ _ _ h
      cases h
  have hreports : (Scan.ofText 7 text.toList).reports = [] := by decide +kernel
  have hread := Scan.read_result_iff.2 ⟨hreports, _, Grammar.outline_iff.1 houtline, rfl⟩
  obtain ⟨hchecked, -, -, hmethod⟩ := readMethod_safe 7 ctx hs
  obtain ⟨-, first, last, hfirst, hlast, hspan⟩ := hmethod _ hread
  rw [htokens] at hfirst hlast
  obtain rfl := Option.some.inj hfirst
  obtain rfl := Option.some.inj hlast
  exact ⟨hs, hchecked, _, hread, hspan⟩

end ClassModel
