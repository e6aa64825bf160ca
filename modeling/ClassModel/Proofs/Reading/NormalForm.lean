import ClassModel.Proofs.Reading.Proper
import ClassModel.Proofs.Token.Excerpt

namespace ClassModel

open Spelling Lexeme

namespace Method

/-- A declaration in full: its signature, and the two things that a signature leaves out. -/
def normalForm (d : Method) : String :=
  (if d.isDeprecated then "@Deprecated " else "") ++ d.signature
    ++ (match d.defaultText with
      | some t => " default " ++ t
      | none => "")
    ++ ";"

def outline (d : Method) (ctx : Context) (value : Option (Nat × Nat)) : Outline :=
  ⟨d.name, d.result, d.params, d.modifiers, d.throws, d.isVarargs,
    ctx.kind == .annotationType && d.result.isSome, value, d.isDeprecated⟩

end Method

variable {ctx : Context} {o : Outline} {d : Method} {ws : List Word}

theorem Spelling.Declaration.annotated {s : String} {as : List Word} (ha : Annotation s as)
    (h : Declaration ctx o ws) :
    Declaration ctx { o with isDeprecated := Grammar.marksDeprecated s || o.isDeprecated }
      (as ++ ws) := by
  cases h with
  | mk l r hi hm hh hp ht he =>
    have hall := Declaration.mk l r (.annotated ha hi) hm hh hp ht he
    rwa [List.append_assoc] at hall

theorem Spelling.Declaration.outline_method (h : Declaration ctx o ws) (s : Scan) :
    (s.method o).outline ctx o.default = o := by
  cases h
  rfl

/-- A default value stands in the text between its keyword and the last semicolon. -/
theorem Scan.exists_value {file : FileId} {cs : List Char} (hr : (ofText file cs).reports = [])
    (h : Declaration ctx o (ofText file cs).words) {p : Nat × Nat} (hp : o.default = some p) :
    ∃ ls ws, Excerpt ls ws ∧ Value ws ∧
      (ctx.kind == .annotationType && o.result.isSome) = true ∧ p = (ws.length + 1, 1) ∧
      (ofText file cs).between (ws.length + 1) 1 = ls.flatMap Lexeme.text := by
  generalize hw : (ofText file cs).words = words at h
  cases h with
  | @mk l r _ _ _ _ _ _ _ items head ps ts tail hi hm hh hps ht he =>
    dsimp only at hp
    rw [hp] at he
    cases he with
    | @default w t ws ha hv =>
      have hwords : (ofText file cs).words = (items ++ (head ++ ⟨.leftParen, l⟩ ::
          (ps ++ ⟨.rightParen, r⟩ :: (ts ++ [⟨.modifier .default, w⟩])))) ++
            (ws ++ [⟨.semicolon, t⟩]) := by
        rw [hw]
        simp only [List.append_assoc, List.cons_append, List.nil_append]
      obtain ⟨ls, hls, hbetween⟩ := exists_excerpt hr hwords hv.ne_nil
      exact ⟨ls, ws, hls, hv, ha, rfl, hbetween⟩

theorem reads_front (h : d.plain.Renderable)
    (hc : d.isConstructor = true → ctx.className = some d.name) :
    ∃ front, (∀ {rest : List Char} {ws : List Word}, Reads.Boundary rest → Reads rest ws →
        Reads (((if d.isDeprecated then "@Deprecated " else "") ++ d.signature).toList ++ rest)
          (front ++ ws)) ∧
      ∀ {value : Option (Nat × Nat)} {tail : List Word},
        Tail (ctx.kind == .annotationType && d.result.isSome) value tail →
          Declaration ctx (d.outline ctx value) (front ++ tail) := by
  obtain ⟨ws, hw, hdecl⟩ := Method.writes_signature h hc
  unfold Method.outline
  cases d.isDeprecated with
  | false => exact ⟨ws, hw.reads, hdecl⟩
  | true =>
    have hmark : IsIdentifier "Deprecated" := by decide
    have hword := hmark.writes.append .blank hw
    refine ⟨[⟨.atSign, "@"⟩, ⟨.identifier, "Deprecated"⟩] ++ ws, fun {rest _} hb hr ↦ ?_,
      fun ht ↦ ?_⟩
    · have hall := (hword.reads hb hr).punctuation (c := '@') rfl (by decide)
      have htext : ("@Deprecated " ++ d.signature).toList ++ rest =
          '@' :: (("Deprecated" ++ " " ++ d.plain.signature).toList ++ rest) := by
        simp [d.signature_plain]
      rw [if_pos rfl, htext]
      exact hall
    · exact (hdecl ht).annotated (.plain "@" (.single "Deprecated"))

theorem reads_normalForm (h : d.plain.Renderable)
    (hc : d.isConstructor = true → ctx.className = some d.name) (hd : d.defaultText = none) :
    ∃ ws, Reads d.normalForm.toList ws ∧ Declaration ctx (d.outline ctx none) ws := by
  obtain ⟨front, hfront, hdecl⟩ := reads_front h hc
  refine ⟨_, ?_, hdecl (.semicolon ";")⟩
  have hall := hfront (Reads.boundary_cons (by decide) _) .semicolon
  rw [Method.normalForm, hd, String.append_empty, String.toList_append]
  exact hall

theorem reads_default : Reads " default".toList [⟨.modifier .default, "default"⟩] := by
  have hf : first 'd' "efault".toList =
      (⟨.token (.modifier .default), "default".toList⟩, []) := by decide
  exact (Reads.of_last hf).blank (by decide)

theorem ofText_semicolon : ofText [';'] = [⟨.token .semicolon, [';']⟩] := by
  have hf : first ';' [] = (⟨.token .semicolon, [';']⟩, []) := by decide
  rw [ofText_cons, hf, ofText]

/-- A default value falls into the lexemes that it consisted of where it stood before. -/
theorem lexemes_normalForm (h : d.plain.Renderable)
    (hc : d.isConstructor = true → ctx.className = some d.name) {ls : List Lexeme}
    (hls : Excerpt ls ws) (hd : d.defaultText = some (String.ofList (ls.flatMap text)))
    (hv : Value ws) (ha : (ctx.kind == .annotationType && d.result.isSome) = true) :
    (∃ front, ofText d.normalForm.toList = front ++ (ls ++ [⟨.token .semicolon, [';']⟩])) ∧
      (∀ l ∈ ofText d.normalForm.toList, l.fault? = none) ∧
      Declaration ctx (d.outline ctx (some (ws.length + 1, 1)))
        ((ofText d.normalForm.toList).filterMap word?) := by
  obtain ⟨front, hfront, hdecl⟩ := reads_front h hc
  have hboundary : Reads.Boundary " default".toList := by
    rintro c ⟨⟩
    decide
  have hbegin := hfront hboundary reads_default
  have hvalue := hls.again (breaking_semicolon [])
  rw [ofText_semicolon] at hvalue
  obtain ⟨c, cs, hcs, hblank⟩ := hls.framed.starts hvalue
  have hspaced : ofText (' ' :: (ls.flatMap text ++ [';'])) =
      ⟨.blank, [' ']⟩ :: (ls ++ [⟨.token .semicolon, [';']⟩]) := by
    rw [hcs, ofText_cons, first_blank hblank, ← hcs, hvalue]
  have htext : d.normalForm.toList =
      ((if d.isDeprecated then "@Deprecated " else "") ++ d.signature).toList ++
        " default".toList ++ ' ' :: (ls.flatMap text ++ [';']) := by
    rw [Method.normalForm, hd]
    simp
  have hall := hbegin.ofText_append (breaking_blank (ls.flatMap text ++ [';']))
  rw [← htext, hspaced] at hall
  refine ⟨⟨_, hall.trans (List.append_cons ..)⟩, ?_, ?_⟩
  · rw [hall]
    simp only [List.forall_mem_append, List.forall_mem_cons]
    exact ⟨hbegin.faultless, rfl, hls.faultless, rfl, nofun⟩
  · have hwords : (⟨.blank, [' ']⟩ :: (ls ++ [⟨.token .semicolon, [';']⟩])).filterMap word? =
        ws ++ [⟨.semicolon, ";"⟩] := by
      rw [List.filterMap_cons_none rfl, List.filterMap_append, hls.words]
      rfl
    rw [hall, List.filterMap_append, hbegin.words, hwords, List.append_assoc]
    exact hdecl (.default "default" ";" ha hv)

/-- What is said in the same words is the same but for its place, if the default values agree. -/
theorem Scan.read_again {s s' : Scan} (hr : s'.reports = []) (ho : Declaration ctx o s'.words)
    (hd : (s'.method o).defaultText = (s.method o).defaultText) :
    ∃ span, s'.read ctx = ⟨.ok { s.method o with span := span }, []⟩ := by
  refine ⟨s'.extent, ?_⟩
  rw [read_eq hr ho]
  dsimp only
  rw [← hd]
  rfl

/-- Every text that is read has a normal form, which is read without any report as the same
declaration in another place. -/
theorem readMethod_normalForm (file file' : FileId) {text : String}
    (h : (readMethod file ctx text).result = .ok d) :
    ∃ span, readMethod file' ctx d.normalForm = ⟨.ok { d with span := span }, []⟩ ∧
      { d with span := span }.normalForm = d.normalForm := by
  obtain ⟨hr, o, ho, rfl⟩ := Scan.read_result_iff.1 h
  obtain ⟨hd, hc⟩ := ho.renderable (Scan.proper_words file text.toList) (.ofText file text.toList)
  have houtline := ho.outline_method (.ofText file text.toList)
  suffices hread : ∃ span, readMethod file' ctx _ = _ by
    obtain ⟨span, hspan⟩ := hread
    exact ⟨span, hspan, rfl⟩
  cases hp : o.default with
  | none =>
    have htext : ((Scan.ofText file text.toList).method o).defaultText = none := by
      rw [Scan.method, hp]
      rfl
    obtain ⟨ws, hreads, hdecl⟩ := reads_normalForm hd hc htext
    rw [← hp, houtline, ← hreads.words_ofText file'] at hdecl
    refine Scan.read_again (hreads.reports_ofText file') hdecl ?_
    rw [htext, Scan.method, hp]
    rfl
  | some p =>
    obtain ⟨ls, ws, hls, hvalue, ha, rfl, hbetween⟩ := Scan.exists_value hr ho hp
    have htext : ((Scan.ofText file text.toList).method o).defaultText =
        some (String.ofList (ls.flatMap Lexeme.text)) := by
      rw [← hbetween, Scan.method, hp]
      rfl
    obtain ⟨⟨front, hlexemes⟩, hfaultless, hdecl⟩ := lexemes_normalForm hd hc hls htext hvalue ha
    rw [← hp, houtline, ← Scan.words_ofText_eq file'] at hdecl
    refine Scan.read_again (faultReports_eq_nil file' 0 hfaultless) hdecl ?_
    have hagain := Scan.between_ofText file' hlexemes hls.framed
    rw [hls.words] at hagain
    rw [htext, ← hagain, Scan.method, hp]
    rfl

/-- A default value with a closing bracket too many, a comment, and semicolons in a literal and in
braces. Comments and annotations outside of it go, and the modifiers change places. -/
theorem normalForm_of_awkward_text :
    let text := "@java.lang.Deprecated final public p.A[]f(@B T...x)throws E,F default/* */)\x7b" ++
      "\";\";'\\''\x7d// a\n]../**/;"
    let normal := "@Deprecated public final p.A[] f(T... x) throws E, F default )\x7b" ++
      "\";\";'\\''\x7d// a\n]..;"
    let ctx : Context := ⟨some "A", .annotationType⟩
    ∃ d, (readMethod 7 ctx text).result = .ok d ∧ d.normalForm = normal ∧ ∃ span,
      readMethod 8 ctx normal = ⟨.ok { d with span := span }, []⟩ ∧
        { d with span := span }.normalForm = normal := by
  intro text normal ctx
  have htext : (readMethod 7 ctx text).result.toOption.map Method.normalForm = some normal := by
    decide +kernel
  cases h : (readMethod 7 ctx text).result with
  | error e =>
    rw [h] at htext
    cases htext
  | ok d =>
    rw [h] at htext
    have hnormal : d.normalForm = normal := Option.some.inj htext
    obtain ⟨span, hread, hagain⟩ := readMethod_normalForm 7 8 h
    rw [hnormal] at hread hagain
    exact ⟨d, rfl, hnormal, span, hread, hagain⟩

end ClassModel
