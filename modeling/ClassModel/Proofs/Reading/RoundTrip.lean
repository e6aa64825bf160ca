import ClassModel.Proofs.Reading.Acceptance
import ClassModel.Proofs.Reading.Rendering

namespace ClassModel

open Spelling

/-- A declaration that is told by its signature: it consists of proper names, and has neither a
default value nor an annotation. -/
structure Method.Renderable (d : Method) : Prop where
  name : IsIdentifier d.name
  params : ∀ p ∈ d.params, IsIdentifier p.name ∧ IsQualified p.type.name
  throws : ∀ t ∈ d.throws, IsQualified t.name
  result : ∀ t ∈ d.result, IsQualified t.name ∨ t = ⟨"void", 0⟩
  isConstructor : d.isConstructor = d.result.isNone
  isVarargs : d.isVarargs = true → ∃ p, d.params.getLast? = some p ∧ 0 < p.type.dims
  defaultText : d.defaultText = none
  isDeprecated : d.isDeprecated = false

theorem Modifiers.nodup_toList (s : Modifiers) : s.toList.Nodup :=
  List.Pairwise.filter s.has (by decide)

namespace Method

variable {d : Method}

theorem reads_params (h : d.Renderable) :
    ∃ l part, Parameters l part ∧ l.map Prod.fst = d.params ∧ l.any Prod.snd = d.isVarargs ∧
      ∀ {rest : List Char} {ws : List Word}, Reads rest ws →
        Reads ((", ".intercalate (paramTexts d.isVarargs d.params)).toList ++ ')' :: rest)
          (part ++ ⟨.rightParen, ")"⟩ :: ws) := by
  have hps := h.params
  have hv := h.isVarargs
  cases hd : d.params with
  | nil =>
    refine ⟨[], [], .none, rfl, ?_, fun hr ↦ ?_⟩
    · cases hvar : d.isVarargs with
      | false => rfl
      | true =>
        obtain ⟨p, hp, -⟩ := hv hvar
        rw [hd] at hp
        cases hp
    · exact hr.punctuation rfl (by decide)
  | cons p ps =>
    rw [hd] at hps hv
    obtain ⟨l, part, hs, hl, hfst, hany, hw⟩ := writes_params hps hv
    refine ⟨l, part, .some hs hl, hfst, hany, fun hr ↦ ?_⟩
    exact hw.reads (Reads.boundary_cons (by decide) _) (hr.punctuation rfl (by decide))

theorem reads_throws {throws : List TypeRef} (h : ∀ t ∈ throws, IsQualified t.name) :
    ∃ part, Throws throws part ∧ ∀ {rest : List Char} {ws : List Word},
      Reads.Boundary rest → Reads rest ws →
        Reads ((if throws.isEmpty then "" else
            " throws " ++ ", ".intercalate (throws.map TypeRef.text)).toList ++ rest)
          (part ++ ws) := by
  cases throws with
  | nil => exact ⟨[], .none, fun _ hr ↦ hr⟩
  | cons t ts =>
    obtain ⟨ws, hs, hw⟩ := writes_types h
    refine ⟨_, .some "throws" hs, fun hb hr ↦ ?_⟩
    have hw := Writes.throws.append .blank hw
    have hall := hw.reads hb hr
    obtain ⟨c, cs, hc, hstart⟩ := hw.starts
    rw [hc] at hall
    have htext : (" throws " ++ ", ".intercalate ((t :: ts).map TypeRef.text)).toList =
        ' ' :: c :: cs := by
      rw [← hc]
      simp
    rw [List.isEmpty_cons, if_neg Bool.false_ne_true, htext]
    exact hall.blank hstart

theorem toList_signature (d : Method) :
    d.signature.toList =
      (String.join (d.modifiers.keywords.map (· ++ " ")) ++
        (d.result.elim "" (TypeRef.text · ++ " ") ++ d.name)).toList ++
      '(' :: ((", ".intercalate (paramTexts d.isVarargs d.params)).toList ++
      ')' :: (if d.throws.isEmpty then "" else
        " throws " ++ ", ".intercalate (d.throws.map TypeRef.text)).toList) := by
  cases hr : d.result <;> simp [signature, hr]

/-- A signature is written for the words of a declaration up to what ends it. -/
theorem writes_signature {ctx : Context} (h : d.Renderable)
    (hc : d.isConstructor = true → ctx.className = some d.name) :
    ∃ ws, Writes d.signature ws ∧ ∀ {value : Option (Nat × Nat)} {tail : List Word},
      Tail (ctx.kind == .annotationType && d.result.isSome) value tail → Declaration ctx
        ⟨d.name, d.result, d.params, d.modifiers, d.throws, d.isVarargs,
          ctx.kind == .annotationType && d.result.isSome, value, false⟩ (ws ++ tail) := by
  obtain ⟨l, part, hp, hfst, hany, hparams⟩ := reads_params h
  obtain ⟨ts, ht, hthrows⟩ := reads_throws h.throws
  obtain ⟨head, hh, hw⟩ := writes_head ctx h.name h.result fun hr ↦
    hc (by rw [h.isConstructor, hr]; rfl)
  obtain ⟨items, hi, hfront⟩ := writes_modifiers d.modifiers.toList hw
  obtain ⟨c, cs, hfirst, hstart⟩ := hfront.starts
  refine ⟨items ++ (head ++ ⟨.leftParen, "("⟩ :: (part ++ ⟨.rightParen, ")"⟩ :: ts)),
    ⟨⟨c, _, d.toList_signature.trans (congrArg (· ++ _) hfirst), hstart⟩, fun hb hr ↦ ?_⟩,
    fun htail ↦ ?_⟩
  · -- The text is put together from its end on, since every part is read before what follows it.
    have hopen := (hparams (hthrows hb hr)).punctuation (c := '(') rfl (by decide)
    have hall := hfront.reads (Reads.boundary_cons (by decide) _) hopen
    rw [toList_signature]
    simp only [List.append_assoc, List.cons_append] at hall ⊢
    exact hall
  · have hdecl : Declaration ctx _ _ :=
      .mk "(" ")" hi d.modifiers.nodup_toList hh hp ht htail
    rw [hfst, hany, Modifiers.ofList_toList] at hdecl
    simpa only [List.append_assoc, List.cons_append] using hdecl

theorem reads_signature_append {ctx : Context} (h : d.Renderable)
    (hc : d.isConstructor = true → ctx.className = some d.name) {value : Option (Nat × Nat)}
    {rest : List Char} {tail : List Word} (hb : Reads.Boundary rest) (hr : Reads rest tail)
    (htail : Tail (ctx.kind == .annotationType && d.result.isSome) value tail) :
    ∃ c cs ws, d.signature.toList ++ rest = c :: cs ∧ isNameStart c = true ∧
      Reads (c :: cs) ws ∧ Declaration ctx
        ⟨d.name, d.result, d.params, d.modifiers, d.throws, d.isVarargs,
          ctx.kind == .annotationType && d.result.isSome, value, false⟩ ws := by
  obtain ⟨ws, hw, hdecl⟩ := writes_signature h hc
  obtain ⟨c, cs, hcs, hstart⟩ := hw.starts
  have hall := hw.reads hb hr
  rw [hcs] at hall ⊢
  exact ⟨c, cs ++ rest, ws ++ tail, rfl, hstart, hall, hdecl htail⟩

theorem reads_signature {ctx : Context} (h : d.Renderable)
    (hc : d.isConstructor = true → ctx.className = some d.name) :
    ∃ c cs ws, (d.signature ++ ";").toList = c :: cs ∧ isNameStart c = true ∧
      Reads (c :: cs) ws ∧ Declaration ctx
        ⟨d.name, d.result, d.params, d.modifiers, d.throws, d.isVarargs,
          ctx.kind == .annotationType && d.result.isSome, none, false⟩ ws := by
  have hb : Reads.Boundary [';'] := Reads.boundary_cons (by decide) []
  rw [String.toList_append]
  exact reads_signature_append h hc hb .semicolon (.semicolon ";")

end Method

/-- A signature with a semicolon behind it is read as the declaration that it was made from, now
with a place in a file. -/
theorem readMethod_signature (file : FileId) {ctx : Context} {d : Method} (h : d.Renderable)
    (hc : d.isConstructor = true → ctx.className = some d.name)
    (ha : d.isAnnotationMethod = true ↔ ctx.kind = .annotationType ∧ d.isConstructor = false)
    (hs : byteSize d.signature.toList < UInt32.size - 1) :
    readMethod file ctx (d.signature ++ ";") =
      ⟨.ok { d with
        span := ⟨file, 0, .ofNat (byteSize d.signature.toList + 1)⟩, origin := .source }, []⟩ := by
  obtain ⟨c, cs, ws, htext, hstart, hr, hdecl⟩ := Method.reads_signature h hc
  have hsize : byteSize (c :: cs) = byteSize d.signature.toList + 1 := by
    rw [← htext, String.toList_append, byteSize_append]
    rfl
  have hextent := hr.extent_ofText file hstart (by omega)
  have hann : (ctx.kind == .annotationType && d.result.isSome) = d.isAnnotationMethod := by
    rw [Bool.eq_iff_iff, ha, h.isConstructor]
    cases d.result <;> simp
  rw [readMethod, htext, Scan.read, hr.words_ofText file, Grammar.outline_iff.2 hdecl,
    hr.reports_ofText file]
  simp only [Scan.method, hextent, hsize, hann, h.isConstructor, h.defaultText, h.isDeprecated,
    Option.map_none]
  rfl

theorem reads_back_pick :
    readMethod 7 ⟨some "Color", .enumeration⟩
        "public static Color[] pick(java.lang.String... names) throws E;" =
      ⟨.ok ⟨"pick", some ⟨"Color", 1⟩, [⟨⟨"java.lang.String", 1⟩, "names"⟩],
        .ofList [.pub, .static], [⟨"E", 0⟩], false, true, false, none, false, ⟨7, 0, 63⟩,
        .source⟩, []⟩ := by
  have h : readMethod 7 ⟨some "Color", .enumeration⟩ _ = _ := readMethod_signature 7
    (d := ⟨"pick", some ⟨"Color", 1⟩, [⟨⟨"java.lang.String", 1⟩, "names"⟩],
      .ofList [.pub, .static], [⟨"E", 0⟩], false, true, false, none, false, .dummy, .synthetic⟩)
    { name := by decide
      params := by
        intro p hp
        obtain rfl := List.mem_singleton.1 hp
        exact ⟨by decide, "java", ["lang", "String"], by decide, rfl⟩
      throws := by
        intro t ht
        obtain rfl := List.mem_singleton.1 ht
        exact ⟨"E", [], by decide, rfl⟩
      result := by
        intro t ht
        obtain rfl := Option.some.inj ht
        exact .inl ⟨"Color", [], by decide, rfl⟩
      isConstructor := rfl
      isVarargs := fun _ ↦ ⟨_, rfl, by decide⟩
      defaultText := rfl
      isDeprecated := rfl } (by decide) (by decide) (by decide)
  exact h

end ClassModel
