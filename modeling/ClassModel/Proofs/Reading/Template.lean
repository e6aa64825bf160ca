import ClassModel.Member.EnumMethod
import ClassModel.Proofs.Reading.RoundTrip

namespace ClassModel

theorem tail_emptyBody (b : Bool) :
    Spelling.Tail b none [⟨.leftBrace, "\x7b"⟩, ⟨.rightBrace, "\x7d"⟩] := by
  have hpair : Spelling.Pair .leftBrace .rightBrace
      (⟨.leftBrace, "\x7b"⟩ :: ([] ++ [⟨.rightBrace, "\x7d"⟩])) := by
    refine .mk _ _ rfl fun ws hws ↦ ?_
    rw [List.prefix_nil.1 hws]
    exact Nat.le_refl _
  exact .body hpair

theorem readMethod_body (file : FileId) {ctx : Context} {d : Method} (h : d.Renderable)
    (hc : d.isConstructor = true → ctx.className = some d.name)
    (ha : d.isAnnotationMethod = true ↔ ctx.kind = .annotationType ∧ d.isConstructor = false) :
    ∃ place, readMethod file ctx (d.signature ++ " \x7b \x7d") =
      ⟨.ok { d with span := place, origin := .source }, []⟩ := by
  have hb : Reads.Boundary [' ', '{', ' ', '}'] := Reads.boundary_cons (by decide) _
  obtain ⟨c, cs, ws, htext, -, hr, hdecl⟩ :=
    Method.reads_signature_append h hc hb .emptyBody (tail_emptyBody _)
  have htext : (d.signature ++ " \x7b \x7d").toList = c :: cs := by
    rw [String.toList_append, ← htext]
    rfl
  have hann : (ctx.kind == .annotationType && d.result.isSome) = d.isAnnotationMethod := by
    rw [Bool.eq_iff_iff, ha, h.isConstructor]
    cases d.result <;> simp
  rw [readMethod, htext, Scan.read, hr.words_ofText file, Grammar.outline_iff.2 hdecl,
    hr.reports_ofText file]
  simp only [Scan.method, hann, h.isConstructor, h.defaultText, h.isDeprecated, Option.map_none]
  exact ⟨_, rfl⟩

namespace EnumMethod

def signature (enum : String) : EnumMethod → String
  | values => "public static " ++ enum ++ "[] values()"
  | valueOf => "public static " ++ enum ++ " valueOf(java.lang.String name) " ++
      "throws java.lang.IllegalArgumentException"

theorem signature_values (enum : String) :
    values.signature enum = "public static " ++ enum ++ "[] values()" := rfl

theorem signature_valueOf (enum : String) :
    valueOf.signature enum = "public static " ++ enum ++ " valueOf(java.lang.String name) " ++
      "throws java.lang.IllegalArgumentException" := rfl

def method (enum : String) (span : Span) : EnumMethod → Method
  | values =>
    ⟨"values", some ⟨enum, 1⟩, [], .ofList [.pub, .static], [], false, false, false, none, false,
      span, .synthetic⟩
  | valueOf =>
    ⟨"valueOf", some ⟨enum, 0⟩, [⟨⟨"java.lang.String", 0⟩, "name"⟩], .ofList [.pub, .static],
      [⟨"java.lang.IllegalArgumentException", 0⟩], false, false, false, none, false, span,
      .synthetic⟩

variable {enum : String} {span : Span} {which : EnumMethod}

theorem signature_method : (which.method enum span).signature = which.signature enum := by
  have hmodifiers : String.join ((Modifiers.ofList [.pub, .static]).keywords.map (· ++ " ")) =
      "public static " := rfl
  have hone : brackets 1 = "[]" := rfl
  have hzero : brackets 0 = "" := rfl
  cases which with
  | values =>
    simp [method, signature_values, Method.signature, Method.paramTexts, TypeRef.text, hmodifiers,
      hone, String.append_assoc]
  | valueOf =>
    simp [method, signature_valueOf, Method.signature, Method.paramTexts, Param.text, TypeRef.text,
      hmodifiers, hzero, String.append_assoc]

theorem text_eq : which.text enum = which.signature enum ++ " \x7b \x7d" := by
  cases which with
  | values =>
    have htext : values.text enum = "public static " ++ enum ++ "[] values() \x7b \x7d" := rfl
    simp [htext, signature_values, String.append_assoc]
  | valueOf =>
    have htext : valueOf.text enum = "public static " ++ enum ++
        " valueOf(java.lang.String name) " ++
        "throws java.lang.IllegalArgumentException \x7b \x7d" := rfl
    simp [htext, signature_valueOf, String.append_assoc]

theorem renderable_method (h : IsIdentifier enum) : (which.method enum span).Renderable := by
  have henum : IsQualified enum := ⟨enum, [], by simpa using h, by simp⟩
  cases which with
  | values =>
    refine ⟨(by decide : IsIdentifier "values"), nofun, nofun, fun t ht ↦ ?_, rfl, nofun, rfl, rfl⟩
    obtain rfl := Option.some.inj ht
    exact .inl henum
  | valueOf =>
    refine ⟨(by decide : IsIdentifier "valueOf"), fun p hp ↦ ?_, fun t ht ↦ ?_, fun t ht ↦ ?_, rfl,
      nofun, rfl, rfl⟩
    · obtain rfl := List.mem_singleton.1 hp
      exact ⟨by decide, "java", ["lang", "String"], by decide, rfl⟩
    · obtain rfl := List.mem_singleton.1 ht
      exact ⟨"java", ["lang", "IllegalArgumentException"], by decide, rfl⟩
    · obtain rfl := Option.some.inj ht
      exact .inl henum

end EnumMethod

/-- The class may have the name of the method, which is then still no constructor. -/
theorem readMethod_text {enum : String} (file : FileId) (span : Span) (h : IsIdentifier enum)
    (which : EnumMethod) :
    ∃ place, readMethod file ⟨some enum, .enumeration⟩ (which.text enum) =
      ⟨.ok { which.method enum span with span := place, origin := .source }, []⟩ := by
  have hd : (which.method enum span).Renderable := EnumMethod.renderable_method h
  have hread : ∃ place, readMethod file ⟨some enum, .enumeration⟩ _ = _ :=
    readMethod_body file hd (by cases which <;> nofun) (by cases which <;> simp [EnumMethod.method])
  obtain ⟨place, hread⟩ := hread
  rw [EnumMethod.signature_method, ← EnumMethod.text_eq] at hread
  exact ⟨place, hread⟩

end ClassModel
