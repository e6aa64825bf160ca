import ClassModel.Proofs.Reading.Soundness
import ClassModel.Reading.Method

namespace ClassModel.Grammar

open Spelling

def leading (ws : List Word) : Option Token.Kind := ws.head?.map Word.kind

theorem startsWith_eq_false {k : Token.Kind} {ws : List Word} (h : leading ws ≠ some k) :
    startsWith k ws = false := by
  cases ws with
  | nil => rfl
  | cons w ws => exact beq_eq_false_iff_ne.2 fun hw ↦ h (congrArg some hw)

theorem startsWith_eq_true {k : Token.Kind} {ws : List Word} (h : leading ws = some k) :
    startsWith k ws = true := by
  cases ws with
  | nil => cases h
  | cons w ws => exact beq_iff_eq.2 (Option.some.inj h)

theorem leading_append {k : Token.Kind} {ws : List Word} (h : leading ws = some k)
    (rest : List Word) : leading (ws ++ rest) = some k := by
  cases ws with
  | nil => cases h
  | cons w ws => exact h

theorem leading_name {s : String} {ws : List Word} (h : Name s ws) :
    leading ws = some .identifier := by
  cases h <;> rfl

theorem leading_typeName {t : TypeRef} {ws : List Word} (h : TypeName t ws) :
    leading ws = some .identifier := by
  obtain ⟨hs, -⟩ := h
  exact leading_append (leading_name hs) _

theorem annotation_leading {s : String} {ws : List Word} (h : Annotation s ws) :
    leading ws = some .atSign := by
  cases h <;> rfl

theorem dotted_eq_nil {ws : List Word} (h : leading ws ≠ some .dot) : dotted ws = ("", ws) := by
  unfold dotted
  split
  · exact absurd rfl h
  · rfl

theorem dotted_cons {s d : String} {ws rest : List Word} (h : qualifiedName ws = .ok (s, rest)) :
    dotted (⟨.dot, d⟩ :: ws) = ("." ++ s, rest) := by
  obtain ⟨⟨t, ws₁⟩, h₁, h₂⟩ := bind_eq_ok.1 h
  obtain ⟨rfl, rfl⟩ := Prod.mk.inj (Except.ok.inj h₂)
  rw [identifier_sound h₁, dotted]
  simp only [String.append_assoc]

theorem qualifiedName_complete {s : String} {name rest : List Word} (h : Name s name)
    (hr : leading rest ≠ some .dot) : qualifiedName (name ++ rest) = .ok (s, rest) := by
  induction h with
  | single s =>
    refine bind_eq_ok.2 ⟨(s, rest), rfl, ?_⟩
    simp [dotted_eq_nil hr]
  | @dotted s d t ws h ih =>
    refine bind_eq_ok.2 ⟨(s, ⟨.dot, d⟩ :: (ws ++ rest)), rfl, ?_⟩
    simp only [dotted_cons ih, String.append_assoc]

theorem dims_eq_zero {ws : List Word} (h : leading ws ≠ some .leftBracket) :
    dims ws = .ok (0, ws) := by
  unfold dims
  split
  · exact absurd rfl h
  · exact absurd rfl h
  · rfl

theorem dims_complete {n : Nat} {ds rest : List Word} (h : Dims n ds)
    (hr : leading rest ≠ some .leftBracket) : dims (ds ++ rest) = .ok (n, rest) := by
  induction h with
  | none => exact dims_eq_zero hr
  | @pair l r n ws h ih =>
    rw [List.cons_append, List.cons_append, dims]
    exact bind_eq_ok.2 ⟨(n, rest), ih, rfl⟩

theorem typeRef_complete {t : TypeRef} {ts rest : List Word} (h : TypeName t ts)
    (hr : leading rest ∉ [some .dot, some .leftBracket, some .less]) :
    typeRef (ts ++ rest) = .ok (t, rest) := by
  obtain ⟨hd, hb, hl⟩ : leading rest ≠ some .dot ∧ leading rest ≠ some .leftBracket ∧
      leading rest ≠ some .less := by simpa using hr
  have hv : startsWith .void (ts ++ rest) = false := by
    refine startsWith_eq_false ?_
    rw [leading_append (leading_typeName h)]
    decide
  obtain @⟨s, n, name, ds, hs, hn⟩ := h
  have hds : leading (ds ++ rest) ≠ some .dot ∧ leading (ds ++ rest) ≠ some .less := by
    cases hn with
    | none => exact ⟨hd, hl⟩
    | pair l r h => exact ⟨by simp [leading], by simp [leading]⟩
  rw [List.append_assoc] at hv ⊢
  rw [typeRef, if_neg (by simp [hv])]
  refine bind_eq_ok.2 ⟨(s, ds ++ rest), qualifiedName_complete hs hds.1, ?_⟩
  dsimp only
  rw [if_neg (by simp [startsWith_eq_false hds.2])]
  exact bind_eq_ok.2 ⟨(n, rest), dims_complete hn hb, rfl⟩

theorem behind_opening {opening closing : Token.Kind} {w : Word} (h : w.kind = opening)
    (depth : Nat) (ws : List Word) :
    behind opening closing depth (w :: ws) = behind opening closing (depth + 1) ws := by
  rw [behind.eq_def]
  exact if_pos h

theorem behind_closing {opening closing : Token.Kind} {w : Word} (ho : w.kind ≠ opening)
    (hc : w.kind = closing) (depth : Nat) (ws : List Word) :
    behind opening closing (depth + 1) (w :: ws) = behind opening closing depth ws := by
  rw [behind.eq_def]
  exact (if_neg ho).trans (if_pos hc)

theorem behind_other {opening closing : Token.Kind} {w : Word} (ho : w.kind ≠ opening)
    (hc : w.kind ≠ closing) (depth : Nat) (ws : List Word) :
    behind opening closing depth (w :: ws) = behind opening closing depth ws := by
  rw [behind.eq_def]
  exact (if_neg ho).trans (if_neg hc)

/-- The opening and closing words inside balance each other only at the end, so that no earlier
closing word is taken for the matching one. -/
theorem behind_complete {opening closing : Token.Kind} (hne : opening ≠ closing) {r : String}
    {inner : List Word} (rest : List Word) {depth : Nat}
    (he : number closing inner = number opening inner + depth)
    (hp : ∀ ws, ws <+: inner → number closing ws ≤ number opening ws + depth) :
    behind opening closing depth (inner ++ ⟨closing, r⟩ :: rest) = some rest := by
  induction inner generalizing depth with
  | nil =>
    obtain rfl : depth = 0 := by simpa [number] using he.symm
    simp [behind, hne.symm]
  | cons w inner ih =>
    obtain ⟨-, hw⟩ := forall_prefix_cons.1 hp
    rw [List.cons_append]
    by_cases ho : w.kind = opening
    · have hc : w.kind ≠ closing := fun hc ↦ hne (ho.symm.trans hc)
      rw [number_cons_self ho, number_cons_of_ne hc] at he
      rw [behind_opening ho]
      refine ih (by omega) fun ws h ↦ ?_
      have hle := hw ws h
      rw [number_cons_self ho, number_cons_of_ne hc] at hle
      omega
    · by_cases hc : w.kind = closing
      · rw [number_cons_of_ne ho, number_cons_self hc] at he
        have hw₀ := hw [] List.nil_prefix
        rw [number_cons_of_ne ho, number_cons_self hc] at hw₀
        cases depth with
        | zero =>
          -- This word would be taken for the matching one, too early.
          exact absurd hw₀ (Nat.not_succ_le_zero 0)
        | succ depth =>
          rw [behind_closing ho hc]
          refine ih (by omega) fun ws h ↦ ?_
          have hle := hw ws h
          rw [number_cons_of_ne ho, number_cons_self hc] at hle
          omega
      · rw [number_cons_of_ne ho, number_cons_of_ne hc] at he
        rw [behind_other ho hc]
        refine ih he fun ws h ↦ ?_
        have hle := hw ws h
        rwa [number_cons_of_ne ho, number_cons_of_ne hc] at hle

theorem skipPair_complete {opening closing : Token.Kind} (hne : opening ≠ closing) (w : Wanted)
    {pair : List Word} (h : Pair opening closing pair) (rest : List Word) :
    leading (pair ++ rest) = some opening ∧
      skipPair opening closing w (pair ++ rest).tail = .ok rest := by
  obtain @⟨l, r, inner, he, hp⟩ := h
  refine ⟨rfl, ?_⟩
  have hb : behind opening closing 0 (inner ++ ⟨closing, r⟩ :: rest) = some rest :=
    behind_complete hne rest he hp
  simp [skipPair, hb]

theorem annotationName_complete {s : String} {as : List Word} (h : Annotation s as) :
    ∃ a as', as = ⟨.atSign, a⟩ :: as' ∧
      ∀ rest, leading rest ∉ [some .dot, some .leftParen] →
        annotationName (as' ++ rest) = .ok (s, rest) := by
  cases h with
  | @plain a _ name hs =>
    refine ⟨a, name, rfl, fun rest hr ↦ ?_⟩
    obtain ⟨hd, hp⟩ : leading rest ≠ some .dot ∧ leading rest ≠ some .leftParen := by
      simpa using hr
    refine bind_eq_ok.2 ⟨(s, rest), qualifiedName_complete hs hd, ?_⟩
    simp [startsWith_eq_false hp]
  | @applied a _ name args hs ha =>
    refine ⟨a, name ++ args, rfl, fun rest _ ↦ ?_⟩
    obtain ⟨hl, hskip⟩ := skipPair_complete (by decide) .rightParen ha rest
    have hd : leading (args ++ rest) ≠ some .dot := by rw [hl]; decide
    rw [List.append_assoc]
    refine bind_eq_ok.2 ⟨(s, args ++ rest), qualifiedName_complete hs hd, ?_⟩
    dsimp only
    rw [if_pos (startsWith_eq_true hl)]
    exact bind_eq_ok.2 ⟨rest, hskip, rfl⟩

theorem header_atSign {deprecated : Bool} {ms : Modifiers} {a s : String} {ws rest : List Word}
    (h : annotationName ws = .ok (s, rest)) :
    header deprecated ms (⟨.atSign, a⟩ :: ws) =
      header (deprecated || marksDeprecated s) ms rest := by
  rw [header]
  split
  · next he => rw [h] at he; cases he
  · next he =>
    rw [h] at he
    obtain ⟨rfl, rfl⟩ := Prod.mk.inj (Except.ok.inj he)
    rfl

theorem header_modifier {deprecated : Bool} {ms : Modifiers} {m : Modifier} {t : String}
    {ws : List Word} (h : ms.has m = false) :
    header deprecated ms (⟨.modifier m, t⟩ :: ws) = header deprecated (ms.insert m) ws := by
  rw [header, if_neg (by simp [h])]

theorem leading_items {d : Bool} {ms : List Modifier} {ws : List Word} (h : Items d ms ws) :
    ws = [] ∨ leading ws = some .atSign ∨ ∃ m, leading ws = some (.modifier m) := by
  cases h with
  | none => exact .inl rfl
  | annotated ha h => exact .inr (.inl (leading_append (annotation_leading ha) _))
  | modifier m t h => exact .inr (.inr ⟨m, rfl⟩)

theorem header_complete {d deprecated : Bool} {l : List Modifier} {ms : Modifiers}
    {items rest : List Word} (h : Items d l items) (hl : l.Nodup) (hm : ∀ m ∈ l, ms.has m = false)
    (hr : leading rest = some .identifier ∨ leading rest = some .void) :
    header deprecated ms (items ++ rest) =
      .ok (deprecated || d, l.foldl .insert ms, rest) := by
  induction h generalizing deprecated ms with
  | none =>
    rw [List.nil_append, header.eq_def]
    split
    · exact absurd hr (by simp [leading])
    · exact absurd hr (by simp [leading])
    · simp
  | @annotated s d l ws ws' ha h ih =>
    obtain ⟨a, as, rfl, hname⟩ := annotationName_complete ha
    have hn : leading (ws' ++ rest) ∉ [some .dot, some .leftParen] := by
      rcases leading_items h with rfl | hk | ⟨m, hk⟩
      · rcases hr with hk | hk <;> rw [List.nil_append, hk] <;> decide
      · rw [leading_append hk]
        decide
      · rw [leading_append hk]
        simp
    rw [List.append_assoc, List.cons_append, header_atSign (hname _ hn), ih hl hm, Bool.or_assoc]
  | @modifier m t d l ws h ih =>
    obtain ⟨hml, hl'⟩ := List.nodup_cons.1 hl
    rw [List.cons_append, header_modifier (hm m List.mem_cons_self)]
    refine ih hl' fun k hk ↦ ?_
    have hkm : k ≠ m := fun he ↦ hml (he ▸ hk)
    simpa [Modifiers.insert, hkm] using hm k (List.mem_cons_of_mem m hk)

theorem resultType_eq {t : TypeRef} {ws rest : List Word} (h : leading ws.tail ≠ some .leftParen)
    (ht : typeOrVoid ws = .ok (t, rest)) : resultType ws = .ok (some t, rest) := by
  unfold resultType
  split
  · exact absurd rfl h
  · exact bind_eq_ok.2 ⟨(t, rest), ht, rfl⟩

theorem leading_tail_typeName {t : TypeRef} {ws rest : List Word} (h : TypeName t ws)
    (hr : leading rest = some .identifier) : leading (ws ++ rest).tail ≠ some .leftParen := by
  obtain ⟨hs, hn⟩ := h
  cases hs with
  | single s =>
    cases hn with
    | none => exact fun hp ↦ by cases hr.symm.trans hp
    | pair l r h => simp [leading]
  | dotted s d h => simp [leading]

theorem leading_head {ctx : Context} {result : Option TypeRef} {s : String} {head : List Word}
    (h : Head ctx result s head) :
    leading head = some .identifier ∨ leading head = some .void := by
  cases h with
  | constructor h => exact .inl rfl
  | void v s => exact .inr rfl
  | typed s h => exact .inl (leading_append (leading_typeName h) _)

theorem head_complete {ctx : Context} {result : Option TypeRef} {s : String}
    {head rest : List Word} (h : Head ctx result s head) (hr : leading rest = some .leftParen) :
    ∃ start, resultType (head ++ rest) = .ok (result, start) ∧
      identifier start = .ok (s, rest) ∧ ¬(result.isNone ∧ ctx.className ≠ some s) := by
  cases h with
  | constructor h =>
    cases rest with
    | nil => cases hr
    | cons w ws =>
      obtain ⟨k, p⟩ := w
      obtain rfl : k = .leftParen := Option.some.inj hr
      exact ⟨_, rfl, rfl, fun hc ↦ hc.2 h⟩
  | void v s =>
    exact ⟨⟨.identifier, s⟩ :: rest, rfl, rfl, by simp⟩
  | @typed s t ws h =>
    have hi : leading (⟨.identifier, s⟩ :: rest) = some .identifier := rfl
    have hv : startsWith .void (ws ++ ⟨.identifier, s⟩ :: rest) = false := by
      refine startsWith_eq_false ?_
      rw [leading_append (leading_typeName h)]
      decide
    refine ⟨⟨.identifier, s⟩ :: rest, ?_, rfl, by simp⟩
    rw [List.append_assoc, List.singleton_append]
    refine resultType_eq (leading_tail_typeName h hi) ?_
    rw [typeOrVoid, if_neg (by simp [hv])]
    exact typeRef_complete h (by rw [hi]; decide)

theorem annotations_atSign {a s : String} {ws rest : List Word}
    (h : annotationName ws = .ok (s, rest)) :
    annotations (⟨.atSign, a⟩ :: ws) = annotations rest := by
  rw [annotations]
  split
  · next he => rw [h] at he; cases he
  · next he =>
    rw [h] at he
    obtain ⟨rfl, rfl⟩ := Prod.mk.inj (Except.ok.inj he)
    rfl

theorem annotations_complete {as rest : List Word} (h : Annotations as)
    (hr : leading rest ∉ [some .dot, some .leftParen, some .atSign]) :
    annotations (as ++ rest) = .ok rest := by
  induction h with
  | none =>
    rw [List.nil_append, annotations.eq_def]
    split
    · exact absurd hr (by simp [leading])
    · rfl
  | @cons s ws ws' ha h ih =>
    obtain ⟨a, as, rfl, hname⟩ := annotationName_complete ha
    have hn : leading (ws' ++ rest) ∉ [some .dot, some .leftParen] := by
      cases h with
      | none =>
        rw [List.nil_append]
        exact fun hk ↦ hr (List.mem_append_left [some Token.Kind.atSign] hk)
      | cons ha h =>
        rw [leading_append (leading_append (annotation_leading ha) _)]
        decide
    rw [List.append_assoc, List.cons_append, annotations_atSign (hname _ hn), ih]

theorem paramFront_complete {as f ts : List Word} {t : TypeRef} (ha : Annotations as)
    (hf : Perhaps (.modifier .final) f) (ht : TypeName t ts) (rest : List Word) :
    ∃ ws, annotations (as ++ (f ++ (ts ++ rest))) = .ok ws ∧
      (if startsWith (.modifier .final) ws then ws.tail else ws) = ts ++ rest := by
  have hl : leading (ts ++ rest) = some .identifier := leading_append (leading_typeName ht) rest
  cases hf with
  | absent =>
    refine ⟨ts ++ rest, annotations_complete ha (by rw [List.nil_append, hl]; decide), ?_⟩
    exact if_neg (by rw [startsWith_eq_false (by rw [hl]; decide)]; decide)
  | present s =>
    refine ⟨⟨.modifier .final, s⟩ :: (ts ++ rest), annotations_complete ha ?_, rfl⟩
    simp [leading]

theorem param_complete {p : Param × Bool} {ps : List Word} (h : Parameter p ps)
    (rest : List Word) : param (ps ++ rest) = .ok (p, rest) := by
  cases h with
  | @single s t as f ts ha hf ht =>
    obtain ⟨ws, hws, he⟩ := paramFront_complete ha hf ht (⟨.identifier, s⟩ :: rest)
    simp only [List.append_assoc, List.singleton_append]
    refine bind_eq_ok.2 ⟨ws, hws, bind_eq_ok.2 ⟨(t, ⟨.identifier, s⟩ :: rest), ?_, rfl⟩⟩
    rw [he]
    exact typeRef_complete ht (by simp [leading])
  | @varargs e s t as f ts ha hf ht =>
    obtain ⟨ws, hws, he⟩ :=
      paramFront_complete ha hf ht (⟨.ellipsis, e⟩ :: ⟨.identifier, s⟩ :: rest)
    simp only [List.append_assoc, List.cons_append, List.nil_append]
    refine bind_eq_ok.2 ⟨ws, hws, bind_eq_ok.2
      ⟨(t, ⟨.ellipsis, e⟩ :: ⟨.identifier, s⟩ :: rest), ?_, rfl⟩⟩
    rw [he]
    exact typeRef_complete ht (by simp [leading])

section

variable {α : Type} {item : List Word → Except Stop (α × List Word)}
  {shortens : ∀ {ws a rest}, item ws = .ok (a, rest) → rest.length < ws.length}
  {final : α → Option Complaint}

theorem commaList_comma {a : α} {c : String} {ws rest : List Word}
    (h : item ws = .ok (a, ⟨.comma, c⟩ :: rest)) (hf : final a = none) {as : List α}
    {rest' : List Word} (hl : commaList item shortens final rest = .ok (as, rest')) :
    commaList item shortens final ws = .ok (a :: as, rest') := by
  rw [commaList]
  split
  · next he => rw [h] at he; cases he
  · next he =>
    rw [h] at he
    cases he
    rw [hf]
    exact bind_eq_ok.2 ⟨(as, rest'), hl, rfl⟩
  · next hne he =>
    rw [h] at he
    cases he
    exact absurd rfl (hne c rest)

theorem commaList_last {a : α} {ws rest : List Word} (h : item ws = .ok (a, rest))
    (hr : leading rest ≠ some .comma) :
    commaList item shortens final ws = .ok ([a], rest) := by
  rw [commaList]
  split
  · next he => rw [h] at he; cases he
  · next he =>
    rw [h] at he
    cases he
    exact absurd rfl hr
  · next he =>
    rw [h] at he
    cases he
    rfl

/-- What an item leaves unread does not begin with any of the kinds `ks`. -/
theorem commaList_complete {spells : α → List Word → Prop} {ks : List (Option Token.Kind)}
    (hitem : ∀ {a part}, spells a part → ∀ rest, leading rest ∉ ks →
      item (part ++ rest) = .ok (a, rest))
    (hc : some .comma ∉ ks) {as : List α} {part rest : List Word} (h : Separated spells as part)
    (hf : ∀ a ∈ as.dropLast, final a = none) (hr : leading rest ∉ some .comma :: ks) :
    commaList item shortens final (part ++ rest) = .ok (as, rest) := by
  induction h with
  | last h =>
    exact commaList_last (hitem h rest fun hk ↦ hr (List.mem_cons_of_mem _ hk)) fun hk ↦
      hr (hk ▸ List.mem_cons_self)
  | @cons c a as ws ws' h hs ih =>
    have hne : as ≠ [] := by
      rintro rfl
      cases hs
    rw [List.dropLast_cons_of_ne_nil hne] at hf
    rw [List.append_assoc, List.cons_append]
    exact commaList_comma (hitem h _ hc) (hf a List.mem_cons_self)
      (ih fun b hb ↦ hf b (List.mem_cons_of_mem a hb))

end

theorem leading_parameter {p : Param × Bool} {ps : List Word} (h : Parameter p ps) :
    ∃ k, k ≠ .rightParen ∧ leading ps = some k := by
  have hl {as f ts rest : List Word} {t : TypeRef} (ha : Annotations as)
      (hf : Perhaps (.modifier .final) f) (ht : TypeName t ts) :
      ∃ k, k ≠ .rightParen ∧ leading (as ++ (f ++ (ts ++ rest))) = some k := by
    cases ha with
    | cons ha h =>
      exact ⟨.atSign, by decide,
        leading_append (leading_append (annotation_leading ha) _) _⟩
    | none =>
      cases hf with
      | present s => exact ⟨.modifier .final, by decide, rfl⟩
      | absent => exact ⟨.identifier, by decide, leading_append (leading_typeName ht) _⟩
  cases h with
  | single s ha hf ht => exact hl ha hf ht
  | varargs e s ha hf ht => exact hl ha hf ht

theorem params_complete {l : List (Param × Bool)} {part rest : List Word} (h : Parameters l part)
    (hr : leading rest = some .rightParen) :
    params (part ++ rest) = .ok ((l.map Prod.fst, l.any Prod.snd), rest) := by
  cases h with
  | none =>
    rw [List.nil_append, params, if_pos (startsWith_eq_true hr)]
    rfl
  | some h hv =>
    have hs : startsWith .rightParen (part ++ rest) = false := by
      have hl : ∃ k, k ≠ .rightParen ∧ leading (part ++ rest) = some k := by
        cases h with
        | last hp =>
          obtain ⟨k, hk, hl⟩ := leading_parameter hp
          exact ⟨k, hk, leading_append hl rest⟩
        | cons c hp hs =>
          obtain ⟨k, hk, hl⟩ := leading_parameter hp
          exact ⟨k, hk, leading_append (leading_append hl _) rest⟩
      obtain ⟨k, hk, hl⟩ := hl
      exact startsWith_eq_false fun he ↦ hk (Option.some.inj (hl.symm.trans he))
    have hc : some Token.Kind.comma ∉ [] := List.not_mem_nil
    have hl : commaList param param_shortens
        (fun p ↦ if p.2 then some .varargsNotLast else none) (part ++ rest) = .ok (l, rest) :=
      commaList_complete (fun hp rest _ ↦ param_complete hp rest) hc h
        (fun p hp ↦ by simp [hv p hp]) (by rw [hr]; decide)
    rw [params, if_neg (by simp [hs])]
    exact bind_eq_ok.2 ⟨(l, rest), hl, rfl⟩

theorem throwsClause_complete {ts : List TypeRef} {part rest : List Word} (h : Throws ts part)
    (hr : leading rest ∉ [some .throws, some .comma, some .dot, some .leftBracket, some .less]) :
    throwsClause (part ++ rest) = .ok (ts, rest) := by
  cases h with
  | none =>
    have hs : startsWith .throws rest = false :=
      startsWith_eq_false fun hk ↦ hr (hk ▸ List.mem_cons_self)
    rw [List.nil_append, throwsClause, if_neg (by simp [hs])]
  | some t h =>
    exact commaList_complete (fun ht _ ↦ typeRef_complete ht) (by decide) h
      (fun _ _ ↦ rfl) fun hk ↦ hr (List.mem_cons_of_mem _ hk)

theorem fromSemicolon_append {depth : Nat} {v : List Word}
    (h : ∀ ws₁ s ws₂, v = ws₁ ++ ⟨.semicolon, s⟩ :: ws₂ → ws₁.foldl nesting depth ≠ 0)
    (rest : List Word) :
    fromSemicolon depth (v ++ rest) = fromSemicolon (v.foldl nesting depth) rest := by
  induction v generalizing depth with
  | nil => rfl
  | cons w v ih =>
    obtain ⟨k, s⟩ := w
    rw [List.cons_append, fromSemicolon_cons, ih, List.foldl_cons]
    · intro ws₁ s' ws₂ he
      exact h (⟨k, s⟩ :: ws₁) s' ws₂ (congrArg (⟨k, s⟩ :: ·) he)
    · rintro rfl
      exact h [] s v rfl

theorem tail_complete {b : Bool} {value : Option (Nat × Nat)} {tail : List Word}
    (h : Tail b value tail) :
    ∃ rest, defaultClause b tail = .ok (value, rest) ∧ body rest = .ok [] := by
  cases h with
  | semicolon s => exact ⟨[⟨.semicolon, s⟩], rfl, rfl⟩
  | body h =>
    obtain ⟨hl, hs⟩ := skipPair_complete (by decide) .rightBrace h []
    rw [List.append_nil] at hl hs
    refine ⟨tail, ?_, ?_⟩
    · rw [defaultClause, if_neg]
      rw [startsWith_eq_false (by rw [hl]; decide)]
      decide
    · rw [body, if_pos (startsWith_eq_true hl)]
      exact hs
  | @default d s ws ha h =>
    have hf : fromSemicolon 0 (ws ++ [⟨.semicolon, s⟩]) = [⟨.semicolon, s⟩] := by
      rw [fromSemicolon_append h.semicolon, h.closed]
      rfl
    refine ⟨[⟨.semicolon, s⟩], ?_, rfl⟩
    rw [defaultClause, if_pos (startsWith_eq_true rfl), if_pos ha]
    dsimp only [List.tail_cons]
    rw [hf, if_neg (by simp [h.ne_nil])]
    simp

theorem leading_tail {b : Bool} {value : Option (Nat × Nat)} {tail : List Word}
    (h : Tail b value tail) :
    leading tail ∈ [some .semicolon, some .leftBrace, some (.modifier .default)] := by
  cases h with
  | semicolon s => simp [leading]
  | body h =>
    obtain ⟨l, r, he, hp⟩ := h
    simp [leading]
  | default d s ha h => simp [leading]

theorem outline_complete {ctx : Context} {o : Outline} {ws : List Word}
    (h : Declaration ctx o ws) : outline ctx ws = .ok o := by
  obtain @⟨l, r, deprecated, ms, result, name, ps, throws, value, items, head, part, ts, tail,
    hi, hm, hh, hp, ht, he⟩ := h
  obtain ⟨start, hresult, hname, hctx⟩ := head_complete hh
    (show leading (⟨.leftParen, l⟩ :: (part ++ ⟨.rightParen, r⟩ :: (ts ++ tail))) = _ from rfl)
  obtain ⟨rest, hd, hb⟩ := tail_complete he
  refine bind_eq_ok.2 ⟨_, header_complete hi hm (by simp [Modifiers.none]) ?_, ?_⟩
  · exact (leading_head hh).imp (leading_append · _) (leading_append · _)
  refine bind_eq_ok.2 ⟨_, hresult, bind_eq_ok.2 ⟨_, hname, ?_⟩⟩
  dsimp only
  rw [if_neg hctx]
  refine bind_eq_ok.2 ⟨_, rfl, bind_eq_ok.2 ⟨_, params_complete hp rfl, ?_⟩⟩
  refine bind_eq_ok.2 ⟨_, rfl, bind_eq_ok.2 ⟨_, throwsClause_complete ht ?_, ?_⟩⟩
  · intro hk
    have htail := leading_tail he
    simp only [List.mem_cons, List.not_mem_nil, or_false] at hk htail
    rcases htail with h | h | h <;> simp [h] at hk
  · refine bind_eq_ok.2 ⟨_, hd, bind_eq_ok.2 ⟨_, hb, ?_⟩⟩
    rw [Bool.false_or]
    rfl

end ClassModel.Grammar
