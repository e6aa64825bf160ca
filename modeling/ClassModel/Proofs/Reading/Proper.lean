import ClassModel.Proofs.Reading.RoundTrip

namespace ClassModel

open Spelling

theorem Token.Kind.ofKeyword?_of_ofName {s : String} (h : ofName s = .identifier) :
    ofKeyword? s = none := by
  unfold ofName ofKeyword? at *
  split
  · next hs => simp [hs] at h
  split
  · next hs => simp [hs] at h
  cases hm : Modifier.ofKeyword? s with
  | none => rfl
  | some m => simp_all

namespace Lexeme

theorem symbol_shape_ne {c : Char} {cs : List Char} :
    (symbol c cs).1.shape ≠ .token .identifier := by
  fun_cases symbol c cs with
  | case5 c cs _ _ _ k hk =>
    rintro ⟨⟩
    unfold Token.Kind.ofPunctuation? at hk
    split at hk <;> cases hk
  | _ =>
    intro h
    cases h

theorem isIdentifier_of_first {c : Char} {cs : List Char}
    (h : (first c cs).1.shape = .token .identifier) :
    IsIdentifier (String.ofList (first c cs).1.text) := by
  revert h
  fun_cases first c cs with
  | case1 | case3 =>
    intro h
    cases h
  | case2 hb hn =>
    intro h
    have hk : Token.Kind.ofName (String.ofList (c :: cs.takeWhile isNameChar)) = .identifier :=
      Shape.token.inj h
    refine ⟨?_, ?_, Token.Kind.ofKeyword?_of_ofName hk⟩
    · simpa [word] using hn
    · simp [word]
  | case4 =>
    intro h
    unfold literal literalShape at h
    split at h
    · cases h
    · split at h <;> cases h
  | case5 => exact fun h ↦ absurd h symbol_shape_ne

/-- An identifier of a text is no reserved word. -/
theorem isIdentifier_of_mem_ofText {cs : List Char} {l : Lexeme} {s : String} (hl : l ∈ ofText cs)
    (hw : l.word? = some ⟨.identifier, s⟩) : IsIdentifier s := by
  have hshape : l.shape = .token .identifier ∧ String.ofList l.text = s := by
    unfold word? kind? at hw
    split at hw <;> simp_all
  obtain ⟨hshape, rfl⟩ := hshape
  fun_induction ofText cs with
  | case1 => cases hl
  | case2 c cs ih =>
    rcases List.mem_cons.1 hl with rfl | hl
    · exact isIdentifier_of_first hshape
    · exact ih hl

end Lexeme

def Method.plain (d : Method) : Method := { d with defaultText := none, isDeprecated := false }

theorem Method.signature_plain (d : Method) : d.plain.signature = d.signature := rfl

def Proper (ws : List Word) : Prop := ∀ s, ⟨.identifier, s⟩ ∈ ws → IsIdentifier s

theorem Scan.proper_words (file : FileId) (cs : List Char) : Proper (ofText file cs).words := by
  intro s hs
  rw [words_ofText_eq] at hs
  obtain ⟨l, hl, hw⟩ := List.mem_filterMap.1 hs
  exact Lexeme.isIdentifier_of_mem_ofText hl hw

variable {ws ws' : List Word} {w : Word}

theorem Proper.left (h : Proper (ws ++ ws')) : Proper ws :=
  fun s hs ↦ h s (List.mem_append_left ws' hs)

theorem Proper.right (h : Proper (ws ++ ws')) : Proper ws' :=
  fun s hs ↦ h s (List.mem_append_right ws hs)

theorem Proper.tail (h : Proper (w :: ws)) : Proper ws :=
  fun s hs ↦ h s (List.mem_cons_of_mem w hs)

theorem Proper.head {s : String} (h : Proper (⟨.identifier, s⟩ :: ws)) : IsIdentifier s :=
  h s List.mem_cons_self

namespace Spelling

theorem Name.isQualified {s : String} (h : Name s ws) (hp : Proper ws) : IsQualified s := by
  induction h with
  | single s => exact ⟨s, [], by simpa using hp.head, (String.intercalate_singleton).symm⟩
  | @dotted s d t ws h ih =>
    obtain ⟨u, us, hall, rfl⟩ := ih hp.tail.tail
    refine ⟨s, u :: us, fun v hv ↦ ?_, (String.intercalate_cons_cons).symm⟩
    rcases List.mem_cons.1 hv with rfl | hv
    · exact hp.head
    · exact hall v hv

theorem TypeName.isQualified {t : TypeRef} (h : TypeName t ws) (hp : Proper ws) :
    IsQualified t.name := by
  cases h with
  | mk hs hn => exact hs.isQualified hp.left

theorem Head.proper {ctx : Context} {result : Option TypeRef} {s : String}
    (h : Head ctx result s ws) (hp : Proper ws) :
    IsIdentifier s ∧ (∀ t ∈ result, IsQualified t.name ∨ t = ⟨"void", 0⟩) ∧
      (result.isNone = true → ctx.className = some s) := by
  cases h with
  | constructor h => exact ⟨hp.head, nofun, fun _ ↦ h⟩
  | void v s =>
    refine ⟨hp.tail.head, fun t ht ↦ .inr ?_, nofun⟩
    exact (Option.some.inj ht).symm
  | typed s ht =>
    refine ⟨hp.right.head, fun t' ht' ↦ .inl ?_, nofun⟩
    obtain rfl := Option.some.inj ht'
    exact ht.isQualified hp.left

theorem Parameter.proper {p : Param × Bool} (h : Parameter p ws) (hp : Proper ws) :
    IsIdentifier p.1.name ∧ IsQualified p.1.type.name ∧ (p.2 = true → 0 < p.1.type.dims) := by
  cases h with
  | single s ha hf ht =>
    have hp := hp.right.right
    exact ⟨hp.right.head, ht.isQualified hp.left, nofun⟩
  | varargs e s ha hf ht =>
    have hp := hp.right.right
    exact ⟨hp.right.tail.head, ht.isQualified hp.left, fun _ ↦ Nat.succ_pos _⟩

theorem Separated.forall_mem {α : Type} {item : α → List Word → Prop} {p : α → Prop} {as : List α}
    (h : Separated item as ws) (hp : Proper ws)
    (hitem : ∀ a ws, item a ws → Proper ws → p a) : ∀ a ∈ as, p a := by
  induction h with
  | last h =>
    intro a ha
    obtain rfl := List.mem_singleton.1 ha
    exact hitem a _ h hp
  | cons c h hs ih =>
    intro a ha
    rcases List.mem_cons.1 ha with rfl | ha
    · exact hitem a _ h hp.left
    · exact ih hp.right.tail a ha

theorem Parameters.proper {ps : List (Param × Bool)} (h : Parameters ps ws) (hp : Proper ws) :
    (∀ p ∈ ps.map Prod.fst, IsIdentifier p.name ∧ IsQualified p.type.name) ∧
      (ps.any Prod.snd = true → ∃ p ∈ (ps.map Prod.fst).getLast?, 0 < p.type.dims) := by
  cases h with
  | none => exact ⟨nofun, nofun⟩
  | some hs hv =>
    have hall := hs.forall_mem hp fun _ _ ↦ Parameter.proper
    refine ⟨fun p hmem ↦ ?_, fun hany ↦ ?_⟩
    · obtain ⟨q, hq, rfl⟩ := List.mem_map.1 hmem
      exact ⟨(hall q hq).1, (hall q hq).2.1⟩
    · obtain ⟨q, hq, hvar⟩ := List.any_eq_true.1 hany
      rcases List.eq_nil_or_concat ps with rfl | ⟨front, last, rfl⟩
      · cases hq
      rw [List.concat_eq_append] at hq hv hall ⊢
      rw [List.dropLast_concat] at hv
      rcases List.mem_append.1 hq with hq | hq
      · rw [hv q hq] at hvar
        cases hvar
      · obtain rfl := List.mem_singleton.1 hq
        refine ⟨q.1, by simp, ?_⟩
        exact (hall q (List.mem_append_right front hq)).2.2 hvar

theorem Throws.isQualified {ts : List TypeRef} (h : Throws ts ws) (hp : Proper ws) :
    ∀ t ∈ ts, IsQualified t.name := by
  cases h with
  | none => nofun
  | some t h => exact h.forall_mem hp.tail fun _ _ ↦ TypeName.isQualified

theorem Declaration.renderable {ctx : Context} {o : Outline} (h : Declaration ctx o ws)
    (hp : Proper ws) (s : Scan) :
    (s.method o).plain.Renderable ∧
      ((s.method o).isConstructor = true → ctx.className = some o.name) := by
  cases h with
  | @mk l r deprecated modifiers result name params throws value items head ps ts tail
      hi hm hh hps ht he =>
    have hp := hp.right
    obtain ⟨hname, hresult, hclass⟩ := hh.proper hp.left
    have hp := hp.right.tail
    obtain ⟨hparams, hvarargs⟩ := hps.proper hp.left
    exact ⟨⟨hname, hparams, ht.isQualified hp.right.tail.left, hresult, rfl, hvarargs, rfl, rfl⟩,
      hclass⟩

end Spelling

end ClassModel
