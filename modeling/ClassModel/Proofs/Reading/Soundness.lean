import ClassModel.Proofs.Reading.Spelling

namespace ClassModel.Grammar

open Spelling

theorem eq_cons_of_startsWith {k : Token.Kind} {ws : List Word} (h : startsWith k ws = true) :
    ∃ s, ws = ⟨k, s⟩ :: ws.tail := by
  cases ws with
  | nil => cases h
  | cons w ws =>
    obtain ⟨k', s⟩ := w
    have hk : k' = k := eq_of_beq h
    exact ⟨s, by rw [hk]; rfl⟩

theorem skip_sound {k : Token.Kind} {w : Wanted} {ws rest : List Word}
    (h : skip k w ws = .ok rest) : ∃ s, ws = ⟨k, s⟩ :: rest := by
  unfold skip at h
  split at h
  · next hk =>
    obtain ⟨s, hs⟩ := eq_cons_of_startsWith hk
    exact ⟨s, by rw [← Except.ok.inj h]; exact hs⟩
  · cases h

theorem identifier_sound {s : String} {ws rest : List Word} (h : identifier ws = .ok (s, rest)) :
    ws = ⟨.identifier, s⟩ :: rest := by
  unfold identifier at h
  split at h
  · obtain ⟨rfl, rfl⟩ := Prod.mk.inj (Except.ok.inj h)
    rfl
  · cases h

theorem dotted_sound {s t : String} {ws rest : List Word} (h : dotted ws = (t, rest)) :
    ∃ name, Name (s ++ t) name ∧ ⟨.identifier, s⟩ :: ws = name ++ rest := by
  fun_induction dotted ws generalizing s t rest with
  | case1 d s' ws t' rest' hd ih =>
    obtain ⟨rfl, rfl⟩ := Prod.mk.inj h
    obtain ⟨name, hn, he⟩ := ih (s := s') hd
    refine ⟨⟨.identifier, s⟩ :: ⟨.dot, d⟩ :: name, ?_, by rw [he]; rfl⟩
    have hs : s ++ ("." ++ s' ++ t') = s ++ "." ++ (s' ++ t') := by
      simp only [String.append_assoc]
    rw [hs]
    exact .dotted s d hn
  | case2 ws =>
    obtain ⟨rfl, rfl⟩ := Prod.mk.inj h
    exact ⟨[⟨.identifier, s⟩], by simpa using Name.single s, rfl⟩

theorem qualifiedName_sound {s : String} {ws rest : List Word}
    (h : qualifiedName ws = .ok (s, rest)) : ∃ name, Name s name ∧ ws = name ++ rest := by
  obtain ⟨⟨s₁, ws₁⟩, h₁, h⟩ := bind_eq_ok.1 h
  obtain ⟨rfl, rfl⟩ := Prod.mk.inj (Except.ok.inj h)
  rw [identifier_sound h₁]
  exact dotted_sound rfl

theorem dims_sound {n : Nat} {ws rest : List Word} (h : dims ws = .ok (n, rest)) :
    ∃ ds, Dims n ds ∧ ws = ds ++ rest := by
  fun_induction dims ws generalizing n rest with
  | case1 l r ws ih =>
    obtain ⟨⟨n', rest'⟩, h', h⟩ := bind_eq_ok.1 h
    obtain ⟨rfl, rfl⟩ := Prod.mk.inj (Except.ok.inj h)
    obtain ⟨ds, hd, rfl⟩ := ih h'
    exact ⟨_, .pair l r hd, rfl⟩
  | case2 => cases h
  | case3 ws =>
    obtain ⟨rfl, rfl⟩ := Prod.mk.inj (Except.ok.inj h)
    exact ⟨[], .none, rfl⟩

theorem typeRef_sound {t : TypeRef} {ws rest : List Word} (h : typeRef ws = .ok (t, rest)) :
    ∃ ts, TypeName t ts ∧ ws = ts ++ rest := by
  unfold typeRef at h
  split at h
  · cases h
  · obtain ⟨⟨s, ws₁⟩, hs, h₁⟩ := bind_eq_ok.1 h
    obtain ⟨name, hn, rfl⟩ := qualifiedName_sound hs
    dsimp only at h₁
    split at h₁
    · cases h₁
    · obtain ⟨⟨n, ws₂⟩, hd, h₂⟩ := bind_eq_ok.1 h₁
      obtain ⟨rfl, rfl⟩ := Prod.mk.inj (Except.ok.inj h₂)
      obtain ⟨ds, hds, rfl⟩ := dims_sound hd
      exact ⟨name ++ ds, .mk hn hds, (List.append_assoc ..).symm⟩

theorem number_cons_self {k : Token.Kind} {w : Word} (h : w.kind = k) (ws : List Word) :
    number k (w :: ws) = number k ws + 1 :=
  List.countP_cons_of_pos (beq_iff_eq.2 h)

theorem number_cons_of_ne {k : Token.Kind} {w : Word} (h : w.kind ≠ k) (ws : List Word) :
    number k (w :: ws) = number k ws :=
  List.countP_cons_of_neg (by simpa using h)

theorem forall_prefix_cons {p : List Word → Prop} {w : Word} {ws : List Word} :
    (∀ ws', ws' <+: w :: ws → p ws') ↔ p [] ∧ ∀ ws', ws' <+: ws → p (w :: ws') := by
  constructor
  · intro h
    exact ⟨h [] List.nil_prefix, fun ws' hpre ↦ h _ ((List.prefix_cons_inj w).2 hpre)⟩
  · rintro ⟨hnil, hcons⟩ ws' hpre
    rcases List.prefix_cons_iff.1 hpre with rfl | ⟨ws'', rfl, hpre'⟩
    · exact hnil
    · exact hcons ws'' hpre'

/-- Where `depth + 1` pairs are open, their closing words are counted against the opening ones. -/
theorem behind_sound {opening closing : Token.Kind} {depth : Nat} {ws rest : List Word}
    (hne : opening ≠ closing) (h : behind opening closing depth ws = some rest) :
    ∃ inner r, ws = inner ++ ⟨closing, r⟩ :: rest ∧
      number closing inner = number opening inner + depth ∧
      ∀ ws', ws' <+: inner → number closing ws' ≤ number opening ws' + depth := by
  fun_induction behind opening closing depth ws with
  | case1 => cases h
  | case2 depth w ws ho ih =>
    obtain ⟨inner, r, rfl, he, hp⟩ := ih h
    have hc : w.kind ≠ closing := fun hc ↦ hne (ho.symm.trans hc)
    refine ⟨w :: inner, r, rfl, ?_, forall_prefix_cons.2 ⟨Nat.zero_le _, fun ws' hpre ↦ ?_⟩⟩
    · rw [number_cons_self ho, number_cons_of_ne hc]
      omega
    · have hle := hp ws' hpre
      rw [number_cons_self ho, number_cons_of_ne hc]
      omega
  | case3 w ws ho hc =>
    obtain rfl := Option.some.inj h
    obtain ⟨k, r⟩ := w
    obtain rfl : k = closing := hc
    refine ⟨[], r, rfl, rfl, fun ws' hpre ↦ ?_⟩
    rw [List.prefix_nil.1 hpre]
    exact Nat.le_refl _
  | case4 w ws ho hc depth ih =>
    obtain ⟨inner, r, rfl, he, hp⟩ := ih h
    refine ⟨w :: inner, r, rfl, ?_, forall_prefix_cons.2 ⟨Nat.zero_le _, fun ws' hpre ↦ ?_⟩⟩
    · rw [number_cons_of_ne ho, number_cons_self hc]
      omega
    · have hle := hp ws' hpre
      rw [number_cons_of_ne ho, number_cons_self hc]
      omega
  | case5 depth w ws ho hc ih =>
    obtain ⟨inner, r, rfl, he, hp⟩ := ih h
    refine ⟨w :: inner, r, rfl, ?_, forall_prefix_cons.2 ⟨Nat.zero_le _, fun ws' hpre ↦ ?_⟩⟩
    · rw [number_cons_of_ne ho, number_cons_of_ne hc]
      exact he
    · rw [number_cons_of_ne ho, number_cons_of_ne hc]
      exact hp ws' hpre

theorem skipPair_sound {opening closing : Token.Kind} {w : Wanted} {l : String}
    {ws rest : List Word} (hne : opening ≠ closing)
    (h : skipPair opening closing w ws = .ok rest) :
    ∃ pair, Pair opening closing pair ∧ ⟨opening, l⟩ :: ws = pair ++ rest := by
  unfold skipPair at h
  split at h
  · next hb =>
    obtain rfl := Except.ok.inj h
    obtain ⟨inner, r, rfl, he, hp⟩ := behind_sound hne hb
    exact ⟨_, .mk l r he hp, by simp⟩
  · cases h

theorem annotationName_sound {s a : String} {ws rest : List Word}
    (h : annotationName ws = .ok (s, rest)) :
    ∃ as, Annotation s as ∧ ⟨.atSign, a⟩ :: ws = as ++ rest := by
  obtain ⟨⟨s₁, ws₁⟩, h₁, h₂⟩ := bind_eq_ok.1 h
  obtain ⟨name, hn, rfl⟩ := qualifiedName_sound h₁
  dsimp only at h₂
  split at h₂
  · next hl =>
    obtain ⟨ws₂, h₃, h₄⟩ := bind_eq_ok.1 h₂
    obtain ⟨rfl, rfl⟩ := Prod.mk.inj (Except.ok.inj h₄)
    obtain ⟨l, hl⟩ := eq_cons_of_startsWith hl
    obtain ⟨args, ha, he⟩ := skipPair_sound (l := l) (by decide) h₃
    exact ⟨_, .applied a hn ha, by rw [hl, he]; simp⟩
  · obtain ⟨rfl, rfl⟩ := Prod.mk.inj (Except.ok.inj h₂)
    exact ⟨_, .plain a hn, rfl⟩

theorem header_sound {deprecated d : Bool} {ms ms' : Modifiers} {ws rest : List Word}
    (h : header deprecated ms ws = .ok (d, ms', rest)) :
    ∃ d' l items, Items d' l items ∧ ws = items ++ rest ∧ d = (deprecated || d') ∧
      ms' = l.foldl .insert ms ∧ l.Nodup ∧ ∀ m ∈ l, ms.has m = false := by
  fun_induction header deprecated ms ws with
  | case1 deprecated ms a rest₁ e he =>
    cases h
  | case2 deprecated ms a rest₁ s rest₂ hs ih =>
    obtain ⟨d', l, items, hi, rfl, rfl, rfl, hl, hm⟩ := ih h
    obtain ⟨as, ha, he⟩ := annotationName_sound (a := a) hs
    exact ⟨_, l, _, .annotated ha hi, by rw [he, List.append_assoc], by rw [Bool.or_assoc], rfl,
      hl, hm⟩
  | case3 => cases h
  | case4 deprecated ms m t rest₁ hm ih =>
    obtain ⟨d', l, items, hi, rfl, rfl, rfl, hl, hml⟩ := ih h
    refine ⟨d', m :: l, _, .modifier m t hi, rfl, rfl, rfl, ?_, ?_⟩
    · refine List.nodup_cons.2 ⟨fun hmem ↦ ?_, hl⟩
      have hmm := hml m hmem
      simp [Modifiers.insert] at hmm
    · intro k hk
      rcases List.mem_cons.1 hk with rfl | hk
      · simpa using hm
      · have hkm := hml k hk
        simp only [Modifiers.insert, Bool.or_eq_false_iff] at hkm
        exact hkm.2
  | case5 deprecated ms ws =>
    obtain ⟨rfl, rfl, rfl⟩ : deprecated = d ∧ ms = ms' ∧ ws = rest := by simpa using h
    exact ⟨false, [], [], .none, rfl, by simp, rfl, .nil, by simp⟩

theorem head_sound {ctx : Context} {result : Option TypeRef} {name : String}
    {ws ws₁ rest : List Word} (hr : resultType ws = .ok (result, ws₁))
    (hn : identifier ws₁ = .ok (name, rest))
    (hc : ¬(result.isNone ∧ ctx.className ≠ some name)) :
    ∃ head, Head ctx result name head ∧ ws = head ++ rest := by
  have hws₁ := identifier_sound hn
  unfold resultType at hr
  split at hr
  · obtain ⟨rfl, rfl⟩ := Prod.mk.inj (Except.ok.inj hr)
    simp only [Option.isNone_none, true_and, Classical.not_not] at hc
    exact ⟨_, .constructor hc, by rw [hws₁]; rfl⟩
  · obtain ⟨⟨t, ws₂⟩, ht, hr⟩ := bind_eq_ok.1 hr
    obtain ⟨rfl, rfl⟩ := Prod.mk.inj (Except.ok.inj hr)
    unfold typeOrVoid at ht
    split at ht
    · next hv =>
      obtain ⟨v, hv⟩ := eq_cons_of_startsWith hv
      split at ht
      · cases ht
      · obtain ⟨rfl, rfl⟩ := Prod.mk.inj (Except.ok.inj ht)
        exact ⟨_, .void v name, by rw [hv, hws₁]; rfl⟩
    · obtain ⟨ts, htn, rfl⟩ := typeRef_sound ht
      exact ⟨_, .typed name htn, by rw [hws₁]; simp⟩

theorem annotations_sound {ws rest : List Word} (h : annotations ws = .ok rest) :
    ∃ as, Annotations as ∧ ws = as ++ rest := by
  fun_induction annotations ws with
  | case1 a rest₁ e he => cases h
  | case2 a rest₁ s rest₂ hs ih =>
    obtain ⟨as, has, rfl⟩ := ih h
    obtain ⟨as', ha, he⟩ := annotationName_sound (a := a) hs
    exact ⟨_, .cons ha has, by rw [he, List.append_assoc]⟩
  | case3 ws =>
    obtain rfl := Except.ok.inj h
    exact ⟨[], .none, rfl⟩

theorem perhaps_sound (k : Token.Kind) (ws : List Word) :
    ∃ f, Perhaps k f ∧ ws = f ++ (if startsWith k ws then ws.tail else ws) := by
  split
  · next hk =>
    obtain ⟨s, hs⟩ := eq_cons_of_startsWith hk
    exact ⟨_, .present s, hs⟩
  · exact ⟨[], .absent, rfl⟩

theorem param_sound {p : Param × Bool} {ws rest : List Word} (h : param ws = .ok (p, rest)) :
    ∃ ps, Parameter p ps ∧ ws = ps ++ rest := by
  obtain ⟨ws₁, h₁, h'⟩ := bind_eq_ok.1 h
  obtain ⟨⟨t, ws₂⟩, h₂, h₃⟩ := bind_eq_ok.1 h'
  obtain ⟨as, ha, rfl⟩ := annotations_sound h₁
  obtain ⟨f, hf, he⟩ := perhaps_sound (.modifier .final) ws₁
  obtain ⟨ts, ht, hts⟩ := typeRef_sound h₂
  rw [he, hts]
  dsimp only at h₃
  split at h₃
  · next hv =>
    obtain ⟨e, hv⟩ := eq_cons_of_startsWith hv
    obtain ⟨⟨s, ws₃⟩, hs, h₄⟩ := bind_eq_ok.1 h₃
    obtain ⟨rfl, rfl⟩ := Prod.mk.inj (Except.ok.inj h₄)
    have hws := identifier_sound hs
    exact ⟨_, .varargs e s ha hf ht, by rw [hv, hws]; simp⟩
  · obtain ⟨⟨s, ws₃⟩, hs, h₄⟩ := bind_eq_ok.1 h₃
    obtain ⟨rfl, rfl⟩ := Prod.mk.inj (Except.ok.inj h₄)
    have hws := identifier_sound hs
    exact ⟨_, .single s ha hf ht, by rw [hws]; simp⟩

theorem commaList_sound {α : Type} {item : List Word → Except Stop (α × List Word)}
    {shortens : ∀ {ws a rest}, item ws = .ok (a, rest) → rest.length < ws.length}
    {final : α → Option Complaint} {spells : α → List Word → Prop}
    (hitem : ∀ {ws a rest}, item ws = .ok (a, rest) → ∃ part, spells a part ∧ ws = part ++ rest)
    {ws rest : List Word} {as : List α} (h : commaList item shortens final ws = .ok (as, rest)) :
    ∃ part, Separated spells as part ∧ ws = part ++ rest ∧ ∀ a ∈ as.dropLast, final a = none := by
  fun_induction commaList item shortens final ws generalizing as rest with
  | case1 => cases h
  | case2 => cases h
  | case3 ws a c rest₁ ha hf ih =>
    obtain ⟨⟨as', rest'⟩, h', h⟩ := bind_eq_ok.1 h
    obtain ⟨rfl, rfl⟩ := Prod.mk.inj (Except.ok.inj h)
    obtain ⟨part, hp, rfl, hl⟩ := ih h'
    obtain ⟨part', hp', rfl⟩ := hitem ha
    refine ⟨_, .cons c hp' hp, by simp, fun b hb ↦ ?_⟩
    cases as' with
    | nil => cases hp
    | cons b' bs =>
      rcases List.mem_cons.1 hb with rfl | hb
      · exact hf
      · exact hl b hb
  | case4 ws a rest₁ hne ha =>
    obtain ⟨rfl, rfl⟩ := Prod.mk.inj (Except.ok.inj h)
    obtain ⟨part, hp, rfl⟩ := hitem ha
    exact ⟨part, .last hp, rfl, by simp⟩

theorem params_sound {ps : List Param} {varargs : Bool} {ws rest : List Word}
    (h : params ws = .ok ((ps, varargs), rest)) :
    ∃ l part, Parameters l part ∧ ws = part ++ rest ∧ ps = l.map Prod.fst ∧
      varargs = l.any Prod.snd := by
  unfold params at h
  split at h
  · obtain ⟨hp, rfl⟩ := Prod.mk.inj (Except.ok.inj h)
    obtain ⟨rfl, rfl⟩ := Prod.mk.inj hp
    exact ⟨[], [], .none, rfl, rfl, rfl⟩
  · obtain ⟨⟨l, ws₁⟩, hl, h⟩ := bind_eq_ok.1 h
    obtain ⟨hp, rfl⟩ := Prod.mk.inj (Except.ok.inj h)
    obtain ⟨rfl, rfl⟩ := Prod.mk.inj hp
    obtain ⟨part, hpart, rfl, hv⟩ := commaList_sound param_sound hl
    refine ⟨l, part, .some hpart fun p hp ↦ ?_, rfl, rfl, rfl⟩
    have hf := hv p hp
    simpa using hf

theorem throwsClause_sound {ts : List TypeRef} {ws rest : List Word}
    (h : throwsClause ws = .ok (ts, rest)) : ∃ part, Throws ts part ∧ ws = part ++ rest := by
  unfold throwsClause at h
  split at h
  · next ht =>
    obtain ⟨t, ht⟩ := eq_cons_of_startsWith ht
    obtain ⟨part, hp, he, -⟩ := commaList_sound typeRef_sound h
    exact ⟨_, .some t hp, by rw [ht, he]; rfl⟩
  · obtain ⟨rfl, rfl⟩ := Prod.mk.inj (Except.ok.inj h)
    exact ⟨[], .none, rfl⟩

theorem fromSemicolon_cons {depth : Nat} {w : Word} (h : w.kind = .semicolon → depth ≠ 0)
    (ws : List Word) : fromSemicolon depth (w :: ws) = fromSemicolon (nesting depth w) ws := by
  obtain ⟨k, s⟩ := w
  cases k <;> first | rfl | exact if_neg (h rfl)

/-- What is passed over holds no semicolon outside of brackets, and what is left begins with one
unless it is nothing. -/
theorem fromSemicolon_sound (depth : Nat) (ws : List Word) :
    ∃ v, ws = v ++ fromSemicolon depth ws ∧
      (∀ ws₁ s ws₂, v = ws₁ ++ ⟨.semicolon, s⟩ :: ws₂ → ws₁.foldl nesting depth ≠ 0) ∧
      (fromSemicolon depth ws = [] ∨
        ∃ s rest, fromSemicolon depth ws = ⟨.semicolon, s⟩ :: rest ∧
          v.foldl nesting depth = 0) := by
  induction ws generalizing depth with
  | nil => exact ⟨[], rfl, by simp, .inl rfl⟩
  | cons w ws ih =>
    by_cases hstop : w.kind = .semicolon ∧ depth = 0
    · obtain ⟨k, s⟩ := w
      obtain ⟨rfl, rfl⟩ : k = .semicolon ∧ depth = 0 := hstop
      exact ⟨[], rfl, by simp, .inr ⟨s, ws, rfl, rfl⟩⟩
    · rw [fromSemicolon_cons (fun hw hd ↦ hstop ⟨hw, hd⟩)]
      obtain ⟨v, hv, hs, hend⟩ := ih (nesting depth w)
      refine ⟨w :: v, congrArg (w :: ·) hv, fun ws₁ s ws₂ he ↦ ?_, hend⟩
      rcases List.cons_eq_append_iff.1 he with ⟨rfl, he'⟩ | ⟨ws₃, rfl, he'⟩
      · obtain ⟨rfl, rfl⟩ := List.cons.inj he'
        exact fun hd ↦ hstop ⟨rfl, hd⟩
      · exact hs ws₃ s ws₂ he'

theorem body_sound {ws : List Word} (h : body ws = .ok []) :
    (∃ s, ws = [⟨.semicolon, s⟩]) ∨ Pair .leftBrace .rightBrace ws := by
  unfold body at h
  split at h
  · next hl =>
    obtain ⟨l, hl⟩ := eq_cons_of_startsWith hl
    obtain ⟨pair, hp, he⟩ := skipPair_sound (l := l) (by decide) h
    rw [hl, he, List.append_nil]
    exact .inr hp
  · exact .inl (skip_sound h)

theorem tail_sound {b : Bool} {value : Option (Nat × Nat)} {ws rest : List Word}
    (hd : defaultClause b ws = .ok (value, rest)) (hb : body rest = .ok []) :
    Tail b value ws := by
  unfold defaultClause at hd
  split at hd
  · next hk =>
    obtain ⟨d, hk⟩ := eq_cons_of_startsWith hk
    split at hd
    · next ht =>
      dsimp only at hd
      split at hd
      · cases hd
      · next hne =>
        obtain ⟨rfl, rfl⟩ := Prod.mk.inj (Except.ok.inj hd)
        obtain ⟨v, hv, hs, hend⟩ := fromSemicolon_sound 0 ws.tail
        rcases hend with hnil | ⟨s, r, hr, hz⟩
        · rw [hnil] at hb
          cases hb
        · rw [hr] at hb hv
          obtain rfl : r = [] := Except.ok.inj hb
          have hvne : v ≠ [] := by
            rintro rfl
            exact hne (by rw [hr, hv]; rfl)
          have hlen : ws.tail.length = v.length + 1 := by rw [hv]; simp
          rw [hlen, hr, hk, hv]
          exact .default d s ht ⟨hvne, hz, hs⟩
    · cases hd
  · obtain ⟨rfl, rfl⟩ := Prod.mk.inj (Except.ok.inj hd)
    rcases body_sound hb with ⟨s, rfl⟩ | hp
    · exact .semicolon s
    · exact .body hp

theorem outline_sound {ctx : Context} {o : Outline} {ws : List Word}
    (h : outline ctx ws = .ok o) : Declaration ctx o ws := by
  obtain ⟨⟨deprecated, ms, ws₁⟩, h₁, h⟩ := bind_eq_ok.1 h
  obtain ⟨⟨result, ws₂⟩, h₂, h⟩ := bind_eq_ok.1 h
  obtain ⟨⟨name, ws₃⟩, h₃, h⟩ := bind_eq_ok.1 h
  dsimp only at h
  split at h
  · cases h
  · next hc =>
    obtain ⟨ws₄, h₄, h⟩ := bind_eq_ok.1 h
    obtain ⟨⟨⟨ps, varargs⟩, ws₅⟩, h₅, h⟩ := bind_eq_ok.1 h
    obtain ⟨ws₆, h₆, h⟩ := bind_eq_ok.1 h
    obtain ⟨⟨throws, ws₇⟩, h₇, h⟩ := bind_eq_ok.1 h
    obtain ⟨⟨value, ws₈⟩, h₈, h⟩ := bind_eq_ok.1 h
    obtain ⟨ws₉, h₉, h⟩ := bind_eq_ok.1 h
    dsimp only at h
    split at h
    · next hnil =>
      obtain rfl := Except.ok.inj h
      obtain ⟨d, l, items, hi, rfl, rfl, rfl, hl, -⟩ := header_sound h₁
      obtain ⟨head, hh, rfl⟩ := head_sound h₂ h₃ hc
      obtain ⟨lp, rfl⟩ := skip_sound h₄
      obtain ⟨params, part, hp, rfl, rfl, rfl⟩ := params_sound h₅
      obtain ⟨rp, rfl⟩ := skip_sound h₆
      obtain ⟨ts, ht, rfl⟩ := throwsClause_sound h₇
      rw [List.isEmpty_iff.1 hnil] at h₉
      have htail := tail_sound h₈ h₉
      exact .mk lp rp hi hl hh hp ht htail
    · cases h

end ClassModel.Grammar
