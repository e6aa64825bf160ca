import ClassModel.Proofs.Checked.Tracking
import ClassModel.Proofs.Reading.Completeness

namespace ClassModel

namespace Checked

open Grammar

variable {i : Input} {s : Scan} {ws : List Word} {w : Word} {p n turns : Nat}

theorem count_eq {bound n : Nat} (hn : n < bound) : count bound n = .ok n := if_pos hn

theorem eq_cons_of_headKind {k : Token.Kind} (hk : k ≠ .eof) (h : headKind ws = k) :
    ∃ t, ws = ⟨k, t⟩ :: ws.tail :=
  eq_cons_of_startsWith ((startsWith_iff hk).2 h)

theorem not_startsWith {k : Token.Kind} (h : ∀ t rest, ws ≠ ⟨k, t⟩ :: rest) :
    ¬startsWith k ws = true := fun hs ↦ by
  obtain ⟨t, ht⟩ := eq_cons_of_startsWith hs
  exact h t ws.tail ht

theorem headKind_ne {k : Token.Kind} (hk : k ≠ .eof) (h : ∀ t rest, ws ≠ ⟨k, t⟩ :: rest) :
    headKind ws ≠ k :=
  mt (startsWith_iff hk).2 (not_startsWith h)

theorem length_of_skip {k : Token.Kind} {v : Wanted} {rest : List Word}
    (h : skip k v ws = .ok rest) : ws.length = rest.length + 1 := by
  obtain ⟨t, rfl⟩ := skip_sound h
  rfl

theorem dims_eq (ws : List Word) :
    dims ws =
      if startsWith .leftBracket ws then do
        let ws ← skip .rightBracket .rightBracket ws.tail
        let (n, ws) ← dims ws
        .ok (n + 1, ws)
      else .ok (0, ws) := by
  fun_cases dims ws with
  | case1 left right ws => rfl
  | case2 left ws hright =>
    rw [if_pos (by rfl), skip, List.tail_cons, if_neg (not_startsWith hright)]
    rfl
  | case3 _ hpair hleft => rw [if_neg (not_startsWith hleft)]

theorem commaList_eq {α : Type} {item : List Word → Except Stop (α × List Word)}
    (shortens : ∀ {ws a rest}, item ws = .ok (a, rest) → rest.length < ws.length)
    (final : α → Option Complaint) (ws : List Word) :
    commaList item shortens final ws = (do
      let (a, ws) ← item ws
      if startsWith .comma ws then
        match final a with
        | some why => .error (.complaint why ws)
        | none => do
          let (bs, ws) ← commaList item shortens final ws.tail
          .ok (a :: bs, ws)
      else .ok ([a], ws)) := by
  fun_cases commaList item shortens final ws with
  | case1 e he => simp [he, bind, Except.bind]
  | case2 a comma rest ha why hf => simp [ha, hf, startsWith, bind, Except.bind]
  | case3 a comma rest ha hf => simp [ha, hf, startsWith, bind, Except.bind]
  | case4 a rest hcomma ha => simp [ha, not_startsWith hcomma, bind, Except.bind]

theorem add_length_dims_le {rest : List Word} (h : dims ws = .ok (n, rest)) :
    n + rest.length ≤ ws.length := by
  fun_induction dims ws generalizing n rest with
  | case1 left right ws ih =>
    obtain ⟨⟨m, rest'⟩, hd, h⟩ := bind_eq_ok.1 h
    obtain ⟨rfl, rfl⟩ := Prod.mk.inj (Except.ok.inj h)
    have hrest := ih hd
    simp only [List.length_cons]
    omega
  | case2 => cases h
  | case3 ws =>
    obtain ⟨rfl, rfl⟩ := Prod.mk.inj (Except.ok.inj h)
    omega

theorem dims_add_length_lt {t : TypeRef} {rest : List Word} (h : typeRef ws = .ok (t, rest)) :
    t.dims + rest.length < ws.length := by
  rw [typeRef] at h
  split at h
  · cases h
  · obtain ⟨⟨name, ws'⟩, hname, h⟩ := bind_eq_ok.1 h
    have hws := qualifiedName_shortens hname
    replace h : (if startsWith .less ws' then _ else _) = _ := h
    split at h
    · cases h
    · obtain ⟨⟨n, rest'⟩, hd, h⟩ := bind_eq_ok.1 h
      obtain ⟨rfl, rfl⟩ := Prod.mk.inj (Except.ok.inj h)
      exact Nat.lt_of_le_of_lt (add_length_dims_le hd) hws

namespace Backs

variable (h : Backs i s)

include h

/-- The first two words, by the kind of the token at a position and of the one behind it. -/
theorem eq_cons_cons {k k' : Token.Kind} (hp : At s ws p) (hk : k ≠ .eof) (hk' : k' ≠ .eof)
    (hkinds : headKind ws = k ∧ i.kindBehind p = k') :
    ∃ t t' rest, ws = ⟨k, t⟩ :: ⟨k', t'⟩ :: rest := by
  obtain ⟨t, ht⟩ := eq_cons_of_headKind hk hkinds.1
  have hbehind := hkinds.2
  rw [ht] at hp
  rw [h.kindBehind_eq hp] at hbehind
  obtain ⟨t', ht'⟩ := eq_cons_of_headKind hk' hbehind
  exact ⟨t, t', ws.tail.tail, ht' ▸ ht⟩

theorem dotted_tracks (hp : At s ws p) (ht : ws.length < turns) (name : String) :
    Tracks s (Same s) (.ok (name ++ (dotted ws).1, (dotted ws).2)) (i.dotted turns name p) := by
  induction turns generalizing ws p name with
  | zero => omega
  | succ turns ih =>
    refine .access (h.kindAt_eq hp) ?_
    fun_cases dotted ws with
    | case1 dot next ws t rest hrest =>
      have hq := hp.tail
      rw [if_pos ⟨rfl, h.kindBehind_eq hp⟩]
      refine .access (h.advance_eq hp) (.access (h.textAt_eq hq) (.access (h.advance_eq hq) ?_))
      have hnext := ih hq.tail (by simp at ht; omega) (name ++ "." ++ next)
      simpa [hrest, String.append_assoc] using hnext
    | case2 _ hother =>
      have hkinds : ¬(headKind ws = .dot ∧ i.kindBehind p = .identifier) := fun hk ↦ by
        obtain ⟨dot, next, rest, rfl⟩ := h.eq_cons_cons hp (by decide) (by decide) hk
        exact hother dot next rest rfl
      rw [if_neg hkinds, String.append_empty]
      exact .ok ⟨rfl, hp⟩

theorem qualifiedName_tracks (hp : At s ws p) :
    Tracks s (Same s) (qualifiedName ws) (i.qualifiedName p) := by
  refine (h.identifier_tracks hp).bind ?_
  rintro ⟨name, rest⟩ ⟨_, q⟩ - ⟨rfl, hq⟩
  exact h.dotted_tracks hq (h.length_lt_turns hq) name

/-- The dimensions passed so far are no more than the tokens passed so far. -/
theorem dims_tracks (hp : At s ws p) (hn : n ≤ p) (ht : ws.length < turns) :
    Tracks s (fun a b ↦ n + a.1 = b.1 ∧ At s a.2 b.2) (dims ws) (i.dims turns n p) := by
  induction turns generalizing ws p n with
  | zero => omega
  | succ turns ih =>
    rw [dims_eq]
    refine h.eat_tracks hp (by decide) (fun _ hq ↦ ?_) fun _ ↦ .ok ⟨rfl, hp⟩
    refine (h.expect_tracks .rightBracket hq (by decide)).bind fun rest q hrest hq' ↦ ?_
    have hrest := length_of_skip hrest
    have hlen := hq.length_eq
    have hlen' := hq'.length_eq
    rw [List.length_tail] at *
    refine .access (count_eq (Nat.lt_of_le_of_lt (by omega) (h.lt_size hq'))) ?_
    refine (ih hq' (by omega) (by omega)).bind_left ?_
    rintro ⟨m, rest'⟩ ⟨m', q'⟩ ⟨hm, hq''⟩
    exact .ok ⟨by omega, hq''⟩

theorem name_tracks (hp : At s ws p) (hv : startsWith .void ws = false) (allowVoid : Bool) :
    Tracks s (Same s) (Grammar.typeRef ws) (i.typeRef allowVoid p) := by
  have hkind : headKind ws ≠ .void := fun hk ↦
    Bool.eq_false_iff.1 hv ((startsWith_iff (by decide)).2 hk)
  rw [Grammar.typeRef, if_neg (Bool.eq_false_iff.1 hv)]
  refine .access (h.kindAt_eq hp) ?_
  rw [if_neg hkind]
  refine (h.qualifiedName_tracks hp).bind ?_
  rintro ⟨name, rest⟩ ⟨_, q⟩ - ⟨rfl, hq⟩
  refine .access (h.kindAt_eq hq) (.ite (startsWith_iff (by decide)) (fun _ ↦ ?_) fun _ ↦ ?_)
  · exact .access (h.spanAt_eq hq) (.error _)
  · refine (h.dims_tracks hq (Nat.zero_le q) (h.length_lt_turns hq)).bind ?_
    rintro ⟨n, rest'⟩ ⟨m, q'⟩ - ⟨hm, hq'⟩
    obtain rfl : n = m := by omega
    exact .ok ⟨rfl, hq'⟩

theorem typeRef_tracks (hp : At s ws p) :
    Tracks s (Same s) (Grammar.typeRef ws) (i.typeRef false p) := by
  cases hv : startsWith .void ws with
  | false => exact h.name_tracks hp hv false
  | true =>
    rw [Grammar.typeRef, if_pos hv]
    refine .access (h.kindAt_eq hp) ?_
    rw [if_pos ((startsWith_iff (by decide)).1 hv)]
    exact .access (h.spanAt_eq hp) (.error _)

theorem typeOrVoid_tracks (hp : At s ws p) :
    Tracks s (Same s) (typeOrVoid ws) (i.typeRef true p) := by
  cases hv : startsWith .void ws with
  | false =>
    rw [typeOrVoid, if_neg (Bool.eq_false_iff.1 hv)]
    exact h.name_tracks hp hv true
  | true =>
    obtain ⟨void, hws⟩ := eq_cons_of_startsWith hv
    rw [typeOrVoid, if_pos hv]
    rw [hws] at hp
    have hq := hp.tail
    refine .access (h.kindAt_eq hp) (.access (h.advance_eq hp) (.access (h.kindAt_eq hq) ?_))
    refine .ite (startsWith_iff (by decide)) (fun _ ↦ ?_) fun _ ↦ .ok ⟨rfl, hq⟩
    exact .access (h.spanAt_eq hq) (.error _)

/-- The pairs that are open are no more than the tokens passed so far. -/
theorem closePairs_tracks {opening closing : Token.Kind} {depth : Nat} (v : Wanted)
    (hp : At s ws p) (hd : depth < p) (ht : ws.length + 1 < turns) :
    Tracks s (At s)
      (match behind opening closing depth ws with
      | some rest => .ok rest
      | none => .error (Grammar.expected v []))
      (i.closePairs opening closing v.text turns (depth + 1) p) := by
  induction turns generalizing ws p depth with
  | zero => omega
  | succ turns ih =>
    refine .access (h.kindAt_eq hp) ?_
    cases ws with
    | nil => exact h.expected_tracks v hp
    | cons w ws =>
      have hq := hp.tail
      have hsize : depth + 2 < UInt64.size :=
        Nat.lt_trans (Nat.lt_of_le_of_lt (by omega) (h.lt_size hq)) (by decide)
      rw [List.length_cons] at ht
      rw [show headKind (w :: ws) = w.kind from rfl, if_neg (h.kind_ne_eof hp), depthBehind]
      by_cases ho : w.kind = opening
      · rw [behind_opening ho, if_pos ho]
        exact .access (count_eq hsize) (.access (h.advance_eq hp) (ih hq (by omega) (by omega)))
      by_cases hc : w.kind = closing
      · rw [if_neg ho, if_pos hc]
        refine .access rfl (.access (h.advance_eq hp) ?_)
        cases depth with
        | zero =>
          -- One more turn is needed to see that no pair is open any more.
          obtain ⟨turns, rfl⟩ : ∃ t, turns = t + 1 := ⟨turns - 1, by omega⟩
          rw [show behind opening closing 0 (w :: ws) = some ws by
            rw [behind, if_neg ho, if_pos hc]]
          exact .ok hq
        | succ depth =>
          rw [behind_closing ho hc]
          exact ih hq (by omega) (by omega)
      · rw [behind_other ho hc, if_neg ho, if_neg hc]
        exact .access rfl (.access (h.advance_eq hp) (ih hq (by omega) (by omega)))

theorem skipPair_tracks {opening closing : Token.Kind} (v : Wanted) (hp : At s ws p)
    (hs : startsWith opening ws = true) :
    Tracks s (At s) (Grammar.skipPair opening closing v ws.tail)
      (i.skipPair opening closing v.text p) := by
  have hq := hp.tail_of_startsWith hs
  have hlen := h.length_lt_turns hq
  exact .access (h.expect_of_startsWith hp hs _)
    (h.closePairs_tracks v hq (Nat.succ_pos p) (by omega))

theorem arguments_tracks (hp : At s ws p) :
    Tracks s (At s)
      (if startsWith .leftParen ws then
        Grammar.skipPair .leftParen .rightParen .rightParen ws.tail
      else .ok ws)
      (i.arguments p) :=
  .access (h.kindAt_eq hp) <| .ite (startsWith_iff (by decide))
    (fun hs ↦ h.skipPair_tracks .rightParen hp hs) fun _ ↦ .ok hp

theorem annotation_tracks {sign : String} (hp : At s (⟨.atSign, sign⟩ :: ws) p) :
    Tracks s (fun a b ↦ marksDeprecated a.1 = b.1 ∧ At s a.2 b.2) (annotationName ws)
      (i.annotation p) := by
  refine .access (h.expect_of_startsWith hp rfl _) ((h.qualifiedName_tracks hp.tail).bind ?_)
  rintro ⟨name, rest⟩ ⟨_, q⟩ - ⟨rfl, hq⟩
  have hargs := h.arguments_tracks hq
  change Tracks s _ (if startsWith .leftParen rest then _ else _) _
  split
  · next hs =>
    rw [if_pos hs] at hargs
    exact hargs.bind fun _ _ _ hq' ↦ .ok ⟨rfl, hq'⟩
  · next hs =>
    rw [if_neg hs] at hargs
    exact hargs.bind (k := fun ws ↦ .ok (name, ws)) fun _ _ _ hq' ↦ .ok ⟨rfl, hq'⟩

theorem header_tracks {deprecated : Bool} {ms : Modifiers} (hp : At s ws p)
    (ht : ws.length < turns) :
    Tracks s (fun a b ↦ a.1 = b.1 ∧ a.2.1 = b.2.1 ∧ At s a.2.2 b.2.2) (header deprecated ms ws)
      (i.header turns deprecated ms p) := by
  induction turns generalizing ws p deprecated ms with
  | zero => omega
  | succ turns ih =>
    refine .access (h.kindAt_eq hp) ?_
    fun_cases header deprecated ms ws with
    | case1 sign rest e he =>
      have hname := h.annotation_tracks hp
      rw [he] at hname
      exact hname.bind_of_error
    | case2 sign rest name rest' he =>
      have hname := h.annotation_tracks hp
      rw [he] at hname
      refine hname.bind (k := fun _ ↦ header (deprecated || marksDeprecated name) ms rest') ?_
      rintro _ ⟨_, q⟩ ⟨⟩ ⟨rfl, hq⟩
      have := annotationName_shortens he
      exact ih hq (by simp at ht; omega)
    | case3 m text rest hm =>
      change Tracks s _ _ (if ms.has m then _ else _)
      rw [if_pos hm]
      exact .access (h.textAt_eq hp) (.access (h.spanAt_eq hp) (.error _))
    | case4 m text rest hm =>
      change Tracks s _ _ (if ms.has m then _ else _)
      rw [if_neg hm]
      exact .access (h.advance_eq hp) (ih hp.tail (by simpa using ht))
    | case5 _ hsign hmodifier =>
      split
      · next hk => exact absurd hk (headKind_ne (by decide) hsign)
      · next m hk => exact absurd hk (headKind_ne nofun (hmodifier m))
      · exact .ok ⟨rfl, rfl, hp⟩

theorem resultType_tracks (hp : At s ws p) :
    Tracks s (Same s) (Grammar.resultType ws) (i.resultType p) := by
  refine .access (h.kindAt_eq hp) ?_
  fun_cases Grammar.resultType ws with
  | case1 name left ws =>
    rw [if_pos ⟨rfl, h.kindBehind_eq hp⟩]
    exact .ok ⟨rfl, hp⟩
  | case2 _ hother =>
    have hkinds : ¬(headKind ws = .identifier ∧ i.kindBehind p = .leftParen) := fun hk ↦ by
      obtain ⟨name, left, rest, rfl⟩ := h.eq_cons_cons hp (by decide) (by decide) hk
      exact hother name left rest rfl
    rw [if_neg hkinds]
    refine (h.typeOrVoid_tracks hp).bind ?_
    rintro ⟨t, rest⟩ ⟨_, q⟩ - ⟨rfl, hq⟩
    exact .ok ⟨rfl, hq⟩

theorem annotations_tracks (hp : At s ws p) (ht : ws.length < turns) :
    Tracks s (At s) (Grammar.annotations ws) (i.annotations turns p) := by
  induction turns generalizing ws p with
  | zero => omega
  | succ turns ih =>
    refine .access (h.kindAt_eq hp) ?_
    fun_cases Grammar.annotations ws with
    | case1 sign rest e he =>
      have hname := h.annotation_tracks hp
      rw [he] at hname
      exact hname.bind_of_error
    | case2 sign rest name rest' he =>
      have hname := h.annotation_tracks hp
      rw [he] at hname
      refine hname.bind (k := fun _ ↦ Grammar.annotations rest') ?_
      rintro _ ⟨_, q⟩ ⟨⟩ ⟨rfl, hq⟩
      have := annotationName_shortens he
      exact ih hq (by simp at ht; omega)
    | case3 _ hsign =>
      rw [if_neg (headKind_ne (by decide) hsign)]
      exact .ok hp

theorem exists_eat {k : Token.Kind} (hp : At s ws p) (hk : k ≠ .eof) :
    ∃ b q, i.eat k p = .ok (b, q) ∧ At s (if startsWith k ws then ws.tail else ws) q := by
  cases hs : startsWith k ws with
  | true => exact ⟨true, p + 1, h.eat_true hp hs, hp.tail_of_startsWith hs⟩
  | false => exact ⟨false, p, h.eat_false hp hk hs, hp⟩

theorem param_tracks (hp : At s ws p) :
    Tracks s (Same s) (Grammar.param ws) (i.param p) := by
  refine (h.annotations_tracks hp (h.length_lt_turns hp)).bind fun ws p _ hp ↦ ?_
  obtain ⟨b, q, hb, hq⟩ := h.exists_eat hp (k := .modifier .final) nofun
  refine .access hb ((h.typeRef_tracks hq).bind ?_)
  rintro ⟨t, rest⟩ ⟨_, q'⟩ ht ⟨rfl, hq'⟩
  refine h.eat_tracks hq' (by decide) (fun _ hq'' ↦ ?_) fun _ ↦ ?_
  · have hdims := dims_add_length_lt ht
    have hlen := hq.length_eq
    have hsize : t.dims + 1 < UInt32.size := Nat.lt_of_le_of_lt (by omega) h.length_lt
    refine .access (count_eq hsize) ?_
    refine (h.identifier_tracks hq'').bind ?_
    rintro ⟨name, rest'⟩ ⟨_, r⟩ - ⟨rfl, hr⟩
    exact .ok ⟨rfl, hr⟩
  · refine (h.identifier_tracks hq').bind ?_
    rintro ⟨name, rest'⟩ ⟨_, r⟩ - ⟨rfl, hr⟩
    exact .ok ⟨rfl, hr⟩

theorem paramList_tracks (hp : At s ws p) (ht : ws.length < turns) (ps : List Param) :
    Tracks s
      (fun a b ↦ (ps ++ a.1.map Prod.fst, a.1.any Prod.snd) = b.1 ∧ At s a.2 b.2)
      (commaList Grammar.param param_shortens
        (fun p ↦ if p.2 then some .varargsNotLast else none) ws)
      (i.paramList turns ps false p) := by
  induction turns generalizing ws p ps with
  | zero => omega
  | succ turns ih =>
    rw [commaList_eq]
    refine (h.param_tracks hp).bind ?_
    rintro ⟨⟨p, last⟩, rest⟩ ⟨_, q⟩ hparam ⟨rfl, hq⟩
    have := param_shortens hparam
    refine .access (h.kindAt_eq hq) (.ite (startsWith_iff (by decide)) (fun hs ↦ ?_) fun _ ↦ ?_)
    · cases last with
      | true => exact .access (h.spanAt_eq hq) (.error _)
      | false =>
        have hq' := hq.tail_of_startsWith hs
        refine .access (h.advance_of_startsWith hq hs) ?_
        refine (ih hq' (by simp; omega) (ps ++ [p])).bind_left ?_
        rintro ⟨us, rest'⟩ ⟨_, r⟩ ⟨rfl, hr⟩
        exact .ok ⟨by simp, hr⟩
    · exact .ok ⟨by simp, hq⟩

theorem params_tracks (hp : At s ws p) :
    Tracks s (Same s) (Grammar.params ws) (i.params p) := by
  refine .access (h.kindAt_eq hp) (.ite (startsWith_iff (by decide)) (fun _ ↦ ?_) fun _ ↦ ?_)
  · exact .ok ⟨rfl, hp⟩
  · refine (h.paramList_tracks hp (h.length_lt_turns hp) []).bind_left ?_
    rintro ⟨us, rest⟩ ⟨_, q⟩ ⟨rfl, hq⟩
    exact .ok ⟨rfl, hq⟩

theorem typeList_tracks (hp : At s ws p) (ht : ws.length < turns) (ts : List TypeRef) :
    Tracks s (fun a b ↦ ts ++ a.1 = b.1 ∧ At s a.2 b.2)
      (commaList Grammar.typeRef typeRef_shortens (fun _ ↦ none) ws) (i.typeList turns ts p) := by
  induction turns generalizing ws p ts with
  | zero => omega
  | succ turns ih =>
    rw [commaList_eq]
    refine (h.typeRef_tracks hp).bind ?_
    rintro ⟨t, rest⟩ ⟨_, q⟩ htype ⟨rfl, hq⟩
    have := typeRef_shortens htype
    refine h.eat_tracks hq (by decide) (fun _ hq' ↦ ?_) fun _ ↦ .ok ⟨rfl, hq⟩
    refine (ih hq' (by simp; omega) (ts ++ [t])).bind_left ?_
    rintro ⟨us, rest'⟩ ⟨_, r⟩ ⟨rfl, hr⟩
    exact .ok ⟨by simp, hr⟩

theorem throwsClause_tracks (hp : At s ws p) :
    Tracks s (Same s) (Grammar.throwsClause ws) (i.throwsClause p) := by
  refine h.eat_tracks hp (by decide) (fun _ hq ↦ ?_) fun _ ↦ .ok ⟨rfl, hp⟩
  exact (h.typeList_tracks hq (h.length_lt_turns hq) []).mono fun _ _ hab ↦ ⟨hab.1, hab.2⟩

theorem semicolon_tracks {depth : Nat} (hp : At s ws p) (hd : depth ≤ p)
    (ht : ws.length < turns) :
    Tracks s (At s) (.ok (fromSemicolon depth ws)) (i.semicolon turns depth p) := by
  induction turns generalizing ws p depth with
  | zero => omega
  | succ turns ih =>
    refine .access (h.kindAt_eq hp) ?_
    cases ws with
    | nil => exact .ok hp
    | cons w ws =>
      have hq := hp.tail
      have hnext {d : Nat} (hd : d ≤ p + 1) :
          Tracks s (At s) (.ok (fromSemicolon d ws))
            (i.advance p >>= i.semicolon turns d) :=
        .access (h.advance_eq hp) (ih hq hd (by simpa using ht))
      have hsize : depth + 1 < UInt64.size :=
        Nat.lt_trans (Nat.lt_of_le_of_lt (by omega) (h.lt_size hq)) (by decide)
      rw [fromSemicolon, show headKind (w :: ws) = w.kind from rfl]
      cases hk : w.kind with
      | eof => exact absurd hk (h.kind_ne_eof hp)
      | semicolon =>
        by_cases hz : depth = 0
        · subst hz
          exact .ok hp
        · dsimp only
          rw [if_neg hz, if_neg hz]
          exact hnext (by omega)
      | leftParen | leftBrace | leftBracket => exact .access (count_eq hsize) (hnext (by omega))
      | _ => exact hnext (by omega)

theorem defaultValue_tracks (hp : At s ws p) :
    Tracks s (fun a b ↦ String.ofList (s.between ws.length a.length) = b.1 ∧ At s a b.2)
      (if (fromSemicolon 0 ws).length = ws.length then .error (Grammar.expected .defaultValue ws)
        else .ok (fromSemicolon 0 ws))
      (i.defaultValue p) := by
  refine .access (h.spanAt_eq hp) ?_
  refine (h.semicolon_tracks hp (Nat.zero_le p) (h.length_lt_turns hp)).bind (k := fun rest ↦
    if rest.length = ws.length then .error (Grammar.expected .defaultValue ws) else .ok rest) ?_
  rintro rest q ⟨⟩ hq
  have hlen := hp.length_eq
  have hlen' := hq.length_eq
  obtain ⟨v, hv, -⟩ := fromSemicolon_sound 0 ws
  have hle : (fromSemicolon 0 ws).length ≤ ws.length :=
    List.IsSuffix.length_le ⟨v, hv.symm⟩
  refine .access (h.spanAt_eq hq) (.ite ?_ (fun heq ↦ ?_) fun hne ↦ ?_)
  · constructor
    · intro heq
      rw [heq]
    · intro hspan
      by_cases hpq : p < q
      · have hlt := h.start_spanBefore_lt hp hq hpq
        rw [hspan] at hlt
        exact absurd hlt (UInt32.lt_irrefl _)
      · omega
  · obtain rfl : q = p := by omega
    exact h.expected_tracks .defaultValue hp
  · obtain ⟨last, hlast, hsource⟩ := h.exists_source hp hq (by omega)
    exact .access hlast (.access hsource (.ok ⟨rfl, hq⟩))

theorem defaultClause_tracks (hp : At s ws p) (allowed : Bool) :
    Tracks s
      (fun a b ↦ a.1.map (fun p ↦ String.ofList (s.between p.1 p.2)) = b.1 ∧ At s a.2 b.2)
      (Grammar.defaultClause allowed ws) (i.defaultClause allowed p) := by
  refine .access (h.kindAt_eq hp) (.ite (startsWith_iff nofun) (fun hs ↦ ?_) fun _ ↦ ?_)
  · cases allowed with
    | false => exact .access (h.spanAt_eq hp) (.error _)
    | true =>
      refine .access (h.advance_of_startsWith hp hs) ?_
      have hvalue := h.defaultValue_tracks (hp.tail_of_startsWith hs)
      change Tracks s _ (if (fromSemicolon 0 ws.tail).length = ws.tail.length then _ else _) _
      split
      · next heq =>
        rw [if_pos heq] at hvalue
        exact hvalue.bind_of_error
      · next hne =>
        rw [if_neg hne] at hvalue
        refine hvalue.bind (k := fun rest ↦ .ok (some (ws.tail.length, rest.length), rest)) ?_
        rintro rest ⟨_, q⟩ ⟨⟩ ⟨rfl, hq⟩
        exact .ok ⟨rfl, hq⟩
  · exact .ok ⟨rfl, hp⟩

theorem body_tracks (hp : At s ws p) : Tracks s (At s) (Grammar.body ws) (i.body p) :=
  .access (h.kindAt_eq hp) <| .ite (startsWith_iff (by decide))
    (fun hs ↦ h.skipPair_tracks .rightBrace hp hs)
    fun _ ↦ h.expect_tracks .bodyOrSemicolon hp (by decide)

theorem declaration_tracks (ctx : Context) :
    Tracks s (fun o m ↦ s.method o = m) (outline ctx s.words) (i.declaration ctx) := by
  have hp : At s s.words 0 := ⟨Nat.zero_le _, rfl⟩
  refine .access (h.spanAt_eq hp) ((h.header_tracks hp (h.length_lt_turns hp)).bind ?_)
  rintro ⟨deprecated, modifiers, ws⟩ ⟨_, _, p⟩ - ⟨rfl, rfl, hp⟩
  refine (h.resultType_tracks hp).bind ?_
  rintro ⟨result, start⟩ ⟨_, q⟩ - ⟨rfl, hq⟩
  refine .access (h.spanAt_eq hq) ((h.identifier_tracks hq).bind ?_)
  rintro ⟨name, ws⟩ ⟨_, p⟩ - ⟨rfl, hp⟩
  refine .ite Iff.rfl (fun _ ↦ .error _) fun _ ↦ ?_
  refine (h.expect_tracks .leftParen hp (by decide)).bind fun ws p _ hp ↦ ?_
  refine (h.params_tracks hp).bind ?_
  rintro ⟨⟨ps, varargs⟩, ws⟩ ⟨⟨_, _⟩, p⟩ - ⟨⟨⟩, hp⟩
  refine (h.expect_tracks .rightParen hp (by decide)).bind fun ws p _ hp ↦ ?_
  refine (h.throwsClause_tracks hp).bind ?_
  rintro ⟨throws, ws⟩ ⟨_, p⟩ - ⟨rfl, hp⟩
  refine (h.defaultClause_tracks hp _).bind ?_
  rintro ⟨value, ws⟩ ⟨_, p⟩ - ⟨rfl, hp⟩
  refine (h.body_tracks hp).bind fun ws p _ hp ↦ ?_
  cases ws with
  | nil =>
    obtain ⟨last, hlast, hmerge⟩ := h.exists_merge hp
    refine .access hlast (.access (h.kindAt_eq hp) ?_)
    refine .ite (iff_of_true rfl rfl) (fun _ ↦ ?_) fun hne ↦ absurd rfl hne
    rw [hmerge]
    exact .ok rfl
  | cons w ws =>
    obtain ⟨last, hlast⟩ := h.exists_spanBefore hp
    refine .access hlast (.access (h.kindAt_eq hp) ?_)
    exact .ite (iff_of_false nofun (h.kind_ne_eof hp)) nofun fun _ ↦
      h.expected_tracks .endOfInput hp

end Backs

end Checked

end ClassModel
