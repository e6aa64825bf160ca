import ClassModel.Proofs.Checked.Parser
import ClassModel.Proofs.Token.Tiling

namespace ClassModel

theorem Span.cover_self (a : Span) : a.cover a = a := by
  have hstart : min a.start a.start = a.start := ite_self _
  have hstop : max a.stop a.stop = a.stop := ite_self _
  rw [cover, hstart, hstop]

namespace Checked

open Grammar

structure Backs (i : Input) (s : Scan) : Prop where
  tokens : i.tokens = s.kinds
  length_lt : s.tokens.length < UInt32.size
  kind_ne : ∀ t ∈ s.tokens, t.kind ≠ .eof
  file_eq : ∀ t ∈ s.tokens, t.span.file = s.finish.file
  ordered : s.tokens.Pairwise fun t u ↦ t.span.stop ≤ u.span.start
  before_finish : ∀ t ∈ s.tokens, t.span.start < t.span.stop ∧ t.span.stop ≤ s.finish.start
  source : ∀ before t part after, s.tokens = before ++ (t :: part ++ after) →
    slice? i.text t.span.start.toNat ((t :: part).getLast (by simp)).span.stop.toNat =
      some (Token.source (t :: part))

structure At (s : Scan) (ws : List Word) (p : Nat) : Prop where
  le_length : p ≤ s.tokens.length
  words_eq : ws = s.words.drop p

def headKind : List Word → Token.Kind
  | [] => .eof
  | w :: _ => w.kind

variable {i : Input} {s : Scan} {ws : List Word} {w : Word} {p : Nat}

theorem exists_stretch {α : Type} {l : List α} {p q : Nat} (hpq : p < q) (hq : q ≤ l.length) :
    ∃ t part, (l.drop p).take (q - p) = t :: part ∧ l = l.take p ++ (t :: part ++ l.drop q) ∧
      l[p]? = some t ∧ l[q - 1]? = some ((t :: part).getLast (List.cons_ne_nil t part)) := by
  have hpos : 0 < ((l.drop p).take (q - p)).length := by
    rw [List.length_take, List.length_drop]
    omega
  obtain ⟨t, part, hpart⟩ := List.exists_cons_of_length_pos hpos
  have hindex : min (q - p) (l.length - p) - 1 = q - 1 - p := by omega
  refine ⟨t, part, hpart, ?_, ?_, ?_⟩
  · have hdrop : l.drop q = (l.drop p).drop (q - p) := by
      rw [List.drop_drop, Nat.add_sub_cancel' (Nat.le_of_lt hpq)]
    rw [← hpart, hdrop, List.take_append_drop, List.take_append_drop]
  · have hhead := congrArg List.head? hpart
    rwa [List.head?_take, if_neg (Nat.sub_ne_zero_of_lt hpq), List.head?_drop] at hhead
  · rw [← List.getLast?_eq_some_getLast, ← hpart, List.getLast?_eq_getElem?, List.length_take,
      List.length_drop, hindex, List.getElem?_take_of_lt (by omega), List.getElem?_drop,
      Nat.add_sub_cancel' (by omega)]

namespace At

theorem length_eq (hp : At s ws p) : p + ws.length = s.tokens.length := by
  have hle := hp.le_length
  rw [hp.words_eq, List.length_drop, Scan.words, List.length_map]
  omega

theorem nil (hp : At s [] p) : p = s.tokens.length := hp.length_eq

theorem tail (hp : At s (w :: ws) p) : At s ws (p + 1) where
  le_length := by
    have hlen := hp.length_eq
    rw [List.length_cons] at hlen
    omega
  words_eq := by rw [← List.drop_drop, ← hp.words_eq]; rfl

theorem exists_token (hp : At s (w :: ws) p) : ∃ t, s.tokens[p]? = some t ∧ t.word = w := by
  have hw : s.words[p]? = some w := by
    rw [← List.head?_drop, ← hp.words_eq]
    rfl
  rw [Scan.words, List.getElem?_map] at hw
  exact Option.map_eq_some_iff.1 hw

theorem spanBefore_length (hp : At s ws p) :
    s.spanBefore ws.length = ((s.tokens[p]?).map (·.span)).getD s.finish := by
  have hlen := hp.length_eq
  have hpos : s.tokens.length - ws.length = p := by omega
  rw [Scan.spanBefore, hpos]
  cases s.tokens[p]? <;> rfl

end At

namespace Backs

variable (h : Backs i s)

include h

theorem token_eq (hp : At s ws p) : i.token p = .ok (headKind ws, s.spanBefore ws.length) := by
  rw [Input.token, h.tokens, Scan.kinds, hp.spanBefore_length]
  cases ws with
  | nil =>
    rw [hp.nil]
    simp [headKind]
  | cons w ws =>
    obtain ⟨t, ht, rfl⟩ := hp.exists_token
    obtain ⟨hlt, -⟩ := List.getElem?_eq_some_iff.1 ht
    rw [List.getElem?_append_left (by simpa using hlt), List.getElem?_map, ht]
    rfl

theorem kindAt_eq (hp : At s ws p) : i.kindAt p = .ok (headKind ws) := by
  rw [Input.kindAt, h.token_eq hp]
  rfl

theorem spanAt_eq (hp : At s ws p) : i.spanAt p = .ok (s.spanBefore ws.length) := by
  rw [Input.spanAt, h.token_eq hp]
  rfl

theorem kind_ne_eof (hp : At s (w :: ws) p) : w.kind ≠ .eof := by
  obtain ⟨t, ht, rfl⟩ := hp.exists_token
  exact h.kind_ne t (List.mem_of_getElem? ht)

theorem source_eq {before part after : List Token} {t : Token}
    (ht : s.tokens = before ++ (t :: part ++ after)) :
    i.source t.span ((t :: part).getLast (by simp)).span =
      .ok (String.ofList (Token.source (t :: part))) := by
  rw [Input.source, slice, h.source before t part after ht]
  rfl

theorem textAt_eq (hp : At s (w :: ws) p) : i.textAt p = .ok w.text := by
  obtain ⟨t, ht, rfl⟩ := hp.exists_token
  obtain ⟨hlt, rfl⟩ := List.getElem?_eq_some_iff.1 ht
  have hsplit : s.tokens = s.tokens.take p ++ (s.tokens[p] :: [] ++ s.tokens.drop (p + 1)) := by
    simp
  rw [Input.textAt, h.spanAt_eq hp, hp.spanBefore_length, ht]
  have hone : Token.source [s.tokens[p]] = s.tokens[p].text := by simp [Token.source]
  have hsource := h.source_eq hsplit
  rw [hone] at hsource
  exact hsource

theorem advance_eq (hp : At s (w :: ws) p) : i.advance p = .ok (p + 1) := by
  rw [Input.advance, h.kindAt_eq hp, h.token_eq hp.tail]
  exact if_neg (h.kind_ne_eof hp)

theorem kindBehind_eq (hp : At s (w :: ws) p) : i.kindBehind p = headKind ws := by
  have htoken := h.token_eq hp.tail
  unfold Input.token at htoken
  unfold Input.kindBehind
  split at htoken
  · next t ht =>
    obtain rfl := Except.ok.inj htoken
    rw [ht]
    rfl
  · cases htoken

theorem length_lt_turns (hp : At s ws p) : ws.length < i.turns := by
  have hlen := hp.length_eq
  rw [Input.turns, h.tokens, Scan.kinds, List.length_append, List.length_map]
  simp only [List.length_cons, List.length_nil]
  omega

theorem lt_size (hp : At s ws p) : p < UInt32.size :=
  Nat.lt_of_le_of_lt hp.le_length h.length_lt

theorem start_spanBefore_lt {rest : List Word} {q : Nat} (hp : At s ws p) (hq : At s rest q)
    (hpq : p < q) : (s.spanBefore ws.length).start < (s.spanBefore rest.length).start := by
  have hlt : p < s.tokens.length := Nat.lt_of_lt_of_le hpq hq.le_length
  obtain ⟨hspan, hfinish⟩ := h.before_finish _ (List.getElem_mem hlt)
  rw [hp.spanBefore_length, hq.spanBefore_length, List.getElem?_eq_getElem hlt]
  refine UInt32.lt_of_lt_of_le hspan ?_
  cases hu : s.tokens[q]? with
  | none => exact hfinish
  | some u =>
    obtain ⟨hltq, rfl⟩ := List.getElem?_eq_some_iff.1 hu
    exact List.pairwise_iff_getElem.1 h.ordered p q hlt hltq hpq

theorem spanBefore_eq {u : Token} (hpos : 0 < p) (hu : s.tokens[p - 1]? = some u) :
    i.spanBefore p = .ok u.span := by
  obtain ⟨hlt, -⟩ := List.getElem?_eq_some_iff.1 hu
  have hq : At s (s.words.drop (p - 1)) (p - 1) := ⟨Nat.le_of_lt hlt, rfl⟩
  rw [Input.spanBefore, if_pos hpos, h.spanAt_eq hq, hq.spanBefore_length, hu]
  rfl

theorem exists_source {rest : List Word} {q : Nat} (hp : At s ws p) (hq : At s rest q)
    (hpq : p < q) :
    ∃ last, i.spanBefore q = .ok last ∧
      i.source (s.spanBefore ws.length) last =
        .ok (String.ofList (s.between ws.length rest.length)) := by
  obtain ⟨t, part, hpart, hsplit, ht, hu⟩ := exists_stretch hpq hq.le_length
  have hlen := hp.length_eq
  have hlen' := hq.length_eq
  have hdrop : s.tokens.length - ws.length = p := by omega
  have htake : ws.length - rest.length = q - p := by omega
  refine ⟨_, h.spanBefore_eq (Nat.zero_lt_of_lt hpq) hu, ?_⟩
  rw [hp.spanBefore_length, ht, Scan.between, hdrop, htake, hpart]
  exact h.source_eq hsplit

theorem exists_spanBefore (hp : At s ws p) : ∃ last, i.spanBefore p = .ok last := by
  cases p with
  | zero => exact ⟨_, h.spanAt_eq hp⟩
  | succ p =>
    have hu := List.getElem?_eq_getElem (l := s.tokens) hp.le_length
    exact ⟨_, h.spanBefore_eq (Nat.succ_pos p) hu⟩

theorem exists_merge (hp : At s [] p) :
    ∃ last, i.spanBefore p = .ok last ∧
      (s.spanBefore s.words.length).merge last = some s.extent := by
  have hfirst : At s s.words 0 := ⟨Nat.zero_le _, rfl⟩
  obtain rfl := hp.nil
  rw [hfirst.spanBefore_length, Scan.extent]
  cases htokens : s.tokens with
  | nil =>
    rw [htokens] at hp
    refine ⟨s.finish, ?_, ?_⟩
    · rw [Input.spanBefore, if_neg (by simp), h.spanAt_eq hp, hp.spanBefore_length, htokens]
      rfl
    · exact (Span.merge_of_file_eq rfl).trans (congrArg some s.finish.cover_self)
  | cons t ts =>
    have hu : s.tokens[ts.length]? = some ((t :: ts).getLast (List.cons_ne_nil t ts)) := by
      rw [htokens, ← List.getLast?_eq_some_getLast, List.getLast?_eq_getElem?]
      rfl
    refine ⟨_, h.spanBefore_eq (Nat.succ_pos ts.length) hu, ?_⟩
    have hfile {u : Token} (hu : u ∈ t :: ts) : u.span.file = s.finish.file :=
      h.file_eq u (htokens ▸ hu)
    rw [List.getLast?_eq_some_getLast (List.cons_ne_nil t ts)]
    refine Span.merge_of_file_eq ?_
    exact (hfile List.mem_cons_self).trans (hfile (List.getLast_mem _)).symm

end Backs

/-- Whether a reading by positions does what a reading of words does: it yields what `rel` says of
the result, and stops where that stops, with the report that this calls for. -/
inductive Tracks {α β : Type} (s : Scan) (rel : α → β → Prop) :
    Except Stop α → Except Fall β → Prop
  | ok {a : α} {b : β} (h : rel a b) : Tracks s rel (.ok a) (.ok b)
  | error (stop : Stop) :
    Tracks s rel (.error stop) (.error (.stopped (s.stopReports stop).head?))

structure Same {α : Type} (s : Scan) (a : α × List Word) (b : α × Nat) : Prop where
  value_eq : a.1 = b.1
  at_rest : At s a.2 b.2

namespace Tracks

variable {α β γ δ : Type} {rel : α → β → Prop} {rel' : γ → δ → Prop}

theorem mono {rel' : α → β → Prop} {q : Except Stop α} {r : Except Fall β} (h : Tracks s rel q r)
    (hrel : ∀ a b, rel a b → rel' a b) : Tracks s rel' q r := by
  cases h with
  | ok h => exact .ok (hrel _ _ h)
  | error stop => exact .error stop

theorem bind {q : Except Stop α} {r : Except Fall β} {k : α → Except Stop γ}
    {l : β → Except Fall δ} (h : Tracks s rel q r)
    (hk : ∀ a b, q = .ok a → rel a b → Tracks s rel' (k a) (l b)) :
    Tracks s rel' (q >>= k) (r >>= l) := by
  cases h with
  | ok h => exact hk _ _ rfl h
  | error stop => exact .error stop

theorem bind_of_error {stop : Stop} {r : Except Fall β} {l : β → Except Fall δ}
    (h : Tracks s rel (.error stop) r) : Tracks s rel' (.error stop) (r >>= l) := by
  cases h
  exact .error stop

theorem bind_left {q : Except Stop α} {r : Except Fall β} {k : α → Except Stop γ}
    {rel' : γ → β → Prop} (h : Tracks s rel q r)
    (hk : ∀ a b, rel a b → Tracks s rel' (k a) (.ok b)) : Tracks s rel' (q >>= k) r := by
  cases h with
  | ok h => exact hk _ _ h
  | error stop => exact .error stop

theorem access {q : Except Stop γ} {r : Except Fall β} {b : β} {l : β → Except Fall δ}
    (h : r = .ok b) (hl : Tracks s rel' q (l b)) : Tracks s rel' q (r >>= l) := by
  rw [h]
  exact hl

theorem ite {c d : Prop} [Decidable c] [Decidable d] {q q' : Except Stop α} {r r' : Except Fall β}
    (hcd : c ↔ d) (ht : c → Tracks s rel q r) (he : ¬c → Tracks s rel q' r') :
    Tracks s rel (if c then q else q') (if d then r else r') := by
  by_cases hc : c
  · rw [if_pos hc, if_pos (hcd.1 hc)]
    exact ht hc
  · rw [if_neg hc, if_neg (mt hcd.2 hc)]
    exact he hc

end Tracks

theorem startsWith_iff {k : Token.Kind} (hk : k ≠ .eof) :
    startsWith k ws = true ↔ headKind ws = k := by
  cases ws with
  | nil => exact iff_of_false Bool.false_ne_true hk.symm
  | cons w ws => exact beq_iff_eq

theorem At.tail_of_startsWith {k : Token.Kind} (hp : At s ws p) (hs : startsWith k ws = true) :
    At s ws.tail (p + 1) := by
  cases ws with
  | nil => cases hs
  | cons w ws => exact hp.tail

namespace Backs

variable (h : Backs i s)

include h

theorem eat_true {k : Token.Kind} (hp : At s ws p) (hs : startsWith k ws = true) :
    i.eat k p = .ok (true, p + 1) := by
  cases ws with
  | nil => cases hs
  | cons w ws =>
    obtain rfl : w.kind = k := beq_iff_eq.1 hs
    rw [Input.eat, h.kindAt_eq hp, h.advance_eq hp]
    exact if_pos rfl

theorem expect_of_startsWith {k : Token.Kind} (hp : At s ws p) (hs : startsWith k ws = true)
    (what : String) : i.expect k what p = .ok (p + 1) := by
  rw [Input.expect, h.eat_true hp hs]
  rfl

theorem advance_of_startsWith {k : Token.Kind} (hp : At s ws p) (hs : startsWith k ws = true) :
    i.advance p = .ok (p + 1) := by
  cases ws with
  | nil => cases hs
  | cons w ws => exact h.advance_eq hp

theorem eat_false {k : Token.Kind} (hp : At s ws p) (hk : k ≠ .eof)
    (hs : startsWith k ws = false) : i.eat k p = .ok (false, p) := by
  rw [Input.eat, h.kindAt_eq hp]
  exact if_neg fun hkind ↦ Bool.false_ne_true (hs.symm.trans ((startsWith_iff hk).2 hkind))

theorem found_eq (hp : At s ws p) : i.found p = .ok (Complaint.message.found ws) := by
  rw [Input.found, h.kindAt_eq hp]
  cases ws with
  | nil => rfl
  | cons w ws =>
    rw [h.textAt_eq hp]
    exact if_neg (h.kind_ne_eof hp)

variable {α β : Type} {rel : α → β → Prop}

theorem eat_tracks {k : Token.Kind} (hp : At s ws p) (hk : k ≠ .eof) {q q' : Except Stop α}
    {l : Bool × Nat → Except Fall β}
    (ht : startsWith k ws = true → At s ws.tail (p + 1) → Tracks s rel q (l (true, p + 1)))
    (he : startsWith k ws = false → Tracks s rel q' (l (false, p))) :
    Tracks s rel (if startsWith k ws then q else q') (i.eat k p >>= l) := by
  cases hs : startsWith k ws with
  | true => exact .access (h.eat_true hp hs) (ht hs (hp.tail_of_startsWith hs))
  | false => exact .access (h.eat_false hp hk hs) (he hs)

theorem expected_tracks (w : Wanted) (hp : At s ws p) :
    Tracks s rel (.error (Grammar.expected w ws)) (i.expected w.text p) := by
  refine .access (h.kindAt_eq hp) ?_
  cases ws with
  | nil =>
    exact .access (h.found_eq hp) (.access (h.spanAt_eq hp) (.error _))
  | cons v ws =>
    by_cases hv : v.kind = .error
    · obtain ⟨_, text⟩ := v
      obtain rfl := hv
      exact .error _
    · have hstop : Grammar.expected w (v :: ws) = .complaint (.expected w) (v :: ws) := by
        unfold Grammar.expected
        split
        · next heq => exact absurd (congrArg Word.kind (List.cons.inj heq).1) hv
        · rfl
      rw [hstop, show headKind (v :: ws) = v.kind from rfl, if_neg hv]
      exact .access (h.found_eq hp) (.access (h.spanAt_eq hp) (.error _))

theorem expect_tracks (w : Wanted) {k : Token.Kind} (hp : At s ws p) (hk : k ≠ .eof) :
    Tracks s (At s) (skip k w ws) (i.expect k w.text p) :=
  h.eat_tracks hp hk (fun _ hq ↦ .ok hq) fun _ ↦ h.expected_tracks w hp

theorem identifier_tracks (hp : At s ws p) :
    Tracks s (Same s) (identifier ws) (i.identifier p) := by
  refine .access (h.kindAt_eq hp) ?_
  fun_cases identifier ws with
  | case1 name ws =>
    exact .access (h.textAt_eq hp) (.access (h.advance_eq hp) (.ok ⟨rfl, hp.tail⟩))
  | case2 ws hother =>
    have hkind : headKind ws ≠ .identifier := by
      intro hkind
      cases ws with
      | nil => cases hkind
      | cons w ws => exact hother w.text ws (by rw [← show w.kind = _ from hkind])
    rw [if_neg hkind]
    exact h.expected_tracks .identifier hp

end Backs

end Checked

end ClassModel
