import ClassModel.Proofs.Reading.Spelling
import ClassModel.Proofs.Token.Writing

namespace ClassModel

open Spelling

def IsIdentifier (s : String) : Prop :=
  s.toList.head?.any isNameStart = true ∧ s.toList.tail.all isNameChar = true ∧
    Token.Kind.ofKeyword? s = none

instance : DecidablePred IsIdentifier := fun s ↦
  inferInstanceAs (Decidable (s.toList.head?.any isNameStart = true ∧ _ ∧ _))

def IsQualified (s : String) : Prop :=
  ∃ t ts, (∀ u ∈ t :: ts, IsIdentifier u) ∧ s = ".".intercalate (t :: ts)

variable {s : String} {ws : List Word}

theorem IsIdentifier.writes (h : IsIdentifier s) : Writes s [⟨.identifier, s⟩] := by
  obtain ⟨hhead, hcs, hk⟩ := h
  obtain ⟨c, hhead, hc⟩ := (Option.any_eq_true ..).1 hhead
  obtain ⟨cs, hs⟩ := List.head?_eq_some_iff.1 hhead
  rw [hs] at hcs
  have hw := Writes.word hs hc hcs
  rwa [Token.Kind.ofName, hk] at hw

theorem IsQualified.writes (h : IsQualified s) : ∃ ws, Name s ws ∧ Writes s ws := by
  obtain ⟨t, ts, hts, rfl⟩ := h
  induction ts generalizing t with
  | nil =>
    rw [String.intercalate_singleton]
    exact ⟨_, .single t, (hts t List.mem_cons_self).writes⟩
  | cons u us ih =>
    obtain ⟨ws, hn, hw⟩ := ih u fun v hv ↦ hts v (List.mem_cons_of_mem t hv)
    have ht := hts t List.mem_cons_self
    rw [String.intercalate_cons_cons]
    exact ⟨_, .dotted t "." hn, ht.writes.append .dot hw⟩

theorem dims_brackets (n : Nat) :
    ∃ ds, Dims n ds ∧ ∀ {rest : List Char} {ws : List Word}, Reads.Boundary rest → Reads rest ws →
      Reads.Boundary ((brackets n).toList ++ rest) ∧
        Reads ((brackets n).toList ++ rest) (ds ++ ws) := by
  induction n with
  | zero => exact ⟨[], .none, fun hb hr ↦ ⟨hb, hr⟩⟩
  | succ n ih =>
    obtain ⟨ds, hd, hds⟩ := ih
    have hn : (brackets (n + 1)).toList = '[' :: ']' :: (brackets n).toList := by
      simp [brackets, List.replicate_succ]
    refine ⟨_, .pair "[" "]" hd, fun hb hr ↦ ?_⟩
    rw [hn]
    refine ⟨Reads.boundary_cons (by decide) _, ?_⟩
    exact ((hds hb hr).2.punctuation rfl (by decide)).punctuation rfl (by decide)

theorem TypeRef.writes {t : TypeRef} (h : IsQualified t.name) :
    ∃ ws, TypeName t ws ∧ Writes t.text ws := by
  obtain ⟨ws, hn, hw⟩ := h.writes
  obtain ⟨ds, hd, hds⟩ := dims_brackets t.dims
  refine ⟨_, .mk hn hd, ?_⟩
  obtain ⟨c, cs, hc, hstart⟩ := hw.starts
  refine ⟨⟨c, cs ++ (brackets t.dims).toList, by simp [TypeRef.text, hc], hstart⟩, fun hb hr ↦ ?_⟩
  obtain ⟨hb, hr⟩ := hds hb hr
  simpa [TypeRef.text] using hw.reads hb hr

namespace Param

variable {p : Param}

theorem writes (hn : IsIdentifier p.name) (ht : IsQualified p.type.name) :
    ∃ ws, Parameter (p, false) ws ∧ Writes p.text ws := by
  obtain ⟨ws, hty, hw⟩ := TypeRef.writes ht
  exact ⟨_, .single p.name .none .absent hty, hw.append .blank hn.writes⟩

theorem writes_varargs (hn : IsIdentifier p.name) (ht : IsQualified p.type.name)
    (hd : 0 < p.type.dims) : ∃ ws, Parameter (p, true) ws ∧ Writes p.varargsText ws := by
  obtain ⟨⟨name, dims⟩, s⟩ := p
  cases dims with
  | zero => exact absurd hd (Nat.lt_irrefl 0)
  | succ n =>
    obtain ⟨ws, hty, hw⟩ := TypeRef.writes (t := ⟨name, n⟩) ht
    exact ⟨_, .varargs "..." s .none .absent hty, hw.append .ellipsis hn.writes⟩

end Param

theorem writes_separated_cons {α : Type} {spells : α → List Word → Prop} {a : α} {as : List α}
    {t : String} {ts : List String} {ws ws' : List Word} (ha : spells a ws) (hw : Writes t ws)
    (hne : ts ≠ []) (has : Separated spells as ws') (hws : Writes (", ".intercalate ts) ws') :
    ∃ ws, Separated spells (a :: as) ws ∧ Writes (", ".intercalate (t :: ts)) ws := by
  rw [String.intercalate_cons_of_ne_nil hne]
  exact ⟨_, .cons "," ha has, hw.append .comma hws⟩

theorem writes_types {t : TypeRef} {ts : List TypeRef} (h : ∀ u ∈ t :: ts, IsQualified u.name) :
    ∃ ws, Separated TypeName (t :: ts) ws ∧
      Writes (", ".intercalate ((t :: ts).map TypeRef.text)) ws := by
  obtain ⟨ws, ht, hw⟩ := TypeRef.writes (h t List.mem_cons_self)
  induction ts generalizing t ws with
  | nil =>
    rw [List.map_singleton, String.intercalate_singleton]
    exact ⟨ws, .last ht, hw⟩
  | cons u us ih =>
    have hus : ∀ v ∈ u :: us, IsQualified v.name := fun v hv ↦ h v (List.mem_cons_of_mem t hv)
    obtain ⟨ws', hu, hw'⟩ := TypeRef.writes (hus u List.mem_cons_self)
    obtain ⟨ws'', hs, hws⟩ := ih hus ws' hu hw'
    exact writes_separated_cons ht hw (by simp) hs hws

theorem paramTexts_ne_nil (varargs : Bool) (p : Param) (ps : List Param) :
    Method.paramTexts varargs (p :: ps) ≠ [] := by
  cases ps <;> simp [Method.paramTexts]

theorem writes_params {varargs : Bool} {p : Param} {ps : List Param}
    (h : ∀ q ∈ p :: ps, IsIdentifier q.name ∧ IsQualified q.type.name)
    (hv : varargs = true → ∃ q, (p :: ps).getLast? = some q ∧ 0 < q.type.dims) :
    ∃ l ws, Separated Parameter l ws ∧ (∀ q ∈ l.dropLast, q.2 = false) ∧
      l.map Prod.fst = p :: ps ∧ l.any Prod.snd = varargs ∧
      Writes (", ".intercalate (Method.paramTexts varargs (p :: ps))) ws := by
  induction ps generalizing p with
  | nil =>
    obtain ⟨hn, ht⟩ := h p List.mem_cons_self
    obtain ⟨ws, hp, hw⟩ : ∃ ws, Parameter (p, varargs) ws ∧
        Writes (if varargs then p.varargsText else p.text) ws := by
      cases varargs with
      | false => exact Param.writes hn ht
      | true =>
        obtain ⟨q, hq, hd⟩ := hv rfl
        obtain rfl : p = q := Option.some.inj hq
        exact Param.writes_varargs hn ht hd
    refine ⟨[(p, varargs)], ws, .last hp, by simp, rfl, by simp, ?_⟩
    rw [Method.paramTexts, String.intercalate_singleton]
    exact hw
  | cons q qs ih =>
    obtain ⟨hn, ht⟩ := h p List.mem_cons_self
    obtain ⟨ws, hp, hw⟩ := Param.writes hn ht
    obtain ⟨l, ws', hs, hl, hfst, hany, hws⟩ :=
      ih (fun r hr ↦ h r (List.mem_cons_of_mem p hr)) (by simpa using hv)
    obtain ⟨ws'', hs', hws'⟩ :=
      writes_separated_cons hp hw (paramTexts_ne_nil varargs q qs) hs hws
    have hne : l ≠ [] := by
      rintro rfl
      cases hs
    refine ⟨(p, false) :: l, ws'', hs', ?_, ?_, ?_, hws'⟩
    · rw [List.dropLast_cons_of_ne_nil hne]
      intro r hr
      rcases List.mem_cons.1 hr with rfl | hr
      · rfl
      · exact hl r hr
    · rw [List.map_cons, hfst]
    · rw [List.any_cons, hany, Bool.false_or]

theorem writes_modifiers (ms : List Modifier) (h : Writes s ws) :
    ∃ items, Items false ms items ∧
      Writes (String.join ((ms.map Modifier.keyword).map (· ++ " ")) ++ s) (items ++ ws) := by
  induction ms with
  | nil =>
    refine ⟨[], .none, ?_⟩
    rw [List.map_nil, List.map_nil, String.join_nil, String.empty_append]
    exact h
  | cons m ms ih =>
    obtain ⟨items, hi, hw⟩ := ih
    refine ⟨_, .modifier m m.keyword hi, ?_⟩
    rw [List.map_cons, List.map_cons, String.join_cons, String.append_assoc]
    have hm := (Writes.keyword m).append .blank hw
    exact hm

theorem writes_head (ctx : Context) {result : Option TypeRef} (hs : IsIdentifier s)
    (hr : ∀ t ∈ result, IsQualified t.name ∨ t = ⟨"void", 0⟩)
    (hc : result = none → ctx.className = some s) :
    ∃ ws, Head ctx result s ws ∧ Writes (result.elim "" (TypeRef.text · ++ " ") ++ s) ws := by
  cases result with
  | none =>
    refine ⟨_, .constructor (hc rfl), ?_⟩
    rw [Option.elim_none, String.empty_append]
    exact hs.writes
  | some t =>
    rcases hr t rfl with ht | rfl
    · obtain ⟨ws, hty, hw⟩ := TypeRef.writes ht
      exact ⟨_, .typed s hty, hw.append .blank hs.writes⟩
    · exact ⟨_, .void "void" s, Writes.void.append .blank hs.writes⟩

end ClassModel
