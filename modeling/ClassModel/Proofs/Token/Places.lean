import ClassModel.Proofs.Token.Lexing

namespace ClassModel

namespace Span

structure Within (lo hi : Nat) (s : Span) : Prop where
  lo_le : lo ≤ s.start.toNat
  start_le : s.start ≤ s.stop
  le_hi : s.stop.toNat ≤ hi

variable {file : FileId} {lo hi a b : Nat}

theorem Within.mono {lo' hi' : Nat} {s : Span} (h : s.Within lo hi) (hlo : lo' ≤ lo)
    (hhi : hi ≤ hi') : s.Within lo' hi' :=
  ⟨Nat.le_trans hlo h.lo_le, h.start_le, Nat.le_trans h.le_hi hhi⟩

theorem toNat_start_ofNat (h : a < UInt32.size) : (ofNat file a b).start.toNat = a :=
  UInt32.toNat_ofNat_of_lt' h

theorem toNat_stop_ofNat (h : b < UInt32.size) : (ofNat file a b).stop.toNat = b :=
  UInt32.toNat_ofNat_of_lt' h

theorem within_ofNat (hab : a ≤ b) (hb : b < UInt32.size) : (ofNat file a b).Within a b := by
  have ha : (ofNat file a b).start.toNat = a := toNat_start_ofNat (Nat.lt_of_le_of_lt hab hb)
  have hb' : (ofNat file a b).stop.toNat = b := toNat_stop_ofNat hb
  have hle : (ofNat file a b).start ≤ (ofNat file a b).stop := by
    rw [UInt32.le_iff_toNat_le, ha, hb']
    exact hab
  exact ⟨Nat.le_of_eq ha.symm, hle, Nat.le_of_eq hb'⟩

end Span

namespace Lexeme

theorem ofName_ne (s : String) : Token.Kind.ofName s ≠ .error ∧ Token.Kind.ofName s ≠ .eof := by
  unfold Token.Kind.ofName Token.Kind.ofKeyword?
  split
  · decide
  split
  · decide
  cases Modifier.ofKeyword? s with
  | none => decide
  | some m => exact ⟨nofun, nofun⟩

theorem ofPunctuation?_ne {c : Char} {k : Token.Kind} (h : Token.Kind.ofPunctuation? c = some k) :
    k ≠ .error ∧ k ≠ .eof := by
  unfold Token.Kind.ofPunctuation? at h
  split at h <;> cases h <;> decide

theorem symbol_kind_ne {c : Char} {cs : List Char} {k : Token.Kind}
    (h : (symbol c cs).1.shape = .token k) : k ≠ .error ∧ k ≠ .eof := by
  revert h
  fun_cases symbol c cs with
  | case4 cs => rintro ⟨⟩; decide
  | case5 c cs _ _ _ k' hk => rintro ⟨⟩; exact ofPunctuation?_ne hk
  | _ => rintro ⟨⟩

theorem first_kind_ne {c : Char} {cs : List Char} {k : Token.Kind}
    (h : (first c cs).1.shape = .token k) : k ≠ .error ∧ k ≠ .eof := by
  revert h
  fun_cases first c cs with
  | case1 => rintro ⟨⟩
  | case2 => rintro ⟨⟩; exact ofName_ne _
  | case3 => rintro ⟨⟩; decide
  | case4 =>
    unfold literal literalShape
    split
    · rintro ⟨⟩
    · rintro ⟨⟩
      split <;> decide
  | case5 => exact symbol_kind_ne

theorem kind?_of_mem_ofText {cs : List Char} {l : Lexeme} {k : Token.Kind} (hl : l ∈ ofText cs)
    (hk : l.kind? = some k) : k ≠ .eof ∧ (k = .error → l.fault? ≠ none) := by
  fun_induction ofText cs with
  | case1 => cases hl
  | case2 c cs ih =>
    rcases List.mem_cons.1 hl with rfl | hl
    · unfold kind? at hk
      unfold fault?
      split at hk
      · next he =>
        obtain rfl := Option.some.inj hk
        obtain ⟨herror, heof⟩ := first_kind_ne he
        exact ⟨heof, fun h ↦ absurd h herror⟩
      · cases hk
      · next he =>
        obtain rfl := Option.some.inj hk
        simp [he]
      · cases hk
    · exact ih hl

end Lexeme

theorem byteSize_flatMap_cons (l : Lexeme) (ls : List Lexeme) :
    byteSize ((l :: ls).flatMap Lexeme.text) =
      byteSize l.text + byteSize (ls.flatMap Lexeme.text) := by
  rw [List.flatMap_cons, byteSize_append]

variable {file : FileId} {pos : Nat} {ls : List Lexeme}

theorem Token.exists_lexeme_of_mem_place {lead : List Char} {t : Token}
    (ht : t ∈ place file pos lead ls) :
    ∃ ls₁ l ls₂, ls = ls₁ ++ l :: ls₂ ∧ l.kind? = some t.kind ∧ l.text = t.text ∧
      t.span = .ofNat file (pos + byteSize (ls₁.flatMap Lexeme.text))
        (pos + byteSize (ls₁.flatMap Lexeme.text) + byteSize t.text) := by
  induction ls generalizing pos lead with
  | nil => cases ht
  | cons l ls ih =>
    have hlater {lead : List Char} (ht : t ∈ place file (pos + byteSize l.text) lead ls) :
        ∃ ls₁ l' ls₂, l :: ls = ls₁ ++ l' :: ls₂ ∧ l'.kind? = some t.kind ∧ l'.text = t.text ∧
          t.span = .ofNat file (pos + byteSize (ls₁.flatMap Lexeme.text))
            (pos + byteSize (ls₁.flatMap Lexeme.text) + byteSize t.text) := by
      obtain ⟨ls₁, l', ls₂, rfl, hk, htext, hspan⟩ := ih ht
      refine ⟨l :: ls₁, l', ls₂, rfl, hk, htext, ?_⟩
      rw [byteSize_flatMap_cons, ← Nat.add_assoc]
      exact hspan
    rw [place] at ht
    cases hk : l.kind? with
    | none =>
      rw [hk] at ht
      exact hlater ht
    | some k =>
      rw [hk] at ht
      rcases List.mem_cons.1 ht with rfl | ht
      · exact ⟨[], l, ls, rfl, hk, rfl, rfl⟩
      · exact hlater ht

theorem fault?_of_faultReports_eq_nil (h : faultReports file pos ls = []) {l : Lexeme}
    (hl : l ∈ ls) : l.fault? = none := by
  induction ls generalizing pos with
  | nil => cases hl
  | cons l' ls ih =>
    rw [faultReports] at h
    split at h
    · cases h
    · next hf =>
      rcases List.mem_cons.1 hl with rfl | hl
      · exact hf
      · exact ih h hl

theorem severity_of_mem_faultReports {r : Report} (hr : r ∈ faultReports file pos ls) :
    r.severity = .error := by
  induction ls generalizing pos with
  | nil => cases hr
  | cons l ls ih =>
    rw [faultReports] at hr
    split at hr
    · rcases List.mem_cons.1 hr with rfl | hr
      · rfl
      · exact ih hr
    · exact ih hr

theorem code_of_mem_faultReports {r : Report} (hr : r ∈ faultReports file pos ls) :
    r.code = .lexical := by
  induction ls generalizing pos with
  | nil => cases hr
  | cons l ls ih =>
    rw [faultReports] at hr
    split at hr
    · rcases List.mem_cons.1 hr with rfl | hr
      · rfl
      · exact ih hr
    · exact ih hr

theorem within_of_mem_faultReports (hs : pos + byteSize (ls.flatMap Lexeme.text) < UInt32.size)
    {r : Report} (hr : r ∈ faultReports file pos ls) :
    r.span.Within pos (pos + byteSize (ls.flatMap Lexeme.text)) := by
  induction ls generalizing pos with
  | nil => cases hr
  | cons l ls ih =>
    rw [byteSize_flatMap_cons] at hs ⊢
    have htail (h : r ∈ faultReports file (pos + byteSize l.text) ls) :=
      (ih (by omega) h).mono (Nat.le_add_right ..) (Nat.le_of_eq (Nat.add_assoc ..))
    rw [faultReports] at hr
    split at hr
    · rcases List.mem_cons.1 hr with rfl | hr
      · exact (Span.within_ofNat (Nat.le_add_right ..) (by omega)).mono (Nat.le_refl _) (by omega)
      · exact htail hr
    · exact htail hr

theorem pairwise_faultReports (hs : pos + byteSize (ls.flatMap Lexeme.text) < UInt32.size) :
    (faultReports file pos ls).Pairwise fun a b ↦ a.span.stop ≤ b.span.start := by
  induction ls generalizing pos with
  | nil => exact .nil
  | cons l ls ih =>
    rw [byteSize_flatMap_cons] at hs
    have htail : (faultReports file (pos + byteSize l.text) ls).Pairwise _ := ih (by omega)
    rw [faultReports]
    split
    · refine .cons (fun r hr ↦ ?_) htail
      have hlo := (within_of_mem_faultReports (by omega) hr).lo_le
      refine UInt32.le_iff_toNat_le.2 ?_
      rwa [Report.error, Span.toNat_stop_ofNat (by omega)]
    · exact htail

end ClassModel
