import ClassModel.Proofs.Reading.Completeness
import ClassModel.Proofs.Token.Places

namespace ClassModel

theorem Grammar.outline_iff {ctx : Context} {o : Outline} {ws : List Word} :
    outline ctx ws = .ok o ↔ Spelling.Declaration ctx o ws :=
  ⟨outline_sound, outline_complete⟩

/-- Words do not spell two declarations. -/
theorem Spelling.Declaration.unique {ctx : Context} {o o' : Outline} {ws : List Word}
    (h : Declaration ctx o ws) (h' : Declaration ctx o' ws) : o = o' := by
  have ho := Grammar.outline_iff.2 h
  have ho' := Grammar.outline_iff.2 h'
  exact Except.ok.inj (ho.symm.trans ho')

namespace Scan

theorem reports_eq_nil_iff {file : FileId} {cs : List Char} :
    (ofText file cs).reports = [] ↔ ∀ r ∈ (ofText file cs).reports, r.code ≠ .lexical := by
  constructor
  · intro h r hr
    rw [h] at hr
    cases hr
  · intro h
    exact List.eq_nil_iff_forall_not_mem.2 fun r hr ↦ h r hr (code_of_mem_faultReports hr)

theorem read_eq {s : Scan} {ctx : Context} {o : Outline} (hr : s.reports = [])
    (ho : Spelling.Declaration ctx o s.words) : s.read ctx = ⟨.ok (s.method o), []⟩ := by
  rw [read, Grammar.outline_iff.2 ho, hr]

theorem read_result_iff {s : Scan} {ctx : Context} {m : Method} :
    (s.read ctx).result = .ok m ↔
      s.reports = [] ∧ ∃ o, Spelling.Declaration ctx o s.words ∧ m = s.method o := by
  constructor
  · intro h
    unfold read at h
    split at h
    · next o ho =>
      split at h
      · next hr => exact ⟨hr, o, Grammar.outline_iff.1 ho, (Except.ok.inj h).symm⟩
      · cases h
    · split at h <;> cases h
  · rintro ⟨hr, o, ho, rfl⟩
    rw [read_eq hr ho]

end Scan

/-- A text is a declaration iff none of its tokens is faulty and its words are spelled as one. -/
theorem accepted_iff (file : FileId) (ctx : Context) (text : String) :
    (∃ m, (readMethod file ctx text).result = .ok m) ↔
      (∀ r ∈ (Scan.ofText file text.toList).reports, r.code ≠ .lexical) ∧
        ∃ o, Spelling.Declaration ctx o (Scan.ofText file text.toList).words := by
  rw [← Scan.reports_eq_nil_iff]
  constructor
  · rintro ⟨m, h⟩
    obtain ⟨hr, o, ho, -⟩ := Scan.read_result_iff.1 h
    exact ⟨hr, o, ho⟩
  · rintro ⟨hr, o, ho⟩
    exact ⟨_, Scan.read_result_iff.2 ⟨hr, o, ho, rfl⟩⟩

end ClassModel
