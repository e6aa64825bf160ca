import ClassModel.Proofs.Report.Form
import ClassModel.Report.Json

namespace ClassModel

open Json

/-- Reading several values, none of which decides how another is read, fails if one of them does. -/
theorem bind_eq_none_or {α β : Type} {o : Option α} {g : α → Option β} {p : Prop}
    (h : ∀ a, g a = none ↔ p) : (o >>= g) = none ↔ o = none ∨ p := by
  cases o with
  | none => simp
  | some a => simpa using h a

theorem means_word {j : Json} {w : UInt32} (h : readWord? j = some w) :
    Form.Means (.number UInt32.size) j (writeWord w) := by
  obtain ⟨n, hn, rfl⟩ := Option.map_eq_some_iff.1 h
  rw [writeWord, UInt32.toNat_ofNat_of_lt' (natBelow?_eq_some_iff.1 hn).1]
  exact means_number hn

theorem readWord?_eq_none_iff {j : Json} :
    readWord? j = none ↔ Form.Flawed (.number UInt32.size) j := by
  rw [readWord?, Option.map_eq_none_iff, natBelow?_eq_none_iff]

namespace Span

def form : Form :=
  .record [("file", .number UInt32.size), ("start", .number UInt32.size),
    ("end", .number UInt32.size)]

theorem ofJson?_eq_none_iff {j : Json} : ofJson? j = none ↔ form.Flawed j := by
  rw [form, flawed_record_iff, ofJson?]
  dsimp only [List.map]
  cases hvs : j.record? ["file", "start", "end"] with
  | none => simp
  | some vs =>
    obtain ⟨f, s, e, rfl⟩ := List.length_eq_three.1 (length_of_record? hvs)
    simp only [Option.some.injEq, forall_eq', List.zip_cons_cons, List.zip_nil_left,
      List.exists_mem_cons_iff, ← readWord?_eq_none_iff]
    refine bind_eq_none_or fun _ ↦ bind_eq_none_or fun _ ↦ bind_eq_none_or fun _ ↦ ?_
    simp

theorem means_of_ofJson? {j : Json} {s : Span} (h : ofJson? j = some s) :
    form.Means j s.toJson := by
  unfold ofJson? at h
  split at h
  · next f b e hvs =>
    simp only [Option.bind_eq_bind, Option.bind_eq_some_iff, Option.pure_def,
      Option.some.injEq] at h
    obtain ⟨f', hf, b', hb, e', he, rfl⟩ := h
    refine means_record [writeWord f', writeWord b', writeWord e'] hvs rfl ?_
    simp only [List.zip_cons_cons, List.zip_nil_left, List.forall_mem_cons]
    exact ⟨means_word hf, means_word hb, means_word he, by simp⟩
  · cases h

end Span

namespace Severity

def form : Form := .name [warning.text, error.text]

theorem ofJson?_eq_none_iff {j : Json} : ofJson? j = none ↔ form.Flawed j := by
  refine tag?_bind_eq_none_iff fun s ↦ ?_
  unfold ofText?
  split <;> simp_all [text]

theorem means_of_ofJson? {j : Json} {s : Severity} (h : ofJson? j = some s) :
    form.Means j s.toJson := by
  obtain ⟨t, ht, hs⟩ := Option.bind_eq_some_iff.1 h
  obtain rfl : t = s.text := by
    unfold ofText? at hs
    split at hs
    · exact congrArg text (Option.some.inj hs)
    · exact congrArg text (Option.some.inj hs)
    · cases hs
  refine .name ?_ (tag?_eq_some_iff.1 ht)
  cases s <;> simp

end Severity

namespace Category

def form : Form := .name [error.name]

theorem ofJson?_eq_none_iff {j : Json} : ofJson? j = none ↔ form.Flawed j := by
  refine tag?_bind_eq_none_iff fun s ↦ ?_
  unfold ofName?
  split <;> simp_all [name]

theorem means_of_ofJson? {j : Json} {c : Category} (h : ofJson? j = some c) :
    form.Means j c.toJson := by
  obtain ⟨t, ht, hc⟩ := Option.bind_eq_some_iff.1 h
  obtain rfl : t = c.name := by
    unfold ofName? at hc
    split at hc <;> simp_all [name]
  refine .name ?_ (tag?_eq_some_iff.1 ht)
  cases c
  simp

end Category

namespace Code

def form : Form := .record [("category", Category.form), ("number", .number UInt16.size)]

theorem ofJson?_eq_none_iff {j : Json} : ofJson? j = none ↔ form.Flawed j := by
  rw [form, flawed_record_iff, ofJson?]
  dsimp only [List.map]
  cases hvs : j.record? ["category", "number"] with
  | none => simp
  | some vs =>
    obtain ⟨c, n, rfl⟩ := List.length_eq_two.1 (length_of_record? hvs)
    simp only [Option.some.injEq, forall_eq', List.zip_cons_cons, List.zip_nil_left,
      List.exists_mem_cons_iff, ← Category.ofJson?_eq_none_iff, ← natBelow?_eq_none_iff]
    refine bind_eq_none_or fun _ ↦ bind_eq_none_or fun _ ↦ ?_
    simp

theorem means_of_ofJson? {j : Json} {c : Code} (h : ofJson? j = some c) :
    form.Means j c.toJson := by
  unfold ofJson? at h
  split at h
  · next k n hvs =>
    simp only [Option.bind_eq_bind, Option.bind_eq_some_iff, Option.pure_def,
      Option.some.injEq] at h
    obtain ⟨k', hk, n', hn, rfl⟩ := h
    have hnumber : ofNat (UInt16.ofNat n').toNat = ofNat n' := by
      rw [UInt16.toNat_ofNat_of_lt' (natBelow?_eq_some_iff.1 hn).1]
    refine means_record [k'.toJson, ofNat (UInt16.ofNat n').toNat] hvs rfl ?_
    simp only [List.zip_cons_cons, List.zip_nil_left, List.forall_mem_cons, hnumber]
    exact ⟨Category.means_of_ofJson? hk, means_number hn, by simp⟩
  · cases h

end Code

namespace Label

def form : Form := .record [("span", Span.form), ("message", .text)]

theorem ofJson?_eq_none_iff {j : Json} : ofJson? j = none ↔ form.Flawed j := by
  rw [form, flawed_record_iff, ofJson?]
  dsimp only [List.map]
  cases hvs : j.record? ["span", "message"] with
  | none => simp
  | some vs =>
    obtain ⟨s, m, rfl⟩ := List.length_eq_two.1 (length_of_record? hvs)
    simp only [Option.some.injEq, forall_eq', List.zip_cons_cons, List.zip_nil_left,
      List.exists_mem_cons_iff, ← Span.ofJson?_eq_none_iff, ← string?_eq_none_iff]
    refine bind_eq_none_or fun _ ↦ bind_eq_none_or fun _ ↦ ?_
    simp

theorem means_of_ofJson? {j : Json} {l : Label} (h : ofJson? j = some l) :
    form.Means j l.toJson := by
  unfold ofJson? at h
  split at h
  · next s m hvs =>
    simp only [Option.bind_eq_bind, Option.bind_eq_some_iff, Option.pure_def,
      Option.some.injEq] at h
    obtain ⟨s', hs, m', hm, rfl⟩ := h
    refine means_record [s'.toJson, string m'] hvs rfl ?_
    simp only [List.zip_cons_cons, List.zip_nil_left, List.forall_mem_cons]
    exact ⟨Span.means_of_ofJson? hs, means_text hm, by simp⟩
  · cases h

end Label

namespace Report

def form : Form :=
  .record [("severity", Severity.form), ("code", Code.form), ("message", .text),
    ("primary_span", Span.form), ("labels", .list Label.form), ("notes", .list .text)]

theorem ofJson?_eq_none_iff {j : Json} : ofJson? j = none ↔ form.Flawed j := by
  rw [form, flawed_record_iff, ofJson?]
  dsimp only [List.map]
  cases hvs : j.record? ["severity", "code", "message", "primary_span", "labels", "notes"] with
  | none => simp
  | some vs =>
    match vs, length_of_record? hvs with
    | [s, c, m, p, ls, ns], _ =>
      simp only [Option.some.injEq, forall_eq', List.zip_cons_cons, List.zip_nil_left,
        List.exists_mem_cons_iff, ← Severity.ofJson?_eq_none_iff, ← Code.ofJson?_eq_none_iff,
        ← string?_eq_none_iff, ← Span.ofJson?_eq_none_iff,
        ← array?_mapM_eq_none_iff fun _ ↦ Label.ofJson?_eq_none_iff,
        ← array?_mapM_eq_none_iff fun _ ↦ string?_eq_none_iff, ← bind_assoc]
      refine bind_eq_none_or fun _ ↦ bind_eq_none_or fun _ ↦ bind_eq_none_or fun _ ↦
        bind_eq_none_or fun _ ↦ bind_eq_none_or fun _ ↦ bind_eq_none_or fun _ ↦ ?_
      simp

theorem means_of_ofJson? {j : Json} {r : Report} (h : ofJson? j = some r) :
    form.Means j r.toJson := by
  unfold ofJson? at h
  split at h
  · next s c m p ls ns hvs =>
    simp only [Option.bind_eq_bind, Option.bind_eq_some_iff, Option.pure_def,
      Option.some.injEq] at h
    obtain ⟨s', hs, c', hc, m', hm, p', hp, js, hjs, ls', hls, ts, hts, ns', hns, rfl⟩ := h
    refine means_record [s'.toJson, c'.toJson, string m', p'.toJson,
      array (ls'.map Label.toJson), array (ns'.map string)] hvs rfl ?_
    simp only [List.zip_cons_cons, List.zip_nil_left, List.forall_mem_cons]
    exact ⟨Severity.means_of_ofJson? hs, Code.means_of_ofJson? hc, means_text hm,
      Span.means_of_ofJson? hp, means_list (fun _ _ ↦ Label.means_of_ofJson?) hjs hls,
      means_list (fun _ _ ↦ means_text) hts hns, by simp⟩
  · cases h

theorem ofJson?_toJson (r : Report) : ofJson? r.toJson = some r := by
  have hlabels := mapM_map_of_inverse Label.ofJson?_toJson r.labels
  have hnotes := mapM_map_of_inverse (f := string) (g := string?) (fun _ ↦ rfl) r.notes
  simp [ofJson?, toJson, record?, sole?, Severity.ofJson?_toJson, Code.ofJson?_toJson,
    Span.ofJson?_toJson, string?, array?, hlabels, hnotes]

end Report

/-- A report is read back from its JSON as it was. JSON is a report iff it is not flawed, and the
report is then what it means, and is read back in turn. -/
theorem reports_survive_json :
    (∀ r : Report, Report.ofJson? r.toJson = some r) ∧
    (∀ j, Report.ofJson? j = none ↔ Report.form.Flawed j) ∧
    ∀ j r, Report.ofJson? j = some r →
      Report.form.Means j r.toJson ∧ Report.ofJson? r.toJson = some r :=
  ⟨Report.ofJson?_toJson, fun _ ↦ Report.ofJson?_eq_none_iff, fun _ r h ↦
    ⟨Report.means_of_ofJson? h, r.ofJson?_toJson⟩⟩

/-- A report with fields in another order, one that is not its own, arrays for records and an object
for a name. -/
theorem report_of_mixed_json :
    let j : Json := object [("notes", array [string "n"]), ("kind", null),
      ("severity", object [("error", null)]), ("code", array [string "Error", ofNat 65535]),
      ("labels", array [array [array [ofNat 0, ofNat 2, ofNat 1], string "l"]]),
      ("primary_span", object [("end", ofNat 0), ("file", ofNat 4294967295), ("start", ofNat 0)]),
      ("message", string "")]
    let r : Report := ⟨.error, ⟨.error, 65535⟩, "", .dummy, [⟨⟨0, 2, 1⟩, "l"⟩], ["n"]⟩
    Report.ofJson? j = some r ∧ Report.form.Means j r.toJson ∧
      Report.ofJson? r.toJson = some r := by
  intro j r
  have h : Report.ofJson? j = some r := by decide +kernel
  exact ⟨h, reports_survive_json.2.2 j r h⟩

end ClassModel
