import ClassModel.Json
import ClassModel.Report.Basic

namespace ClassModel

open Json

def readWord? (j : Json) : Option UInt32 :=
  (j.natBelow? UInt32.size).map UInt32.ofNat

def writeWord (w : UInt32) : Json := ofNat w.toNat

theorem readWord?_writeWord (w : UInt32) : readWord? (writeWord w) = some w := by
  simp [readWord?, writeWord, natBelow?_ofNat w.toNat_lt_size]

namespace Span

def toJson (s : Span) : Json :=
  object [("file", writeWord s.file), ("start", writeWord s.start), ("end", writeWord s.stop)]

def ofJson? (j : Json) : Option Span :=
  match j.record? ["file", "start", "end"] with
  | some [f, s, e] => do return ⟨← readWord? f, ← readWord? s, ← readWord? e⟩
  | _ => none

theorem ofJson?_toJson (s : Span) : ofJson? s.toJson = some s := by
  simp [ofJson?, toJson, record?, sole?, readWord?_writeWord]

end Span

namespace Severity

def toJson (s : Severity) : Json := string s.text

def ofJson? (j : Json) : Option Severity := j.tag? >>= ofText?

theorem ofJson?_toJson (s : Severity) : ofJson? s.toJson = some s := by
  simp [ofJson?, toJson, tag?]

end Severity

namespace Category

def toJson (c : Category) : Json := string c.name

def ofJson? (j : Json) : Option Category := j.tag? >>= ofName?

theorem ofJson?_toJson (c : Category) : ofJson? c.toJson = some c := by
  simp [ofJson?, toJson, tag?]

end Category

namespace Code

def toJson (c : Code) : Json :=
  object [("category", c.category.toJson), ("number", ofNat c.number.toNat)]

def ofJson? (j : Json) : Option Code :=
  match j.record? ["category", "number"] with
  | some [c, n] => do
    return ⟨← Category.ofJson? c, UInt16.ofNat (← n.natBelow? UInt16.size)⟩
  | _ => none

theorem ofJson?_toJson (c : Code) : ofJson? c.toJson = some c := by
  simp [ofJson?, toJson, record?, sole?, Category.ofJson?_toJson,
    natBelow?_ofNat c.number.toNat_lt_size]

end Code

namespace Label

def toJson (l : Label) : Json :=
  object [("span", l.span.toJson), ("message", string l.message)]

def ofJson? (j : Json) : Option Label :=
  match j.record? ["span", "message"] with
  | some [s, m] => do return ⟨← Span.ofJson? s, ← m.string?⟩
  | _ => none

theorem ofJson?_toJson (l : Label) : ofJson? l.toJson = some l := by
  simp [ofJson?, toJson, record?, sole?, Span.ofJson?_toJson, string?]

end Label

namespace Report

def toJson (r : Report) : Json :=
  object [("severity", r.severity.toJson), ("code", r.code.toJson), ("message", string r.message),
    ("primary_span", r.span.toJson), ("labels", array (r.labels.map Label.toJson)),
    ("notes", array (r.notes.map string))]

def ofJson? (j : Json) : Option Report :=
  match j.record? ["severity", "code", "message", "primary_span", "labels", "notes"] with
  | some [s, c, m, p, ls, ns] => do
    return ⟨← Severity.ofJson? s, ← Code.ofJson? c, ← m.string?, ← Span.ofJson? p,
      ← (← ls.array?).mapM Label.ofJson?, ← (← ns.array?).mapM string?⟩
  | _ => none

end Report

end ClassModel
