import ClassModel.Report.Basic

namespace ClassModel

structure Log where
  reports : List Report
  errors : Nat
  deriving DecidableEq, Repr

namespace Log

def empty : Log := ⟨[], 0⟩

def emit (l : Log) (r : Report) : Log :=
  ⟨l.reports ++ [r], if r.isError then l.errors + 1 else l.errors⟩

def emitAll (l : Log) (rs : List Report) : Log :=
  rs.foldl emit l

def hasErrors (l : Log) : Bool := 0 < l.errors

def take (l : Log) : List Report × Log :=
  (l.reports, { l with reports := [] })

@[simp] theorem reports_emitAll (l : Log) (rs : List Report) :
    (l.emitAll rs).reports = l.reports ++ rs := by
  induction rs generalizing l with
  | nil => simp [emitAll]
  | cons r rs ih => simpa [emitAll, emit] using ih (l.emit r)

@[simp] theorem errors_emitAll (l : Log) (rs : List Report) :
    (l.emitAll rs).errors = l.errors + rs.countP Report.isError := by
  induction rs generalizing l with
  | nil => simp [emitAll]
  | cons r rs ih =>
    have h := ih (l.emit r)
    simp only [emitAll, List.foldl_cons, List.countP_cons] at h ⊢
    rw [h]
    simp only [emit]
    split <;> omega

@[simp] theorem errors_take (l : Log) : l.take.2.errors = l.errors := rfl

end Log

end ClassModel
