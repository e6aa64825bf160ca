namespace ClassModel

abbrev FileId := UInt32

/-- Bytes from `start` up to and without `stop` of one file. -/
structure Span where
  file : FileId
  start : UInt32
  stop : UInt32
  deriving DecidableEq, Repr, Inhabited

namespace Span

def dummy : Span := ⟨0xffffffff, 0, 0⟩

def cover (a b : Span) : Span :=
  ⟨a.file, min a.start b.start, max a.stop b.stop⟩

/-- Spans of different files have no common span. -/
def merge (a b : Span) : Option Span :=
  if a.file = b.file then some (a.cover b) else none

theorem merge_of_file_eq {a b : Span} (h : a.file = b.file) : a.merge b = some (a.cover b) :=
  if_pos h

end Span

end ClassModel
