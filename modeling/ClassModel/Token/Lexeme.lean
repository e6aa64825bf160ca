import ClassModel.Text.Blank
import ClassModel.Text.Letter
import ClassModel.Text.Numeral
import ClassModel.Token.Kind

namespace ClassModel

def isNameStart (c : Char) : Bool := isLetter c || c == '_' || c == '$'

def isNameChar (c : Char) : Bool := isNameStart c || isNumeral c

inductive Fault
  | strayCharacter
  | openString
  | openCharacter
  | brokenLiteral
  | openComment
  deriving DecidableEq, Repr

def Fault.message : Fault → String
  | strayCharacter => "unexpected character"
  | openString => "unterminated string literal"
  | openCharacter => "unterminated character literal"
  | brokenLiteral => "line break in literal"
  | openComment => "unterminated block comment"

/-- A stretch of text that is no token, a token, or neither. -/
inductive Lexeme.Shape
  | blank
  | lineComment
  | blockComment
  | token (kind : Token.Kind)
  | faulty (fault : Fault)
  deriving DecidableEq, Repr

structure Lexeme where
  shape : Lexeme.Shape
  text : List Char
  deriving DecidableEq, Repr

namespace Lexeme

/-- The kind of the token that a lexeme makes. A faulty lexeme makes a token too, except for a
comment. -/
def kind? (l : Lexeme) : Option Token.Kind :=
  match l.shape with
  | .token k => some k
  | .faulty .openComment => none
  | .faulty _ => some .error
  | _ => none

def fault? (l : Lexeme) : Option Fault :=
  match l.shape with
  | .faulty f => some f
  | _ => none

@[simp] def pass {α : Type} (c : Char) (r : List Char × α) : List Char × α := (c :: r.1, r.2)

def numberRest : List Char → List Char × List Char
  | [] => ([], [])
  | c :: cs =>
    if c.isAlphanum || c == '_' || (c == '.' && cs.head?.any Char.isDigit) then
      pass c (numberRest cs)
    else ([], c :: cs)

/-- The rest of a literal from behind its opening quote `q`, how it ends, and what follows it. The
character after a backslash is passed over. -/
def quotedRest (q : Char) : List Char → List Char × Option Fault × List Char
  | [] => ([], some (if q = '"' then .openString else .openCharacter), [])
  | ['\\'] => (['\\'], some (if q = '"' then .openString else .openCharacter), [])
  | '\\' :: d :: cs => pass '\\' (pass d (quotedRest q cs))
  | c :: cs =>
    if c = '\n' then ([c], some .brokenLiteral, cs)
    else if c = q then ([c], none, cs)
    else pass c (quotedRest q cs)

def commentRest : List Char → Option (List Char × List Char)
  | [] => none
  | '*' :: '/' :: cs => some (['*', '/'], cs)
  | c :: cs => (commentRest cs).map (pass c)

def symbol : Char → List Char → Lexeme × List Char
  | '/', '/' :: cs =>
    (⟨.lineComment, '/' :: '/' :: cs.takeWhile (· ≠ '\n')⟩, cs.dropWhile (· ≠ '\n'))
  | '/', '*' :: cs =>
    match commentRest cs with
    | some r => (⟨.blockComment, '/' :: '*' :: r.1⟩, r.2)
    | none => (⟨.faulty .openComment, '/' :: '*' :: cs⟩, [])
  | '.', '.' :: '.' :: cs => (⟨.token .ellipsis, ['.', '.', '.']⟩, cs)
  | c, cs =>
    match Token.Kind.ofPunctuation? c with
    | some k => (⟨.token k, [c]⟩, cs)
    | none => (⟨.faulty .strayCharacter, [c]⟩, cs)

def word (text : List Char) : Lexeme := ⟨.token (.ofName (String.ofList text)), text⟩

def literalShape (q : Char) : Option Fault → Shape
  | some f => .faulty f
  | none => .token (if q = '"' then .string else .character)

def literal (q : Char) (r : List Char × Option Fault × List Char) : Lexeme × List Char :=
  (⟨literalShape q r.2.1, q :: r.1⟩, r.2.2)

def number (c : Char) (r : List Char × List Char) : Lexeme × List Char :=
  (⟨.token .number, c :: r.1⟩, r.2)

def first (c : Char) (cs : List Char) : Lexeme × List Char :=
  if isBlank c then (⟨.blank, c :: cs.takeWhile isBlank⟩, cs.dropWhile isBlank)
  else if isNameStart c then (word (c :: cs.takeWhile isNameChar), cs.dropWhile isNameChar)
  else if c.isDigit then number c (numberRest cs)
  else if c = '"' ∨ c = '\'' then literal c (quotedRest c cs)
  else symbol c cs

theorem numberRest_append (cs : List Char) : (numberRest cs).1 ++ (numberRest cs).2 = cs := by
  induction cs with
  | nil => rfl
  | cons c cs ih =>
    rw [numberRest]
    split
    · simp [ih]
    · rfl

theorem quotedRest_append (q : Char) (cs : List Char) :
    (quotedRest q cs).1 ++ (quotedRest q cs).2.2 = cs := by
  fun_induction quotedRest q cs <;> simp_all

theorem commentRest_append {cs : List Char} {r : List Char × List Char}
    (h : commentRest cs = some r) : r.1 ++ r.2 = cs := by
  fun_induction commentRest cs generalizing r with
  | case1 => simp at h
  | case2 => simp at h; subst h; rfl
  | case3 c cs _ ih =>
    obtain ⟨s, hs, rfl⟩ := Option.map_eq_some_iff.1 h
    simp [ih hs]

theorem symbol_append (c : Char) (cs : List Char) :
    (symbol c cs).1.text ++ (symbol c cs).2 = c :: cs := by
  fun_cases symbol c cs with
  | case2 cs r h => simp [commentRest_append h]
  | _ => simp_all [List.takeWhile_append_dropWhile]

theorem first_append (c : Char) (cs : List Char) :
    (first c cs).1.text ++ (first c cs).2 = c :: cs := by
  fun_cases first c cs <;>
    simp [word, literal, number, List.takeWhile_append_dropWhile, numberRest_append,
      quotedRest_append, symbol_append]

theorem symbol_text_ne_nil (c : Char) (cs : List Char) : (symbol c cs).1.text ≠ [] := by
  fun_cases symbol c cs <;> simp_all

theorem first_text_ne_nil (c : Char) (cs : List Char) : (first c cs).1.text ≠ [] := by
  fun_cases first c cs <;> simp [word, literal, number, symbol_text_ne_nil]

theorem first_shortens (c : Char) (cs : List Char) : (first c cs).2.length < cs.length + 1 := by
  have h := congrArg List.length (first_append c cs)
  have h' := List.length_pos_iff.2 (first_text_ne_nil c cs)
  simp only [List.length_append, List.length_cons] at h
  omega

def ofText : List Char → List Lexeme
  | [] => []
  | c :: cs => (first c cs).1 :: ofText (first c cs).2
termination_by cs => cs.length
decreasing_by exact first_shortens c cs

theorem ofText_cons (c : Char) (cs : List Char) :
    ofText (c :: cs) = (first c cs).1 :: ofText (first c cs).2 := by
  rw [ofText]

theorem flatMap_text_ofText (cs : List Char) : (ofText cs).flatMap text = cs := by
  fun_induction ofText cs with
  | case1 => rfl
  | case2 c cs ih => rw [List.flatMap_cons, ih, first_append]

end Lexeme

end ClassModel
