import ClassModel.Toml.Node
import ClassModel.Toml.Text

namespace ClassModel.Toml

def isBinDigit (c : Char) : Bool := c == '0' || c == '1'

def isOctDigit (c : Char) : Bool := '0' ≤ c && c ≤ '7'

def moreDigits (p : Char → Bool) : Chars → Option (List Char × Chars)
  | [] => some ([], [])
  | ['_'] => none
  | '_' :: d :: cs => if p d then push d (moreDigits p cs) else none
  | d :: cs => if p d then push d (moreDigits p cs) else some ([], d :: cs)

def digits (p : Char → Bool) : Chars → Option (List Char × Chars)
  | d :: cs => if p d then push d (moreDigits p cs) else none
  | [] => none

def plainDigits : Chars → Option (List Char × Chars)
  | '0' :: cs => some (['0'], cs)
  | cs => digits Char.isDigit cs

def integer (n : Int) : Option Node :=
  if Int64.minValue.toInt ≤ n ∧ n ≤ Int64.maxValue.toInt then some (.integer n) else none

def radixInteger (radix : Nat) (p : Char → Bool) (cs : Chars) : Option (Node × Chars) := do
  let (ds, cs) ← digits p cs
  some (← integer (valueOf radix ds), cs)

/-- Numbers from here on have no finite value with 53 bits of precision and an 11-bit exponent. -/
def floatBound : Nat := Nat.pow 2 1024 - Nat.pow 2 970

/-- Whether `m * 10 ^ e` is below the bound of floats. Far from it the numbers of digits decide. -/
def isFinite (m : Nat) (e : Int) : Bool :=
  let size : Int := (toString m).length + e
  if m = 0 ∨ size < 300 then true
  else if 320 < size then false
  else if 0 ≤ e then m * Nat.pow 10 e.toNat < floatBound
  else m < floatBound * Nat.pow 10 (-e).toNat

def fraction : Chars → Option (List Char × Chars)
  | '.' :: cs => digits Char.isDigit cs
  | cs => some ([], cs)

def exponent : Chars → Option (Int × Chars)
  | c :: cs =>
    if c == 'e' || c == 'E' then
      match cs with
      | '-' :: cs => (digits Char.isDigit cs).map fun r ↦ (-(valueOf 10 r.1 : Int), r.2)
      | '+' :: cs => (digits Char.isDigit cs).map fun r ↦ ((valueOf 10 r.1 : Int), r.2)
      | cs => (digits Char.isDigit cs).map fun r ↦ ((valueOf 10 r.1 : Int), r.2)
    else some (0, c :: cs)
  | [] => some (0, [])

def unsigned (negative : Bool) : Chars → Option (Node × Chars)
  | 'i' :: 'n' :: 'f' :: cs => some (.float, cs)
  | 'n' :: 'a' :: 'n' :: cs => some (.float, cs)
  | cs => do
    let (ds, rest) ← plainDigits cs
    let (fs, rest') ← fraction rest
    let (e, rest'') ← exponent rest'
    if rest''.length = rest.length then
      let n : Int := valueOf 10 ds
      some (← integer (if negative then -n else n), rest)
    else if negative || isFinite (valueOf 10 (ds ++ fs)) (e - fs.length) then
      some (.float, rest'')
    else none

def twoDigits (lo hi : Nat) : Chars → Option (Nat × Chars)
  | a :: b :: cs =>
    let n := valueOf 10 [a, b]
    if a.isDigit && b.isDigit && lo ≤ n && n ≤ hi then some (n, cs) else none
  | _ => none

def symbol (c : Char) : Chars → Option Chars
  | d :: cs => if c = d then some cs else none
  | [] => none

def daysIn (year month : Nat) : Nat :=
  if month = 2 then
    if year % 4 = 0 ∧ (year % 100 ≠ 0 ∨ year % 400 = 0) then 29 else 28
  else if month = 4 ∨ month = 6 ∨ month = 9 ∨ month = 11 then 30
  else 31

def dateRest (year : Nat) (cs : Chars) : Option Chars := do
  let (month, cs) ← twoDigits 1 12 (← symbol '-' cs)
  let (_, cs) ← twoDigits 1 (daysIn year month) (← symbol '-' cs)
  some cs

/-- The rest of a time behind its hour. The second 60 is there for leap seconds. -/
def timeRest (cs : Chars) : Option Chars := do
  let (_, cs) ← twoDigits 0 59 (← symbol ':' cs)
  let (_, cs) ← twoDigits 0 60 (← symbol ':' cs)
  match cs with
  | '.' :: d :: rest => if d.isDigit then some (rest.dropWhile Char.isDigit) else some cs
  | _ => some cs

def offsetRest : Chars → Option Chars
  | [] => some []
  | c :: cs =>
    if c == 'Z' || c == 'z' then some cs
    else if c == '+' || c == '-' then do
      let (_, cs) ← twoDigits 0 23 cs
      let (_, cs) ← twoDigits 0 59 (← symbol ':' cs)
      some cs
    else some (c :: cs)

def clockRest (cs : Chars) : Option Chars :=
  match cs with
  | c :: rest =>
    if c == 'T' || c == 't' || c == ' ' then
      match twoDigits 0 23 rest with
      | some (_, ':' :: rest) => do offsetRest (← timeRest (':' :: rest))
      | _ => some cs
    else some cs
  | [] => some []

/-- A number or a time. Four digits and a hyphen begin a date, two and a colon a time. -/
def number (cs : Chars) : Option (Node × Chars) :=
  match cs with
  | a :: b :: c :: d :: '-' :: rest =>
    if [a, b, c, d].all Char.isDigit then do
      some (.datetime, ← clockRest (← dateRest (valueOf 10 [a, b, c, d]) ('-' :: rest)))
    else signed cs
  | a :: b :: ':' :: rest =>
    if a.isDigit && b.isDigit then do
      let (_, rest) ← twoDigits 0 23 (a :: b :: ':' :: rest)
      some (.datetime, ← timeRest rest)
    else signed cs
  | _ => signed cs
where
  signed : Chars → Option (Node × Chars)
    | '0' :: 'x' :: cs => radixInteger 16 isHexDigit cs
    | '0' :: 'o' :: cs => radixInteger 8 isOctDigit cs
    | '0' :: 'b' :: cs => radixInteger 2 isBinDigit cs
    | '+' :: cs => unsigned false cs
    | '-' :: cs => unsigned true cs
    | cs => unsigned false cs

end ClassModel.Toml
