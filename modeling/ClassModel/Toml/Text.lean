namespace ClassModel.Toml

abbrev Chars := List Char

def isSpace (c : Char) : Bool := c == ' ' || c == '\t'

def isPrintable (c : Char) : Bool :=
  c == '\t' || (' ' ≤ c && c ≤ '~') || '\x80' ≤ c

def skipSpaces (cs : Chars) : Chars := cs.dropWhile isSpace

def newline? : Chars → Option Chars
  | '\n' :: cs => some cs
  | '\r' :: '\n' :: cs => some cs
  | _ => none

def skipComment (cs : Chars) : Chars := cs.dropWhile isPrintable

def lineEnd? (cs : Chars) : Option Chars :=
  let cs :=
    match skipSpaces cs with
    | '#' :: cs => skipComment cs
    | cs => cs
  if cs.isEmpty then some [] else newline? cs

def skipLines (inComment : Bool) : Chars → Option Chars
  | [] => if inComment then none else some []
  | '\n' :: cs => skipLines false cs
  | '\r' :: '\n' :: cs => skipLines false cs
  | c :: cs =>
    if inComment then
      if isPrintable c then skipLines true cs else none
    else if isSpace c then skipLines false cs
    else if c == '#' then skipLines true cs
    else some (c :: cs)

def hexDigit? (c : Char) : Option Nat :=
  if '0' ≤ c && c ≤ '9' then some (c.toNat - '0'.toNat)
  else if 'a' ≤ c && c ≤ 'f' then some (c.toNat - 'a'.toNat + 10)
  else if 'A' ≤ c && c ≤ 'F' then some (c.toNat - 'A'.toNat + 10)
  else none

def valueOf (radix : Nat) (ds : List Char) : Nat :=
  ds.foldl (fun n d ↦ n * radix + (hexDigit? d).getD 0) 0

def isHexDigit (c : Char) : Bool := (hexDigit? c).isSome

def hexChar? (ds : List Char) : Option Char :=
  let n := valueOf 16 ds
  if ds.all isHexDigit && decide n.isValidChar then some (Char.ofNat n) else none

def shortEscape? : Char → Option Char
  | 'b' => some '\x08'
  | 'f' => some '\x0c'
  | 'n' => some '\n'
  | 'r' => some '\r'
  | 't' => some '\t'
  | '\\' => some '\\'
  | '"' => some '"'
  | _ => none

def push (c : Char) (r : Option (List Char × Chars)) : Option (List Char × Chars) :=
  r.map fun p ↦ (c :: p.1, p.2)

def basicRest : Chars → Option (List Char × Chars)
  | [] => none
  | '"' :: cs => some ([], cs)
  | '\\' :: 'u' :: a :: b :: c :: d :: cs => do
    push (← hexChar? [a, b, c, d]) (basicRest cs)
  | '\\' :: 'U' :: a :: b :: c :: d :: e :: f :: g :: h :: cs => do
    push (← hexChar? [a, b, c, d, e, f, g, h]) (basicRest cs)
  | '\\' :: e :: cs => do
    push (← shortEscape? e) (basicRest cs)
  | c :: cs => if isPrintable c && c != '\\' then push c (basicRest cs) else none

def literalRest : Chars → Option (List Char × Chars)
  | [] => none
  | '\'' :: cs => some ([], cs)
  | c :: cs => if isPrintable c then push c (literalRest cs) else none

/-- The rest of a string in three double quotes; two more may stand before the closing ones. A
backslash at the end of a line takes away all blanks and line breaks up to the next other
character, which is what `trimming` does. -/
def longBasicRest (trimming : Bool) : Chars → Option (List Char × Chars)
  | [] => none
  | '"' :: '"' :: '"' :: '"' :: '"' :: cs => some (['"', '"'], cs)
  | '"' :: '"' :: '"' :: '"' :: cs => some (['"'], cs)
  | '"' :: '"' :: '"' :: cs => some ([], cs)
  | '\n' :: cs => if trimming then longBasicRest true cs else push '\n' (longBasicRest false cs)
  | '\r' :: '\n' :: cs =>
    if trimming then longBasicRest true cs else push '\n' (longBasicRest false cs)
  | '\\' :: 'u' :: a :: b :: c :: d :: cs => do
    push (← hexChar? [a, b, c, d]) (longBasicRest false cs)
  | '\\' :: 'U' :: a :: b :: c :: d :: e :: f :: g :: h :: cs => do
    push (← hexChar? [a, b, c, d, e, f, g, h]) (longBasicRest false cs)
  | '\\' :: e :: cs =>
    if (newline? (skipSpaces (e :: cs))).isSome then longBasicRest true (e :: cs)
    else do
      push (← shortEscape? e) (longBasicRest false cs)
  | c :: cs =>
    if trimming && isSpace c then longBasicRest true cs
    else if isPrintable c && c != '\\' then push c (longBasicRest false cs)
    else none

def longLiteralRest : Chars → Option (List Char × Chars)
  | [] => none
  | '\'' :: '\'' :: '\'' :: '\'' :: '\'' :: cs => some (['\'', '\''], cs)
  | '\'' :: '\'' :: '\'' :: '\'' :: cs => some (['\''], cs)
  | '\'' :: '\'' :: '\'' :: cs => some ([], cs)
  | '\n' :: cs => push '\n' (longLiteralRest cs)
  | '\r' :: '\n' :: cs => push '\n' (longLiteralRest cs)
  | c :: cs => if isPrintable c then push c (longLiteralRest cs) else none

def skipNewline (cs : Chars) : Chars := (newline? cs).getD cs

def string? : Chars → Option (List Char × Chars)
  | '"' :: '"' :: '"' :: cs => longBasicRest false (skipNewline cs)
  | '"' :: cs => basicRest cs
  | '\'' :: '\'' :: '\'' :: cs => longLiteralRest (skipNewline cs)
  | '\'' :: cs => literalRest cs
  | _ => none

def isBareKeyChar (c : Char) : Bool := c.isAlphanum || c == '-' || c == '_'

def simpleKey? : Chars → Option (List Char × Chars)
  | '"' :: cs => basicRest cs
  | '\'' :: cs => literalRest cs
  | cs =>
    let k := cs.takeWhile isBareKeyChar
    if k.isEmpty then none else some (k, cs.dropWhile isBareKeyChar)

def keyParts? : Nat → Chars → Option (List String × Chars)
  | 0, _ => none
  | fuel + 1, cs => do
    let (k, cs) ← simpleKey? (skipSpaces cs)
    match skipSpaces cs with
    | '.' :: cs =>
      let (ks, cs) ← keyParts? fuel cs
      some (String.ofList k :: ks, cs)
    | cs => some ([String.ofList k], cs)

/-- Nothing may be nested deeper than this. -/
def maxDepth : Nat := 79

def key? (cs : Chars) : Option ((List String × String) × Chars) := do
  let (ks, cs) ← keyParts? maxDepth cs
  some ((ks.dropLast, ← ks.getLast?), cs)

end ClassModel.Toml
