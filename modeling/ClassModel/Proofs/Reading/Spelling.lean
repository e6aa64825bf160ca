import ClassModel.Reading.Outline
import ClassModel.Reading.Grammar

namespace ClassModel.Spelling

inductive Name : String → List Word → Prop
  | single (s : String) : Name s [⟨.identifier, s⟩]
  | dotted (s d : String) {t : String} {ws : List Word} (h : Name t ws) :
    Name (s ++ "." ++ t) (⟨.identifier, s⟩ :: ⟨.dot, d⟩ :: ws)

inductive Dims : Nat → List Word → Prop
  | none : Dims 0 []
  | pair (l r : String) {n : Nat} {ws : List Word} (h : Dims n ws) :
    Dims (n + 1) (⟨.leftBracket, l⟩ :: ⟨.rightBracket, r⟩ :: ws)

inductive TypeName : TypeRef → List Word → Prop
  | mk {s : String} {n : Nat} {name dims : List Word} (hs : Name s name) (hn : Dims n dims) :
    TypeName ⟨s, n⟩ (name ++ dims)

def number (k : Token.Kind) (ws : List Word) : Nat := ws.countP (·.kind == k)

/-- Words from an opening one to the closing one that matches it, where only these two kinds
count. -/
inductive Pair (opening closing : Token.Kind) : List Word → Prop
  | mk (l r : String) {inner : List Word} (he : number closing inner = number opening inner)
      (hp : ∀ ws, ws <+: inner → number closing ws ≤ number opening ws) :
    Pair opening closing (⟨opening, l⟩ :: (inner ++ [⟨closing, r⟩]))

inductive Annotation : String → List Word → Prop
  | plain (a : String) {s : String} {name : List Word} (hs : Name s name) :
    Annotation s (⟨.atSign, a⟩ :: name)
  | applied (a : String) {s : String} {name args : List Word} (hs : Name s name)
      (ha : Pair .leftParen .rightParen args) :
    Annotation s (⟨.atSign, a⟩ :: (name ++ args))

inductive Items : Bool → List Modifier → List Word → Prop
  | none : Items false [] []
  | annotated {s : String} {d : Bool} {ms : List Modifier} {ws ws' : List Word}
      (ha : Annotation s ws) (h : Items d ms ws') :
    Items (Grammar.marksDeprecated s || d) ms (ws ++ ws')
  | modifier (m : Modifier) (t : String) {d : Bool} {ms : List Modifier} {ws : List Word}
      (h : Items d ms ws) : Items d (m :: ms) (⟨.modifier m, t⟩ :: ws)

inductive Head (ctx : Context) : Option TypeRef → String → List Word → Prop
  | constructor {s : String} (h : ctx.className = some s) : Head ctx none s [⟨.identifier, s⟩]
  | void (v s : String) : Head ctx (some ⟨"void", 0⟩) s [⟨.void, v⟩, ⟨.identifier, s⟩]
  | typed (s : String) {t : TypeRef} {ws : List Word} (h : TypeName t ws) :
    Head ctx (some t) s (ws ++ [⟨.identifier, s⟩])

inductive Annotations : List Word → Prop
  | none : Annotations []
  | cons {s : String} {ws ws' : List Word} (ha : Annotation s ws) (h : Annotations ws') :
    Annotations (ws ++ ws')

inductive Perhaps (k : Token.Kind) : List Word → Prop
  | absent : Perhaps k []
  | present (s : String) : Perhaps k [⟨k, s⟩]

inductive Parameter : Param × Bool → List Word → Prop
  | single (s : String) {t : TypeRef} {as f ws : List Word} (ha : Annotations as)
      (hf : Perhaps (.modifier .final) f) (ht : TypeName t ws) :
    Parameter (⟨t, s⟩, false) (as ++ (f ++ (ws ++ [⟨.identifier, s⟩])))
  | varargs (e s : String) {t : TypeRef} {as f ws : List Word} (ha : Annotations as)
      (hf : Perhaps (.modifier .final) f) (ht : TypeName t ws) :
    Parameter (⟨⟨t.name, t.dims + 1⟩, s⟩, true)
      (as ++ (f ++ (ws ++ [⟨.ellipsis, e⟩, ⟨.identifier, s⟩])))

inductive Separated {α : Type} (item : α → List Word → Prop) : List α → List Word → Prop
  | last {a : α} {ws : List Word} (h : item a ws) : Separated item [a] ws
  | cons (c : String) {a : α} {as : List α} {ws ws' : List Word} (h : item a ws)
      (hs : Separated item as ws') : Separated item (a :: as) (ws ++ ⟨.comma, c⟩ :: ws')

inductive Parameters : List (Param × Bool) → List Word → Prop
  | none : Parameters [] []
  | some {ps : List (Param × Bool)} {ws : List Word} (h : Separated Parameter ps ws)
      (hv : ∀ p ∈ ps.dropLast, p.2 = false) : Parameters ps ws

inductive Throws : List TypeRef → List Word → Prop
  | none : Throws [] []
  | some (t : String) {ts : List TypeRef} {ws : List Word} (h : Separated TypeName ts ws) :
    Throws ts (⟨.throws, t⟩ :: ws)

def nesting (depth : Nat) (w : Word) : Nat :=
  match w.kind with
  | .leftParen | .leftBrace | .leftBracket => depth + 1
  | .rightParen | .rightBrace | .rightBracket => depth - 1
  | _ => depth

/-- A default value: words that close all their brackets, with no semicolon outside of brackets. -/
structure Value (ws : List Word) : Prop where
  ne_nil : ws ≠ []
  closed : ws.foldl nesting 0 = 0
  semicolon : ∀ ws₁ s ws₂, ws = ws₁ ++ ⟨.semicolon, s⟩ :: ws₂ → ws₁.foldl nesting 0 ≠ 0

/-- What ends a declaration, and its default value by the numbers of words from its start on and
from behind it on. -/
inductive Tail (isAnnotationMethod : Bool) : Option (Nat × Nat) → List Word → Prop
  | semicolon (s : String) : Tail isAnnotationMethod none [⟨.semicolon, s⟩]
  | body {ws : List Word} (h : Pair .leftBrace .rightBrace ws) : Tail isAnnotationMethod none ws
  | default (d s : String) {ws : List Word} (ha : isAnnotationMethod = true) (h : Value ws) :
    Tail isAnnotationMethod (some (ws.length + 1, 1))
      (⟨.modifier .default, d⟩ :: (ws ++ [⟨.semicolon, s⟩]))

inductive Declaration (ctx : Context) : Outline → List Word → Prop
  | mk (l r : String) {deprecated : Bool} {modifiers : List Modifier} {result : Option TypeRef}
      {name : String} {params : List (Param × Bool)} {throws : List TypeRef}
      {value : Option (Nat × Nat)} {items head ps ts tail : List Word}
      (hi : Items deprecated modifiers items) (hm : modifiers.Nodup)
      (hh : Head ctx result name head) (hp : Parameters params ps) (ht : Throws throws ts)
      (he : Tail (ctx.kind == .annotationType && result.isSome) value tail) :
    Declaration ctx
      ⟨name, result, params.map Prod.fst, .ofList modifiers, throws, params.any Prod.snd,
        ctx.kind == .annotationType && result.isSome, value, deprecated⟩
      (items ++ (head ++ ⟨.leftParen, l⟩ :: (ps ++ ⟨.rightParen, r⟩ :: (ts ++ tail))))

end ClassModel.Spelling
