import ClassModel.Proofs.Checked.Tokens
import ClassModel.Proofs.Token.Places

namespace ClassModel

/-- The text `cs` from byte `pos` on as tokens with blanks and comments between them. -/
inductive Tiling (file : FileId) : Nat → List Char → List Token → Prop
  | last {pos : Nat} {gap : List Char} (h : Layout [] gap) : Tiling file pos gap []
  | cons {pos : Nat} {gap part rest : List Char} {k : Token.Kind} {ts : List Token}
      (hg : Layout (part ++ rest) gap) (hne : part ≠ []) (hk : k ≠ .eof)
      (h : Tiling file (pos + byteSize gap + byteSize part) rest ts) :
    Tiling file pos (gap ++ (part ++ rest))
      (⟨gap, k, part, .ofNat file (pos + byteSize gap) (pos + byteSize gap + byteSize part)⟩ :: ts)

theorem Lexeme.exists_skips (cs : List Char) :
    ∃ ls after, Skips cs ls after ∧ ∀ c ds, after = c :: ds → (first c ds).1.kind? ≠ none := by
  fun_induction ofText cs with
  | case1 => exact ⟨[], [], .nil [], fun _ _ h ↦ absurd h (List.cons_ne_nil _ _).symm⟩
  | case2 c cs ih =>
    cases hk : (first c cs).1.kind? with
    | none =>
      obtain ⟨ls, after, hls, hbegin⟩ := ih
      exact ⟨_, after, hls.cons rfl hk, hbegin⟩
    | some k =>
      refine ⟨[], c :: cs, .nil _, fun d ds hd ↦ ?_⟩
      obtain ⟨rfl, rfl⟩ := List.cons.inj hd
      rw [hk]
      exact Option.some_ne_none k

theorem tiling_place (file : FileId) (pos : Nat) (cs : List Char) :
    Tiling file pos cs (Token.place file pos [] (Lexeme.ofText cs)) := by
  obtain ⟨ls, after, hls, hbegin⟩ := Lexeme.exists_skips cs
  have hgap := hls.layout
  have hcs := hls.text_eq
  rw [hls.lexemes, Checked.place_append [] ls _ hls.silent]
  cases after with
  | nil =>
    rw [List.append_nil] at hcs
    rw [← hcs] at hgap
    rw [Lexeme.ofText]
    exact .last hgap
  | cons c ds =>
    obtain ⟨k, hk⟩ := Option.ne_none_iff_exists'.1 (hbegin c ds rfl)
    have hmem : (Lexeme.first c ds).1 ∈ Lexeme.ofText (c :: ds) := by
      rw [Lexeme.ofText_cons]
      exact List.mem_cons_self
    rw [Lexeme.ofText_cons, Token.place, hk]
    rw [← Lexeme.first_append c ds] at hcs hgap
    have hlater := tiling_place file
      (pos + byteSize (ls.flatMap Lexeme.text) + byteSize (Lexeme.first c ds).1.text)
      (Lexeme.first c ds).2
    have htiling := hlater.cons hgap (Lexeme.first_text_ne_nil c ds)
      (Lexeme.kind?_of_mem_ofText hmem hk).1
    rwa [← hcs] at htiling
termination_by cs.length
decreasing_by
  have hfirst := Lexeme.first_shortens c ds
  have hlen := congrArg List.length hls.text_eq
  rw [List.length_append, List.length_cons] at hlen
  omega

namespace Tiling

variable {file : FileId} {text cs : List Char} {pos : Nat} {ts : List Token}

def stopOf (pos : Nat) (ts : List Token) : Nat := (ts.getLast?.map (·.span.stop.toNat)).getD pos

def startOf (text : List Char) (ts : List Token) : Nat :=
  (ts.head?.map (·.span.start.toNat)).getD (byteSize text)

/-- Each token is a stretch of the text behind byte `pos`. -/
theorem span_of_mem (h : Tiling file pos cs ts) (hpos : fromByte? pos text = some cs)
    (hs : byteSize text < UInt32.size) {t : Token} (ht : t ∈ ts) :
    t.kind ≠ .eof ∧ t.span.file = file ∧ pos ≤ t.span.start.toNat ∧ t.span.start < t.span.stop ∧
      slice? text t.span.start.toNat t.span.stop.toNat = some t.text := by
  induction h with
  | last => cases ht
  | @cons pos gap part rest k ts hg hne hk h ih =>
    have hpart := fromByte?_add hpos
    have hrest := fromByte?_add hpart
    have hsize := byteSize_of_fromByte? hrest
    rcases List.mem_cons.1 ht with rfl | ht
    · have hstart : (Span.ofNat file (pos + byteSize gap)
          (pos + byteSize gap + byteSize part)).start.toNat = _ :=
        Span.toNat_start_ofNat (by omega)
      have hstop : (Span.ofNat file (pos + byteSize gap)
          (pos + byteSize gap + byteSize part)).stop.toNat = _ := Span.toNat_stop_ofNat (by omega)
      have hlt : 0 < byteSize part := Nat.pos_of_ne_zero fun h ↦ hne (byteSize_eq_zero_iff.1 h)
      dsimp only
      rw [UInt32.lt_iff_toNat_lt, hstart, hstop]
      exact ⟨hk, rfl, Nat.le_add_right .., by omega, slice?_of_fromByte? hpart⟩
    · obtain ⟨heof, hfile, hle, hlater⟩ := ih hrest ht
      exact ⟨heof, hfile, by omega, hlater⟩

theorem pairwise (h : Tiling file pos cs ts) (hpos : fromByte? pos text = some cs)
    (hs : byteSize text < UInt32.size) : ts.Pairwise fun t u ↦ t.span.stop ≤ u.span.start := by
  induction h with
  | last => exact .nil
  | @cons pos gap part rest k ts hg hne hk h ih =>
    have hrest := fromByte?_add (fromByte?_add hpos)
    have hsize := byteSize_of_fromByte? hrest
    have hstop : (Span.ofNat file (pos + byteSize gap)
        (pos + byteSize gap + byteSize part)).stop.toNat = _ := Span.toNat_stop_ofNat (by omega)
    refine .cons (fun u hu ↦ UInt32.le_iff_toNat_le.2 ?_) (ih hrest)
    obtain ⟨-, -, hle, -⟩ := h.span_of_mem hrest hs hu
    rw [hstop]
    exact hle

/-- The text from any token on is tiled by the tokens from it on. -/
theorem split (h : Tiling file pos cs ts) (hpos : fromByte? pos text = some cs)
    (hs : byteSize text < UInt32.size) {before after : List Token} (ht : ts = before ++ after) :
    ∃ ds, fromByte? (stopOf pos before) text = some ds ∧
      Tiling file (stopOf pos before) ds after := by
  induction h generalizing before with
  | @last pos gap hg =>
    obtain ⟨rfl, rfl⟩ := List.nil_eq_append_iff.1 ht
    exact ⟨gap, hpos, .last hg⟩
  | @cons pos gap part rest k ts hg hne hk h ih =>
    have hrest := fromByte?_add (fromByte?_add hpos)
    have hsize := byteSize_of_fromByte? hrest
    cases before with
    | nil =>
      obtain rfl := ht
      exact ⟨_, hpos, .cons hg hne hk h⟩
    | cons t before =>
      obtain ⟨rfl, rfl⟩ := List.cons.inj ht
      have hstop : stopOf pos (⟨gap, k, part, Span.ofNat file (pos + byteSize gap)
          (pos + byteSize gap + byteSize part)⟩ :: before) =
          stopOf (pos + byteSize gap + byteSize part) before := by
        unfold stopOf
        rw [List.getLast?_cons]
        cases before.getLast? with
        | none => exact Span.toNat_stop_ofNat (by omega)
        | some u => rfl
      rw [hstop]
      exact ih hrest rfl

theorem gap (h : Tiling file pos cs ts) (hpos : fromByte? pos text = some cs)
    (hs : byteSize text < UInt32.size) :
    ∃ gap rest, slice? text pos (startOf text ts) = some gap ∧
      fromByte? (startOf text ts) text = some rest ∧ Layout rest gap := by
  cases h with
  | last hg =>
    have hsize : startOf text [] = pos + byteSize cs := byteSize_of_fromByte? hpos
    have hpos : fromByte? pos text = some (cs ++ []) := by rwa [List.append_nil]
    rw [hsize]
    exact ⟨cs, [], slice?_of_fromByte? hpos, fromByte?_add hpos, hg⟩
  | @cons _ gap part rest k ts hg hne hk h =>
    have hsize := byteSize_of_fromByte? hpos
    rw [byteSize_append] at hsize
    have hstart : startOf text (⟨gap, k, part, Span.ofNat file (pos + byteSize gap)
        (pos + byteSize gap + byteSize part)⟩ :: ts) = pos + byteSize gap :=
      Span.toNat_start_ofNat (by omega)
    rw [hstart]
    exact ⟨gap, part ++ rest, slice?_of_fromByte? hpos, fromByte?_add hpos, hg⟩

theorem length_le (h : Tiling file pos cs ts) : ts.length ≤ byteSize cs := by
  induction h with
  | last => exact Nat.zero_le _
  | @cons pos gap part rest k ts hg hne hk h ih =>
    have hlt : 0 < byteSize part := Nat.pos_of_ne_zero fun h ↦ hne (byteSize_eq_zero_iff.1 h)
    rw [List.length_cons, byteSize_append, byteSize_append]
    omega

/-- Where the source text of some adjacent tokens is. -/
theorem exists_source {t : Token} {part after : List Token}
    (h : Tiling file pos cs (t :: part ++ after)) (hs : pos + byteSize cs < UInt32.size) :
    ∃ post, cs = t.lead ++ (Token.source (t :: part) ++ post) ∧
      t.span.start.toNat = pos + byteSize t.lead ∧
      ((t :: part).getLast (by simp)).span.stop.toNat =
        pos + byteSize t.lead + byteSize (Token.source (t :: part)) := by
  induction part generalizing pos cs t with
  | nil =>
    cases h with
    | @cons _ gap body rest k _ hg hne hk h =>
      rw [byteSize_append, byteSize_append] at hs
      have hsource (span : Span) : Token.source [⟨gap, k, body, span⟩] = body := by
        simp [Token.source]
      rw [List.getLast_singleton, hsource]
      exact ⟨rest, rfl, Span.toNat_start_ofNat (by omega), Span.toNat_stop_ofNat (by omega)⟩
  | cons u part ih =>
    cases h with
    | @cons _ gap body rest k _ hg hne hk h =>
      rw [byteSize_append, byteSize_append] at hs
      obtain ⟨post, hrest, -, hstop⟩ := ih h (by omega)
      have hsource (span : Span) : Token.source (⟨gap, k, body, span⟩ :: u :: part) =
          body ++ (u.lead ++ Token.source (u :: part)) := by
        simp [Token.source]
      rw [List.getLast_cons (List.cons_ne_nil u part), hstop, hsource, byteSize_append,
        byteSize_append]
      refine ⟨post, ?_, Span.toNat_start_ofNat (by omega), by dsimp only; omega⟩
      rw [hrest]
      simp only [List.append_assoc]

end Tiling

theorem Scan.tiling (file : FileId) (text : List Char) :
    Tiling file 0 text (ofText file text).tokens := tiling_place file 0 text

/-- There is an end to finding the tokens of a text. They stand in their order, one behind the
other, and what is not part of them is blanks and comments. -/
theorem kinds_tile (file : FileId) {text : List Char} (hs : byteSize text < UInt32.size) :
    let s := Scan.ofText file text
    Checked.lex file text = .ok (s.kinds, s.reports) ∧
    s.kinds = s.tokens.map (fun t ↦ (t.kind, t.span)) ++ [(.eof, s.finish)] ∧
    s.finish.file = file ∧ s.finish.start.toNat = byteSize text ∧
    s.finish.stop.toNat = byteSize text ∧
    (∀ t ∈ s.tokens, t.kind ≠ .eof ∧ t.span.file = file ∧ t.span.start < t.span.stop ∧
      slice? text t.span.start.toNat t.span.stop.toNat = some t.text) ∧
    s.tokens.Pairwise (fun t u ↦ t.span.stop ≤ u.span.start) ∧
    ∀ before after, s.tokens = before ++ after →
      ∃ gap rest, slice? text (Tiling.stopOf 0 before) (Tiling.startOf text after) = some gap ∧
        fromByte? (Tiling.startOf text after) text = some rest ∧ Layout rest gap := by
  intro s
  have htiling := Scan.tiling file text
  have hpos := fromByte?_zero text
  refine ⟨Checked.lex_eq file text, rfl, rfl, Span.toNat_start_ofNat hs, Span.toNat_stop_ofNat hs,
    fun t ht ↦ ?_, htiling.pairwise hpos hs, fun before after ht ↦ ?_⟩
  · obtain ⟨heof, hfile, -, hlt, hpart⟩ := htiling.span_of_mem hpos hs ht
    exact ⟨heof, hfile, hlt, hpart⟩
  · obtain ⟨ds, hds, hafter⟩ := htiling.split hpos hs ht
    exact hafter.gap hds hs

/-- A name of one character in two bytes, and a comment behind it that is never closed. -/
theorem tiling_of_open_comment :
    let text := ['é', ' ', '/', '/', '\n', '/', '*']
    byteSize text < UInt32.size ∧
      (Scan.ofText 7 text).kinds = [(.identifier, ⟨7, 0, 2⟩), (.eof, ⟨7, 8, 8⟩)] ∧
      ∃ gap rest, slice? text 2 8 = some gap ∧ fromByte? 8 text = some rest ∧ Layout rest gap := by
  intro text
  have hs : byteSize text < UInt32.size := by decide
  have htokens : (Scan.ofText 7 text).tokens =
      [⟨[], .identifier, ['é'], ⟨7, 0, 2⟩⟩] ++ [] := by decide +kernel
  obtain ⟨-, hkinds, -, -, -, -, -, hgap⟩ := kinds_tile 7 hs
  rw [htokens] at hkinds
  exact ⟨hs, hkinds, hgap _ _ htokens⟩

end ClassModel
