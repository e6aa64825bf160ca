import ClassModel.Proofs.Token.Lexing

namespace ClassModel

structure Writes (s : String) (ws : List Word) : Prop where
  starts : ∃ c cs, s.toList = c :: cs ∧ isNameStart c = true
  reads : ∀ {rest : List Char} {ws' : List Word}, Reads.Boundary rest → Reads rest ws' →
    Reads (s.toList ++ rest) (ws ++ ws')

structure Separates (s : String) (ws : List Word) : Prop where
  boundary : ∀ rest, Reads.Boundary (s.toList ++ rest)
  reads : ∀ {c : Char} {cs : List Char} {ws' : List Word}, isNameStart c = true →
    Reads (c :: cs) ws' → Reads (s.toList ++ c :: cs) (ws ++ ws')

namespace Separates

theorem blank : Separates " " [] where
  boundary := Reads.boundary_cons (by decide)
  reads hc h := h.blank hc

theorem dot : Separates "." [⟨.dot, "."⟩] where
  boundary := Reads.boundary_cons (by decide)
  reads hc h := h.dot hc

theorem comma : Separates ", " [⟨.comma, ","⟩] where
  boundary := Reads.boundary_cons (by decide)
  reads hc h := (h.blank hc).punctuation rfl (by decide)

theorem ellipsis : Separates "... " [⟨.ellipsis, "..."⟩] where
  boundary := Reads.boundary_cons (by decide)
  reads hc h := (h.blank hc).ellipsis

end Separates

namespace Writes

variable {s t : String} {ws ws' : List Word}

theorem append {sep : String} {sw : List Word} (h : Writes s ws) (hs : Separates sep sw)
    (h' : Writes t ws') : Writes (s ++ sep ++ t) (ws ++ (sw ++ ws')) := by
  obtain ⟨c, cs, hc, hstart⟩ := h.starts
  obtain ⟨d, ds, hd, hstart'⟩ := h'.starts
  refine ⟨⟨c, cs ++ (sep ++ t).toList, by simp [hc], hstart⟩, fun {rest ws''} hb hr ↦ ?_⟩
  have ht : Reads (d :: (ds ++ rest)) (ws' ++ ws'') := by
    have ht := h'.reads hb hr
    rwa [hd] at ht
  have hsep := hs.reads hstart' ht
  have hall := h.reads (hs.boundary _) hsep
  simpa [hd] using hall

theorem word {c : Char} {cs : List Char} (hs : s.toList = c :: cs) (hc : isNameStart c = true)
    (hcs : cs.all isNameChar = true) : Writes s [⟨.ofName s, s⟩] := by
  refine ⟨⟨c, cs, hs, hc⟩, fun hb hr ↦ ?_⟩
  have h := hr.name hc (List.all_eq_true.1 hcs) hb
  rw [hs]
  rwa [← hs, String.ofList_toList] at h

theorem keyword (m : Modifier) : Writes m.keyword [⟨.modifier m, m.keyword⟩] := by
  cases m <;> exact word rfl (by decide) (by decide)

theorem void : Writes "void" [⟨.void, "void"⟩] :=
  word rfl (by decide) (by decide)

theorem throws : Writes "throws" [⟨.throws, "throws"⟩] :=
  word rfl (by decide) (by decide)

end Writes

end ClassModel
