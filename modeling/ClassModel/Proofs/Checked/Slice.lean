import ClassModel.Proofs.Token.Lexing

namespace ClassModel

def fromByte? : Nat → List Char → Option (List Char)
  | 0, cs => some cs
  | _ + 1, [] => none
  | n + 1, c :: cs => if c.utf8Size ≤ n + 1 then fromByte? (n + 1 - c.utf8Size) cs else none

def toByte? : Nat → List Char → Option (List Char)
  | 0, _ => some []
  | _ + 1, [] => none
  | n + 1, c :: cs =>
    if c.utf8Size ≤ n + 1 then (toByte? (n + 1 - c.utf8Size) cs).map (c :: ·) else none

def slice? (cs : List Char) (a b : Nat) : Option (List Char) :=
  if a ≤ b then (fromByte? a cs).bind (toByte? (b - a)) else none

variable {text cs rest part : List Char} {a b n : Nat}

theorem byteSize_eq_zero_iff : byteSize cs = 0 ↔ cs = [] := by
  cases cs with
  | nil => simp [byteSize]
  | cons c cs =>
    have hc := c.utf8Size_pos
    simp only [byteSize, reduceCtorEq, iff_false]
    omega

theorem byteSize_cons_eq_succ_iff {c : Char} (hc : c.utf8Size ≤ n + 1) :
    byteSize (c :: cs) = n + 1 ↔ byteSize cs = n + 1 - c.utf8Size := by
  rw [byteSize]
  omega

theorem fromByte?_eq_some_iff :
    fromByte? n cs = some rest ↔ ∃ pre, cs = pre ++ rest ∧ byteSize pre = n := by
  fun_induction fromByte? n cs with
  | case1 cs => simp [byteSize_eq_zero_iff]
  | case2 n => simp_all [byteSize]
  | case3 n c cs hc ih =>
    rw [ih]
    constructor
    · rintro ⟨pre, rfl, hn⟩
      exact ⟨c :: pre, rfl, (byteSize_cons_eq_succ_iff hc).2 hn⟩
    · rintro ⟨pre, hpre, hn⟩
      cases pre with
      | nil => cases hn
      | cons d pre =>
        obtain ⟨rfl, rfl⟩ := List.cons.inj hpre
        exact ⟨pre, rfl, (byteSize_cons_eq_succ_iff hc).1 hn⟩
  | case4 n c cs hc =>
    refine iff_of_false (Option.some_ne_none _).symm ?_
    rintro ⟨pre, hpre, hn⟩
    cases pre with
    | nil => cases hn
    | cons d pre =>
      obtain ⟨rfl, rfl⟩ := List.cons.inj hpre
      rw [byteSize] at hn
      omega

theorem toByte?_eq_some_iff :
    toByte? n cs = some part ↔ ∃ post, cs = part ++ post ∧ byteSize part = n := by
  fun_induction toByte? n cs generalizing part with
  | case1 cs =>
    rw [byteSize_eq_zero_iff, Option.some.injEq]
    exact ⟨fun h ↦ ⟨cs, by simp [← h], h.symm⟩, fun ⟨_, _, h⟩ ↦ h.symm⟩
  | case2 n =>
    refine iff_of_false (Option.some_ne_none _).symm ?_
    rintro ⟨post, hpost, hn⟩
    obtain ⟨rfl, -⟩ := List.nil_eq_append_iff.1 hpost
    cases hn
  | case3 n c cs hc ih =>
    rw [Option.map_eq_some_iff]
    constructor
    · rintro ⟨part, hpart, rfl⟩
      obtain ⟨post, rfl, hn⟩ := ih.1 hpart
      exact ⟨post, rfl, (byteSize_cons_eq_succ_iff hc).2 hn⟩
    · rintro ⟨post, hpost, hn⟩
      cases part with
      | nil => cases hn
      | cons d part =>
        obtain ⟨rfl, rfl⟩ := List.cons.inj hpost
        exact ⟨part, ih.2 ⟨post, rfl, (byteSize_cons_eq_succ_iff hc).1 hn⟩, rfl⟩
  | case4 n c cs hc =>
    refine iff_of_false (Option.some_ne_none _).symm ?_
    rintro ⟨post, hpost, hn⟩
    cases part with
    | nil => cases hn
    | cons d part =>
      obtain ⟨rfl, rfl⟩ := List.cons.inj hpost
      rw [byteSize] at hn
      omega

/-- There is a slice iff it is what stands between the two places. -/
theorem slice?_eq_some_iff :
    slice? cs a b = some part ↔
      ∃ pre post, cs = pre ++ (part ++ post) ∧ byteSize pre = a ∧ byteSize (pre ++ part) = b := by
  unfold slice?
  split
  · next hab =>
    rw [Option.bind_eq_some_iff]
    constructor
    · rintro ⟨rest, hrest, hpart⟩
      obtain ⟨pre, rfl, ha⟩ := fromByte?_eq_some_iff.1 hrest
      obtain ⟨post, rfl, hb⟩ := toByte?_eq_some_iff.1 hpart
      refine ⟨pre, post, rfl, ha, ?_⟩
      rw [byteSize_append]
      omega
    · rintro ⟨pre, post, rfl, ha, hb⟩
      rw [byteSize_append] at hb
      have hpart : byteSize part = b - a := by omega
      exact ⟨part ++ post, fromByte?_eq_some_iff.2 ⟨pre, rfl, ha⟩,
        toByte?_eq_some_iff.2 ⟨post, rfl, hpart⟩⟩
  · next hab =>
    refine iff_of_false (Option.some_ne_none _).symm ?_
    rintro ⟨pre, post, -, ha, hb⟩
    rw [byteSize_append] at hb
    omega

theorem fromByte?_zero (text : List Char) : fromByte? 0 text = some text :=
  fromByte?_eq_some_iff.2 ⟨[], rfl, rfl⟩

theorem fromByte?_add (h : fromByte? n text = some (part ++ cs)) :
    fromByte? (n + byteSize part) text = some cs := by
  obtain ⟨pre, rfl, rfl⟩ := fromByte?_eq_some_iff.1 h
  exact fromByte?_eq_some_iff.2 ⟨pre ++ part, by simp, byteSize_append pre part⟩

theorem fromByte?_succ {c : Char} (h : fromByte? n text = some (c :: cs)) :
    fromByte? (n + c.utf8Size) text = some cs :=
  fromByte?_add (show fromByte? n text = some ([c] ++ cs) from h)

theorem length_lt_of_fromByte? (h : fromByte? n text = some cs) :
    cs.length < text.length + 1 := by
  obtain ⟨pre, rfl, -⟩ := fromByte?_eq_some_iff.1 h
  rw [List.length_append]
  omega

theorem byteSize_of_fromByte? (h : fromByte? n text = some cs) :
    byteSize text = n + byteSize cs := by
  obtain ⟨pre, rfl, rfl⟩ := fromByte?_eq_some_iff.1 h
  exact byteSize_append pre cs

theorem slice?_of_fromByte? (h : fromByte? n text = some (part ++ cs)) :
    slice? text n (n + byteSize part) = some part := by
  obtain ⟨pre, rfl, rfl⟩ := fromByte?_eq_some_iff.1 h
  exact slice?_eq_some_iff.2 ⟨pre, cs, rfl, rfl, byteSize_append pre part⟩

end ClassModel
