import ClassModel.Cache.Index

namespace ClassModel.Index

variable {α : Type} [Member α]

def bears (n : String) (a : α) : Bool := Member.name? a == some n

/-- The member that a name stands for: the first that is not external, or else the first. -/
def winner (n : String) (as : List α) : Option α :=
  (as.find? fun a ↦ bears n a && !Member.isExternal a).or (as.find? (bears n))

def succeed (n : String) (b : Option α) (a : α) : Option α :=
  if bears n a then some (prefer a b) else b

theorem lookup_addPreferred (n : String) (ix : Index α) (a : α) :
    List.lookup n (addPreferred ix a) = succeed n (List.lookup n ix) a := by
  unfold addPreferred succeed bears
  cases h : Member.name? a with
  | none => simp
  | some k =>
    rw [lookup_alter]
    by_cases hn : n = k
    · subst hn
      simp
    · simp [hn, Ne.symm hn]

theorem lookup_foldl_addPreferred (n : String) (as : List α) (ix : Index α) :
    List.lookup n (as.foldl addPreferred ix) = as.foldl (succeed n) (List.lookup n ix) := by
  induction as generalizing ix with
  | nil => rfl
  | cons a as ih => rw [List.foldl_cons, List.foldl_cons, ih, lookup_addPreferred]

theorem foldl_succeed_some (n : String) (as : List α) (b : α) :
    as.foldl (succeed n) (some b) =
      if Member.isExternal b then
        (as.find? fun a ↦ bears n a && !Member.isExternal a).or (some b)
      else some b := by
  induction as generalizing b with
  | nil => simp
  | cons a as ih =>
    rw [List.foldl_cons, List.find?_cons]
    cases ha : bears n a with
    | false => simpa [succeed, ha] using ih b
    | true =>
      have hs : succeed n (some b) a = some (prefer a (some b)) := by simp [succeed, ha]
      rw [hs, ih]
      cases hb : Member.isExternal b <;> cases he : Member.isExternal a <;> simp [prefer, hb, he]

theorem foldl_succeed_none (n : String) (as : List α) :
    as.foldl (succeed n) none = winner n as := by
  induction as with
  | nil => rfl
  | cons a as ih =>
    rw [List.foldl_cons, winner, List.find?_cons, List.find?_cons]
    cases ha : bears n a with
    | false => simpa [succeed, ha, winner] using ih
    | true =>
      have hs : succeed n none a = some a := by simp [succeed, ha, prefer]
      rw [hs, foldl_succeed_some]
      cases he : Member.isExternal a <;> simp

theorem lookup_preferred (n : String) (as : List α) :
    List.lookup n (preferred as) = winner n as := by
  rw [preferred, lookup_foldl_addPreferred]
  exact foldl_succeed_none n as

theorem lookup_addGrouped (n : String) (ix : Index (List α)) (a : α) :
    List.lookup n (addGrouped ix a) =
      if bears n a then some ((List.lookup n ix).getD [] ++ [a]) else List.lookup n ix := by
  unfold addGrouped bears
  cases h : Member.name? a with
  | none => simp
  | some k =>
    rw [lookup_alter]
    by_cases hn : n = k
    · subst hn
      simp
    · simp [hn, Ne.symm hn]

theorem lookup_foldl_addGrouped (n : String) (as : List α) (ix : Index (List α)) :
    (List.lookup n (as.foldl addGrouped ix)).getD [] =
      (List.lookup n ix).getD [] ++ as.filter (bears n) := by
  induction as generalizing ix with
  | nil => simp
  | cons a as ih =>
    rw [List.foldl_cons, ih, lookup_addGrouped, List.filter_cons]
    split
    · simp
    · rfl

theorem lookup_grouped (n : String) (as : List α) :
    (List.lookup n (grouped as)).getD [] = as.filter (bears n) := by
  rw [grouped, lookup_foldl_addGrouped]
  rfl

end ClassModel.Index
