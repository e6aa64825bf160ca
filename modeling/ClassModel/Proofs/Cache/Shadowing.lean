import ClassModel.Proofs.Cache.Lookup

namespace ClassModel.Index

variable {α : Type}

def First (p : α → Prop) (as : List α) (a : α) : Prop :=
  ∃ before after, as = before ++ a :: after ∧ p a ∧ ∀ b ∈ before, ¬p b

theorem find?_eq_some_iff_first {p : α → Bool} {as : List α} {a : α} :
    as.find? p = some a ↔ First (fun b ↦ p b = true) as a := by
  rw [List.find?_eq_some_iff_append]
  constructor
  · rintro ⟨ha, before, after, has, hb⟩
    exact ⟨before, after, has, ha, fun b hmem ↦ by simpa using hb b hmem⟩
  · rintro ⟨before, after, has, ha, hb⟩
    exact ⟨ha, before, after, has, fun b hmem ↦ by simpa using hb b hmem⟩

variable [Member α]

def Own (n : String) (a : α) : Prop := Member.name? a = some n ∧ Member.isExternal a = false

def Foreign (n : String) (a : α) : Prop := Member.name? a = some n ∧ Member.isExternal a = true

variable {n : String} {as bs : List α} {a : α}

theorem own_iff : Own n a ↔ (bears n a && !Member.isExternal a) = true := by
  simp [Own, bears]

theorem foreign_iff (hn : ∀ b ∈ as, ¬Own n b) (ha : a ∈ as) : Foreign n a ↔ bears n a = true := by
  have hnot := hn a ha
  simp only [Own, not_and, Bool.not_eq_false] at hnot
  simp only [Foreign, bears, beq_iff_eq]
  exact and_iff_left_of_imp hnot

theorem first_foreign_iff (hn : ∀ b ∈ as, ¬Own n b) :
    First (Foreign n) as a ↔ First (fun b ↦ bears n b = true) as a := by
  constructor
  · rintro ⟨before, after, rfl, ha, hb⟩
    refine ⟨before, after, rfl, (foreign_iff hn (by simp)).1 ha, fun b hmem hbears ↦ ?_⟩
    exact hb b hmem ((foreign_iff hn (List.mem_append_left _ hmem)).2 hbears)
  · rintro ⟨before, after, rfl, ha, hb⟩
    refine ⟨before, after, rfl, (foreign_iff hn (by simp)).2 ha, fun b hmem hforeign ↦ ?_⟩
    exact hb b hmem ((foreign_iff hn (List.mem_append_left _ hmem)).1 hforeign)

theorem find?_own_eq_none_iff :
    (as.find? fun a ↦ bears n a && !Member.isExternal a) = none ↔ ∀ b ∈ as, ¬Own n b := by
  rw [List.find?_eq_none]
  exact forall₂_congr fun b _ ↦ not_congr own_iff.symm

theorem winner_eq_some_iff :
    winner n as = some a ↔
      First (Own n) as a ∨ (∀ b ∈ as, ¬Own n b) ∧ First (Foreign n) as a := by
  have hown : (as.find? fun a ↦ bears n a && !Member.isExternal a) = some a ↔
      First (Own n) as a := by
    rw [find?_eq_some_iff_first]
    simp only [← own_iff]
  rw [winner, Option.or_eq_some_iff, hown, find?_own_eq_none_iff]
  refine or_congr_right (and_congr_right fun hn ↦ ?_)
  rw [first_foreign_iff hn, find?_eq_some_iff_first]

theorem name?_of_winner {a : α} (h : winner n as = some a) : Member.name? a = some n := by
  rcases winner_eq_some_iff.1 h with ⟨_, _, -, ha, -⟩ | ⟨-, _, _, -, ha, -⟩
  · exact ha.1
  · exact ha.1

theorem winner_eq_none_iff : winner n as = none ↔ ∀ b ∈ as, Member.name? b ≠ some n := by
  rw [winner, Option.or_eq_none_iff, List.find?_eq_none, List.find?_eq_none]
  simp only [bears, beq_iff_eq]
  exact and_iff_right_of_imp fun h b hb hown ↦
    h b hb (by simpa using (Bool.and_eq_true_iff.1 hown).1)

/-- Behind an own member of the name nothing counts, and behind an external one only own ones. -/
theorem winner_append (h : winner n as = some a) (hb : ∀ b ∈ bs, Own n b → Own n a) :
    winner n (as ++ bs) = some a := by
  rcases winner_eq_some_iff.1 h with ⟨before, after, rfl, ha, hfirst⟩ | ⟨hn, hforeign⟩
  · exact winner_eq_some_iff.2 (.inl ⟨before, after ++ bs, by simp, ha, hfirst⟩)
  · obtain ⟨before, after, rfl, ha, hfirst⟩ := hforeign
    have hnot : ¬Own n a := hn a (by simp)
    have hlater : First (Foreign n) (before ++ a :: after ++ bs) a :=
      ⟨before, after ++ bs, by simp, ha, hfirst⟩
    refine winner_eq_some_iff.2 (.inr ⟨fun b hmem hown ↦ ?_, hlater⟩)
    rcases List.mem_append.1 hmem with hmem | hmem
    · exact hn b hmem hown
    · exact hnot (hb b hmem hown)

/-- If there is an own member of the name, it is as if there were no external members. -/
theorem winner_filter (h : ∃ b ∈ as, Own n b) :
    winner n (as.filter fun b ↦ !Member.isExternal b) = winner n as := by
  have hfind : ((as.filter fun b ↦ !Member.isExternal b).find? fun a ↦
      bears n a && !Member.isExternal a) = as.find? fun a ↦ bears n a && !Member.isExternal a := by
    rw [List.find?_filter]
    congr 1
    funext b
    cases bears n b <;> cases Member.isExternal b <;> rfl
  obtain ⟨b, hb, hown⟩ := h
  obtain ⟨a, ha⟩ := Option.ne_none_iff_exists'.1 (mt find?_own_eq_none_iff.1 fun hn ↦ hn b hb hown)
  rw [winner, winner, hfind, ha]
  rfl

/-- What the index of some members holds under a name: the first own member with it, or else the
first external one. Neither the external ones beside an own one nor later members count, unless a
later one is the first of its name that is own. -/
theorem lookup_preferred_shadows (n : String) (as : List α) :
    (∀ a, List.lookup n (preferred as) = some a ↔
      First (Own n) as a ∨ (∀ b ∈ as, ¬Own n b) ∧ First (Foreign n) as a) ∧
    (List.lookup n (preferred as) = none ↔ ∀ b ∈ as, Member.name? b ≠ some n) ∧
    ((∃ b ∈ as, Own n b) →
      List.lookup n (preferred as) =
        List.lookup n (preferred (as.filter fun b ↦ !Member.isExternal b))) ∧
    ∀ a bs, List.lookup n (preferred as) = some a → (∀ b ∈ bs, Own n b → Own n a) →
      List.lookup n (preferred (as ++ bs)) = some a := by
  simp only [lookup_preferred]
  exact ⟨fun _ ↦ winner_eq_some_iff, winner_eq_none_iff, fun h ↦ (winner_filter h).symm,
    fun _ _ h hb ↦ winner_append h hb⟩

end ClassModel.Index
