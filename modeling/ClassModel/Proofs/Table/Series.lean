import ClassModel.Table.Command

namespace ClassModel

section

variable {σ κ ρ τ : Type} {act : σ → κ → Except Halt ρ × σ} {keepGoing : Bool} {s t : σ} {k : κ}
  {ks : List κ}

theorem carryOut_of_ok {r : ρ} (h : (act s k).1 = .ok r) :
    carryOut act keepGoing s (k :: ks) =
      let rest := carryOut act keepGoing (act s k).2 ks
      (⟨.ok r :: rest.1.results, rest.1.failure⟩, rest.2) := by
  rw [carryOut]
  cases he : act s k with
  | mk r' s' =>
    rw [he] at h
    obtain rfl : r' = .ok r := h
    rfl

theorem carryOut_of_error {x : Halt} (h : (act s k).1 = .error x) :
    carryOut act keepGoing s (k :: ks) =
      if keepGoing && x != .aborted then
        let rest := carryOut act keepGoing (act s k).2 ks
        (⟨.error x :: rest.1.results, rest.1.failure⟩, rest.2)
      else (⟨[], some x⟩, (act s k).2) := by
  rw [carryOut]
  cases he : act s k with
  | mk r' s' =>
    rw [he] at h
    obtain rfl : r' = .error x := h
    rfl

theorem carryOut_preserves {P : σ → Prop} (keepGoing : Bool)
    (hk : ∀ k ∈ ks, ∀ s, P s → P (act s k).2) (hs : P s) :
    P (carryOut act keepGoing s ks).2 := by
  induction ks generalizing s with
  | nil => exact hs
  | cons k ks ih =>
    have hrest := ih (fun j hj ↦ hk j (List.mem_cons_of_mem k hj)) (hk k List.mem_cons_self s hs)
    cases h : (act s k).1 with
    | ok r =>
      rw [carryOut_of_ok h]
      exact hrest
    | error x =>
      rw [carryOut_of_error h]
      split
      · exact hrest
      · exact hk k List.mem_cons_self s hs

theorem carryOut_mark {mark : σ → Bool} {sets : Except Halt ρ → Bool}
    (hx : ∀ x, sets (.error x) = false)
    (hk : ∀ s k, mark (act s k).2 = (mark s || sets (act s k).1)) (keepGoing : Bool) (s : σ)
    (ks : List κ) :
    mark (carryOut act keepGoing s ks).2 =
      (mark s || (carryOut act keepGoing s ks).1.results.any sets) := by
  induction ks generalizing s with
  | nil => exact (Bool.or_false _).symm
  | cons k ks ih =>
    have hstep := hk s k
    cases h : (act s k).1 with
    | ok r =>
      rw [h] at hstep
      rw [carryOut_of_ok h]
      simp [ih, hstep, Bool.or_assoc]
    | error x =>
      rw [h, hx, Bool.or_false] at hstep
      rw [carryOut_of_error h]
      split
      · simp [ih, hstep, hx]
      · simp [hstep]

theorem carryOut_not_aborted (keepGoing : Bool)
    (hk : ∀ k ∈ ks, ∀ s, (act s k).1 ≠ .error .aborted) (s : σ) :
    (carryOut act keepGoing s ks).1.aborted = false := by
  induction ks generalizing s with
  | nil => rfl
  | cons k ks ih =>
    have hrest := ih (fun j hj ↦ hk j (List.mem_cons_of_mem k hj)) (act s k).2
    cases h : (act s k).1 with
    | ok r =>
      rw [carryOut_of_ok h]
      exact hrest
    | error x =>
      have hx : x ≠ .aborted := fun hx ↦ hk k List.mem_cons_self s (hx ▸ h)
      rw [carryOut_of_error h]
      split
      · exact hrest
      · simp [Outcome.aborted, hx]

/-- What is true of some notes and of the state is true after a series of steps that are noted, if
each step keeps it. A step that fails is not noted. -/
theorem carryOut_traced {note : κ → Except Halt ρ → Option τ} {P : List τ → σ → Prop}
    (hk : ∀ tr s k, P tr s → P (tr ++ (note k (act s k).1).toList) (act s k).2)
    (hx : ∀ k x, note k (.error x) = none) (keepGoing : Bool) {tr : List τ} (h : P tr s) :
    P (tr ++ (ks.zip (carryOut act keepGoing s ks).1.results).filterMap fun x ↦ note x.1 x.2)
      (carryOut act keepGoing s ks).2 := by
  induction ks generalizing tr s with
  | nil => exact (List.append_nil tr).symm ▸ h
  | cons k ks ih =>
    have hstep := hk tr s k h
    have hrest := ih hstep
    rw [List.append_assoc] at hrest
    cases hr : (act s k).1 with
    | ok r =>
      rw [carryOut_of_ok hr]
      rw [hr] at hrest
      dsimp only
      rw [List.zip_cons_cons, List.filterMap_cons]
      cases hn : note k (.ok r) <;> simpa [hn] using hrest
    | error x =>
      rw [hr, hx, Option.toList_none] at hstep hrest
      rw [carryOut_of_error hr]
      split
      · dsimp only
        rw [List.zip_cons_cons, List.filterMap_cons, hx]
        exact hrest
      · dsimp only
        rw [List.zip_nil_right]
        exact hstep

def goesOn (keepGoing : Bool) : Except Halt ρ → Bool
  | .ok _ => true
  | .error x => keepGoing && x != .aborted

theorem carryOut_of_goesOn (h : goesOn keepGoing (act s k).1 = true) :
    carryOut act keepGoing s (k :: ks) =
      let rest := carryOut act keepGoing (act s k).2 ks
      (⟨(act s k).1 :: rest.1.results, rest.1.failure⟩, rest.2) := by
  cases hk : (act s k).1 with
  | ok r => rw [carryOut_of_ok hk]
  | error x =>
    rw [hk] at h
    have hgo : (keepGoing && x != .aborted) = true := h
    rw [carryOut_of_error hk, if_pos hgo]

theorem carryOut_of_not_goesOn (ks : List κ) (h : goesOn keepGoing (act s k).1 = false) :
    ∃ x, (act s k).1 = .error x ∧
      carryOut act keepGoing s (k :: ks) = (⟨[], some x⟩, (act s k).2) := by
  cases hk : (act s k).1 with
  | ok r => simp [hk, goesOn] at h
  | error x =>
    rw [hk] at h
    have hstop : ¬(keepGoing && x != .aborted) = true := Bool.eq_false_iff.1 h
    refine ⟨x, rfl, ?_⟩
    rw [carryOut_of_error hk, if_neg hstop]

def reach (act : σ → κ → Except Halt ρ × σ) (s : σ) (ks : List κ) : σ :=
  ks.foldl (fun s k ↦ (act s k).2) s

/-- Whether an outcome and a last state are those of a series. The results are what the first steps
have come to, each taken where those before it have led. They are the results of all steps, or the
step behind them has failed and ended the series. -/
structure Outcome.Covers (act : σ → κ → Except Halt ρ × σ) (keepGoing : Bool) (s : σ) (ks : List κ)
    (o : Outcome ρ) (s' : σ) : Prop where
  results : ∀ before k after, ks = before ++ k :: after → before.length < o.results.length →
    o.results[before.length]? = some (act (reach act s before) k).1
  goesOn : ∀ r ∈ o.results, goesOn keepGoing r = true
  ended : o.failure = none → o.results.length = ks.length ∧ s' = reach act s ks
  stopped : ∀ x, o.failure = some x → ∃ before k after, ks = before ++ k :: after ∧
    o.results.length = before.length ∧ act (reach act s before) k = (.error x, s') ∧
    ClassModel.goesOn keepGoing (.error x : Except Halt ρ) = false

theorem carryOut_covers (act : σ → κ → Except Halt ρ × σ) (keepGoing : Bool) (s : σ)
    (ks : List κ) :
    (carryOut act keepGoing s ks).1.Covers act keepGoing s ks (carryOut act keepGoing s ks).2 := by
  induction ks generalizing s with
  | nil =>
    refine ⟨fun before k after h ↦ ?_, nofun, fun _ ↦ ⟨rfl, rfl⟩, nofun⟩
    simp at h
  | cons k ks ih =>
    cases hg : goesOn keepGoing (act s k).1 with
    | true =>
      have h := ih (act s k).2
      rw [carryOut_of_goesOn hg]
      refine ⟨fun before j after hks hlt ↦ ?_, fun r hr ↦ ?_, fun hx ↦ ?_, fun x hx ↦ ?_⟩
      · cases before with
        | nil =>
          obtain ⟨rfl, -⟩ := List.cons.inj hks
          rfl
        | cons b before =>
          obtain ⟨rfl, hrest⟩ := List.cons.inj hks
          exact h.results before j after hrest (Nat.lt_of_succ_lt_succ hlt)
      · rcases List.mem_cons.1 hr with rfl | hr
        · exact hg
        · exact h.goesOn r hr
      · exact ⟨congrArg (· + 1) (h.ended hx).1, (h.ended hx).2⟩
      · obtain ⟨before, j, after, rfl, hlength, hact, hstop⟩ := h.stopped x hx
        exact ⟨k :: before, j, after, rfl, congrArg (· + 1) hlength, hact, hstop⟩
    | false =>
      obtain ⟨x, hx, he⟩ := carryOut_of_not_goesOn ks hg
      rw [he]
      refine ⟨fun _ _ _ _ hlt ↦ absurd hlt (Nat.not_lt_zero _), nofun, nofun, fun y hy ↦ ?_⟩
      obtain rfl : x = y := Option.some.inj hy
      exact ⟨[], k, ks, rfl, rfl, Prod.ext hx rfl, hx ▸ hg⟩

theorem goesOn_map {υ : Type} (f : ρ → υ) (r : Except Halt ρ) :
    goesOn keepGoing (r.map f) = goesOn keepGoing r := by
  cases r <;> rfl

theorem reflects_cons {P : σ → Prop}
    (h : P (carryOut act keepGoing (act s k).2 ks).2 → P (act s k).2)
    (hs : P (carryOut act keepGoing s (k :: ks)).2) : P (act s k).2 := by
  cases hg : goesOn keepGoing (act s k).1 with
  | true =>
    rw [carryOut_of_goesOn hg] at hs
    exact h hs
  | false =>
    obtain ⟨x, -, he⟩ := carryOut_of_not_goesOn ks hg
    rwa [he] at hs

theorem carryOut_reflects {P : σ → Prop} (hP : ∀ s k, P (act s k).2 → P s) (keepGoing : Bool)
    (hs : P (carryOut act keepGoing s ks).2) : P s := by
  induction ks generalizing s with
  | nil => exact hs
  | cons k ks ih => exact hP s k (reflects_cons ih hs)

/-- A series does what another one does if each of its steps does, where `P` says of the state that
this is so and cannot become true again. -/
theorem carryOut_simulates {υ ρ' : Type} {act' : τ → κ → Except Halt ρ' × τ} {P : σ → Prop}
    {R : σ → τ → Prop} {f : ρ → υ} {g : ρ' → υ} (hP : ∀ s k, P (act s k).2 → P s)
    (hR : ∀ s t k, R s t → P (act s k).2 →
      (act s k).1.map f = (act' t k).1.map g ∧ R (act s k).2 (act' t k).2)
    (keepGoing : Bool) (ks : List κ) {s : σ} {t : τ} (h : R s t)
    (hs : P (carryOut act keepGoing s ks).2) :
    let o := carryOut act keepGoing s ks
    let o' := carryOut act' keepGoing t ks
    o.1.results.map (Except.map f) = o'.1.results.map (Except.map g) ∧
      o.1.failure = o'.1.failure ∧ R o.2 o'.2 := by
  induction ks generalizing s t with
  | nil => exact ⟨rfl, rfl, h⟩
  | cons k ks ih =>
    have hfirst : P (act s k).2 := reflects_cons (carryOut_reflects hP keepGoing) hs
    obtain ⟨hresult, hrest⟩ := hR s t k h hfirst
    have hgoes : goesOn keepGoing (act' t k).1 = goesOn keepGoing (act s k).1 := by
      rw [← goesOn_map g, ← hresult, goesOn_map]
    cases hg : goesOn keepGoing (act s k).1 with
    | true =>
      rw [carryOut_of_goesOn hg] at hs
      obtain ⟨hresults, hfailure, hlast⟩ := ih hrest hs
      rw [carryOut_of_goesOn hg, carryOut_of_goesOn (hgoes.trans hg)]
      exact ⟨congr (congrArg List.cons hresult) hresults, hfailure, hlast⟩
    | false =>
      obtain ⟨x, hx, he⟩ := carryOut_of_not_goesOn ks hg
      obtain ⟨x', hx', he'⟩ := carryOut_of_not_goesOn ks (hgoes.trans hg)
      rw [hx, hx'] at hresult
      obtain rfl : x = x' := Except.error.inj hresult
      rw [he, he']
      exact ⟨rfl, rfl, hrest⟩

theorem carryOut_append (rest : List κ) (h : (carryOut act keepGoing s ks).1.failure = none) :
    carryOut act keepGoing s (ks ++ rest) =
      let o := carryOut act keepGoing s ks
      let o' := carryOut act keepGoing o.2 rest
      (⟨o.1.results ++ o'.1.results, o'.1.failure⟩, o'.2) := by
  induction ks generalizing s with
  | nil => rfl
  | cons k ks ih =>
    cases hk : goesOn keepGoing (act s k).1 with
    | true =>
      rw [carryOut_of_goesOn hk] at h ⊢
      rw [List.cons_append, carryOut_of_goesOn hk, ih h]
      rfl
    | false =>
      obtain ⟨x, -, hx⟩ := carryOut_of_not_goesOn ks hk
      rw [hx] at h
      cases h

theorem exists_of_failure {x : Halt} (h : (carryOut act keepGoing s ks).1.failure = some x) :
    ∃ before k after, ks = before ++ k :: after ∧
      (carryOut act keepGoing s before).1.failure = none ∧
      (act (carryOut act keepGoing s before).2 k).1 = .error x := by
  induction ks generalizing s with
  | nil => cases h
  | cons k ks ih =>
    cases hk : goesOn keepGoing (act s k).1 with
    | true =>
      rw [carryOut_of_goesOn hk] at h
      obtain ⟨before, j, after, rfl, hnone, hj⟩ := ih h
      refine ⟨k :: before, j, after, rfl, ?_⟩
      rw [carryOut_of_goesOn hk]
      exact ⟨hnone, hj⟩
    | false =>
      obtain ⟨y, hy, he⟩ := carryOut_of_not_goesOn ks hk
      rw [he] at h
      obtain rfl : y = x := Option.some.inj h
      exact ⟨[], k, ks, rfl, rfl, hy⟩

def Outcome.replies (o : Outcome ρ) : List (Except Halt ρ) :=
  o.results ++ o.failure.toList.map .error

variable {skip : κ → Bool} {f : ρ → τ}

/-- Whether two outcomes are the same but for the steps that only the first series has. -/
structure Outcome.Matches (skip : κ → Bool) (f : ρ → τ) (ks : List κ) (o o' : Outcome ρ) :
    Prop where
  failure : o.failure = o'.failure
  replies : ((ks.zip o.replies).filter (!skip ·.1)).map (Prod.map id (Except.map f)) =
    ((ks.filter (!skip ·)).zip o'.replies).map (Prod.map id (Except.map f))

namespace Outcome.Matches

variable {o o' : Outcome ρ} {r r' : Except Halt ρ}

theorem skipped (h : o.Matches skip f ks o') (hk : skip k = true) (r : Except Halt ρ) :
    (⟨r :: o.results, o.failure⟩ : Outcome ρ).Matches skip f (k :: ks) o' where
  failure := h.failure
  replies := by
    have hdrop : (k :: ks).filter (!skip ·) = ks.filter (!skip ·) :=
      List.filter_cons_of_neg (by simp [hk])
    rw [hdrop, ← h.replies, Outcome.replies, List.cons_append, List.zip_cons_cons,
      List.filter_cons_of_neg (by simp [hk]), Outcome.replies]

theorem kept (h : o.Matches skip f ks o') (hk : skip k = false) (hr : r.map f = r'.map f) :
    (⟨r :: o.results, o.failure⟩ : Outcome ρ).Matches skip f (k :: ks)
      ⟨r' :: o'.results, o'.failure⟩ where
  failure := h.failure
  replies := by
    have hkeep : (k :: ks).filter (!skip ·) = k :: ks.filter (!skip ·) :=
      List.filter_cons_of_pos (by simp [hk])
    have hrest := h.replies
    rw [Outcome.replies, Outcome.replies] at hrest
    rw [hkeep, Outcome.replies, Outcome.replies, List.cons_append, List.cons_append,
      List.zip_cons_cons, List.zip_cons_cons, List.filter_cons_of_pos (by simp [hk]),
      List.map_cons, List.map_cons, hrest, Prod.map_apply, Prod.map_apply, hr]

theorem stopped (hk : skip k = false) (x : Halt) :
    (⟨[], some x⟩ : Outcome ρ).Matches skip f (k :: ks) ⟨[], some x⟩ where
  failure := rfl
  replies := by
    rw [List.filter_cons_of_pos (by simp [hk])]
    simp [Outcome.replies, hk]

end Outcome.Matches

/-- Steps that never fail and that the others take no notice of can be left out. -/
theorem carryOut_filter {R : σ → σ → Prop}
    (hskip : ∀ s t k, skip k = true → R s t → (∃ r, (act s k).1 = .ok r) ∧ R (act s k).2 t)
    (hkeep : ∀ s t k, skip k = false → R s t →
      (act s k).1.map f = (act t k).1.map f ∧ R (act s k).2 (act t k).2)
    (keepGoing : Bool) (h : R s t) (ks : List κ) :
    let o := carryOut act keepGoing s ks
    let o' := carryOut act keepGoing t (ks.filter (!skip ·))
    R o.2 o'.2 ∧ o.1.Matches skip f ks o'.1 := by
  induction ks generalizing s t with
  | nil => exact ⟨h, rfl, rfl⟩
  | cons k ks ih =>
    cases hk : skip k with
    | true =>
      obtain ⟨⟨r, hr⟩, hrest⟩ := hskip s t k hk h
      obtain ⟨hR, hmatch⟩ := ih hrest
      rw [carryOut_of_ok hr, List.filter_cons_of_neg (by simp [hk])]
      exact ⟨hR, hmatch.skipped hk _⟩
    | false =>
      obtain ⟨hview, hrest⟩ := hkeep s t k hk h
      obtain ⟨hR, hmatch⟩ := ih hrest
      rw [List.filter_cons_of_pos (by simp [hk])]
      cases hr : (act s k).1 with
      | ok r =>
        cases hr' : (act t k).1 with
        | error x => simp [hr, hr', Except.map] at hview
        | ok r' =>
          rw [carryOut_of_ok hr, carryOut_of_ok hr']
          rw [hr, hr'] at hview
          exact ⟨hR, hmatch.kept hk hview⟩
      | error x =>
        cases hr' : (act t k).1 with
        | ok r' => simp [hr, hr', Except.map] at hview
        | error x' =>
          rw [hr, hr'] at hview
          obtain rfl : x = x' := Except.error.inj hview
          rw [carryOut_of_error hr, carryOut_of_error hr']
          split
          · exact ⟨hR, hmatch.kept hk rfl⟩
          · exact ⟨hrest, .stopped hk x⟩

end

end ClassModel
