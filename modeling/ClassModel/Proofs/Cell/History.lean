import ClassModel.Proofs.Cell.Locked

namespace ClassModel

variable {σ ε ε' α : Type}

namespace Cell

/-- What is asked of a cell. With it goes what making a value comes to if it has to be made. -/
inductive Call (ε α : Type)
  /-- Asks for the value at a stamp, where making it can be broken off but not fail. -/
  | get (s : Stamp) (made : Except (Lapse Empty) α)
  | tryGet (s : Stamp) (made : Except (Lapse ε) α)
  /-- Asks for the value at a stamp only if there is one. -/
  | current (s : Stamp)

inductive Reply (ε α : Type)
  | value (r : Except (Lapse ε) α)
  | current (a : Option α)

def Call.demand? : Call ε α → Option (Stamp × Except (Lapse ε) α)
  | .get s made => some (s, made.mapError (Lapse.map Empty.elim))
  | .tryGet s made => some (s, made)
  | .current _ => none

structure Record (ε α : Type) where
  call : Call ε α
  runs : Nat
  reply : Reply ε α
  computations : Nat

def Record.made? (r : Record ε α) : Option (Stamp × α) :=
  if r.runs = 0 then none else r.call.demand?.bind fun d ↦ d.2.toOption.map (d.1, ·)

def latest? (rs : List (Record ε α)) : Option (Stamp × α) := rs.reverse.findSome? Record.made?

def call (c : Cell α) : Call ε α → Record ε α × Cell α
  | .get s made =>
    let (r, c') := c.fetch s made
    (⟨.get s made, if c.lacks s then 1 else 0, .value (r.mapError (Lapse.map Empty.elim)),
      c'.computations⟩, c')
  | .tryGet s made =>
    let (r, c') := c.fetch s made
    (⟨.tryGet s made, if c.lacks s then 1 else 0, .value r, c'.computations⟩, c')
  | .current s => (⟨.current s, 0, .current (c.current s), c.computations⟩, c)

end Cell

def LockedCell.call (l : LockedCell α) : Cell.Call ε α → Cell.Record ε α × LockedCell α
  | .get s made =>
    let (r, l', runs) := l.fetch s (.counted made) 0
    (⟨.get s made, runs, .value (r.mapError (Lapse.map Empty.elim)), l'.cell.computations⟩, l')
  | .tryGet s made =>
    let (r, l', runs) := l.fetch s (.counted made) 0
    (⟨.tryGet s made, runs, .value r, l'.cell.computations⟩, l')
  | .current s => (⟨.current s, 0, .current (l.look s), l.cell.computations⟩, l)

namespace Cell

section

variable (step : σ → Call ε α → Record ε α × σ)

def records : σ → List (Call ε α) → List (Record ε α)
  | _, [] => []
  | x, k :: ks => (step x k).1 :: records (step x k).2 ks

def after (x : σ) (ks : List (Call ε α)) : σ := ks.foldl (fun x k ↦ (step x k).2) x

variable {step} {x : σ}

theorem records_append (ks ks' : List (Call ε α)) :
    records step x (ks ++ ks') = records step x ks ++ records step (after step x ks) ks' := by
  induction ks generalizing x with
  | nil => rfl
  | cons k ks ih => exact congrArg _ ih

theorem exists_of_records_eq {ks : List (Call ε α)} {past later : List (Record ε α)}
    {r : Record ε α} (h : records step x ks = past ++ r :: later) :
    ∃ before k behind, ks = before ++ k :: behind ∧ records step x before = past ∧
      (step (after step x before) k).1 = r ∧
      records step (step (after step x before) k).2 behind = later := by
  induction past generalizing x ks with
  | nil =>
    cases ks with
    | nil => cases h
    | cons k ks =>
      obtain ⟨hr, hlater⟩ := List.cons.inj h
      exact ⟨[], k, ks, rfl, rfl, hr, hlater⟩
  | cons r' past ih =>
    cases ks with
    | nil => cases h
    | cons k ks =>
      obtain ⟨hr, hrest⟩ := List.cons.inj h
      obtain ⟨before, k', behind, rfl, hpast, hend⟩ := ih hrest
      exact ⟨k :: before, k', behind, rfl, List.cons_eq_cons.2 ⟨hr, hpast⟩, hend⟩

end

theorem fetch_mapError (f : ε → ε') (c : Cell α) (s : Stamp) (made : Except ε α) :
    c.fetch s (made.mapError f) = ((c.fetch s made).1.mapError f, (c.fetch s made).2) := by
  unfold fetch
  cases c.current s with
  | some a => rfl
  | none => cases made <;> rfl

variable {c : Cell α} {k : Call ε α} {s : Stamp} {made : Except (Lapse ε) α}

theorem call_call (c : Cell α) (k : Call ε α) : (c.call k).1.call = k := by
  cases k <;> rfl

theorem call_of_demand (h : k.demand? = some (s, made)) :
    c.call k = (⟨k, if c.lacks s then 1 else 0, .value (c.fetch s made).1,
      (c.fetch s made).2.computations⟩, (c.fetch s made).2) := by
  cases k with
  | get t made' =>
    cases h
    rw [fetch_mapError]
    rfl
  | tryGet t made' =>
    cases h
    rfl
  | current t => cases h

theorem call_of_current {a : α} (hd : k.demand? = some (s, made)) (hc : c.current s = some a) :
    c.call k = (⟨k, 0, .value (.ok a), c.computations⟩, c) := by
  rw [call_of_demand hd]
  simp [fetch, lacks, hc]

theorem call_of_ok {a : α} (hd : k.demand? = some (s, .ok a)) (hc : c.current s = none) :
    c.call k = (⟨k, 1, .value (.ok a), c.computations + 1⟩, c.store s a) := by
  rw [call_of_demand hd]
  simp [fetch, lacks, hc, store]

theorem call_of_error {e : Lapse ε} (hd : k.demand? = some (s, .error e))
    (hc : c.current s = none) : c.call k = (⟨k, 1, .value (.error e), c.computations⟩, c) := by
  rw [call_of_demand hd]
  simp [fetch, lacks, hc]

/-- A call changes nothing, or what it has made takes the place of what was kept. -/
theorem call_cases (c : Cell α) (k : Call ε α) :
    (c.call k).1.made? = none ∧ (c.call k).2 = c ∨
      ∃ s a, (c.call k).1.made? = some (s, a) ∧ (c.call k).2 = c.store s a := by
  cases hd : k.demand? with
  | none =>
    cases k with
    | current s => exact .inl ⟨rfl, rfl⟩
    | get | tryGet => cases hd
  | some d =>
    obtain ⟨s, made⟩ := d
    cases hc : c.current s with
    | some a => exact .inl (by simp [call_of_current hd hc, Record.made?])
    | none =>
      cases made with
      | error e => exact .inl (by simp [call_of_error hd hc, Record.made?, hd, Except.toOption])
      | ok a => exact .inr ⟨s, a, by simp [call_of_ok hd hc, Record.made?, hd, Except.toOption]⟩

theorem call_of_made?_eq_none (h : (c.call k).1.made? = none) : (c.call k).2 = c := by
  rcases c.call_cases k with ⟨-, hc⟩ | ⟨s, a, hm, -⟩
  · exact hc
  · rw [h] at hm
    cases hm

theorem computations_call (c : Cell α) (k : Call ε α) :
    (c.call k).1.computations = (c.call k).2.computations := by
  cases k <;> rfl

theorem map_call_records (c : Cell α) (ks : List (Call ε α)) :
    (records call c ks).map Record.call = ks := by
  induction ks generalizing c with
  | nil => rfl
  | cons k ks ih => exact List.cons_eq_cons.2 ⟨c.call_call k, ih _⟩

theorem latest?_concat (rs : List (Record ε α)) (r : Record ε α) :
    latest? (rs ++ [r]) = r.made?.or (latest? rs) := by
  rw [latest?, List.reverse_concat, List.findSome?_cons, latest?]
  cases r.made? <;> rfl

/-- Whether a cell is as a series of calls leaves it, going by what can be seen of them. -/
structure Reflects (c : Cell α) (rs : List (Record ε α)) : Prop where
  entry : c.entry = latest? rs
  computations : c.computations = rs.countP fun r ↦ r.made?.isSome

theorem reflects_empty : (empty : Cell α).Reflects ([] : List (Record ε α)) := ⟨rfl, rfl⟩

theorem Reflects.call {rs : List (Record ε α)} (h : c.Reflects rs) (k : Call ε α) :
    (c.call k).2.Reflects (rs ++ [(c.call k).1]) := by
  constructor
  · rw [latest?_concat]
    rcases c.call_cases k with ⟨hm, hc⟩ | ⟨s, a, hm, hc⟩
    · rw [hm, hc, Option.none_or, h.entry]
    · rw [hm, hc, Option.some_or]
      rfl
  · rw [List.countP_append, List.countP_singleton, ← h.computations]
    rcases c.call_cases k with ⟨hm, hc⟩ | ⟨s, a, hm, hc⟩ <;> rw [hm, hc] <;> rfl

theorem Reflects.after {rs : List (Record ε α)} (h : c.Reflects rs) (ks : List (Call ε α)) :
    (Cell.after Cell.call c ks).Reflects (rs ++ records Cell.call c ks) := by
  induction ks generalizing c rs with
  | nil => rwa [records, List.append_nil]
  | cons k ks ih =>
    have hlater := ih (h.call k)
    rwa [List.append_assoc] at hlater

theorem Reflects.current_eq_some_iff {rs : List (Record ε α)} (h : c.Reflects rs) {a : α} :
    c.current s = some a ↔ latest? rs = some (s, a) := by
  rw [Cell.current_eq_some_iff, h.entry]

end Cell

/-- In place a call does the same, with the lock poisoned or not. -/
theorem LockedCell.call_eq (l : LockedCell α) (k : Cell.Call ε α) :
    (l.call k).1 = (l.cell.call k).1 ∧ (l.call k).2.cell = (l.cell.call k).2 := by
  cases k with
  | get s made | tryGet s made =>
    have h := l.fetches_fetch s (.counted made) 0
    refine ⟨?_, h.cell⟩
    simp only [LockedCell.call, Cell.call, h.result, h.cell, h.world, Maker.counted, Nat.zero_add]
  | current s => exact ⟨by simp [LockedCell.call, Cell.call, look], rfl⟩

namespace Cell

theorem records_locked (l : LockedCell α) (ks : List (Call ε α)) :
    records LockedCell.call l ks = records call l.cell ks := by
  induction ks generalizing l with
  | nil => rfl
  | cons k ks ih =>
    obtain ⟨hrecord, hcell⟩ := l.call_eq k
    rw [records, records, hrecord, ih, hcell]

/-- The history of a cell. A value that is asked for is made unless the last value made was made at
the same stamp, which then is the one that is given. Asking for the current value gives it in just
that case and makes none. A call in which no value is made, be it that making it failed or was
broken off, might as well not have been. What is counted is the values that were made. All this is
so in place, too. -/
theorem replies_from_history (calls : List (Call ε α)) :
    let h := records call empty calls
    records LockedCell.call .empty calls = h ∧ h.map Record.call = calls ∧
    ∀ past r later, h = past ++ r :: later →
      (∀ s made, r.call.demand? = some (s, made) →
        (∀ a, latest? past = some (s, a) → r.runs = 0 ∧ r.reply = .value (.ok a)) ∧
        ((∀ a, latest? past ≠ some (s, a)) → r.runs = 1 ∧ r.reply = .value made)) ∧
      (∀ s, r.call = .current s → r.runs = 0 ∧
        ∃ o, r.reply = .current o ∧ ∀ a, o = some a ↔ latest? past = some (s, a)) ∧
      (r.made? = none →
        records call empty (past.map Record.call ++ later.map Record.call) = past ++ later) ∧
      r.computations = (past ++ [r]).countP fun r' ↦ r'.made?.isSome := by
  intro h
  refine ⟨records_locked .empty calls, map_call_records empty calls, fun past r later he ↦ ?_⟩
  obtain ⟨before, k, behind, -, rfl, rfl, rfl⟩ := exists_of_records_eq he
  have hpast : (after call empty before).Reflects (records call empty before) :=
    reflects_empty.after before
  generalize hc : after call empty before = c at hpast ⊢
  refine ⟨fun s made hd ↦ ?_, fun s hk ↦ ?_, fun hm ↦ ?_, ?_⟩
  · rw [call_call] at hd
    refine ⟨fun a ha ↦ ?_, fun hn ↦ ?_⟩
    · rw [call_of_current hd (hpast.current_eq_some_iff.2 ha)]
      exact ⟨rfl, rfl⟩
    · have hcur : c.current s = none :=
        Option.eq_none_iff_forall_ne_some.2 fun a ha ↦ hn a (hpast.current_eq_some_iff.1 ha)
      cases made with
      | ok a =>
        rw [call_of_ok hd hcur]
        exact ⟨rfl, rfl⟩
      | error e =>
        rw [call_of_error hd hcur]
        exact ⟨rfl, rfl⟩
  · rw [call_call] at hk
    subst hk
    exact ⟨rfl, c.current s, rfl, fun a ↦ hpast.current_eq_some_iff⟩
  · rw [map_call_records, map_call_records, records_append, hc, call_of_made?_eq_none hm]
  · rw [computations_call, (hpast.call k).computations]

/-- Two calls at one stamp come to nothing and leave the value of another stamp, which is made again
only behind a value that has taken its place. -/
theorem replies_after_lapses :
    let s : Stamp := ⟨0, 0⟩
    let t : Stamp := ⟨18446744073709551615, 0⟩
    let calls : List (Call String Nat) := [.tryGet s (.ok 1), .tryGet t (.error (.failed "x")),
      .get t (.error .aborted), .get s (.ok 2), .tryGet t (.ok 3), .current s, .get s (.ok 4)]
    let first : Record String Nat := ⟨.tryGet s (.ok 1), 1, .value (.ok 1), 1⟩
    let failed : Record String Nat :=
      ⟨.tryGet t (.error (.failed "x")), 1, .value (.error (.failed "x")), 1⟩
    let aborted : Record String Nat :=
      ⟨.get t (.error .aborted), 1, .value (.error .aborted), 1⟩
    let again : Record String Nat := ⟨.get s (.ok 2), 0, .value (.ok 1), 1⟩
    let other : Record String Nat := ⟨.tryGet t (.ok 3), 1, .value (.ok 3), 2⟩
    let stale : Record String Nat := ⟨.current s, 0, .current none, 2⟩
    let back : Record String Nat := ⟨.get s (.ok 4), 1, .value (.ok 4), 3⟩
    let h := records call empty calls
    h = [first, failed, aborted] ++ again :: [other, stale, back] ∧
      latest? [first, failed, aborted] = some (s, 1) ∧
      again.runs = 0 ∧ again.reply = .value (.ok 1) ∧
      latest? [first, failed, aborted, again, other, stale] = some (t, 3) ∧
      back.runs = 1 ∧ back.reply = .value (.ok 4) ∧
      records call empty ([first, failed].map Record.call ++
        [again, other, stale, back].map Record.call) =
          [first, failed] ++ [again, other, stale, back] ∧
      records LockedCell.call .empty calls = h := by
  intro s t calls first failed aborted again other stale back h
  obtain ⟨hplace, -, hlaw⟩ := replies_from_history calls
  have hagain := hlaw [first, failed, aborted] again [other, stale, back] rfl
  have hback := hlaw [first, failed, aborted, again, other, stale] back [] rfl
  have hout := hlaw [first, failed] aborted [again, other, stale, back] rfl
  obtain ⟨hruns, hreply⟩ := (hagain.1 s _ rfl).1 1 rfl
  have hlatest : latest? [first, failed, aborted, again, other, stale] = some (t, 3) := rfl
  have hts : t ≠ s := by decide
  have hstale (a : Nat) :
      latest? [first, failed, aborted, again, other, stale] ≠ some (s, a) := by
    simp [hlatest, hts]
  obtain ⟨hmade, hvalue⟩ := (hback.1 s _ rfl).2 hstale
  exact ⟨rfl, rfl, hruns, hreply, hlatest, hmade, hvalue, hout.2.2.1 rfl, hplace⟩

end Cell

end ClassModel
