import ClassModel.Proofs.Cache.Provenance
import ClassModel.Proofs.Cache.Run
import ClassModel.Table.Basic

namespace ClassModel

variable {F M I : Type}

/-- Whether the count never decreases in a run, and every change of the members is followed, before
the next query, by a larger count or a drop. The run starts at the moment `m`, and `owed` says
whether a change has yet to be followed so. -/
def Announced (m : Moment F M I) (owed : Prop) : List (Turn F M I) → Prop
  | [] => True
  | .move m' :: ts =>
    m.count ≤ m'.count ∧
      Announced m' (m'.count = m.count ∧ (owed ∨ m'.own ≠ m.own ∨ m'.augments ≠ m.augments)) ts
  | .drop :: ts => Announced m False ts
  | .ask _ :: ts => ¬owed ∧ Announced m owed ts

theorem Counter.lt_increment {c : Counter} (h : c.count.toNat + 1 < UInt64.size) :
    c.count < c.increment.count := by
  rw [UInt64.lt_iff_toNat_lt, increment, UInt64.toNat_add]
  have hsize : UInt64.size = 18446744073709551616 := rfl
  simp only [UInt64.reduceToNat]
  omega

theorem Counter.toNat_increment {c : Counter} (h : c.count.toNat + 1 < UInt64.size) :
    c.increment.count.toNat = c.count.toNat + 1 := by
  rw [increment, UInt64.toNat_add]
  have hsize : UInt64.size = 18446744073709551616 := rfl
  simp only [UInt64.reduceToNat]
  omega

variable [Member F] [MethodMember M] [Member I]

namespace Cache

/-- Whether everything kept is from a stamp no later than now, and what is from just now is from the
present members, unless a change is owed. -/
def Trusted (m : Moment F M I) (owed : Prop) (c : Cache F M I) : Prop :=
  c.DerivedFrom fun s v ↦ s.outer ≤ m.count ∧ s.inner ≤ c.drops.count ∧
    (s = c.stamp m → ¬owed → v = m.merged c.settings)

variable {c : Cache F M I} {m m' : Moment F M I} {owed : Prop}

theorem Trusted.move (h : c.Trusted m owed) (hm : m.count ≤ m'.count) :
    c.Trusted m' (m'.count = m.count ∧ (owed ∨ m'.own ≠ m.own ∨ m'.augments ≠ m.augments)) := by
  refine DerivedFrom.mono h fun s v ⟨ho, hi, hv⟩ ↦ ⟨UInt64.le_trans ho hm, hi, ?_⟩
  intro hs howed
  have hso : s.outer = m'.count := congrArg Stamp.outer hs
  have hcount : m'.count = m.count := UInt64.le_antisymm (hso ▸ ho) hm
  simp only [hcount, true_and, not_or, Classical.not_not] at howed
  obtain ⟨hn, hown, haug⟩ := howed
  have hmerged : m'.merged c.settings = m.merged c.settings := by
    rw [Moment.merged, Moment.merged, hown, haug]
  rw [hmerged]
  exact hv (by rw [hs, stamp, stamp, hcount]) hn

theorem Trusted.drop (h : c.Trusted m owed) (hd : c.drops.count.toNat + 1 < UInt64.size) :
    c.drop.Trusted m False := by
  have hlt : c.drops.count < c.drop.drops.count := Counter.lt_increment hd
  have hc : c.drop.DerivedFrom fun s v ↦ s.outer ≤ m.count ∧ s.inner ≤ c.drops.count ∧
      (s = c.stamp m → ¬owed → v = m.merged c.settings) :=
    ⟨h.constructors, h.fields, h.methods, h.innerTypes⟩
  refine hc.mono fun s v ⟨ho, hi, _⟩ ↦ ⟨ho, UInt64.le_of_lt (UInt64.lt_of_le_of_lt hi hlt), ?_⟩
  intro hs _
  have hsi : s.inner = c.drop.drops.count := congrArg Stamp.inner hs
  exact absurd (hsi ▸ hi) (UInt64.not_le.2 hlt)

/-- A query keeps the trust, whether a change is owed or not. -/
theorem Trusted.kept (h : c.Trusted m owed) (q : Query) : (c.ask m q).2.1.Trusted m owed := by
  have hm : c.stamp m = c.stamp m → ¬owed → m.merged c.settings = m.merged c.settings :=
    fun _ _ ↦ rfl
  obtain ⟨-, h'⟩ := DerivedFrom.ask h ⟨UInt64.le_refl _, UInt64.le_refl _, hm⟩ q
  unfold Trusted stamp
  rw [drops_ask, settings_ask]
  exact h'

/-- A query to which no change is owed keeps the trust and is answered from the present members. -/
theorem Trusted.ask (h : c.Trusted m owed) (hn : ¬owed) (q : Query) :
    (∀ a, (m.merged c.settings).answer? q = some a → (c.ask m q).1 = a) ∧
      (c.ask m q).2.1.Trusted m owed := by
  have hm : c.stamp m = c.stamp m → ¬owed → m.merged c.settings = m.merged c.settings :=
    fun _ _ ↦ rfl
  obtain ⟨⟨v, ⟨-, -, hv⟩, ha⟩, -⟩ :=
    DerivedFrom.ask h ⟨UInt64.le_refl _, UInt64.le_refl _, hm⟩ q
  exact ⟨hv rfl hn ▸ ha, h.kept q⟩

end Cache

theorem Cache.trusted_new (m : Moment F M I) (owner : Owner) (settings : Settings) :
    (Cache.new owner settings : Cache F M I).Trusted m False :=
  derivedFrom_new _ _ _

theorem Hosted.transcript_of_trusted {h : Hosted F M I} {owed : Prop} (ts : List (Turn F M I))
    (hc : h.cache.Trusted h.moment owed) (ha : Announced h.moment owed ts)
    (hd : h.cache.drops.count.toNat + ts.countP Turn.isDrop < UInt64.size) :
    ∀ e ∈ h.transcript ts, ∀ a,
      (e.moment.merged h.cache.settings).answer? e.query = some a → e.answer = a := by
  induction ts generalizing h owed with
  | nil => simp [transcript]
  | cons t ts ih =>
    intro e he
    rw [transcript, List.mem_append] at he
    cases t with
    | move m =>
      have hd' : h.cache.drops.count.toNat + ts.countP Turn.isDrop < UInt64.size := by
        simpa [List.countP_cons, Turn.isDrop] using hd
      exact ih (h := h.turn (.move m)) (hc.move ha.1) ha.2 hd' e (by simpa [exchange?] using he)
    | drop =>
      have hd' : h.cache.drops.count.toNat + (ts.countP Turn.isDrop + 1) < UInt64.size := by
        simpa [List.countP_cons, Turn.isDrop] using hd
      have hlt : h.cache.drops.count.toNat + 1 < UInt64.size := by omega
      refine ih (h := h.turn .drop) (hc.drop hlt) ha ?_ e (by simpa [exchange?] using he)
      have hi : h.cache.drop.drops.count.toNat = h.cache.drops.count.toNat + 1 :=
        Counter.toNat_increment hlt
      simp only [turn, hi]
      omega
    | ask q =>
      obtain ⟨hq, hc'⟩ := hc.ask ha.1 q
      rcases he with he | he
      · obtain rfl : e = ⟨h.moment, q, (h.cache.ask h.moment q).1⟩ := by
          simpa [exchange?] using he
        exact hq
      · have hd' : h.cache.drops.count.toNat + ts.countP Turn.isDrop < UInt64.size := by
          simpa [List.countP_cons, Turn.isDrop] using hd
        have hr := ih (h := h.turn (.ask q)) hc' ha.2 (by simpa [turn, Cache.drops_ask] using hd')
          e he
        rwa [settings_turn] at hr

/-- If a host announces all changes, every answer about the class itself is the one that the
present members give. -/
theorem answer_eq_of_announced (owner : Owner) (settings : Settings) (m : Moment F M I)
    (ts : List (Turn F M I)) (ha : Announced m False ts)
    (hd : ts.countP Turn.isDrop < UInt64.size) :
    ∀ e ∈ (⟨.new owner settings, m⟩ : Hosted F M I).transcript ts, ∀ a,
      (e.moment.merged settings).answer? e.query = some a → e.answer = a :=
  Hosted.transcript_of_trusted (h := ⟨.new owner settings, m⟩) ts
    (Cache.trusted_new m owner settings) ha (by simpa [Cache.new, Counter.zero] using hd)

/-- Of two changes the first is followed by a larger count, the second by a drop. -/
theorem answers_across_two_changes :
    let field (n : Nat) : Handle Field := ⟨.declared n, "x", ⟨"int", 0⟩, .none, .dummy, .source⟩
    let moment (count : UInt64) (fields : List (Handle Field)) :
        Moment (Handle Field) (Handle Method) ClassRef :=
      ⟨count, ⟨fields, [], []⟩, ⟨[field 0], [], []⟩, fun _ ↦ ⟨.error ⟨"none"⟩, []⟩,
        fun _ ↦ none, fun _ ↦ [], fun _ ↦ none⟩
    let ts := [.ask .fields, .move (moment 0 [field 1]), .move (moment 1 [field 1]),
      .ask (.findField "x" false), .move (moment 1 []), .drop, .ask .fields]
    Announced (moment 0 []) False ts ∧ ts.countP Turn.isDrop < UInt64.size ∧
      ∀ e ∈ (⟨.new ⟨some "A", false, .dummy⟩ {}, moment 0 []⟩ : Hosted _ _ _).transcript ts, ∀ a,
        (e.moment.merged {}).answer? e.query = some a → e.answer = a := by
  intro field moment ts
  have ha : Announced (moment 0 []) False ts := by
    simp [ts, moment, Announced]
  have hd : ts.countP Turn.isDrop < UInt64.size := by
    rw [show ts.countP Turn.isDrop = 1 by simp [ts, List.countP_cons, Turn.isDrop]]
    decide
  exact ⟨ha, hd, answer_eq_of_announced _ {} _ ts ha hd⟩

end ClassModel
