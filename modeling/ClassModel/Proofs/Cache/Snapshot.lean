import ClassModel.Proofs.Cache.Stretch
import Mathlib.Data.List.Induction

namespace ClassModel

variable {F M I : Type} [Member F] [MethodMember M] [Member I]

namespace Hosted

def Reads (h : Hosted F M I) (q : Query) (kind : MemberKind) : Prop :=
  .readOwn kind ∈ (h.cache.ask h.moment q).2.2 ∧
    (h.cache.settings.collectAugments → .readAugments kind ∈ (h.cache.ask h.moment q).2.2)

/-- Whether in the run `ts` members of a kind have been read at the stamp `s`, with the members `v`
there. -/
def HasRead (h : Hosted F M I) (ts : List (Turn F M I)) (kind : MemberKind) (s : Stamp)
    (v : Members F M I) : Prop :=
  ∃ before q since, ts = before ++ .ask q :: since ∧ (h.after before).stamp = s ∧
    (h.after before).Reads q kind ∧ (h.after before).moment.merged h.cache.settings = v

variable {h : Hosted F M I} {ts : List (Turn F M I)} {kind : MemberKind} {s : Stamp}
  {v : Members F M I}

theorem HasRead.concat (hr : h.HasRead ts kind s v) (t : Turn F M I) :
    h.HasRead (ts ++ [t]) kind s v := by
  obtain ⟨before, q, since, rfl, hs, hq, hv⟩ := hr
  exact ⟨before, q, since ++ [t], by simp, hs, hq, hv⟩

theorem hasRead_ask {q : Query}
    (hq : (h.after ts).cache.readEvents kind ⊆
      ((h.after ts).cache.ask (h.after ts).moment q).2.2) :
    h.HasRead (ts ++ [.ask q]) kind (h.after ts).stamp
      ((h.after ts).moment.merged (h.after ts).cache.settings) := by
  refine ⟨ts, q, [], rfl, rfl, ⟨hq ?_, fun hc ↦ hq ?_⟩, by rw [settings_after]⟩
  · unfold Cache.readEvents
    split <;> simp
  · simp [Cache.readEvents, hc]

/-- At any time in a run everything kept stems from what has been read in it. -/
theorem stemsFrom_after (owner : Owner) (settings : Settings) (m : Moment F M I)
    (ts : List (Turn F M I)) :
    let h : Hosted F M I := ⟨.new owner settings, m⟩
    (h.after ts).cache.StemsFrom (h.HasRead ts) := by
  intro h
  induction ts using List.reverseRecOn with
  | nil => exact Cache.stemsFrom_new _ owner settings
  | append_singleton ts t ih =>
    have hc := ih.mono fun kind s v hr ↦ hr.concat t
    rw [after_concat]
    cases t with
    | move m' => exact hc
    | drop => exact hc.drop
    | ask q => exact (hc.ask q fun kind hq ↦ hasRead_ask hq).2

/-- No drop lies between two times in a run at which the stamp is the same. -/
theorem drop_notMem_of_stamp_eq {since : List (Turn F M I)}
    (hd : h.cache.drops.count.toNat + (ts ++ since).countP Turn.isDrop < UInt64.size)
    (he : (h.after (ts ++ since)).stamp = (h.after ts).stamp) : .drop ∉ since := by
  intro hmem
  have hpos : 0 < since.countP Turn.isDrop := List.countP_pos_iff.2 ⟨.drop, hmem, rfl⟩
  have hall := toNat_drops_after hd
  have hcount : (h.after (ts ++ since)).cache.drops.count = (h.after ts).cache.drops.count :=
    congrArg Stamp.inner he
  rw [List.countP_append] at hd hall
  have hd' : h.cache.drops.count.toNat + ts.countP Turn.isDrop < UInt64.size := by omega
  have hbefore := toNat_drops_after hd'
  rw [hcount] at hall
  omega

end Hosted

/-- In any run, an answer about the class itself is the one given by the members as they were at
one reading of their kind, now or earlier, when both counters stood as they do now. There is no
drop between that reading and the answer. -/
theorem answer_from_reading (owner : Owner) (settings : Settings) (m : Moment F M I)
    (ts : List (Turn F M I)) (hd : ts.countP Turn.isDrop < UInt64.size) {q : Query}
    {kind : MemberKind} (hq : q.kind? = some kind) :
    let h : Hosted F M I := ⟨.new owner settings, m⟩
    ∃ before p since, ts ++ [.ask q] = before ++ .ask p :: since ∧ .drop ∉ since ∧
      (h.after before).stamp = (h.after ts).stamp ∧ (h.after before).Reads p kind ∧
      ((h.after before).moment.merged settings).answer? q =
        some ((h.after ts).cache.ask (h.after ts).moment q).1 := by
  intro h
  have hc := (Hosted.stemsFrom_after owner settings m ts).mono fun kind s v hr ↦ hr.concat (.ask q)
  obtain ⟨v, ⟨before, p, since, hsplit, hs, hr, rfl⟩, ha⟩ :=
    (hc.ask q fun kind hq ↦ Hosted.hasRead_ask hq).1 kind hq
  refine ⟨before, p, since, hsplit, ?_, hs, hr, ha⟩
  have hd' : h.cache.drops.count.toNat +
      (before ++ .ask p :: since).countP Turn.isDrop < UInt64.size := by
    rw [← hsplit]
    simpa [h, Cache.new, Counter.zero, Turn.isDrop] using hd
  have he : (h.after (before ++ .ask p :: since)).stamp = (h.after before).stamp := by
    rw [← hsplit, hs, Hosted.after_concat, Hosted.stamp_ask]
    rfl
  exact fun hmem ↦ Hosted.drop_notMem_of_stamp_eq hd' he (List.mem_cons_of_mem _ hmem)

/-- The count goes up and comes back after a drop, while the fields change all the time. -/
theorem answer_from_reading_of_past_visit :
    let field (n : Nat) : Handle Field := ⟨.declared n, "x", ⟨"int", 0⟩, .none, .dummy, .source⟩
    let moment (count : UInt64) (n : Nat) : Moment (Handle Field) (Handle Method) ClassRef :=
      .bare count ⟨[field n], [], []⟩ .none
    let h : Hosted _ _ _ := ⟨.new ⟨some "A", false, .dummy⟩ {}, moment 0 0⟩
    let ts := [.ask .fields, .drop, .move (moment 0 1), .ask .fields, .move (moment 1 2),
      .ask .methods, .move (moment 0 3)]
    ts.countP Turn.isDrop < UInt64.size ∧ (Query.findField "x" false).kind? = some .field ∧
      ∃ before p since, ts ++ [.ask (.findField "x" false)] = before ++ .ask p :: since ∧
        .drop ∉ since ∧ (h.after before).stamp = (h.after ts).stamp ∧
        (h.after before).Reads p .field ∧
        ((h.after before).moment.merged {}).answer? (.findField "x" false) =
          some ((h.after ts).cache.ask (h.after ts).moment (.findField "x" false)).1 := by
  intro field moment h ts
  have hd : ts.countP Turn.isDrop < UInt64.size := by
    rw [show ts.countP Turn.isDrop = 1 by simp [ts, List.countP_cons, Turn.isDrop]]
    decide
  exact ⟨hd, rfl, answer_from_reading _ {} _ ts hd rfl⟩

end ClassModel
