import ClassModel.Json
import Mathlib.Data.List.Forall2

namespace ClassModel

namespace Json

inductive Form
  | number (bound : Nat)
  | text
  | name (names : List String)
  | list (item : Form)
  | record (fields : List (String × Form))

/-- That JSON is not of a form. A record may be an object, which may have other entries as well, or
an array of its fields in order, and a name may be the key of an object with only `null` in it. -/
inductive Form.Flawed : Form → Json → Prop
  | number {bound : Nat} {j : Json} : (∀ n < bound, j ≠ ofNat n) → Flawed (number bound) j
  | text {j : Json} : (∀ s, j ≠ string s) → Flawed text j
  | name {names : List String} {j : Json} :
    (∀ s ∈ names, j ≠ string s ∧ j ≠ object [(s, null)]) → Flawed (name names) j
  | list {item : Form} {j : Json} : (∀ js, j ≠ array js) → Flawed (list item) j
  | item {item : Form} {js : List Json} {j : Json} :
    j ∈ js → Flawed item j → Flawed (list item) (array js)
  | record {fields : List (String × Form)} {j : Json} :
    (∀ es, j ≠ object es) → (∀ js, j ≠ array js) → Flawed (record fields) j
  | missing {fields : List (String × Form)} {es : List (String × Json)} {f : String × Form} :
    f ∈ fields → f.1 ∉ es.map Prod.fst → Flawed (record fields) (object es)
  | repeated {fields : List (String × Form)} {es : List (String × Json)} {f : String × Form} :
    f ∈ fields → 1 < (es.map Prod.fst).count f.1 → Flawed (record fields) (object es)
  | field {fields : List (String × Form)} {es : List (String × Json)} {f : String × Form}
    {j : Json} : f ∈ fields → (f.1, j) ∈ es → Flawed f.2 j → Flawed (record fields) (object es)
  | length {fields : List (String × Form)} {js : List Json} :
    js.length ≠ fields.length → Flawed (record fields) (array js)
  | entry {fields : List (String × Form)} {js : List Json} {f : String × Form} {j : Json} :
    (f, j) ∈ fields.zip js → Flawed f.2 j → Flawed (record fields) (array js)

/-- What JSON of a form means: records are objects with just their own entries, in order, and names
are strings. -/
inductive Form.Means : Form → Json → Json → Prop
  | number {bound n : Nat} : n < bound → Means (number bound) (ofNat n) (ofNat n)
  | text {s : String} : Means text (string s) (string s)
  | name {names : List String} {s : String} {j : Json} :
    s ∈ names → j = string s ∨ j = object [(s, null)] → Means (name names) j (string s)
  | list {item : Form} {js ks : List Json} :
    js.length = ks.length → (∀ p ∈ js.zip ks, Means item p.1 p.2) →
    Means (list item) (array js) (array ks)
  | object {fields : List (String × Form)} {es : List (String × Json)} {js ks : List Json} :
    fields.length = js.length → fields.length = ks.length →
    (∀ p ∈ fields.zip js, (p.1.1, p.2) ∈ es) →
    (∀ p ∈ fields.zip (js.zip ks), Means p.1.2 p.2.1 p.2.2) →
    Means (record fields) (object es) (object ((fields.map Prod.fst).zip ks))
  | array {fields : List (String × Form)} {js ks : List Json} :
    fields.length = js.length → fields.length = ks.length →
    (∀ p ∈ fields.zip (js.zip ks), Means p.1.2 p.2.1 p.2.2) →
    Means (record fields) (array js) (object ((fields.map Prod.fst).zip ks))

theorem mapM_eq_none_iff {α β : Type} {g : α → Option β} {as : List α} :
    as.mapM g = none ↔ ∃ a ∈ as, g a = none := by
  induction as with
  | nil => simp
  | cons a as ih =>
    rw [List.mapM_cons, List.exists_mem_cons_iff, ← ih]
    cases g a with
    | none => simp
    | some b => cases as.mapM g <;> simp

theorem forall₂_of_mapM {α β : Type} {g : α → Option β} {as : List α} {bs : List β}
    (h : as.mapM g = some bs) : List.Forall₂ (fun a b ↦ g a = some b) as bs := by
  induction as generalizing bs with
  | nil =>
    obtain rfl := Option.some.inj h
    exact .nil
  | cons a as ih =>
    rw [List.mapM_cons] at h
    simp only [Option.bind_eq_bind, Option.bind_eq_some_iff, Option.pure_def,
      Option.some.injEq] at h
    obtain ⟨b, hb, bs, hbs, rfl⟩ := h
    exact .cons hb (ih hbs)

theorem mapM_map_of_inverse {α β : Type} {f : α → β} {g : β → Option α} (h : ∀ a, g (f a) = some a)
    (as : List α) : (as.map f).mapM g = some as := by
  induction as with
  | nil => rfl
  | cons a as ih => simp [List.mapM_cons, h, ih]

variable {fields : List (String × Form)} {es : List (String × Json)} {vs : List Json}
  {name : String} {j v : Json}

theorem sole?_eq_none_iff :
    sole? es name = none ↔ name ∉ es.map Prod.fst ∨ 1 < (es.map Prod.fst).count name := by
  have hcount : (es.map Prod.fst).count name = (es.filter (·.1 == name)).length := by
    rw [List.count_eq_countP, List.countP_map, List.countP_eq_length_filter]
    rfl
  rw [← List.count_eq_zero, hcount, sole?]
  generalize es.filter (·.1 == name) = fs
  match fs with
  | [] | [e] | e :: e' :: fs => simp

theorem sole?_eq_some_iff :
    sole? es name = some v ↔ es.filter (·.1 == name) = [(name, v)] := by
  have hname : ∀ e ∈ es.filter (·.1 == name), e.1 = name := fun e he ↦
    eq_of_beq (List.mem_filter.1 he).2
  rw [sole?]
  generalize es.filter (·.1 == name) = fs at hname
  match fs with
  | [] | e :: e' :: fs => simp
  | [e] =>
    obtain rfl : e.1 = name := hname e (List.mem_singleton_self e)
    simp [Prod.ext_iff]

theorem mem_of_sole? (hv : sole? es name = some v) : (name, v) ∈ es :=
  (List.mem_filter.1 (sole?_eq_some_iff.1 hv ▸ List.mem_singleton_self (name, v))).1

theorem eq_of_sole? (hv : sole? es name = some v) (hj : (name, j) ∈ es) : j = v := by
  have hmem : (name, j) ∈ es.filter (·.1 == name) := List.mem_filter.2 ⟨hj, beq_self_eq_true _⟩
  rw [sole?_eq_some_iff.1 hv, List.mem_singleton] at hmem
  exact congrArg Prod.snd hmem

theorem natBelow?_eq_some_iff {bound n : Nat} :
    j.natBelow? bound = some n ↔ n < bound ∧ j = ofNat n := by
  refine ⟨fun h ↦ ?_, fun ⟨hn, hj⟩ ↦ hj ▸ natBelow?_ofNat hn⟩
  unfold natBelow? at h
  split at h
  · simp only [Option.ite_none_right_eq_some, Option.some.injEq] at h
    obtain ⟨hn, rfl⟩ := h
    exact ⟨hn, rfl⟩
  · cases h

theorem natBelow?_eq_none_iff {bound : Nat} :
    j.natBelow? bound = none ↔ Form.Flawed (.number bound) j := by
  rw [Option.eq_none_iff_forall_ne_some]
  refine ⟨fun h ↦ .number fun n hn hj ↦ h n (natBelow?_eq_some_iff.2 ⟨hn, hj⟩), fun h n hs ↦ ?_⟩
  cases h with
  | number hne =>
    obtain ⟨hn, hj⟩ := natBelow?_eq_some_iff.1 hs
    exact hne n hn hj

theorem string?_eq_some_iff {s : String} : j.string? = some s ↔ j = string s := by
  cases j with
  | string s' => simp [string?]
  | _ => simp [string?]

theorem string?_eq_none_iff : j.string? = none ↔ Form.Flawed .text j := by
  rw [Option.eq_none_iff_forall_ne_some]
  refine ⟨fun h ↦ .text fun s hj ↦ h s (string?_eq_some_iff.2 hj), fun h s hs ↦ ?_⟩
  cases h with
  | text hne => exact hne s (string?_eq_some_iff.1 hs)

theorem tag?_eq_some_iff {s : String} :
    j.tag? = some s ↔ j = string s ∨ j = object [(s, null)] := by
  refine ⟨fun h ↦ ?_, ?_⟩
  · unfold tag? at h
    split at h <;> simp_all
  · rintro (rfl | rfl) <;> rfl

theorem tag?_bind_eq_none_iff {α : Type} {g : String → Option α} {names : List String}
    (hg : ∀ s, g s = none ↔ s ∉ names) : (j.tag? >>= g) = none ↔ Form.Flawed (.name names) j := by
  rw [Option.bind_eq_bind, Option.bind_eq_none_iff]
  refine ⟨fun h ↦ .name fun s hs ↦ ?_, fun h s hs ↦ ?_⟩
  · rw [← not_or, ← tag?_eq_some_iff]
    exact fun hj ↦ (hg s).1 (h s hj) hs
  · cases h with
    | name hne =>
      refine (hg s).2 fun hmem ↦ ?_
      exact not_or.2 (hne s hmem) (tag?_eq_some_iff.1 hs)

theorem array?_eq_some_iff {js : List Json} : j.array? = some js ↔ j = array js := by
  cases j with
  | array js' => simp [array?]
  | _ => simp [array?]

theorem array?_mapM_eq_none_iff {α : Type} {g : Json → Option α} {item : Form}
    (hg : ∀ j, g j = none ↔ item.Flawed j) :
    (j.array? >>= (·.mapM g)) = none ↔ Form.Flawed (.list item) j := by
  cases hjs : j.array? with
  | none =>
    refine iff_of_true rfl (.list fun js hj ↦ ?_)
    rw [array?_eq_some_iff.2 hj] at hjs
    cases hjs
  | some js =>
    obtain rfl := array?_eq_some_iff.1 hjs
    refine mapM_eq_none_iff.trans ⟨fun ⟨j, hj, hnone⟩ ↦ .item hj ((hg j).1 hnone), fun h ↦ ?_⟩
    cases h with
    | list hne => exact absurd rfl (hne js)
    | item hj hitem => exact ⟨_, hj, (hg _).2 hitem⟩

theorem sole?_of_mem_zip (hvs : (fields.map Prod.fst).mapM (sole? es) = some vs) :
    fields.length = vs.length ∧ ∀ f v, (f, v) ∈ fields.zip vs → sole? es f.1 = some v := by
  have hall := List.forall₂_map_left_iff.1 (forall₂_of_mapM hvs)
  exact ⟨hall.length_eq, fun f v hmem ↦ (List.forall₂_iff_zip.1 hall).2 hmem⟩

theorem exists_mem_zip {α β : Type} {as : List α} {bs : List β} (hl : as.length = bs.length)
    {a : α} (ha : a ∈ as) : ∃ b, (a, b) ∈ as.zip bs := by
  rw [← List.map_fst_zip (Nat.le_of_eq hl)] at ha
  obtain ⟨⟨a, b⟩, hmem, rfl⟩ := List.mem_map.1 ha
  exact ⟨b, hmem⟩

theorem flawed_object_iff :
    Form.Flawed (.record fields) (object es) ↔
      ∀ vs, (fields.map Prod.fst).mapM (sole? es) = some vs →
        ∃ p ∈ fields.zip vs, p.1.2.Flawed p.2 := by
  refine ⟨fun h vs hvs ↦ ?_, fun h ↦ ?_⟩
  · obtain ⟨hlength, hsole⟩ := sole?_of_mem_zip hvs
    have hsome {f : String × Form} (hf : f ∈ fields) :
        ∃ v, (f, v) ∈ fields.zip vs ∧ sole? es f.1 = some v := by
      obtain ⟨v, hv⟩ := exists_mem_zip hlength hf
      exact ⟨v, hv, hsole f v hv⟩
    cases h with
    | record hne => exact absurd rfl (hne es)
    | missing hf hmissing =>
      obtain ⟨v, -, hv⟩ := hsome hf
      rw [sole?_eq_none_iff.2 (.inl hmissing)] at hv
      cases hv
    | repeated hf hcount =>
      obtain ⟨v, -, hv⟩ := hsome hf
      rw [sole?_eq_none_iff.2 (.inr hcount)] at hv
      cases hv
    | field hf hj hflawed =>
      obtain ⟨v, hmem, hv⟩ := hsome hf
      obtain rfl := eq_of_sole? hv hj
      exact ⟨_, hmem, hflawed⟩
  · cases hvs : (fields.map Prod.fst).mapM (sole? es) with
    | none =>
      obtain ⟨name, hname, hnone⟩ := mapM_eq_none_iff.1 hvs
      obtain ⟨f, hf, rfl⟩ := List.mem_map.1 hname
      rcases sole?_eq_none_iff.1 hnone with hmissing | hcount
      · exact .missing hf hmissing
      · exact .repeated hf hcount
    | some vs =>
      obtain ⟨⟨f, v⟩, hmem, hflawed⟩ := h vs hvs
      have hv := (sole?_of_mem_zip hvs).2 f v hmem
      exact .field (List.of_mem_zip hmem).1 (mem_of_sole? hv) hflawed

theorem flawed_array_iff {js : List Json} :
    Form.Flawed (.record fields) (array js) ↔
      (js.length = fields.length → ∃ p ∈ fields.zip js, p.1.2.Flawed p.2) := by
  refine ⟨fun h hlength ↦ ?_, fun h ↦ ?_⟩
  · cases h with
    | record _ hne => exact absurd rfl (hne js)
    | length hne => exact absurd hlength hne
    | entry hmem hflawed => exact ⟨_, hmem, hflawed⟩
  · by_cases hlength : js.length = fields.length
    · obtain ⟨p, hmem, hflawed⟩ := h hlength
      exact .entry hmem hflawed
    · exact .length hlength

theorem flawed_record_iff :
    Form.Flawed (.record fields) j ↔ ∀ vs, j.record? (fields.map Prod.fst) = some vs →
      ∃ p ∈ fields.zip vs, p.1.2.Flawed p.2 := by
  cases j with
  | object es => exact flawed_object_iff
  | array js =>
    rw [flawed_array_iff, record?, List.length_map]
    simp
  | _ => exact iff_of_true (.record (by simp) (by simp)) (by simp [record?])

theorem length_of_record? {names : List String} (h : j.record? names = some vs) :
    vs.length = names.length := by
  cases j with
  | object es => exact (forall₂_of_mapM h).length_eq.symm
  | array js =>
    simp only [record?, Option.ite_none_right_eq_some, Option.some.injEq] at h
    rw [← h.2]
    exact h.1
  | _ => cases h

theorem means_number {bound n : Nat} (h : j.natBelow? bound = some n) :
    Form.Means (.number bound) j (ofNat n) := by
  obtain ⟨hn, rfl⟩ := natBelow?_eq_some_iff.1 h
  exact .number hn

theorem means_text {s : String} (h : j.string? = some s) : Form.Means .text j (string s) := by
  obtain rfl := string?_eq_some_iff.1 h
  exact .text

theorem means_list {α : Type} {g : Json → Option α} {write : α → Json} {item : Form} {as : List α}
    (hg : ∀ j a, g j = some a → item.Means j (write a)) {js : List Json}
    (hjs : j.array? = some js) (h : js.mapM g = some as) :
    Form.Means (.list item) j (array (as.map write)) := by
  obtain rfl := array?_eq_some_iff.1 hjs
  have hwritten : List.Forall₂ item.Means js (as.map write) :=
    List.forall₂_map_right_iff.2 ((forall₂_of_mapM h).imp hg)
  exact .list hwritten.length_eq fun _ hmem ↦ (List.forall₂_iff_zip.1 hwritten).2 hmem

theorem means_record (ks : List Json)
    (hvs : j.record? (fields.map Prod.fst) = some vs) (hks : fields.length = ks.length)
    (h : ∀ p ∈ fields.zip (vs.zip ks), p.1.2.Means p.2.1 p.2.2) :
    Form.Means (.record fields) j (object ((fields.map Prod.fst).zip ks)) := by
  have hlength : fields.length = vs.length :=
    ((length_of_record? hvs).trans (List.length_map _)).symm
  cases j with
  | object es =>
    have hsole := (sole?_of_mem_zip hvs).2
    exact .object hlength hks (fun p hmem ↦ mem_of_sole? (hsole p.1 p.2 hmem)) h
  | array js =>
    simp only [record?, Option.ite_none_right_eq_some, Option.some.injEq] at hvs
    obtain ⟨-, rfl⟩ := hvs
    exact .array hlength hks h
  | _ => cases hvs

end Json

end ClassModel
