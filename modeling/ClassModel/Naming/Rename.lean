import ClassModel.Workspace

namespace ClassModel

/-- Data in which names occur. -/
class Renames (α : Type) where
  rename : (String → String) → α → α
  rename_id (a : α) : rename id a = a
  rename_rename (f g : String → String) (a : α) : rename g (rename f a) = rename (g ∘ f) a

export Renames (rename)

attribute [simp] Renames.rename_id Renames.rename_rename

class Named (α : Type) extends Renames α where
  names : α → List String
  rename_congr {f g : String → String} {a : α} (h : ∀ n ∈ names a, f n = g n) :
    rename f a = rename g a

export Named (names)

section

variable {α β ε : Type} (f g : String → String)

@[simp] theorem rename_id' [Renames α] : (rename id : α → α) = id := funext Renames.rename_id

@[simp] theorem rename_comp_rename [Renames α] :
    (rename g ∘ rename f : α → α) = rename (g ∘ f) :=
  funext (Renames.rename_rename f g)

instance : Named String where
  rename f s := f s
  rename_id _ := rfl
  rename_rename _ _ _ := rfl
  names s := [s]
  rename_congr h := h _ (List.mem_singleton_self _)

instance [Renames α] : Renames (List α) where
  rename f := List.map (rename f)
  rename_id := by simp
  rename_rename := by simp

instance [Named α] : Named (List α) where
  names := List.flatMap names
  rename_congr h := List.map_congr_left fun a ha ↦
    Named.rename_congr fun n hn ↦ h n (List.mem_flatMap.2 ⟨a, ha, hn⟩)

instance [Renames α] : Renames (Option α) where
  rename f := Option.map (rename f)
  rename_id := by simp
  rename_rename := by simp

instance [Named α] : Named (Option α) where
  names a := a.elim [] names
  rename_congr {f g a} h := by
    cases a with
    | none => rfl
    | some a => exact congrArg some (Named.rename_congr h)

instance [Renames α] [Renames β] : Renames (α × β) where
  rename f := Prod.map (rename f) (rename f)
  rename_id := by simp
  rename_rename := by simp

instance [Renames α] : Renames (Except ε α) where
  rename f := Except.map (rename f)
  rename_id a := by cases a <;> simp [Except.map]
  rename_rename f g a := by cases a <;> simp [Except.map]

instance [Named α] : Named (Except ε α) where
  names a := a.toOption.elim [] names
  rename_congr {f g a} h := by
    cases a with
    | error e => rfl
    | ok a => exact congrArg Except.ok (Named.rename_congr h)

end

section

variable {α β : Type} [Renames α] [Renames β] {f : String → String} {p p' : α → Bool}

theorem rename_append (f : String → String) (as bs : List α) :
    rename f (as ++ bs) = rename f as ++ rename f bs :=
  List.map_append

theorem getD_rename (f : String → String) (o : Option α) (a : α) :
    (rename f o).getD (rename f a) = rename f (o.getD a) := by
  cases o <;> rfl

theorem find?_rename (h : ∀ a, p' (rename f a) = p a) (as : List α) :
    (rename f as).find? p' = rename f (as.find? p) := by
  have hp : p' ∘ rename f = p := funext h
  exact List.find?_map.trans (congrArg (fun p ↦ (as.find? p).map (rename f)) hp)

theorem filter_rename (h : ∀ a, p' (rename f a) = p a) (as : List α) :
    (rename f as).filter p' = rename f (as.filter p) := by
  have hp : p' ∘ rename f = p := funext h
  exact List.filter_map.trans (congrArg (fun p ↦ (as.filter p).map (rename f)) hp)

theorem map_rename {g g' : α → β} (h : ∀ a, g' (rename f a) = rename f (g a)) (as : List α) :
    (rename f as).map g' = rename f (as.map g) := by
  have hg : g' ∘ rename f = rename f ∘ g := funext h
  exact List.map_map.trans ((congrArg (List.map · as) hg).trans List.map_map.symm)

theorem foldl_rename {add : β → α → β}
    (h : ∀ b a, add (rename f b) (rename f a) = rename f (add b a)) (as : List α) (b : β) :
    (rename f as).foldl add (rename f b) = rename f (as.foldl add b) := by
  induction as generalizing b with
  | nil => rfl
  | cons a as ih =>
    change (rename f as).foldl add (add (rename f b) (rename f a)) = _
    rw [h, ih, List.foldl_cons]

end

instance : Named ClassId where
  rename _ i := i
  rename_id _ := rfl
  rename_rename _ _ _ := rfl
  names _ := []
  rename_congr _ := rfl

instance : Renames Nat := ⟨fun _ n ↦ n, fun _ ↦ rfl, fun _ _ _ ↦ rfl⟩

instance : Renames Bool := ⟨fun _ b ↦ b, fun _ ↦ rfl, fun _ _ _ ↦ rfl⟩

instance : Named TypeRef where
  rename f t := { t with name := f t.name }
  rename_id _ := rfl
  rename_rename _ _ _ := rfl
  names t := [t.name]
  rename_congr h := by rw [h _ (List.mem_singleton_self _)]

instance : Named Param where
  rename f p := ⟨rename f p.type, f p.name⟩
  rename_id _ := rfl
  rename_rename _ _ _ := rfl
  names p := names p.type ++ [p.name]
  rename_congr h := by
    simp only [List.mem_append, or_imp, forall_and] at h
    rw [Named.rename_congr h.1, h.2 _ (List.mem_singleton_self _)]

instance : Named Field where
  rename f d := { d with name := f d.name, type := rename f d.type }
  rename_id _ := rfl
  rename_rename _ _ _ := rfl
  names d := d.name :: names d.type
  rename_congr h := by
    rw [List.forall_mem_cons] at h
    rw [h.1, Named.rename_congr h.2]

instance : Named Method where
  rename f d := { d with
    name := f d.name, result := rename f d.result, params := rename f d.params,
    throws := rename f d.throws }
  rename_id d := by simp
  rename_rename f g d := by simp
  names d := d.name :: (names d.result ++ names d.params ++ names d.throws)
  rename_congr h := by
    simp only [List.mem_cons, List.mem_append, or_imp, forall_and, forall_eq] at h
    obtain ⟨hname, ⟨hresult, hparams⟩, hthrows⟩ := h
    rw [hname, Named.rename_congr hresult, Named.rename_congr hparams, Named.rename_congr hthrows]

instance : Named ClassHeader where
  rename f h := { h with name := rename f h.name }
  rename_id h := by simp
  rename_rename f g h := by simp
  names h := names h.name
  rename_congr h := by rw [Named.rename_congr h]

instance {F M I : Type} [Renames F] [Renames M] [Renames I] : Renames (Members F M I) where
  rename f ms := ⟨rename f ms.fields, rename f ms.methods, rename f ms.innerTypes⟩
  rename_id ms := by simp
  rename_rename f g ms := by simp

instance {F M I : Type} [Named F] [Named M] [Named I] : Named (Members F M I) where
  names ms := names ms.fields ++ names ms.methods ++ names ms.innerTypes
  rename_congr {f g ms} h := by
    simp only [List.mem_append, or_imp, forall_and] at h
    obtain ⟨⟨hfields, hmethods⟩, hinner⟩ := h
    change (⟨rename f ms.fields, rename f ms.methods, rename f ms.innerTypes⟩ : Members F M I) =
      ⟨rename g ms.fields, rename g ms.methods, rename g ms.innerTypes⟩
    rw [Named.rename_congr hfields, Named.rename_congr hmethods, Named.rename_congr hinner]

instance : Named Edit where
  rename f
    | .addClass h => .addClass (rename f h)
    | .addInner outer h => .addInner outer (rename f h)
    | .addField id d => .addField id (rename f d)
    | .addMethod id d => .addMethod id (rename f d)
    | .removeField id name => .removeField id (f name)
    | .removeMethods id name => .removeMethods id (f name)
  rename_id e := by cases e <;> simp
  rename_rename f g e := by cases e <;> simp
  names
    | .addClass h | .addInner _ h => names h
    | .addField _ d => names d
    | .addMethod _ d => names d
    | .removeField _ name | .removeMethods _ name => [name]
  rename_congr {f g e} h := by
    cases e with
    | addClass d | addInner _ d => simp only [Named.rename_congr h]
    | addField _ d => simp only [Named.rename_congr h]
    | addMethod _ d => simp only [Named.rename_congr h]
    | removeField _ name | removeMethods _ name => simp only [h name (List.mem_singleton_self _)]

instance : Named Query where
  rename f
    | .findField name bases => .findField (f name) bases
    | .findMethods name bases => .findMethods (f name) bases
    | .findInnerType name bases => .findInnerType (f name) bases
    | q => q
  rename_id q := by cases q <;> rfl
  rename_rename f g q := by cases q <;> rfl
  names
    | .findField name _ | .findMethods name _ | .findInnerType name _ => [name]
    | _ => []
  rename_congr {f g q} h := by
    cases q with
    | findField name _ | findMethods name _ | findInnerType name _ =>
      simp only [h name (List.mem_singleton_self _)]
    | _ => rfl

end ClassModel
