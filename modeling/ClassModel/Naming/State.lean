import ClassModel.Naming.Rename

namespace ClassModel

variable {F M I α ι : Type}

instance [Renames α] : Renames (Handle α) where
  rename f h := { h with decl := rename f h.decl }
  rename_id h := by simp
  rename_rename f g h := by simp

instance : Renames ClassRef where
  rename f c := { c with header := rename f c.header }
  rename_id c := by simp
  rename_rename f g c := by simp

instance : Renames ClassNode where
  rename f c := ⟨rename f c.ref, rename f c.body⟩
  rename_id c := by simp
  rename_rename f g c := by simp

instance [Renames α] : Renames (Numbered α) where
  rename f s := ⟨rename f s.items⟩
  rename_id s := by simp
  rename_rename f g s := by simp

instance : Renames ClassTable where
  rename f t := { t with classes := rename f t.classes }
  rename_id t := by simp
  rename_rename f g t := by simp

instance : Renames Draft where
  rename f d := { d with table := rename f d.table }
  rename_id d := by simp
  rename_rename f g d := by simp

instance : Renames Edited where
  rename f
    | .addedClass c => .addedClass (rename f c)
    | .addedField h => .addedField (rename f h)
    | .addedMethod h => .addedMethod (rename f h)
    | .removedField h => .removedField (rename f h)
    | .removedMethods hs => .removedMethods (rename f hs)
  rename_id e := by cases e <;> simp
  rename_rename f g e := by cases e <;> simp

instance [Renames α] : Renames (Synthetic α) where
  rename f s := { s with method := rename f s.method }
  rename_id s := by simp
  rename_rename f g s := by simp

instance [Renames α] : Renames (Cell α) where
  rename f c := { c with entry := c.entry.map fun e ↦ (e.1, rename f e.2) }
  rename_id c := by simp
  rename_rename f g c := by simp [Function.comp_def]

instance [Renames α] [Renames ι] : Renames (Listing α ι) where
  rename f l := ⟨rename f l.list, rename f l.index⟩
  rename_id l := by simp
  rename_rename f g l := by simp

instance : Renames Owner where
  rename f o := { o with name := rename f o.name }
  rename_id o := by simp
  rename_rename f g o := by simp

instance [Renames F] [Renames M] [Renames I] : Renames (Cache F M I) where
  rename f c := { c with
    owner := rename f c.owner, constructors := rename f c.constructors
    fields := rename f c.fields, methods := rename f c.methods
    innerTypes := rename f c.innerTypes, values := rename f c.values
    valueOf := rename f c.valueOf }
  rename_id c := by simp
  rename_rename f g c := by simp

instance [Renames F] [Renames M] [Renames I] : Renames (Answer F M I) where
  rename f
    | .fields fs => .fields (rename f fs)
    | .methods ms => .methods (rename f ms)
    | .innerTypes is => .innerTypes (rename f is)
    | .field a => .field (rename f a)
    | .innerType a => .innerType (rename f a)
    | .enumMethod r => .enumMethod (rename f r)
  rename_id a := by cases a <;> simp
  rename_rename f g a := by cases a <;> simp

instance [Renames M] : Renames (Creation M) where
  rename f c := { c with result := rename f c.result }
  rename_id c := by simp
  rename_rename f g c := by simp

instance [Named M] : Named (Creation M) where
  names c := names c.result
  rename_congr h := congrArg (Creation.mk · _) (Named.rename_congr h)

instance [Renames α] : Renames (Outcome α) where
  rename f o := { o with results := rename f o.results }
  rename_id o := by simp
  rename_rename f g o := by simp

instance : Renames OpenCache where
  rename f o := { o with
    owner := rename f o.owner, augments := rename f o.augments, cache := rename f o.cache }
  rename_id o := by simp
  rename_rename f g o := by simp

instance : Renames Workspace where
  rename f w := { w with tables := rename f w.tables, caches := rename f w.caches }
  rename_id w := by simp
  rename_rename f g w := by simp

instance : Renames Response where
  rename f
    | .answer a => .answer (rename f a)
    | .dropped => .dropped
    | .owner name => .owner (rename f name)
  rename_id r := by cases r <;> simp
  rename_rename f g r := by cases r <;> simp

instance : Renames Acted where
  rename f
    | .edited e => .edited (rename f e)
    | .response r => .response (rename f r)
    | .count n => .count n
  rename_id a := by cases a <;> simp
  rename_rename f g a := by cases a <;> simp

end ClassModel
