namespace ClassModel

structure Members (F M I : Type) where
  fields : List F
  methods : List M
  innerTypes : List I

def Members.none {F M I : Type} : Members F M I := ⟨[], [], []⟩

namespace Members

variable {F M I : Type}

def addField (ms : Members F M I) (f : F) : Members F M I := { ms with fields := ms.fields ++ [f] }

def addMethod (ms : Members F M I) (m : M) : Members F M I :=
  { ms with methods := ms.methods ++ [m] }

def addInnerType (ms : Members F M I) (i : I) : Members F M I :=
  { ms with innerTypes := ms.innerTypes ++ [i] }

def removeField (ms : Members F M I) (p : F → Bool) : Members F M I :=
  { ms with fields := ms.fields.eraseP p }

def removeMethods (ms : Members F M I) (p : M → Bool) : Members F M I :=
  { ms with methods := ms.methods.filter fun m ↦ !p m }

end Members

end ClassModel
