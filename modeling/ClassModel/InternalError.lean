namespace ClassModel

structure InternalError where
  message : String
  deriving DecidableEq, Repr

def InternalError.text (e : InternalError) : String := "internal error: " ++ e.message

end ClassModel
