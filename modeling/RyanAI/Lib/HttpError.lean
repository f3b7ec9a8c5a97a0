import Mathlib.Tactic.Common

/-!
# Errors of an endpoint

An `HTTPException` with its status and detail.
-/

namespace RyanAI.Lib

structure HttpError where
  status : Nat
  detail : String
deriving DecidableEq

/-- `str(e)`. -/
def HttpError.str (e : HttpError) : String := toString e.status ++ ": " ++ e.detail

end RyanAI.Lib
