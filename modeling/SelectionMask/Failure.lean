import SelectionMask.Document.Address
import SelectionMask.MaskError

set_option autoImplicit false

/-! # Failures

How a computation can end without a mask. An error of the query names the node to blame, if one is
to blame. A selection set that holds what it cannot hold, and a fragment that narrows an abstract
type which no field yields, are mistakes of the calling program; a hook may refuse with a text of
its own. Only errors of the query can be caught by a hook. -/

namespace SelectionMask

/-- Why a walk ends without paths. -/
inductive Failure where
  /-- An error of the query, with the node to blame. -/
  | mask (error : MaskError) (blamed : Option Address)
  /-- A selection that is no field, spread or fragment. -/
  | unexpectedSelection (kind : String)
  /-- A fragment narrows an abstract type, but no field yields that type. -/
  | noEnclosingField (fragmentType currentType : Name)
  /-- A hook refuses. -/
  | refused (text : String)
  /-- The walk was given less depth than it needs. -/
  | exhausted
deriving DecidableEq, Repr

namespace Failure

/-- The text of the failure. -/
def message : Failure → String
  | mask error _ => error.message
  | unexpectedSelection kind => "programming error: unexpected selection " ++ kind
  | noEnclosingField fragmentType currentType =>
      "programming error: fragment on " ++ fragmentType ++ " narrows abstract type " ++ currentType
        ++ " without an enclosing field"
  | refused text => text
  | exhausted => "the walk is too deep"

/-- The error of the query, if it is one. -/
def maskError? : Failure → Option MaskError
  | mask error _ => some error
  | _ => none

end Failure

end SelectionMask
