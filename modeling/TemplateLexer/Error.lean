import TemplateLexer.Construct
import TemplateLexer.Reader

namespace TemplateLexer

/-- The least capacity of a buffer: it must hold a delimiter. -/
def minimumCapacity : Nat := delimiterLength

/-- A template cannot be read on, or not at all, for one of three causes. A construct that is not
closed is none of them. -/
inductive TokenizeError where
  /-- The reader failed when the byte at the offset was wanted. -/
  | readFailed (offset : Nat) (failure : Failure)
  /-- The text that starts at `start` and has these bytes is not valid UTF-8. -/
  | malformedText (start : Nat) (bytes : List UInt8) (fault : Utf8.Fault)
  /-- A buffer of this capacity cannot hold a delimiter. -/
  | capacityTooSmall (capacity : Nat)
  deriving DecidableEq, Repr

namespace TokenizeError

/-- The byte of the template that the error is about. -/
def offset? : TokenizeError → Option Nat
  | readFailed offset _ => some offset
  | malformedText start _ fault => some (start + fault.validLength)
  | capacityTooSmall _ => none

def message : TokenizeError → String
  | readFailed offset _ => "failed to read template source at byte " ++ toString offset
  | malformedText start _ fault =>
      "template source is not valid UTF-8 at byte " ++ toString (start + fault.validLength)
  | capacityTooSmall capacity =>
      "read buffer capacity " ++ toString capacity ++ " is below the minimum of " ++
        toString minimumCapacity ++ " bytes"

/-- What lies behind the error, in the words of the part that found it. -/
def cause? : TokenizeError → Option String
  | readFailed _ failure => some failure.message
  | malformedText _ _ fault => some fault.message
  | capacityTooSmall _ => none

/-- After a failed read the template can be read on from the same place. -/
def isResumable : TokenizeError → Bool
  | readFailed _ _ => true
  | _ => false

end TokenizeError

end TemplateLexer
