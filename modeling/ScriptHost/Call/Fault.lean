import ScriptHost.Function.Native
import ScriptHost.Value.Copy
import ScriptHost.Value.Equality
import ScriptHost.Value.Shown

/-!
# Faults

What a call can end with instead of a result.  A fault is a *script error* when scripts are
meant to see it: a call that does not fit the function, a function that is not found, a
declared failure, or a failure that was wrapped because it escaped a function that may not
fail that way.  Everything else a body raises is a failure of the host.

The message of a wrapped failure is fixed when it is wrapped; the message of a raised value
is the text of that value at the time it is asked for, which may itself fail.
-/

namespace ScriptHost

/-- What a call ends with instead of a result. -/
inductive Fault where
  | argumentCount (function : String) (expected actual : Nat)
  /-- The position counts from one. -/
  | argumentKind (function : String) (position : Nat) (expected actual : Kind)
  /-- A failure that escaped a function, with its wording at that time. -/
  | escaped (function : String) (cause : Fault) (wording : String)
  | notFound (function : String) (kinds : List String)
  /-- A declared failure with the payload for the script. -/
  | declared (payload : Value) (wording : String)
  /-- A failure raised by name with a value. -/
  | raised (kind : FailureKind) (argument : Value)
  deriving Inhabited

namespace Fault

/-- A failure of the host with a fixed wording. -/
def worded (kind : FailureKind) (wording : String) : Fault := .raised kind (.string wording)

/-- A failed conversion as a fault. -/
def ofConvert (e : ConvertError) : Fault := worded e.kind e.message

/-- Whether scripts are meant to see the fault. -/
def isScriptError : Fault → Bool
  | .raised kind _ => kind == .script
  | _ => true

/-- The name of the kind of fault. -/
def className : Fault → String
  | .argumentCount .. => "ArgumentCountError"
  | .argumentKind .. => "ArgumentTypeError"
  | .escaped .. => "ErrorInFunctionCall"
  | .notFound .. => "FunctionNotFoundError"
  | .declared .. => "RuntimeScriptError"
  | .raised kind _ => kind.name

end Fault

/-- One of the text forms of a value. -/
def Heap.formText (h : Heap) (places : Precision) (form : TextForm) (v : Value) :
    Except ConvertError String :=
  (match form with
    | .display => h.display places v
    | .debug => h.debug v
    | .markedDebug => h.debugMap v
    | .exact => h.exact v).map String.ofList

/-- The message of a fault. -/
def Fault.message (h : Heap) (places : Precision) : Fault → Except ConvertError String
  | .argumentCount f expected actual =>
    .ok s!"{f}: expected {expected} argument(s), got {actual}"
  | .argumentKind f position expected actual =>
    .ok s!"{f}: argument #{position} must be {expected.name}, got {actual.name}"
  | .escaped f _ wording => .ok (f ++ ": " ++ wording)
  | .notFound f kinds => .ok ("Function not found: " ++ f ++ "(" ++ ", ".intercalate kinds ++ ")")
  | .declared _ wording => .ok wording
  | .raised .key v => h.exactText v
  | .raised _ v => h.shownText places v

end ScriptHost
