import ScriptHost.Number.Reading
import ScriptHost.Value.Exact

/-!
# Conversions between values

Integers, doubles and single-precision numbers made from other values, and the constructors
of the restricted types.  Every way in which a conversion can fail is a `ConvertError`; its
wording and the kind of failure it is reported as stand beside it.
-/

namespace ScriptHost

/-- The kinds of failure that a host can raise by name. -/
inductive FailureKind where
  | script
  | value
  | type
  | key
  | index
  | runtime
  | overflow
  | zeroDivision
  | attribute
  | recursion
  | badSyntax
  | parsing
  | isDirectory
  | notFound
  | notDirectory
  deriving DecidableEq

/-- The name of a kind of failure. -/
def FailureKind.name : FailureKind → String
  | .script => "ScriptError"
  | .value => "ValueError"
  | .type => "TypeError"
  | .key => "KeyError"
  | .index => "IndexError"
  | .runtime => "RuntimeError"
  | .overflow => "OverflowError"
  | .zeroDivision => "ZeroDivisionError"
  | .attribute => "AttributeError"
  | .recursion => "RecursionError"
  | .badSyntax => "SyntaxError"
  | .parsing => "ParserError"
  | .isDirectory => "IsADirectoryError"
  | .notFound => "FileNotFoundError"
  | .notDirectory => "NotADirectoryError"

/-- Why a conversion fails. -/
inductive ConvertError where
  /-- A text, in its exact form, that is no integer. -/
  | notInteger (shown : String)
  /-- A text, in its exact form, that is no number. -/
  | notNumber (shown : String)
  | nanToInteger
  | infinityToInteger
  | integerTooLarge
  | singleTooLarge
  | roundedTooLarge
  | outOfRange (n : Int) (w : Width)
  | notOneChar (shown : String)
  | noInteger (kind : Kind)
  | noFloat (kind : Kind)
  | noReal (kind : Kind)
  | noLength (kind : Kind)
  | tooManyDigits
  | tooDeep
  deriving DecidableEq

/-- An integer with more digits than this has no decimal text. -/
def digitLimit : Nat := 4300

/-- Whether an integer has too many digits for a text. -/
def tooLong (n : Int) : Bool := decide (digitLimit < (Decimal.digits n.natAbs).length)

namespace ConvertError

/-- How a failed conversion is reported. -/
def kind : ConvertError → FailureKind
  | .notInteger _ | .notNumber _ | .nanToInteger | .notOneChar _ | .tooManyDigits => .value
  | .infinityToInteger | .integerTooLarge | .singleTooLarge | .roundedTooLarge
  | .outOfRange .. => .overflow
  | .noInteger _ | .noFloat _ | .noReal _ | .noLength _ => .type
  | .tooDeep => .recursion

/-- How much of a text that is no integer is shown. -/
def shownLimit : Nat := 200

/-- The wording of a failed conversion. -/
def message : ConvertError → String
  | .notInteger shown =>
    "invalid literal for int() with base 10: " ++ String.ofList (shown.toList.take shownLimit)
  | .notNumber shown => "could not convert string to float: " ++ shown
  | .nanToInteger => "cannot convert float NaN to integer"
  | .infinityToInteger => "cannot convert float infinity to integer"
  | .integerTooLarge => "int too large to convert to float"
  | .singleTooLarge => "float too large to pack with f format"
  | .roundedTooLarge => "rounded value too large to represent"
  | .outOfRange n w => s!"{n} out of range for {w.name}"
  | .notOneChar shown => "Char needs exactly one character, got " ++ shown
  | .noInteger kind =>
    "int() argument must be a string, a bytes-like object or a real number, not "
      ++ Text.quotedString kind.hostName
  | .noFloat kind =>
    "float() argument must be a string or a real number, not "
      ++ Text.quotedString kind.hostName
  | .noReal kind => "must be real number, not " ++ kind.hostName
  | .noLength kind => "object of type " ++ Text.quotedString kind.hostName ++ " has no len()"
  | .tooManyDigits =>
    s!"Exceeds the limit ({digitLimit} digits) for integer string conversion; "
      ++ "use sys.set_int_max_str_digits() to increase the limit"
  | .tooDeep => "maximum recursion depth exceeded"

end ConvertError

namespace Floating

variable {F : Format}

/-- The whole part of a number, toward zero. -/
def toInteger (x : Floating F) : Except ConvertError Int :=
  match x with
  | .nan => .error .nanToInteger
  | .infinite _ => .error .infinityToInteger
  | .finite .. => .ok (x.truncate?.getD 0)

/-- The double nearest to an integer, unless that is infinite. -/
def ofInteger (n : Int) : Except ConvertError Double :=
  let x := ofInt .double n
  if x.isFinite then .ok x else .error .integerTooLarge

end Floating

namespace Scalar

/-- The integer that a scalar converts to. -/
def toInteger (s : Scalar) : Except ConvertError Int :=
  match s with
  | .float x => x.toInteger
  | .single x => x.toInteger
  | _ =>
    match s.integer?, s.text? with
    | some n, _ => .ok n
    | none, some text => match readInteger? text.toList with
      | some n => .ok n
      | none => .error (.notInteger (String.ofList s.exact))
    | none, none => .error (.noInteger s.kind)

/-- The double that a number is. -/
def real (s : Scalar) : Except ConvertError Double :=
  match s with
  | .float x => .ok x
  | .single x => .ok x.toDouble
  | _ => match s.integer? with
    | some n => Floating.ofInteger n
    | none => .error (.noReal s.kind)

/-- The double that a scalar converts to, numbers in texts included. -/
def toDouble (s : Scalar) : Except ConvertError Double :=
  match s.text? with
  | some text => match readDouble? text.toList with
    | some x => .ok x
    | none => .error (.notNumber (String.ofList s.exact))
  | none => match s.real with
    | .error (.noReal kind) => .error (.noFloat kind)
    | answer => answer

end Scalar

namespace Datum

/-- The integer that a datum converts to. -/
def toInteger : Datum → Except ConvertError Int
  | .scalar s => s.toInteger
  | d => .error (.noInteger d.kind)

/-- The double that a number is. -/
def real : Datum → Except ConvertError Double
  | .scalar s => s.real
  | d => .error (.noReal d.kind)

/-- The double that a datum converts to, numbers in texts included. -/
def toDouble : Datum → Except ConvertError Double
  | .scalar s => s.toDouble
  | d => .error (.noFloat d.kind)

/-- The sized integer that a datum converts to.  An integer that is out of range is shown in the
wording, so it must have a text. -/
def toSized (w : Width) (d : Datum) : Except ConvertError SizedInt := do
  let n ← d.toInteger
  match SizedInt.ofInt? w n with
  | some fitted => .ok fitted
  | none => .error (if tooLong n then .tooManyDigits else .outOfRange n w)

/-- A double as a single-precision number. -/
def singleOf (x : Double) : Except ConvertError Single :=
  match x.toSingle? with
  | some y => .ok y
  | none => .error .singleTooLarge

/-- The single-precision number that a datum converts to. -/
def toSingle (d : Datum) : Except ConvertError Single := do
  singleOf (← d.toDouble)

end Datum
end ScriptHost
