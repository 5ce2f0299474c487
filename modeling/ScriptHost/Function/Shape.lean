import ScriptHost.Call.Fault
import ScriptHost.Features
import ScriptHost.Function.Reference

/-!
# From host functions to native functions

The shape of a native function is worked out once, when it is registered, from the
parameters of the host function, their annotations, the kinds that are given explicitly and
the style that is asked for.  `Native.ofHost` does all of it; it fails with a `Failure`
before anything is registered.

Failures of registration and of everything else that is not a call stand here as well:
`Failure` lists the causes, and its wording is derived from them.
-/

namespace ScriptHost

/-- How a parameter of a host function takes arguments. -/
inductive ParameterForm where
  | positional
  | variadic
  | keyword
  | keywordRest
  deriving DecidableEq

/-- A parameter of a host function. -/
structure HostParameter where
  name : String
  hint : Option TypeHint
  form : ParameterForm
  hasDefault : Bool

/-- A function of the host. -/
structure HostFunction where
  parameters : List HostParameter
  result : Option TypeHint
  body : Body
  /-- What the texts among its annotations are evaluated in. -/
  scope : Scope

/-- What is offered as a function. -/
inductive Callable where
  | function (f : HostFunction)
  /-- An object that cannot be called. -/
  | other (d : Datum)

/-- Why a host function has no shape that scripts can call. -/
inductive ShapeError where
  | notCallable (shown : String)
  | variadic (parameter : String)
  | keywordOnly (parameter : String)
  | kindCount (given expected : Nat)
  | tooMany (count : Nat) (limit : Int)
  /-- The text of an annotation could not be evaluated. -/
  | stopped (s : Stop)
  | receiverNeedsKind (parameter : String)
  | receiverNotFirst
  | noHint (parameter : String)
  | unresolved (text parameter : String)
  | noKind (e : KindError)
  | exclusiveInPure
  | methodWithoutReceiver
  | arity (expected actual : Nat)
  | accessorArity (accessor : String) (expected actual : Nat)

namespace ShapeError

/-- The name of the kind of failure. -/
def className : ShapeError → String
  | .tooMany .. => FailureKind.value.name
  | .stopped s => s.className
  | _ => FailureKind.type.name

/-- The wording of the failure for a function of the given name. -/
def message (function : String) : ShapeError → String
  | .notCallable shown => function ++ ": " ++ shown ++ " is not callable"
  | .variadic p => function ++ ": variadic parameter *" ++ p ++ " is not supported"
  | .keywordOnly p =>
    function ++ ": keyword-only parameter " ++ Text.quotedString p ++ " has no default"
  | .kindCount given expected =>
    s!"{function}: {given} parameter type(s) given for {expected} parameter(s)"
  | .tooMany count limit => s!"{function}: {count} parameters exceed the maximum of {limit}"
  | .stopped s => s.wording
  | .receiverNeedsKind p =>
    function ++ ": Mut receiver " ++ Text.quotedString p ++ " needs a type, e.g. Mut[str]"
  | .receiverNotFirst => function ++ ": only the first parameter can be a Mut receiver"
  | .noHint p => function ++ ": cannot infer the type of parameter " ++ Text.quotedString p
  | .unresolved text p =>
    function ++ ": unresolved annotation " ++ Text.quotedString text ++ " on parameter "
      ++ Text.quotedString p
  | .noKind e => e.message
  | .exclusiveInPure => function ++ ": a Mut receiver cannot be called in PURE style"
  | .methodWithoutReceiver =>
    function ++ ": a METHOD style function needs a receiver parameter"
  | .arity expected actual =>
    s!"{function}: expected a function of {expected} parameter(s), got {actual}"
  | .accessorArity accessor expected actual =>
    s!"{accessor} {Text.quotedString function} must take {expected} parameter(s), got {actual}"

end ShapeError

/-- Everything an operation can fail with. -/
inductive Failure where
  | fault (f : Fault)
  | convert (e : ConvertError)
  | features (e : FeatureError)
  | shape (function : String) (e : ShapeError)
  /-- A function table that takes no more functions. -/
  | frozen (table : String)
  /-- A builder that takes no more members. -/
  | finalized
  | disabled (operation : String) (f : Feature)
  | unknownPackage (name : String)
  | badCast (source target : Kind)
  /-- Calls are nested too deep. -/
  | exhausted
  /-- Raised by the host while a type is described. -/
  | interrupted (raised : Raised) (wording : String)

namespace Failure

/-- The argument of the failure to find a package. -/
def unknownPackageText (name : String) : String := "Unknown package " ++ Text.quotedString name

/-- The name of the kind of failure. -/
def className : Failure → String
  | .fault f => f.className
  | .convert e => e.kind.name
  | .features e => e.kind.name
  | .shape _ e => e.className
  | .frozen _ | .finalized => FailureKind.runtime.name
  | .disabled .. => "FeatureDisabledError"
  | .unknownPackage _ => FailureKind.key.name
  | .badCast .. => FailureKind.type.name
  | .exhausted => FailureKind.recursion.name
  | .interrupted .declared _ => "RuntimeScriptError"
  | .interrupted (.kind k) _ => k.name

/-- The wording of the failure. -/
def message (h : Heap) (places : Precision) : Failure → Except ConvertError String
  | .fault f => f.message h places
  | .convert e => .ok e.message
  | .features e => .ok e.message
  | .shape function e => .ok (e.message function)
  | .frozen table => .ok ("Module " ++ table ++ " is frozen")
  | .finalized => .ok "Builder already finalized"
  | .disabled operation f =>
    .ok (operation ++ " requires the " ++ Text.quotedString f.name ++ " feature")
  | .unknownPackage name => .ok (Text.quotedString (unknownPackageText name))
  | .badCast source target => .ok ("Cannot cast " ++ source.name ++ " to " ++ target.name)
  | .exhausted => .ok ConvertError.tooDeep.message
  | .interrupted (.kind .key) wording => .ok (Text.quotedString wording)
  | .interrupted _ wording => .ok wording

end Failure

/-- What is asked for when a host function is made into a native one. -/
structure ShapeRequest where
  name : String
  callable : Callable
  /-- Explicit annotations by position; an entry that is missing leaves the parameter's own. -/
  types : Option (List (Option TypeHint))
  /-- The call style, if it is forced. -/
  style : Option CallStyle
  fallible : Bool
  /-- The kind of a first parameter without annotation, or of a handle without a type. -/
  receiver : Option Kind
  /-- The greatest number of parameters. -/
  limit : Except ConvertError Int
  home : Option EngineId

namespace HostFunction

/-- The parameters that arguments are numbered by; others have to be optional. -/
def positional : List HostParameter → Except ShapeError (List HostParameter)
  | [] => .ok []
  | p :: rest => match p.form with
    | .positional => (positional rest).map (p :: ·)
    | .variadic => .error (.variadic p.name)
    | .keyword => if p.hasDefault then positional rest else .error (.keywordOnly p.name)
    | .keywordRest => positional rest

/-- The name that the annotation of the result is entered under. -/
def resultName : String := "return"

/-- All annotations of a function, that of the result last. -/
def hints (f : HostFunction) : List (String × TypeHint) :=
  (f.parameters.filterMap fun p => p.hint.map (p.name, ·)) ++
    (f.result.map (resultName, ·)).toList

end HostFunction

namespace Param

/-- A parameter by value, or by container if it takes every kind. -/
def byValue (name : String) (kind : Kind) : Param :=
  ⟨name, kind, if kind = .dynamic then .dynamic else .value⟩

/-- The parameter of an exclusive handle whose type is the receiver's. -/
def ofReceiver (name : String) (receiver : Option Kind) : Except ShapeError Param :=
  match receiver with
  | some kind => .ok ⟨name, kind, .exclusive⟩
  | none => .error (.receiverNeedsKind name)

/-- The kind of an annotation as the kind of a parameter. -/
def kindOf (a : TypeHint) : Except ShapeError Kind :=
  match a.kindOf with
  | .ok k => .ok k
  | .error e => .error (.noKind e)

/-- The parameter of an annotation; `first` tells whether it can be a receiver. -/
def ofHint (first : Bool) (name : String) (hint : Option TypeHint)
    (receiver : Option Kind) : Except ShapeError Param :=
  match hint with
  | none => match first, receiver with
    | true, some kind => .ok ⟨name, kind, .reference⟩
    | _, _ => .error (.noHint name)
  | some a => match a.handle?, a with
    | some inner, _ =>
      if first then
        match inner with
        | some a => (kindOf a).map fun kind => ⟨name, kind, .exclusive⟩
        | none => ofReceiver name receiver
      else .error .receiverNotFirst
    | none, .text s => .error (.unresolved s name)
    | none, _ => (kindOf a).map (byValue name)

end Param

namespace ShapeRequest

/-- The explicit annotation of a position. -/
def explicit? (r : ShapeRequest) (i : Nat) : Option TypeHint :=
  (r.types.bind (·[i]?)).join

/-- The parameters from a position on, with the resolved annotations of the function. -/
def params (r : ShapeRequest) (hints : List (String × TypeHint)) :
    Nat → List HostParameter → Except ShapeError (List Param)
  | _, [] => .ok []
  | i, p :: rest => do
    let hint := (r.explicit? i).or (hints.lookup p.name)
    let param ← Param.ofHint (i == 0) p.name hint r.receiver
    let others ← r.params hints (i + 1) rest
    .ok (param :: others)

/-- Makes the first parameter fit a forced style. -/
def applyStyle (style : Option CallStyle) (params : List Param) :
    Except ShapeError (List Param) :=
  match style, params with
  | some .pure, p :: rest =>
    if p.binding = .exclusive then .error .exclusiveInPure else .ok (p :: rest)
  | some .method, p :: rest =>
    if p.binding.isReceiver then .ok (p :: rest)
    else .ok ({ p with binding := .reference } :: rest)
  | some .method, [] => .error .methodWithoutReceiver
  | _, params => .ok params

/-- The kind of the result; an annotation without a kind only says that there is one. -/
def resultKind (hints : List (String × TypeHint)) : Option Kind :=
  (hints.lookup HostFunction.resultName).map fun a => match a.kindOf with
    | .ok k => k
    | .error _ => .dynamic

/-- Checks that the number of parameters is allowed. -/
def checkCount (r : ShapeRequest) (count : Nat) : Except Failure Unit :=
  match r.types with
  | some ts =>
    if ts.length = count then checkLimit else .error (.shape r.name (.kindCount ts.length count))
  | none => checkLimit
where
  checkLimit : Except Failure Unit := match r.limit with
    | .error e => .error (.convert e)
    | .ok limit => if limit < count then .error (.shape r.name (.tooMany count limit)) else .ok ()

end ShapeRequest

/-- The native function of a request. -/
def Native.ofHost (r : ShapeRequest) : Except Failure Native :=
  let refused := fun {α : Type} (x : Except ShapeError α) => x.mapError (Failure.shape r.name)
  match r.callable with
  | .other d => .error (.shape r.name (.notCallable (String.ofList d.exact)))
  | .function f => do
    let positional ← refused (HostFunction.positional f.parameters)
    r.checkCount positional.length
    let hints ← refused ((TypeHint.resolveTogether f.scope f.hints).mapError .stopped)
    let params ← refused (r.params hints 0 positional)
    let params ← refused (ShapeRequest.applyStyle r.style params)
    .ok ⟨r.name, params, r.fallible, ShapeRequest.resultKind hints, f.body, r.home⟩

/-- A native function that has to have a number of parameters. -/
def Native.withArity (f : Native) (n : Nat) (e : Nat → Nat → ShapeError) : Except Failure Native :=
  if f.arity = n then .ok f else .error (.shape f.name (e n f.arity))

end ScriptHost
