import ScriptHost.Table

/-!
# Members of a type and entries of a table

Functions reach a table by several routes, each of which fixes part of the shape.  A `Member`
is a plain function or an accessor: reading or writing a property or an item.  Accessors are
methods with a fixed number of parameters under a reserved name, and they need a feature.
An `Entry` is a registration into a table, free in its shape or with a fixed number of
parameters and a fixed style.

Both are turned into native functions here, for whoever registers them.
-/

namespace ScriptHost

/-- Reading or writing a part of a value. -/
inductive Accessor where
  | getter (name : String)
  | setter (name : String)
  | indexGetter
  | indexSetter
  deriving DecidableEq

namespace Accessor

def getterMark : String := "get$"

def setterMark : String := "set$"

def indexGetterName : String := "index$get$"

def indexSetterName : String := "index$set$"

/-- The name an accessor is registered under. -/
def functionName : Accessor → String
  | .getter name => getterMark ++ name
  | .setter name => setterMark ++ name
  | .indexGetter => indexGetterName
  | .indexSetter => indexSetterName

/-- The number of parameters, the receiver included. -/
def arity : Accessor → Nat
  | .getter _ => 1
  | .setter _ | .indexGetter => 2
  | .indexSetter => 3

/-- What an accessor is called in a message. -/
def title : Accessor → String
  | .getter _ => "Getter"
  | .setter _ => "Setter"
  | .indexGetter => "Index getter"
  | .indexSetter => "Index setter"

/-- The word for an accessor in the name of an operation. -/
def word : Accessor → String
  | .getter _ => "get"
  | .setter _ => "set"
  | .indexGetter => "indexer_get"
  | .indexSetter => "indexer_set"

/-- Properties need maps of objects, indexing needs these or arrays.  The answer is the
feature that is missing. -/
def missing? (fs : Features) : Accessor → Option Feature
  | .getter _ | .setter _ => if fs.has .objectMaps then none else some .objectMaps
  | .indexGetter | .indexSetter =>
    if fs.has .arrays || fs.has .objectMaps then none else some .arrays

end Accessor

/-- A function or an accessor that belongs to a type or an engine. -/
structure Member where
  /-- The accessor, or the name of a plain function. -/
  role : Accessor ⊕ String
  fallible : Bool
  callable : Callable
  /-- Explicit annotations of a plain function. -/
  types : List (Option TypeHint)

/-- Where a native function is made. -/
structure Site where
  limit : Except ConvertError Int
  home : Option EngineId
  receiver : Option Kind

/-- A list of explicit annotations; an empty one is none. -/
def givenTypes (types : List (Option TypeHint)) : Option (List (Option TypeHint)) :=
  if types.isEmpty then none else some types

namespace Member

/-- Checks that the features allow the member, for an operation named by a verb. -/
def check (m : Member) (verb : String) (fs : Features) : Except Failure Unit :=
  match m.role with
  | .inr _ => .ok ()
  | .inl a => match a.missing? fs with
    | none => .ok ()
    | some f =>
      .error (.disabled (verb ++ "_" ++ a.word ++ if m.fallible then "_result" else "") f)

/-- The native function of a member. -/
def toNative (m : Member) (site : Site) : Except Failure Native :=
  match m.role with
  | .inr name =>
    Native.ofHost ⟨name, m.callable, givenTypes m.types, none, m.fallible, site.receiver,
      site.limit, site.home⟩
  | .inl a => do
    let f ← Native.ofHost ⟨a.functionName, m.callable, none, some .method, m.fallible,
      site.receiver, site.limit, site.home⟩
    f.withArity a.arity (.accessorArity a.title)

end Member

/-- The shape that a registration into a table fixes. -/
inductive EntryForm where
  | free (style : Option CallStyle) (fallible : Bool) (receiver : Option Kind)
  /-- So many parameters in a style, failures declared. -/
  | fixed (arity : Nat) (style : CallStyle)

/-- A registration into a table. -/
structure Entry where
  /-- The feature that has to be on. -/
  condition : Option Feature
  name : String
  callable : Callable
  types : List (Option TypeHint)
  form : EntryForm

namespace Entry

/-- Whether the entry is made under the given features. -/
def applies (e : Entry) (fs : Features) : Bool :=
  match e.condition with
  | some f => fs.has f
  | none => true

/-- As many explicit annotations as there are parameters; none if none is given. -/
def fixedTypes (arity : Nat) (types : List (Option TypeHint)) :
    Option (List (Option TypeHint)) :=
  if types.all Option.isNone then none
  else some (types ++ List.replicate (arity - types.length) none)

/-- The native function of an entry. -/
def toNative (e : Entry) (limit : Except ConvertError Int) (home : Option EngineId) :
    Except Failure Native :=
  match e.form with
  | .free style fallible receiver =>
    Native.ofHost ⟨e.name, e.callable, givenTypes e.types, style, fallible, receiver, limit, home⟩
  | .fixed arity style => do
    let f ← Native.ofHost ⟨e.name, e.callable, fixedTypes arity e.types, some style, true, none,
      limit, home⟩
    f.withArity arity .arity

end Entry
end ScriptHost
