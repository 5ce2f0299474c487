import ScriptHost.Call.Fault

/-!
# Operations on values

What each operation of a body does.  `Operation.run` either gives a value and a heap or a
fault, so an operation that fails leaves the heap as it is.  Only four operations change a
cell that exists: `assign`, `push`, `put` and `setField`; a few others add one.
-/

namespace ScriptHost

namespace Value

/-- The scalar that a value is. -/
def scalar? : Value → Option Scalar
  | .scalar s => some s
  | _ => none

/-- The integer that a value is, exactly or by its kind. -/
def integer? (v : Value) : Option Int := v.scalar?.bind Scalar.integer?

/-- The text that a value is. -/
def text? (v : Value) : Option String := v.scalar?.bind Scalar.text?

end Value

namespace Heap

/-- The cell that a value refers to. -/
def cell? (h : Heap) : Value → Option (Addr × Cell)
  | .ref a => (h.get? a).map (a, ·)
  | _ => none

/-- Whether a value counts as true. -/
def truthy (h : Heap) : Value → Bool
  | .scalar s => s.truthy
  | .undefined .. => true
  | .tuple items => !items.isEmpty
  | .ref a => match h.get? a with
    | some (.array items) => !items.isEmpty
    | some (.map entries) => !entries.isEmpty
    | _ => true

/-- A value of a new cell. -/
def allocValue (h : Heap) (c : Cell) : Value × Heap :=
  let (a, h) := h.alloc c
  (.ref a, h)

end Heap

/-- The place in a list that an index means; a negative one counts from the end. -/
def position? (length : Nat) (index : Int) : Option Nat :=
  let i := if index < 0 then index + length else index
  if 0 ≤ i ∧ i < length then some i.toNat else none

/-- Replaces or adds a field. -/
def setField (fields : List (String × Value)) (name : String) (v : Value) :
    List (String × Value) :=
  if fields.any fun field => field.1 == name then
    fields.map fun field => if field.1 == name then (name, v) else field
  else fields ++ [(name, v)]

namespace Operation

/-- The failure of an operation that has no rule for its operands. -/
def unfit (op : Operation) : Except Fault (Value × Heap) :=
  .error (Fault.worded .type op.name)

/-- The length of a string, an array or a map. -/
def lengthOf? (h : Heap) (v : Value) : Option Nat :=
  match v.text?, h.cell? v with
  | some s, _ => some s.length
  | none, some (_, .array items) => some items.length
  | none, some (_, .map entries) => some entries.length
  | none, _ => none

/-- The item of an array under an integer or of a map under a string. -/
def getItem (h : Heap) (v key : Value) : Except Fault (Value × Heap) :=
  match h.cell? v, key with
  | some (_, .array items), .scalar (.int i) =>
    match (position? items.length i).bind fun n => items[n]? with
    | some found => .ok (found, h)
    | none => .error (Fault.worded .index "list index out of range")
  | some (_, .map entries), .scalar (.string s) =>
    match Heap.lookupString? entries s with
    | some found => .ok (found, h)
    | none => .error (.raised .key (.string s))
  | _, _ => item.unfit

/-- Replaces an item of an array or enters a value into a map. -/
def putItem (h : Heap) (v key new : Value) : Except Fault (Value × Heap) :=
  match h.cell? v, key with
  | some (a, .array items), .scalar (.int i) =>
    match position? items.length i with
    | some n => .ok (.unit, h.set a (.array (items.set n new)))
    | none => .error (Fault.worded .index "list assignment index out of range")
  | some (a, .map entries), .scalar (.string s) =>
    .ok (.unit, h.set a (.map (Heap.enterString entries s new)))
  | _, _ => put.unfit

/-- The sum of two integers, two texts or two arrays. -/
def sum (h : Heap) (v w : Value) : Except Fault (Value × Heap) :=
  match v.integer?, w.integer?, v.text?, w.text?, h.cell? v, h.cell? w with
  | some m, some n, _, _, _, _ => .ok (.scalar (.int (m + n)), h)
  | _, _, some s, some t, _, _ => .ok (.string (s ++ t), h)
  | _, _, _, _, some (_, .array vs), some (_, .array ws) => .ok (h.allocValue (.array (vs ++ ws)))
  | _, _, _, _, _, _ => add.unfit

/-- An operation on two integers. -/
def onIntegers (op : Operation) (h : Heap) (v w : Value) (f : Int → Int → Except Fault Int) :
    Except Fault (Value × Heap) :=
  match v.integer?, w.integer? with
  | some m, some n => (f m n).map fun k => (.scalar (.int k), h)
  | _, _ => op.unfit

/-- The quotient rounded down. -/
def floorDiv (m n : Int) : Except Fault Int :=
  if n = 0 then .error (Fault.worded .zeroDivision "integer division or modulo by zero")
  else .ok (m.fdiv n)

/-- A comparison of two integers or two texts. -/
def compare (op : Operation) (h : Heap) (v w : Value) (onInt : Int → Int → Bool)
    (onText : String → String → Bool) : Except Fault (Value × Heap) :=
  match v.integer?, w.integer?, v.text?, w.text? with
  | some m, some n, _, _ => .ok (.scalar (.bool (onInt m n)), h)
  | _, _, some s, some t => .ok (.scalar (.bool (onText s t)), h)
  | _, _, _, _ => op.unfit

/-- What an operation does with the values of its operands. -/
def run (places : Precision) (op : Operation) (operands : List Value) (h : Heap) :
    Except Fault (Value × Heap) :=
  match op, operands with
  | .payload, [v] => match h.cell? v with
    | some (_, .handle slot) => .ok (h.payload slot, h)
    | some (_, .dynamic w) => .ok (w, h)
    | _ => op.unfit
  | .contain, [v] =>
    let (a, h) := h.wrap v
    .ok (.ref a, h)
  | .kindName, [v] => match h.cell? v with
    | some (_, .dynamic w) => .ok (.string (h.kindOf w).name, h)
    | _ => op.unfit
  | .passing, [v] => match h.cell? v with
    | some (_, .handle _) => .ok (.string "mut", h)
    | some (_, .dynamic _) => .ok (.string "dynamic", h)
    | _ => .ok (.string ("value:" ++ (h.kindOf v).name), h)
  | .text form, [v] => match h.formText places form v with
    | .ok s => .ok (.string s, h)
    | .error e => .error (Fault.ofConvert e)
  | .collect, vs => .ok (h.allocValue (.array vs))
  | .length, [v] => match lengthOf? h v with
    | some n => .ok (.scalar (.int n), h)
    | none => op.unfit
  | .field name, [v] => match h.cell? v with
    | some (_, .object _ fields) => match fields.find? fun field => field.1 == name with
      | some (_, w) => .ok (w, h)
      | none => op.unfit
    | _ => op.unfit
  | .item, [v, key] => getItem h v key
  | .add, [v, w] => sum h v w
  | .multiply, [v, w] => onIntegers op h v w fun m n => .ok (m * n)
  | .divide, [v, w] => onIntegers op h v w floorDiv
  | .less, [v, w] => compare op h v w (fun m n => decide (m < n)) (fun s t => decide (s < t))
  | .equal, [v, w] => compare op h v w (· == ·) (· == ·)
  | .assign, [v, new] => match h.cell? v with
    | some (_, .handle slot) => .ok (.unit, h.replace slot new)
    | _ => op.unfit
  | .push, [v, new] => match h.cell? v with
    | some (a, .array items) => .ok (.unit, h.set a (.array (items ++ [new])))
    | _ => op.unfit
  | .put, [v, key, new] => putItem h v key new
  | .setField name, [v, new] => match h.cell? v with
    | some (a, .object cls fields) =>
      .ok (.unit, h.set a (.object cls (ScriptHost.setField fields name new)))
    | _ => op.unfit
  | _, _ => op.unfit

end Operation
end ScriptHost
