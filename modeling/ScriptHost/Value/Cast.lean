import ScriptHost.Value.Copy

/-!
# Casts

A container is asked for its payload as a value of some kind.  Kinds are compared exactly,
except that every container can be taken as the container it is.  What a cast gives is a
copy, so changing it leaves the container as it was.
-/

namespace ScriptHost
namespace Heap

/-- Whether the container at an address can be taken as a value of a kind. -/
def isKind (h : Heap) (a : Addr) (k : Kind) : Bool :=
  k == .dynamic || h.kindOf (h.payload a) == k

/-- A copy of the payload if it is of the kind, or of the whole container if that is asked
for. -/
def tryCast (h : Heap) (a : Addr) (k : Kind) : Option Value × Heap :=
  if k = .dynamic then
    let (b, h) := h.clone a
    (some (.ref b), h)
  else if h.kindOf (h.payload a) = k then
    let (v, h) := h.copy (h.payload a)
    (some v, h)
  else (none, h)

end Heap
end ScriptHost
