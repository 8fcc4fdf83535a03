import ScriptHost.Error

set_option autoImplicit false

/-!
Budgets: the nesting and the bytes that one conversion may use.
-/

namespace ScriptHost

structure Budget where
  maxDepth : Nat
  maxBytes : Nat
  depth : Nat
  bytes : Nat
  deriving DecidableEq

namespace Budget

def ofLimits (maxDepth maxBytes : Nat) : Budget :=
  ⟨maxDepth, maxBytes, 0, 0⟩

def enter (b : Budget) : Except ConversionError Unit × Budget :=
  let next := { b with depth := b.depth + 1 }
  (if b.maxDepth < next.depth then .error (.tooDeep b.maxDepth) else .ok (), next)

def leave (b : Budget) : Budget :=
  { b with depth := b.depth - 1 }

/-- Charges bytes. Bytes past the limit stay counted, so every later charge is refused too. -/
def charge (b : Budget) (n : Nat) : Except ConversionError Unit × Budget :=
  let next := { b with bytes := b.bytes + n }
  (if b.maxBytes < next.bytes then .error (.tooLarge next.bytes b.maxBytes) else .ok (), next)

end Budget

end ScriptHost
