/-! Fresh names for one function: names in scope, and names handed out so far. -/
namespace TraceWeave

/-- Largest number put after a name to make it fresh. -/
def maxAttempts : Nat := 100

/-- No candidate for a name was free. -/
structure NameCollision where
  path : String
  base : String
  attempts : Nat
deriving DecidableEq, Repr

namespace NameCollision

def message (error : NameCollision) : String :=
  "could not synthesize a unique name for " ++ error.base ++ " in " ++ error.path ++ " after " ++
    toString error.attempts ++ " attempts"

end NameCollision

/-- Names that cannot be used, and the file they belong to. -/
structure NameSupply where
  path : String
  taken : List String
deriving Repr

namespace NameSupply

def isTaken (supply : NameSupply) (name : String) : Bool := supply.taken.contains name

def reserve (supply : NameSupply) (name : String) : NameSupply :=
  { supply with taken := name :: supply.taken }

/-- The base itself, then the base with each number up to the limit. -/
def candidates (base : String) : List String :=
  base :: (List.range maxAttempts).map fun n => base ++ toString (n + 1)

/-- The first free candidate, which is then taken. -/
def fresh (supply : NameSupply) (base : String) : Except NameCollision (String × NameSupply) :=
  match (candidates base).find? fun name => !supply.isTaken name with
  | some name => .ok (name, supply.reserve name)
  | none => .error ⟨supply.path, base, maxAttempts⟩

end NameSupply
end TraceWeave
