/-! Arithmetic that states what it relies on.
A procedure is written once, over any monad that offers `require`. In the plain monad the
requirements cost nothing and words wrap; in `Option` a requirement that does not hold stops
the run. A procedure is safe on an input when both runs give the same answer there. -/

namespace Curve25519

/-- A monad in which a procedure may state a condition that it relies on. -/
class MonadRequire (m : Type → Type) where
  require (condition : Prop) [Decidable condition] : m Unit

export MonadRequire (require)

namespace MonadRequire

/-- The plain run takes every requirement for granted. -/
instance : MonadRequire Id where
  require _ _ := ()

/-- The checked run stops at the first requirement that fails. -/
instance : MonadRequire Option where
  require condition _ := if condition then some () else none

end MonadRequire

class LawfulMonadRequire (m : Type → Type) [Monad m] [MonadRequire m] : Prop where
  require_of {condition : Prop} [Decidable condition] (holds : condition) :
    (require condition : m Unit) = pure ()

namespace LawfulMonadRequire

instance : LawfulMonadRequire Id where
  require_of _ := rfl

instance : LawfulMonadRequire Option where
  require_of holds := if_pos holds

end LawfulMonadRequire
end Curve25519
