/-!
Rounding a quotient to a whole number, a half going to the even neighbour.
-/

namespace BoundSql.Rounding

def halfEven (num den : Nat) : Nat :=
  let below := num / den
  let left := num % den
  if 2 * left < den then below
  else if den < 2 * left then below + 1
  else below + below % 2

end BoundSql.Rounding
