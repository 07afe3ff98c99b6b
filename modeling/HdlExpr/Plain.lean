/-!
# Plain data

Data as document readers produce it, before it becomes a value, how many numbers there are of some
formats, and sums of counts.
-/

namespace HdlExpr

/-- The number of words of 64 bits, which is `2 ^ 64`. -/
abbrev wordCount : Nat := 18446744073709551616

/-- The number of words of 64 bits that are not negative when they are signed, which is
`2 ^ 63`. -/
abbrev halfCount : Nat := 9223372036854775808

/-- The number of doubles from a power of two up to the next, which is `2 ^ 52`. -/
abbrev fractionCount : Nat := 4503599627370496

def total (counts : List Nat) : Nat := counts.foldr (· + ·) 0

/-- A null, a scalar, or a collection. -/
inductive Plain where
  | null
  | bool (b : Bool)
  | int (i : Int)
  | uint (n : Nat)
  | real (x : Float)
  | text (s : String)
  | list (items : List Plain)
  | map (entries : List (String × Plain))
  deriving Inhabited

/-- The name under which a message mentions the type of the data. -/
def Plain.typeName : Plain → String
  | .null => "<nil>"
  | .bool _ => "bool"
  | .int _ => "int64"
  | .uint _ => "uint64"
  | .real _ => "float64"
  | .text _ => "string"
  | .list _ => "[]interface \x7b\x7d"
  | .map _ => "map[string]interface \x7b\x7d"

end HdlExpr
