import Gatekeeper.Text.Decimal

set_option autoImplicit false

/-!
# TOML values

What a TOML document says, without its layout. Numbers with a fraction and dates have no meaning to
this library and are kept as they are written.
-/

namespace Gatekeeper.Toml

/-- A value of a TOML document. -/
inductive Value
  | string (s : String)
  | integer (n : Int)
  | float (text : List Char)
  | boolean (b : Bool)
  | date (text : List Char)
  | array (items : List Value)
  | table (fields : List (String × Value))
  deriving Repr

namespace Value

instance : Inhabited Value := ⟨boolean false⟩

/-- Whether every integer in a value is at least `low` and at most `high`. -/
def integersWithin (low high : Int) : Value → Bool
  | integer n => low ≤ n && n ≤ high
  | array items => itemsWithin items
  | table fields => fieldsWithin fields
  | _ => true
where
  /-- The same for several values. -/
  itemsWithin : List Value → Bool
    | [] => true
    | v :: vs => integersWithin low high v && itemsWithin vs
  /-- The same for the values of several fields. -/
  fieldsWithin : List (String × Value) → Bool
    | [] => true
    | (_, v) :: fs => integersWithin low high v && fieldsWithin fs

end Value

end Gatekeeper.Toml
