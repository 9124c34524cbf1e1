import Gatekeeper.Decimal.Binary

set_option autoImplicit false

/-!
# JSON values

Whole numbers that fit 64 bits are kept exactly; all others are double-precision numbers. The
members of an object are in the order of their names, each name once: `Members.insert` keeps it so.
-/

namespace Gatekeeper

/-- A number in a JSON text. -/
inductive JsonNumber
  /-- A whole number of at least `- 2 ^ 63` and below `2 ^ 64`. -/
  | whole (n : Int)
  | double (x : Decimal.Binary)
  deriving DecidableEq, Repr

/-- A JSON value. -/
inductive Json
  | null
  | bool (b : Bool)
  | number (n : JsonNumber)
  | string (s : String)
  | array (items : List Json)
  | object (members : List (String × Json))
  deriving Repr

namespace Json

instance : Inhabited Json := ⟨null⟩

/-- Puts a member in its place. A member of the same name is replaced. -/
def insertMember (name : String) (value : Json) : List (String × Json) → List (String × Json)
  | [] => [(name, value)]
  | (n, v) :: rest =>
    if name < n then (name, value) :: (n, v) :: rest
    else if name = n then (name, value) :: rest
    else (n, v) :: insertMember name value rest

/-- The object with the given members. Of two members of one name the last counts. -/
def ofMembers (members : List (String × Json)) : Json :=
  object (members.foldl (fun ms m => insertMember m.1 m.2 ms) [])

/-- A whole number. -/
def ofNat (n : Nat) : Json := number (.whole n)

/-- The member of an object with the given name. -/
def get? (name : String) : Json → Option Json
  | object members => members.lookup name
  | _ => none

/-- The text of a string. -/
def text? : Json → Option String
  | string s => some s
  | _ => none

/-- The items of an array. -/
def items? : Json → Option (List Json)
  | array items => some items
  | _ => none

/-- The value of a number that is whole and not negative. -/
def nat? : Json → Option Nat
  | number (.whole (.ofNat n)) => some n
  | _ => none

/-- The value of a truth value. -/
def bool? : Json → Option Bool
  | bool b => some b
  | _ => none

end Json

end Gatekeeper
