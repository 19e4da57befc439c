import Patchbay.Number.Rounding
import Patchbay.Toml.DateTime

/-!
# Values of the option format

Option files are written in TOML. A `Value` is what a key of such a file can hold. Tables keep
their keys in the order in which they were first given.

A table inside another value whose first key is `Value.dateTimeKey` stands for a date or time,
which that key gives as a text. `Value.settle` replaces such tables; the table of the whole
document is left as it is.
-/

namespace Patchbay.Toml

/-- What a key can hold. -/
inductive Value where
  | string (text : String)
  | integer (n : Int)
  | float (x : Binary64)
  | boolean (b : Bool)
  | dateTime (d : DateTime)
  | array (values : List Value)
  | table (fields : List (String × Value))

/-- The fields of a table, with their keys in order. -/
abbrev Fields := List (String × Value)

namespace Value

/-- The key that makes a table stand for a date or time. -/
def dateTimeKey : String := "$__toml_private_datetime"

/-- The date or time in a field, which has to be a text. -/
def toDateTime? : Value → Option DateTime
  | string text => DateTime.ofText? text
  | _ => none

mutual

/-- Replaces the tables that stand for a date or time. It fails if one of them does not hold
one. -/
def settle : Value → Option Value
  | .array values => (settleAll values).map .array
  | .table fields =>
    match fields with
    | [] => some (.table [])
    | (key, value) :: rest =>
      if key = dateTimeKey then value.toDateTime?.map .dateTime
      else do
        let value ← settle value
        let rest ← settleFields rest
        return .table ((key, value) :: rest)
  | value => some value

/-- Settles the values of an array. -/
def settleAll : List Value → Option (List Value)
  | [] => some []
  | value :: rest => do
    let value ← settle value
    let rest ← settleAll rest
    return value :: rest

/-- Settles the values of a table, whatever its keys are. -/
def settleFields : List (String × Value) → Option (List (String × Value))
  | [] => some []
  | (key, value) :: rest => do
    let value ← settle value
    let rest ← settleFields rest
    return (key, value) :: rest

end

end Value

end Patchbay.Toml
