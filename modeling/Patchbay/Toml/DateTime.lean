import Patchbay.Toml.Reader

/-!
# Dates and times

A date, a time of day, or both, the last possibly with an offset from universal time. The day has
to exist in its month; a minute may have a sixty-first second. Fractions of a second count to the
nanosecond, and further digits are dropped.
-/

namespace Patchbay.Toml

/-- A day of the calendar. -/
structure Date where
  year : Nat
  month : Nat
  day : Nat
  deriving DecidableEq

/-- A time of day. -/
structure Time where
  hour : Nat
  minute : Nat
  second : Nat
  nanosecond : Nat
  deriving DecidableEq

/-- An offset from universal time: none at all, or some minutes. -/
inductive Offset where
  | universal
  | minutes (count : Int)
  deriving DecidableEq

/-- A date, a time, or both. -/
structure DateTime where
  date : Option Date := none
  time : Option Time := none
  offset : Option Offset := none
  deriving DecidableEq

/-! ### Text -/

/-- A number with zeros in front up to a width. -/
def padded (width n : Nat) : String :=
  let digits := Nat.toDigits 10 n
  String.ofList (List.replicate (width - digits.length) '0' ++ digits)

/-- The text of a date. -/
def Date.text (d : Date) : String :=
  padded 4 d.year ++ "-" ++ padded 2 d.month ++ "-" ++ padded 2 d.day

/-- The text of a fraction of a second, without the zeros at its end. -/
def fractionText (nanosecond : Nat) : String :=
  if nanosecond = 0 then ""
  else
    let digits := (padded 9 nanosecond).toList
    "." ++ String.ofList (digits.reverse.dropWhile (· = '0')).reverse

/-- The text of a time. -/
def Time.text (t : Time) : String :=
  padded 2 t.hour ++ ":" ++ padded 2 t.minute ++ ":" ++ padded 2 t.second
    ++ fractionText t.nanosecond

/-- The text of an offset. -/
def Offset.text : Offset → String
  | universal => "Z"
  | minutes count =>
    (if count < 0 then "-" else "+") ++ padded 2 (count.natAbs / 60) ++ ":"
      ++ padded 2 (count.natAbs % 60)

/-- The text of a date and time, which a `T` separates. -/
def DateTime.text (d : DateTime) : String :=
  let date := (d.date.map Date.text).getD ""
  let time := (d.time.map Time.text).getD ""
  let offset := (d.offset.map Offset.text).getD ""
  let separator := if d.date.isSome ∧ d.time.isSome then "T" else ""
  date ++ separator ++ time ++ offset

/-! ### Reading -/

/-- The number of days of a month. -/
def monthLength (year month : Nat) : Nat :=
  let isLeap := year % 4 = 0 ∧ (year % 100 ≠ 0 ∨ year % 400 = 0)
  if month = 2 then if isLeap then 29 else 28
  else if month = 4 ∨ month = 6 ∨ month = 9 ∨ month = 11 then 30
  else 31

/-- Reads a date. -/
def Date.read : Reader Date := fun cs => do
  let (year, cs) ← fixedDigits 4 cs
  let cs ← expect '-' cs
  let (month, cs) ← fixedDigits 2 cs
  let cs ← expect '-' cs
  let (day, cs) ← fixedDigits 2 cs
  guard (1 ≤ month ∧ month ≤ 12 ∧ 1 ≤ day ∧ day ≤ monthLength year month)
  return (⟨year, month, day⟩, cs)

/-- The nanoseconds in a run of fractional digits. -/
def nanoseconds (digits : List Char) : Nat :=
  digitsValue 10 (digits.take 9) * Nat.pow 10 (9 - digits.length)

/-- Reads a time. -/
def Time.read : Reader Time := fun cs => do
  let (hour, cs) ← fixedDigits 2 cs
  let cs ← expect ':' cs
  let (minute, cs) ← fixedDigits 2 cs
  let cs ← expect ':' cs
  let (second, cs) ← fixedDigits 2 cs
  guard (hour ≤ 23 ∧ minute ≤ 59 ∧ second ≤ 60)
  match cs with
  | '.' :: fraction =>
    let digits := fraction.takeWhile Char.isDigit
    guard (digits ≠ [])
    return (⟨hour, minute, second, nanoseconds digits⟩, fraction.dropWhile Char.isDigit)
  | _ => return (⟨hour, minute, second, 0⟩, cs)

/-- Reads an offset, which is less than a day. -/
def Offset.read : Reader Offset := fun cs =>
  match cs with
  | 'Z' :: rest => some (universal, rest)
  | 'z' :: rest => some (universal, rest)
  | sign :: rest => do
    guard (sign = '+' ∨ sign = '-')
    let (hour, rest) ← fixedDigits 2 rest
    let rest ← expect ':' rest
    let (minute, rest) ← fixedDigits 2 rest
    guard (hour ≤ 23 ∧ minute ≤ 59)
    let count : Int := hour * 60 + minute
    return (minutes (if sign = '-' then -count else count), rest)
  | [] => none

/-- Whether a character separates a date from a time. -/
def isDateSeparator (c : Char) : Bool :=
  c = 'T' || c = 't' || c = ' '

/-- Reads a date or time as it stands in a document. A blank after a date belongs to it only if a
time follows. -/
def DateTime.read : Reader DateTime := fun cs =>
  match Date.read cs with
  | none => (Time.read cs).map fun (time, rest) => ({ time := some time }, rest)
  | some (date, rest) =>
    match rest with
    | separator :: afterSeparator =>
      match guard (isDateSeparator separator) *> Time.read afterSeparator with
      | none => some ({ date := some date }, rest)
      | some (time, afterTime) =>
        match Offset.read afterTime with
        | none => some ({ date := some date, time := some time }, afterTime)
        | some (offset, afterOffset) =>
          some ({ date := some date, time := some time, offset := some offset }, afterOffset)
    | [] => some ({ date := some date }, [])

/-- The date or time that a text is from its first character to its last. -/
def DateTime.ofText? (s : String) : Option DateTime :=
  match DateTime.read s.toList with
  | some (d, []) => some d
  | _ => none

end Patchbay.Toml
