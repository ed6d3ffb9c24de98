import ForumMarkup.Text.Decimal
import ForumMarkup.Text.Search

/-!
Contract: dates and times of TOML.

Owns:
- `Date`, `Time`, `Offset` and `Moment`, the parts of a date with a time;
- `moment?`, a date with a time, a date or a time, and the text behind it;
- `Moment.text`, its canonical spelling.

Days are those of the calendar.  Of a fraction of a second nine digits count, and its
canonical spelling has no zero at its end.
-/

set_option autoImplicit false

namespace ForumMarkup.Toml

structure Date where
  year : Nat
  month : Nat
  day : Nat
  deriving DecidableEq, Repr

structure Time where
  hour : Nat
  minute : Nat
  second : Nat
  nanosecond : Nat
  deriving DecidableEq, Repr

/-- The distance from universal time. -/
inductive Offset where
  /-- No distance, spelled with a letter. -/
  | universal
  /-- A number of minutes, spelled with hours. -/
  | minutes (count : Int)
  deriving DecidableEq, Repr

/-- A date with a time, a date or a time. -/
structure Moment where
  date? : Option Date := none
  time? : Option Time := none
  offset? : Option Offset := none
  deriving DecidableEq, Repr

/-- A number of exactly `count` digits within bounds, and the text behind it. -/
def fixedNumber? (count least greatest : Nat) (t : Text) : Option (Nat × Text) :=
  let digits := t.take count
  if digits.length = count ∧ digits.all Char.isDigit then
    let value := Text.digitsValue digits
    if least ≤ value ∧ value ≤ greatest then some (value, t.drop count) else none
  else none

def daysOfMonth (year month : Nat) : Nat :=
  if month = 2 then
    if year % 4 = 0 ∧ (year % 100 ≠ 0 ∨ year % 400 = 0) then 29 else 28
  else if month = 4 ∨ month = 6 ∨ month = 9 ∨ month = 11 then 30
  else 31

def date? (t : Text) : Option (Date × Text) := do
  let (year, afterYear) ← fixedNumber? 4 0 9999 t
  let (month, afterMonth) ← fixedNumber? 2 1 12 (← Text.after? ['-'] afterYear)
  let (day, rest) ← fixedNumber? 2 1 (daysOfMonth year month) (← Text.after? ['-'] afterMonth)
  return ({ year, month, day }, rest)

/-- The number of nanoseconds in the digits of a fraction of a second. -/
def nanoseconds (digits : Text) : Nat :=
  let first := digits.take 9
  Text.digitsValue first * Nat.pow 10 (9 - first.length)

def time? (t : Text) : Option (Time × Text) := do
  let (hour, afterHour) ← fixedNumber? 2 0 23 t
  let (minute, afterMinute) ← fixedNumber? 2 0 59 (← Text.after? [':'] afterHour)
  let (second, rest) ← fixedNumber? 2 0 60 (← Text.after? [':'] afterMinute)
  match rest with
  | '.' :: fraction =>
      let digits := fraction.takeWhile Char.isDigit
      if digits.isEmpty then none
      else
        return ({ hour, minute, second, nanosecond := nanoseconds digits },
          fraction.dropWhile Char.isDigit)
  | _ => return ({ hour, minute, second, nanosecond := 0 }, rest)

/-- The distance from universal time, if the text starts with one, and the text behind
it. -/
def offset? : Text → Option (Option Offset × Text)
  | 'Z' :: rest | 'z' :: rest => some (some .universal, rest)
  | t@('+' :: rest) | t@('-' :: rest) => do
      let (hour, afterHour) ← fixedNumber? 2 0 23 rest
      let (minute, after) ← fixedNumber? 2 0 59 (← Text.after? [':'] afterHour)
      let count : Int := 60 * hour + minute
      return (some (.minutes (if t.head? = some '-' then -count else count)), after)
  | t => some (none, t)

def momentOn? (date : Date) (t : Text) : Option (Moment × Text) := do
  let (time, afterTime) ← time? t
  let (offset?, rest) ← offset? afterTime
  return ({ date? := some date, time? := some time, offset? }, rest)

/-- A date with a time, a date or a time, and the text behind it. -/
def moment? (t : Text) : Option (Moment × Text) :=
  match date? t with
  | none => (time? t).map fun (time, rest) => ({ time? := some time }, rest)
  | some (date, rest) =>
      match rest with
      | 'T' :: more | 't' :: more => momentOn? date more
      | ' ' :: more => (momentOn? date more).or (some ({ date? := some date }, rest))
      | _ => some ({ date? := some date }, rest)

def padded (width n : Nat) : Text :=
  let digits := Text.ofNat n
  List.replicate (width - digits.length) '0' ++ digits

def Date.text (date : Date) : Text :=
  padded 4 date.year ++ '-' :: padded 2 date.month ++ '-' :: padded 2 date.day

/-- A fraction of a second without zeros at its end, and nothing for none. -/
def fractionText (nanosecond : Nat) : Text :=
  if nanosecond = 0 then []
  else '.' :: ((padded 9 nanosecond).reverse.dropWhile (· == '0')).reverse

def Time.text (time : Time) : Text :=
  padded 2 time.hour ++ ':' :: padded 2 time.minute ++ ':' :: padded 2 time.second
    ++ fractionText time.nanosecond

/-- A distance from universal time with its sign; no distance counts as positive. -/
def Offset.text : Offset → Text
  | universal => ['Z']
  | minutes count =>
      (if count < 0 then '-' else '+') :: padded 2 (count.natAbs / 60)
        ++ ':' :: padded 2 (count.natAbs % 60)

/-- The canonical spelling of a date with a time, a date or a time. -/
def Moment.text (moment : Moment) : Text :=
  ((moment.date?.map Date.text).getD [])
    ++ (if moment.date?.isSome && moment.time?.isSome then ['T'] else [])
    ++ ((moment.time?.map Time.text).getD [])
    ++ ((moment.offset?.map Offset.text).getD [])

end ForumMarkup.Toml
