import TemplateMachine.Toml.Text

/-! Dates and times in TOML: `1979-05-27`, `07:32:00.5`, or both with `T` or a blank between them,
which may have the distance to universal time behind them.  Only real days of the calendar are
dates. -/

namespace TemplateMachine.Toml

/-- A number of so many digits between two bounds. -/
def readField (width low high : Nat) (cs : List Char) : Option (Nat × List Char) :=
  let digits := cs.take width
  let n := digits.foldl (fun n c => n * 10 + (c.toNat - '0'.toNat)) 0
  if digits.length = width && digits.all Char.isDigit && low ≤ n && n ≤ high then
    some (n, cs.drop width)
  else none

/-- The rest behind a character that has to be there. -/
def readMark (mark : Char) : List Char → Option (List Char)
  | c :: rest => if c = mark then some rest else none
  | [] => none

def isLeapYear (year : Nat) : Bool := year % 4 == 0 && (year % 100 != 0 || year % 400 == 0)

def daysIn (year month : Nat) : Nat :=
  if month = 2 then (if isLeapYear year then 29 else 28)
  else if [4, 6, 9, 11].contains month then 30
  else 31

/-- The rest behind a date. -/
def readDate (cs : List Char) : Option (List Char) := do
  let (year, rest) ← readField 4 0 9999 cs
  let (month, rest) ← readField 2 1 12 (← readMark '-' rest)
  let (_, rest) ← readField 2 1 (daysIn year month) (← readMark '-' rest)
  return rest

/-- The rest behind an hour and a minute. -/
def readMinute (cs : List Char) : Option (List Char) := do
  let (_, rest) ← readField 2 0 23 cs
  let (_, rest) ← readField 2 0 59 (← readMark ':' rest)
  return rest

/-- The rest behind a time of day, whose last second may be a leap second. -/
def readTime (cs : List Char) : Option (List Char) := do
  let (_, rest) ← readField 2 0 60 (← readMark ':' (← readMinute cs))
  match rest with
  | '.' :: fraction =>
    let behind := fraction.dropWhile Char.isDigit
    return if behind.length < fraction.length then behind else rest
  | _ => return rest

/-- The rest behind the distance to universal time, which need not be there. -/
def readOffset (cs : List Char) : Option (List Char) :=
  match cs with
  | 'Z' :: rest | 'z' :: rest => some rest
  | '+' :: rest | '-' :: rest => readMinute rest
  | cs => some cs

/-- The text begins with so many digits and a mark behind them. -/
def beginsWith (width : Nat) (mark : Char) (cs : List Char) : Bool :=
  (cs.take width).all Char.isDigit && cs[width]? == some mark

def beginsTime (cs : List Char) : Bool := beginsWith 2 ':' cs

/-- The text can only be a date or a time. -/
def beginsDateTime (cs : List Char) : Bool := beginsWith 4 '-' cs || beginsTime cs

/-- The rest behind a time that follows a date, which need not be there. -/
def readTimeOfDate (cs : List Char) : Option (List Char) :=
  match cs with
  | c :: rest =>
    if (c = 'T' || c = 't' || c = ' ') && beginsTime rest then readTime rest >>= readOffset
    else some cs
  | [] => some []

/-- A date, a time or both, as they are written. -/
def readDateTime (cs : List Char) : Option (String × List Char) := do
  let rest ← if beginsTime cs then readTime cs else readDate cs >>= readTimeOfDate
  return (String.ofList (cs.take (cs.length - rest.length)), rest)

end TemplateMachine.Toml
