/-!
Moments as the storage writes them: a date and a time of day in digits, with a blank between them.
-/

namespace ResourceApi.Moment

/-- Value of so many digits at the front, and what follows them. -/
def digits? (count : Nat) (cs : List Char) : Option (Nat × List Char) :=
  let front := cs.take count
  if front.length = count && front.all Char.isDigit then
    some (front.foldl (fun n c => n * 10 + (c.toNat - '0'.toNat)) 0, cs.drop count)
  else none

def expect? (c : Char) : List Char → Option (List Char)
  | d :: rest => if c = d then some rest else none
  | [] => none

def isLeap (year : Nat) : Bool := year % 4 = 0 && (year % 100 ≠ 0 || year % 400 = 0)

def daysIn (year month : Nat) : Nat :=
  if month = 2 then (if isLeap year then 29 else 28)
  else if month = 4 || month = 6 || month = 9 || month = 11 then 30 else 31

/-- A date at the front, written again, and what follows it. -/
def date? (cs : List Char) : Option (List Char × List Char) := do
  let (year, rest) ← digits? 4 cs
  let (month, rest) ← digits? 2 (← expect? '-' rest)
  let (day, rest) ← digits? 2 (← expect? '-' rest)
  if 1 ≤ year && 1 ≤ month && month ≤ 12 && 1 ≤ day && day ≤ daysIn year month then some (cs.take 10, rest) else none

/-- Parts of a second: three or six digits, written with six, and not at all when they are zero. -/
def fraction? (cs : List Char) : Option (List Char) :=
  let filled := cs ++ List.replicate (6 - cs.length) '0'
  if (cs.length = 3 || cs.length = 6) && cs.all Char.isDigit then
    some (if filled.all (· = '0') then [] else '.' :: filled)
  else none

/-- A time of day with its seconds written out. -/
def time? (cs : List Char) : Option (List Char) := do
  let (hour, rest) ← digits? 2 cs
  let (minute, rest) ← digits? 2 (← expect? ':' rest)
  if 23 < hour || 59 < minute then none
  match rest with
  | [] => some (cs ++ ":00".toList)
  | _ =>
    let (second, rest) ← digits? 2 (← expect? ':' rest)
    if 59 < second then none
    match rest with
    | [] => some cs
    | '.' :: fraction => return cs.take 8 ++ (← fraction? fraction)
    | _ => none

/-- The moment that a text stands for, with a `T` between date and time; without a time it is midnight. -/
def ofText? (s : String) : Option String := do
  let (date, rest) ← date? s.toList
  let time ← match rest with
    | [] => some "00:00:00".toList
    | _ :: after => time? after
  return String.ofList (date ++ 'T' :: time)

end ResourceApi.Moment
