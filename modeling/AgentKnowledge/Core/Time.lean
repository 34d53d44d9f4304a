import Mathlib

/-!
Civil times with an explicit UTC offset (`time::OffsetDateTime`).

A value keeps its local civil fields, which name the bundle of a document, and
its offset. Two values are compared by the instant they denote
(`OffsetDateTime.instant`), so times that differ in their offset only can be
equal in order and still show different dates.
-/

namespace AgentKnowledge

def isLeapYear (year : Nat) : Bool :=
  year % 4 == 0 && (year % 100 != 0 || year % 400 == 0)

def daysInMonth (year month : Nat) : Nat :=
  match month with
  | 2 => if isLeapYear year then 29 else 28
  | 4 | 6 | 9 | 11 => 30
  | _ => 31

/-- A civil time of the years RFC 3339 can write, with its offset in seconds
east of UTC. -/
structure OffsetDateTime where
  year : Nat
  month : Nat
  day : Nat
  hour : Nat
  minute : Nat
  second : Nat
  nanosecond : Nat
  offsetSeconds : Int
  valid : year ≤ 9999 ∧ 1 ≤ month ∧ month ≤ 12 ∧ 1 ≤ day ∧ day ≤ daysInMonth year month ∧
    hour < 24 ∧ minute < 60 ∧ second < 60 ∧ nanosecond < 1000000000 ∧
    -86400 < offsetSeconds ∧ offsetSeconds < 86400
deriving DecidableEq, Repr

/-- Days of the proleptic Gregorian calendar before the first of January of a year. -/
def daysBeforeYear (year : Nat) : Int :=
  365 * year + ((year + 3) / 4 : Nat) - ((year + 99) / 100 : Nat) + ((year + 399) / 400 : Nat)

def daysBeforeMonth (year : Nat) : Nat → Nat
  | 0 => 0
  | 1 => 0
  | month + 1 => daysBeforeMonth year month + daysInMonth year month

/-- The instant a value denotes: nanoseconds since the start of year 0 in UTC. -/
def OffsetDateTime.instant (t : OffsetDateTime) : Int :=
  let days := daysBeforeYear t.year + daysBeforeMonth t.year t.month + (t.day - 1 : Nat)
  let seconds := days * 86400 + t.hour * 3600 + t.minute * 60 + t.second - t.offsetSeconds
  seconds * 1000000000 + t.nanosecond

/-- `Ord::min` of the library, which keeps `self` unless `other` is less. -/
def OffsetDateTime.earlier (self other : OffsetDateTime) : OffsetDateTime :=
  if other.instant < self.instant then other else self

/-- `Ord::max`, which takes `other` unless it is less. -/
def OffsetDateTime.later (self other : OffsetDateTime) : OffsetDateTime :=
  if other.instant < self.instant then self else other

theorem OffsetDateTime.earlier_cases (t t' : OffsetDateTime) :
    t.earlier t' = t ∧ t.instant ≤ t'.instant ∨ t.earlier t' = t' ∧ t'.instant ≤ t.instant := by
  unfold earlier
  split
  · exact .inr ⟨rfl, by omega⟩
  · exact .inl ⟨rfl, by omega⟩

theorem OffsetDateTime.instant_earlier (t t' : OffsetDateTime) :
    (t.earlier t').instant = min t.instant t'.instant := by
  rcases earlier_cases t t' with ⟨heq, hle⟩ | ⟨heq, hle⟩
  · rw [heq, Int.min_eq_left hle]
  · rw [heq, Int.min_eq_right hle]

theorem OffsetDateTime.later_cases (t t' : OffsetDateTime) :
    t.later t' = t ∧ t'.instant ≤ t.instant ∨ t.later t' = t' ∧ t.instant ≤ t'.instant := by
  unfold later
  split
  · exact .inl ⟨rfl, by omega⟩
  · exact .inr ⟨rfl, by omega⟩

/-- Decimal digits of a number, padded with zeros on the left to `width`
(`format!("{:0width$}")`). -/
def padded (width value : Nat) : List Char :=
  List.replicate (width - (Nat.toDigits 10 value).length) '0' ++ Nat.toDigits 10 value

end AgentKnowledge
