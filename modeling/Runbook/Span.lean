import Runbook.Number.Reading

/-!
# Spans of time

A span is a number of nanoseconds whose whole seconds fit 64 bits. It is read from a number of
seconds, and the exact value of that number is rounded to the nearest nanosecond.
-/

namespace Runbook

/-- A length of time. -/
structure Span where
  nanoseconds : Nat
deriving DecidableEq, Repr

/-- Why a text is no length of time. -/
inductive SpanError where
  /-- The text is no positive finite number. -/
  | notPositive
  /-- The seconds do not fit 64 bits. -/
  | tooLong
deriving DecidableEq, Repr

namespace Span

/-- The nanoseconds of a second. -/
def perSecond : Nat := 1000000000

/-- The whole seconds of a span. -/
def seconds (s : Span) : Nat := s.nanoseconds / perSecond

/-- The nanoseconds of a span beyond its whole seconds. -/
def subseconds (s : Span) : Nat := s.nanoseconds % perSecond

/-- The wording for seconds that do not fit a span. -/
def tooLongMessage : String :=
  "cannot convert float seconds to Duration: value is either too big or NaN"

/-- The span of a finite number of seconds that is not negative. -/
def ofSeconds (x : Binary64) : Except SpanError Span :=
  if Number.pow2 64 * Binary64.unit ≤ x.units then .error .tooLong
  else .ok ⟨Binary64.roundDiv (x.units * perSecond) Binary64.unit⟩

/-- Reads a positive number of seconds. -/
def read (text : String) : Except SpanError Span :=
  match Binary64.read? text.toList with
  | some x =>
    if x.isFinite && !x.isNegative && x.units ≠ 0 then ofSeconds x else .error .notPositive
  | none => .error .notPositive

end Span

end Runbook
