import ClaimIndex.Number.Decimal

namespace ClaimIndex

abbrev Instant := Binary64

structure Span where
  seconds : UInt64
  nanos : Nat
  nanos_lt : nanos < 1000000000 := by decide
  deriving DecidableEq

namespace Span

def zero : Span where
  seconds := 0
  nanos := 0

def ofParts (seconds : UInt64) (nanos : Nat) : Span where
  seconds := seconds + UInt64.ofNat (nanos / 1000000000)
  nanos := nanos % 1000000000
  nanos_lt := Nat.mod_lt _ (by decide)

def ofSeconds (seconds : UInt64) : Span where
  seconds
  nanos := 0

def ofMillis (millis : UInt64) : Span where
  seconds := millis / 1000
  nanos := millis.toNat % 1000 * 1000000
  nanos_lt := by omega

def ofNanos (nanos : Nat) : Span := .ofParts (.ofNat (nanos / 1000000000)) (nanos % 1000000000)

def toNanos (s : Span) : Nat := s.seconds.toNat * 1000000000 + s.nanos

def toMillis (s : Span) : Nat := s.toNanos / 1000000

/-- The span as a number of seconds: the two parts are rounded before they are added. -/
def toNumber (s : Span) : Binary64 :=
  .ofNat s.seconds.toNat + .ofNat s.nanos / .ofNat (1000000000)

end Span

namespace Instant

def after (t : Instant) (s : Span) : Instant := t + s.toNumber

/-- Time from `earlier` to `t` to the nearest nanosecond; zero if that is negative, not a number
or too long for a span. -/
def since (t earlier : Instant) : Span :=
  match t - earlier with
  | .finite false units =>
    let nanos := Binary64.divEven (units * 1000000000) Binary64.one
    if nanos / 1000000000 < UInt64.size then .ofNanos nanos else .zero
  | _ => .zero

def text (t : Instant) : String := Decimal.fixed 6 t

end Instant

end ClaimIndex
