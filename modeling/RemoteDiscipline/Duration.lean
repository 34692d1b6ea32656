/-!
Durations and deadlines, in whole milliseconds of a clock that starts at zero.
-/

namespace RemoteDiscipline

/-- A length of time in milliseconds. -/
abbrev Duration := Nat

namespace Duration

/-- The longest duration that can be configured: 2^64 - 1 seconds and a fraction. -/
def longest : Duration := 18446744073709551615999

/-- The duration of some seconds and nanoseconds, less any fraction of a millisecond. -/
def ofSeconds (seconds nanoseconds : Nat) : Duration := seconds * 1000 + nanoseconds / 1000000

/-- The number of milliseconds that is announced for `d`: what 64 bits can hold. -/
def announced (d : Duration) : Nat := min d 0xFFFF_FFFF_FFFF_FFFF

/-- The wait that stands in for one that the clock cannot represent: thirty years. -/
def farFuture : Duration := 86400 * 365 * 30 * 1000

def deadline (now : Nat) (d : Duration) : Nat :=
  if d / 1000 < 0x8000_0000_0000_0000 then now + d else now + farFuture

theorem announced_lt (d : Duration) : d.announced < 0x1_0000_0000_0000_0000 := by
  unfold announced
  omega

end Duration

end RemoteDiscipline
