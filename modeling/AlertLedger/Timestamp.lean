import AlertLedger.NumberStyle
import AlertLedger.Rounding

namespace AlertLedger

/-- Timestamps are written with all their places and the fewest digits that read back. A whole
number below `10 ^ 16` ends in `.0`. -/
def timestampStyle : NumberStyle where
  tie := .upward
  positional _ := true
  pointZero e := decide (e < 16)
  nan := "NaN"
  infinity := "inf"
  negativeInfinity := "-inf"

def timestampText (t : Binary64) : String := String.ofList (timestampStyle.chars t)

def nanosPerSecond : Nat := 1000000000

/-- The nanoseconds from the epoch to a moment `seconds` and `nanos` after or before it. A clock
counts its whole seconds in 64 bits and has no other moments. -/
def clockMoment? (seconds nanos : Nat) (before : Bool) : Option Int :=
  let elapsed : Int := seconds * nanosPerSecond + nanos
  let moment := if before then -elapsed else elapsed
  let bound : Int := Nat.pow 2 63 * nanosPerSecond
  if -bound ≤ moment ∧ moment < bound then some moment else none

/-- The seconds since the epoch at a moment given in nanoseconds: the whole seconds and their
fraction are rounded apart and then added. Before the epoch it is zero. -/
def unixTimestamp (moment : Int) : Binary64 :=
  if moment < 0 then .zero
  else
    let seconds := Magnitude.ofNat? (moment.toNat / nanosPerSecond)
    let nanos := Magnitude.ofNat? (moment.toNat % nanosPerSecond)
    let billion := Magnitude.ofNat? nanosPerSecond
    .ofRounded false do
      let part ← (← nanos).over? (← billion)
      (← seconds).plus? part

end AlertLedger
