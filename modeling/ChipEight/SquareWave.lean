/-
The beep: a square wave that is played over and over.

The period is the nearest whole number of samples, and at least two, so that every period has
both a high and a low half.  The wave is a whole number of periods long, about
a tenth of a second, so it can be repeated without a click:

    sample i is high  ↔  i mod period < period / 2.
-/
import ChipEight.Storage

namespace ChipEight

/-- Why a tone has no wave. -/
inductive ToneError
  /-- the tone has no hertz -/
  | silent
  /-- there are too many samples in a period to be counted -/
  | endless
  /-- there are too many samples in the wave to be counted -/
  | uncounted
  | storage (fault : StorageFault)
  deriving DecidableEq, Repr

def ToneError.message : ToneError → String
  | silent => "division by zero"
  | endless => "integer division result too large for a float"
  | uncounted => "Maximum allowed size exceeded"
  | storage fault => fault.message

structure SquareWave where
  /-- the number of samples after which the wave repeats -/
  period : Nat
  /-- the number of periods -/
  repetitions : Nat
  deriving DecidableEq, Repr

namespace SquareWave

/-- The number of samples. -/
def length (w : SquareWave) : Nat := w.period * w.repetitions

/-- The number of samples as it is counted: the nearest binary number. -/
def countedLength (w : SquareWave) : Nat := (BinaryNumber.ofQuotient w.length 1).round

/-- What is wrong with the length of a wave, if anything.  A wave is made from the numbers of its
samples, so there has to be room for these. -/
def lengthFault? (w : SquareWave) : Option ToneError :=
  if LongWord.greatest + 1 < w.countedLength then some .uncounted
  else (Shape.fault? ⟨[w.countedLength], .position⟩).map .storage

/-- The wave of a tone in hertz, with a number of samples per second.  The period is counted in
binary first and in whole samples then; a negative one becomes the shortest. -/
def ofTone (tone rate : Int) : Except ToneError SquareWave :=
  if tone = 0 then .error .silent
  else
    let period := BinaryNumber.ofQuotient rate.natAbs tone.natAbs
    let wave : SquareWave :=
      { period := if rate < 0 ↔ tone < 0 then max 2 period.round else 2
        repetitions := (max 1 (tone.fdiv 10)).toNat }
    if period.overflows then .error .endless
    else
      match wave.lengthFault? with
      | some e => .error e
      | none => .ok wave

/-- The greatest sample. -/
def peak : Int := 32767

def sample (w : SquareWave) (i : Nat) : Int :=
  if i % w.period < w.period / 2 then peak else -peak

def samples (w : SquareWave) : List Int := (List.range w.length).map w.sample

/-- The high and the low half of a period, each a sample and how often it comes. -/
def halves (w : SquareWave) : List (Int × Nat) :=
  [(peak, w.period / 2), (-peak, w.period - w.period / 2)]

/-- The runs of equal samples in a number of periods. -/
def periodRuns (w : SquareWave) (periods : Nat) : List (Int × Nat) :=
  (List.replicate periods w.halves).flatten

/-- The sum of the samples. -/
def total (w : SquareWave) : Int :=
  w.repetitions * w.halves.foldl (fun (sum : Int) (h : Int × Nat) => sum + h.1 * h.2) 0

end SquareWave

end ChipEight
