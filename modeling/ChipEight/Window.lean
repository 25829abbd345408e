/-
The window: a screen of scaled pixels, sixteen keys of the keyboard, and a beeper.

The keys of the machine lie on the left of the keyboard in the order in which they lie
on the machine:

    1 2 3 C        1 2 3 4
    4 5 6 D        Q W E R
    7 8 9 E        A S D F
    A 0 B F        Z X C V

Without a sound device the window works all the same, in silence.

The screen knows numbers of 32 bits only, and takes the low bits of greater ones.  A pixel
of the picture is a square at `scale` times its place:

    from `cut (scale * x)`, `cut scale` wide.

So at the scales that a window is made for the squares lie side by side; at a scale beyond 32 bits
the window is as small as its cut scale says, and squares may cover each other.
-/
import ChipEight.Machine
import ChipEight.Notice
import ChipEight.RunLength
import ChipEight.SquareWave

namespace ChipEight

/-- The keys of the machine and the keys of the keyboard that stand for them. -/
def keymap : List (Nat × Char) :=
  [(0x0, 'x'), (0x1, '1'), (0x2, '2'), (0x3, '3'), (0x4, 'q'), (0x5, 'w'), (0x6, 'e'), (0x7, 'a'),
   (0x8, 's'), (0x9, 'd'), (0xA, 'z'), (0xB, 'c'), (0xC, '4'), (0xD, 'r'), (0xE, 'f'), (0xF, 'v')]

/-! ### Sound -/

/-- What is asked of the sound device. -/
inductive AudioCall
  /-- samples per second, bits of a sample (negative if signed), channels, size of the buffer -/
  | prepare (rate size : Int) (channels buffer : Nat)
  | start
  | load (wave : SquareWave) (channels : Nat)
  /-- the volume in tenths -/
  | setVolume (tenths : Nat)
  | playForever
  | stop
  deriving DecidableEq, Repr

/-- What a sound device plays: samples per second, bits of a sample, and channels. -/
structure AudioFormat where
  rate : Int
  size : Int
  channels : Int
  deriving DecidableEq, Repr

/-- The sound device, if there is one, and whether it was started before. -/
structure Mixer where
  format : Option AudioFormat
  started : Bool
  deriving DecidableEq, Repr

/-- The samples per second that are asked for. -/
def preferredRate : Int := 44100

/-- Why there is no sound although there is a device. -/
inductive SoundError
  | tone (e : ToneError)
  /-- there are more channels than words of 64 bits count -/
  | channels
  | storage (fault : StorageFault)
  deriving DecidableEq, Repr

def SoundError.message : SoundError → String
  | tone e => e.message
  | channels => LongWord.refusal
  | storage fault => fault.message

/-- What is wrong with the number of channels on which a wave is to be played, if anything. -/
def channelFault? (wave : SquareWave) (channels : Int) : Option SoundError :=
  if channels ≤ 1 then none
  else if !LongWord.fits channels then some .channels
  else (Shape.fault? ⟨[wave.length, channels.toNat], .sample⟩).map .storage

/-! ### The window -/

structure Window where
  /-- width and height of a pixel -/
  scale : Nat
  title : String
  /-- whether there is a sound to play -/
  hasSound : Bool
  tone : Bool
  isOpen : Bool
  deriving DecidableEq, Repr

/-- What the user did. -/
inductive WindowEvent
  | closed
  | pressed (key : String)
  | released (key : String)
  deriving DecidableEq, Repr

/-- What cannot be done with a window, most of it because it is closed. -/
inductive WindowError
  | noEvents
  | noSurface
  /-- a rate is too great to be kept -/
  | tooFast
  deriving DecidableEq, Repr

def WindowError.message : WindowError → String
  | noEvents => "video system not initialized"
  | noSurface => "display Surface quit"
  | tooFast => "int too large to convert to float"

/-- Why a window cannot be opened. -/
inductive OpeningError
  /-- the width or height is no word of 64 bits -/
  | noSize
  /-- the width or height is negative when it is cut to 32 bits -/
  | negativeSize
  | tooLarge
  /-- the title holds the character that ends a text -/
  | nulInTitle
  | sound (e : SoundError)
  deriving DecidableEq, Repr

def OpeningError.message : OpeningError → String
  | noSize => "size must be two numbers"
  | negativeSize => "Cannot set negative sized display mode"
  | tooLarge => "Window is too large."
  | nulInTitle => "embedded null character"
  | sound e => e.message

namespace Window

/-- Make the sound of a window: what is asked of the device, what is reported, and whether there
is a sound. -/
def makeSound (tone : Int) (mixer : Mixer) :
    Except SoundError (List AudioCall × List Notice × Bool) :=
  let started := if mixer.started && mixer.format.isSome then [] else [AudioCall.start]
  match mixer.format with
  | none => .ok (started, [.soundless "no audio device"], false)
  | some f => do
    let wave ← (SquareWave.ofTone tone f.rate).mapError .tone
    if let some e := channelFault? wave f.channels then throw e
    return (started ++ [.load wave f.channels.toNat, .setVolume 2], [], true)

/-- The number that the low 32 bits of a number make, with a sign. -/
def cut (n : Nat) : Int := (n : Int).bmod 0x100000000

/-- The greatest width and height that a window can have. -/
def greatestSize : Int := 16384

/-- What is wrong with the size of a window, if anything. -/
def sizeFault? (scale : Nat) : Option OpeningError :=
  let width := cut (64 * scale)
  let height := cut (32 * scale)
  if LongWord.greatest < 64 * scale then some .noSize
  else if width < 0 ∨ height < 0 then some .negativeSize
  else if greatestSize < width ∨ greatestSize < height then some .tooLarge
  else none

/-- Width and height of a window that is given none. -/
def desktop : Nat × Nat := (1024, 768)

/-- Width and height at a scale. -/
def sizeAt (scale : Nat) : Nat × Nat :=
  let size := ((cut (64 * scale)).toNat, (cut (32 * scale)).toNat)
  if size = (0, 0) then desktop else size

/-- Open a window, and make its sound. -/
def create (scale tone : Int) (title : String) (mixer : Mixer) :
    Except OpeningError (Window × List AudioCall × List Notice) := do
  let scale := (max 1 scale).toNat
  if let some e := sizeFault? scale then throw e
  if title.toList.contains '\x00' then throw .nulInTitle
  let (calls, notices, hasSound) ← (makeSound tone mixer).mapError .sound
  let window : Window :=
    { scale := scale, title := title, hasSound := hasSound, tone := false, isOpen := true }
  return (window, .prepare preferredRate (-16) 1 256 :: calls, notices)

/-- Width and height. -/
def size (w : Window) : Nat × Nat := sizeAt w.scale

/-- Whether an event asks to quit. -/
def asksToQuit : WindowEvent → Bool
  | .closed => true
  | .pressed key => key == "ESCAPE"
  | .released _ => false

/-- The keys of the machine that are held down on the keyboard. -/
def keysDown (down : List String) : List Nat :=
  (keymap.filter fun k => down.contains (String.singleton k.2)).map (·.1)

/-- Tell whether the user wants to quit, and otherwise press the keys that are down. -/
def poll (w : Window) (events : List WindowEvent) (down : List String) (keys : Keypad) :
    Except WindowError Bool × Keypad :=
  if !w.isOpen then (.error .noEvents, keys)
  else if events.any asksToQuit then (.ok true, keys)
  else (.ok false, (keys.pressAll ((keysDown down).map fun k : Nat => (k : Int))).2)

/-- The columns of a picture, or its rows, out of the first `count`, whose squares cover a column or
row of the window. -/
def covering (w : Window) (count place : Nat) : List Nat :=
  (List.range count).filter fun k : Nat =>
    cut (w.scale * k) ≤ place ∧ place < cut (w.scale * k) + cut w.scale

/-- The places of the window where squares begin or end, in order. -/
def borders (w : Window) (count places : Nat) : List Nat :=
  let starts := (List.range count).map fun k : Nat => cut (w.scale * k)
  let edges := starts ++ starts.map fun s : Int => s + cut w.scale
  (0 :: places :: edges.map fun e : Int => min e.toNat places).mergeSort

/-- The columns of the window, or its rows, in stretches that the same squares cover. -/
def stretches (w : Window) (count places : Nat) : List (List Nat × Nat) :=
  let borders := w.borders count places
  ((borders.zip borders.tail).filter fun s => s.1 < s.2).map fun s =>
    (w.covering count s.1, s.2 - s.1)

/-- A picture at the size of the window, from top to bottom: runs of equal rows, each row given by
its runs of equal pixels.  What is covered by a lit square is lit. -/
def bands (w : Window) (p : Picture) : List (List (Bool × Nat) × Nat) :=
  let across := w.stretches 64 w.size.1
  let down := w.stretches 32 w.size.2
  let isLit (ys xs : List Nat) := ys.any fun y : Nat => xs.any fun x : Nat => p.isLit x y
  joined (down.map fun (ys, height) =>
    (joined (across.map fun (xs, width) => (isLit ys xs, width)), height))

/-- Show a picture. -/
def render (w : Window) (p : Picture) : Except WindowError (List (List (Bool × Nat) × Nat)) :=
  if w.isOpen then .ok (w.bands p) else .error .noSurface

/-- Switch the beep on or off; without a sound, only keep in mind which. -/
def setTone (w : Window) (on : Bool) : Window × List AudioCall :=
  ({ w with tone := on },
    if on = w.tone ∨ !w.hasSound then [] else [if on then .playForever else .stop])

/-- Wait for the next picture, at a rate in hertz.  The rate is kept as a binary number. -/
def tick (_ : Window) (rate : Int) : Except WindowError Unit :=
  if (BinaryNumber.ofQuotient rate.natAbs 1).overflows then .error .tooFast else .ok ()

/-- Close the window and stop its sound. -/
def close (w : Window) : Window × List AudioCall :=
  ({ w with isOpen := false }, if w.hasSound then [.stop] else [])

end Window

end ChipEight
