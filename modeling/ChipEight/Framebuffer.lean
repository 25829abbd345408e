/-
The framebuffer: a grid of pixels that sprites are drawn on.

A sprite is a list of rows, each a byte whose most significant bit is leftmost.
Drawing flips the pixels under the set bits, and the grid has no edge: columns
and rows wrap around,

    bit `c` of row `r` of a sprite at `(x, y)` falls on `((x + c) mod w, (y + r) mod h)`.

On a grid smaller than the sprite several bits fall on one pixel.  The pixel is then
flipped by the last of them, the lowest in the sprite and rightmost in its row, while a
collision is reported when any of them meets a lit pixel.

Coordinates are words of 64 bits.  A sprite cannot be put at a coordinate beyond them, and a
sprite that reaches beyond the greatest coordinate goes on at the least, which on a grid of
other than a power of two is a jump.
-/
import ChipEight.Storage

namespace ChipEight

/-- Pixels by row and column, `true` when lit. -/
abbrev Grid (width height : Nat) := Vector (Vector Bool width) height

/-- Why a sprite cannot be drawn. -/
inductive DrawFault
  /-- the sprite has more rows than can be drawn -/
  | tooTall (rows : Nat)
  /-- a coordinate is no word of 64 bits -/
  | tooFar
  /-- the grid has no row -/
  | noRow
  /-- the rows of the grid have no pixel -/
  | noColumn
  deriving DecidableEq, Repr

/-- The greatest number of rows of a sprite. -/
def tallestSprite : Nat := 15

def DrawFault.message : DrawFault → String
  | tooTall rows =>
    "Sprite height " ++ toString rows ++ " exceeds maximum of " ++ toString tallestSprite
  | tooFar => LongWord.refusal
  | noRow => "index 0 is out of bounds for axis 0 with size 0"
  | noColumn => "index 0 is out of bounds for axis 1 with size 0"

/-- Why a grid cannot have a size. -/
inductive SizeFault
  /-- the width or the height is no word of 64 bits -/
  | noWord
  | negative
  | storage (fault : StorageFault)
  deriving DecidableEq, Repr

def SizeFault.message : SizeFault → String
  | noWord => "Maximum allowed dimension exceeded"
  | negative => "negative dimensions are not allowed"
  | storage fault => fault.message

/-- A width and a height, if a grid can have them. -/
def gridSize (width height : Int) : Except SizeFault (Nat × Nat) :=
  if !LongWord.fits width || !LongWord.fits height then .error .noWord
  else if width < 0 ∨ height < 0 then .error .negative
  else
    match Shape.fault? ⟨[height.toNat, width.toNat], .pixel⟩ with
    | some fault => .error (.storage fault)
    | none => .ok (width.toNat, height.toNat)

/-! ### Coordinates -/

/-- The coordinate `offset` places after `start`; behind the greatest comes the least. -/
def coordinate (start : Int) (offset : Nat) : Int :=
  let c := start + offset
  if c ≤ LongWord.greatest then c else c - LongWord.count

/-! ### Sprites -/

/-- Bit `column` of row `row`, counted from the left and from the top. -/
def spriteBit (sprite : List UInt8) (row column : Nat) : Bool :=
  (sprite.getD row 0).toNat.testBit (7 - column)

/-- The places that `count` coordinates from `start` on fall on in a cycle of `size`, each
with the number of its coordinate, the last coordinate first. -/
def hits (count size : Nat) (start : Int) : List (Nat × Nat) :=
  ((List.range count).map fun k : Nat => ((coordinate start k % size).toNat, k)).reverse

/-- The last of the coordinates that falls on a place. -/
def lastHit? (hits : List (Nat × Nat)) (place : Nat) : Option Nat := hits.lookup place

namespace Grid

variable {width height : Nat}

/-- The grid without a lit pixel. -/
def dark : Grid width height := .ofFn fun _ => .replicate width false

/-- Whether the pixel at column `x` and row `y` is lit; coordinates wrap around. -/
def isLit (g : Grid width height) (x y : Int) : Bool :=
  match g[(y % height).toNat]? with
  | some row => row[(x % width).toNat]?.getD false
  | none => false

/-- Whether a set bit of the sprite at `(x, y)` falls on a lit pixel. -/
def collides (g : Grid width height) (x y : Int) (sprite : List UInt8) : Bool :=
  (List.range sprite.length).any fun r =>
    (List.range 8).any fun c =>
      spriteBit sprite r c && g.isLit (coordinate x c) (coordinate y r)

/-- The grid with the pixels under the sprite at `(x, y)` flipped. -/
def flip (g : Grid width height) (x y : Int) (sprite : List UInt8) : Grid width height :=
  let across := hits 8 width x
  let down := hits sprite.length height y
  let columns : Vector (Option Nat) width := .ofFn fun px => lastHit? across px
  .ofFn fun py =>
    match lastHit? down py with
    | none => g[py]
    | some r => .ofFn fun px => g[py][px] ^^ columns[px].any (spriteBit sprite r)

/-- The number of lit pixels. -/
def litCount (g : Grid width height) : Nat :=
  (g.toList.flatMap fun row => row.toList).count true

/-- A row of pixels, `#` for lit and `.` for dark. -/
def rowText (row : Vector Bool width) : String :=
  String.ofList (row.toList.map fun lit => if lit then '#' else '.')

def text (g : Grid width height) : String := "\n".intercalate (g.toList.map rowText)

/-- The rows with a lit pixel, with their numbers. -/
def litRows (g : Grid width height) : List (Nat × Vector Bool width) :=
  (g.toList.zipIdx.filter fun r => r.1.contains true).map fun r => (r.2, r.1)

end Grid

/-! ### The framebuffer -/

/-- A grid, and whether it may have changed since it was last shown. -/
structure Framebuffer (width height : Nat) where
  pixels : Grid width height
  dirty : Bool
  deriving DecidableEq, Repr

namespace Framebuffer

variable {width height : Nat}

def blank : Framebuffer width height := ⟨.dark, true⟩

/-- Darken all pixels. -/
def clear (_ : Framebuffer width height) : Framebuffer width height := blank

/-- Mark the grid as shown. -/
def shown (b : Framebuffer width height) : Framebuffer width height := { b with dirty := false }

/-- Why a sprite that is not too tall cannot be put at `(x, y)`, if so.  A sprite without rows
can be put everywhere. -/
def misplaced? (_ : Framebuffer width height) (x y : Int) (sprite : List UInt8) :
    Option DrawFault :=
  if sprite = [] then none
  else if !LongWord.fits x || !LongWord.fits y then some .tooFar
  else if height = 0 then some .noRow
  else if width = 0 then some .noColumn
  else none

/-- Draw a sprite at `(x, y)` and tell whether a lit pixel was met.  A sprite that is too tall
is refused and changes nothing; one that is misplaced leaves the pixels as they were. -/
def draw (b : Framebuffer width height) (x y : Int) (sprite : List UInt8) :
    Except DrawFault Bool × Framebuffer width height :=
  if tallestSprite < sprite.length then (.error (.tooTall sprite.length), b)
  else
    match b.misplaced? x y sprite with
    | some fault => (.error fault, { b with dirty := true })
    | none => (.ok (b.pixels.collides x y sprite), ⟨b.pixels.flip x y sprite, true⟩)

/-- A sprite that is too tall is refused, and nothing is marked. -/
theorem draw_of_tall (b : Framebuffer width height) (x y : Int) {sprite : List UInt8}
    (hs : tallestSprite < sprite.length) :
    b.draw x y sprite = (.error (.tooTall sprite.length), b) := by
  rw [draw, if_pos hs]

end Framebuffer

end ChipEight
