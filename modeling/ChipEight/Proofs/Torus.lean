/-
The screen as a torus.

A grid has no edge.  It is read at any coordinates, and it may be rotated by any distance:

    (g rotated by (dx, dy)) at (x, y)   =   g at (x - dx, y - dy).

A sprite flips some of the pixels, and whether it flips one depends on how far the pixel lies from
the sprite, and on nothing else (`isLit_flip`):

    (g with a sprite at (x, y)) at (px, py)
        =   g at (px, py)  xor  prints sprite (px - x) (py - y).

So a sprite that moves along with the grid does the same to it, and where the corner of the grid
lies makes no difference.

Coordinates are words, however.  One that is no word is refused, and after the greatest word comes
the least, which is a jump on a grid whose size does not divide the number of words.  A sprite that
meets neither is put down seamlessly (`Seamless`).  On the screen, whose width and height are powers
of two, every sprite at words is (`seamless_of_fits`).

Main result: `Framebuffer.has_no_edge`.
-/
import ChipEight.Framebuffer
import Mathlib.Data.Int.ModEq
import Mathlib.Data.List.Find

namespace ChipEight

/-! ### Coordinates without a jump -/

/-- The `count` coordinates from `start` on run around a cycle of `size` without a jump: none of
them lies beyond the greatest word, or the least word is the place that comes next. -/
def Unbroken (size count : Nat) (start : Int) : Prop :=
  (0 < size ∧ LongWord.fits start = true) ∧
    (start + count ≤ LongWord.greatest + 1 ∨ (size : Int) ∣ LongWord.count)

instance (size count : Nat) (start : Int) : Decidable (Unbroken size count start) :=
  inferInstanceAs (Decidable (_ ∧ _))

/-- A sprite at `(x, y)` runs across and down a grid without a jump.  Of a sprite without rows
nothing is put anywhere. -/
def Seamless (width height : Nat) (x y : Int) (sprite : List UInt8) : Prop :=
  sprite = [] ∨ Unbroken width 8 x ∧ Unbroken height sprite.length y

instance (width height : Nat) (x y : Int) (sprite : List UInt8) :
    Decidable (Seamless width height x y sprite) :=
  inferInstanceAs (Decidable (_ ∨ _))

theorem coordinate_emod {size count k : Nat} {start : Int} (h : Unbroken size count start)
    (hk : k < count) : coordinate start k % size = (start + k) % size := by
  obtain ⟨-, hlast | ⟨turns, hturns⟩⟩ := h
  · have hle : start + k ≤ LongWord.greatest := by omega
    simp only [coordinate, if_pos hle]
  · simp only [coordinate]
    split
    · rfl
    · rw [hturns, Int.sub_mul_emod_self_left]

/-- On the screen every sprite at words is seamless. -/
theorem seamless_of_fits {x y : Int} (hx : LongWord.fits x = true) (hy : LongWord.fits y = true)
    (sprite : List UInt8) : Seamless 64 32 x y sprite :=
  .inr ⟨⟨⟨by decide, hx⟩, .inr (by decide)⟩, ⟨by decide, hy⟩, .inr (by decide)⟩

/-! ### What a sprite prints -/

/-- The last of the places `0`, …, `count - 1` that is the place `u` in a cycle of `size`. -/
def lastAt? (count size : Nat) (u : Int) : Option Nat :=
  (List.range count).reverse.find? fun k => (size : Int) ∣ u - k

/-- Whether a sprite at the origin flips the pixel at `(u, v)`.  The last row and the last column
that fall on the pixel decide. -/
def prints (width height : Nat) (sprite : List UInt8) (u v : Int) : Bool :=
  (lastAt? sprite.length height v).any fun r => (lastAt? 8 width u).any (spriteBit sprite r)

theorem lookup_map {α : Type} (l : List α) (f : α → Nat) (place : Nat) :
    (l.map fun k => (f k, k)).lookup place = l.find? fun k => f k = place := by
  induction l with
  | nil => rfl
  | cons k l ih =>
    rw [List.map_cons, List.lookup_cons, List.find?_cons, ih]
    by_cases h : f k = place
    · simp [h]
    · have h' : (place == f k) = false := by simpa using Ne.symm h
      simp [h, h']

/-- Without a jump only the distance from the start counts. -/
theorem lastHit?_hits {count size : Nat} {start : Int} (h : Unbroken size count start) {p : Int}
    {place : Nat} (hp : p % size = place) :
    lastHit? (hits count size start) place = lastAt? count size (p - start) := by
  rw [lastHit?, hits, ← List.map_reverse, lookup_map, lastAt?]
  refine List.find?_congr fun k hk => ?_
  have hk' : k < count := by simpa using hk
  have hpos := h.1.1
  have hnonneg := Int.emod_nonneg (start + k) (b := size) (by omega)
  rw [coordinate_emod h hk', decide_eq_decide]
  calc ((start + k) % size).toNat = place
      ↔ (start + k) % size = p % size := by omega
    _ ↔ (size : Int) ∣ p - start - k := by
      rw [Int.sub_sub, eq_comm, Int.emod_eq_emod_iff_emod_sub_eq_zero, Int.dvd_iff_emod_eq_zero]

namespace Grid

variable {width height : Nat}

/-! ### Pixels by coordinates -/

theorem isLit_of_lt (g : Grid width height) {px py : Nat} (hx : px < width) (hy : py < height) :
    g.isLit px py = g[py][px] := by
  have ex : ((px : Int) % width).toNat = px := by rw [← Int.natCast_emod, Nat.mod_eq_of_lt hx]; rfl
  have ey : ((py : Int) % height).toNat = py := by rw [← Int.natCast_emod, Nat.mod_eq_of_lt hy]; rfl
  simp only [isLit, ex, ey, Vector.getElem?_eq_getElem hy, Vector.getElem?_eq_getElem hx,
    Option.getD_some]

/-- Coordinates with the same remainders are the same place. -/
theorem isLit_congr (g : Grid width height) {x x' y y' : Int} (hx : x % width = x' % width)
    (hy : y % height = y' % height) : g.isLit x y = g.isLit x' y' := by
  rw [isLit, isLit, hx, hy]

/-- Grids with the same pixels are the same. -/
theorem ext_getElem {g g' : Grid width height}
    (h : ∀ px py, ∀ (hx : px < width) (hy : py < height), g[py][px] = g'[py][px]) : g = g' :=
  Vector.ext fun py hy => Vector.ext fun px hx => h px py hx hy

theorem ext_isLit {g g' : Grid width height} (h : ∀ px py : Int, g.isLit px py = g'.isLit px py) :
    g = g' := by
  refine ext_getElem fun px py hx hy => ?_
  rw [← isLit_of_lt g hx hy, ← isLit_of_lt g' hx hy, h]

/-- Coordinates name a column and a row. -/
theorem exists_place (hw : 0 < width) (hh : 0 < height) (x y : Int) :
    ∃ px py : Nat, px < width ∧ py < height ∧ x % width = px ∧ y % height = py := by
  have hx := Int.emod_nonneg x (b := width) (by omega)
  have hy := Int.emod_nonneg y (b := height) (by omega)
  have hx' := Int.emod_lt_of_pos x (b := width) (by omega)
  have hy' := Int.emod_lt_of_pos y (b := height) (by omega)
  exact ⟨(x % width).toNat, (y % height).toNat, by omega, by omega, by omega, by omega⟩

/-- What is read at coordinates is the pixel that they name, of every grid. -/
theorem isLit_of_emod {px py : Nat} {x y : Int} (ex : x % width = px) (ey : y % height = py)
    (g : Grid width height) : g.isLit x y = g.isLit px py :=
  isLit_congr g (by rw [← ex, Int.emod_emod]) (by rw [← ey, Int.emod_emod])

/-- The grid with the pixels that are said to be lit. -/
def plot (lit : Int → Int → Bool) : Grid width height :=
  .ofFn fun py => .ofFn fun px => lit px.val py.val

theorem isLit_plot (hw : 0 < width) (hh : 0 < height) (lit : Int → Int → Bool) (x y : Int) :
    (plot lit : Grid width height).isLit x y = lit (x % width) (y % height) := by
  obtain ⟨px, py, hpx, hpy, ex, ey⟩ := exists_place hw hh x y
  rw [isLit_of_emod ex ey, isLit_of_lt _ hpx hpy, ex, ey]
  simp [plot]

/-! ### Rotation -/

/-- The grid moved around the torus, `dx` columns to the right and `dy` rows down. -/
def rotate (g : Grid width height) (dx dy : Int) : Grid width height :=
  plot fun px py => g.isLit (px - dx) (py - dy)

theorem isLit_rotate (hw : 0 < width) (hh : 0 < height) (g : Grid width height) (dx dy x y : Int) :
    (g.rotate dx dy).isLit x y = g.isLit (x - dx) (y - dy) := by
  rw [rotate, isLit_plot hw hh]
  exact isLit_congr g (Int.emod_sub_emod ..) (Int.emod_sub_emod ..)

/-- Whole turns lead back. -/
theorem rotate_eq_self (hw : 0 < width) (hh : 0 < height) {dx dy : Int}
    (hx : (width : Int) ∣ dx) (hy : (height : Int) ∣ dy) (g : Grid width height) :
    g.rotate dx dy = g := by
  obtain ⟨i, rfl⟩ := hx
  obtain ⟨j, rfl⟩ := hy
  refine ext_isLit fun px py => ?_
  rw [isLit_rotate hw hh]
  exact isLit_congr g (Int.sub_mul_emod_self_left ..) (Int.sub_mul_emod_self_left ..)

/-! ### Sprites on the torus -/

theorem getElem_flip (g : Grid width height) (x y : Int) (sprite : List UInt8) {px py : Nat}
    (hx : px < width) (hy : py < height) :
    (g.flip x y sprite)[py][px] = (g[py][px] ^^
      (lastHit? (hits sprite.length height y) py).any fun r =>
        (lastHit? (hits 8 width x) px).any (spriteBit sprite r)) := by
  rcases e : lastHit? (hits sprite.length height y) py with - | r <;> simp [flip, e]

theorem flip_nil (g : Grid width height) (x y : Int) : g.flip x y [] = g := by
  refine ext_getElem fun px py hx hy => ?_
  rw [getElem_flip g x y [] hx hy]
  exact Bool.xor_false _

variable {x y : Int} {sprite : List UInt8}

/-- **What a sprite does to a pixel** depends on how far the pixel lies from the sprite. -/
theorem isLit_flip (h : Seamless width height x y sprite) (g : Grid width height) (px py : Int) :
    (g.flip x y sprite).isLit px py =
      (g.isLit px py ^^ prints width height sprite (px - x) (py - y)) := by
  rcases h with rfl | ⟨hacross, hdown⟩
  · rw [flip_nil]
    exact (Bool.xor_false _).symm
  · obtain ⟨qx, qy, hqx, hqy, ex, ey⟩ := exists_place hacross.1.1 hdown.1.1 px py
    rw [isLit_of_emod ex ey, isLit_of_emod ex ey, isLit_of_lt _ hqx hqy, isLit_of_lt g hqx hqy,
      getElem_flip g x y sprite hqx hqy, lastHit?_hits hacross ex, lastHit?_hits hdown ey]
    rfl

/-- A sprite collides when one of its bits falls on a lit pixel. -/
theorem collides_iff (h : Seamless width height x y sprite) (g : Grid width height) :
    g.collides x y sprite = true ↔ ∃ r < sprite.length, ∃ c < 8,
      spriteBit sprite r c = true ∧ g.isLit (x + c) (y + r) = true := by
  simp only [collides, List.any_eq_true, List.mem_range, Bool.and_eq_true]
  rcases h with rfl | ⟨hacross, hdown⟩
  · simp
  · refine exists_congr fun r => and_congr_right fun hr => exists_congr fun c =>
      and_congr_right fun hc => and_congr_right fun _ => ?_
    rw [isLit_congr g (coordinate_emod hacross hc) (coordinate_emod hdown hr)]

variable {dx dy : Int}

theorem rotate_flip (hw : 0 < width) (hh : 0 < height) (h : Seamless width height x y sprite)
    (h' : Seamless width height (x + dx) (y + dy) sprite) (g : Grid width height) :
    (g.rotate dx dy).flip (x + dx) (y + dy) sprite = (g.flip x y sprite).rotate dx dy := by
  refine ext_isLit fun px py => ?_
  have ex : px - (x + dx) = px - dx - x := by omega
  have ey : py - (y + dy) = py - dy - y := by omega
  rw [isLit_flip h', isLit_rotate hw hh, isLit_rotate hw hh, isLit_flip h, ex, ey]

theorem rotate_collides (hw : 0 < width) (hh : 0 < height) (h : Seamless width height x y sprite)
    (h' : Seamless width height (x + dx) (y + dy) sprite) (g : Grid width height) :
    (g.rotate dx dy).collides (x + dx) (y + dy) sprite = g.collides x y sprite := by
  have e (c r : Nat) :
      (g.rotate dx dy).isLit (x + dx + c) (y + dy + r) = g.isLit (x + c) (y + r) := by
    rw [isLit_rotate hw hh]
    congr 1 <;> omega
  rw [Bool.eq_iff_iff, collides_iff h', collides_iff h]
  simp only [e]

end Grid

/-! ### The framebuffer -/

namespace Framebuffer

variable {width height : Nat} {x y dx dy : Int} {sprite : List UInt8}

/-- A sprite that is not too tall can be put down wherever it is seamless. -/
theorem draw_of_seamless (h : Seamless width height x y sprite)
    (hs : sprite.length ≤ tallestSprite) (b : Framebuffer width height) :
    b.draw x y sprite = (.ok (b.pixels.collides x y sprite), ⟨b.pixels.flip x y sprite, true⟩) := by
  have hm : b.misplaced? x y sprite = none := by
    rcases h with rfl | ⟨⟨⟨hw, hx⟩, -⟩, ⟨hh, hy⟩, -⟩
    · rfl
    · simp [misplaced?, hx, hy, hw.ne', hh.ne']
  rw [draw, if_neg (Nat.not_lt.mpr hs), hm]

/-- The framebuffer with its grid rotated. -/
def rotate (b : Framebuffer width height) (dx dy : Int) : Framebuffer width height :=
  { b with pixels := b.pixels.rotate dx dy }

/-- **A sprite that moves along with the grid** does the same to it. -/
theorem draw_rotate (hw : 0 < width) (hh : 0 < height) (h : Seamless width height x y sprite)
    (h' : Seamless width height (x + dx) (y + dy) sprite) (b : Framebuffer width height) :
    (b.rotate dx dy).draw (x + dx) (y + dy) sprite =
      ((b.draw x y sprite).1, (b.draw x y sprite).2.rotate dx dy) := by
  rcases Nat.lt_or_ge tallestSprite sprite.length with htall | hs
  · rw [draw_of_tall _ _ _ htall, draw_of_tall _ _ _ htall]
  · rw [draw_of_seamless h' hs, draw_of_seamless h hs]
    simp only [rotate, Grid.rotate_flip hw hh h h', Grid.rotate_collides hw hh h h']

/-- Coordinates with the same remainders are the same place for a sprite, too. -/
theorem draw_congr (hw : 0 < width) (hh : 0 < height) {x' y' : Int}
    (h : Seamless width height x y sprite) (h' : Seamless width height x' y' sprite)
    (hx : x' % width = x % width) (hy : y' % height = y % height) (b : Framebuffer width height) :
    b.draw x' y' sprite = b.draw x y sprite := by
  -- going from one place to the other is going around the torus in whole turns
  have hself (b : Framebuffer width height) : b.rotate (x' - x) (y' - y) = b := by
    rw [rotate, Grid.rotate_eq_self hw hh (Int.ModEq.dvd hx.symm) (Int.ModEq.dvd hy.symm)]
  have ex : x + (x' - x) = x' := by omega
  have ey : y + (y' - y) = y' := by omega
  have hmoved : Seamless width height (x + (x' - x)) (y + (y' - y)) sprite := by rwa [ex, ey]
  have e := draw_rotate hw hh h hmoved b
  rwa [hself, hself, ex, ey] at e

/-- **The screen is a torus without an edge.**  A sprite of at most fifteen rows that is put down
seamlessly is drawn.  If the grid is rotated first and the sprite moved along with it, seamlessly
again, what comes out is the rotated grid, and the collision is the same.  At coordinates with the
same remainders the sprite does the same. -/
theorem has_no_edge (hw : 0 < width) (hh : 0 < height) (hs : sprite.length ≤ 15)
    (h : Seamless width height x y sprite) (b : Framebuffer width height) :
    ∃ met b', b.draw x y sprite = (.ok met, b') ∧
      (∀ dx dy, Seamless width height (x + dx) (y + dy) sprite →
        (b.rotate dx dy).draw (x + dx) (y + dy) sprite = (.ok met, b'.rotate dx dy)) ∧
      ∀ x' y', Seamless width height x' y' sprite →
        x' % width = x % width → y' % height = y % height →
          b.draw x' y' sprite = (.ok met, b') := by
  have hdraw := draw_of_seamless h hs b
  refine ⟨_, _, hdraw, fun dx dy h' => ?_, fun x' y' h' hx hy => ?_⟩
  · rw [draw_rotate hw hh h h', hdraw]
  · rw [draw_congr hw hh h h' hx hy, hdraw]

/-- A torus smaller than the sprite, from the least coordinate to the last seamless one. -/
theorem small_torus_has_no_edge :
    Seamless 5 3 LongWord.least (-7) [0xA1, 0xFF, 0x18, 0x81] ∧
      Seamless 5 3 (LongWord.least + (LongWord.count - 8)) (-7 + 9) [0xA1, 0xFF, 0x18, 0x81] ∧
        ∃ met b', (blank : Framebuffer 5 3).draw LongWord.least (-7) [0xA1, 0xFF, 0x18, 0x81] =
            (.ok met, b') ∧
          ((blank : Framebuffer 5 3).rotate (LongWord.count - 8) 9).draw
              (LongWord.least + (LongWord.count - 8)) (-7 + 9) [0xA1, 0xFF, 0x18, 0x81] =
            (.ok met, b'.rotate (LongWord.count - 8) 9) := by
  have h : Seamless 5 3 LongWord.least (-7) [0xA1, 0xFF, 0x18, 0x81] := by decide
  have h' : Seamless 5 3 (LongWord.least + (LongWord.count - 8)) (-7 + 9)
      [0xA1, 0xFF, 0x18, 0x81] := by decide
  obtain ⟨met, b', hdraw, hrotate, -⟩ :=
    has_no_edge (by decide) (by decide) (by decide) h (blank : Framebuffer 5 3)
  exact ⟨h, h', met, b', hdraw, hrotate _ _ h'⟩

/-- On a grid of nine columns the greatest coordinate is an edge.  The column that follows it in the
sprite is not the one that follows it on the grid, and beyond it the sprite is refused. -/
theorem greatest_coordinate_is_edge :
    ((blank : Framebuffer 9 1).draw 7 0 [0x40]).1 = .ok false ∧
      (((blank : Framebuffer 9 1).rotate (LongWord.greatest - 7) 0).draw
          (7 + (LongWord.greatest - 7)) 0 [0x40]).2.pixels ≠
        (((blank : Framebuffer 9 1).draw 7 0 [0x40]).2.rotate (LongWord.greatest - 7) 0).pixels ∧
      (((blank : Framebuffer 9 1).rotate (LongWord.greatest - 6) 0).draw
          (7 + (LongWord.greatest - 6)) 0 [0x40]).1 = .error .tooFar := by
  refine ⟨rfl, by decide +kernel, rfl⟩

end Framebuffer

end ChipEight
