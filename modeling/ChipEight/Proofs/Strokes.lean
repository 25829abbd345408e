/-
Many sprites on one grid.

To draw a sprite is to add a grid, modulo two and pixel by pixel, and this grid does not depend on
what was there before (`draw_pixels`):

    (b with the stroke d).pixels   =   b.pixels  xor  d.mask.

That holds of every stroke, also of one that is refused, whose mask is dark, and on grids so small
that a sprite falls on one pixel more than once.  So the order of the strokes does not matter, and
strokes that do the same cancel in pairs.

Two strokes do the same if they put the same sprite at the same coordinates.  Where both are
seamless it is enough that the coordinates have the same remainders.

Main result: `drawn_of_perm_and_even`.
-/
import ChipEight.Proofs.Torus
import Mathlib.Algebra.Group.Even
import Mathlib.Data.List.Perm.Basic

namespace ChipEight

/-- A sprite and the coordinates at which it is to be drawn. -/
structure Stroke where
  x : Int
  y : Int
  sprite : List UInt8
  deriving DecidableEq, Repr

/-! ### Grids modulo two -/

namespace Grid

variable {width height : Nat}

/-- The pixels that are lit in one of two grids and not in the other. -/
def xor (g g' : Grid width height) : Grid width height :=
  g.zipWith (fun row row' => row.zipWith (fun lit lit' => lit ^^ lit') row') g'

theorem getElem_xor (g g' : Grid width height) {px py : Nat} (hx : px < width) (hy : py < height) :
    (g.xor g')[py][px] = (g[py][px] ^^ g'[py][px]) := by
  simp [xor]

theorem xor_dark (g : Grid width height) : g.xor dark = g :=
  ext_getElem fun px py hx hy => by simp [getElem_xor, dark]

theorem xor_right_comm (g m m' : Grid width height) : (g.xor m).xor m' = (g.xor m').xor m :=
  ext_getElem fun px py hx hy => by
    simp only [getElem_xor, Bool.xor_assoc, Bool.xor_comm m[py][px]]

theorem xor_xor_self (g m : Grid width height) : (g.xor m).xor m = g :=
  ext_getElem fun px py hx hy => by simp [getElem_xor]

theorem flip_eq_xor (g : Grid width height) (x y : Int) (sprite : List UInt8) :
    g.flip x y sprite = g.xor (dark.flip x y sprite) :=
  ext_getElem fun px py hx hy => by
    simp only [getElem_xor, getElem_flip _ _ _ _ hx hy]
    simp [dark]

end Grid

/-! ### Masks -/

namespace Stroke

variable {width height : Nat} {d e : Stroke}

/-- What a stroke leaves on a dark grid. -/
def mask (width height : Nat) (d : Stroke) : Grid width height :=
  ((Framebuffer.blank : Framebuffer width height).draw d.x d.y d.sprite).2.pixels

/-- A stroke that is put down without a jump. -/
def Seamless (width height : Nat) (d : Stroke) : Prop :=
  ChipEight.Seamless width height d.x d.y d.sprite

/-- Two strokes that do the same. -/
def Same (width height : Nat) (d e : Stroke) : Prop :=
  d = e ∨ (d.Seamless width height ∧ e.Seamless width height) ∧
    d.sprite = e.sprite ∧ d.x % width = e.x % width ∧ d.y % height = e.y % height

instance : Decidable (d.Seamless width height) :=
  inferInstanceAs (Decidable (ChipEight.Seamless width height d.x d.y d.sprite))

instance : Decidable (d.Same width height e) :=
  inferInstanceAs (Decidable (_ ∨ _))

theorem Same.symm (h : d.Same width height e) : e.Same width height d := by
  rcases h with rfl | ⟨⟨hd, he⟩, hsprite, hx, hy⟩
  · exact .inl rfl
  · exact .inr ⟨⟨he, hd⟩, hsprite.symm, hx.symm, hy.symm⟩

theorem Same.trans {f : Stroke} (h : d.Same width height e) (h' : e.Same width height f) :
    d.Same width height f := by
  rcases h with rfl | ⟨⟨hd, he⟩, hsprite, hx, hy⟩
  · exact h'
  · rcases h' with rfl | ⟨⟨-, hf⟩, hsprite', hx', hy'⟩
    · exact .inr ⟨⟨hd, he⟩, hsprite, hx, hy⟩
    · exact .inr ⟨⟨hd, hf⟩, hsprite.trans hsprite', hx.trans hx', hy.trans hy'⟩

/-- Strokes that do the same have one mask. -/
theorem Same.mask_eq (hw : 0 < width) (hh : 0 < height) (h : d.Same width height e) :
    d.mask width height = e.mask width height := by
  rcases h with rfl | ⟨⟨hd, he⟩, hsprite, hx, hy⟩
  · rfl
  · obtain ⟨x, y, sprite⟩ := d
    obtain ⟨x', y', sprite'⟩ := e
    obtain rfl : sprite = sprite' := hsprite
    simp only [mask, Framebuffer.draw_congr hw hh he hd hx hy]

/-- Two strokes that do the same count twice or not at all among those like a third. -/
theorem Same.countP_cons_cons (h : d.Same width height e) (f : Stroke) (strokes : List Stroke) :
    Even ((d :: e :: strokes).countP fun s => f.Same width height s) ↔
      Even (strokes.countP fun s => f.Same width height s) := by
  have hiff : f.Same width height d ↔ f.Same width height e := ⟨(·.trans h), (·.trans h.symm)⟩
  by_cases hf : f.Same width height e
  · simp [hiff, hf, Nat.even_add_one, Nat.add_assoc]
  · simp [hiff, hf]

end Stroke

/-! ### Strokes one after the other -/

namespace Grid

variable {width height : Nat} {strokes strokes' : List Stroke}

/-- The grid with the masks of some strokes added. -/
def paint (g : Grid width height) (strokes : List Stroke) : Grid width height :=
  strokes.foldl (fun g d => g.xor (d.mask width height)) g

/-- **The order of strokes does not matter.** -/
theorem paint_perm (h : strokes.Perm strokes') (g : Grid width height) :
    g.paint strokes = g.paint strokes' :=
  h.foldl_eq' (fun d _ e _ g => xor_right_comm g (d.mask width height) (e.mask width height)) g

/-- **Strokes that do the same cancel in pairs.** -/
theorem paint_of_even (hw : 0 < width) (hh : 0 < height)
    (h : ∀ d ∈ strokes, Even (strokes.countP fun e => d.Same width height e))
    (g : Grid width height) : g.paint strokes = g := by
  -- the first stroke has a partner further on; without the two the list is shorter by two
  induction hn : strokes.length using Nat.strongRecOn generalizing strokes with
  | ind n ih =>
    rcases strokes with - | ⟨d, rest⟩
    · rfl
    · have hself : d.Same width height d := .inl rfl
      have hcount := h d (.head rest)
      rw [List.countP_cons_of_pos (by simpa using hself), Nat.even_add_one] at hcount
      have hpos : 0 < rest.countP fun e => d.Same width height e :=
        Nat.pos_of_ne_zero fun h0 => hcount (h0 ▸ Even.zero)
      obtain ⟨e, he, hsame⟩ := List.countP_pos_iff.mp hpos
      have hsame : d.Same width height e := of_decide_eq_true hsame
      have hperm : (d :: rest).Perm (d :: e :: rest.erase e) := (List.perm_cons_erase he).cons d
      have hrest : ∀ f ∈ rest.erase e,
          Even ((rest.erase e).countP fun s => f.Same width height s) := by
        intro f hf
        rw [← hsame.countP_cons_cons, ← hperm.countP_eq]
        exact h f (.tail d (List.mem_of_mem_erase hf))
      have hlength : (rest.erase e).length < n := by
        rw [← hn, List.length_erase_of_mem he, List.length_cons]
        omega
      calc g.paint (d :: rest) = g.paint (d :: e :: rest.erase e) := paint_perm hperm g
        _ = ((g.xor (d.mask width height)).xor (e.mask width height)).paint (rest.erase e) := rfl
        _ = g.paint (rest.erase e) := by rw [hsame.mask_eq hw hh, xor_xor_self]
        _ = g := ih _ hlength hrest rfl

end Grid

namespace Framebuffer

variable {width height : Nat}

/-- The framebuffer after some strokes, one after the other; that one is refused does not
matter. -/
def drawAll (b : Framebuffer width height) (strokes : List Stroke) : Framebuffer width height :=
  strokes.foldl (fun b d => (b.draw d.x d.y d.sprite).2) b

/-- **To draw is to add a mask.** -/
theorem draw_pixels (b : Framebuffer width height) (d : Stroke) :
    (b.draw d.x d.y d.sprite).2.pixels = b.pixels.xor (d.mask width height) := by
  have hplace : b.misplaced? d.x d.y d.sprite =
    (blank : Framebuffer width height).misplaced? d.x d.y d.sprite := rfl
  unfold Stroke.mask draw
  rw [hplace]
  split
  · exact (Grid.xor_dark _).symm
  · split
    · exact (Grid.xor_dark _).symm
    · exact Grid.flip_eq_xor ..

theorem drawAll_pixels (b : Framebuffer width height) (strokes : List Stroke) :
    (b.drawAll strokes).pixels = b.pixels.paint strokes := by
  induction strokes generalizing b with
  | nil => rfl
  | cons d strokes ih =>
    show ((b.draw d.x d.y d.sprite).2.drawAll strokes).pixels = _
    rw [ih, draw_pixels]
    rfl

/-- **Order and pairs of strokes.**  Of any strokes every order leaves the same grid.  If every
stroke occurs an even number of times, counted with those that do the same, they leave the grid as
it was. -/
theorem drawn_of_perm_and_even (hw : 0 < width) (hh : 0 < height) (b : Framebuffer width height)
    (strokes : List Stroke) :
    (∀ strokes' : List Stroke, strokes'.Perm strokes →
      (b.drawAll strokes').pixels = (b.drawAll strokes).pixels) ∧
    ((∀ d ∈ strokes, Even (strokes.countP fun e => d.Same width height e)) →
      (b.drawAll strokes).pixels = b.pixels) := by
  refine ⟨fun strokes' h => ?_, fun h => ?_⟩
  · rw [drawAll_pixels, drawAll_pixels, Grid.paint_perm h]
  · rw [drawAll_pixels, Grid.paint_of_even hw hh h]

/-- A grid smaller than a sprite, with its middle column lit. -/
def striped : Framebuffer 3 2 := ⟨.plot fun x _ => x = 1, false⟩

/-- A sprite at two places that are the same, and another twice at the greatest coordinate. -/
def doubled : List Stroke :=
  [⟨-1, 5, [0xA7, 0x81, 0x3C]⟩, ⟨LongWord.greatest, 0, [0xFF]⟩, ⟨2, -3, [0xA7, 0x81, 0x3C]⟩,
    ⟨LongWord.greatest, 0, [0xFF]⟩]

theorem doubled_on_striped :
    doubled.reverse.Perm doubled ∧
      (∀ d ∈ doubled, Even (doubled.countP fun e => d.Same 3 2 e)) ∧
        (striped.drawAll doubled.reverse).pixels = (striped.drawAll doubled).pixels ∧
          (striped.drawAll doubled).pixels = striped.pixels := by
  have hperm : doubled.reverse.Perm doubled := doubled.reverse_perm
  have heven : ∀ d ∈ doubled, Even (doubled.countP fun e => d.Same 3 2 e) := by decide
  have h := drawn_of_perm_and_even (by decide) (by decide) striped doubled
  exact ⟨hperm, heven, h.1 _ hperm, h.2 heven⟩

/-- On a grid of nine columns two strokes whose coordinates have the same remainders do not cancel
if one of them reaches beyond the greatest coordinate, or lies beyond it. -/
theorem strokes_at_greatest_remain :
    (LongWord.greatest % 9 = 7 % 9 ∧
      ((blank : Framebuffer 9 1).drawAll
        [⟨7, 0, [0x40]⟩, ⟨LongWord.greatest, 0, [0x40]⟩]).pixels ≠ Grid.dark) ∧
    ((LongWord.greatest + 9) % 9 = 7 % 9 ∧
      ((blank : Framebuffer 9 1).drawAll
        [⟨7, 0, [0x40]⟩, ⟨LongWord.greatest + 9, 0, [0x40]⟩]).pixels ≠ Grid.dark) := by
  decide +kernel

end Framebuffer

end ChipEight
