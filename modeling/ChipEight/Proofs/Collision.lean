/-
Collisions, and the number of lit pixels.

On a grid with room for a whole sprite no two bits of it fall on one pixel.  The pixels under its
set bits are then as many as the set bits, and to draw the sprite is to take the symmetric
difference of two sets of places:

    lit places afterwards   =   (lit places before)  ∆  (places under set bits).

If `o` of the set bits fall on lit pixels, it follows that

    lit pixels afterwards  =  lit pixels before  +  set bits  -  2 * o,

and that a collision is reported if and only if `0 < o`, that is, if and only if a pixel goes dark.

Main result: `Framebuffer.draw_counts`.
-/
import ChipEight.Proofs.Torus
import Mathlib.Algebra.BigOperators.Group.Finset.Piecewise
import Mathlib.Algebra.BigOperators.Group.Finset.Sigma
import Mathlib.Data.Finset.SymmDiff
import Mathlib.Data.Nat.Count

namespace ChipEight

open Finset
open scoped symmDiff

/-- The set bits of a sprite, by column and row. -/
def setBits (sprite : List UInt8) : Finset (Nat × Nat) :=
  (range 8 ×ˢ range sprite.length).filter fun p => spriteBit sprite p.2 p.1 = true

theorem mem_setBits {sprite : List UInt8} {c r : Nat} :
    (c, r) ∈ setBits sprite ↔ (c < 8 ∧ r < sprite.length) ∧ spriteBit sprite r c = true := by
  simp [setBits]

/-- A symmetric difference has the elements of both sets, less those that they share. -/
theorem card_symmDiff_add {α : Type} [DecidableEq α] (s t : Finset α) :
    (s ∆ t).card + 2 * (s ∩ t).card = s.card + t.card := by
  have hs := card_sdiff_add_card_inter s t
  have ht := card_sdiff_add_card_inter t s
  rw [inter_comm] at ht
  rw [Finset.symmDiff_def, card_union_of_disjoint disjoint_sdiff_sdiff]
  omega

/-! ### Cycles with room for a sprite -/

/-- Less than a turn apart, only a place itself is the same place. -/
theorem eq_of_dvd_sub {size j k : Nat} (hj : j < size) (hk : k < size)
    (h : (size : Int) ∣ j - k) : k = j :=
  (Nat.modEq_iff_dvd.mpr h).eq_of_lt_of_lt hk hj

theorem toNat_emod_eq_iff {size k : Nat} {u : Int} (hk : k < size) :
    (u % size).toNat = k ↔ (size : Int) ∣ k - u := by
  have hnonneg := Int.emod_nonneg u (b := size) (by omega)
  have hself : (k : Int) % size = k := Int.emod_eq_of_lt (by omega) (by omega)
  rw [← Int.modEq_iff_dvd, Int.ModEq, hself]
  omega

/-- Places less than a turn apart fall on different places of a cycle. -/
theorem eq_of_toNat_emod_eq {size j k : Nat} {start : Int} (hj : j < size) (hk : k < size)
    (h : ((start + j) % size).toNat = ((start + k) % size).toNat) : j = k := by
  have hj' := Int.emod_nonneg (start + j) (b := size) (by omega)
  have hk' := Int.emod_nonneg (start + k) (b := size) (by omega)
  have hmod : start + j ≡ start + k [ZMOD size] := by
    rw [Int.ModEq]
    omega
  exact (Int.natCast_modEq_iff.mp (hmod.add_left_cancel' start)).eq_of_lt_of_lt hj hk

/-- In a cycle that is long enough at most one of the places is `u`. -/
theorem lastAt?_eq_some_iff {count size k : Nat} {u : Int} (h : count ≤ size) :
    lastAt? count size u = some k ↔ k < count ∧ (size : Int) ∣ u - k := by
  have hfound {j : Nat} (e : lastAt? count size u = some j) : j < count ∧ (size : Int) ∣ u - j := by
    have hj := List.mem_of_find?_eq_some e
    have hd := List.find?_some e
    exact ⟨by simpa using hj, of_decide_eq_true hd⟩
  refine ⟨hfound, fun ⟨hk, hd⟩ => ?_⟩
  have hsome : (lastAt? count size u).isSome := List.find?_isSome.mpr ⟨k, by simpa, by simpa⟩
  obtain ⟨j, e⟩ := Option.isSome_iff_exists.mp hsome
  obtain ⟨hj, hd'⟩ := hfound e
  have hjk : (size : Int) ∣ j - k := by
    have hsub := Int.dvd_sub hd hd'
    rwa [sub_sub_sub_cancel_left] at hsub
  rw [e, eq_of_dvd_sub (by omega) (by omega) hjk]

theorem prints_iff {width height : Nat} {sprite : List UInt8} (hw : 8 ≤ width)
    (hh : sprite.length ≤ height) (u v : Int) :
    prints width height sprite u v = true ↔
      ∃ c r, (c, r) ∈ setBits sprite ∧ (width : Int) ∣ u - c ∧ (height : Int) ∣ v - r := by
  simp only [prints, Option.any_eq_true, lastAt?_eq_some_iff hw, lastAt?_eq_some_iff hh,
    mem_setBits]
  constructor
  · rintro ⟨r, ⟨hr, hv⟩, c, ⟨hc, hu⟩, hbit⟩
    exact ⟨c, r, ⟨⟨hc, hr⟩, hbit⟩, hu, hv⟩
  · rintro ⟨c, r, ⟨⟨hc, hr⟩, hbit⟩, hu, hv⟩
    exact ⟨r, ⟨hr, hv⟩, c, ⟨hc, hu⟩, hbit⟩

namespace Grid

variable {width height : Nat}

/-! ### The number of lit pixels -/

/-- The places of the lit pixels, by column and row. -/
def litPlaces (g : Grid width height) : Finset (Nat × Nat) :=
  (range width ×ˢ range height).filter fun p => g.isLit p.1 p.2 = true

theorem toList_row (g : Grid width height) {py : Nat} (hy : py < height) :
    g[py].toList = (List.range width).map fun px : Nat => g.isLit px py := by
  refine List.ext_getElem (by simp) fun px hx _ => ?_
  have hx' : px < width := by simpa using hx
  simp [← isLit_of_lt g hx' hy]

theorem count_row (g : Grid width height) {py : Nat} (hy : py < height) :
    g[py].toList.count true = ((range width).filter fun px : Nat => g.isLit px py = true).card := by
  rw [toList_row g hy, List.count, List.countP_map, ← Nat.count_eq_card_filter_range, Nat.count]
  exact List.countP_congr fun px _ => by simp

theorem litCount_eq (g : Grid width height) : g.litCount = g.litPlaces.card := by
  have hrows : (g.toList.map fun row => row.toList.count true) =
      (List.range height).map fun py : Nat =>
        ((range width).filter fun px : Nat => g.isLit px py = true).card := by
    refine List.ext_getElem (by simp) fun py hy _ => ?_
    have hy' : py < height := by simpa using hy
    rw [List.getElem_map, List.getElem_map, List.getElem_range, Vector.getElem_toList,
      count_row g hy']
  calc g.litCount = (g.toList.map fun row => row.toList.count true).sum := List.count_flatMap
    _ = ∑ py ∈ range height, ((range width).filter fun px : Nat => g.isLit px py = true).card := by
      rw [hrows]
      rfl
    _ = g.litPlaces.card := by
      simp only [litPlaces, card_filter, sum_product_right]

/-! ### The places under a sprite -/

/-- The place that a column and a row of a sprite at `(x, y)` fall on. -/
def under (width height : Nat) (x y : Int) (p : Nat × Nat) : Nat × Nat :=
  (((x + p.1) % width).toNat, ((y + p.2) % height).toNat)

/-- The places under the set bits of a sprite at `(x, y)`. -/
def footprint (width height : Nat) (x y : Int) (sprite : List UInt8) : Finset (Nat × Nat) :=
  (setBits sprite).image (under width height x y)

/-- The number of set bits that fall on lit pixels. -/
def overlap (g : Grid width height) (x y : Int) (sprite : List UInt8) : Nat :=
  ((setBits sprite).filter fun p => g.isLit (x + p.1) (y + p.2) = true).card

variable {x y : Int} {sprite : List UInt8}

theorem under_eq_iff {px py c r : Nat} (hx : px < width) (hy : py < height) :
    under width height x y (c, r) = (px, py) ↔
      (width : Int) ∣ px - x - c ∧ (height : Int) ∣ py - y - r := by
  rw [under, Prod.mk.injEq, toNat_emod_eq_iff hx, toNat_emod_eq_iff hy, sub_sub, sub_sub]

/-- **No two bits of a sprite fall on one place.** -/
theorem under_injOn (hw : 8 ≤ width) (hh : sprite.length ≤ height) (x y : Int) :
    Set.InjOn (under width height x y) (setBits sprite) := by
  rintro ⟨c, r⟩ hp ⟨c', r'⟩ hp' h
  obtain ⟨⟨hc, hr⟩, -⟩ := mem_setBits.mp hp
  obtain ⟨⟨hc', hr'⟩, -⟩ := mem_setBits.mp hp'
  obtain ⟨hcolumn, hrow⟩ := Prod.mk.inj h
  exact Prod.ext (eq_of_toNat_emod_eq (by omega) (by omega) hcolumn)
    (eq_of_toNat_emod_eq (by omega) (by omega) hrow)

theorem isLit_under (hw : 0 < width) (hh : 0 < height) (g : Grid width height) (x y : Int)
    (p : Nat × Nat) :
    g.isLit (under width height x y p).1 (under width height x y p).2 =
      g.isLit (x + p.1) (y + p.2) := by
  have hx := Int.emod_nonneg (x + p.1) (b := width) (by omega)
  have hy := Int.emod_nonneg (y + p.2) (b := height) (by omega)
  refine isLit_congr g ?_ ?_
  · rw [under, Int.toNat_of_nonneg hx, Int.emod_emod]
  · rw [under, Int.toNat_of_nonneg hy, Int.emod_emod]

theorem mem_footprint_iff (hw : 8 ≤ width) (hh : sprite.length ≤ height) {px py : Nat}
    (hx : px < width) (hy : py < height) :
    (px, py) ∈ footprint width height x y sprite ↔
      prints width height sprite (px - x) (py - y) = true := by
  simp only [footprint, mem_image, Prod.exists, under_eq_iff hx hy, prints_iff hw hh]

theorem footprint_subset (hw : 8 ≤ width) (hh : sprite.length ≤ height) :
    footprint width height x y sprite ⊆ range width ×ˢ range height := by
  intro place h
  obtain ⟨⟨c, r⟩, hp, rfl⟩ := mem_image.mp h
  obtain ⟨⟨hc, hr⟩, -⟩ := mem_setBits.mp hp
  have hx := Int.emod_lt_of_pos (x + c) (b := width) (by omega)
  have hy := Int.emod_lt_of_pos (y + r) (b := height) (by omega)
  simp only [under, mem_product, mem_range]
  omega

/-- **What is lit afterwards** is the symmetric difference of what was lit and what lies under the
set bits. -/
theorem litPlaces_flip (hw : 8 ≤ width) (hh : sprite.length ≤ height)
    (h : Seamless width height x y sprite) (g : Grid width height) :
    (g.flip x y sprite).litPlaces = g.litPlaces ∆ footprint width height x y sprite := by
  ext ⟨px, py⟩
  by_cases hplace : (px, py) ∈ range width ×ˢ range height
  · obtain ⟨hx, hy⟩ := mem_product.mp hplace
    simp only [litPlaces, mem_symmDiff, mem_filter, hplace, true_and, isLit_flip h,
      mem_footprint_iff hw hh (mem_range.mp hx) (mem_range.mp hy)]
    cases g.isLit px py <;> simp
  · have hout : (px, py) ∉ footprint width height x y sprite :=
      fun hin => hplace (footprint_subset hw hh hin)
    simp only [litPlaces, mem_symmDiff, mem_filter, hplace, hout]
    simp

theorem card_footprint (hw : 8 ≤ width) (hh : sprite.length ≤ height) (x y : Int) :
    (footprint width height x y sprite).card = (setBits sprite).card :=
  card_image_of_injOn (under_injOn hw hh x y)

theorem overlap_eq (hw : 8 ≤ width) (hh : sprite.length ≤ height) (g : Grid width height)
    (x y : Int) :
    g.overlap x y sprite = (g.litPlaces ∩ footprint width height x y sprite).card := by
  have hlit (p : Nat × Nat) (hp : p ∈ setBits sprite) :
      g.isLit (under width height x y p).1 (under width height x y p).2 =
        g.isLit (x + p.1) (y + p.2) := by
    have hr := (mem_setBits.mp hp).1.2
    exact isLit_under (by omega) (by omega) g x y p
  have himage : g.litPlaces ∩ footprint width height x y sprite =
      ((setBits sprite).filter fun p => g.isLit (x + p.1) (y + p.2) = true).image
        (under width height x y) := by
    ext place
    simp only [mem_inter, mem_image, mem_filter, litPlaces]
    constructor
    · rintro ⟨⟨-, hlit'⟩, hfoot⟩
      obtain ⟨p, hp, rfl⟩ := mem_image.mp hfoot
      exact ⟨p, ⟨hp, by rwa [← hlit p hp]⟩, rfl⟩
    · rintro ⟨p, ⟨hp, hlit'⟩, rfl⟩
      have hfoot : under width height x y p ∈ footprint width height x y sprite :=
        mem_image_of_mem _ hp
      exact ⟨⟨footprint_subset hw hh hfoot, by rwa [hlit p hp]⟩, hfoot⟩
  rw [himage, overlap]
  exact (card_image_of_injOn ((under_injOn hw hh x y).mono (filter_subset _ _))).symm

/-- **The number of lit pixels afterwards.** -/
theorem litCount_flip (hw : 8 ≤ width) (hh : sprite.length ≤ height)
    (h : Seamless width height x y sprite) (g : Grid width height) :
    (g.flip x y sprite).litCount + 2 * g.overlap x y sprite =
      g.litCount + (setBits sprite).card := by
  rw [litCount_eq, litCount_eq, litPlaces_flip hw hh h, overlap_eq hw hh, card_symmDiff_add,
    card_footprint hw hh]

/-! ### Collisions -/

theorem overlap_pos_iff (g : Grid width height) (x y : Int) (sprite : List UInt8) :
    0 < g.overlap x y sprite ↔
      ∃ c r, (c, r) ∈ setBits sprite ∧ g.isLit (x + c) (y + r) = true := by
  simp [overlap, card_pos, Finset.Nonempty]

theorem collides_iff_overlap (h : Seamless width height x y sprite) (g : Grid width height) :
    g.collides x y sprite = true ↔ 0 < g.overlap x y sprite := by
  rw [collides_iff h, overlap_pos_iff]
  simp only [mem_setBits]
  constructor
  · rintro ⟨r, hr, c, hc, hbit, hlit⟩
    exact ⟨c, r, ⟨⟨hc, hr⟩, hbit⟩, hlit⟩
  · rintro ⟨c, r, ⟨⟨hc, hr⟩, hbit⟩, hlit⟩
    exact ⟨r, hr, c, hc, hbit, hlit⟩

/-- A set bit turns over the pixel that it falls on. -/
theorem isLit_flip_of_mem (hw : 8 ≤ width) (hh : sprite.length ≤ height)
    (h : Seamless width height x y sprite) (g : Grid width height) {c r : Nat}
    (hp : (c, r) ∈ setBits sprite) :
    (g.flip x y sprite).isLit (x + c) (y + r) = !g.isLit (x + c) (y + r) := by
  have hprints : prints width height sprite (x + c - x) (y + r - y) = true :=
    (prints_iff hw hh _ _).mpr ⟨c, r, hp, by simp, by simp⟩
  rw [isLit_flip h, hprints, Bool.xor_true]

/-- Where no set bit falls the pixel stays. -/
theorem isLit_flip_of_outside (hw : 8 ≤ width) (hh : sprite.length ≤ height)
    (h : Seamless width height x y sprite) (g : Grid width height) {px py : Int}
    (hout : ¬ ∃ c r, (c, r) ∈ setBits sprite ∧ (width : Int) ∣ px - x - c ∧
      (height : Int) ∣ py - y - r) :
    (g.flip x y sprite).isLit px py = g.isLit px py := by
  have hprints : prints width height sprite (px - x) (py - y) = false :=
    Bool.eq_false_iff.mpr fun hp => hout ((prints_iff hw hh _ _).mp hp)
  rw [isLit_flip h, hprints, Bool.xor_false]

/-- **Bits fall on lit pixels if and only if a pixel goes dark.** -/
theorem overlap_pos_iff_dark (hw : 8 ≤ width) (hh : sprite.length ≤ height)
    (h : Seamless width height x y sprite) (g : Grid width height) :
    0 < g.overlap x y sprite ↔
      ∃ px py : Int, g.isLit px py = true ∧ (g.flip x y sprite).isLit px py = false := by
  rw [overlap_pos_iff]
  constructor
  · rintro ⟨c, r, hp, hlit⟩
    refine ⟨x + c, y + r, hlit, ?_⟩
    rw [isLit_flip_of_mem hw hh h g hp, hlit]
    rfl
  · rintro ⟨px, py, hlit, hdark⟩
    by_contra hnone
    have hout : ¬ ∃ c r, (c, r) ∈ setBits sprite ∧ (width : Int) ∣ px - x - c ∧
        (height : Int) ∣ py - y - r := by
      rintro ⟨c, r, hp, hx, hy⟩
      refine hnone ⟨c, r, hp, ?_⟩
      rw [sub_sub] at hx hy
      rw [← hlit]
      exact isLit_congr g (Int.modEq_iff_dvd.mpr hx) (Int.modEq_iff_dvd.mpr hy)
    rw [isLit_flip_of_outside hw hh h g hout, hlit] at hdark
    cases hdark

/-- **One of two equal draws collides** if and only if the sprite has a set bit. -/
theorem overlap_twice_iff (hw : 8 ≤ width) (hh : sprite.length ≤ height)
    (h : Seamless width height x y sprite) (g : Grid width height) :
    0 < g.overlap x y sprite ∨ 0 < (g.flip x y sprite).overlap x y sprite ↔
      0 < (setBits sprite).card := by
  simp only [overlap_pos_iff, card_pos, Finset.Nonempty, Prod.exists]
  constructor
  · rintro (⟨c, r, hp, -⟩ | ⟨c, r, hp, -⟩) <;> exact ⟨c, r, hp⟩
  · rintro ⟨c, r, hp⟩
    rcases hlit : g.isLit (x + c) (y + r) with - | -
    · refine .inr ⟨c, r, hp, ?_⟩
      rw [isLit_flip_of_mem hw hh h g hp, hlit]
      rfl
    · exact .inl ⟨c, r, hp, hlit⟩

end Grid

namespace Framebuffer

variable {width height : Nat} {x y : Int} {sprite : List UInt8}

/-- **Collisions and lit pixels add up.**  Let a sprite of at most fifteen rows be put down
seamlessly on a grid with room for it, and let `o` of its set bits fall on lit pixels.  It is drawn,
with a collision if and only if `0 < o`, that is, if and only if some lit pixel goes dark.  The
number of lit pixels grows by the set bits less `2 * o`.  No pixel changes outside the rectangle of
the sprite.  Of two draws in a row one collides if and only if the sprite has a set bit. -/
theorem draw_counts (hw : 8 ≤ width) (hh : sprite.length ≤ height) (hs : sprite.length ≤ 15)
    (h : Seamless width height x y sprite) (b : Framebuffer width height) :
    ∃ met b', b.draw x y sprite = (.ok met, b') ∧
      (met = true ↔ 0 < b.pixels.overlap x y sprite) ∧
      (0 < b.pixels.overlap x y sprite ↔
        ∃ px py : Int, b.pixels.isLit px py = true ∧ b'.pixels.isLit px py = false) ∧
      (b'.pixels.litCount : Int) =
        b.pixels.litCount + (setBits sprite).card - 2 * b.pixels.overlap x y sprite ∧
      (∀ px py : Int,
        (¬ ∃ c r : Nat, (c < 8 ∧ r < sprite.length) ∧
          px % width = (x + c) % width ∧ py % height = (y + r) % height) →
        b'.pixels.isLit px py = b.pixels.isLit px py) ∧
      ∃ met' b'', b'.draw x y sprite = (.ok met', b'') ∧
        ((met || met') = true ↔ 0 < (setBits sprite).card) := by
  refine ⟨_, _, draw_of_seamless h hs b, Grid.collides_iff_overlap h _,
    Grid.overlap_pos_iff_dark hw hh h _, ?_, fun px py hout => ?_, _, _,
    draw_of_seamless h hs _, ?_⟩
  · have hcount := Grid.litCount_flip hw hh h b.pixels
    show ((b.pixels.flip x y sprite).litCount : Int) = _
    omega
  · refine Grid.isLit_flip_of_outside hw hh h b.pixels ?_
    rintro ⟨c, r, hp, hx, hy⟩
    rw [sub_sub] at hx hy
    exact hout ⟨c, r, (mem_setBits.mp hp).1, (Int.modEq_iff_dvd.mpr hx).symm,
      (Int.modEq_iff_dvd.mpr hy).symm⟩
  · rw [Bool.or_eq_true, Grid.collides_iff_overlap h, Grid.collides_iff_overlap h]
    exact Grid.overlap_twice_iff hw hh h b.pixels

/-- A grid with every third diagonal lit. -/
def diagonals : Framebuffer 11 5 := ⟨.plot fun x y => (x + y) % 3 = 0, false⟩

/-- A sprite as tall as the grid, across its edges and up to the greatest coordinate. -/
theorem diagonals_counted :
    Seamless 11 5 (LongWord.greatest - 7) (-2) [0xFF, 0x81, 0x18, 0x00, 0x5A] ∧
      ∃ met b', diagonals.draw (LongWord.greatest - 7) (-2) [0xFF, 0x81, 0x18, 0x00, 0x5A] =
          (.ok met, b') ∧
        (b'.pixels.litCount : Int) =
          diagonals.pixels.litCount + (setBits [0xFF, 0x81, 0x18, 0x00, 0x5A]).card - 2 *
            diagonals.pixels.overlap (LongWord.greatest - 7) (-2)
              [0xFF, 0x81, 0x18, 0x00, 0x5A] := by
  have h : Seamless 11 5 (LongWord.greatest - 7) (-2) [0xFF, 0x81, 0x18, 0x00, 0x5A] := by decide
  obtain ⟨met, b', hdraw, -, -, hcount, -⟩ :=
    draw_counts (by decide) (by decide) (by decide) h diagonals
  exact ⟨h, met, b', hdraw, hcount⟩

/-- On a grid of nine columns two bits of a row fall on one pixel if the row reaches beyond the
greatest coordinate, and a sprite beyond it is refused. -/
theorem bits_at_greatest_miscounted :
    (((blank : Framebuffer 9 1).draw LongWord.greatest 0 [0xFF]).1 = .ok false ∧
      ((((blank : Framebuffer 9 1).draw LongWord.greatest 0 [0xFF]).2.pixels.litCount : Nat) :
          Int) ≠
        (blank : Framebuffer 9 1).pixels.litCount + (setBits [0xFF]).card -
          2 * (blank : Framebuffer 9 1).pixels.overlap LongWord.greatest 0 [0xFF]) ∧
    ((blank : Framebuffer 9 1).draw (LongWord.greatest + 1) 0 [0xFF]).1 = .error .tooFar :=
  ⟨⟨rfl, by decide +kernel⟩, rfl⟩

end Framebuffer

end ChipEight
