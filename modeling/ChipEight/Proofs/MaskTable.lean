/-
Decoding by a table.

The decoder looks at the leading digit of a word and then, in some groups, at the last digit or the
last two.  It might as well go through a list of all instructions, each with a mask and a pattern,

    FFFF 00E0,  FFFF 00EE,  F000 0nnn,  …,  F00F 8xy4,  …,  F0FF Fx65,

take the first whose pattern shows under its mask, and read the operands from the bits outside the
mask.  Every mask includes the leading digit, so that a row of one group never takes a word of
another (`find?_ofGroup`).  Mask, operands and what is ignored make up the whole word
(`encode_build`).

Main result: `decode_eq_scan`.
-/
import ChipEight.Proofs.Decoding
import Mathlib

namespace ChipEight

/-- The number that an operand is, unless it is a name. -/
def Operand.number? : Operand → Option Int
  | register v | address v | byte v | count v => some v
  | named _ => none

/-- The numbers of an instruction, in the order in which they are printed. -/
def Instruction.numbers (i : Instruction) : List Int := i.operands.filterMap Operand.number?

namespace MaskTable

open Instruction

/-! ### Bits -/

/-- Numbers without a common bit are added bit by bit. -/
theorem add_eq_or {a b : Nat} (h : a &&& b = 0) : a + b = a ||| b := by
  induction a using Nat.strongRecOn generalizing b with
  | ind a ih =>
    rcases Nat.eq_zero_or_pos a with rfl | ha
    · simp
    · have hhalf : a / 2 ^ 1 &&& b / 2 ^ 1 = 0 := by rw [← Nat.and_div_two_pow, h, Nat.zero_div]
      have hodd : a % 2 ^ 1 &&& b % 2 ^ 1 = 0 := by rw [← Nat.and_mod_two_pow, h, Nat.zero_mod]
      have hbit : a % 2 ^ 1 + b % 2 ^ 1 = a % 2 ^ 1 ||| b % 2 ^ 1 := by
        rcases Nat.mod_two_eq_zero_or_one a with ea | ea <;>
          rcases Nat.mod_two_eq_zero_or_one b with eb | eb <;> simp_all
      have hhalves := ih (a / 2 ^ 1) (by omega) hhalf
      rw [← Nat.or_mod_two_pow] at hbit
      rw [← Nat.or_div_two_pow] at hhalves
      omega

theorem and_add_and (n : Nat) {a b : Nat} (h : a &&& b = 0) :
    (n &&& a) + (n &&& b) = n &&& (a ||| b) := by
  have hand : (n &&& a) &&& (n &&& b) = 0 := by
    rw [Nat.and_assoc, ← Nat.and_assoc a, Nat.and_comm a, Nat.and_assoc n a, h, Nat.and_zero,
      Nat.and_zero]
  rw [add_eq_or hand, Nat.and_or_distrib_left]

/-- The bits of all masks. -/
def union (masks : List Nat) : Nat := masks.foldr (fun a b => a ||| b) 0

theorem and_union {a : Nat} {masks : List Nat} (h : ∀ b ∈ masks, a &&& b = 0) :
    a &&& union masks = 0 := by
  induction masks with
  | nil => exact Nat.and_zero a
  | cons b masks ih =>
    have hrest := ih fun c hc => h c (.tail b hc)
    rw [union, List.foldr_cons, ← union, Nat.and_or_distrib_left, h b (.head masks), hrest]
    rfl

/-- **Masks without a common bit take a number apart.** -/
theorem sum_and (n : Nat) {masks : List Nat} (h : masks.Pairwise fun a b => a &&& b = 0) :
    (masks.map fun a => n &&& a).sum = n &&& union masks := by
  induction h with
  | nil => exact (Nat.and_zero n).symm
  | @cons a masks ha _ ih =>
    rw [List.map_cons, List.sum_cons, ih, and_add_and n (and_union ha)]
    rfl

/-- Bits of a word that stand beside each other. -/
structure Place where
  shift : Nat
  width : Nat

namespace Place

def mask (p : Place) : Nat := (2 ^ p.width - 1) * 2 ^ p.shift

/-- The number that stands there. -/
def get (p : Place) (n : Nat) : Nat := n / 2 ^ p.shift % 2 ^ p.width

/-- A number put there. -/
def put (p : Place) (v : Int) : Int := v * 2 ^ p.shift

theorem and_mask (p : Place) (n : Nat) : n &&& p.mask = p.get n * 2 ^ p.shift := by
  refine Nat.eq_of_testBit_eq fun i => ?_
  rw [mask, get, Nat.testBit_and, Nat.testBit_mul_two_pow, Nat.testBit_mul_two_pow,
    Nat.testBit_two_pow_sub_one, Nat.testBit_mod_two_pow, Nat.testBit_div_two_pow]
  by_cases hi : p.shift ≤ i
  · rw [Nat.sub_add_cancel hi]
    simp [hi, Bool.and_comm]
  · simp [hi]

/-- What stands at a place stays if all its bits do. -/
theorem get_and (p : Place) {n m : Nat} (h : m &&& p.mask = p.mask) :
    p.get (n &&& m) = p.get n := by
  have e : p.get (n &&& m) * 2 ^ p.shift = p.get n * 2 ^ p.shift := by
    rw [← and_mask, ← and_mask, Nat.and_assoc, h]
  exact Nat.eq_of_mul_eq_mul_right (Nat.two_pow_pos p.shift) e

end Place

def leading : Place := ⟨12, 4⟩
def x : Place := ⟨8, 4⟩
def y : Place := ⟨4, 4⟩
def last : Place := ⟨0, 4⟩
def low : Place := ⟨0, 8⟩
def address : Place := ⟨0, 12⟩

/-! ### The table -/

/-- How an instruction is made of the numbers at some places. -/
inductive Form
  | plain (i : Instruction)
  | one (make : Int → Instruction) (p : Place)
  | two (make : Int → Int → Instruction) (p q : Place)
  | three (make : Int → Int → Int → Instruction) (p q r : Place)

namespace Form

def places : Form → List Place
  | plain _ => []
  | one _ p => [p]
  | two _ p q => [p, q]
  | three _ p q r => [p, q, r]

def build (n : Nat) : Form → Instruction
  | plain i => i
  | one make p => make (p.get n)
  | two make p q => make (p.get n) (q.get n)
  | three make p q r => make (p.get n) (q.get n) (r.get n)

/-- An instruction is made of what stands at its places, and of nothing else. -/
theorem build_congr {form : Form} {n m : Nat} (h : ∀ p ∈ form.places, p.get n = p.get m) :
    form.build n = form.build m := by
  cases form <;> simp_all [build, places]

end Form

structure Row where
  mask : Nat
  pattern : Nat
  form : Form

namespace Row

/-- The pattern shows under the mask. -/
def Matches (row : Row) (n : Nat) : Prop := n &&& row.mask = row.pattern

instance (row : Row) (n : Nat) : Decidable (row.Matches n) :=
  inferInstanceAs (Decidable (n &&& row.mask = row.pattern))

/-- The instruction, made of the bits outside the mask. -/
def build (row : Row) (n : Nat) : Instruction := row.form.build (n &&& (0xFFFF ^^^ row.mask))

/-- The pattern with numbers put back at the places of the operands. -/
def encode (row : Row) (numbers : List Int) : Int :=
  row.pattern + (List.zipWith Place.put row.form.places numbers).sum

/-- The bits of a word of which the instruction knows nothing. -/
def ignored (row : Row) : Nat :=
  0xFFFF ^^^ (row.mask ||| union (row.form.places.map Place.mask))

end Row

/-- Group `0`, the instructions without operands first. -/
def system : List Row :=
  [⟨0xFFFF, 0x00E0, .plain .clear⟩, ⟨0xFFFF, 0x00EE, .plain .ret⟩,
    ⟨0xF000, 0x0000, .one .sys address⟩]

def arithmetic : List Row :=
  [⟨0xF00F, 0x8000, .two .copy x y⟩, ⟨0xF00F, 0x8001, .two .or x y⟩,
    ⟨0xF00F, 0x8002, .two .and x y⟩, ⟨0xF00F, 0x8003, .two .xor x y⟩,
    ⟨0xF00F, 0x8004, .two .add x y⟩, ⟨0xF00F, 0x8005, .two .sub x y⟩,
    ⟨0xF00F, 0x8006, .one .shiftRight x⟩, ⟨0xF00F, 0x8007, .two .subFrom x y⟩,
    ⟨0xF00F, 0x800E, .one .shiftLeft x⟩]

def keys : List Row :=
  [⟨0xF0FF, 0xE09E, .one .skipHeld x⟩, ⟨0xF0FF, 0xE0A1, .one .skipReleased x⟩]

def transfers : List Row :=
  [⟨0xF0FF, 0xF007, .one .readDelay x⟩, ⟨0xF0FF, 0xF00A, .one .awaitKey x⟩,
    ⟨0xF0FF, 0xF015, .one .setDelay x⟩, ⟨0xF0FF, 0xF018, .one .setSound x⟩,
    ⟨0xF0FF, 0xF01E, .one .addIndex x⟩, ⟨0xF0FF, 0xF029, .one .glyph x⟩,
    ⟨0xF0FF, 0xF033, .one .decimal x⟩, ⟨0xF0FF, 0xF055, .one .store x⟩,
    ⟨0xF0FF, 0xF065, .one .load x⟩]

/-- All instructions. -/
def table : List Row :=
  system ++
  [⟨0xF000, 0x1000, .one .jump address⟩, ⟨0xF000, 0x2000, .one .call address⟩,
    ⟨0xF000, 0x3000, .two .skipEqualByte x low⟩, ⟨0xF000, 0x4000, .two .skipUnequalByte x low⟩,
    ⟨0xF000, 0x5000, .two .skipEqual x y⟩, ⟨0xF000, 0x6000, .two .loadByte x low⟩,
    ⟨0xF000, 0x7000, .two .addByte x low⟩] ++
  arithmetic ++
  [⟨0xF000, 0x9000, .two .skipUnequal x y⟩, ⟨0xF000, 0xA000, .one .loadIndex address⟩,
    ⟨0xF000, 0xB000, .one .jumpOffset address⟩, ⟨0xF000, 0xC000, .two .random x low⟩,
    ⟨0xF000, 0xD000, .three .draw x y last⟩] ++
  keys ++ transfers

/-- The instruction of the first row that matches. -/
def scan (w : Int) : Except UnknownWord Instruction :=
  if 0 ≤ w ∧ w ≤ 0xFFFF then
    match table.find? fun row => row.Matches w.toNat with
    | some row => .ok (row.build w.toNat)
    | none => .error ⟨w⟩
  else .error ⟨w⟩

/-! ### The rows of a group -/

/-- The rows whose words have the leading digit of `n`. -/
def ofGroup (n : Nat) : List Row :=
  table.filter fun row => row.pattern &&& 0xF000 = leading.get n * 2 ^ 12

theorem mask_leading : ∀ row ∈ table, row.mask &&& 0xF000 = 0xF000 := by decide

/-- **No row takes a word of another group.** -/
theorem find?_ofGroup (n : Nat) :
    (ofGroup n).find? (fun row => row.Matches n) = table.find? fun row => row.Matches n := by
  rw [ofGroup, List.find?_filter]
  refine List.find?_congr fun row hrow => ?_
  rw [decide_eq_decide]
  refine ⟨fun h => of_decide_eq_true h.2, fun h => ⟨decide_eq_true ?_, decide_eq_true h⟩⟩
  have hlead : n &&& 0xF000 = leading.get n * 2 ^ 12 := leading.and_mask n
  rw [← hlead, ← mask_leading row hrow, ← h, Nat.and_assoc, ← Nat.and_assoc row.mask, Nat.and_self]

/-! ### What shows under a mask -/

variable {n : Nat}

theorem and_first (n : Nat) : n &&& 0xF000 = leading.get n * 0x1000 := leading.and_mask n

theorem and_first_last (n : Nat) : n &&& 0xF00F = last.get n + leading.get n * 0x1000 := by
  have h := and_add_and n (a := last.mask) (b := leading.mask) (by decide)
  rw [leading.and_mask, last.and_mask] at h
  exact h.symm.trans (by simp [leading, last])

theorem and_first_low (n : Nat) : n &&& 0xF0FF = low.get n + leading.get n * 0x1000 := by
  have h := and_add_and n (a := low.mask) (b := leading.mask) (by decide)
  rw [leading.and_mask, low.and_mask] at h
  exact h.symm.trans (by simp [leading, low])

theorem and_all (hn : n ≤ 0xFFFF) : n &&& 0xFFFF = n := by
  have h := Nat.and_two_pow_sub_one_eq_mod n 16
  rw [Nat.mod_eq_of_lt (by omega)] at h
  exact h

/-! ### The fields of a word -/

theorem group_eq (n : Nat) : Word.group n = leading.get n := by
  simp only [Word.group, Place.get, leading]
  omega

theorem x_eq (n : Nat) : Word.x n = x.get n := by
  simp only [Word.x, Place.get, x]
  omega

theorem y_eq (n : Nat) : Word.y n = y.get n := by
  simp only [Word.y, Place.get, y]
  omega

theorem digit_eq (n : Nat) : Word.digit n = last.get n := by
  simp only [Word.digit, Place.get, last]
  omega

theorem byte_eq (n : Nat) : Word.byte n = low.get n := by
  simp only [Word.byte, Place.get, low]
  omega

theorem address_eq (n : Nat) : Word.address n = address.get n := by
  simp only [Word.address, Place.get, address]
  omega

/-! ### Rows and groups -/

theorem places_outside : ∀ row ∈ table, ∀ p ∈ row.form.places,
    (0xFFFF ^^^ row.mask) &&& p.mask = p.mask := by decide

/-- The bits under the mask make no difference to the instruction. -/
theorem build_eq {row : Row} (h : row ∈ table) (n : Nat) : row.build n = row.form.build n :=
  Form.build_congr fun p hp => p.get_and (places_outside row h p hp)

/-- The instruction of the first of some rows that matches. -/
def pick (rows : List Row) (n : Nat) : Option Instruction :=
  (rows.find? fun row => row.Matches n).map fun row => row.form.build n

theorem pick_nil (n : Nat) : pick [] n = none := rfl

theorem pick_cons (row : Row) (rows : List Row) (n : Nat) :
    pick (row :: rows) n = if row.Matches n then some (row.form.build n) else pick rows n := by
  by_cases h : row.Matches n <;> simp [pick, h]

theorem pick_table (n : Nat) :
    pick table n = (table.find? fun row => row.Matches n).map fun row => row.build n := by
  rw [pick]
  rcases e : table.find? fun row => row.Matches n with - | row
  · rw [e]
    rfl
  · rw [e]
    exact congrArg some (build_eq (List.mem_of_find?_eq_some e) n).symm

theorem pick_ofGroup (n : Nat) : pick (ofGroup n) n = pick table n := by
  rw [pick, find?_ofGroup, pick]

theorem decodeArithmetic?_eq (hg : leading.get n = 8) :
    decodeArithmetic? n = pick arithmetic n := by
  simp only [decodeArithmetic?, digit_eq, x_eq, y_eq, Int.toNat_natCast]
  split <;> simp_all [pick_nil, pick_cons, arithmetic, Row.Matches, and_first_last, Form.build]

theorem decodeKey?_eq (hg : leading.get n = 0xE) : decodeKey? n = pick keys n := by
  simp only [decodeKey?, byte_eq, x_eq, Int.toNat_natCast]
  split <;> simp_all [pick_nil, pick_cons, keys, Row.Matches, and_first_low, Form.build]

theorem decodeTransfer?_eq (hg : leading.get n = 0xF) : decodeTransfer? n = pick transfers n := by
  simp only [decodeTransfer?, byte_eq, x_eq, Int.toNat_natCast]
  split <;> simp_all [pick_nil, pick_cons, transfers, Row.Matches, and_first_low, Form.build]

theorem decodeSystem_eq (hn : n ≤ 0xFFFF) (hg : leading.get n = 0) :
    some (decodeSystem n) = pick system n := by
  have hword (k : Nat) (hk : k < 0x100) : (Word.x n = 0 ∧ Word.byte n = k) ↔ n = k := by
    simp only [Place.get, leading, Word.x, Word.byte] at hg ⊢
    omega
  have hclear : (Word.x n = 0 ∧ Word.byte n = 0xE0) ↔ n = 0xE0 := hword 0xE0 (by decide)
  have hret : (Word.x n = 0 ∧ Word.byte n = 0xEE) ↔ n = 0xEE := hword 0xEE (by decide)
  simp only [decodeSystem, hclear, hret, address_eq, system, pick_cons, Row.Matches, and_all hn,
    and_first, hg, Form.build]
  split
  · rfl
  · split <;> rfl

/-- **Group by group** the decoder finds what the scan finds. -/
theorem decodeGroup?_eq (hn : n ≤ 0xFFFF) : decodeGroup? n = pick table n := by
  have hlt : leading.get n < 16 := Nat.mod_lt _ (by decide)
  rw [← pick_ofGroup]
  simp only [decodeGroup?, group_eq, x_eq, y_eq, digit_eq, byte_eq, address_eq, Int.toNat_natCast]
  split
  case h_1 hg =>
    rw [ofGroup, hg]
    exact decodeSystem_eq hn hg
  case h_9 hg =>
    rw [ofGroup, hg]
    exact decodeArithmetic?_eq hg
  case h_15 hg =>
    rw [ofGroup, hg]
    exact decodeKey?_eq hg
  case h_16 =>
    -- the last group is what remains
    have hg : leading.get n = 0xF := by
      simp only [imp_false] at *
      omega
    rw [ofGroup, hg]
    exact decodeTransfer?_eq hg
  -- each of the other groups has one row
  all_goals
    rename_i hg
    rw [ofGroup, hg]
    refine Eq.trans ?_ (pick_cons _ [] n).symm
    rw [if_pos]
    · rfl
    · rw [Row.Matches, and_first, hg]

/-! ### Words put together again -/

/-- The numbers of an instruction are those that stood at its places. -/
theorem numbers_build : ∀ row ∈ table, ∀ n,
    (row.form.build n).numbers = row.form.places.map fun p => (p.get n : Int) := by
  simp only [table, system, arithmetic, keys, transfers, List.cons_append, List.nil_append,
    List.forall_mem_cons]
  and_intros
  all_goals first | exact fun _ => rfl | exact nofun

theorem sum_places (places : List Place) (n : Nat) :
    (List.zipWith Place.put places (places.map fun p => (p.get n : Int))).sum =
      ((places.map fun p => n &&& p.mask).sum : Nat) := by
  induction places with
  | nil => rfl
  | cons p places ih =>
    simp only [List.map_cons, List.zipWith_cons_cons, List.sum_cons, ih, p.and_mask, Place.put]
    push_cast
    rfl

/-- Mask, places and ignored bits make up the word, and no two of them have a bit in common. -/
theorem masks_partition : ∀ row ∈ table,
    (row.mask :: row.ignored :: row.form.places.map Place.mask).Pairwise (fun a b => a &&& b = 0) ∧
      union (row.mask :: row.ignored :: row.form.places.map Place.mask) = 0xFFFF := by decide

/-- **Operands put back give the word**, but for the bits that the instruction ignores. -/
theorem encode_build {row : Row} (h : row ∈ table) (hn : n ≤ 0xFFFF) (hm : row.Matches n) :
    (n : Int) = row.encode (row.build n).numbers + (n &&& row.ignored : Nat) := by
  obtain ⟨hdisjoint, hunion⟩ := masks_partition row h
  have hsum := sum_and n hdisjoint
  rw [hunion, and_all hn, List.map_cons, List.map_cons, List.map_map, List.sum_cons,
    List.sum_cons, hm] at hsum
  rw [Row.encode, build_eq h, numbers_build row h, sum_places]
  simp only [Function.comp_def] at hsum
  omega

/-- The last digit of two skips is ignored, and so is the third of two shifts. -/
theorem ignored_eq : ∀ row ∈ table, row.ignored =
    if row.pattern = 0x5000 ∨ row.pattern = 0x9000 then 0x000F
    else if row.pattern = 0x8006 ∨ row.pattern = 0x800E then 0x00F0
    else 0 := by decide

/-! ### The decoder and the table -/

/-- The decoder and the scan are the same function. -/
theorem decode_eq (w : Int) : decode w = scan w := by
  unfold decode scan
  by_cases hw : 0 ≤ w ∧ w ≤ 0xFFFF
  · obtain ⟨n, rfl⟩ := Int.eq_ofNat_of_zero_le hw.1
    rw [if_pos hw, if_pos hw, decodeGroup?_eq (by omega), pick_table]
    rcases e : table.find? fun row => row.Matches n with - | row <;> simp [e]
  · rw [if_neg hw, if_neg hw]

/-- What a scan refuses is no word or has no row. -/
theorem scan_eq_error_iff {w : Int} {e : UnknownWord} : scan w = .error e ↔
    e = ⟨w⟩ ∧ (¬ (0 ≤ w ∧ w ≤ 0xFFFF) ∨ ∀ row ∈ table, ¬ row.Matches w.toNat) := by
  have hnone : (table.find? fun row => row.Matches w.toNat) = none ↔
      ∀ row ∈ table, ¬ row.Matches w.toNat := by simp [List.find?_eq_none]
  unfold scan
  rw [← hnone]
  by_cases hw : 0 ≤ w ∧ w ≤ 0xFFFF
  · rw [if_pos hw, or_iff_right (not_not_intro hw)]
    rcases hfind : table.find? fun row => row.Matches w.toNat with - | row <;>
      simp [hfind, eq_comm]
  · rw [if_neg hw]
    simp [hw, eq_comm]

theorem exists_of_scan {w : Int} {i : Instruction} (h : scan w = .ok i) :
    (0 ≤ w ∧ w ≤ 0xFFFF) ∧ ∃ row ∈ table, row.Matches w.toNat ∧ i = row.build w.toNat := by
  unfold scan at h
  split at h
  · rename_i hw
    split at h
    · rename_i row hrow
      obtain rfl := Except.ok.inj h
      have hm := List.find?_some hrow
      exact ⟨hw, row, List.mem_of_find?_eq_some hrow, of_decide_eq_true hm, rfl⟩
    · cases h
  · cases h

/-- **The decoder is a scan of the table.**  It gives every integer the instruction of the first of
thirty-five rows that matches, and refuses it if it is no word or if no row matches.  The operands
fit, and put back into the pattern of the row they give the word, but for the bits that the row
ignores: the last digit of `5xy_` and `9xy_`, and the third of `8x_6` and `8x_E`. -/
theorem decode_eq_scan (w : Int) :
    table.length = 35 ∧ decode w = scan w ∧
    (∀ e, decode w = .error e ↔
      e = ⟨w⟩ ∧ (¬ (0 ≤ w ∧ w ≤ 0xFFFF) ∨ ∀ row ∈ table, ¬ row.Matches w.toNat)) ∧
    (∀ i, decode w = .ok i → i.Fits ∧
      ∃ row ∈ table, row.Matches w.toNat ∧ i = row.build w.toNat ∧
        w = row.encode i.numbers + (w.toNat &&& row.ignored : Nat)) ∧
    ∀ row ∈ table, row.ignored =
      if row.pattern = 0x5000 ∨ row.pattern = 0x9000 then 0x000F
      else if row.pattern = 0x8006 ∨ row.pattern = 0x800E then 0x00F0
      else 0 := by
  refine ⟨rfl, decode_eq w, fun e => ?_, fun i h => ⟨decode_fits h, ?_⟩, ignored_eq⟩
  · rw [decode_eq]
    exact scan_eq_error_iff
  · rw [decode_eq] at h
    obtain ⟨hw, row, hrow, hm, rfl⟩ := exists_of_scan h
    have hback := encode_build hrow (by omega) hm
    rw [Int.toNat_of_nonneg hw.1] at hback
    exact ⟨row, hrow, hm, rfl, hback⟩

theorem shiftRight_by_scan :
    decode 0x8AB6 = .ok (.shiftRight 0xA) ∧ ∃ row ∈ table, row.Matches 0x8AB6 ∧
      .shiftRight 0xA = row.build 0x8AB6 ∧
        0x8AB6 = row.encode [0xA] + (0x8AB6 &&& row.ignored : Nat) := by
  have h : decode 0x8AB6 = .ok (.shiftRight 0xA) := by decide
  exact ⟨h, ((decode_eq_scan 0x8AB6).2.2.2.1 _ h).2⟩

end MaskTable

end ChipEight
