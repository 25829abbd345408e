/-
Reading assembler text back.

Eleven instructions print `LD`, three print `ADD`, and operands may be any integers, so it is not
plain that a text belongs to one instruction only.  Here is a small assembler for the notation.  A
text is cut at its blanks,

    DRW V1, V2, 5   =   "DRW"  "V1,"  "V2,"  "5",

the commas are dropped, and every word behind the mnemonic is read by its shape: a `V` and a
numeral is a register, `0x` and a numeral is a number, anything else stands for itself.  What the
mnemonic leaves open is told by these shapes (`assemble?`).

The assembler gives back every instruction from its text (`ofText?_text`), with any operands:
filling zeros, minus signs and the number of digits are no obstacle.  Main result: two instructions
with the same text are the same (`text_inj`).
-/
import ChipEight.Instruction

namespace ChipEight

/-! ### Hexadecimal numerals -/

/-- The value of an upper-case hexadecimal digit. -/
def hexDigitValue (c : Char) : Nat := if c.isDigit then c.toNat - 0x30 else c.toNat - 0x37

/-- The number with the given hexadecimal digits, the most significant first. -/
def ofHexDigits (cs : List Char) : Nat := cs.foldl (fun n c => 16 * n + hexDigitValue c) 0

/-- The value of a numeral with or without a minus sign, from that of its digits. -/
def signed (value : List Char → Nat) : List Char → Int
  | '-' :: cs => -(value cs : Int)
  | cs => value cs

/-- The integer with the given hexadecimal text. -/
def ofHex (cs : List Char) : Int := signed ofHexDigits cs

theorem signed_of_head_ne (value : List Char → Nat) {cs : List Char} (h : '-' ∉ cs) :
    signed value cs = value cs := by
  unfold signed
  split
  · exact absurd List.mem_cons_self h
  · rfl

/-- A digit below sixteen, as it is printed. -/
theorem hexDigit_cases {d : Nat} (h : d < 16) :
    d.digitChar.toUpper ∈ "0123456789ABCDEF".toList ∧ hexDigitValue d.digitChar.toUpper = d := by
  revert d
  decide

theorem hexDigits_of_lt {n : Nat} (h : n < 16) : hexDigits n = [n.digitChar.toUpper] := by
  rw [hexDigits, Nat.toDigits_of_lt_base h]
  rfl

/-- The last digit comes off the end. -/
theorem hexDigits_of_le {n : Nat} (h : 16 ≤ n) :
    hexDigits n = hexDigits (n / 16) ++ [(n % 16).digitChar.toUpper] := by
  have hn : Nat.toDigits 16 n = Nat.toDigits 16 (n / 16) ++ [(n % 16).digitChar] := by
    rw [Nat.toDigits_eq_if (by decide), if_neg (Nat.not_lt.mpr h)]
  rw [hexDigits, hn, List.map_append]
  rfl

theorem ofHexDigits_append (cs : List Char) (c : Char) :
    ofHexDigits (cs ++ [c]) = 16 * ofHexDigits cs + hexDigitValue c := by
  simp [ofHexDigits]

theorem ofHexDigits_hexDigits (n : Nat) : ofHexDigits (hexDigits n) = n := by
  induction n using Nat.strongRecOn with
  | ind n ih =>
    rcases Nat.lt_or_ge n 16 with h | h
    · rw [hexDigits_of_lt h]
      show 16 * 0 + hexDigitValue n.digitChar.toUpper = n
      rw [(hexDigit_cases h).2]
      omega
    · rw [hexDigits_of_le h, ofHexDigits_append, ih (n / 16) (by omega),
        (hexDigit_cases (Nat.mod_lt n (by decide))).2]
      omega

theorem mem_of_mem_hexDigits {n : Nat} {c : Char} (h : c ∈ hexDigits n) :
    c ∈ "0123456789ABCDEF".toList := by
  induction n using Nat.strongRecOn with
  | ind n ih =>
    rcases Nat.lt_or_ge n 16 with hn | hn
    · rw [hexDigits_of_lt hn, List.mem_singleton] at h
      rw [h]
      exact (hexDigit_cases hn).1
    · rw [hexDigits_of_le hn, List.mem_append, List.mem_singleton] at h
      rcases h with h | rfl
      · exact ih (n / 16) (by omega) h
      · exact (hexDigit_cases (Nat.mod_lt n (by decide))).1

/-- Filling zeros do not count. -/
theorem ofHexDigits_leftpad (width : Nat) (cs : List Char) :
    ofHexDigits (cs.leftpad width '0') = ofHexDigits cs := by
  have hzeros : ∀ k, (List.replicate k '0').foldl (fun n c => 16 * n + hexDigitValue c) 0 = 0 := by
    intro k
    induction k with
    | zero => rfl
    | succ k ih => exact ih
  rw [ofHexDigits, List.leftpad, List.foldl_append, hzeros]
  rfl

theorem mem_of_mem_leftpad {width : Nat} {cs : List Char} {c : Char}
    (h : c ∈ cs.leftpad width '0') : c = '0' ∨ c ∈ cs := by
  rw [List.leftpad, List.mem_append] at h
  exact h.imp_left List.eq_of_mem_replicate

/-- The characters of hexadecimal text. -/
theorem mem_of_mem_hexChars {width : Nat} {n : Int} {c : Char} (h : c ∈ hexChars width n) :
    c ∈ "-0123456789ABCDEF".toList := by
  have hdigits {width : Nat} (h : c ∈ (hexDigits n.natAbs).leftpad width '0') :
      c ∈ "0123456789ABCDEF".toList := by
    rcases mem_of_mem_leftpad h with rfl | h
    · decide
    · exact mem_of_mem_hexDigits h
  unfold hexChars at h
  split at h
  · rcases List.mem_cons.mp h with rfl | h
    · decide
    · exact List.mem_cons_of_mem _ (hdigits h)
  · exact List.mem_cons_of_mem _ (hdigits h)

/-- **Hexadecimal text is read back**, whatever its width. -/
theorem ofHex_hexChars (width : Nat) (n : Int) : ofHex (hexChars width n) = n := by
  have hvalue (width : Nat) :
      ofHexDigits ((hexDigits n.natAbs).leftpad width '0') = n.natAbs := by
    rw [ofHexDigits_leftpad, ofHexDigits_hexDigits]
  by_cases h : n < 0
  · rw [hexChars, if_pos h]
    show -((ofHexDigits _ : Nat) : Int) = n
    rw [hvalue]
    omega
  · have hminus : '-' ∉ (hexDigits n.natAbs).leftpad width '0' := by
      intro hmem
      rcases mem_of_mem_leftpad hmem with hc | hc
      · exact absurd hc (by decide)
      · exact absurd (mem_of_mem_hexDigits hc) (by decide)
    rw [hexChars, if_neg h, ofHex, signed_of_head_ne _ hminus, hvalue]
    omega

/-! ### Decimal numerals -/

/-- The integer with the given decimal text. -/
def ofDecimal (cs : List Char) : Int := signed (Nat.ofDigitChars 10 · 0) cs

theorem toList_repr (n : Int) :
    n.repr.toList =
      if n < 0 then '-' :: Nat.toDigits 10 n.natAbs else Nat.toDigits 10 n.natAbs := by
  cases n with
  | ofNat n =>
    show n.repr.toList = Nat.toDigits 10 n
    exact Nat.toList_repr
  | negSucc n =>
    rw [if_pos (Int.negSucc_lt_zero n)]
    show ("-" ++ (n + 1).repr).toList = '-' :: Nat.toDigits 10 (n + 1)
    rw [String.toList_append, Nat.toList_repr]
    rfl

theorem isDigit_of_mem_repr {n : Int} {c : Char} (h : c ∈ n.repr.toList) :
    c = '-' ∨ c.isDigit = true := by
  have hdigits (h : c ∈ Nat.toDigits 10 n.natAbs) : c.isDigit = true :=
    Nat.isDigit_of_mem_toDigits (by decide) (by decide) h
  rw [toList_repr] at h
  split at h
  · exact (List.mem_cons.mp h).imp_right hdigits
  · exact .inr (hdigits h)

/-- **Decimal text is read back.** -/
theorem ofDecimal_repr (n : Int) : ofDecimal n.repr.toList = n := by
  have hvalue : Nat.ofDigitChars 10 (Nat.toDigits 10 n.natAbs) 0 = n.natAbs :=
    Nat.ofDigitChars_ten_toDigits
  rw [toList_repr]
  split
  · show -((Nat.ofDigitChars 10 (Nat.toDigits 10 n.natAbs) 0 : Nat) : Int) = n
    rw [hvalue]
    omega
  · have hminus : '-' ∉ Nat.toDigits 10 n.natAbs := fun h =>
      absurd (Nat.isDigit_of_mem_toDigits (by decide) (by decide) h) (by decide)
    rw [ofDecimal, signed_of_head_ne _ hminus, hvalue]
    omega

/-! ### Words -/

/-- What a word behind the mnemonic says by its shape. -/
inductive Reading
  | register (number : Int)
  | number (value : Int)
  | plain (word : String)
  deriving DecidableEq

def Reading.ofChars : List Char → Reading
  | 'V' :: cs => register (ofHex cs)
  | '0' :: 'x' :: cs => number (ofHex cs)
  | cs => plain (String.ofList cs)

namespace Operand

/-- The characters of an operand. -/
def chars (o : Operand) : List Char := o.text.toList

theorem chars_register (n : Int) : (register n).chars = 'V' :: hexChars 1 n := by
  simp [chars, text, hex]

theorem chars_address (n : Int) : (address n).chars = '0' :: 'x' :: hexChars 3 n := by
  simp [chars, text, hex]

theorem chars_byte (n : Int) : (byte n).chars = '0' :: 'x' :: hexChars 2 n := by
  simp [chars, text, hex]

@[simp] theorem ofChars_register (n : Int) :
    Reading.ofChars (register n).chars = .register n := by
  rw [chars_register]
  exact congrArg Reading.register (ofHex_hexChars 1 n)

@[simp] theorem ofChars_address (n : Int) : Reading.ofChars (address n).chars = .number n := by
  rw [chars_address]
  exact congrArg Reading.number (ofHex_hexChars 3 n)

@[simp] theorem ofChars_byte (n : Int) : Reading.ofChars (byte n).chars = .number n := by
  rw [chars_byte]
  exact congrArg Reading.number (ofHex_hexChars 2 n)

/-- A decimal numeral has neither the `V` of a register nor the `x` of a number. -/
@[simp] theorem ofChars_count (n : Int) :
    Reading.ofChars (count n).chars = .plain n.repr := by
  have hletter {c : Char} (hc : c ∈ n.repr.toList) : c ≠ 'V' ∧ c ≠ 'x' := by
    rcases isDigit_of_mem_repr hc with rfl | hc
    · decide
    · constructor <;> rintro rfl <;> exact absurd hc (by decide)
  show Reading.ofChars n.repr.toList = .plain n.repr
  unfold Reading.ofChars
  split
  · rename_i cs h
    exact absurd rfl (hletter (c := 'V') (h ▸ List.mem_cons_self)).1
  · rename_i cs h
    exact absurd rfl (hletter (c := 'x') (h ▸ List.mem_cons_of_mem _ List.mem_cons_self)).2
  · rw [String.ofList_toList]

@[simp] theorem ofChars_named {name : String}
    (h : name ∈ ["I", "DT", "K", "ST", "F", "B", "[I]"]) :
    Reading.ofChars (named name).chars = .plain name := by
  revert name
  decide

/-- The name of the first register is read as any register is. -/
@[simp] theorem ofChars_first : Reading.ofChars (named "V0").chars = .register 0 := by
  decide

/-- The text of an operand can stand between blanks and commas. -/
def IsWord (o : Operand) : Prop := ' ' ∉ o.chars ∧ ',' ∉ o.chars

theorem isWord_of_hexChars (lead : List Char) {o : Operand} {width : Nat} {n : Int}
    (ho : o.chars = lead ++ hexChars width n) (hl : ' ' ∉ lead ∧ ',' ∉ lead) : o.IsWord := by
  have hno {c : Char} (hc : c ∉ lead) (hc' : c ∉ "-0123456789ABCDEF".toList) : c ∉ o.chars := by
    rw [ho, List.mem_append]
    rintro (h | h)
    · exact hc h
    · exact hc' (mem_of_mem_hexChars h)
  exact ⟨hno hl.1 (by decide), hno hl.2 (by decide)⟩

theorem isWord_register (n : Int) : (register n).IsWord :=
  isWord_of_hexChars ['V'] (chars_register n) (by decide)

theorem isWord_address (n : Int) : (address n).IsWord :=
  isWord_of_hexChars ['0', 'x'] (chars_address n) (by decide)

theorem isWord_byte (n : Int) : (byte n).IsWord :=
  isWord_of_hexChars ['0', 'x'] (chars_byte n) (by decide)

theorem isWord_count (n : Int) : (count n).IsWord := by
  have hno {c : Char} (hc : c ≠ '-' ∧ c.isDigit = false) : c ∉ (count n).chars := by
    intro h
    rcases isDigit_of_mem_repr h with e | e
    · exact hc.1 e
    · rw [hc.2] at e
      cases e
  exact ⟨hno (by decide), hno (by decide)⟩

end Operand

/-! ### Lists of words -/

/-- A comma at the end of every word but the last. -/
def punctuate : List (List Char) → List (List Char)
  | [] => []
  | [w] => [w]
  | w :: v :: ws => (w ++ [',']) :: punctuate (v :: ws)

theorem intercalate_punctuate (ws : List (List Char)) :
    [' '].intercalate (punctuate ws) = [',', ' '].intercalate ws := by
  induction ws using punctuate.induct with
  | case1 => rfl
  | case2 w => rfl
  | case3 w v ws ih =>
    have hne : punctuate (v :: ws) ≠ [] := by cases ws <;> simp [punctuate]
    rw [punctuate, List.intercalate_cons_of_ne_nil hne, ih,
      List.intercalate_cons_of_ne_nil (List.cons_ne_nil v ws)]
    simp

/-- A word without its comma. -/
def dropComma (w : List Char) : List Char := w.filter (· ≠ ',')

theorem dropComma_punctuate {ws : List (List Char)} (h : ∀ w ∈ ws, ',' ∉ w) :
    (punctuate ws).map dropComma = ws := by
  have hkept {w : List Char} (hw : ',' ∉ w) : dropComma w = w :=
    List.filter_eq_self.mpr fun c hc => decide_eq_true fun e => hw (e ▸ hc)
  induction ws using punctuate.induct with
  | case1 => rfl
  | case2 w =>
    rw [punctuate, List.map_singleton, hkept (h w List.mem_cons_self)]
  | case3 w v ws ih =>
    have hw : dropComma (w ++ [',']) = w := by
      have happend : dropComma (w ++ [',']) = dropComma w ++ dropComma [','] :=
        List.filter_append ..
      rw [happend, hkept (h w List.mem_cons_self)]
      exact List.append_nil w
    rw [punctuate, List.map_cons, hw, ih fun u hu => h u (List.mem_cons_of_mem _ hu)]

theorem blank_not_mem_punctuate {ws : List (List Char)} (h : ∀ w ∈ ws, ' ' ∉ w) :
    ∀ w ∈ punctuate ws, ' ' ∉ w := by
  induction ws using punctuate.induct with
  | case1 => exact h
  | case2 w => exact h
  | case3 w v ws ih =>
    intro u hu
    rcases List.mem_cons.mp hu with rfl | hu
    · have hw := h w List.mem_cons_self
      simp [hw]
    · exact ih (fun u hu => h u (List.mem_cons_of_mem _ hu)) u hu

namespace Instruction

/-! ### Instructions -/

theorem isWord_of_mem_operands {i : Instruction} {o : Operand} (h : o ∈ i.operands) :
    o.IsWord := by
  have hnamed : ∀ name ∈ ["V0", "I", "DT", "K", "ST", "F", "B", "[I]"],
      (Operand.named name).IsWord := by
    unfold Operand.IsWord
    decide
  cases o with
  | register n => exact Operand.isWord_register n
  | address n => exact Operand.isWord_address n
  | byte n => exact Operand.isWord_byte n
  | count n => exact Operand.isWord_count n
  | named name =>
    apply hnamed
    cases i <;> simp_all [operands]

theorem blank_not_mem_mnemonic (i : Instruction) : ' ' ∉ i.mnemonic.toList := by
  cases i <;> simp [mnemonic]

/-- The words of a text: the mnemonic, and the operands with their commas. -/
def words (i : Instruction) : List (List Char) :=
  i.mnemonic.toList :: punctuate (i.operands.map Operand.chars)

theorem toList_text (i : Instruction) : i.text.toList = [' '].intercalate i.words := by
  rcases ho : i.operands with - | ⟨o, os⟩
  · simp [text, words, ho, punctuate]
  · have hne : punctuate ((o :: os).map Operand.chars) ≠ [] := by cases os <;> simp [punctuate]
    have hchars : ((o :: os).map Operand.text).map String.toList = (o :: os).map Operand.chars := by
      simp [Operand.chars]
    rw [words, ho, List.intercalate_cons_of_ne_nil hne, intercalate_punctuate, ← hchars]
    simp only [text, ho, String.toList_append, String.toList_intercalate]
    rfl

theorem splitOn_text (i : Instruction) : i.text.toList.splitOn ' ' = i.words := by
  have hblank : ∀ w ∈ i.words, ' ' ∉ w := by
    have hoperands : ∀ w ∈ i.operands.map Operand.chars, ' ' ∉ w := by
      intro w hw
      obtain ⟨o, ho, rfl⟩ := List.mem_map.mp hw
      exact (isWord_of_mem_operands ho).1
    intro w hw
    rcases List.mem_cons.mp hw with rfl | hw
    · exact i.blank_not_mem_mnemonic
    · exact blank_not_mem_punctuate hoperands w hw
  rw [toList_text]
  exact List.splitOn_intercalate ' ' hblank (List.cons_ne_nil _ _)

/-- The instructions with operands of the given shapes. -/
def forms : List Reading → List Instruction
  | [] => [clear, ret]
  | [.number a] => [sys a, jump a, call a]
  | [.register r] => [shiftRight r, shiftLeft r, skipHeld r, skipReleased r]
  | [.register r, .number k] =>
    [skipEqualByte r k, skipUnequalByte r k, loadByte r k, addByte r k, random r k, jumpOffset k]
  | [.register x, .register y] =>
    [skipEqual x y, skipUnequal x y, copy x y, or x y, and x y, xor x y, add x y, sub x y,
      subFrom x y]
  | [.register x, .register y, .plain n] => [draw x y (ofDecimal n.toList)]
  | [.plain _, .number a] => [loadIndex a]
  | [.register r, .plain name] =>
    [readDelay r, awaitKey r, load r].filter fun i => .named name ∈ i.operands
  | [.plain name, .register r] =>
    [setDelay r, setSound r, addIndex r, glyph r, decimal r, store r].filter
      fun i => .named name ∈ i.operands
  | _ => []

/-- The instruction with a mnemonic and operands of the given shapes. -/
def assemble? (m : String) (rs : List Reading) : Option Instruction :=
  (forms rs).find? fun i => i.mnemonic = m

/-- The instruction with a text. -/
def ofText? (s : String) : Option Instruction :=
  match s.toList.splitOn ' ' with
  | [] => none
  | m :: ws => assemble? (String.ofList m) (ws.map fun w => Reading.ofChars (dropComma w))

/-- The shapes of the operands tell what the mnemonic leaves open. -/
theorem assemble?_readings (i : Instruction) :
    assemble? i.mnemonic (i.operands.map fun o => Reading.ofChars o.chars) = some i := by
  cases i <;> simp [mnemonic, operands, assemble?, forms, ofDecimal_repr]

/-- **The assembler gives back an instruction from its text.** -/
theorem ofText?_text (i : Instruction) : ofText? i.text = some i := by
  have hcomma : ∀ w ∈ i.operands.map Operand.chars, ',' ∉ w := by
    intro w hw
    obtain ⟨o, ho, rfl⟩ := List.mem_map.mp hw
    exact (isWord_of_mem_operands ho).2
  have hreadings : (punctuate (i.operands.map Operand.chars)).map
      (fun w => Reading.ofChars (dropComma w)) =
        i.operands.map fun o => Reading.ofChars o.chars := by
    calc (punctuate (i.operands.map Operand.chars)).map (fun w => Reading.ofChars (dropComma w))
      _ = ((punctuate (i.operands.map Operand.chars)).map dropComma).map Reading.ofChars := by
        rw [List.map_map]
        rfl
      _ = (i.operands.map Operand.chars).map Reading.ofChars := by rw [dropComma_punctuate hcomma]
      _ = _ := by
        rw [List.map_map]
        rfl
  rw [ofText?, splitOn_text, words]
  dsimp only
  rw [hreadings, String.ofList_toList, assemble?_readings]

/-- **A text belongs to one instruction only**: two instructions print the same text if and only if
they are the same, kind and operands. -/
theorem text_inj {i j : Instruction} : i.text = j.text ↔ i = j := by
  refine ⟨fun h => ?_, congrArg text⟩
  have hread := congrArg ofText? h
  rw [ofText?_text, ofText?_text] at hread
  exact Option.some.inj hread

end Instruction

end ChipEight
