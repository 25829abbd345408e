/-
Programs in memory.

Loading copies a program to `0x200`, as far as it fits.  Of `size` bytes there are

    n = min size 3584

that fit, and memory is cut in three around them,

    memory[0 .. 0x200)  ++  program[0 .. n)  ++  memory[0x200 + n .. 4096),

so nothing in front of the program changes, and nothing behind it, not even what is left of a longer
program loaded before.  No other part of the machine takes notice.

What was loaded is what is fetched: the word at `0x200 + k` is made of the bytes `k` and `k + 1` of
the program, at odd places as at even ones, up to the last two bytes that fit
(`load_then_fetch`).
-/
import ChipEight.Proofs.Reachable

namespace ChipEight.Machine

variable {m : Machine} {program : Array UInt8} {a k : Nat}

/-! ### The number of bytes -/

theorem loadedSize_le_size (program : Array UInt8) : loadedSize program ≤ program.size :=
  Nat.min_le_left ..

/-- What is loaded ends with memory at the latest. -/
theorem programStart_add_loadedSize_le (program : Array UInt8) :
    programStart + loadedSize program ≤ 4096 := by
  have hroom : loadedSize program ≤ 4096 - 0x200 := Nat.min_le_right ..
  show 0x200 + loadedSize program ≤ 4096
  omega

/-! ### Cell by cell -/

theorem load_memory (ha : a < 4096) :
    (m.load program).memory[a] =
      if programStart ≤ a then program.getD (a - programStart) m.memory[a] else m.memory[a] := by
  simp [load]

/-- Where the program stands. -/
theorem load_inside (hk : k < loadedSize program) :
    (m.load program).memory[programStart + k]? = program[k]? := by
  have hsize := loadedSize_le_size program
  have hend := programStart_add_loadedSize_le program
  have ha : programStart + k < 4096 := by omega
  have hprogram : k < program.size := by omega
  rw [Vector.getElem?_eq_getElem ha, load_memory ha, if_pos (Nat.le_add_right ..)]
  simp [hprogram]

/-- In front of the program and behind it. -/
theorem load_outside (h : a < programStart ∨ programStart + loadedSize program ≤ a) :
    (m.load program).memory[a]? = m.memory[a]? := by
  rcases Nat.lt_or_ge a 4096 with ha | ha
  · rw [Vector.getElem?_eq_getElem ha, Vector.getElem?_eq_getElem ha, load_memory ha]
    split
    · -- behind the bytes that fit the program has come to its end, since memory has not
      rename_i hstart
      have hroom : a - programStart < programRoom := by
        show a - 0x200 < 4096 - 0x200
        omega
      have hsize : program.size ≤ a - programStart := by
        unfold loadedSize at h
        omega
      simp [Array.getElem?_eq_none hsize]
    · rfl
  · rw [Vector.getElem?_eq_none ha, Vector.getElem?_eq_none ha]

/-- **Memory is cut in three around the program.** -/
theorem toList_load (program : Array UInt8) (m : Machine) :
    (m.load program).memory.toList =
      m.memory.toList.take programStart ++ program.toList.take programRoom ++
        m.memory.toList.drop (programStart + loadedSize program) := by
  have hend := programStart_add_loadedSize_le program
  have hfront : (m.memory.toList.take programStart).length = programStart := by
    simp [programStart]
  have hmiddle : (program.toList.take programRoom).length = loadedSize program := by
    simp [loadedSize, Nat.min_comm]
  apply List.ext_getElem?
  intro a
  rw [Vector.getElem?_toList]
  rcases Nat.lt_or_ge a programStart with ha | ha
  · rw [load_outside (.inl ha), List.append_assoc, List.getElem?_append_left (by omega),
      List.getElem?_take_of_lt ha, Vector.getElem?_toList]
  · obtain ⟨k, rfl⟩ := Nat.exists_eq_add_of_le ha
    rw [List.append_assoc, List.getElem?_append_right (by omega), hfront, Nat.add_sub_cancel_left]
    rcases Nat.lt_or_ge k (loadedSize program) with hk | hk
    · have hroom : k < programRoom := Nat.lt_of_lt_of_le hk (Nat.min_le_right ..)
      rw [load_inside hk, List.getElem?_append_left (by omega), List.getElem?_take_of_lt hroom,
        Array.getElem?_toList]
    · rw [load_outside (.inr (by omega)), List.getElem?_append_right (by omega), hmiddle,
        List.getElem?_drop, Vector.getElem?_toList]
      congr 1
      omega

/-! ### Loading and fetching -/

/-- What loading a program makes of a machine. -/
structure Loaded (program : Array UInt8) (m m' : Machine) : Prop where
  size : m'.memory.toList.length = 4096
  bytes : ∀ k < loadedSize program, m'.memory[programStart + k]? = program[k]?
  others : ∀ a, a < programStart ∨ programStart + loadedSize program ≤ a →
    m'.memory[a]? = m.memory[a]?
  slices : m'.memory.toList =
    m.memory.toList.take programStart ++ program.toList.take programRoom ++
      m.memory.toList.drop (programStart + loadedSize program)
  frame : { m' with memory := m.memory } = m

theorem loaded (program : Array UInt8) (m : Machine) : Loaded program m (m.load program) where
  size := by simp
  bytes := fun _ hk => load_inside hk
  others := fun _ ha => load_outside ha
  slices := m.toList_load program
  frame := by
    obtain ⟨memory, e⟩ := load_frame program m
    rw [e]

/-- **Loading and fetching agree.**  Of a program as many bytes are loaded as fit, and nothing else
changes; afterwards the word at every place where two loaded bytes stand is made of them. -/
theorem load_then_fetch (program : Array UInt8) (m : Machine) :
    loadedSize program = min program.size 3584 ∧ Loaded program m (m.load program) ∧
      ∀ k, (hk : k + 1 < loadedSize program) →
        have hsize : k + 1 < program.size := Nat.lt_of_lt_of_le hk (loadedSize_le_size program)
        { m.load program with pc := (programStart + k : Nat) }.fetch? =
          some (256 * (program[k].toNat : Int) + (program[k + 1].toNat : Int)) := by
  refine ⟨rfl, m.loaded program, ?_⟩
  intro k hk hsize
  have hroom : k + 1 < programRoom := Nat.lt_of_lt_of_le hk (Nat.min_le_right ..)
  -- where the program counter stands makes no difference to loading
  show ({ m with pc := (programStart + k : Nat) }.load program).fetch? = _
  exact fetch?_load rfl hsize hroom

/-- A program with more bytes than there is room for. -/
def overlong : Array UInt8 := .ofFn fun k : Fin 3600 => UInt8.ofNat k

/-- The last word that fits. -/
theorem overlong_last_word :
    3582 + 1 < loadedSize overlong ∧
      { strayed.load overlong with pc := 0xFFE }.fetch? = some 0xFEFF := by
  have hk : 3582 + 1 < loadedSize overlong := by
    simp [loadedSize, overlong, programRoom, programStart]
  refine ⟨hk, ?_⟩
  have hf := (load_then_fetch overlong strayed).2.2 3582 hk
  simpa [overlong, programStart] using hf

end ChipEight.Machine
