/-
Blocks of registers, stored in memory and loaded from it.

`Fx55` stores the registers 0 to x in the cells from the index on, and `Fx65` loads them from the
same cells:

    register k   ⇄   cell (index + k) mod 4096       for k ≤ x.

A block that reaches the end of memory goes on at its beginning.  It is far shorter than memory, so
its cells are different ones (`cell_inj`) and no register is stored over another.

Both instructions write place by place.  What is written to different places is found there
afterwards (`get_foldl_set_of_mem`), and to write what is there already changes nothing
(`foldl_set_of_same`).  Main result: `store_load_round_trip`.
-/
import ChipEight.Proofs.Footprint

namespace ChipEight.Machine

/-! ### Writing place by place -/

section Places

variable {α : Type} {n : Nat} (place : Nat → Fin n) (value : Nat → α) {ks : List Nat}

/-- What is written to different places is found there afterwards. -/
theorem get_foldl_set_of_mem (hplace : ∀ j ∈ ks, ∀ k ∈ ks, place j = place k → j = k) {k : Nat}
    (hk : k ∈ ks) (v : Vector α n) :
    (ks.foldl (fun v k => v.set (place k) (value k) (place k).isLt) v).get (place k) = value k := by
  induction ks generalizing v with
  | nil => cases hk
  | cons j ks ih =>
    have htail : ∀ i ∈ ks, ∀ k ∈ ks, place i = place k → i = k := by
      intro i hi k hk
      exact hplace i (List.mem_cons_of_mem _ hi) k (List.mem_cons_of_mem _ hk)
    rw [List.foldl_cons]
    by_cases hmem : k ∈ ks
    · exact ih htail hmem _
    · -- `k` was written first, and nothing is written there again
      obtain rfl : k = j := (List.mem_cons.mp hk).resolve_right hmem
      have hother : ∀ i ∈ ks, place i ≠ place k := by
        intro i hi e
        have hik : i = k := hplace i (List.mem_cons_of_mem _ hi) k hk e
        exact hmem (hik ▸ hi)
      rw [get_foldl_set place value hother]
      exact Vector.getElem_set_self (place k).isLt

/-- To write what is there already changes nothing. -/
theorem foldl_set_of_same {v : Vector α n} (h : ∀ k ∈ ks, v.get (place k) = value k) :
    ks.foldl (fun v k => v.set (place k) (value k) (place k).isLt) v = v := by
  induction ks with
  | nil => rfl
  | cons k ks ih =>
    have hk : v.set (place k) (value k) (place k).isLt = v := by
      rw [← h k List.mem_cons_self]
      exact Vector.set_getElem_self (place k).isLt
    rw [List.foldl_cons, hk]
    exact ih fun j hj => h j (List.mem_cons_of_mem _ hj)

end Places

/-! ### The places of a block -/

variable {m : Machine} {j k count : Nat}

/-- The cells of a block that is no longer than memory are different ones. -/
theorem cell_inj (hj : j < 4096) (hk : k < 4096) (h : m.cell j = m.cell k) : j = k := by
  have hval := congrArg Fin.val h
  simp only [cell] at hval
  omega

theorem slot_inj (hj : j < 16) (hk : k < 16) (h : slot j = slot k) : j = k := by
  have hj' := slot_val ⟨j, hj⟩
  have hk' := slot_val ⟨k, hk⟩
  rw [hj', hk'] at h
  exact congrArg Fin.val h

/-! ### Storing and loading -/

theorem storeRegisters_cell (hcount : count ≤ 4096) (hk : k < count) :
    (m.storeRegisters count).memory.get (m.cell k) = m.registers.get (slot k) := by
  apply get_foldl_set_of_mem m.cell fun k : Nat => m.registers[slot k]
  · intro i hi j hj
    rw [List.mem_range] at hi hj
    exact cell_inj (by omega) (by omega)
  · exact List.mem_range.mpr hk

theorem loadRegisters_register (hcount : count ≤ 16) (hk : k < count) :
    (m.loadRegisters count).registers.get (slot k) = m.memory.get (m.cell k) := by
  apply get_foldl_set_of_mem (fun k : Nat => slot k) fun k => m.memory[m.cell k]
  · intro i hi j hj
    rw [List.mem_range] at hi hj
    exact slot_inj (by omega) (by omega)
  · exact List.mem_range.mpr hk

/-- Outside the block memory is as before. -/
theorem storeRegisters_outside {a : Fin 4096} (ha : ∀ k < count, m.cell k ≠ a) :
    (m.storeRegisters count).memory.get a = m.memory.get a := by
  apply (m.confined_storeRegisters count).same (.cell a)
  rw [cell_mem_cells]
  rintro ⟨k, hk, e⟩
  exact ha k hk e

/-- The registers above the block are as before. -/
theorem loadRegisters_above {y : Fin 16} (hy : count ≤ y) :
    (m.loadRegisters count).registers.get y = m.registers.get y := by
  apply (m.confined_loadRegisters count).same (.register y)
  rw [register_mem_firstRegisters]
  rintro ⟨k, hk, rfl⟩
  have hslot := congrArg Fin.val (slot_val ⟨k, by omega⟩)
  simp only at hslot
  omega

/-- Registers that were stored are loaded again, whatever came between. -/
theorem loadRegisters_of_stored (m : Machine) (other : Vector UInt8 16) (hcount : count ≤ 16)
    (y : Fin 16) :
    ({ m.storeRegisters count with registers := other }.loadRegisters count).registers.get y =
      if y < count then m.registers.get y else other.get y := by
  split
  · rename_i hy
    have hload := loadRegisters_register
      (m := { m.storeRegisters count with registers := other }) hcount hy
    rw [slot_val] at hload
    rw [hload]
    -- the index is where it was, so the cell that is read is the one that was written
    show (m.storeRegisters count).memory.get (m.cell y) = m.registers.get y
    rw [storeRegisters_cell (by omega) hy, slot_val]
  · rename_i hy
    exact loadRegisters_above (Nat.not_lt.mp hy)

/-- To store what was just loaded changes no cell. -/
theorem storeRegisters_of_loaded (m : Machine) (hcount : count ≤ 16) :
    ((m.loadRegisters count).storeRegisters count).memory = m.memory := by
  show (List.range count).foldl
    (fun memory (k : Nat) => memory.set (m.cell k) (m.loadRegisters count).registers[slot k])
      m.memory = m.memory
  apply foldl_set_of_same m.cell fun k : Nat => (m.loadRegisters count).registers[slot k]
  intro k hk
  exact (loadRegisters_register hcount (List.mem_range.mp hk)).symm

/-! ### The two instructions -/

theorem execute_store (m : Machine) (x : Fin 16) :
    m.execute (.store x.val) = (none, m.storeRegisters (x + 1)) := by
  have hfits : (Instruction.store x.val).Fits := by
    simp [Instruction.Fits, Instruction.operands, Operand.fits_register, Operand.fits_named]
  rw [execute_of_fits hfits]
  rfl

theorem execute_load (m : Machine) (x : Fin 16) :
    m.execute (.load x.val) = (none, m.loadRegisters (x + 1)) := by
  have hfits : (Instruction.load x.val).Fits := by
    simp [Instruction.Fits, Instruction.operands, Operand.fits_register, Operand.fits_named]
  rw [execute_of_fits hfits]
  rfl

/-- **Blocks of registers make the round trip through memory.**  Let a machine, in any state and
with its index anywhere, store the registers 0 to `x`, put other values into all its registers and
load the block again.  Then the registers 0 to `x` are as they were stored, those above have the
other values, the index is where it was, and no cell outside the block was written.  The other
way round, to load a block and to store it again leaves memory as it was. -/
theorem store_load_round_trip (m : Machine) (x : Fin 16) (other : Vector UInt8 16) :
    (∃ stored loaded,
      m.execute (.store x.val) = (none, stored) ∧
      { stored with registers := other }.execute (.load x.val) = (none, loaded) ∧
      (∀ y : Fin 16,
        loaded.registers.get y = if y ≤ x then m.registers.get y else other.get y) ∧
      loaded.index = m.index ∧
      ∀ a : Fin 4096, (∀ k : Nat, k ≤ x → (a.val : Int) ≠ (m.index + k) % 4096) →
        loaded.memory.get a = m.memory.get a) ∧
    ∃ loaded stored,
      m.execute (.load x.val) = (none, loaded) ∧
      loaded.execute (.store x.val) = (none, stored) ∧
      stored.memory = m.memory := by
  have hcount : x.val + 1 ≤ 16 := x.isLt
  refine ⟨⟨_, _, m.execute_store x, execute_load _ x, ?_, rfl, ?_⟩, _, _, m.execute_load x,
    execute_store _ x, m.storeRegisters_of_loaded hcount⟩
  · intro y
    rw [m.loadRegisters_of_stored other hcount]
    simp only [Nat.lt_succ_iff, Fin.le_def]
  · intro a ha
    apply storeRegisters_outside
    rintro k hk rfl
    apply ha k (Nat.lt_succ_iff.mp hk)
    simp only [cell]
    omega

end ChipEight.Machine
