import SicMachine.Proofs.LoadedPrograms
import SicMachine.Proofs.StepSequences

/-!
Where a loaded image begins to run. The next step takes place at PC, whatever
is there: inside memory it executes the word that stands there, and outside it
fails with the address. Loading points PC at the entry of the image, but PC
keeps 24 bits of it. So an entry of 24 bits is where execution begins, and a
wider one is exchanged for another address without notice.
-/
namespace SicMachine.Machine

/-- The next step takes place at this address. A word there is what it executes, and an address
with no word is what it reports. -/
structure BeginsAt (m : Machine) (address : Nat) : Prop where
  pc : m.registers.pc = address
  inside : address ≤ 32765 → ∃ i, m.fetch = .ok i ∧ m.memory.readWord address = .ok i.word ∧
    ∀ executed, m.step.2 = .ok executed → executed = i
  outside : 32765 < address → m.step = (m, .error (.memory (.outOfBounds address 3)))

variable {m loaded : Machine} {image : Image}

/-- Every machine goes on at PC. -/
theorem beginsAt_pc (m : Machine) : m.BeginsAt m.registers.pc where
  pc := rfl
  inside := by
    intro hinside
    have hfits := Memory.fits_word_iff.2 hinside
    refine ⟨_, fetch_of_fits m hfits, ?_, ?_⟩
    · rw [Instruction.word_ofWord m.fetched_lt]
      exact m.memory.readWord_of_fits hfits
    · intro executed hexecuted
      have hstep := step_of_proceeds ⟨executed, hexecuted⟩
      rw [hstep] at hexecuted
      exact (Except.ok.inj hexecuted).symm
  outside := by
    intro houtside
    refine step_of_not_fits m fun hfits => ?_
    have hinside := Memory.fits_word_iff.1 hfits
    omega

theorem beginsAt_iff {address : Nat} : m.BeginsAt address ↔ m.registers.pc = address := by
  constructor
  · exact BeginsAt.pc
  · rintro rfl
    exact m.beginsAt_pc

theorem pc_of_loadImage (hload : m.loadImage image = .ok loaded) :
    loaded.registers.pc = wrap image.entryAddress := by
  obtain ⟨-, rfl⟩ := loadImage_eq_ok_iff.1 hload
  rfl

/-- A loaded image begins at the low 24 bits of its entry. This is the entry itself exactly when it
has no more bits. -/
theorem loaded_begins_at_entry (hload : m.loadImage image = .ok loaded) :
    loaded.BeginsAt (image.entryAddress % wordLimit) ∧
      (loaded.BeginsAt image.entryAddress ↔ image.entryAddress < wordLimit) := by
  have hpc := pc_of_loadImage hload
  refine ⟨beginsAt_iff.2 hpc, ?_⟩
  rw [beginsAt_iff, hpc]
  constructor
  · intro hsame
    rw [← hsame]
    exact wrap_lt image.entryAddress
  · exact wrap_of_lt

/-- An image with one word, and with an entry of which the low 24 bits are the address of it. -/
def wideEntry : Image := { Image.ofWords 0x1000 [0x3C1000] with entry := some 0x1001000 }

/-- The same word with an entry right behind memory. -/
def entryBehindMemory : Image := { Image.ofWords 0x1000 [0x3C1000] with entry := some 0x8000 }

theorem exists_loadImage_wideEntry : ∃ loaded, Machine.zero.loadImage wideEntry = .ok loaded :=
  ⟨_, loadImage_eq_ok_iff.2 ⟨by decide, rfl⟩⟩

theorem wideEntry_begins_at_low_bits :
    (∃ loaded, Machine.zero.loadImage wideEntry = .ok loaded ∧ loaded.BeginsAt 0x1000 ∧
      ¬ loaded.BeginsAt 0x1001000) ∧
    ∃ loaded, Machine.zero.loadImage entryBehindMemory = .ok loaded ∧
      loaded.step = (loaded, .error (.memory (.outOfBounds 0x8000 3))) := by
  obtain ⟨wide, hwide⟩ := exists_loadImage_wideEntry
  obtain ⟨hlow, hentry⟩ := loaded_begins_at_entry hwide
  have hbehind : Machine.zero.loadImage entryBehindMemory = .ok _ :=
    loadImage_eq_ok_iff.2 ⟨by decide, rfl⟩
  obtain ⟨-, hfound⟩ := loaded_begins_at_entry hbehind
  refine ⟨⟨wide, hwide, hlow, ?_⟩, _, hbehind, (hfound.2 (by decide)).outside (by decide)⟩
  exact fun hbegins => absurd (hentry.1 hbegins) (by decide)

/-- The word of this image is executed, although its entry lies outside memory. -/
theorem wide_entry_leads_into_memory :
    ¬ ∀ (m : Machine) (image : Image) (loaded : Machine), m.loadImage image = .ok loaded →
      loaded.BeginsAt image.entryAddress := by
  intro h
  obtain ⟨loaded, hload⟩ := exists_loadImage_wideEntry
  have hpc := (h _ _ _ hload).pc
  rw [pc_of_loadImage hload] at hpc
  revert hpc
  decide

end SicMachine.Machine
