import SicMachine.Proofs.ListingLines
import SicMachine.Proofs.ReachableMachines
import SicMachine.Proofs.StepWrites

/-!
A loaded program while it runs. The words of an image stand in memory where the
image says, cut to 24 bits, and as long as no store reaches them every fetch at
the address of a word finds that word. So what is executed there is what the
listing of the image shows in the line of the word, apart from words that were
too wide to be loaded as they are.
-/
namespace SicMachine

/-- The address lies in the words of the image. -/
def Image.Covers (image : Image) (address : Nat) : Prop :=
  image.startAddress ≤ address ∧
    address < image.startAddress + image.words.length * wordBytes

namespace Machine

variable {m loaded : Machine} {image : Image}

theorem loadImage_eq_ok_iff :
    m.loadImage image = .ok loaded ↔
      image.words.length * wordBytes ≤ memorySize - image.startAddress ∧
        ⟨m.registers.set .pc image.entryAddress,
          m.memory.putWords image.startAddress image.words⟩ = loaded := by
  unfold loadImage loadProgram
  by_cases hsize : image.words.length * wordBytes ≤ memorySize - image.startAddress
  · have hload : m.memory.loadWords image.startAddress image.words = .ok _ :=
      Memory.loadWords_eq_ok_iff.2 ⟨hsize, rfl⟩
    simp [hload, hsize, withMemory, Except.map]
  · cases hload : m.memory.loadWords image.startAddress image.words with
    | ok written => exact absurd (Memory.loadWords_eq_ok_iff.1 hload).1 hsize
    | error error => simp [Except.map, hsize]

/-- The words of a loaded image end inside memory, unless there are none. -/
theorem fits_of_loadImage (hload : m.loadImage image = .ok loaded) {i : Nat}
    (hi : i < image.words.length) :
    image.startAddress + image.words.length * wordBytes ≤ memorySize := by
  have hsize := (loadImage_eq_ok_iff.1 hload).1
  simp only [wordBytes, memorySize] at hsize ⊢
  omega

theorem word_of_loadImage (hm : m.WellFormed) (hload : m.loadImage image = .ok loaded) {i : Nat}
    (hi : i < image.words.length) :
    loaded.memory.word (image.startAddress + i * wordBytes) = wrap image.words[i] := by
  have hfits := fits_of_loadImage hload hi
  obtain ⟨-, rfl⟩ := loadImage_eq_ok_iff.1 hload
  rw [← hm.2] at hfits
  exact m.memory.word_putWords hfits hi

/-- Stores that miss the program leave its words as they were loaded. -/
theorem word_after_loadImage (hm : m.WellFormed) (hload : m.loadImage image = .ok loaded)
    {k : Nat} (huntouched : ∀ j < k, ∀ address, image.Covers address →
      ¬ (loaded.after j).Writes address) {i : Nat} (hi : i < image.words.length) :
    (loaded.after k).memory.word (image.startAddress + i * wordBytes) = wrap image.words[i] := by
  rw [← word_of_loadImage hm hload hi]
  apply Memory.word_congr
  intro read hfrom hto
  have hcovers : image.Covers read := by
    simp only [Image.Covers, wordBytes] at hfrom hto ⊢
    omega
  exact byte_after (hm.loadImage hload) fun j hj => huntouched j hj read hcovers

/-- In a run whose stores miss the program, a step at the address of a word fetches that word as
far as it was loaded. The line of the word in the listing begins with the address, and shows the
instruction fetched there unless the word is wider than 24 bits. -/
theorem fetch_eq_listing (hm : m.WellFormed) (hload : m.loadImage image = .ok loaded) {n : Nat}
    (huntouched : ∀ j < n, ∀ address, image.Covers address → ¬ (loaded.after j).Writes address)
    {k i : Nat} (hk : k ≤ n) (hi : i < image.words.length)
    (hpc : (loaded.after k).registers.pc = image.startAddress + i * wordBytes) :
    ∃ instruction line, (loaded.after k).fetch = .ok instruction ∧
      instruction.word = image.words[i] % wordLimit ∧
      (∀ executed, (loaded.after k).step.2 = .ok executed → executed = instruction) ∧
      (TextFile.lines (Disassembly.listing image.startAddress image.words))[3 + i]? = some line ∧
      (image.words[i] < wordLimit →
        line = Text.hex 6 (loaded.after k).registers.pc ++ ": " ++
          Text.padRight 20 (Disassembly.ofWord instruction.word) ++ " ; " ++
          Text.hex 6 image.words[i]) ∧
      (wordLimit ≤ image.words[i] →
        line = Text.hex 6 (loaded.after k).registers.pc ++ ": " ++
          Text.padRight 20 ("??? ; " ++ Text.marked 0 image.words[i]) ++ " ; " ++
          Text.hex 6 image.words[i]) := by
  have hfits := fits_of_loadImage hload hi
  have hwide : image.startAddress + image.words.length * wordBytes ≤ wideLimit :=
    Nat.le_trans hfits (by decide)
  have hinside : Memory.Fits (loaded.after k).registers.pc wordBytes := by
    rw [hpc]
    simp only [Memory.Fits, wordBytes] at hfits ⊢
    omega
  have hfetched : (loaded.after k).fetched = wrap image.words[i] := by
    rw [fetched, hpc]
    exact word_after_loadImage hm hload
      (fun j hj => huntouched j (Nat.lt_of_lt_of_le hj hk)) hi
  have hfetch := fetch_of_fits _ hinside
  have hword : (Instruction.ofWord (loaded.after k).fetched).word = wrap image.words[i] := by
    rw [Instruction.word_ofWord (fetched_lt _), hfetched]
  have hline := Disassembly.lines_listing_getElem? hwide i
  rw [List.getElem?_eq_getElem hi, Option.map_some, ← hpc] at hline
  refine ⟨_, _, hfetch, hword, ?_, hline, ?_, ?_⟩
  · intro executed hexecuted
    have hstep := step_of_proceeds ⟨executed, hexecuted⟩
    rw [hstep] at hexecuted
    exact (Except.ok.inj hexecuted).symm
  · intro hnarrow
    rw [hword, wrap_of_lt hnarrow]
    rfl
  · intro hbroad
    rw [Disassembly.row, Disassembly.ofWord_of_wide hbroad]

/-- This program stores right behind its last word, which is wider than 24 bits. -/
def storingBehind : Image := .ofWords 0 [0x0C0006, 0x13C0000]

def loadedStoringBehind : Machine := ⟨.zero, Memory.zero.putWords 0 [0x0C0006, 0x13C0000]⟩

theorem loadImage_storingBehind : Machine.zero.loadImage storingBehind = .ok loadedStoringBehind :=
  loadImage_eq_ok_iff.2 ⟨by decide, rfl⟩

theorem fetched_storingBehind : loadedStoringBehind.fetched = 0x0C0006 :=
  Memory.zero.word_putWords (by rw [Memory.size_zero]; decide) (i := 0) (by decide)

theorem target_storingBehind : loadedStoringBehind.target = 6 := by
  rw [target, fetched_storingBehind]
  rfl

theorem pc_after_storingBehind : (loadedStoringBehind.after 1).registers.pc = 3 := by
  have hopcode : Mnemonic.sta.opcode.toNat = loadedStoringBehind.opcode := by
    rw [opcode, fetched_storingBehind]
    rfl
  have heffect : Effect.ofMnemonic loadedStoringBehind.registers.advance loadedStoringBehind.memory
      loadedStoringBehind.registers.pc loadedStoringBehind.target .sta =
        .ok ⟨loadedStoringBehind.registers.advance, some (.word 6 0)⟩ := by
    rw [target_storingBehind]
    rfl
  rw [after_succ, after_zero,
    step_of_mnemonic loadedStoringBehind (by decide) (by decide) hopcode heffect]
  rfl

theorem storingBehind_fetch_eq_listing :
    Machine.zero.WellFormed ∧ Machine.zero.loadImage storingBehind = .ok loadedStoringBehind ∧
      (loadedStoringBehind.after 1).registers.pc = 3 ∧
      (∃ i, (loadedStoringBehind.after 1).fetch = .ok i ∧ i.word = 0x3C0000) ∧
      (TextFile.lines (Disassembly.listing 0 [0x0C0006, 0x13C0000]))[4]? =
        some "000003: ??? ; 0x13C0000      ; 13C0000" := by
  have huntouched : ∀ j < 1, ∀ address, storingBehind.Covers address →
      ¬ (loadedStoringBehind.after j).Writes address := by
    intro j hj address hcovers hwrites
    obtain rfl : j = 0 := by omega
    obtain ⟨mnemonic, -, hfrom, -⟩ := hwrites.stores
    rw [after_zero, target_storingBehind] at hfrom
    have hend : address < 6 := hcovers.2
    omega
  obtain ⟨i, line, hfetch, hword, -, hline, -, hshown⟩ :=
    fetch_eq_listing wellFormed_zero loadImage_storingBehind huntouched (k := 1) (i := 1)
      (by decide) (by decide) pc_after_storingBehind
  refine ⟨wellFormed_zero, loadImage_storingBehind, pc_after_storingBehind, ⟨i, hfetch, hword⟩, ?_⟩
  have hlast := hshown (by decide)
  rw [pc_after_storingBehind] at hlast
  rw [← show line = "000003: ??? ; 0x13C0000      ; 13C0000" from hlast]
  exact hline

end Machine

end SicMachine
