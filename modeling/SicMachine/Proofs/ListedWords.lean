import SicMachine.Session

/-!
Loading words and listing them undo each other. Words are loaded all together
or not at all, and only the span that they need is written, so a listing of
that span gives them back as far as a word reaches. The other way round, every
listing fits where it was taken from, and loading it there writes what is there
already. A listing ends at the end of memory, or before it when the low 32 bits
of the count say so.
-/
namespace SicMachine

namespace Memory

theorem wordsFrom_of_fits (memory : Memory) {start : Nat} (h : Fits start wordBytes) (count : Nat) :
    memory.wordsFrom (count + 1) start =
      (start, memory.word start) :: memory.wordsFrom count (start + wordBytes) := by
  rw [wordsFrom, readWord_of_fits memory h]

theorem wordsFrom_of_not_fits (memory : Memory) {start : Nat} (h : ¬ Fits start wordBytes)
    (count : Nat) : memory.wordsFrom count start = [] := by
  cases count with
  | zero => rfl
  | succ count => rw [wordsFrom, readWord_of_not_fits memory h]

/-- Behind a word that fits there is room for one word less. -/
theorem room_of_fits {start : Nat} (h : Fits start wordBytes) :
    (memorySize - start) / 3 = (memorySize - (start + wordBytes)) / 3 + 1 := by
  simp only [Fits, wordBytes, memorySize] at h ⊢
  omega

theorem room_of_not_fits {start : Nat} (h : ¬ Fits start wordBytes) :
    (memorySize - start) / 3 = 0 := by
  simp only [Fits, wordBytes, memorySize] at h ⊢
  omega

/-- A listing has an entry for every word up to the end of memory. The induction is on the count,
and the address moves on with it. -/
theorem wordsFrom_eq_map (memory : Memory) (count start : Nat) :
    memory.wordsFrom count start =
      (List.range (min count ((memorySize - start) / 3))).map fun i =>
        (start + 3 * i, memory.word (start + 3 * i)) := by
  induction count generalizing start with
  | zero => simp [wordsFrom]
  | succ count ih =>
    by_cases hfits : Fits start wordBytes
    · have hplace : ∀ i, start + 3 * (i + 1) = start + wordBytes + 3 * i := by
        intro i
        simp only [wordBytes]
        omega
      rw [wordsFrom_of_fits memory hfits, ih, room_of_fits hfits, Nat.succ_min_succ]
      simp only [List.range_succ_eq_map, List.map_cons, List.map_map, Function.comp_def,
        Nat.succ_eq_add_one, hplace, Nat.mul_zero, Nat.add_zero]
    · rw [wordsFrom_of_not_fits memory hfits, room_of_not_fits hfits, Nat.min_zero]
      rfl

/-- Words that are put where they stand change nothing. -/
theorem putWords_wordsFrom (memory : Memory) (count start : Nat) :
    memory.putWords start ((memory.wordsFrom count start).map Prod.snd) = memory := by
  induction count generalizing start with
  | zero => rfl
  | succ count ih =>
    rw [wordsFrom]
    split
    · next value hread =>
      obtain ⟨-, rfl⟩ := readWord_eq_ok_iff.1 hread
      rw [List.map_cons, putWords, putWord_word, ih]
    · rfl

theorem length_dumpWords (memory : Memory) (start count : Nat) :
    (memory.dumpWords start count).length =
      min (count % wideLimit) ((memorySize - start) / 3) := by
  rw [dumpWords, wordsFrom_eq_map, List.length_map, List.length_range]

theorem loadWords_dumpWords (memory : Memory) (start count : Nat) :
    memory.loadWords start ((memory.dumpWords start count).map Prod.snd) = .ok memory := by
  refine loadWords_eq_ok_iff.2 ⟨?_, putWords_wordsFrom memory _ start⟩
  rw [List.length_map, length_dumpWords, wordBytes]
  omega

/-- A listing of loaded words has them all, as far as a word reaches. -/
theorem dumpWords_putWords {memory : Memory} (hmemory : memory.bytes.size = memorySize)
    {start : Nat} {words : List Nat} (hsize : 3 * words.length ≤ memorySize - start) :
    (memory.putWords start words).dumpWords start words.length =
      words.mapIdx fun i word => (start + 3 * i, word % wordLimit) := by
  have hcount : words.length % wideLimit = words.length := by
    apply Nat.mod_eq_of_lt
    simp only [memorySize] at hsize
    simp only [wideLimit]
    omega
  have hall : min words.length ((memorySize - start) / 3) = words.length := by omega
  rw [dumpWords, hcount, wordsFrom_eq_map, hall]
  apply List.ext_getElem (by simp)
  intro i hi _
  rw [List.length_map, List.length_range] at hi
  have hword : (memory.putWords start words).word (start + i * wordBytes) = wrap words[i] :=
    memory.word_putWords (by rw [hmemory, wordBytes]; omega) hi
  rw [Nat.mul_comm] at hword
  rw [List.getElem_map, List.getElem_range, List.getElem_mapIdx]
  exact congrArg (Prod.mk _) hword

end Memory

/-- The commands that load these words from an address on. -/
inductive Session.Command.Loads (start : Nat) (words : List Nat) : Command → Prop
  | words : Loads start words (.loadWords start words)
  | program : Loads start words (.loadProgram start words)
  | image {text : String} {image : Image} (htext : Image.ofJson text = .ok image)
      (hstart : image.startAddress = start) (hwords : image.words = words) :
      Loads start words (.loadImage text)

/-- A command whose words are refused changes nothing, whatever else it would do. -/
theorem Session.perform_of_loads {session : Session} {start : Nat} {words : List Nat}
    {command : Command} {error : Memory.Error} (h : command.Loads start words)
    (hload : session.machine.memory.loadWords start words = .error error) :
    session.perform command = (session, .failed (.memory error)) := by
  have hprogram : session.machine.loadProgram start words = .error error := by
    rw [Machine.loadProgram, hload]
    rfl
  cases h with
  | words => exact work_inMemory_of_error (Memory.Access.performs_loadWords start words) _ hload
  | program =>
    exact work_of_error ((Machine.performs_loadProgram start words).adaptExcept Error.memory)
      (congrArg _ hprogram)
  | @image text image htext hstart hwords =>
    have himage : session.machine.loadImage image = .error error := by
      rw [Machine.loadImage, hstart, hwords, hprogram]
    simp only [perform, htext]
    exact work_of_error ((Machine.performs_loadImage image).adaptExcept Error.memory)
      (congrArg _ himage)

namespace Memory

theorem exists_loadWords_iff {memory : Memory} {start : Nat} {words : List Nat} :
    (∃ loaded, memory.loadWords start words = .ok loaded) ↔
      3 * words.length ≤ memorySize - start := by
  simp only [loadWords_eq_ok_iff, exists_and_left, exists_eq', and_true, wordBytes, Nat.mul_comm]

theorem loadWords_eq_error_iff {memory : Memory} {start : Nat} {words : List Nat} {error : Error} :
    memory.loadWords start words = .error error ↔
      memorySize - start < 3 * words.length ∧
        error = .programTooLarge (3 * words.length) (memorySize - start) := by
  unfold loadWords
  rw [wordBytes, Nat.mul_comm words.length, ← Nat.not_le]
  by_cases hsize : 3 * words.length ≤ memorySize - start
  · simp [hsize]
  · simp [hsize, eq_comm]

/-- Words can be loaded exactly when they fit behind the start address. If they do not fit, every
command that would load them reports what they need and what is left there, and changes nothing. If
they do, a listing of their span has them, and memory is as before outside it. A listing can always
be loaded back, and then nothing changes. -/
theorem loaded_words_listed (memory : Memory) (hmemory : memory.bytes.size = memorySize)
    (start : Nat) (words : List Nat) :
    ((∃ loaded, memory.loadWords start words = .ok loaded) ↔
      3 * words.length ≤ memorySize - start) ∧
    (∀ error, memory.loadWords start words = .error error →
      error = .programTooLarge (3 * words.length) (memorySize - start) ∧
        ∀ (session : Session) (command : Session.Command), session.machine.memory = memory →
          command.Loads start words →
            session.perform command = (session, .failed (.memory error))) ∧
    (∀ loaded, memory.loadWords start words = .ok loaded →
      loaded.dumpWords start words.length =
          words.mapIdx (fun i word => (start + 3 * i, word % wordLimit)) ∧
        ∀ address, address < start ∨ start + 3 * words.length ≤ address →
          loaded.readByte address = memory.readByte address) ∧
    ∀ count, memory.loadWords start ((memory.dumpWords start count).map Prod.snd) = .ok memory := by
  refine ⟨exists_loadWords_iff, ?_, ?_, loadWords_dumpWords memory start⟩
  · intro error hload
    refine ⟨(loadWords_eq_error_iff.1 hload).2, ?_⟩
    rintro session command rfl hcommand
    exact Session.perform_of_loads hcommand hload
  · intro loaded hload
    have hsize := exists_loadWords_iff.1 ⟨loaded, hload⟩
    obtain ⟨-, rfl⟩ := loadWords_eq_ok_iff.1 hload
    refine ⟨dumpWords_putWords hmemory hsize, ?_⟩
    intro address houtside
    rw [Nat.mul_comm 3] at houtside
    rw [readByte, readByte, byte_putWords_of_outside memory words houtside]

/-- The last word of memory takes a value that is too wide; one byte further there is no room. -/
theorem lastWord_listed :
    zero.bytes.size = memorySize ∧
      (∃ loaded, zero.loadWords 32765 [0x1ABCDEF] = .ok loaded ∧
        loaded.dumpWords 32765 1 = [(32765, 0xABCDEF)]) ∧
      zero.loadWords 32766 [0x1ABCDEF] = .error (.programTooLarge 3 2) := by
  obtain ⟨hloads, -, hlisted, -⟩ := loaded_words_listed zero size_zero 32765 [0x1ABCDEF]
  obtain ⟨loaded, hload⟩ := hloads.2 (by decide)
  refine ⟨size_zero, ⟨loaded, hload, (hlisted loaded hload).1⟩, ?_⟩
  exact loadWords_eq_error_iff.2 ⟨by decide, rfl⟩

/-! ### How far a listing goes -/

/-- An entry of a listing is one of the words that are asked for and lie inside memory. -/
theorem getElem?_dumpWords_eq_some_iff {memory : Memory} {start count i : Nat}
    {entry : Nat × Nat} :
    (memory.dumpWords start count)[i]? = some entry ↔
      i < min (count % wideLimit) ((memorySize - start) / 3) ∧
        entry = (start + 3 * i, memory.word (start + 3 * i)) := by
  rw [dumpWords, wordsFrom_eq_map, List.getElem?_map, Option.map_eq_some_iff]
  simp only [List.getElem?_eq_some_iff, List.length_range, List.getElem_range]
  constructor
  · rintro ⟨_, ⟨hi, rfl⟩, rfl⟩
    exact ⟨hi, rfl⟩
  · rintro ⟨hi, rfl⟩
    exact ⟨i, ⟨hi, rfl⟩, rfl⟩

/-- A word inside memory consists of three bytes that can be read. -/
theorem word_eq_iff_readByte {memory : Memory} {address word : Nat} (h : Fits address wordBytes) :
    word = memory.word address ↔
      ∃ high middle low, memory.readByte address = .ok high ∧
        memory.readByte (address + 1) = .ok middle ∧ memory.readByte (address + 2) = .ok low ∧
        word = high.toNat * 65536 + middle.toNat * 256 + low.toNat := by
  have hfits : ∀ offset ≤ 2, Fits (address + offset) 1 := by
    intro offset hoffset
    simp only [Fits, wordBytes, memorySize] at h ⊢
    omega
  have hbyte : ∀ offset ≤ 2,
      memory.readByte (address + offset) = .ok (memory.byte (address + offset)) :=
    fun offset hoffset => readByte_eq_ok_iff.2 ⟨hfits offset hoffset, rfl⟩
  have hhigh := hbyte 0 (by decide)
  have hmiddle := hbyte 1 (by decide)
  have hlow := hbyte 2 (by decide)
  rw [Nat.add_zero] at hhigh
  rw [hhigh, hmiddle, hlow]
  simp only [Except.ok.injEq, exists_and_left, exists_eq_left', Memory.word, Word.ofBytes]

/-- A listing has the words from an address on in their order, each with its address and made up of
three bytes of memory. There are as many as the low 32 bits of the count say, up to the end of
memory. So a count of 32 bits is fulfilled as far as memory goes, and a wider one exactly when its
low 32 bits are enough to come to the end. -/
theorem listed_up_to_end (memory : Memory) (start count : Nat) :
    (∀ i address word, (memory.dumpWords start count)[i]? = some (address, word) ↔
      i < min (count % wideLimit) ((memorySize - start) / 3) ∧ address = start + 3 * i ∧
        ∃ high middle low, memory.readByte address = .ok high ∧
          memory.readByte (address + 1) = .ok middle ∧ memory.readByte (address + 2) = .ok low ∧
          word = high.toNat * 65536 + middle.toNat * 256 + low.toNat) ∧
    (memory.dumpWords start count).length =
      min (count % wideLimit) ((memorySize - start) / 3) ∧
    ((memory.dumpWords start count).length < count % wideLimit →
      32765 < start + 3 * (memory.dumpWords start count).length) ∧
    ((memory.dumpWords start count).length = min count ((memorySize - start) / 3) ↔
      count < wideLimit ∨ (memorySize - start) / 3 ≤ count % wideLimit) := by
  have hlength := memory.length_dumpWords start count
  refine ⟨fun i address word => ?_, hlength, ?_, ?_⟩
  · rw [getElem?_dumpWords_eq_some_iff, Prod.mk.injEq]
    refine and_congr_right fun hi => and_congr_right ?_
    rintro rfl
    refine word_eq_iff_readByte ?_
    simp only [Fits, wordBytes, memorySize] at hi ⊢
    omega
  · rw [hlength, memorySize]
    omega
  · rw [hlength, memorySize, wideLimit]
    omega

/-- Of a count of 2^32 + 1 only the 1 counts, although there is room for two words. -/
theorem overwide_count_listed :
    (zero.dumpWords 32762 5).length = 2 ∧
      (zero.dumpWords 32762 4294967297)[0]? = some (32762, 0) ∧
      (zero.dumpWords 32762 4294967297).length = 1 := by
  obtain ⟨-, hfive, -⟩ := listed_up_to_end zero 32762 5
  obtain ⟨hentry, hone, -⟩ := listed_up_to_end zero 32762 4294967297
  have hread : ∀ address < memorySize, zero.readByte address = .ok 0 :=
    fun address haddress => readByte_eq_ok_iff.2 ⟨haddress, byte_zero address⟩
  refine ⟨hfive, (hentry 0 32762 0).2 ⟨by decide, rfl, 0, 0, 0, ?_, ?_, ?_, rfl⟩, hone⟩
  all_goals exact hread _ (by decide)

/-- A count of 2^32 lists nothing, although memory is far from its end. -/
theorem overwide_count_lists_nothing :
    ¬ ∀ memory start count, start < wideLimit → count < wideLimit * wideLimit →
      (dumpWords memory start count).length = min count ((memorySize - start) / 3) := by
  intro h
  have hlength := h zero 32765 4294967296 (by decide) (by decide)
  rw [length_dumpWords] at hlength
  revert hlength
  decide

end Memory

end SicMachine
