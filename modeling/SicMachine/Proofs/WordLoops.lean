import SicMachine.Proofs.ListedWords

/-!
Words are loaded and listed in turns, one for each index. A turn calculates in 32 bits where its
word is: three times the index, and that added to the start. Only the addition of a listing is
checked. What keeps the other numbers small is where the turns end. Words are loaded after their
whole size was found to fit, and a listing goes on only behind a word that could be read. So nothing
that a turn calculates is cut off, and once the first word is being written, all of them will be.
-/
namespace SicMachine.Memory

/-! ### The turns of a loop -/

/-- What one turn calculates: how far its word is from the start, and where it is. Both numbers are
kept whole here, as they are before they are cut to 32 bits. -/
structure Turn where
  distance : Nat
  address : Nat
  deriving DecidableEq

/-- The index is cut to 32 bits before it is multiplied, and the distance before it is added. -/
def Turn.of (start index : Nat) : Turn :=
  let distance := index % wideLimit * wordBytes
  ⟨distance, start + distance % wideLimit⟩

/-- Nothing is cut off. -/
def Turn.Exact (turn : Turn) : Prop :=
  turn.distance < wideLimit ∧ turn.address < wideLimit

instance (turn : Turn) : Decidable turn.Exact := inferInstanceAs (Decidable (_ ∧ _))

/-- The turns that loading words took, memory as they left it, and the error of the last turn if
there was one. -/
structure Storing where
  turns : List Turn
  memory : Memory
  error : Option Error

def Storing.after (turn : Turn) (later : Storing) : Storing :=
  { later with turns := turn :: later.turns }

def Storing.result (storing : Storing) : Except Error Memory :=
  match storing.error with
  | none => .ok storing.memory
  | some error => .error error

/-- Writes words in turns from an index on. The first write that fails is the last turn. -/
def storeFrom (memory : Memory) (start : Nat) : Nat → List Nat → Storing
  | _, [] => ⟨[], memory, none⟩
  | index, word :: rest =>
    let turn := Turn.of start index
    match memory.writeWord (turn.address % wideLimit) word with
    | .ok written => (written.storeFrom start (index + 1) rest).after turn
    | .error error => ⟨[turn], memory, some error⟩

/-- No turn is taken when the words do not fit as a whole. -/
def storeWords (memory : Memory) (start : Nat) (words : List Nat) : Storing :=
  let size := words.length * wordBytes
  let available := memorySize - start
  if size ≤ available then memory.storeFrom start 0 words
  else ⟨[], memory, some (.programTooLarge size available)⟩

/-- The turns that a listing took, and its entries. -/
structure Reading where
  turns : List Turn
  entries : List (Nat × Nat)

def Reading.after (turn : Turn) (word : Nat) (later : Reading) : Reading :=
  ⟨turn :: later.turns, (turn.address, word) :: later.entries⟩

/-- Reads words in turns from an index on. The last turn is the first whose address does not fit
into 32 bits or whose word cannot be read. -/
def readFrom (memory : Memory) (start : Nat) : Nat → Nat → Reading
  | _, 0 => ⟨[], []⟩
  | index, count + 1 =>
    let turn := Turn.of start index
    if turn.address < wideLimit then
      match memory.readWord turn.address with
      | .ok word => (memory.readFrom start (index + 1) count).after turn word
      | .error _ => ⟨[turn], []⟩
    else ⟨[turn], []⟩

/-- Of the count only the low 32 bits are used. -/
def readWords (memory : Memory) (start count : Nat) : Reading :=
  memory.readFrom start 0 (count % wideLimit)

/-! ### What one turn does -/

section

variable {memory : Memory} {start index : Nat}

theorem Turn.of_eq (h : start + index * wordBytes < wideLimit) :
    Turn.of start index = ⟨index * wordBytes, start + index * wordBytes⟩ := by
  have hdistance : index * wordBytes < wideLimit := by omega
  have hindex : index < wideLimit := by
    simp only [wordBytes] at hdistance
    omega
  simp only [Turn.of, Nat.mod_eq_of_lt hindex, Nat.mod_eq_of_lt hdistance]

theorem Turn.exact_of (h : start + index * wordBytes < wideLimit) :
    (Turn.of start index).Exact := by
  rw [Turn.of_eq h]
  exact ⟨Nat.lt_of_le_of_lt (Nat.le_add_left ..) h, h⟩

/-- The indices of a listing may be any numbers of 32 bits. Only the first third of them have exact
turns, even at address zero. -/
example : (Turn.of 0 0x55555555).Exact ∧ ¬ (Turn.of 0 0x55555556).Exact := by decide

/-- Addresses inside memory are far below the limit of 32 bits. -/
theorem Fits.lt_wideLimit {address width : Nat} (h : Fits address width) :
    address + width < wideLimit := by
  simp only [Fits, memorySize] at h
  simp only [wideLimit]
  omega

/-- Where several words fit, each of them does. -/
theorem fits_of_lt {count : Nat} (h : count * wordBytes ≤ memorySize - start)
    (hindex : index < count) : Fits (start + index * wordBytes) wordBytes := by
  simp only [wordBytes] at h
  simp only [Fits, wordBytes]
  omega

theorem storeFrom_of_fits (h : Fits (start + index * wordBytes) wordBytes) (word : Nat)
    (rest : List Nat) :
    memory.storeFrom start index (word :: rest) =
      ((memory.putWord (start + index * wordBytes) word).storeFrom start (index + 1) rest).after
        (Turn.of start index) := by
  have haddress : start + index * wordBytes < wideLimit := Nat.lt_of_add_right_lt h.lt_wideLimit
  rw [storeFrom, Turn.of_eq haddress, Nat.mod_eq_of_lt haddress, writeWord_of_fits memory h]

theorem readFrom_of_fits (h : Fits (start + index * wordBytes) wordBytes) (count : Nat) :
    memory.readFrom start index (count + 1) =
      (memory.readFrom start (index + 1) count).after (Turn.of start index)
        (memory.word (start + index * wordBytes)) := by
  have haddress : start + index * wordBytes < wideLimit := Nat.lt_of_add_right_lt h.lt_wideLimit
  rw [readFrom, Turn.of_eq haddress, if_pos haddress, readWord_of_fits memory h]

theorem readFrom_of_not_fits (haddress : start + index * wordBytes < wideLimit)
    (h : ¬ Fits (start + index * wordBytes) wordBytes) (count : Nat) :
    memory.readFrom start index (count + 1) = ⟨[Turn.of start index], []⟩ := by
  rw [readFrom, Turn.of_eq haddress, if_pos haddress, readWord_of_not_fits memory h]

/-! ### What all turns do -/

theorem address_succ (start index : Nat) :
    start + (index + 1) * wordBytes = start + index * wordBytes + wordBytes := by
  rw [Nat.succ_mul, Nat.add_assoc]

/-- As long as the remaining words fit, each turn writes one of them. The induction is on the words;
the index moves on with memory. -/
theorem storeFrom_eq {words : List Nat}
    (h : (index + words.length) * wordBytes ≤ memorySize - start) :
    memory.storeFrom start index words =
      ⟨(List.range' index words.length).map (Turn.of start),
        memory.putWords (start + index * wordBytes) words, none⟩ := by
  induction words generalizing memory index with
  | nil => rfl
  | cons word rest ih =>
    have hfits : Fits (start + index * wordBytes) wordBytes :=
      fits_of_lt h (Nat.lt_add_of_pos_right (Nat.succ_pos _))
    have hrest : (index + 1 + rest.length) * wordBytes ≤ memorySize - start := by
      rwa [List.length_cons, Nat.add_comm rest.length, ← Nat.add_assoc] at h
    rw [storeFrom_of_fits hfits, ih hrest, address_succ]
    rfl

/-- Each turn reads a word, except one that finds the end of memory. The induction is on the count.
Behind a word that was read the next address is at most the size of memory, so it is exact again. -/
theorem readFrom_eq {count : Nat} (h : start + index * wordBytes < wideLimit) :
    memory.readFrom start index count =
      ⟨(List.range' index (min count ((memorySize - (start + index * wordBytes)) / 3 + 1))).map
          (Turn.of start),
        memory.wordsFrom count (start + index * wordBytes)⟩ := by
  induction count generalizing index with
  | zero => simp [readFrom, wordsFrom]
  | succ count ih =>
    rw [Nat.succ_min_succ, List.range'_succ, List.map_cons]
    by_cases hfits : Fits (start + index * wordBytes) wordBytes
    · have hnext : start + (index + 1) * wordBytes < wideLimit := by
        rw [address_succ]
        exact hfits.lt_wideLimit
      rw [readFrom_of_fits hfits, ih hnext, room_of_fits hfits, wordsFrom_of_fits memory hfits,
        address_succ, Turn.of_eq h]
      rfl
    · rw [readFrom_of_not_fits h hfits, room_of_not_fits hfits, wordsFrom_of_not_fits memory hfits,
        Nat.min_zero]
      rfl

/-- The turns of a loop whose addresses do not become too wide. -/
theorem Turn.exact_of_getElem? {count i : Nat} {turn : Turn}
    (h : ∀ i < count, start + i * wordBytes < wideLimit)
    (hturn : ((List.range count).map (Turn.of start))[i]? = some turn) :
    i < count ∧ turn = ⟨i * wordBytes, start + i * wordBytes⟩ ∧ turn.Exact := by
  obtain ⟨hi, rfl⟩ := List.getElem?_eq_some_iff.1 hturn
  rw [List.length_map, List.length_range] at hi
  rw [List.getElem_map, List.getElem_range]
  exact ⟨hi, Turn.of_eq (h i hi), Turn.exact_of (h i hi)⟩

end

/-! ### Loading and listing -/

section

variable {memory : Memory} {start : Nat}

theorem storeWords_of_fits {words : List Nat}
    (h : words.length * wordBytes ≤ memorySize - start) :
    memory.storeWords start words =
      ⟨(List.range words.length).map (Turn.of start), memory.putWords start words, none⟩ := by
  have hall : (0 + words.length) * wordBytes ≤ memorySize - start := by rwa [Nat.zero_add]
  rw [storeWords, if_pos h, storeFrom_eq hall, Nat.zero_mul, Nat.add_zero, List.range_eq_range']

theorem storeWords_of_not_fits {words : List Nat}
    (h : ¬ words.length * wordBytes ≤ memorySize - start) :
    memory.storeWords start words =
      ⟨[], memory, some (.programTooLarge (words.length * wordBytes) (memorySize - start))⟩ :=
  if_neg h

/-- Loading in turns is loading. -/
theorem result_storeWords (memory : Memory) (start : Nat) (words : List Nat) :
    (memory.storeWords start words).result = memory.loadWords start words := by
  by_cases h : words.length * wordBytes ≤ memorySize - start
  · rw [storeWords_of_fits h, loadWords, if_pos h]
    rfl
  · rw [storeWords_of_not_fits h, loadWords, if_neg h]
    rfl

theorem readWords_eq (memory : Memory) (h : start < wideLimit) (count : Nat) :
    memory.readWords start count =
      ⟨(List.range (min (count % wideLimit) ((memorySize - start) / 3 + 1))).map (Turn.of start),
        memory.dumpWords start count⟩ := by
  have hfirst : start + 0 * wordBytes = start := by rw [Nat.zero_mul, Nat.add_zero]
  have hexact : start + 0 * wordBytes < wideLimit := by rwa [hfirst]
  rw [readWords, readFrom_eq hexact, hfirst, List.range_eq_range', dumpWords]

theorem exact_of_storeWords {words : List Nat} {i : Nat} {turn : Turn}
    (hturn : (memory.storeWords start words).turns[i]? = some turn) :
    turn = ⟨i * wordBytes, start + i * wordBytes⟩ ∧ turn.Exact ∧ Fits turn.address wordBytes := by
  by_cases h : words.length * wordBytes ≤ memorySize - start
  · have haddress : ∀ i < words.length, start + i * wordBytes < wideLimit :=
      fun i hi => Nat.lt_of_add_right_lt (fits_of_lt h hi).lt_wideLimit
    rw [storeWords_of_fits h] at hturn
    obtain ⟨hi, rfl, hexact⟩ := Turn.exact_of_getElem? haddress hturn
    exact ⟨rfl, hexact, fits_of_lt h hi⟩
  · rw [storeWords_of_not_fits h] at hturn
    cases hturn

theorem exact_of_readWords (hstart : start < wideLimit) {count i : Nat} {turn : Turn}
    (hturn : (memory.readWords start count).turns[i]? = some turn) :
    turn = ⟨i * wordBytes, start + i * wordBytes⟩ ∧ turn.Exact := by
  -- Only the first turn can begin behind the end of memory.
  have haddress : ∀ i < min (count % wideLimit) ((memorySize - start) / 3 + 1),
      start + i * wordBytes < wideLimit := by
    intro i hi
    simp only [memorySize, wordBytes, wideLimit] at hi hstart ⊢
    omega
  rw [readWords_eq memory hstart] at hturn
  exact (Turn.exact_of_getElem? haddress hturn).2

theorem length_turns_readWords (memory : Memory) (hstart : start < wideLimit) (count : Nat) :
    (memory.readWords start count).turns.length =
      min (count % wideLimit) ((memorySize - start) / 3 + 1) := by
  rw [readWords_eq memory hstart, List.length_map, List.length_range]

end

/-- Loading and listing in turns gives what loading and listing give. Every number that a turn
calculates on the way is exact in 32 bits. If the words to be loaded fit as a whole, there is a turn
for each of them and no write fails; if not, there is no turn and memory stays as it is. A listing
goes on only behind a word that was read, and takes at most 10923 turns. -/
theorem turns_exact {memory : Memory} (hmemory : memory.bytes.size = memorySize) {start : Nat}
    (hstart : start < wideLimit) (words : List Nat) (count : Nat) :
    (memory.storeWords start words).result = memory.loadWords start words ∧
    (∀ (i : Nat) (turn : Turn), (memory.storeWords start words).turns[i]? = some turn →
      turn = ⟨i * 3, start + i * 3⟩ ∧ turn.Exact ∧ turn.address + 3 ≤ memory.bytes.size) ∧
    (words.length * 3 ≤ memorySize - start →
      (memory.storeWords start words).turns.length = words.length ∧
        (memory.storeWords start words).error = none) ∧
    (memorySize - start < words.length * 3 →
      (memory.storeWords start words).turns = [] ∧
        (memory.storeWords start words).memory = memory) ∧
    (memory.readWords start count).entries = memory.dumpWords start count ∧
    (∀ (i : Nat) (turn : Turn), (memory.readWords start count).turns[i]? = some turn →
      turn = ⟨i * 3, start + i * 3⟩ ∧ turn.Exact) ∧
    (∀ i, i + 1 < (memory.readWords start count).turns.length →
      ∃ word, memory.readWord (start + i * 3) = .ok word) ∧
    (memory.readWords start count).turns.length ≤ 10923 := by
  have hlength := length_turns_readWords memory hstart count
  refine ⟨memory.result_storeWords start words, ?_, ?_, ?_, ?_, ?_, ?_, ?_⟩
  · intro i turn hturn
    obtain ⟨hplace, hexact, hfits⟩ := exact_of_storeWords hturn
    exact ⟨hplace, hexact, hmemory ▸ hfits⟩
  · intro hsize
    rw [storeWords_of_fits hsize, List.length_map, List.length_range]
    exact ⟨rfl, rfl⟩
  · intro hsize
    rw [storeWords_of_not_fits (Nat.not_le_of_lt hsize)]
    exact ⟨rfl, rfl⟩
  · rw [readWords_eq memory hstart]
  · intro i turn hturn
    exact exact_of_readWords hstart hturn
  · intro i hi
    refine ⟨memory.word (start + i * 3), readWord_of_fits memory ?_⟩
    rw [hlength] at hi
    simp only [Fits, wordBytes, memorySize] at hi ⊢
    omega
  · rw [hlength, memorySize]
    omega

/-- The last two words of memory are loaded, and a listing without end looks once behind them. -/
theorem last_turns_exact :
    zero.bytes.size = memorySize ∧ 32762 < wideLimit ∧
      (zero.storeWords 32762 [1, 0x1ABCDEF]).error = none ∧
      (zero.storeWords 32762 [1, 0x1ABCDEF]).turns[1]? = some ⟨3, 32765⟩ ∧
      (zero.readWords 32762 4294967295).turns[2]? = some ⟨6, 32768⟩ ∧
      (⟨6, 32768⟩ : Turn).Exact ∧ (∃ word, zero.readWord 32765 = .ok word) := by
  obtain ⟨-, -, hstored, -, -, hturns, hread, -⟩ :=
    turns_exact size_zero (show 32762 < wideLimit by decide) [1, 0x1ABCDEF] 4294967295
  have hstoring : (zero.storeWords 32762 [1, 0x1ABCDEF]).turns[1]? = some ⟨3, 32765⟩ := by
    rw [storeWords_of_fits (by decide)]
    rfl
  have hturn : (zero.readWords 32762 4294967295).turns[2]? = some ⟨6, 32768⟩ := by
    rw [readWords_eq zero (by decide)]
    rfl
  have hlength : 1 + 1 < (zero.readWords 32762 4294967295).turns.length := by
    rw [length_turns_readWords zero (by decide)]
    decide
  exact ⟨size_zero, by decide, (hstored (by decide)).2, hstoring, hturn, (hturns 2 _ hturn).2,
    hread 1 hlength⟩

end SicMachine.Memory
