import SicMachine.Proofs.ReachableMachines
import SicMachine.Proofs.ReadRecords
import SicMachine.Proofs.StepWrites
import SicMachine.Proofs.WrittenRecords

/-!
Machines are kept as text. What is written wraps nothing and what is read wraps
the registers and checks the size of memory, so a machine comes back as it was
because its registers hold words and its memory has its size, as in every
machine in use. A text that is accepted gives five numbers for the registers
and a byte for each address, and the machine holds them.
-/
namespace SicMachine

open Json

/-! ### Machines come back -/

theorem Registers.ofValues_toList {r : Registers} (h : r.InRange) : ofValues r.toList = r := by
  obtain ⟨ha, hx, hl, hpc, hsw⟩ := h
  simp [toList, Register.all, get, ofValues, wrap_of_lt, *]

theorem Registers.InRange.lt_of_mem_toList {r : Registers} (h : r.InRange) {value : Nat}
    (hvalue : value ∈ r.toList) : value < wordLimit := by
  obtain ⟨ha, hx, hl, hpc, hsw⟩ := h
  simp only [toList, Register.all, get, List.map_cons, List.map_nil, List.mem_cons,
    List.not_mem_nil, or_false] at hvalue
  rcases hvalue with rfl | rfl | rfl | rfl | rfl <;> assumption

theorem Registers.takes_tokens {r : Registers} (h : r.InRange) :
    record.reader.Takes r.tokens r := by
  have hwide : ∀ value ∈ r.toList, Reader.wide (Token.ofNat value) = .ok value := by
    intro value hvalue
    have hvalue := h.lt_of_mem_toList hvalue
    exact Reader.wide_ofNat (Nat.lt_trans hvalue (by decide))
  have hend : ∀ n, Reader.wide .endArray ≠ .ok n := nofun
  have htakes := Reader.takes_fixedArray hend hwide
  apply Record.takes_of_fills
  refine .member _ rfl rfl (Field.takes_of htakes _ _ _ _) ?_
  rw [ofValues_toList h]
  exact .done rfl

theorem Memory.takes_tokens {memory : Memory} (h : memory.bytes.size = memorySize) :
    reader.Takes memory.tokens memory := by
  have hend : ∀ value, Reader.byte .endArray ≠ .ok value := nofun
  have htakes := Reader.takes_array hend fun value (_ : value ∈ memory.bytes.toList) =>
    Reader.byte_ofNat value
  have hrecord : record.reader.Takes memory.tokens memory.bytes.toList :=
    Record.takes_of_fills (.member _ rfl rfl (Field.takes_of htakes _ _ _ _) (.done rfl))
  intro rest
  have hsize : memory.bytes.toList.length = memorySize := h
  simp [reader, hrecord rest, ofBytes, hsize]

namespace Machine

theorem takes_tokens {m : Machine} (h : m.WellFormed) : record.reader.Takes m.tokens m := by
  have hregisters := Registers.takes_tokens h.1
  have hmemory := Memory.takes_tokens h.2
  apply Record.takes_of_fills
  refine .member _ rfl rfl (Field.takes_of hregisters _ _ _ _) ?_
  refine .member _ rfl rfl (Field.takes_of hmemory _ _ _ _) ?_
  exact .done rfl

theorem writable_tokens (m : Machine) : Writable m.tokens := by
  apply Writable.object
  intro member hmember
  simp only [List.mem_cons, List.not_mem_nil, or_false] at hmember
  rcases hmember with rfl | rfl
  · apply Writable.object
    intro member hmember
    obtain rfl := List.mem_singleton.1 hmember
    exact .numbers m.registers.toList fun value => value
  · apply Writable.object
    intro member hmember
    obtain rfl := List.mem_singleton.1 hmember
    exact .numbers m.memory.bytes.toList fun byte => byte.toNat

theorem decode_encode {m : Machine} (h : m.WellFormed) : codec.decode (codec.encode m) = .ok m :=
  (Codec.decode_encode m.writable_tokens (takes_tokens h)).1

end Machine

/-! ### What texts that are read have in them -/

/-- The elements are five 32-bit numbers, and the registers hold them wrapped. -/
def Registers.Hold (r : Registers) (elements : List Value) : Prop :=
  ∃ numbers : List Nat, elements.map Value.natural? = numbers.map some ∧ numbers.length = 5 ∧
    (∀ n ∈ numbers, n < wideLimit) ∧ r.toList = numbers.map wrap

/-- The elements are as many bytes as memory has, and memory holds them. -/
def Memory.Holds (memory : Memory) (elements : List Value) : Prop :=
  elements.length = memorySize ∧
    elements.map Value.natural? = memory.bytes.toList.map fun byte => some byte.toNat

theorem Registers.toList_ofValues {values : List Nat} (h : values.length = 5) :
    (ofValues values).toList = values.map wrap := by
  match values, h with
  | [a, x, l, pc, sw], _ => rfl

/-- A record of one field says what its field says. -/
theorem tells_one {α β : Type} {record : Record α} {name : String} {presence : Presence}
    {reader : Reader β} {put : α → β → α} {Says : Value → α → Prop}
    (hfields : record.fields = [.of name presence reader put])
    (hreader : ∀ tokens rest read, reader tokens = .ok (read, rest) →
      ∃ part : Value, tokens = part.tokens ++ rest ∧ ∀ value, Says part (put value read)) :
    record.Tells fun place part value => place = 0 → Says part value := by
  have hplace : ∀ place field, record.fields[place]? = some field →
      place = 0 ∧ field = .of name presence reader put := by
    intro place field hfield
    rw [hfields, List.getElem?_singleton] at hfield
    split at hfield
    · next hzero => exact ⟨hzero, (Option.some.inj hfield).symm⟩
    · cases hfield
  constructor
  · simp [hfields]
  · intro place field hfield value next tokens rest hfill
    obtain ⟨-, rfl⟩ := hplace place field hfield
    obtain ⟨read, hread, rfl⟩ := Field.fill_of_eq_ok_iff.1 hfill
    obtain ⟨part, htokens, htold⟩ := hreader tokens rest read hread
    exact ⟨part, htokens, fun _ => htold value⟩
  · intro place field hfield value next tokens rest _ other part hother _ hzero
    exact absurd (hzero.trans (hplace place field hfield).1.symm) hother

theorem Registers.hold_of_reader {tokens rest : List Token} {r : Registers}
    (h : record.reader tokens = .ok (r, rest)) :
    ∃ (value : Value) (elements : List Value), tokens = value.tokens ++ rest ∧
      value.part? 0 "values" = some (.array elements) ∧ r.Hold elements := by
  have htells : record.Tells fun place part r =>
      place = 0 → ∃ elements, part = .array elements ∧ r.Hold elements := by
    refine tells_one rfl ?_
    intro tokens rest numbers hread
    obtain ⟨harray, hlength⟩ := Reader.fixedArray_eq_ok_iff.1 hread
    obtain ⟨elements, htokens, hnumbers, hread⟩ := Reader.exists_array
      (fun token n hn => (Reader.wide_eq_ok_iff.1 hn).1) harray
    have hwide : ∀ n ∈ numbers, n < wideLimit := by
      intro n hn
      obtain ⟨token, htoken⟩ := hread n hn
      exact (Reader.wide_eq_ok_iff.1 htoken).2
    have hold : (ofValues numbers).Hold elements :=
      ⟨numbers, hnumbers, hlength, hwide, toList_ofValues hlength⟩
    exact ⟨.array elements, htokens, fun _ => ⟨elements, rfl, hold⟩⟩
  obtain ⟨value, htokens, hparts⟩ := Record.exists_value htells h
  obtain ⟨part, hpart, htold⟩ := hparts 0 _ rfl rfl
  obtain ⟨elements, rfl, hold⟩ := htold rfl
  exact ⟨value, elements, htokens, hpart, hold⟩

theorem Memory.holds_of_reader {tokens rest : List Token} {memory : Memory}
    (h : reader tokens = .ok (memory, rest)) :
    ∃ (value : Value) (elements : List Value), tokens = value.tokens ++ rest ∧
      value.part? 0 "bytes" = some (.array elements) ∧ memory.Holds elements := by
  have htells : record.Tells fun place part bytes =>
      place = 0 → ∃ elements : List Value, part = .array elements ∧
        elements.map Value.natural? = bytes.map fun byte => some byte.toNat := by
    refine tells_one rfl ?_
    intro tokens rest bytes hread
    obtain ⟨elements, htokens, hnumbers, -⟩ := Reader.exists_array
      (fun token byte hbyte => Reader.byte_eq_ok_iff.1 hbyte) hread
    exact ⟨.array elements, htokens, fun _ => ⟨elements, rfl, hnumbers⟩⟩
  unfold reader at h
  split at h
  · cases h
  · next bytes behind hbytes =>
    obtain ⟨value, htokens, hparts⟩ := Record.exists_value htells hbytes
    obtain ⟨part, hpart, htold⟩ := hparts 0 _ rfl rfl
    obtain ⟨elements, rfl, hnumbers⟩ := htold rfl
    by_cases hlength : bytes.length = memorySize
    · simp only [ofBytes, hlength, if_true] at h
      cases h
      have hcount : elements.length = bytes.length := by
        simpa using congrArg List.length hnumbers
      exact ⟨value, elements, htokens, hpart, hcount.trans hlength, hnumbers⟩
    · simp [ofBytes, hlength] at h

namespace Machine

/-- The array of register values in a value that is read as a machine. -/
def registerValues? (value : Value) : Option Value :=
  (value.part? 0 "registers").bind fun registers => registers.part? 0 "values"

/-- The array of bytes in a value that is read as a machine. -/
def memoryBytes? (value : Value) : Option Value :=
  (value.part? 1 "memory").bind fun memory => memory.part? 0 "bytes"

theorem holds_of_reader {tokens rest : List Token} {m : Machine}
    (h : record.reader tokens = .ok (m, rest)) :
    ∃ (value : Value) (numbers bytes : List Value), tokens = value.tokens ++ rest ∧
      registerValues? value = some (.array numbers) ∧ m.registers.Hold numbers ∧
      memoryBytes? value = some (.array bytes) ∧ m.memory.Holds bytes := by
  have htells : record.Tells fun place part m =>
      (place = 0 → ∃ numbers, part.part? 0 "values" = some (.array numbers) ∧
        m.registers.Hold numbers) ∧
      (place = 1 → ∃ bytes, part.part? 0 "bytes" = some (.array bytes) ∧ m.memory.Holds bytes) := by
    constructor
    · decide
    · intro place field hfield value next tokens rest hfill
      match place with
      | 0 =>
        cases hfield
        obtain ⟨registers, hread, rfl⟩ := Field.fill_of_eq_ok_iff.1 hfill
        obtain ⟨part, numbers, htokens, hpart⟩ := Registers.hold_of_reader hread
        exact ⟨part, htokens, fun _ => ⟨numbers, hpart⟩, nofun⟩
      | 1 =>
        cases hfield
        obtain ⟨memory, hread, rfl⟩ := Field.fill_of_eq_ok_iff.1 hfill
        obtain ⟨part, bytes, htokens, hpart⟩ := Memory.holds_of_reader hread
        exact ⟨part, htokens, nofun, fun _ => ⟨bytes, hpart⟩⟩
    · intro place field hfield value next tokens rest hfill other part hother htold
      match place with
      | 0 =>
        cases hfield
        obtain ⟨registers, -, rfl⟩ := Field.fill_of_eq_ok_iff.1 hfill
        exact ⟨fun hzero => absurd hzero hother, htold.2⟩
      | 1 =>
        cases hfield
        obtain ⟨memory, -, rfl⟩ := Field.fill_of_eq_ok_iff.1 hfill
        exact ⟨htold.1, fun hone => absurd hone hother⟩
  obtain ⟨value, htokens, hparts⟩ := Record.exists_value htells h
  obtain ⟨registers, hregisters, htold, -⟩ := hparts 0 _ rfl rfl
  obtain ⟨memory, hmemory, -, htoldMemory⟩ := hparts 1 _ rfl rfl
  obtain ⟨numbers, hnumbers, hold⟩ := htold rfl
  obtain ⟨bytes, hbytes, holds⟩ := htoldMemory rfl
  exact ⟨value, numbers, bytes, htokens,
    Option.bind_eq_some_iff.2 ⟨registers, hregisters, hnumbers⟩, hold,
    Option.bind_eq_some_iff.2 ⟨memory, hmemory, hbytes⟩, holds⟩

/-- A text that is accepted is that of a value with five numbers and with a byte for each address,
and the machine holds them. -/
theorem holds_of_decode {text : String} {m : Machine} (h : codec.decode text = .ok m) :
    ∃ (value : Value) (numbers bytes : List Value), scan text.toList = value.tokens ∧
      registerValues? value = some (.array numbers) ∧ m.registers.Hold numbers ∧
      memoryBytes? value = some (.array bytes) ∧ m.memory.Holds bytes := by
  obtain ⟨value, numbers, bytes, htokens, hparts⟩ := holds_of_reader (Reader.read_of_readText h)
  rw [List.append_nil] at htokens
  exact ⟨value, numbers, bytes, htokens, hparts⟩

/-- A text with any other number of bytes is rejected. -/
theorem exists_failure_of_length {text : String} {value : Value} {bytes : List Value}
    (htext : scan text.toList = value.tokens) (hbytes : memoryBytes? value = some (.array bytes))
    (hlength : bytes.length ≠ memorySize) : ∃ failure, codec.decode text = .error failure := by
  cases hdecode : codec.decode text with
  | error failure => exact ⟨failure, rfl⟩
  | ok m =>
    obtain ⟨other, _, others, hother, -, -, hothers, holds⟩ := holds_of_decode hdecode
    obtain rfl := Value.eq_of_tokens_eq (htext.symm.trans hother)
    cases hbytes.symm.trans hothers
    exact absurd holds.1 hlength

/-! ### Saving and going on -/

/-- Every machine in use comes back from its text as it was, also in the middle of a run, and then
goes on as it would have gone on; and what a text that is accepted gives is what the machine
holds. -/
theorem saved_restored :
    (∀ m : Machine, Reachable m → codec.decode (codec.encode m) = .ok m) ∧
    (∀ m : Machine, Reachable m → ∀ count : Nat,
      ∃ restored, codec.decode (codec.encode (m.after count)) = .ok restored ∧
        ∀ further : Nat, restored.after further = m.after (count + further) ∧
          (restored.after further).step = (m.after (count + further)).step ∧
          restored.run further = (m.after count).run further ∧
          (m.ProceedsFor count → restored.run further = m.run (count + further))) ∧
    (∀ (text : String) (m : Machine), codec.decode text = .ok m →
      ∃ (value : Value) (numbers bytes : List Value), scan text.toList = value.tokens ∧
        registerValues? value = some (.array numbers) ∧ m.registers.Hold numbers ∧
        memoryBytes? value = some (.array bytes) ∧ m.memory.Holds bytes) ∧
    ∀ (text : String) (value : Value) (bytes : List Value), scan text.toList = value.tokens →
      memoryBytes? value = some (.array bytes) → bytes.length ≠ memorySize →
        ∃ failure, codec.decode text = .error failure := by
  refine ⟨fun m hm => decode_encode hm.wellFormed, ?_, fun text m h => holds_of_decode h,
    fun text value bytes htext hbytes hlength => exists_failure_of_length htext hbytes hlength⟩
  intro m hm count
  have hsaved := wellFormed_after hm.wellFormed count
  refine ⟨m.after count, decode_encode hsaved, fun further => ?_⟩
  have hafter : (m.after count).after further = m.after (count + further) := by
    rw [after, after, after, ← Function.iterate_add_apply, Nat.add_comm]
  refine ⟨hafter, by rw [hafter], rfl, fun hproceeds => ?_⟩
  rw [run_add, run_of_proceedsFor hproceeds]

theorem reachable_runningOut : Reachable runningOut := by
  have hdecode : Registers.codec.decode "\x7b\"values\":[0,0,0,32765,0]\x7d" =
      .ok runningOut.registers := by
    rfl
  exact .readRegisters _ hdecode

/-- A machine without memory, as text. -/
def withoutMemoryText : String := "[[[0,0,0,0,0]],[[]]]"

def withoutMemory : Value :=
  .array [.array [.array (List.replicate 5 (.scalar (.ofNat 0) (by decide)))], .array [.array []]]

theorem scan_withoutMemory : scan withoutMemoryText.toList = withoutMemory.tokens := by
  have hscan : scan withoutMemoryText.toList =
      [.beginArray, .beginArray, .beginArray, .ofNat 0, .comma, .ofNat 0, .comma, .ofNat 0, .comma,
        .ofNat 0, .comma, .ofNat 0, .endArray, .endArray, .comma, .beginArray, .beginArray,
        .endArray, .endArray, .endArray] := by
    decide +kernel
  rw [hscan]
  simp [withoutMemory, Value.tokens, Value.tokens_scalar, arrayTokens, separated_cons,
    List.replicate]

theorem runningOut_restored :
    Reachable runningOut ∧ runningOut.ProceedsFor 1 ∧
      (∃ restored, codec.decode (codec.encode (runningOut.after 1)) = .ok restored ∧
        restored.run 4 = runningOut.run (1 + 4)) ∧
      (∃ numbers : List Value, runningOut.registers.Hold numbers) ∧
      ∃ failure, codec.decode withoutMemoryText = .error failure := by
  have hproceeds : runningOut.ProceedsFor 1 :=
    proceedsFor_succ_iff.2 ⟨⟨_, congrArg Prod.snd step_runningOut⟩, proceedsFor_zero _⟩
  obtain ⟨hsaved, hcontinued, haccepted, hrejected⟩ := saved_restored
  obtain ⟨restored, hrestored, hfurther⟩ := hcontinued runningOut reachable_runningOut 1
  obtain ⟨-, -, -, hrun⟩ := hfurther 4
  obtain ⟨-, numbers, -, -, -, hold, -⟩ := haccepted _ _ (hsaved runningOut reachable_runningOut)
  exact ⟨reachable_runningOut, hproceeds, ⟨restored, hrestored, hrun hproceeds⟩,
    ⟨numbers, hold⟩, hrejected _ _ [] scan_withoutMemory rfl (by decide)⟩

end Machine

end SicMachine
