import SicMachine.Machine.Execution

/-!
What an instruction comes to: the registers that it leaves behind, and a store
if there is one. The processor works in place, so an instruction that fails
might have been half done. It never is: every handler reads first, checks what
it has read, and writes then, and no write behind another one can be refused.
So a handler makes the change that the effect of its instruction tells, or none.
-/
namespace SicMachine

open InPlace

/-- A change of memory: the low byte or the low three bytes of a value go to an address. -/
inductive Store where
  | byte (address value : Nat)
  | word (address value : Nat)
  deriving DecidableEq

namespace Store

def width : Store → Nat
  | byte .. => 1
  | word .. => wordBytes

def address : Store → Nat
  | byte address _ => address
  | word address _ => address

def apply (memory : Memory) : Store → Memory
  | byte address value => memory.putByte address (UInt8.ofNat value)
  | word address value => memory.putWord address value

/-- The store itself when it lies inside memory. -/
def checked (store : Store) : Except Fault Store :=
  if Memory.Fits store.address store.width then .ok store
  else .error (.memory (.outOfBounds store.address store.width))

end Store

/-- What an instruction leaves behind: the registers, and a store if there is one. -/
structure Effect where
  registers : Registers
  store : Option Store
  deriving DecidableEq

namespace Effect

def onRegisters (registers : Registers) : Effect := ⟨registers, none⟩

/-- Memory after the effect. -/
def memoryAfter (effect : Effect) (memory : Memory) : Memory :=
  match effect.store with
  | some store => store.apply memory
  | none => memory

/-- The effect of a load: the operand word goes through `use`. -/
def withOperand (memory : Memory) (address : Nat) (use : Nat → Except Fault Registers) :
    Except Fault Effect :=
  match memory.readWord address with
  | .ok operand => (use operand).map onRegisters
  | .error error => .error (.memory error)

/-- The effect of a store. -/
def withStore (registers : Registers) (store : Store) : Except Fault Effect :=
  store.checked.map fun store => ⟨registers, some store⟩

/-- A jump to an address when the last comparison came out as given. -/
def jumpIf (registers : Registers) (cc : ConditionCode) (address : Nat) : Effect :=
  onRegisters (if registers.conditionCode? = some cc then registers.set .pc address else registers)

/-- The effect of the instruction at `origin`, whose address field has been resolved to `address`;
PC has already been moved on. -/
def ofMnemonic (r : Registers) (memory : Memory) (origin address : Nat) :
    Mnemonic → Except Fault Effect
  | .lda => withOperand memory address fun word => .ok (r.set .a word)
  | .ldx => withOperand memory address fun word => .ok (r.set .x word)
  | .ldl => withOperand memory address fun word => .ok (r.set .l word)
  | .sta => withStore r (.word address r.a)
  | .stx => withStore r (.word address r.x)
  | .stl => withStore r (.word address r.l)
  | .stsw => withStore r (.word address r.sw)
  | .ldch =>
    match memory.readByte address with
    | .ok byte => .ok (onRegisters (r.set .a (Word.withLowByte r.a byte)))
    | .error error => .error (.memory error)
  | .stch => withStore r (.byte address r.a)
  | .add => withOperand memory address fun word => .ok (r.set .a (Wide.sum r.a word))
  | .sub => withOperand memory address fun word => .ok (r.set .a (Wide.difference r.a word))
  | .mul => withOperand memory address fun word => .ok (r.set .a (Wide.product r.a word))
  | .div => withOperand memory address fun word =>
    if word = 0 then .error (.divisionByZero origin) else .ok (r.set .a (r.a / word))
  | .and => withOperand memory address fun word => .ok (r.set .a (r.a &&& word))
  | .or => withOperand memory address fun word => .ok (r.set .a (r.a ||| word))
  | .comp => withOperand memory address fun word =>
    .ok (r.setConditionCode (ConditionCode.compare r.a word))
  | .tix => withOperand memory address fun word =>
    let counted := r.set .x (r.x + 1)
    .ok (counted.setConditionCode (ConditionCode.compare counted.x word))
  | .j => .ok (onRegisters (r.set .pc address))
  | .jeq => .ok (jumpIf r .equal address)
  | .jgt => .ok (jumpIf r .greater address)
  | .jlt => .ok (jumpIf r .less address)
  | .jsub => .ok (onRegisters ((r.set .l r.pc).set .pc address))
  | .rsub => .ok (onRegisters (r.set .pc r.l))
  | .rd => .error (.unimplementedOpcode Mnemonic.rd.opcode origin)
  | .td => .error (.unimplementedOpcode Mnemonic.td.opcode origin)
  | .wd => .error (.unimplementedOpcode Mnemonic.wd.opcode origin)

def ofInstruction (r : Registers) (memory : Memory) (origin : Nat) (i : Instruction) :
    Except Fault Effect :=
  match Mnemonic.ofOpcode? i.opcode with
  | some mnemonic =>
    ofMnemonic r memory origin (r.effectiveAddress i.address.val i.indexed) mnemonic
  | none => .error (.unimplementedOpcode i.opcode origin)

end Effect

/-- The registers with PC moved on to the next word. -/
def Registers.advance (r : Registers) : Registers := r.set .pc (r.pc + wordBytes)

/-- The machine after an effect. -/
def Effect.applyTo (effect : Effect) (m : Machine) : Machine :=
  ⟨effect.registers, effect.memoryAfter m.memory⟩

/-! ### Handlers work as a whole -/

namespace Processor

theorem reads_register (read : Register) :
    Reads (register read) fun m => .ok (m.registers.get read) := fun _ => rfl

theorem reads_readByte (address : Nat) :
    Reads (readByte address) fun m => (m.memory.readByte address).mapError .memory :=
  reads_ofExcept _

theorem reads_readWord (address : Nat) :
    Reads (readWord address) fun m => (m.memory.readWord address).mapError .memory :=
  reads_ofExcept _

/-- The handler has the effect, or fails with its fault and has changed nothing. -/
def HasEffect (handler : Processor Unit) (effect : Registers → Memory → Except Fault Effect) :
    Prop :=
  Performs handler fun m => (effect m.registers m.memory).map fun effect => effect.applyTo m

/-- A handler that only sets registers. -/
theorem hasEffect_onRegisters {handler : Processor Unit} {change : Registers → Registers}
    (h : ∀ m, handler.on m = (⟨change m.registers, m.memory⟩, .ok ())) :
    HasEffect handler fun r _ => .ok (Effect.onRegisters (change r)) := h

/-- A handler that reads a word and goes on with registers alone. -/
theorem hasEffect_withOperand {rest : Nat → Processor Unit}
    {use : Registers → Nat → Except Fault Registers}
    (hrest : ∀ word, Performs (rest word) fun m =>
      (use m.registers word).map fun registers => ⟨registers, m.memory⟩) (address : Nat) :
    HasEffect (readWord address >>= rest) fun r memory =>
      Effect.withOperand memory address (use r) := by
  apply (Performs.after (reads_readWord address) hrest).congr
  intro m
  show _ = (Effect.withOperand m.memory address (use m.registers)).map _
  unfold Effect.withOperand
  cases m.memory.readWord address with
  | error error => rfl
  | ok word =>
    show (use m.registers word).map _ = ((use m.registers word).map _).map _
    cases use m.registers word with
    | ok registers => rfl
    | error fault => rfl

theorem hasEffect_jumpIf (cc : ConditionCode) (address : Nat) :
    HasEffect (jumpIf cc address) fun r _ => .ok (Effect.jumpIf r cc address) := by
  intro m
  show InPlace.on (if m.registers.conditionCode? = some cc then jump address else pure ()) m = _
  unfold Effect.jumpIf
  by_cases h : m.registers.conditionCode? = some cc
  · simp only [h, if_true]
    rfl
  · simp only [h, if_false]
    rfl

theorem hasEffect_load (written : Register) (address : Nat) :
    HasEffect (load written address) fun r memory =>
      Effect.withOperand memory address fun word => .ok (r.set written word) :=
  hasEffect_withOperand (fun _ _ => rfl) address

theorem hasEffect_calculate (operation : Nat → Nat → Nat) (address : Nat) :
    HasEffect (calculate operation address) fun r memory =>
      Effect.withOperand memory address fun word => .ok (r.set .a (operation r.a word)) :=
  hasEffect_withOperand (fun _ _ => rfl) address

theorem hasEffect_loadByte (origin address : Nat) :
    HasEffect (loadByte address) fun r memory =>
      Effect.ofMnemonic r memory origin address .ldch := by
  have hset : ∀ byte, Performs (do
      let a ← register .a
      setRegister .a (Word.withLowByte a byte)) fun m =>
        .ok ⟨m.registers.set .a (Word.withLowByte m.registers.a byte), m.memory⟩ :=
    fun _ _ => rfl
  apply (Performs.after (reads_readByte address) hset).congr
  intro m
  show _ = (Effect.ofMnemonic m.registers m.memory origin address .ldch).map _
  unfold Effect.ofMnemonic
  cases m.memory.readByte address with
  | ok byte => rfl
  | error error => rfl

theorem hasEffect_divide (origin address : Nat) :
    HasEffect (divide origin address) fun r memory =>
      Effect.withOperand memory address fun word =>
        if word = 0 then .error (.divisionByZero origin) else .ok (r.set .a (r.a / word)) := by
  apply hasEffect_withOperand
  intro word
  by_cases hword : word = 0
  · simp only [hword, if_true]
    exact performs_throw _
  · simp only [hword, if_false]
    exact fun _ => rfl

theorem hasEffect_compare (address : Nat) :
    HasEffect (compare address) fun r memory =>
      Effect.withOperand memory address fun word =>
        .ok (r.setConditionCode (ConditionCode.compare r.a word)) :=
  hasEffect_withOperand (fun _ _ => rfl) address

/-- X is counted up only once the operand has been read, and nothing fails from there on. -/
theorem hasEffect_countUp (address : Nat) :
    HasEffect (countUp address) fun r memory =>
      Effect.withOperand memory address fun word =>
        let counted := r.set .x (r.x + 1)
        .ok (counted.setConditionCode (ConditionCode.compare counted.x word)) :=
  hasEffect_withOperand (fun _ _ => rfl) address

/-- A write to memory that is carried out inside memory and refused elsewhere is a store. -/
theorem hasEffect_withStore {write : Memory.Access Unit} {store : Store}
    (h : Performs write fun memory =>
      if Memory.Fits store.address store.width then .ok (store.apply memory)
      else .error (.outOfBounds store.address store.width)) :
    HasEffect ((Machine.inMemory write).adaptExcept Fault.memory) fun r _ =>
      Effect.withStore r store := by
  apply ((Machine.performs_inMemory h).adaptExcept Fault.memory).congr
  intro m
  unfold Effect.withStore Store.checked
  by_cases hfit : Memory.Fits store.address store.width
  · simp only [hfit, if_true]
    rfl
  · simp only [hfit, if_false]
    rfl

theorem hasEffect_writeWord (address value : Nat) :
    HasEffect (writeWord address value) fun r _ => Effect.withStore r (.word address value) :=
  hasEffect_withStore (Memory.Access.performs_writeWord address value)

theorem hasEffect_writeByte (address value : Nat) :
    HasEffect (writeByte address value) fun r _ => Effect.withStore r (.byte address value) :=
  hasEffect_withStore (Memory.Access.performs_writeByte address value)

theorem hasEffect_store (read : Register) (address : Nat) :
    HasEffect (store read address) fun r _ => Effect.withStore r (.word address (r.get read)) :=
  Performs.after (reads_register read) fun value => hasEffect_writeWord address value

theorem hasEffect_storeByte (address : Nat) :
    HasEffect (storeByte address) fun r _ => Effect.withStore r (.byte address r.a) :=
  Performs.after (reads_register .a) fun value => hasEffect_writeByte address value

/-- Every mnemonic is handled as a whole: its handler has the effect of the mnemonic, or none. -/
theorem hasEffect_dispatch {opcode : UInt8} {mnemonic : Mnemonic}
    (h : Mnemonic.ofOpcode? opcode = some mnemonic) (origin address : Nat) :
    HasEffect (dispatch opcode origin address) fun r memory =>
      Effect.ofMnemonic r memory origin address mnemonic := by
  have hopcode := Mnemonic.ofOpcode?_eq_some_iff.1 h
  unfold dispatch
  rw [h]
  cases mnemonic with
  | lda => exact hasEffect_load .a address
  | ldx => exact hasEffect_load .x address
  | ldl => exact hasEffect_load .l address
  | sta => exact hasEffect_store .a address
  | stx => exact hasEffect_store .x address
  | stl => exact hasEffect_store .l address
  | stsw => exact hasEffect_store .sw address
  | ldch => exact hasEffect_loadByte origin address
  | stch => exact hasEffect_storeByte address
  | add => exact hasEffect_calculate Wide.sum address
  | sub => exact hasEffect_calculate Wide.difference address
  | mul => exact hasEffect_calculate Wide.product address
  | div => exact hasEffect_divide origin address
  | and => exact hasEffect_calculate Nat.land address
  | or => exact hasEffect_calculate Nat.lor address
  | comp => exact hasEffect_compare address
  | tix => exact hasEffect_countUp address
  | j => exact hasEffect_onRegisters fun _ => rfl
  | jeq => exact hasEffect_jumpIf .equal address
  | jgt => exact hasEffect_jumpIf .greater address
  | jlt => exact hasEffect_jumpIf .less address
  | jsub => exact hasEffect_onRegisters fun _ => rfl
  | rsub => exact hasEffect_onRegisters fun _ => rfl
  | rd | td | wd =>
    rw [← hopcode]
    exact performs_throw _

/-- The whole instruction is executed, or nothing of it. -/
theorem hasEffect_execute (i : Instruction) (origin : Nat) :
    HasEffect (execute i origin) fun r memory => Effect.ofInstruction r memory origin i := by
  intro m
  show (dispatch i.opcode origin (m.registers.effectiveAddress i.address.val i.indexed)).on m =
    settle m ((Effect.ofInstruction m.registers m.memory origin i).map _)
  unfold Effect.ofInstruction
  cases hfound : Mnemonic.ofOpcode? i.opcode with
  | some mnemonic => exact hasEffect_dispatch hfound origin _ m
  | none =>
    unfold dispatch
    rw [hfound]
    rfl

end Processor

end SicMachine
