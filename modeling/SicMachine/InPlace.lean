/-!
Operations that work on a state in place. An operation that fails leaves the
state as it is at that moment: nothing is taken back. That a failure changes
nothing is therefore a property of single operations. `Performs` says it,
together with the change that an operation makes when it does not fail.
-/
namespace SicMachine

/-- An operation that works on a state in place. It returns a value or fails. -/
abbrev InPlace (ε σ α : Type) := EStateM ε σ α

namespace InPlace

variable {ε δ σ τ α β : Type}

/-- The state that an operation leaves, whether or not it fails, and what it returns. -/
def on (operation : InPlace ε σ α) (s : σ) : σ × Except ε α :=
  match operation.run s with
  | .ok value t => (t, .ok value)
  | .error error t => (t, .error error)

/-- An operation on a part of a state. The state is split into the part and the rest, which takes
the part back. -/
def within (split : σ → τ × (τ → σ)) (operation : InPlace ε τ α) : InPlace ε σ α := fun s =>
  let (part, rest) := split s
  match operation.run part with
  | .ok value part => .ok value (rest part)
  | .error error part => .error error (rest part)

theorem on_bind_of_ok {operation : InPlace ε σ α} {next : α → InPlace ε σ β} {s t : σ} {value : α}
    (h : operation.on s = (t, .ok value)) :
    InPlace.on (operation >>= next) s = (next value).on t := by
  unfold on at h ⊢
  rw [EStateM.run_bind]
  cases hrun : operation.run s with
  | ok found u =>
    rw [hrun] at h
    cases h
    rfl
  | error error u =>
    rw [hrun] at h
    cases h

theorem on_bind_of_error {operation : InPlace ε σ α} {next : α → InPlace ε σ β} {s t : σ}
    {error : ε} (h : operation.on s = (t, .error error)) :
    InPlace.on (operation >>= next) s = (t, .error error) := by
  unfold on at h ⊢
  rw [EStateM.run_bind]
  cases hrun : operation.run s with
  | ok found u =>
    rw [hrun] at h
    cases h
  | error found u =>
    rw [hrun] at h
    cases h
    rfl

theorem on_within (split : σ → τ × (τ → σ)) (operation : InPlace ε τ α) (s : σ) :
    (within split operation).on s =
      ((split s).2 (operation.on (split s).1).1, (operation.on (split s).1).2) := by
  rcases hsplit : split s with ⟨part, rest⟩
  cases hrun : operation.run part with
  | ok value t =>
    have hwithin : (within split operation).run s = .ok value (rest t) := by
      simp only [within, EStateM.run, hsplit] at hrun ⊢
      rw [hrun]
    simp only [on, hrun, hwithin]
  | error error t =>
    have hwithin : (within split operation).run s = .error error (rest t) := by
      simp only [within, EStateM.run, hsplit] at hrun ⊢
      rw [hrun]
    simp only [on, hrun, hwithin]

theorem on_adaptExcept (operation : InPlace ε σ α) (report : ε → δ) (s : σ) :
    InPlace.on (operation.adaptExcept report) s =
      ((operation.on s).1, (operation.on s).2.mapError report) := by
  unfold on
  cases hrun : operation.run s with
  | ok value t =>
    have hadapted : (operation.adaptExcept report).run s = .ok value t := by
      rw [EStateM.run_adaptExcept, hrun]
    rw [hadapted]
    rfl
  | error error t =>
    have hadapted : (operation.adaptExcept report).run s = .error (report error) t := by
      rw [EStateM.run_adaptExcept, hrun]
    rw [hadapted]
    rfl

/-! ### Operations that only read -/

/-- The operation returns what the function says and leaves every state as it is. -/
def Reads (operation : InPlace ε σ α) (value : σ → Except ε α) : Prop :=
  ∀ s, operation.on s = (s, value s)

theorem reads_ofExcept (value : σ → Except ε α) :
    Reads (do ofExcept (value (← get))) value := by
  intro s
  show InPlace.on (ofExcept (value s)) s = _
  cases value s with
  | ok found => rfl
  | error error => rfl

/-! ### Operations that change a state as a whole or not at all -/

/-- The state that takes the place of another, or the other one where there is none. -/
def settle (s : σ) : Except ε σ → σ × Except ε Unit
  | .ok t => (t, .ok ())
  | .error error => (s, .error error)

/-- The operation does to every state what the function says. Where the function fails, so does the
operation, and it leaves the state as it was. -/
def Performs (operation : InPlace ε σ Unit) (change : σ → Except ε σ) : Prop :=
  ∀ s, operation.on s = settle s (change s)

theorem performs_modify (change : σ → σ) :
    Performs (modify change : InPlace ε σ Unit) fun s => .ok (change s) := fun _ => rfl

theorem performs_set (t : σ) : Performs (set t : InPlace ε σ Unit) fun _ => .ok t := fun _ => rfl

theorem performs_throw (error : ε) :
    Performs (throw error : InPlace ε σ Unit) fun _ => .error error := fun _ => rfl

namespace Performs

variable {operation : InPlace ε σ Unit} {change : σ → Except ε σ}

theorem congr {other : σ → Except ε σ} (h : Performs operation change)
    (hchange : ∀ s, change s = other s) : Performs operation other := by
  intro s
  rw [h, hchange]

theorem on_of_ok (h : Performs operation change) {s t : σ} (hs : change s = .ok t) :
    operation.on s = (t, .ok ()) := by
  rw [h, hs]
  rfl

theorem on_of_error (h : Performs operation change) {s : σ} {error : ε}
    (hs : change s = .error error) : operation.on s = (s, .error error) := by
  rw [h, hs]
  rfl

/-- Reading first does not take away from what is done then. -/
theorem after {first : InPlace ε σ α} {value : σ → Except ε α} {next : α → InPlace ε σ Unit}
    {change : α → σ → Except ε σ} (hfirst : Reads first value)
    (hnext : ∀ found, Performs (next found) (change found)) :
    Performs (first >>= next) fun s => (value s).bind fun found => change found s := by
  intro s
  have hon := hfirst s
  show _ = settle s ((value s).bind fun found => change found s)
  cases hvalue : value s with
  | ok found =>
    rw [hvalue] at hon
    rw [on_bind_of_ok hon]
    exact hnext found s
  | error error =>
    rw [hvalue] at hon
    rw [on_bind_of_error hon]
    rfl

/-- A second change that cannot fail leaves nothing half done. -/
theorem andThen (h : Performs operation change) {next : InPlace ε σ Unit} {later : σ → σ}
    (hnext : Performs next fun s => .ok (later s)) :
    Performs (operation >>= fun _ => next) fun s => (change s).map later := by
  intro s
  have hon := h s
  show _ = settle s ((change s).map later)
  cases hchange : change s with
  | ok t =>
    rw [hchange] at hon
    rw [on_bind_of_ok hon]
    exact hnext t
  | error error =>
    rw [hchange] at hon
    rw [on_bind_of_error hon]
    rfl

/-- A part that has been left as it was makes the state as it was. -/
theorem within {split : τ → σ × (σ → τ)} (hsplit : ∀ s, (split s).2 (split s).1 = s)
    (h : Performs operation change) :
    Performs (within split operation) fun s => (change (split s).1).map (split s).2 := by
  intro s
  rw [on_within, h]
  show _ = settle s ((change (split s).1).map (split s).2)
  cases change (split s).1 with
  | ok part => rfl
  | error error =>
    show ((split s).2 (split s).1, Except.error error) = (s, Except.error error)
    rw [hsplit]

theorem adaptExcept (h : Performs operation change) (report : ε → δ) :
    Performs (operation.adaptExcept report) fun s => (change s).mapError report := by
  intro s
  rw [on_adaptExcept, h]
  show _ = settle s ((change s).mapError report)
  cases change s with
  | ok t => rfl
  | error error => rfl

end Performs

end InPlace

end SicMachine
