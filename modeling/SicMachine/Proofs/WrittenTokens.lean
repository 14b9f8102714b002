import SicMachine.Json.Printer
import SicMachine.Json.Scanner
import SicMachine.Text.Digits
import Mathlib.Data.List.Chain

/-!
Scanning what has been written. A token is read back from its own characters,
whatever blanks stand around it; only a number needs something behind it that
ends it. So both layouts of a list of tokens are scanned back into the list, as
long as no number stands right behind another.
-/
namespace SicMachine.Json

namespace Token

/-- The tokens that values are written with: natural numbers, and texts of characters only. -/
def Writable : Token → Prop
  | number written => ∃ n, written = Nat.toDigits 10 n
  | text units => ∃ chars : List Char, units = chars.map .char
  | invalid => False
  | _ => True

def isNumber : Token → Bool
  | number _ => true
  | _ => false

/-- The second token can be written right behind the first. -/
def Follows (first second : Token) : Prop := ¬ (first.isNumber ∧ second.isNumber)

theorem writable_ofNat (n : Nat) : (ofNat n).Writable := ⟨n, rfl⟩

theorem writable_ofString (s : String) : (ofString s).Writable := ⟨s.toList, rfl⟩

theorem follows_of_left {mark : Token} (h : mark.isNumber = false) (token : Token) :
    Follows mark token := by
  simp [Follows, h]

theorem follows_of_right {mark : Token} (h : mark.isNumber = false) (token : Token) :
    Follows token mark := by
  simp [Follows, h]

end Token

/-- Tokens that can be written one right behind the other. -/
structure Writable (tokens : List Token) : Prop where
  each : ∀ token ∈ tokens, token.Writable
  chain : tokens.IsChain Token.Follows

/-! ### One token -/

namespace Scan

open Token

/-- The scan has read these tokens, the last first. If the last is a number, it may still go on. -/
inductive HasRead : Scan → List Token → Prop
  | between (tokens : List Token) : HasRead ⟨.between, tokens⟩ tokens
  | number (phase : Phase) (done : List Char) (tokens : List Token)
      (h : phase = .zero ∨ phase = .whole) :
      HasRead ⟨.number phase done, tokens⟩ (.number done.reverse :: tokens)

/-- The character cannot go on with a number. -/
def Ends (c : Char) : Prop := c.isDigit = false ∧ c ≠ '.' ∧ c ≠ 'e' ∧ c ≠ 'E'

instance (c : Char) : Decidable (Ends c) := inferInstanceAs (Decidable (_ ∧ _))

variable {scan : Scan} {tokens : List Token}

theorem finish_of_hasRead (h : HasRead scan tokens) : scan.finish = tokens.reverse := by
  cases h with
  | between => rfl
  | number phase done tokens h => rcases h with rfl | rfl <;> rfl

theorem step_of_ends (h : HasRead scan tokens) {c : Char} (hc : Ends c) :
    scan.step c = outside c tokens := by
  obtain ⟨hdigit, hpoint, hsmall, hlarge⟩ := hc
  cases h with
  | between => rfl
  | number phase done tokens h =>
    rcases h with rfl | rfl <;>
      simp [step, Phase.next?, Phase.complete, hdigit, hpoint, hsmall, hlarge]

theorem ends_of_isSpace {c : Char} (h : isSpace c = true) : Ends c := by
  simp only [isSpace, Bool.or_eq_true, beq_iff_eq] at h
  rcases h with ((rfl | rfl) | rfl) | rfl <;> decide

theorem hasRead_spaces (h : HasRead scan tokens) {chars : List Char}
    (hchars : ∀ c ∈ chars, isSpace c = true) : HasRead (chars.foldl step scan) tokens := by
  induction chars generalizing scan with
  | nil => exact h
  | cons c rest ih =>
    have hc : isSpace c = true := hchars c List.mem_cons_self
    have hstep : scan.step c = ⟨.between, tokens⟩ :=
      (step_of_ends h (ends_of_isSpace hc)).trans (if_pos hc)
    rw [List.foldl_cons, hstep]
    exact ih (.between tokens) fun d hd => hchars d (List.mem_cons_of_mem c hd)

/-- Behind a token that is no number the scanner stands between tokens. -/
theorem between_of_follows (h : HasRead scan tokens)
    (hlast : ∀ last ∈ tokens.head?, last.isNumber = false) : scan = ⟨.between, tokens⟩ := by
  cases h with
  | between => rfl
  | number phase done tokens h =>
    have hnumber := hlast _ rfl
    cases hnumber

theorem foldl_whole (done digits : List Char) (tokens : List Token)
    (h : ∀ c ∈ digits, c.isDigit = true) :
    digits.foldl step ⟨.number .whole done, tokens⟩ =
      ⟨.number .whole (digits.reverse ++ done), tokens⟩ := by
  induction digits generalizing done with
  | nil => rfl
  | cons c rest ih =>
    have hc : c.isDigit = true := h c List.mem_cons_self
    have hstep : step ⟨.number .whole done, tokens⟩ c = ⟨.number .whole (c :: done), tokens⟩ := by
      simp [step, Phase.next?, hc]
    rw [List.foldl_cons, hstep, ih _ fun d hd => h d (List.mem_cons_of_mem c hd)]
    simp

theorem outside_digit {c : Char} (h : c.isDigit = true) (hzero : c ≠ '0') (tokens : List Token) :
    outside c tokens = ⟨.number .whole [c], tokens⟩ := by
  have hspace : isSpace c = false := by
    by_contra hspace
    have hends := ends_of_isSpace (eq_true_of_ne_false hspace)
    rw [hends.1] at h
    cases h
  have hminus : c ≠ '-' := by
    rintro rfl
    cases h
  simp [outside, hspace, hminus, hzero, h]

theorem hasRead_number (n : Nat) (tokens : List Token) :
    HasRead ((Nat.toDigits 10 n).foldl step ⟨.between, tokens⟩) (Token.ofNat n :: tokens) := by
  have hdigits : ∀ c ∈ Nat.toDigits 10 n, c.isDigit = true :=
    fun c hc => Nat.isDigit_of_mem_toDigits (by decide) (by decide) hc
  by_cases hn : n = 0
  · subst hn
    exact .number .zero ['0'] tokens (.inl rfl)
  · have hhead : (Nat.toDigits 10 n).head? ≠ some '0' :=
      Text.head?_toDigits_ne_zero (by decide) (Nat.pos_of_ne_zero hn)
    cases hwritten : Nat.toDigits 10 n with
    | nil => exact absurd hwritten Nat.toDigits_ne_nil
    | cons c rest =>
      rw [hwritten] at hdigits hhead
      have hzero : c ≠ '0' := fun h => hhead (congrArg some h)
      have hfirst : step ⟨.between, tokens⟩ c = ⟨.number .whole [c], tokens⟩ :=
        outside_digit (hdigits c List.mem_cons_self) hzero tokens
      rw [List.foldl_cons, hfirst,
        foldl_whole _ _ _ fun d hd => hdigits d (List.mem_cons_of_mem c hd), Token.ofNat, hwritten]
      have hread := HasRead.number .whole (rest.reverse ++ [c]) tokens (.inr rfl)
      simpa using hread

theorem digitValue?_digitChar : ∀ d < 16, Text.digitValue? 16 (Nat.digitChar d) = some d := by
  decide

theorem foldl_controlEscape {code : Nat} (h : code < 0x20) (done : List TextUnit)
    (tokens : List Token) :
    (controlEscape code).foldl step ⟨.text done, tokens⟩ =
      ⟨.text (.char (Char.ofNat code) :: done), tokens⟩ := by
  have hhigh := digitValue?_digitChar (code / 16) (by omega)
  have hlow := digitValue?_digitChar (code % 16) (by omega)
  have hzero : Text.digitValue? 16 '0' = some 0 := by decide
  have hcode : code / 16 * 16 + code % 16 = code := by omega
  have hunit : unitOf code = .char (Char.ofNat code) := if_neg (by omega)
  simp [controlEscape, step, hzero, hhigh, hlow, hcode, hunit]

/-- A character of a text is read back from the way it is written. -/
theorem foldl_escape (c : Char) (done : List TextUnit) (tokens : List Token) :
    (escape c).foldl step ⟨.text done, tokens⟩ = ⟨.text (.char c :: done), tokens⟩ := by
  unfold escape
  split
  case h_8 hquote hbackslash _ _ _ _ _ =>
    split
    · next hcontrol =>
      rw [foldl_controlEscape hcontrol, Char.ofNat_toNat]
    · next hcontrol =>
      have hq : c ≠ '"' := hquote
      have hb : c ≠ '\\' := hbackslash
      simp [step, hq, hb, hcontrol]
  all_goals rfl

theorem foldl_escapes (chars : List Char) (done : List TextUnit) (tokens : List Token) :
    ((chars.map TextUnit.char).flatMap writeUnit).foldl step ⟨.text done, tokens⟩ =
      ⟨.text ((chars.map TextUnit.char).reverse ++ done), tokens⟩ := by
  induction chars generalizing done with
  | nil => rfl
  | cons c rest ih =>
    rw [List.map_cons, List.flatMap_cons, List.foldl_append]
    show List.foldl step ((escape c).foldl step _) _ = _
    rw [foldl_escape, ih]
    simp

/-- Each token is read back where it can be written. -/
theorem hasRead_written (h : HasRead scan tokens) {token : Token} (htoken : token.Writable)
    (hfollows : ∀ last ∈ tokens.head?, Follows last token) :
    HasRead (token.written.foldl step scan) (token :: tokens) := by
  cases token with
  | invalid => exact htoken.elim
  | number written =>
    obtain ⟨n, rfl⟩ := htoken
    have hbetween : scan = ⟨.between, tokens⟩ := by
      apply between_of_follows h
      intro last hlast
      simpa [Follows, isNumber] using hfollows last hlast
    rw [hbetween]
    exact hasRead_number n tokens
  | text units =>
    obtain ⟨chars, rfl⟩ := htoken
    rw [written, List.cons_append, List.foldl_cons, step_of_ends h (by decide), List.foldl_append]
    show HasRead (List.foldl step (List.foldl step ⟨.text [], tokens⟩ _) ['"']) _
    rw [foldl_escapes]
    have hread := HasRead.between (.text (chars.map TextUnit.char) :: tokens)
    simpa [step, emit] using hread
  | bool value =>
    cases value
    all_goals
      rw [written, List.foldl_cons, step_of_ends h (by decide)]
      exact .between _
  | _ =>
    rw [written, List.foldl_cons, step_of_ends h (by decide)]
    exact .between _

end Scan

/-! ### Lists of tokens -/

/-- The characters are those of the tokens, with blanks in front of and behind each of them. -/
inductive Spells : List Token → List Char → Prop
  | nil : Spells [] []
  | cons {tokens : List Token} {chars : List Char} (token : Token) (before after : List Char)
      (hbefore : ∀ c ∈ before, Scan.isSpace c = true) (hafter : ∀ c ∈ after, Scan.isSpace c = true)
      (h : Spells tokens chars) :
      Spells (token :: tokens) (before ++ token.written ++ after ++ chars)

theorem hasRead_of_spells {tokens done : List Token} {chars : List Char} {scan : Scan}
    (h : Spells tokens chars) (hscan : scan.HasRead done) (hwritable : Writable tokens)
    (hfollows : ∀ last ∈ done.head?, ∀ next ∈ tokens.head?, Token.Follows last next) :
    (chars.foldl Scan.step scan).HasRead (tokens.reverse ++ done) := by
  induction h generalizing scan done with
  | nil => exact hscan
  | @cons tokens chars token before after hbefore hafter h ih =>
    obtain ⟨heach, hchain⟩ := hwritable
    obtain ⟨hnext, hrest⟩ := List.isChain_cons.1 hchain
    have hread := Scan.hasRead_written (Scan.hasRead_spaces hscan hbefore)
      (heach token List.mem_cons_self) fun last hlast => hfollows last hlast token rfl
    have hwritable : Writable tokens :=
      ⟨fun other hother => heach other (List.mem_cons_of_mem token hother), hrest⟩
    have hbehind := ih (Scan.hasRead_spaces hread hafter) hwritable fun last hlast => by
      obtain rfl : token = last := Option.some.inj hlast
      exact hnext
    simpa only [List.foldl_append, List.reverse_cons, List.append_assoc, List.singleton_append]
      using hbehind

theorem scan_of_spells {tokens : List Token} {chars : List Char} (h : Spells tokens chars)
    (hwritable : Writable tokens) : scan chars = tokens := by
  have hread := hasRead_of_spells h (.between []) hwritable fun last hlast => by cases hlast
  rw [scan, Scan.start, Scan.finish_of_hasRead hread, List.append_nil, List.reverse_reverse]

theorem spells_compact (tokens : List Token) : Spells tokens (tokens.flatMap Token.written) := by
  induction tokens with
  | nil => exact .nil
  | cons token rest ih =>
    have h := Spells.cons token [] [] (by simp) (by simp) ih
    simpa using h

/-- The close layout of tokens is scanned back into them. -/
theorem scan_compact {tokens : List Token} (h : Writable tokens) :
    scan (compact tokens).toList = tokens := by
  rw [compact, String.toList_ofList]
  exact scan_of_spells (spells_compact tokens) h

theorem isSpace_of_mem_lineBreak {depth : Nat} {c : Char} (h : c ∈ lineBreak depth) :
    Scan.isSpace c = true := by
  rcases List.mem_cons.1 h with rfl | h
  · rfl
  · rw [List.eq_of_mem_replicate h]
    rfl

theorem Layout.isSpace_of_mem_lead {layout : Layout} {c : Char} (h : c ∈ layout.lead) :
    Scan.isSpace c = true := by
  unfold lead at h
  split at h
  · exact isSpace_of_mem_lineBreak h
  · cases h

/-- A token is laid out between blanks. -/
theorem Layout.pieces_put (layout : Layout) (token : Token) :
    ∃ before after, (∀ c ∈ before, Scan.isSpace c = true) ∧ (∀ c ∈ after, Scan.isSpace c = true) ∧
      (layout.put token).pieces = (before ++ token.written ++ after) :: layout.pieces := by
  have hlead : ∀ c ∈ layout.lead, Scan.isSpace c = true := fun _ => isSpace_of_mem_lead
  have hnone : ∀ c ∈ ([] : List Char), Scan.isSpace c = true := by simp
  have hblank : ∀ c ∈ [' '], Scan.isSpace c = true := by simp [Scan.isSpace]
  cases token with
  | endArray | endObject =>
    refine ⟨if layout.fresh then [] else lineBreak (layout.depth - 1), [], ?_, hnone, by simp [put]⟩
    intro c hc
    split at hc
    · cases hc
    · exact isSpace_of_mem_lineBreak hc
  | comma => exact ⟨[], lineBreak layout.depth, hnone, fun _ => isSpace_of_mem_lineBreak, rfl⟩
  | colon => exact ⟨[], [' '], hnone, hblank, rfl⟩
  | _ => exact ⟨layout.lead, [], hlead, hnone, by simp [put]⟩

theorem exists_spells_pretty (tokens : List Token) (layout : Layout) :
    ∃ chars, Spells tokens chars ∧
      (tokens.foldl Layout.put layout).pieces.reverse.flatten =
        layout.pieces.reverse.flatten ++ chars := by
  induction tokens generalizing layout with
  | nil => exact ⟨[], .nil, by simp⟩
  | cons token rest ih =>
    obtain ⟨before, after, hbefore, hafter, hpieces⟩ := layout.pieces_put token
    obtain ⟨chars, hspells, hchars⟩ := ih (layout.put token)
    refine ⟨_, .cons token before after hbefore hafter hspells, ?_⟩
    rw [List.foldl_cons, hchars, hpieces]
    simp

/-- The layout with one member or element to a line is scanned back as well. -/
theorem scan_pretty {tokens : List Token} (h : Writable tokens) :
    scan (pretty tokens).toList = tokens := by
  obtain ⟨chars, hspells, hchars⟩ := exists_spells_pretty tokens .start
  have htext : (pretty tokens).toList = chars := by
    rw [pretty, String.toList_ofList, hchars]
    rfl
  rw [htext]
  exact scan_of_spells hspells h

end SicMachine.Json
