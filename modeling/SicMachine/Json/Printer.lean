import SicMachine.Json.Token

/-!
Writing tokens: close together, or laid out with one member or element to a
line and two blanks for each level of nesting. Empty arrays and objects stay
on one line.
-/
namespace SicMachine.Json

def compact (tokens : List Token) : String := String.ofList (tokens.flatMap Token.written)

def lineBreak (depth : Nat) : List Char := '\n' :: List.replicate (2 * depth) ' '

/-- What has been laid out so far, the last piece first; `fresh` tells that the last token opened
an array or an object. -/
structure Layout where
  depth : Nat
  fresh : Bool
  pieces : List (List Char)

namespace Layout

def start : Layout := ⟨0, false, []⟩

/-- The break before a value or a key that is the first of its array or object. -/
def lead (layout : Layout) : List Char := if layout.fresh then lineBreak layout.depth else []

def put (layout : Layout) (token : Token) : Layout :=
  match token with
  | .beginArray | .beginObject =>
    ⟨layout.depth + 1, true, (layout.lead ++ token.written) :: layout.pieces⟩
  | .endArray | .endObject =>
    ⟨layout.depth - 1, false,
      ((if layout.fresh then [] else lineBreak (layout.depth - 1)) ++ token.written) ::
        layout.pieces⟩
  | .comma => ⟨layout.depth, false, (token.written ++ lineBreak layout.depth) :: layout.pieces⟩
  | .colon => ⟨layout.depth, false, (token.written ++ [' ']) :: layout.pieces⟩
  | token => ⟨layout.depth, false, (layout.lead ++ token.written) :: layout.pieces⟩

end Layout

def pretty (tokens : List Token) : String :=
  String.ofList (tokens.foldl Layout.put .start).pieces.reverse.flatten

end SicMachine.Json
