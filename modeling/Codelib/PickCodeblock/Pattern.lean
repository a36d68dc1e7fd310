import Codelib.Core.Regex
import Mathlib.Data.List.DropRight

/-!
# Codelib.PickCodeblock.Pattern

`perl/pick_codeblock.pl`: the code blocks of a text, picked out with one regular
expression.

The text is a string of bytes, as Perl reads it without an encoding layer, so `\s` is white
space of ASCII. Perl's own limit on the rounds of a repeated group is left out, and so is
the format in which `Dumper` prints the strings.

For what the script should print, `Block` says which lines of a text are a code block:
a run of code lines, possibly with empty lines in between, that begins with the text or
behind an empty line that follows a line of text, and goes on up to a line of text or the
end. Lines are taken with their line ends.
-/

namespace Codelib.PickCodeblock

open Regex

/-! ### The script -/

/-- `[ ]` -/
def isBlank (c : UInt8) : Bool := c == 32

/-- `\s`: a space, or one of tab, newline, vertical tab, form feed and return. -/
def isSpace (c : UInt8) : Bool := c == 32 || 9 ≤ c && c ≤ 13

/-- `\n` -/
def newline : Regex := one (· == 10)

/-- `(?:[ ]{4} | \t)` -/
def indent : Regex := alt (rep 4 (some 4) (one isBlank)) (one (· == 9))

/-- `.*\n+` -/
def lineEnd : Regex := seq (rep 0 none (one (· != 10))) (rep 1 none newline)

/-- `(?:(?:[ ]{4} | \t) .*\n+)` -/
def codeLine : Regex := seq indent lineEnd

/-- `(?=^[ ]{0,4}\S)` -/
def nextLine : Regex :=
  ahead (seq lineStart (seq (rep 0 (some 4) (one isBlank)) (one (!isSpace ·))))

/-- `(?:(?=^[ ]{0,4}\S)|\Z)` -/
def ending : Regex := alt nextLine textEnd

/-- The group `cb`, and what has to follow it. -/
def block : Regex := seq (group (rep 1 none codeLine)) ending

/-- The regular expression. -/
def pattern : Regex := seq (alt (seq newline newline) textStart) block

/-- `s/\A\n//`, then `s/\s+\z//`. -/
def trim (t : Text) : Text :=
  (if t.head? = some 10 then t.tail else t).rdropWhile isSpace

/-- `@cb` when it is printed. With each string stands the place in the text where it was
taken from. -/
def cb (t : Text) : List (Nat × Text) :=
  ((findAll pattern t).filterMap Cursor.capture).map fun c => (c.1, trim c.2)

/-- The strings that are printed. -/
def printed (t : Text) : List Text := (cb t).map Prod.snd

/-! ### Kinds of lines -/

/-- A line that begins with four spaces or a tab. -/
def isCode (l : Text) : Bool := [32, 32, 32, 32].isPrefixOf l || [9].isPrefixOf l

/-- A completely empty line. -/
def isEmpty (l : Text) : Bool := l == [10]

/-- Any other line. -/
def isOther (l : Text) : Bool := !isCode l && !isEmpty l

/-- A line the look-ahead accepts: up to four spaces, then something that is not white
space. -/
def isNext (l : Text) : Bool :=
  (l.takeWhile isBlank).length ≤ 4 && (l.dropWhile isBlank).head?.any (!isSpace ·)

/-- Line `k` is of the kind `p`. -/
def At (p : Text → Bool) (lines : List Text) (k : Nat) : Prop := (lines[k]?).any p = true

instance (p : Text → Bool) (lines : List Text) (k : Nat) : Decidable (At p lines k) :=
  inferInstanceAs (Decidable (_ = _))

/-! ### Code blocks -/

/-- A run of code lines and empty lines is over: at the end, or in front of any other
line. -/
def Over (lines : List Text) (k : Nat) : Prop := k = lines.length ∨ At isOther lines k

/-- The lines from `first` to `last` are a code block. -/
structure Block (lines : List Text) (first last : Nat) : Prop where
  le : first ≤ last
  code_first : At isCode lines first
  code_last : At isCode lines last
  inside : ∀ k, first ≤ k → k ≤ last → At isCode lines k ∨ At isEmpty lines k
  /-- It begins with the text, or behind empty lines that follow a line of text. -/
  start : first = 0 ∨
    ∃ j, j + 1 < first ∧ At isOther lines j ∧ ∀ k, j < k → k < first → At isEmpty lines k
  /-- Behind it, up to empty lines, comes a line of text or the end. -/
  ended : ∃ m, last < m ∧ (∀ k, last < k → k < m → At isEmpty lines k) ∧ Over lines m

/-- A block as it is to be printed. -/
def blockText (lines : List Text) (first last : Nat) : Text :=
  trim ((lines.drop first).take (last + 1 - first)).flatten

/-- `pieces` are the code blocks of a text in order, each with the number of its first
line. -/
structure Pieces (lines : List Text) (pieces : List (Nat × Text)) : Prop where
  ordered : pieces.Pairwise (·.1 < ·.1)
  blocks : ∀ p, p ∈ pieces ↔ ∃ last, Block lines p.1 last ∧ p.2 = blockText lines p.1 last

/-- Where line `k` begins. -/
def offset (lines : List Text) (k : Nat) : Nat := (lines.take k).flatten.length

/-- The script takes out exactly the code blocks: each where it stands, in order, whole. -/
def TakesBlocks (t : Text) : Prop :=
  ∃ pieces, Pieces (splitLines t) pieces ∧
    cb t = pieces.map fun p => (offset (splitLines t) p.1, p.2)

/-- The script prints exactly the code blocks, in order. -/
def PrintsBlocks (t : Text) : Prop :=
  ∃ pieces, Pieces (splitLines t) pieces ∧ printed t = pieces.map Prod.snd

/-! ### When the expression finds the blocks -/

/-- Behind line `k - 1` a match may end: with the text, or in front of a line the look-ahead
accepts. -/
def MayEnd (lines : List Text) (k : Nat) : Prop := k = lines.length ∨ At isNext lines k

/-- From line `k` one gets to line `m` over code lines and empty lines, and a match may end
there. -/
def Reaches (lines : List Text) (k m : Nat) : Prop :=
  k ≤ m ∧ (∀ i, k ≤ i → i < m → At isCode lines i ∨ At isEmpty lines i) ∧ MayEnd lines m

/-- What keeps the blocks whole, and other lines out. -/
structure Clean (lines : List Text) : Prop where
  /-- Behind each block, and the empty lines that follow it, a match may end. -/
  whole : ∀ first last, Block lines first last →
    ∃ m, last < m ∧ (∀ k, last < k → k < m → At isEmpty lines k) ∧ MayEnd lines m
  /-- Where a code line outside the blocks follows an empty line that is not the first line
  of the text, there is no place behind it where a match could end. -/
  apart : ∀ k, 2 ≤ k → At isEmpty lines (k - 1) → At isCode lines k →
    (∀ first last, Block lines first last → ¬ (first ≤ k ∧ k ≤ last)) →
    ¬ ∃ m, Reaches lines (k + 1) m

end Codelib.PickCodeblock
