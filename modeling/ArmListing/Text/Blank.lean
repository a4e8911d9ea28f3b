/-!
# ArmListing.Text.Blank

**White space** and what is cut at it: trimming, and the words of a text.

White space is the Unicode property `White_Space`, which is more than the blanks
of ASCII. `isBlank_of_isWhitespace` says that the blanks that core knows are
among them.
-/

namespace ArmListing.Text

/-- The Unicode property `White_Space`, as a table of code points. -/
def isBlank (c : Char) : Bool :=
  let n := c.toNat
  (9 ≤ n && n ≤ 13) || n == 0x20 || n == 0x85 || n == 0xa0 || n == 0x1680 ||
    (0x2000 ≤ n && n ≤ 0x200a) || n == 0x2028 || n == 0x2029 || n == 0x202f ||
    n == 0x205f || n == 0x3000

theorem isBlank_of_isWhitespace {c : Char} (h : c.isWhitespace = true) : isBlank c = true := by
  simp only [Char.isWhitespace, Bool.or_eq_true, decide_eq_true_eq] at h
  rcases h with ((rfl | rfl) | rfl) | rfl <;> rfl

/-- Without the blanks in front. -/
def trimStart (text : List Char) : List Char := text.dropWhile isBlank

/-- Without the blanks behind. -/
def trimEnd (text : List Char) : List Char := (text.reverse.dropWhile isBlank).reverse

/-- Without the blanks at both ends. -/
def trim (text : List Char) : List Char := trimEnd (trimStart text)

/-- The words of `text`, with `word` the reversed start of a word in front of it. -/
def wordsFrom (word : List Char) : List Char → List (List Char)
  | [] => if word.isEmpty then [] else [word.reverse]
  | c :: rest =>
    if isBlank c then
      if word.isEmpty then wordsFrom [] rest else word.reverse :: wordsFrom [] rest
    else wordsFrom (c :: word) rest

/-- The longest runs of characters that are not blank, in order. -/
def words (text : List Char) : List (List Char) := wordsFrom [] text

end ArmListing.Text
