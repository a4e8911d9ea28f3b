import Mathlib.Data.List.Basic
import ArmListing.Proofs.Assembly.Spelling

/-!
# ArmListing.Proofs.Assembly.Grammar

The **grammar of operands**. Names and numbers stand side by side, or a space or
a comma and a space apart, or between brackets or braces, and a pair of braces
may be empty (`OperandText`). All types of operands are written in it.

A reader takes operands apart without knowing the instruction. What it relies on
is a result about each derivation:

* no operand is empty (`OperandText.ne_empty`) or has a space at an end
  (`OperandText.head?_ne_space`, `OperandText.getLast?_ne_space`);
* between commas there is always something (`OperandText.ne_nil_of_mem_pieces`);
* what is opened is closed, in the right order (`OperandText.isBalanced`).
-/

namespace ArmListing

/-- What is written for operands. -/
inductive OperandText : String → Prop
  /-- A name or a number. -/
  | symbol {text : String} (hne : text ≠ "") (h : spelled isSymbolChar text = true) :
    OperandText text
  | append {front back : String} (hfront : OperandText front) (hback : OperandText back) :
    OperandText (front ++ back)
  | space {front back : String} (hfront : OperandText front) (hback : OperandText back) :
    OperandText (front ++ " " ++ back)
  | comma {front back : String} (hfront : OperandText front) (hback : OperandText back) :
    OperandText (front ++ ", " ++ back)
  | brackets {inner : String} (h : OperandText inner) : OperandText ("[" ++ inner ++ "]")
  | braces {inner : String} (h : OperandText inner) : OperandText ("\x7b" ++ inner ++ "\x7d")
  | emptyBraces : OperandText "\x7b\x7d"

/-! ## Pieces -/

/-- The pieces of a text between its commas. A comma counts if a space stands behind it, and the
space belongs to neither piece. -/
def commaPieces : List Char → List (List Char)
  | ',' :: ' ' :: rest => [] :: commaPieces rest
  | c :: rest => (commaPieces rest).modifyHead (c :: ·)
  | [] => [[]]

theorem commaPieces_comma (rest : List Char) :
    commaPieces (',' :: ' ' :: rest) = [] :: commaPieces rest := rfl

/-- A post-indexed address without its offset would leave a piece empty. -/
example : commaPieces "r0, [r1], ".toList = ["r0".toList, "[r1]".toList, []] := by decide

/-- What has no comma belongs to the first piece. -/
theorem commaPieces_append_of_not_mem {front : List Char} (h : ',' ∉ front) (rest : List Char) :
    commaPieces (front ++ rest) = (commaPieces rest).modifyHead (front ++ ·) := by
  induction front with
  | nil => exact (congrFun List.modifyHead_id _).symm
  | cons c front ih =>
    rw [List.mem_cons, not_or] at h
    obtain ⟨hc, hfront⟩ := h
    rw [List.cons_append, commaPieces, ih hfront, List.modifyHead_modifyHead]
    · rfl
    · rintro rest' rfl -
      exact hc rfl

/-- Whether a text leaves no piece empty, whatever follows it: it gives some pieces and the start
of one more, to which the first piece of the rest belongs. -/
def HasPieces (text : List Char) : Prop :=
  ∃ inner last, (∀ piece ∈ inner, piece ≠ []) ∧ last ≠ [] ∧
    ∀ rest, commaPieces (text ++ rest) = inner ++ (commaPieces rest).modifyHead (last ++ ·)

namespace HasPieces

variable {front back : List Char}

theorem of_not_mem (hne : front ≠ []) (h : ',' ∉ front) : HasPieces front :=
  ⟨[], front, fun _ hmem => absurd hmem List.not_mem_nil, hne, commaPieces_append_of_not_mem h⟩

theorem append (hfront : HasPieces front) (hback : HasPieces back) :
    HasPieces (front ++ back) := by
  obtain ⟨inner, last, hinner, hlast, hpieces⟩ := hfront
  obtain ⟨inner', last', hinner', hlast', hpieces'⟩ := hback
  -- where the two texts meet, the piece of the first one goes on with a piece of the second one
  cases inner' with
  | nil =>
    refine ⟨inner, last ++ last', hinner, List.append_ne_nil_of_left_ne_nil hlast _, fun rest => ?_⟩
    rw [List.append_assoc, hpieces, hpieces', List.nil_append, List.modifyHead_modifyHead]
    simp [Function.comp_def]
  | cons first inner' =>
    rw [List.forall_mem_cons] at hinner'
    refine ⟨inner ++ (last ++ first) :: inner', last', ?_, hlast', fun rest => ?_⟩
    · rw [List.forall_mem_append, List.forall_mem_cons]
      exact ⟨hinner, List.append_ne_nil_of_left_ne_nil hlast _, hinner'.2⟩
    · rw [List.append_assoc, hpieces, hpieces']
      simp

theorem comma (hfront : HasPieces front) (hback : HasPieces back) :
    HasPieces (front ++ ',' :: ' ' :: back) := by
  obtain ⟨inner, last, hinner, hlast, hpieces⟩ := hfront
  obtain ⟨inner', last', hinner', hlast', hpieces'⟩ := hback
  refine ⟨inner ++ last :: inner', last', ?_, hlast', fun rest => ?_⟩
  · rw [List.forall_mem_append, List.forall_mem_cons]
    exact ⟨hinner, hlast, hinner'⟩
  · rw [List.append_assoc, hpieces, List.cons_append, List.cons_append, commaPieces_comma, hpieces']
    simp

theorem ne_nil (h : HasPieces front) : ∀ piece ∈ commaPieces front, piece ≠ [] := by
  obtain ⟨inner, last, hinner, hlast, hpieces⟩ := h
  have hall := hpieces []
  rw [List.append_nil] at hall
  rw [hall, List.forall_mem_append]
  exact ⟨hinner, by simpa [commaPieces] using hlast⟩

end HasPieces

/-! ## Brackets -/

/-- Reads one character with a stack of the brackets and braces that are still to be closed, the
innermost first. Closing another one fails. -/
def stepBracket (due : List Char) (c : Char) : Option (List Char) :=
  if c = '[' then some (']' :: due)
  else if c = '{' then some ('}' :: due)
  else if c = ']' ∨ c = '}' then
    if due.head? = some c then some due.tail else none
  else some due

/-- Whether brackets and braces are balanced. -/
def IsBalanced (text : List Char) : Prop := text.foldlM stepBracket [] = some []

instance (text : List Char) : Decidable (IsBalanced text) :=
  inferInstanceAs (Decidable (_ = _))

/-- What is neither bracket nor brace leaves the stack as it is. -/
theorem stepBracket_of_isSymbolChar {c : Char} (h : isSymbolChar c = true) (due : List Char) :
    stepBracket due c = some due := by
  have hbrackets : spelled (!isSymbolChar ·) "[\x7b]\x7d" = true := rfl
  have hne : ∀ b ∈ "[\x7b]\x7d".toList, c ≠ b := by
    rintro b hb rfl
    have hnot := spelled_iff.mp hbrackets c hb
    rw [h] at hnot
    contradiction
  rw [stepBracket, if_neg (hne '[' (by decide)), if_neg (hne '{' (by decide)),
    if_neg (not_or.mpr ⟨hne ']' (by decide), hne '}' (by decide)⟩)]

theorem foldlM_stepBracket_of_isSymbolChar {chars : List Char}
    (h : ∀ c ∈ chars, isSymbolChar c = true) (due : List Char) :
    chars.foldlM stepBracket due = some due := by
  induction chars with
  | nil => rfl
  | cons c chars ih =>
    rw [List.forall_mem_cons] at h
    rw [List.foldlM_cons, stepBracket_of_isSymbolChar h.1]
    exact ih h.2

/-! ## Ends -/

theorem head?_append {front : String} (h : front ≠ "") (back : String) :
    (front ++ back).toList.head? = front.toList.head? := by
  rw [String.toList_append,
    List.head?_append_of_ne_nil _ fun hnil => h (String.toList_eq_nil_iff.mp hnil)]

theorem getLast?_append (front : String) {back : String} (h : back ≠ "") :
    (front ++ back).toList.getLast? = back.toList.getLast? := by
  rw [String.toList_append,
    List.getLast?_append_of_ne_nil _ fun hnil => h (String.toList_eq_nil_iff.mp hnil)]

/-! ## Results about all operands -/

namespace OperandText

variable {text : String}

theorem ne_empty (h : OperandText text) : text ≠ "" := by
  induction h with
  | symbol hne => exact hne
  | append _ _ hfront => simp [hfront]
  | space _ _ hfront => simp
  | comma _ _ hfront => simp
  | brackets => simp
  | braces => simp
  | emptyBraces => decide

theorem spelled_text (h : OperandText text) : spelled isOperandChar text = true := by
  induction h with
  | symbol _ h => exact spelled_mono (fun _ => isOperandChar_of_isSymbolChar) h
  | append _ _ hfront hback => simp [hfront, hback]
  | space _ _ hfront hback => simp +decide [hfront, hback]
  | comma _ _ hfront hback => simp +decide [hfront, hback]
  | brackets _ h => simp +decide [h]
  | braces _ h => simp +decide [h]
  | emptyBraces => decide

/-- Brackets and braces in an operand are closed in it, and no others are. -/
theorem foldlM_stepBracket (h : OperandText text) (due : List Char) :
    text.toList.foldlM stepBracket due = some due := by
  induction h generalizing due with
  | symbol _ h => exact foldlM_stepBracket_of_isSymbolChar (spelled_iff.mp h) due
  | append _ _ hfront hback => simp [List.foldlM_append, hfront, hback]
  | space _ _ hfront hback => simp [List.foldlM_append, hfront, hback, stepBracket]
  | comma _ _ hfront hback => simp [List.foldlM_append, hfront, hback, stepBracket]
  | brackets _ h => simp [List.foldlM_append, h, stepBracket]
  | braces _ h => simp [List.foldlM_append, h, stepBracket]
  | emptyBraces => simp [stepBracket]

theorem isBalanced (h : OperandText text) : IsBalanced text.toList := h.foldlM_stepBracket []

theorem hasPieces (h : OperandText text) : HasPieces text.toList := by
  -- brackets, braces and spaces are texts without a comma like any other
  have hopen : HasPieces ['['] := .of_not_mem (by decide) (by decide)
  have hclose : HasPieces [']'] := .of_not_mem (by decide) (by decide)
  have hspace : HasPieces [' '] := .of_not_mem (by decide) (by decide)
  have hbrace : HasPieces ['{'] := .of_not_mem (by decide) (by decide)
  have hbrace' : HasPieces ['}'] := .of_not_mem (by decide) (by decide)
  induction h with
  | symbol hne h =>
    refine .of_not_mem (fun hnil => hne (String.toList_eq_nil_iff.mp hnil)) fun hcomma => ?_
    exact absurd (spelled_iff.mp h _ hcomma) (by decide)
  | append _ _ hfront hback => simpa using hfront.append hback
  | space _ _ hfront hback => simpa using (hfront.append hspace).append hback
  | comma _ _ hfront hback => simpa using hfront.comma hback
  | brackets _ h => simpa using (hopen.append h).append hclose
  | braces _ h => simpa using (hbrace.append h).append hbrace'
  | emptyBraces => simpa using hbrace.append hbrace'

theorem ne_nil_of_mem_pieces (h : OperandText text) :
    ∀ piece ∈ commaPieces text.toList, piece ≠ [] :=
  h.hasPieces.ne_nil

theorem head?_ne_space (h : OperandText text) : text.toList.head? ≠ some ' ' := by
  induction h with
  | symbol _ h =>
    intro hspace
    exact absurd (spelled_iff.mp h _ (List.mem_of_head? hspace)) (by decide)
  | append hfront _ ih => rwa [head?_append hfront.ne_empty]
  | space hfront _ ih | comma hfront _ ih =>
    rwa [head?_append (by simp), head?_append hfront.ne_empty]
  | brackets | braces => simp
  | emptyBraces => decide

theorem getLast?_ne_space (h : OperandText text) : text.toList.getLast? ≠ some ' ' := by
  induction h with
  | symbol _ h =>
    intro hspace
    exact absurd (spelled_iff.mp h _ (List.mem_of_getLast? hspace)) (by decide)
  | append _ hback _ ih | space _ hback _ ih | comma _ hback _ ih =>
    rwa [getLast?_append _ hback.ne_empty]
  | brackets | braces =>
    rw [getLast?_append _ (by decide)]
    decide
  | emptyBraces => decide

/-! ## Writing operands -/

/-- One operand or more with commas between them. -/
theorem intercalate {texts : List String} (hne : texts ≠ [])
    (h : ∀ text ∈ texts, OperandText text) : OperandText (", ".intercalate texts) := by
  induction texts with
  | nil => contradiction
  | cons text rest ih =>
    rw [List.forall_mem_cons] at h
    cases rest with
    | nil =>
      rw [String.intercalate_singleton]
      exact h.1
    | cons next rest =>
      rw [String.intercalate_cons_cons]
      exact h.1.comma (ih (List.cons_ne_nil _ _) h.2)

/-- A name or a number that starts with a fixed text. -/
theorem ofAppend {front back : String} (hne : front ≠ "")
    (h : spelled isSymbolChar (front ++ back) = true) : OperandText (front ++ back) :=
  symbol (fun hempty => hne (String.append_eq_empty_iff.mp hempty).1) h

/-- Two operands between brackets. -/
theorem pair {first second : String} (hfirst : OperandText first) (hsecond : OperandText second) :
    OperandText ("[" ++ first ++ ", " ++ second ++ "]") := by
  have h := (hfirst.comma hsecond).brackets
  simpa only [String.append_assoc] using h

/-- A mark behind an operand, or nothing. -/
theorem marked {mark : String} (h : OperandText text) (hmark : OperandText mark) (shown : Bool) :
    OperandText (text ++ if shown then mark else "") := by
  cases shown with
  | true => exact h.append hmark
  | false =>
    rw [if_neg Bool.false_ne_true, String.append_empty]
    exact h

/-- A sign in front of an operand, or nothing. -/
theorem signed (h : OperandText text) (up : Bool) : OperandText (sign up ++ text) := by
  cases up with
  | true =>
    rw [sign, if_pos rfl, String.empty_append]
    exact h
  | false => exact .append (.symbol (by decide) (by decide)) h

end OperandText

/-! ### Numbers -/

@[simp] theorem operandText_repr (n : Nat) : OperandText n.repr := by
  refine .symbol (fun hempty => ?_) (spelled_repr n)
  rw [← String.toList_eq_nil_iff, Nat.toList_repr] at hempty
  exact Nat.toDigits_ne_nil hempty

@[simp] theorem operandText_numeral (n : Nat) : OperandText (numeral n) := by
  refine .symbol ?_ (spelled_numeral n)
  unfold numeral
  split
  · exact (operandText_repr n).ne_empty
  · simp

@[simp] theorem operandText_immediate (n : Nat) : OperandText (immediate n) :=
  .ofAppend (by decide) (by simp +decide)

@[simp] theorem operandText_displacement (d : Int) : OperandText (displacement d) := by
  unfold displacement
  split
  · exact .ofAppend (by decide) (by simp +decide)
  · exact .ofAppend (by decide) (by simp +decide)

/-! ### Names and marks -/

/-- The mark of write-back. -/
theorem operandText_writeback : OperandText "!" := .symbol (by decide) (by decide)

/-- The mark in front of immediate operands. -/
theorem operandText_number : OperandText "#" := .symbol (by decide) (by decide)

@[simp] theorem Register.operandText_name (r : Register) : OperandText r.name := by
  refine .symbol ?_ r.spelled_name
  obtain ⟨n⟩ := r
  revert n
  decide

@[simp] theorem Shift.operandText_name (s : Shift) : OperandText s.name := by
  cases s <;> exact .symbol (by decide) (by decide)

@[simp] theorem RegisterList.operandText_text (list : RegisterList) : OperandText list.text := by
  cases hnames : list.toList.map Register.name with
  | nil =>
    rw [RegisterList.text, hnames]
    exact .emptyBraces
  | cons name names =>
    rw [RegisterList.text, hnames]
    refine .braces (.intercalate (List.cons_ne_nil _ _) fun text htext => ?_)
    rw [← hnames] at htext
    obtain ⟨r, -, rfl⟩ := List.mem_map.mp htext
    exact r.operandText_name

/-! ### Operands -/

@[simp] theorem ShiftedRegister.operandText_text (r : ShiftedRegister) : OperandText r.text := by
  cases r with
  | plain rm => exact rm.operandText_name
  | byAmount rm shift amount =>
    have hamount := shift.operandText_name.space (operandText_number.append (operandText_repr amount))
    have h := rm.operandText_name.comma hamount
    rw [text, Nat.toString_eq_repr, show " #" = " " ++ "#" from rfl]
    simpa only [String.append_assoc] using h
  | byRegister rm shift rs =>
    have h := rm.operandText_name.comma (shift.operandText_name.space rs.operandText_name)
    simpa only [text, String.append_assoc] using h
  | throughCarry rm =>
    have hrrx : OperandText "rrx" := .symbol (by decide) (by decide)
    have h := rm.operandText_name.comma hrrx
    rwa [String.append_assoc] at h

@[simp] theorem FlexibleOperand.operandText_text (operand : FlexibleOperand) :
    OperandText operand.text := by
  cases operand with
  | value n => exact operandText_immediate n
  | register r => exact r.operandText_text

@[simp] theorem Offset.operandText_text (offset : Offset) : OperandText offset.text := by
  cases offset with
  | value up n =>
    have h := operandText_number.append ((operandText_numeral n).signed up)
    rwa [← String.append_assoc] at h
  | register up r => exact r.operandText_text.signed up

@[simp] theorem Address.operandText_text (address : Address) : OperandText address.text := by
  cases address with
  | preIndexed base offset? writeback =>
    cases offset? with
    | none => exact base.operandText_name.brackets.marked operandText_writeback writeback
    | some offset =>
      have h := base.operandText_name.pair offset.operandText_text
      exact h.marked operandText_writeback writeback
  | postIndexed base offset =>
    have h := base.operandText_name.brackets.comma offset.operandText_text
    rw [text, show "], " = "]" ++ ", " from rfl]
    simpa only [String.append_assoc] using h
  | unindexed base option =>
    have h := base.operandText_name.brackets.comma (operandText_repr option).braces
    rw [text, Nat.toString_eq_repr, show "], \x7b" = "]" ++ ", " ++ "\x7b" from rfl]
    simpa only [String.append_assoc] using h

end ArmListing
