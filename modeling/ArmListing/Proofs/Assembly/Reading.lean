import Mathlib.Data.List.Basic
import ArmListing.Proofs.Assembly.Grammar

/-!
# ArmListing.Proofs.Assembly.Reading

**Reading operands back**: different operands are written differently.

`symbols` cuts a text at each character that belongs to no name and no number.
The cuts go through `++` at the places where operands are put together
(`symbols_comma`, `symbols_brackets`), so the symbols of an operand are a list
that follows its type, and operands with the same symbols are the same
(`ShiftedRegister.eq_of_symbols`, `Address.eq_of_symbols`,
`RegisterList.eq_of_symbols`). Empty symbols, which stand where two such
characters follow each other, are kept; they tell a post-indexed address from a
pre-indexed one.

Numbers are read by their digits (`value_numeral`), distances by `distance?`.
-/

namespace ArmListing

/-! ## Numbers -/

/-- What stands in front of the digits counts for nothing. -/
theorem value_numeral (n : Nat) : Hex.value (numeral n).toList = n := by
  unfold numeral
  split
  case isTrue hlt =>
    rw [Nat.toString_eq_repr, Nat.toList_repr, Nat.toDigits_of_lt_base hlt]
    simp [Hex.value, (Hex.digit?_digitChar (show n < 16 by omega)).1]
  case isFalse =>
    have hfront : Hex.value "0x".toList = 0 := rfl
    rw [String.toList_append, Hex.value_append, Hex.value_lower, hfront, Nat.zero_mul,
      Nat.zero_add]

/-- Decimal numbers are read by their digits. -/
theorem repr_injective : Function.Injective Nat.repr := fun m n h => by
  have hdigits := congrArg (fun text => Nat.ofDigitChars 10 text.toList 0) h
  simpa only [Nat.toList_repr, Nat.ofDigitChars_toDigits (by decide : 1 < 10)
    (by decide : 10 ≤ 10)] using hdigits

theorem numeral_injective : Function.Injective numeral := fun m n h => by
  rw [← value_numeral m, h, value_numeral]

/-! ### Distances -/

/-- The number that a run of hexadecimal digits stands for, if it is one. -/
def digits? (chars : List Char) : Option Nat :=
  if !chars.isEmpty && chars.all Hex.isDigit then some (Hex.value chars) else none

/-- The distance that a branch target stands for. -/
def distance? (target : String) : Option Int :=
  match target.toList with
  | '.' :: '+' :: '0' :: 'x' :: rest => (digits? rest).map fun n : Nat => (n : Int)
  | '.' :: '-' :: '0' :: 'x' :: rest => (digits? rest).map fun n : Nat => -(n : Int)
  | _ => none

theorem digits?_lower (n : Nat) : digits? (Hex.lower n).toList = some n := by
  have hne : (Hex.lower n).toList ≠ [] := by
    rw [Hex.lower, String.toList_ofList]
    exact Nat.toDigits_ne_nil
  have hall : (Hex.lower n).toList.all Hex.isDigit = true :=
    List.all_eq_true.mpr fun c => Hex.isDigit_of_mem_lower
  rw [digits?, List.isEmpty_eq_false_iff.mpr hne, hall]
  exact congrArg some (Hex.value_lower n)

/-- **A branch target is read back** as the distance that it was written for. -/
theorem distance?_displacement (d : Int) : distance? (displacement d) = some d := by
  by_cases hneg : d < 0
  · have hchars : (displacement d).toList =
        '.' :: '-' :: '0' :: 'x' :: (Hex.lower d.natAbs).toList := by
      simp [displacement, hneg]
    rw [distance?, hchars]
    show (digits? _).map _ = _
    rw [digits?_lower, Option.map_some, Option.some.injEq]
    omega
  · have hchars : (displacement d).toList =
        '.' :: '+' :: '0' :: 'x' :: (Hex.lower d.natAbs).toList := by
      simp [displacement, hneg]
    rw [distance?, hchars]
    show (digits? _).map _ = _
    rw [digits?_lower, Option.map_some, Option.some.injEq]
    omega

theorem displacement_injective : Function.Injective displacement := fun c d h => by
  have hc := distance?_displacement c
  rw [h, distance?_displacement] at hc
  exact (Option.some.inj hc).symm

/-! ## Symbols -/

/-- Whether a character belongs to no name and no number. -/
def isBreak (c : Char) : Bool := !isSymbolChar c

/-- The names and numbers of a text, cut at each break. Between two breaks that follow each other
stands an empty one. -/
def symbols (text : String) : List String := (text.toList.splitOnP isBreak).map String.ofList

example : symbols "r0, [r1], #4" = ["r0", "", "", "r1", "", "", "#4"] := by decide

theorem symbols_of_spelled {text : String} (h : spelled isSymbolChar text = true) :
    symbols text = [text] := by
  have hchars : ∀ c ∈ text.toList, isBreak c = false := by
    intro c hc
    rw [isBreak, spelled_iff.mp h c hc]
    rfl
  rw [symbols, List.splitOnP_eq_singleton hchars, List.map_singleton, String.ofList_toList]

@[simp] theorem Register.symbols_name (r : Register) : symbols r.name = [r.name] :=
  symbols_of_spelled r.spelled_name

@[simp] theorem symbols_repr (n : Nat) : symbols n.repr = [n.repr] :=
  symbols_of_spelled (spelled_repr n)

@[simp] theorem symbols_displacement (d : Int) : symbols (displacement d) = [displacement d] := by
  refine symbols_of_spelled ?_
  unfold displacement
  split <;> simp +decide

/-- A text is cut at a break, whatever stands on its sides. -/
theorem symbols_append_break (front : String) {c : Char} (h : isBreak c = true) (back : String) :
    symbols (front ++ String.singleton c ++ back) = symbols front ++ symbols back := by
  rw [symbols, String.toList_append, String.toList_append, String.toList_singleton,
    List.append_assoc, List.singleton_append, List.splitOnP_append_cons _ _ h, List.map_append]
  rfl

theorem symbols_break_append {c : Char} (h : isBreak c = true) (back : String) :
    symbols (String.singleton c ++ back) = "" :: symbols back := by
  have hempty : symbols "" = [""] := rfl
  rw [← String.empty_append (s := String.singleton c), symbols_append_break "" h, hempty]
  rfl

theorem symbols_space (front back : String) :
    symbols (front ++ " " ++ back) = symbols front ++ symbols back := by
  rw [show " " = String.singleton ' ' from rfl, symbols_append_break _ (by decide)]

theorem symbols_tab (front back : String) :
    symbols (front ++ "\t" ++ back) = symbols front ++ symbols back := by
  rw [show "\t" = String.singleton '\t' from rfl, symbols_append_break _ (by decide)]

theorem symbols_comma (front back : String) :
    symbols (front ++ ", " ++ back) = symbols front ++ "" :: symbols back := by
  have hsplit : front ++ ", " ++ back =
      front ++ String.singleton ',' ++ (String.singleton ' ' ++ back) := by
    rw [show ", " = String.singleton ',' ++ String.singleton ' ' from rfl]
    simp only [String.append_assoc]
  rw [hsplit, symbols_append_break _ (by decide), symbols_break_append (by decide)]

theorem symbols_brackets (inner back : String) :
    symbols ("[" ++ inner ++ "]" ++ back) = "" :: (symbols inner ++ symbols back) := by
  rw [show "[" = String.singleton '[' from rfl, show "]" = String.singleton ']' from rfl,
    symbols_append_break _ (by decide), symbols_break_append (by decide), List.cons_append]

theorem symbols_braces (inner back : String) :
    symbols ("\x7b" ++ inner ++ "\x7d" ++ back) = "" :: (symbols inner ++ symbols back) := by
  rw [show "\x7b" = String.singleton '{' from rfl, show "\x7d" = String.singleton '}' from rfl,
    symbols_append_break _ (by decide), symbols_break_append (by decide), List.cons_append]

/-! ## Marks

What is spelled in letters and digits can be told from a mark beside it. -/

theorem append_ne_of_mark {mark text : String} (hmark : spelled Char.isAlphanum mark = false)
    (htext : spelled Char.isAlphanum text = true) (other : String) : mark ++ other ≠ text := by
  rintro rfl
  rw [spelled_append, hmark] at htext
  contradiction

theorem ne_append_of_mark {mark text : String} (hmark : spelled Char.isAlphanum mark = false)
    (htext : spelled Char.isAlphanum text = true) (other : String) : other ++ mark ≠ text := by
  rintro rfl
  rw [spelled_append, hmark, Bool.and_false] at htext
  contradiction

theorem sign_append_inj {up up' : Bool} {text text' : String}
    (htext : spelled Char.isAlphanum text = true) (htext' : spelled Char.isAlphanum text' = true)
    (h : sign up ++ text = sign up' ++ text') : up = up' ∧ text = text' := by
  have hmark : spelled Char.isAlphanum "-" = false := by decide
  cases up <;> cases up' <;> simp only [sign, Bool.false_eq_true, ↓reduceIte, String.empty_append] at h
  · exact ⟨rfl, String.append_right_inj _ |>.mp h⟩
  · exact absurd h (append_ne_of_mark hmark htext' text)
  · exact absurd h.symm (append_ne_of_mark hmark htext text')
  · exact ⟨rfl, h⟩

theorem Register.spelled_isAlphanum_name (r : Register) :
    spelled Char.isAlphanum r.name = true := by
  obtain ⟨n⟩ := r
  revert n
  decide

theorem spelled_isAlphanum_numeral (n : Nat) : spelled Char.isAlphanum (numeral n) = true := by
  unfold numeral
  split
  · rw [Nat.toString_eq_repr, spelled_iff]
    intro c hc
    show (c.isAlpha || c.isDigit) = true
    rw [Text.isDigit_of_mem_repr hc, Bool.or_true]
  · rw [spelled_append]
    exact spelled_iff.mpr fun c hc => isAlphanum_of_isDigit (Hex.isDigit_of_mem_lower hc)

/-! ## Shifted registers -/

namespace ShiftedRegister

/-- The register that is shifted. -/
def register : ShiftedRegister → Register
  | plain rm | byAmount rm _ _ | byRegister rm _ _ | throughCarry rm => rm

/-- The symbols behind the register. -/
def shiftSymbols : ShiftedRegister → List String
  | plain _ => []
  | byAmount _ shift amount => ["", shift.name, "#" ++ toString amount]
  | byRegister _ shift rs => ["", shift.name, rs.name]
  | throughCarry _ => ["", "rrx"]

theorem symbols_append_text {front : String} (hfront : spelled isSymbolChar front = true)
    (r : ShiftedRegister) :
    symbols (front ++ r.text) = (front ++ r.register.name) :: r.shiftSymbols := by
  have hregister (rm : Register) : symbols (front ++ rm.name) = [front ++ rm.name] :=
    symbols_of_spelled (by simp [hfront])
  have hshift (shift : Shift) : symbols shift.name = [shift.name] :=
    symbols_of_spelled (spelled_mono (fun _ hc => isSymbolChar_of_isAlphanum
      (isAlphanum_of_isAlpha (isAlpha_of_isLower hc))) shift.spelled_name)
  cases r with
  | plain rm => exact hregister rm
  | byAmount rm shift amount =>
    have hamount : symbols ("#" ++ toString amount) = ["#" ++ toString amount] :=
      symbols_of_spelled (by simp +decide)
    have hsplit : front ++ (byAmount rm shift amount).text =
        front ++ rm.name ++ ", " ++ (shift.name ++ " " ++ ("#" ++ toString amount)) := by
      rw [text, show " #" = " " ++ "#" from rfl]
      simp only [String.append_assoc]
    rw [hsplit, symbols_comma, symbols_space, hregister, hshift, hamount]
    rfl
  | byRegister rm shift rs =>
    have hsplit : front ++ (byRegister rm shift rs).text =
        front ++ rm.name ++ ", " ++ (shift.name ++ " " ++ rs.name) := by
      simp only [text, String.append_assoc]
    rw [hsplit, symbols_comma, symbols_space, hregister, hshift, rs.symbols_name]
    rfl
  | throughCarry rm =>
    have hsplit : front ++ (throughCarry rm).text = front ++ rm.name ++ ", " ++ "rrx" := by
      rw [text, show ", rrx" = ", " ++ "rrx" from rfl]
      simp only [String.append_assoc]
    rw [hsplit, symbols_comma, hregister]
    rfl

theorem eq_of_shiftSymbols {a b : ShiftedRegister} (hregister : a.register = b.register)
    (h : a.shiftSymbols = b.shiftSymbols) : a = b := by
  have hshift : Function.Injective Shift.name := by
    intro s t
    cases s <;> cases t <;> decide
  have hnumber (n : Nat) (r : Register) : "#" ++ n.repr ≠ r.name :=
    append_ne_of_mark (by decide) r.spelled_isAlphanum_name _
  have hnumber' (n : Nat) (r : Register) : r.name ≠ "#" ++ n.repr := (hnumber n r).symm
  cases a <;> cases b <;>
    simp_all [register, shiftSymbols, hshift.eq_iff, Register.name_injective.eq_iff, repr_injective.eq_iff]

/-- Shifted registers are told by their symbols, also with signs in front of them. -/
theorem eq_of_symbols {up up' : Bool} {a b : ShiftedRegister}
    (h : symbols (sign up ++ a.text) = symbols (sign up' ++ b.text)) : up = up' ∧ a = b := by
  have hsign (up : Bool) : spelled isSymbolChar (sign up) = true := by cases up <;> rfl
  rw [symbols_append_text (hsign up), symbols_append_text (hsign up'), List.cons.injEq] at h
  obtain ⟨hname, hshift⟩ := h
  obtain ⟨hup, hname⟩ := sign_append_inj a.register.spelled_isAlphanum_name
    b.register.spelled_isAlphanum_name hname
  exact ⟨hup, eq_of_shiftSymbols (Register.name_injective hname) hshift⟩

theorem eq_of_symbols_text {a b : ShiftedRegister} (h : symbols a.text = symbols b.text) : a = b :=
  (eq_of_symbols (show symbols (sign true ++ a.text) = symbols (sign true ++ b.text) by
    simpa [sign] using h)).2

end ShiftedRegister

/-! ## Addresses -/

namespace Offset

/-- The number or the name that an offset starts with. -/
def firstSymbol : Offset → String
  | value up n => "#" ++ (sign up ++ numeral n)
  | register up r => sign up ++ r.register.name

/-- The symbols behind the first one. -/
def shiftSymbols : Offset → List String
  | value _ _ => []
  | register _ r => r.shiftSymbols

theorem symbols_text (offset : Offset) :
    symbols offset.text = offset.firstSymbol :: offset.shiftSymbols := by
  cases offset with
  | value up n =>
    rw [text, String.append_assoc]
    exact symbols_of_spelled (by cases up <;> simp +decide [sign])
  | register up r => exact r.symbols_append_text (by cases up <;> rfl)

theorem firstSymbol_ne_empty (offset : Offset) : offset.firstSymbol ≠ "" := by
  cases offset with
  | value up n => simp [firstSymbol]
  | register up r => simp [firstSymbol, r.register.operandText_name.ne_empty]

/-- An immediate offset starts with a mark that no register has. -/
theorem number_append_ne (text : String) (up : Bool) (r : Register) :
    "#" ++ text ≠ sign up ++ r.name := by
  cases up with
  | true =>
    rw [sign, if_pos rfl, String.empty_append]
    exact append_ne_of_mark (by decide) r.spelled_isAlphanum_name text
  | false =>
    intro h
    have hhead := congrArg (fun s : String => s.toList.head?) h
    simp [sign] at hhead

theorem eq_of_symbols {a b : Offset} (h : symbols a.text = symbols b.text) : a = b := by
  cases a with
  | value up n =>
    rw [symbols_text, symbols_text, List.cons.injEq] at h
    obtain ⟨hfirst, -⟩ := h
    cases b with
    | value up' n' =>
      obtain ⟨rfl, hn⟩ := sign_append_inj (spelled_isAlphanum_numeral n)
        (spelled_isAlphanum_numeral n') ((String.append_right_inj _).mp hfirst)
      rw [numeral_injective hn]
    | register up' r' => exact absurd hfirst (number_append_ne _ up' _)
  | register up r =>
    cases b with
    | value up' n' =>
      rw [symbols_text, symbols_text, List.cons.injEq] at h
      exact absurd h.1.symm (number_append_ne _ up _)
    | register up' r' =>
      obtain ⟨rfl, rfl⟩ := ShiftedRegister.eq_of_symbols h
      rfl

end Offset

namespace Address

theorem symbols_writebackMark (writeback : Bool) :
    symbols (writebackMark writeback) = [writebackMark writeback] := by
  cases writeback <;> rfl

theorem writebackMark_injective : Function.Injective writebackMark := by
  intro writeback writeback'
  cases writeback <;> cases writeback' <;> decide

/-- The register that an address starts from. -/
def base : Address → Register
  | preIndexed base _ _ | postIndexed base _ | unindexed base _ => base

/-- The symbols behind the base. An offset inside the brackets has one break in front of it, an
offset behind them has two. -/
def offsetSymbols : Address → List String
  | preIndexed _ none writeback => [writebackMark writeback]
  | preIndexed _ (some offset) writeback =>
    "" :: offset.firstSymbol :: (offset.shiftSymbols ++ [writebackMark writeback])
  | postIndexed _ offset => "" :: "" :: offset.firstSymbol :: offset.shiftSymbols
  | unindexed _ option => ["", "", "", toString option, ""]

theorem symbols_text (address : Address) :
    symbols address.text = "" :: address.base.name :: address.offsetSymbols := by
  cases address with
  | preIndexed base offset? writeback =>
    cases offset? with
    | none =>
      rw [text, symbols_brackets, symbols_writebackMark, Register.symbols_name]
      rfl
    | some offset =>
      have hsplit : (preIndexed base (some offset) writeback).text =
          "[" ++ (base.name ++ ", " ++ offset.text) ++ "]" ++ writebackMark writeback := by
        simp only [text, String.append_assoc]
      rw [hsplit, symbols_brackets, symbols_comma, symbols_writebackMark,
        Register.symbols_name, offset.symbols_text]
      rfl
  | postIndexed base offset =>
    have hsplit : (postIndexed base offset).text =
        "[" ++ base.name ++ "]" ++ "" ++ ", " ++ offset.text := by
      rw [text, show "], " = "]" ++ "" ++ ", " from rfl]
      simp only [String.append_assoc]
    rw [hsplit, symbols_comma, symbols_brackets, Register.symbols_name, offset.symbols_text]
    rfl
  | unindexed base option =>
    have hoption : symbols (toString option) = [toString option] := symbols_repr option
    have hsplit : (unindexed base option).text = "[" ++ base.name ++ "]" ++ "" ++ ", " ++
        ("\x7b" ++ toString option ++ "\x7d" ++ "") := by
      rw [text, show "], \x7b" = "]" ++ "" ++ ", " ++ "\x7b" from rfl]
      simp only [String.append_assoc, String.append_empty]
    rw [hsplit, symbols_comma, symbols_brackets, symbols_braces, hoption,
      Register.symbols_name]
    rfl

/-- Addresses are told by their symbols. -/
theorem eq_of_symbols {a b : Address} (h : symbols a.text = symbols b.text) : a = b := by
  have hoffset {offset offset' : Offset} (hfirst : offset.firstSymbol = offset'.firstSymbol)
      (hshift : offset.shiftSymbols = offset'.shiftSymbols) : offset = offset' :=
    Offset.eq_of_symbols (by rw [offset.symbols_text, offset'.symbols_text, hfirst, hshift])
  rw [a.symbols_text, b.symbols_text, List.cons.injEq, List.cons.injEq] at h
  obtain ⟨-, hbase, hoffsets⟩ := h
  have hbase := Register.name_injective hbase
  rcases a with ⟨base, _ | offset, writeback⟩ | ⟨base, offset⟩ | ⟨base, option⟩ <;>
    rcases b with ⟨base', _ | offset', writeback'⟩ | ⟨base', offset'⟩ | ⟨base', option'⟩ <;>
    obtain rfl : base = base' := hbase <;>
    simp only [offsetSymbols, List.cons.injEq, List.cons_ne_nil, List.nil_eq,
      Offset.firstSymbol_ne_empty, (Offset.firstSymbol_ne_empty _).symm, false_and, and_false,
      true_and, and_true] at hoffsets
  case preIndexed.none.preIndexed.none => rw [writebackMark_injective hoffsets]
  case preIndexed.some.preIndexed.some =>
    obtain ⟨hfirst, hrest⟩ := hoffsets
    obtain ⟨hshift, hmark⟩ := List.append_inj' hrest rfl
    rw [hoffset hfirst hshift, writebackMark_injective (List.cons.inj hmark).1]
  case postIndexed.postIndexed => rw [hoffset hoffsets.1 hoffsets.2]
  case unindexed.unindexed => rw [repr_injective hoffsets]

end Address

/-! ## Register lists -/

namespace RegisterList

theorem toList_injective : Function.Injective toList := by
  rintro ⟨a⟩ ⟨b⟩ h
  congr 1
  apply BitVec.eq_of_getLsbD_eq
  intro i hi
  have hmem := congrArg (Register.mk ⟨i, hi⟩ ∈ ·) h
  simp only [mem_toList, eq_iff_iff] at hmem
  exact Bool.eq_iff_iff.mpr hmem

/-- The symbols of names with commas between them are the names and what is between a comma and the
space behind it. -/
theorem filter_symbols_intercalate {names : List String}
    (hnames : ∀ name ∈ names, name ≠ "" ∧ spelled isSymbolChar name = true) :
    (symbols (", ".intercalate names)).filter (· ≠ "") = names := by
  induction names with
  | nil => decide
  | cons name rest ih =>
    rw [List.forall_mem_cons] at hnames
    obtain ⟨⟨hne, hname⟩, hrest⟩ := hnames
    cases rest with
    | nil => simp [symbols_of_spelled hname, hne]
    | cons next rest =>
      rw [String.intercalate_cons_cons, symbols_comma, symbols_of_spelled hname]
      simpa [hne] using ih hrest

/-- Register lists are told by their symbols, also with marks behind them. -/
theorem eq_of_symbols {a b : RegisterList} {mark mark' : String}
    (hmark : spelled isSymbolChar mark = true) (hmark' : spelled isSymbolChar mark' = true)
    (h : symbols (a.text ++ mark) = symbols (b.text ++ mark')) : a = b ∧ mark = mark' := by
  have hnames (list : RegisterList) : ∀ name ∈ list.toList.map Register.name,
      name ≠ "" ∧ spelled isSymbolChar name = true := by
    intro name hname
    obtain ⟨r, -, rfl⟩ := List.mem_map.mp hname
    exact ⟨r.operandText_name.ne_empty, r.spelled_name⟩
  rw [text, text, symbols_braces, symbols_braces, symbols_of_spelled hmark,
    symbols_of_spelled hmark', List.cons.injEq] at h
  obtain ⟨hlist, hlast⟩ := List.append_inj' h.2 rfl
  have hall := congrArg (List.filter (· ≠ "")) hlist
  rw [filter_symbols_intercalate (hnames a), filter_symbols_intercalate (hnames b)] at hall
  have hregisters := (List.map_injective_iff.mpr Register.name_injective) hall
  exact ⟨toList_injective hregisters, (List.cons.inj hlast).1⟩

end RegisterList

end ArmListing
