import Mathlib.Algebra.GroupWithZero.Nat
import ArmListing.Proofs.Statistics

/-!
# ArmListing.Proofs.Statistics.Counts

**Counts by key.** Lines are counted by their keys and by nothing else
(`foldl_addLine`), so what is known of a text is the list of its keys (`keys`):
a key has been counted as often as it occurs there (`get_ofListing`), the total
is their number (`total_ofListing`), and texts with the same keys have the same
statistics (`ofListing_congr`).

The counts are kept in ascending order of their keys (`Ascending`). This is why
a look-up, which takes the first entry of a key, finds the only one.
-/

namespace ArmListing.Statistics

variable {key k : String} {counts : List (String × Nat)}

/-! ### The order of the entries -/

/-- The keys ascend, so that none of them stands twice. -/
def Ascending (counts : List (String × Nat)) : Prop := counts.Pairwise fun a b => a.1 < b.1

/-- Counting a key adds no entry but that of the key. -/
theorem fst_of_mem_bump {entry : String × Nat} (h : entry ∈ bump key counts) :
    entry.1 = key ∨ ∃ old ∈ counts, old.1 = entry.1 := by
  fun_induction bump key counts with
  | case1 => exact .inl (congrArg Prod.fst (List.mem_singleton.mp h))
  | case2 k n rest hlt =>
    rcases List.mem_cons.mp h with rfl | hold
    · exact .inl rfl
    · exact .inr ⟨entry, hold, rfl⟩
  | case3 n rest hle =>
    rcases List.mem_cons.mp h with rfl | hold
    · exact .inl rfl
    · exact .inr ⟨entry, List.mem_cons_of_mem _ hold, rfl⟩
  | case4 k n rest hle hne ih =>
    rcases List.mem_cons.mp h with rfl | hrest
    · exact .inr ⟨_, List.mem_cons_self, rfl⟩
    · rcases ih hrest with hkey | ⟨old, hold, hsame⟩
      · exact .inl hkey
      · exact .inr ⟨old, List.mem_cons_of_mem _ hold, hsame⟩

theorem ascending_bump (h : Ascending counts) : Ascending (bump key counts) := by
  fun_induction bump key counts with
  | case1 => exact List.pairwise_singleton ..
  | case2 k n rest hlt =>
    refine List.pairwise_cons.mpr ⟨fun entry hentry => ?_, h⟩
    rcases List.mem_cons.mp hentry with rfl | hbehind
    · exact hlt
    · exact String.lt_trans hlt ((List.pairwise_cons.mp h).1 entry hbehind)
  | case3 n rest hle => exact List.pairwise_cons.mpr (List.pairwise_cons.mp h)
  | case4 k n rest hle hne ih =>
    obtain ⟨hfirst, hrest⟩ := List.pairwise_cons.mp h
    refine List.pairwise_cons.mpr ⟨fun entry hentry => ?_, ih hrest⟩
    rcases fst_of_mem_bump hentry with hkey | ⟨old, hold, hsame⟩
    · rw [hkey]
      exact Std.lt_of_le_of_ne (String.not_lt.mp hle) (Ne.symm hne)
    · exact hsame ▸ hfirst old hold

/-! ### Single counts -/

@[simp] theorem countIn_nil (k : String) : countIn [] k = 0 := rfl

theorem countIn_cons (key : String) (n : Nat) (rest : List (String × Nat)) (k : String) :
    countIn ((key, n) :: rest) k = if key = k then n else countIn rest k := by
  unfold countIn
  by_cases hk : key = k
  · rw [hk, List.lookup_cons_self, if_pos rfl]
    rfl
  · rw [List.lookup_cons, beq_false_of_ne (Ne.symm hk), if_neg hk]

/-- A key without an entry has not been counted. -/
theorem countIn_eq_zero (h : ∀ entry ∈ counts, entry.1 ≠ k) : countIn counts k = 0 := by
  induction counts with
  | nil => rfl
  | cons first rest ih =>
    obtain ⟨hfirst, hrest⟩ := List.forall_mem_cons.mp h
    rw [countIn_cons, if_neg hfirst, ih hrest]

/-- A key in front of all others has not been counted. -/
theorem countIn_eq_zero_of_lt {n : Nat} (h : Ascending ((key, n) :: counts)) (hlt : k < key) :
    countIn ((key, n) :: counts) k = 0 := by
  apply countIn_eq_zero
  intro entry hentry heq
  rcases List.mem_cons.mp hentry with rfl | hbehind
  · exact String.lt_irrefl _ (heq ▸ hlt)
  · have hkey := (List.pairwise_cons.mp h).1 entry hbehind
    exact String.lt_irrefl _ (heq ▸ String.lt_trans hlt hkey)

/-- **Counting a key** raises its count and no other. -/
theorem countIn_bump (h : Ascending counts) :
    countIn (bump key counts) k = countIn counts k + if key = k then 1 else 0 := by
  fun_induction bump key counts with
  | case1 => rw [countIn_cons, countIn_nil, Nat.zero_add]
  | case2 first n rest hlt =>
    rw [countIn_cons key]
    split
    case isTrue hk => rw [countIn_eq_zero_of_lt h (hk ▸ hlt)]
    case isFalse => rfl
  | case3 n rest hle =>
    rw [countIn_cons, countIn_cons]
    split <;> rfl
  | case4 first n rest hle hne ih =>
    rw [countIn_cons, countIn_cons, ih (List.pairwise_cons.mp h).2]
    split
    case isTrue hk => rw [if_neg fun hkey => hne (hkey.trans hk.symm), Nat.add_zero]
    case isFalse => rfl

/-! ### Counting lines -/

/-- The sum of all counts. -/
def sumOf (counts : List (String × Nat)) : Nat := (counts.map Prod.snd).sum

/-- Counting a key raises the sum. -/
theorem sumOf_bump (key : String) (counts : List (String × Nat)) :
    sumOf (bump key counts) = sumOf counts + 1 := by
  fun_induction bump key counts with
  | case1 => rfl
  | case2 k n rest hlt => exact Nat.add_comm 1 _
  | case3 n rest hle => exact Nat.add_right_comm n 1 _
  | case4 k n rest hle hne ih => exact congrArg (n + ·) ih

/-- A line is counted if it has a key. -/
theorem addLine_fst (s : Statistics) (line : List Char) :
    (s.addLine line).1 = (keyOfLine? line).isSome := by
  unfold addLine
  cases keyOfLine? line <;> rfl

/-- `counts`, with some keys counted one after the other. -/
def bumpAll (counts : List (String × Nat)) (keys : List String) : List (String × Nat) :=
  keys.foldl (fun counts key => bump key counts) counts

theorem countIn_bumpAll (h : Ascending counts) (keys : List String) :
    countIn (bumpAll counts keys) k = countIn counts k + keys.count k := by
  induction keys generalizing counts with
  | nil => rfl
  | cons key rest ih =>
    show countIn (bumpAll (bump key counts) rest) k = _
    rw [ih (ascending_bump h), countIn_bump h, List.count_cons, Nat.add_right_comm, Nat.add_assoc]
    simp only [beq_iff_eq]

theorem sumOf_bumpAll (counts : List (String × Nat)) (keys : List String) :
    sumOf (bumpAll counts keys) = sumOf counts + keys.length := by
  induction keys generalizing counts with
  | nil => rfl
  | cons key rest ih =>
    show sumOf (bumpAll (bump key counts) rest) = _
    rw [ih, sumOf_bump, List.length_cons, Nat.add_right_comm, Nat.add_assoc]

/-- Of lines, only their keys are counted. -/
theorem foldl_addLine (s : Statistics) (all : List (List Char)) :
    all.foldl (fun s line => (s.addLine line).2) s =
      ⟨bumpAll s.counts (all.filterMap keyOfLine?),
        s.total + (all.filterMap keyOfLine?).length⟩ := by
  induction all generalizing s with
  | nil => rfl
  | cons line rest ih =>
    rw [List.foldl_cons, ih, List.filterMap_cons, addLine]
    cases keyOfLine? line with
    | none => rfl
    | some key =>
      show (⟨_, s.total + 1 + _⟩ : Statistics) = ⟨_, s.total + (_ + 1)⟩
      rw [Nat.add_right_comm, Nat.add_assoc]
      rfl

/-- **The statistics of lines are the counts of their keys**, and the number of these. -/
theorem ofLines_eq (all : List (List Char)) :
    ofLines all =
      ⟨bumpAll [] (all.filterMap keyOfLine?), (all.filterMap keyOfLine?).length⟩ := by
  rw [ofLines, foldl_addLine, Nat.zero_add]

/-- The keys of the lines of a text. -/
def keys (text : List Char) : List String := (Text.lines text).filterMap keyOfLine?

theorem ofListing_eq (text : String) :
    ofListing text = ⟨bumpAll [] (keys text.toList), (keys text.toList).length⟩ :=
  ofLines_eq (Text.lines text.toList)

theorem ofListing_congr {first second : String} (h : keys first.toList = keys second.toList) :
    ofListing first = ofListing second := by
  rw [ofListing_eq, ofListing_eq, h]

/-- A key has been counted as often as it occurs. -/
theorem get_ofListing (text : String) (k : String) :
    (ofListing text).get k = (keys text.toList).count k := by
  rw [ofListing_eq, get, countIn_bumpAll List.Pairwise.nil, countIn_nil, Nat.zero_add]

/-- The total is the number of keys. -/
theorem total_ofListing (text : String) :
    (ofListing text).total = (keys text.toList).length := by
  rw [ofListing_eq]

/-- Texts behind each other have their keys behind each other. -/
theorem keys_append {front : List Char} (h : Text.endsLine front = true) (rest : List Char) :
    keys (front ++ rest) = keys front ++ keys rest := by
  rw [keys, Text.lines_append_of_endsLine h, List.filterMap_append]
  rfl

/-- A line without a key can be left out. -/
theorem keys_cons_line {line : List Char} (h : '\n' ∉ line) (hkey : keyOfLine? line = none)
    (rest : List Char) : keys (line ++ '\n' :: rest) = keys rest := by
  rw [keys, Text.lines_append h, List.filterMap_cons, keyOfLine?_chomp, hkey]
  rfl

/-- Returns at the ends of lines do not matter for the keys. -/
theorem keys_unlines {all : List (List Char)} (h : ∀ line ∈ all, '\n' ∉ line) :
    keys (Text.unlines all) = all.filterMap keyOfLine? := by
  have hchomp : keyOfLine? ∘ Text.chomp = keyOfLine? := by
    funext line
    exact keyOfLine?_chomp line
  rw [keys, Text.lines_unlines h, List.filterMap_map, hchomp]

end ArmListing.Statistics
