import ArmListing.Text.Blank

/-!
# ArmListing.Proofs.Text.Blank

**Trimming** takes blanks and nothing else: what is left of a text stays as it
is, whatever stands in front of it (`trimEnd_append`).

A blank between two texts keeps their **words** apart (`words_append_cons`). So
the first word is there before the rest is looked at (`words_append`), and a text
has the words that it has when it is trimmed (`words_trimStart`,
`words_trimEnd`). It does not matter how many blanks there are
(`words_append_blanks`), and words that are written with spaces between them are
read back (`words_intercalate`).
-/

namespace ArmListing.Text

variable {c : Char} {word text front back : List Char}

/-! ### Trimming -/

theorem isBlank_of_mem_replicate (hc : isBlank c = true) {n : Nat} :
    ∀ d ∈ List.replicate n c, isBlank d = true := by
  intro d hd
  rw [List.eq_of_mem_replicate hd]
  exact hc

theorem trimStart_cons (hc : isBlank c = true) (text : List Char) :
    trimStart (c :: text) = trimStart text :=
  List.dropWhile_cons_of_pos hc

theorem trimStart_cons_of_not (hc : isBlank c = false) (text : List Char) :
    trimStart (c :: text) = c :: text :=
  List.dropWhile_cons_of_neg (Bool.eq_false_iff.mp hc)

theorem trimStart_append_of_blank (h : ∀ c ∈ front, isBlank c = true) (text : List Char) :
    trimStart (front ++ text) = trimStart text := by
  rw [trimStart, List.dropWhile_append_of_pos h]
  rfl

/-- A text that does not start with a blank stays as it is. -/
theorem trimStart_of_head (h : ∀ c ∈ text.head?, isBlank c = false) : trimStart text = text := by
  cases text with
  | nil => rfl
  | cons c rest => exact trimStart_cons_of_not (h c rfl) rest

theorem length_takeWhile_add (text : List Char) :
    (text.takeWhile isBlank).length + (trimStart text).length = text.length := by
  rw [trimStart, ← List.length_append, List.takeWhile_append_dropWhile]

theorem trimEnd_of_last (h : ∀ c ∈ text.getLast?, isBlank c = false) : trimEnd text = text := by
  rw [← List.head?_reverse] at h
  have hreverse := trimStart_of_head h
  unfold trimStart at hreverse
  rw [trimEnd, hreverse, List.reverse_reverse]

/-- Nothing is cut off where there are no blanks. -/
theorem trim_of_not_blank (h : ∀ c ∈ text, isBlank c = false) : trim text = text := by
  rw [trim, trimStart_of_head fun c hc => h c (List.mem_of_mem_head? hc),
    trimEnd_of_last fun c hc => h c (List.mem_of_mem_getLast? hc)]

theorem trimEnd_append_of_blank (h : ∀ c ∈ back, isBlank c = true) (text : List Char) :
    trimEnd (text ++ back) = trimEnd text := by
  have hreverse : ∀ c ∈ back.reverse, isBlank c = true := fun c hc => h c (List.mem_reverse.mp hc)
  rw [trimEnd, List.reverse_append, List.dropWhile_append_of_pos hreverse]
  rfl

/-- Where something is left of the end of a text, the front of it is not touched. -/
theorem trimEnd_append (h : trimEnd text ≠ []) (front : List Char) :
    trimEnd (front ++ text) = front ++ trimEnd text := by
  have hleft : ¬(text.reverse.dropWhile isBlank).isEmpty = true := by
    intro hempty
    exact h (by rw [trimEnd, List.isEmpty_iff.mp hempty]; rfl)
  rw [trimEnd, List.reverse_append, List.dropWhile_append, if_neg hleft, List.reverse_append,
    List.reverse_reverse]
  rfl

/-- What is cut off behind are blanks. -/
theorem eq_trimEnd_append (text : List Char) :
    ∃ blanks, (∀ c ∈ blanks, isBlank c = true) ∧ text = trimEnd text ++ blanks := by
  refine ⟨(text.reverse.takeWhile isBlank).reverse, fun c hc => ?_, ?_⟩
  · exact List.all_eq_true.mp List.all_takeWhile c (List.mem_reverse.mp hc)
  · rw [trimEnd, ← List.reverse_append, List.takeWhile_append_dropWhile, List.reverse_reverse]

theorem trimEnd_cons (hc : isBlank c = false) (text : List Char) :
    trimEnd (c :: text) = c :: trimEnd text := by
  by_cases hnil : trimEnd text = []
  · obtain ⟨blanks, hblanks, htext⟩ := eq_trimEnd_append text
    rw [hnil, List.nil_append] at htext
    have hsingle : trimEnd [c] = [c] := trimEnd_of_last (by simpa using hc)
    rw [hnil, htext]
    show trimEnd ([c] ++ blanks) = [c]
    rw [trimEnd_append_of_blank hblanks, hsingle]
  · exact trimEnd_append hnil [c]

/-- What stands in front of a character that is no blank is not touched. -/
theorem trimEnd_append_cons (hc : isBlank c = false) (front text : List Char) :
    trimEnd (front ++ c :: text) = front ++ c :: trimEnd text := by
  have hcons := trimEnd_cons hc text
  rw [trimEnd_append (by rw [hcons]; exact List.cons_ne_nil _ _), hcons]

theorem trim_append_of_blank (h : ∀ c ∈ back, isBlank c = true) (text : List Char) :
    trim (text ++ back) = trim text := by
  induction text with
  | nil =>
    have hback := trimStart_append_of_blank h []
    rw [List.append_nil] at hback
    rw [trim, trim, List.nil_append, hback]
  | cons c text ih =>
    rw [List.cons_append, trim, trim]
    cases hc : isBlank c with
    | true =>
      rw [trimStart_cons hc, trimStart_cons hc]
      exact ih
    | false =>
      rw [trimStart_cons_of_not hc, trimStart_cons_of_not hc, ← List.cons_append,
        trimEnd_append_of_blank h]

theorem mem_of_mem_trimEnd {c : Char} {text : List Char} (h : c ∈ trimEnd text) : c ∈ text := by
  obtain ⟨blanks, -, htext⟩ := eq_trimEnd_append text
  rw [htext]
  exact List.mem_append_left blanks h

theorem trim_trimEnd (text : List Char) : trim (trimEnd text) = trim text := by
  obtain ⟨blanks, hblanks, htext⟩ := eq_trimEnd_append text
  conv => rhs; rw [htext, trim_append_of_blank hblanks]

/-- It does not matter which end is trimmed first. -/
theorem trimStart_trimEnd (text : List Char) : trimStart (trimEnd text) = trim text := by
  induction text with
  | nil => rfl
  | cons c text ih =>
    rw [trim]
    cases hc : isBlank c with
    | false => rw [trimStart_cons_of_not hc, trimEnd_cons hc, trimStart_cons_of_not hc]
    | true =>
      rw [trimStart_cons hc]
      by_cases hnil : trimEnd text = []
      · -- nothing is left of the whole text either
        obtain ⟨blanks, hblanks, htext⟩ := eq_trimEnd_append text
        have hall : trimEnd ([] ++ c :: blanks) = trimEnd [] :=
          trimEnd_append_of_blank (List.forall_mem_cons.mpr ⟨hc, hblanks⟩) []
        rw [hnil, List.nil_append] at htext
        rw [hnil] at ih
        rw [htext] at ih ⊢
        exact (congrArg trimStart hall).trans ih
      · have hfront : trimEnd (c :: text) = c :: trimEnd text := trimEnd_append hnil [c]
        rw [hfront, trimStart_cons hc]
        exact ih

theorem trimStart_append_cons (hc : isBlank c = false) (front back : List Char) :
    trimStart (front ++ c :: back) = trimStart front ++ c :: back := by
  induction front with
  | nil => exact trimStart_cons_of_not hc back
  | cons d front ih =>
    rw [List.cons_append]
    cases hd : isBlank d with
    | true => rw [trimStart_cons hd, trimStart_cons hd, ih]
    | false => rw [trimStart_cons_of_not hd, trimStart_cons_of_not hd, List.cons_append]

/-- Both ends are trimmed on their own, if something stands between them. -/
theorem trim_append_cons (hc : isBlank c = false) (front back : List Char) :
    trim (front ++ c :: back) = trimStart front ++ c :: trimEnd back := by
  rw [trim, trimStart_append_cons hc, trimEnd_append_cons hc]

theorem trim_trimStart (text : List Char) : trim (trimStart text) = trim text := by
  induction text with
  | nil => rfl
  | cons c rest ih =>
    cases hc : isBlank c with
    | true =>
      rw [trimStart_cons hc, ih, trim, trim, trimStart_cons hc]
    | false => rw [trimStart_cons_of_not hc]

theorem trim_trim (text : List Char) : trim (trim text) = trim text := by
  show trim (trimEnd (trimStart text)) = trim text
  rw [trim_trimEnd, trim_trimStart]

theorem mem_of_mem_trim {c : Char} (h : c ∈ trim text) : c ∈ text :=
  (List.dropWhile_sublist _).subset (mem_of_mem_trimEnd h)

/-- Nothing is left of blanks, and of nothing else. -/
theorem trim_eq_nil_iff : trim text = [] ↔ ∀ c ∈ text, isBlank c = true := by
  constructor
  · intro h c hmem
    cases hc : isBlank c with
    | true => rfl
    | false =>
      obtain ⟨front, back, rfl⟩ := List.append_of_mem hmem
      rw [trim_append_cons hc] at h
      exact absurd (List.append_eq_nil_iff.mp h).2 (List.cons_ne_nil _ _)
  · intro h
    exact trim_append_of_blank h []

theorem length_trimEnd_le (text : List Char) : (trimEnd text).length ≤ text.length := by
  obtain ⟨blanks, -, htext⟩ := eq_trimEnd_append text
  have hlength := congrArg List.length htext
  rw [List.length_append] at hlength
  omega

/-- A text that is trimmed has no blank in front, and none behind. -/
theorem trimStart_of_trim (h : trim text = text) : trimStart text = text := by
  have hsuffix : trimStart text <:+ text := List.dropWhile_suffix _
  have hle := length_trimEnd_le (trimStart text)
  rw [← trim, h] at hle
  exact hsuffix.eq_of_length (Nat.le_antisymm hsuffix.length_le hle)

theorem trimEnd_of_trim (h : trim text = text) : trimEnd text = text := by
  have hstart := trimStart_of_trim h
  rwa [trim, hstart] at h

/-! ### Words -/

/-- A blank ends the word that has been gathered. -/
theorem wordsFrom_cons (hc : isBlank c = true) (start text : List Char) :
    wordsFrom start (c :: text) = wordsFrom start [] ++ words text := by
  show (if isBlank c then _ else _) = _
  rw [if_pos hc, wordsFrom]
  split <;> rfl

theorem wordsFrom_cons_of_not (hc : isBlank c = false) (start text : List Char) :
    wordsFrom start (c :: text) = wordsFrom (c :: start) text := by
  rw [wordsFrom, if_neg (Bool.eq_false_iff.mp hc)]

/-- Characters that are not blank are gathered. -/
theorem wordsFrom_append (h : ∀ c ∈ word, isBlank c = false) (start text : List Char) :
    wordsFrom start (word ++ text) = wordsFrom (word.reverse ++ start) text := by
  induction word generalizing start with
  | nil => rfl
  | cons c word ih =>
    rw [List.forall_mem_cons] at h
    rw [List.cons_append, wordsFrom_cons_of_not h.1, ih h.2, List.reverse_cons, List.append_assoc]
    rfl

theorem wordsFrom_append_cons (hc : isBlank c = true) (start front back : List Char) :
    wordsFrom start (front ++ c :: back) = wordsFrom start front ++ words back := by
  induction front generalizing start with
  | nil => exact wordsFrom_cons hc start back
  | cons d front ih =>
    rw [List.cons_append]
    cases hd : isBlank d with
    | true =>
      rw [wordsFrom_cons hd, wordsFrom_cons hd, words, ih, List.append_assoc]
      rfl
    | false => rw [wordsFrom_cons_of_not hd, wordsFrom_cons_of_not hd, ih]

/-- **Texts with a blank between them have their words behind each other.** -/
theorem words_append_cons (hc : isBlank c = true) (front back : List Char) :
    words (front ++ c :: back) = words front ++ words back :=
  wordsFrom_append_cons hc [] front back

theorem words_cons (hc : isBlank c = true) (text : List Char) : words (c :: text) = words text :=
  words_append_cons hc [] text

theorem words_concat (hc : isBlank c = true) (text : List Char) :
    words (text ++ [c]) = words text := by
  rw [words_append_cons hc]
  exact List.append_nil _

/-- Without a blank there is one word. -/
theorem words_eq_singleton (hne : word ≠ []) (h : ∀ c ∈ word, isBlank c = false) :
    words word = [word] := by
  have hgathered := wordsFrom_append h [] []
  rw [List.append_nil, List.append_nil] at hgathered
  rw [words, hgathered, wordsFrom, List.reverse_reverse, if_neg]
  rwa [List.isEmpty_reverse, List.isEmpty_iff]

/-- The first word ends at the first blank. -/
theorem words_append (hne : word ≠ []) (h : ∀ c ∈ word, isBlank c = false)
    (hc : isBlank c = true) (text : List Char) :
    words (word ++ c :: text) = word :: words text := by
  rw [words_append_cons hc, words_eq_singleton hne h, List.singleton_append]

/-- Blanks in front do not matter. -/
theorem words_blanks_append (h : ∀ c ∈ front, isBlank c = true) (text : List Char) :
    words (front ++ text) = words text := by
  induction front with
  | nil => rfl
  | cons c front ih =>
    rw [List.forall_mem_cons] at h
    rw [List.cons_append, words_cons h.1, ih h.2]

theorem words_append_of_blank (h : ∀ c ∈ back, isBlank c = true) (text : List Char) :
    words (text ++ back) = words text := by
  induction back generalizing text with
  | nil => rw [List.append_nil]
  | cons c back ih =>
    rw [List.forall_mem_cons] at h
    rw [List.append_cons, ih h.2, words_concat h.1]

theorem words_trimStart (text : List Char) : words (trimStart text) = words text := by
  have hblanks : ∀ c ∈ text.takeWhile isBlank, isBlank c = true :=
    List.all_eq_true.mp List.all_takeWhile
  rw [← words_blanks_append hblanks, trimStart, List.takeWhile_append_dropWhile]

theorem words_trimEnd (text : List Char) : words (trimEnd text) = words text := by
  obtain ⟨blanks, hblanks, htext⟩ := eq_trimEnd_append text
  conv => rhs; rw [htext, words_append_of_blank hblanks]

/-- Between two texts it does not matter how many blanks there are, and what blanks they are. -/
theorem words_append_blanks {blanks : List Char} (hne : blanks ≠ [])
    (h : ∀ c ∈ blanks, isBlank c = true) (front back : List Char) :
    words (front ++ blanks ++ back) = words front ++ words back := by
  obtain ⟨c, blanks, rfl⟩ := List.exists_cons_of_ne_nil hne
  obtain ⟨hc, hblanks⟩ := List.forall_mem_cons.mp h
  rw [List.append_assoc, List.cons_append, words_append_cons hc, words_blanks_append hblanks]

/-- What a text is cut into: a word is not empty, and there is no blank in it. -/
structure IsWord (word : List Char) : Prop where
  ne_nil : word ≠ []
  not_blank : ∀ c ∈ word, isBlank c = false

theorem isWord_of_mem_wordsFrom {start : List Char} (hstart : ∀ c ∈ start, isBlank c = false)
    (h : word ∈ wordsFrom start text) : IsWord word := by
  have hgathered : ∀ {start : List Char}, (∀ c ∈ start, isBlank c = false) →
      word ∈ wordsFrom start [] → IsWord word := by
    intro start hstart h
    rw [wordsFrom] at h
    split at h
    case isTrue => contradiction
    case isFalse hne =>
      rw [List.mem_singleton.mp h]
      refine ⟨fun hnil => hne (List.isEmpty_iff.mpr (List.reverse_eq_nil_iff.mp hnil)), ?_⟩
      exact fun c hc => hstart c (List.mem_reverse.mp hc)
  induction text generalizing start with
  | nil => exact hgathered hstart h
  | cons c text ih =>
    cases hc : isBlank c with
    | true =>
      rw [wordsFrom_cons hc] at h
      rcases List.mem_append.mp h with hmem | hmem
      · exact hgathered hstart hmem
      · exact ih (List.forall_mem_nil _) hmem
    | false =>
      rw [wordsFrom_cons_of_not hc] at h
      exact ih (List.forall_mem_cons.mpr ⟨hc, hstart⟩) h

theorem isWord_of_mem_words (h : word ∈ words text) : IsWord word :=
  isWord_of_mem_wordsFrom (List.forall_mem_nil _) h

/-- **Words are read back** when they are written with a space between them. -/
theorem words_intercalate {all : List (List Char)} (h : ∀ word ∈ all, IsWord word) :
    words ([' '].intercalate all) = all := by
  induction all with
  | nil => rfl
  | cons word all ih =>
    obtain ⟨hword, hall⟩ := List.forall_mem_cons.mp h
    cases all with
    | nil =>
      rw [List.intercalate_singleton, words_eq_singleton hword.ne_nil hword.not_blank]
    | cons next all =>
      rw [List.intercalate_cons_cons, List.append_assoc, List.singleton_append,
        words_append hword.ne_nil hword.not_blank rfl, ih hall]

end ArmListing.Text
