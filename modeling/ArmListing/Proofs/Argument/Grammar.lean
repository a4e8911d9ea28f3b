import ArmListing.Job
import ArmListing.Proofs.Argument
import ArmListing.Proofs.Text.Hex
import ArmListing.Proofs.Walk.Tiling

/-!
# ArmListing.Proofs.Argument.Grammar

The **grammar of spans**: what each text is read as, or why it is refused.

Only the start of a text counts. It has one of five forms (`SpanForm`), which say
where the two numbers stand and what is made of them. A number is the value of
its digits, held at the largest offset (`heldValue`). `Span.Reads` adds what
comes before the forms, the texts that are no spans at all, and what comes after
them, the comparison of the two ends.

Behind a colon stands a size. A span with a size holds that many bytes, with one
exception: no bytes from the first one on is the same span as the whole input
(`Span.length_of_size`).
-/

namespace ArmListing

/-! ### Numbers -/

/-- What the digits at the start of a text stand for, or the largest 64-bit number if that is
less. -/
def heldValue (text : List Char) : Nat :=
  min (2 ^ 64 - 1) (Hex.value (text.takeWhile Hex.isDigit))

/-- Holding the number after each digit is holding it after the last one. -/
theorem leadingOffsetFrom_min (number : Nat) (text : List Char) :
    leadingOffsetFrom (min maxOffset number) text =
      min maxOffset (Hex.valueFrom number (text.takeWhile Hex.isDigit)) := by
  induction text generalizing number with
  | nil => rfl
  | cons c rest ih =>
    cases hdigit : Hex.digit? c with
    | none => simp [leadingOffsetFrom, Hex.isDigit, hdigit]
    | some d =>
      have hstep : min (min (min maxOffset number * 16) maxOffset + d) maxOffset =
          min maxOffset (number * 16 + d) := by omega
      simp [leadingOffsetFrom, Hex.isDigit, hdigit, hstep, ih]

theorem leadingOffset_eq (text : List Char) : leadingOffset text = heldValue text := by
  have h := leadingOffsetFrom_min 0 text
  rwa [Nat.min_zero] at h

/-- A number in front of something that is no digit. -/
theorem heldValue_lower {n : Nat} (h : n < 2 ^ 64) {rest : List Char}
    (hrest : ∀ c ∈ rest.head?, Hex.isDigit c = false) :
    heldValue ((Hex.lower n).toList ++ rest) = n := by
  have hdigits : ∀ c ∈ (Hex.lower n).toList, Hex.isDigit c = true := fun _ =>
    Hex.isDigit_of_mem_lower
  have hstop : rest.takeWhile Hex.isDigit = [] := by
    cases rest with
    | nil => rfl
    | cons c rest => exact List.takeWhile_cons_of_neg (by simp [hrest c rfl])
  have hvalue : Hex.value (Hex.lower n).toList = n := by
    rw [Hex.lower, String.toList_ofList, (Hex.value_digits n).1]
  rw [heldValue, List.takeWhile_append_of_pos hdigits, hstop, List.append_nil, hvalue]
  omega

/-! ### Forms -/

/-- The pairs of separators that leave the start of a span out. -/
def spanOpenings : List (List Char) := [['-', '-'], ['-', ':'], [':', '-']]

/-- Whether a text leaves the start out. -/
def OpensSpan (text : List Char) : Prop := ∃ opening ∈ spanOpenings, opening <+: text

instance (text : List Char) : Decidable (OpensSpan text) :=
  inferInstanceAs (Decidable (∃ opening ∈ spanOpenings, opening <+: text))

/-- What a text stands for as long as its ends are not compared. The first separator counts. -/
inductive SpanForm : List Char → Except SpanError Span → Prop
  /-- Two separators and the stop. -/
  | upTo {opening rest : List Char} (hopening : opening ∈ spanOpenings) :
    SpanForm (opening ++ rest) (.ok ⟨0, heldValue rest⟩)
  | noSeparator {text : List Char} (hstop : '-' ∉ text) (hsize : ':' ∉ text) :
    SpanForm text (.error .noSeparator)
  /-- The start, a hyphen and the stop. -/
  | stop {front rest : List Char} (hopen : ¬OpensSpan (front ++ '-' :: rest))
    (hfront : '-' ∉ front ∧ ':' ∉ front) :
    SpanForm (front ++ '-' :: rest) (.ok ⟨heldValue (front ++ '-' :: rest), heldValue rest⟩)
  /-- The start, a colon and the size. -/
  | size {front rest : List Char} (hopen : ¬OpensSpan (front ++ ':' :: rest))
    (hfront : '-' ∉ front ∧ ':' ∉ front)
    (hfits : heldValue (front ++ ':' :: rest) + heldValue rest < 2 ^ 64) :
    SpanForm (front ++ ':' :: rest)
      (.ok ⟨heldValue (front ++ ':' :: rest),
        heldValue (front ++ ':' :: rest) + heldValue rest⟩)
  /-- A start and a size whose sum is no offset. -/
  | overflow {front rest : List Char} (hopen : ¬OpensSpan (front ++ ':' :: rest))
    (hfront : '-' ∉ front ∧ ':' ∉ front)
    (hlarge : 2 ^ 64 ≤ heldValue (front ++ ':' :: rest) + heldValue rest) :
    SpanForm (front ++ ':' :: rest) (.error .sizeOverflow)

variable {front rest chars : List Char}

theorem spanCandidate_of_opening {opening : List Char} (h : opening ∈ spanOpenings) :
    spanCandidate (opening ++ rest) = .ok ⟨0, heldValue rest⟩ := by
  rw [← leadingOffset_eq]
  simp only [spanOpenings, List.mem_cons, List.not_mem_nil, or_false] at h
  rcases h with rfl | rfl | rfl <;> rfl

theorem spanCandidate_of_not_opens (h : ¬OpensSpan chars) :
    spanCandidate chars = spanOfParts chars := by
  unfold spanCandidate
  split
  case h_1 => exact absurd ⟨['-', '-'], by decide, List.prefix_append ['-', '-'] _⟩ h
  case h_2 => exact absurd ⟨['-', ':'], by decide, List.prefix_append ['-', ':'] _⟩ h
  case h_3 => exact absurd ⟨[':', '-'], by decide, List.prefix_append [':', '-'] _⟩ h
  case h_4 => rfl

/-- Each opening starts with a separator. -/
theorem OpensSpan.exists_separator (h : OpensSpan chars) :
    ∃ c rest, (c = '-' ∨ c = ':') ∧ chars = c :: rest := by
  obtain ⟨opening, hopening, rest, rfl⟩ := h
  simp only [spanOpenings, List.mem_cons, List.not_mem_nil, or_false] at hopening
  rcases hopening with rfl | rfl | rfl
  · exact ⟨_, _, .inl rfl, rfl⟩
  · exact ⟨_, _, .inl rfl, rfl⟩
  · exact ⟨_, _, .inr rfl, rfl⟩

theorem dropWhile_of_not_mem (h : '-' ∉ front ∧ ':' ∉ front) :
    (front ++ rest).dropWhile (!isSeparator ·) = rest.dropWhile (!isSeparator ·) := by
  refine List.dropWhile_append_of_pos fun c hc => ?_
  have hhyphen : c ≠ '-' := fun heq => h.1 (heq ▸ hc)
  have hcolon : c ≠ ':' := fun heq => h.2 (heq ▸ hc)
  simp [isSeparator, hhyphen, hcolon]

/-- What stands behind the first colon is a size. -/
theorem spanOfParts_colon (h : '-' ∉ front ∧ ':' ∉ front) :
    spanOfParts (front ++ ':' :: rest) =
      if heldValue (front ++ ':' :: rest) + heldValue rest ≤ maxOffset then
        .ok ⟨heldValue (front ++ ':' :: rest),
          heldValue (front ++ ':' :: rest) + heldValue rest⟩
      else .error .sizeOverflow := by
  rw [spanOfParts, dropWhile_of_not_mem h, ← leadingOffset_eq, ← leadingOffset_eq]
  rfl

/-- Each form is read as it says. -/
theorem spanCandidate_of_form {result : Except SpanError Span} (h : SpanForm chars result) :
    spanCandidate chars = result := by
  cases h with
  | upTo hopening => exact spanCandidate_of_opening hopening
  | noSeparator hstop hsize =>
    have hopen : ¬OpensSpan chars := by
      intro hopens
      obtain ⟨c, rest, rfl | rfl, rfl⟩ := hopens.exists_separator
      · exact hstop List.mem_cons_self
      · exact hsize List.mem_cons_self
    have hdrop : chars.dropWhile (!isSeparator ·) = [] := by
      rw [← List.append_nil chars, dropWhile_of_not_mem ⟨hstop, hsize⟩]
      rfl
    rw [spanCandidate_of_not_opens hopen, spanOfParts, hdrop]
  | stop hopen hfront =>
    rw [spanCandidate_of_not_opens hopen, spanOfParts, dropWhile_of_not_mem hfront,
      ← leadingOffset_eq, ← leadingOffset_eq]
    rfl
  | size hopen hfront hfits =>
    rw [spanCandidate_of_not_opens hopen, spanOfParts_colon hfront]
    exact if_pos (Nat.le_of_lt_succ hfits)
  | overflow hopen hfront hlarge =>
    rw [spanCandidate_of_not_opens hopen, spanOfParts_colon hfront]
    exact if_neg (Nat.not_le_of_lt hlarge)

/-- The first separator of a text, if it has one. -/
theorem exists_first_separator (chars : List Char) :
    ('-' ∉ chars ∧ ':' ∉ chars) ∨ ∃ front rest, ('-' ∉ front ∧ ':' ∉ front) ∧
      (chars = front ++ '-' :: rest ∨ chars = front ++ ':' :: rest) := by
  induction chars with
  | nil => exact .inl ⟨List.not_mem_nil, List.not_mem_nil⟩
  | cons c chars ih =>
    by_cases hhyphen : c = '-'
    · exact .inr ⟨[], chars, ⟨List.not_mem_nil, List.not_mem_nil⟩, .inl (by rw [hhyphen]; rfl)⟩
    by_cases hcolon : c = ':'
    · exact .inr ⟨[], chars, ⟨List.not_mem_nil, List.not_mem_nil⟩, .inr (by rw [hcolon]; rfl)⟩
    have hcons {l : List Char} (h : '-' ∉ l ∧ ':' ∉ l) : '-' ∉ c :: l ∧ ':' ∉ c :: l := by
      simp [h, Ne.symm hhyphen, Ne.symm hcolon]
    rcases ih with hnone | ⟨front, rest, hfront, hchars | hchars⟩
    · exact .inl (hcons hnone)
    · exact .inr ⟨c :: front, rest, hcons hfront, .inl (by rw [hchars]; rfl)⟩
    · exact .inr ⟨c :: front, rest, hcons hfront, .inr (by rw [hchars]; rfl)⟩

/-- Each text has a form. -/
theorem exists_spanForm (chars : List Char) : ∃ result, SpanForm chars result := by
  by_cases hopen : OpensSpan chars
  · obtain ⟨opening, hopening, rest, rfl⟩ := hopen
    exact ⟨_, .upTo hopening⟩
  rcases exists_first_separator chars with hnone | ⟨front, rest, hfront, rfl | rfl⟩
  · exact ⟨_, .noSeparator hnone.1 hnone.2⟩
  · exact ⟨_, .stop hopen hfront⟩
  · rcases Nat.lt_or_ge (heldValue (front ++ ':' :: rest) + heldValue rest) (2 ^ 64) with
      hfits | hlarge
    · exact ⟨_, .size hopen hfront hfits⟩
    · exact ⟨_, .overflow hopen hfront hlarge⟩

theorem spanCandidate_eq_iff {result : Except SpanError Span} :
    spanCandidate chars = result ↔ SpanForm chars result := by
  refine ⟨fun h => ?_, spanCandidate_of_form⟩
  obtain ⟨other, hform⟩ := exists_spanForm chars
  rwa [← h, spanCandidate_of_form hform]

namespace Span

/-! ### Whole texts -/

/-- How a text is read. An empty text and one that starts like a mode are refused, of the others the
first characters have a form, and of a form that gives a span the ends are compared. -/
inductive Reads (text : List Char) : Except SpanError Span → Prop
  | empty (h : text = []) : Reads text (.error .notASpan)
  | slash (h : text.head? = some '/') : Reads text (.error .notASpan)
  | refused {e : SpanError} (hne : text ≠ []) (hslash : text.head? ≠ some '/')
    (h : SpanForm (text.take 31) (.error e)) : Reads text (.error e)
  | reversed {start stop : Nat} (hne : text ≠ []) (hslash : text.head? ≠ some '/')
    (h : SpanForm (text.take 31) (.ok ⟨start, stop⟩)) (horder : 0 < stop ∧ stop < start) :
    Reads text (.error (.stopBeforeStart start stop))
  | ordered {span : Span} (hne : text ≠ []) (hslash : text.head? ≠ some '/')
    (h : SpanForm (text.take 31) (.ok span)) (horder : ¬(0 < span.stop ∧ span.stop < span.start)) :
    Reads text (.ok span)

variable {text : String} {result : Except SpanError Span}

theorem ofArgument_of_reads (h : Reads text.toList result) : ofArgument text = result := by
  cases h with
  | empty h => exact ofArgument_of_empty h
  | slash h => exact ofArgument_of_slash h
  | refused hne hslash h =>
    have hcandidate : spanCandidate (text.toList.take spanLength) = _ := spanCandidate_of_form h
    rw [ofArgument_of_ne hne hslash, hcandidate]
    rfl
  | reversed hne hslash h horder =>
    have hcandidate : spanCandidate (text.toList.take spanLength) = _ := spanCandidate_of_form h
    rw [ofArgument_of_ne hne hslash, hcandidate]
    exact if_pos ⟨Nat.ne_of_gt horder.1, horder.2⟩
  | ordered hne hslash h horder =>
    have hcandidate : spanCandidate (text.toList.take spanLength) = _ := spanCandidate_of_form h
    rw [ofArgument_of_ne hne hslash, hcandidate]
    exact if_neg fun hreversed => horder ⟨Nat.pos_of_ne_zero hreversed.1, hreversed.2⟩

theorem exists_reads (text : List Char) : ∃ result, Reads text result := by
  by_cases hne : text = []
  · exact ⟨_, .empty hne⟩
  by_cases hslash : text.head? = some '/'
  · exact ⟨_, .slash hslash⟩
  obtain ⟨candidate, hform⟩ := exists_spanForm (text.take 31)
  cases candidate with
  | error e => exact ⟨_, .refused hne hslash hform⟩
  | ok span =>
    by_cases horder : 0 < span.stop ∧ span.stop < span.start
    · exact ⟨_, .reversed hne hslash hform horder⟩
    · exact ⟨_, .ordered hne hslash hform horder⟩

theorem ofArgument_eq_iff : ofArgument text = result ↔ Reads text.toList result := by
  refine ⟨fun h => ?_, ofArgument_of_reads⟩
  obtain ⟨other, hreads⟩ := exists_reads text.toList
  rwa [← h, ofArgument_of_reads hreads]

/-- The digits of a number, of which there is a first. -/
theorem exists_lower_eq_cons (n : Nat) :
    ∃ c digits, (Hex.lower n).toList = c :: digits ∧ Hex.isDigit c = true := by
  have hne : (Hex.lower n).toList ≠ [] := by
    rw [Hex.lower, String.toList_ofList]
    exact Nat.toDigits_ne_nil
  obtain ⟨c, digits, hlower⟩ := List.exists_cons_of_ne_nil hne
  exact ⟨c, digits, hlower, Hex.isDigit_of_mem_lower (hlower ▸ List.mem_cons_self)⟩

/-- Two numbers with a hyphen between them have the form that stops behind the hyphen. -/
theorem spanForm_lower {start stop : Nat} (hstart : start < 2 ^ 64) (hstop : stop < 2 ^ 64) :
    SpanForm ((Hex.lower start).toList ++ '-' :: (Hex.lower stop).toList) (.ok ⟨start, stop⟩) := by
  have hnotdigit {c : Char} (hc : c = '-' ∨ c = ':') : Hex.isDigit c = false := by
    rcases hc with rfl | rfl <;> rfl
  have hfront : '-' ∉ (Hex.lower start).toList ∧ ':' ∉ (Hex.lower start).toList := by
    constructor
    · exact fun hmem => absurd (Hex.isDigit_of_mem_lower hmem) (by decide)
    · exact fun hmem => absurd (Hex.isDigit_of_mem_lower hmem) (by decide)
  have hopen : ¬OpensSpan ((Hex.lower start).toList ++ '-' :: (Hex.lower stop).toList) := by
    intro hopens
    obtain ⟨c, digits, hlower, hdigit⟩ := exists_lower_eq_cons start
    obtain ⟨separator, rest, hseparator, htext⟩ := hopens.exists_separator
    rw [hlower] at htext
    rw [(List.cons.inj htext).1, hnotdigit hseparator] at hdigit
    exact Bool.false_ne_true hdigit
  have hfirst : heldValue ((Hex.lower start).toList ++ '-' :: (Hex.lower stop).toList) = start :=
    heldValue_lower hstart fun c hc => hnotdigit (.inl (Option.some.inj hc).symm)
  have hsecond : heldValue (Hex.lower stop).toList = stop := by
    rw [← List.append_nil (Hex.lower stop).toList]
    exact heldValue_lower hstop (by simp)
  have hform := SpanForm.stop hopen hfront
  rwa [hfirst, hsecond] at hform

theorem reads_lower {start stop : Nat} (hle : start ≤ stop) (hstop : stop < 2 ^ 64)
    (hlength : (Hex.lower start).length + (Hex.lower stop).length ≤ 30) :
    Reads (Hex.lower start ++ "-" ++ Hex.lower stop).toList (.ok ⟨start, stop⟩) := by
  have htext : (Hex.lower start ++ "-" ++ Hex.lower stop).toList =
      (Hex.lower start).toList ++ '-' :: (Hex.lower stop).toList := by simp
  have hwhole : ((Hex.lower start).toList ++ '-' :: (Hex.lower stop).toList).take 31 =
      (Hex.lower start).toList ++ '-' :: (Hex.lower stop).toList := by
    apply List.take_of_length_le
    rw [List.length_append, List.length_cons, String.length_toList, String.length_toList]
    omega
  obtain ⟨c, digits, hlower, hdigit⟩ := exists_lower_eq_cons start
  rw [htext]
  refine .ordered (by simp) ?_ ?_ (fun horder => Nat.not_lt_of_le hle horder.2)
  · rw [hlower, List.cons_append, List.head?_cons]
    intro hslash
    rw [Option.some.inj hslash] at hdigit
    exact Bool.false_ne_true hdigit
  · rw [hwhole]
    exact spanForm_lower (Nat.lt_of_le_of_lt hle hstop) hstop

/-- A text is warned of once if it would stop before it starts, and else not at all. -/
theorem warnings_of_reads (s : Settings) (text : String) :
    ∃ warnings, (s.readSpan (some text)).2.warnings = s.warnings ++ warnings ∧
      ((warnings.length = 1 ∧
          ∃ start stop, Reads text.toList (.error (.stopBeforeStart start stop))) ∨
        (warnings = [] ∧
          ¬∃ start stop, Reads text.toList (.error (.stopBeforeStart start stop)))) := by
  simp only [← ofArgument_eq_iff, Settings.readSpan]
  cases hread : ofArgument text with
  | ok span => exact ⟨[], (List.append_nil _).symm, .inr ⟨rfl, by simp⟩⟩
  | error e =>
    refine ⟨e.warning?.toList, rfl, ?_⟩
    cases e with
    | stopBeforeStart start stop => exact .inl ⟨rfl, start, stop, rfl⟩
    | _ => exact .inr ⟨rfl, by simp⟩

/-- **The grammar of spans.** Each text is read in one way, which `Reads` describes. There is one
warning for a text that would stop before it starts and none for any other one. Two offsets, of 64
bits and thirty digits together, with a hyphen between them stand for themselves. -/
theorem ofArgument_grammar :
    (∀ text result, ofArgument text = result ↔ Reads text.toList result) ∧
      (∀ (s : Settings) (text : String),
        ∃ warnings, (s.readSpan (some text)).2.warnings = s.warnings ++ warnings ∧
          ((warnings.length = 1 ∧
              ∃ start stop, Reads text.toList (.error (.stopBeforeStart start stop))) ∨
            (warnings = [] ∧
              ¬∃ start stop, Reads text.toList (.error (.stopBeforeStart start stop))))) ∧
      ∀ start stop, start ≤ stop → stop < 2 ^ 64 →
        (Hex.lower start).length + (Hex.lower stop).length ≤ 30 →
        ofArgument (Hex.lower start ++ "-" ++ Hex.lower stop) = .ok ⟨start, stop⟩ :=
  ⟨fun _ _ => ofArgument_eq_iff, warnings_of_reads,
    fun _ _ hle hstop hlength => ofArgument_of_reads (reads_lower hle hstop hlength)⟩

/-- Thirty digits, and a text that is refused with a warning. -/
theorem ofArgument_grammar_thirty_digits :
    ofArgument (Hex.lower (16 ^ 15 - 2) ++ "-" ++ Hex.lower (16 ^ 15 - 1)) =
        .ok ⟨16 ^ 15 - 2, 16 ^ 15 - 1⟩ ∧
      Reads "20-10".toList (.error (.stopBeforeStart 0x20 0x10)) := by
  obtain ⟨hreads, -, hnumbers⟩ := ofArgument_grammar
  exact ⟨hnumbers _ _ (by decide) (by decide) (by decide), (hreads _ _).mp rfl⟩

/-! ### Spans with a size -/

/-- A form with a size that is read gives the start and the sum of start and size. -/
theorem eq_of_size {text : String} {front rest : List Char} {span : Span}
    (htext : text.toList.take 31 = front ++ ':' :: rest) (hfront : '-' ∉ front ∧ ':' ∉ front)
    (hopen : ¬OpensSpan (front ++ ':' :: rest)) (hread : ofArgument text = .ok span) :
    span = ⟨heldValue (front ++ ':' :: rest),
      heldValue (front ++ ':' :: rest) + heldValue rest⟩ := by
  cases ofArgument_eq_iff.mp hread with
  | ordered hne hslash hform horder =>
    rw [htext, ← spanCandidate_eq_iff, spanCandidate_of_not_opens hopen,
      spanOfParts_colon hfront] at hform
    split at hform
    · exact (Except.ok.inj hform).symm
    · contradiction

/-- A walk lists no more bytes than its span has. -/
theorem length_bytes_le (decoder : Decoder) (target : Target) {data : Array UInt8} {span r : Span}
    (hr : span.resolve? data.size = some r) :
    ∃ w, Walk.start decoder target data span = .ok w ∧ w.offset = r.start ∧
      (w.lines.flatMap (·.encoding.bytes)).length ≤ r.length := by
  have hstop := stop_le_of_resolve? hr
  have hoffset : (Walk.between decoder target data r.start r.stop hstop).offset = r.start :=
    Walk.offset_between (start_le_of_resolve? hr) hstop
  have htiles := Walk.tiles_lines (Walk.between decoder target data r.start r.stop hstop)
  rw [hoffset] at htiles
  refine ⟨_, Walk.start_of_resolve? hr, hoffset, ?_⟩
  rw [htiles.bytes, Array.length_toList, Array.size_extract, length]
  rcases Nat.le_total r.start r.stop with hle | hle
  · have hbounds : _ ∧ _ ≤ r.stop ∧ _ := htiles.bounds hle
    omega
  · have hbehind := htiles.behind hle
    omega

/-- The length of a span that was made of a start and a size. -/
theorem length_resolve?_add {start size total : Nat} {r : Span}
    (hr : (⟨start, start + size⟩ : Span).resolve? total = some r) :
    r.start = start ∧ r.length = if start = 0 ∧ size = 0 then total else size := by
  refine ⟨start_eq_of_resolve? hr, ?_⟩
  obtain ⟨-, hclosed⟩ := Option.ite_none_left_eq_some.mp hr
  obtain rfl := Option.some.inj hclosed
  by_cases hnone : start = 0 ∧ size = 0
  · simp [hnone, length, isOpen]
  · simp [hnone, length, isOpen]

/-- **A size is the number of bytes**, counted from the start, except that no bytes from the first
one on are all of them. A walk over the span does not list more than that. -/
theorem length_of_size {text : String} {front rest : List Char} {span r : Span} {total : Nat}
    (htext : text.toList.take 31 = front ++ ':' :: rest) (hfront : '-' ∉ front ∧ ':' ∉ front)
    (hopen : ¬OpensSpan (front ++ ':' :: rest)) (hread : ofArgument text = .ok span)
    (hr : span.resolve? total = some r) :
    r.start = heldValue (front ++ ':' :: rest) ∧
      r.length = (if heldValue (front ++ ':' :: rest) = 0 ∧ heldValue rest = 0 then total
        else heldValue rest) ∧
      ∀ decoder target data, data.size = total →
        ∃ w, Walk.start decoder target data span = .ok w ∧ w.offset = r.start ∧
          (w.lines.flatMap (·.encoding.bytes)).length ≤ r.length := by
  obtain ⟨hstart, hlength⟩ := length_resolve?_add (eq_of_size htext hfront hopen hread ▸ hr)
  exact ⟨hstart, hlength, fun decoder target _ hsize =>
    length_bytes_le decoder target (hsize ▸ hr)⟩

/-- Eight bytes from an offset on. -/
theorem length_of_size_eight :
    ofArgument "20:8" = .ok ⟨0x20, 0x28⟩ ∧
      (⟨0x20, 0x28⟩ : Span).resolve? 0x100 = some ⟨0x20, 0x28⟩ ∧
      heldValue "20:8".toList = 0x20 ∧ (⟨0x20, 0x28⟩ : Span).length = 8 := by
  have htext : "20:8".toList.take 31 = ['2', '0'] ++ ':' :: ['8'] := rfl
  have hread : ofArgument "20:8" = .ok ⟨0x20, 0x28⟩ := rfl
  have hr : (⟨0x20, 0x28⟩ : Span).resolve? 0x100 = some ⟨0x20, 0x28⟩ := rfl
  obtain ⟨hstart, hlength, -⟩ := length_of_size htext (by decide) (by decide) hread hr
  exact ⟨hread, hr, hstart.symm, hlength⟩

/-- No bytes from the first one on are asked for, and all four are selected. -/
theorem length_ne_size_zero :
    "0:0".toList.take 31 = ['0'] ++ ':' :: ['0'] ∧ ¬OpensSpan (['0'] ++ ':' :: ['0']) ∧
      ofArgument "0:0" = .ok ⟨0, 0⟩ ∧ (⟨0, 0⟩ : Span).resolve? 4 = some ⟨0, 4⟩ ∧
      (⟨0, 4⟩ : Span).length ≠ heldValue ['0'] := by
  decide

end Span

end ArmListing
