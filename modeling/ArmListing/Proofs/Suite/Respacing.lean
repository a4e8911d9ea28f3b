import ArmListing.Proofs.Suite.Independence
import ArmListing.Proofs.Suite.Outcome

/-!
# ArmListing.Proofs.Suite.Respacing

**What the reading of a line takes from the text behind the bytes**: the run of
digits in front of it, which shows that there are no more bytes
(`Scans.replace`), and whether a colon stands in it (`Located.replace`). So a
text that starts with the same digits and brings no colon may stand in its place,
and the line is read as before, with this text (`readLine?_replace`).

The text of a case stands in front of the comment of its line, with nothing but
blanks behind it (`exists_assemblyAt`). Its first blank ends the digits in front,
and no blank is a colon. So blanks in it may be replaced by others, where some are
left (`AssemblyAt.respaced`).
-/

namespace ArmListing.Suite

open Text (trim trimStart trimEnd isBlank)

/-- Whether texts start with the same run of digits. -/
def SameDigitsFirst (first second : List Char) : Prop :=
  first.takeWhile Hex.isDigit = second.takeWhile Hex.isDigit

variable {text front back run rest rest' content body body' : List Char} {bytes : List UInt8}
  {stop : Scan}

/-! ### Starts of texts -/

/-- What a text starts with is there before the end of it is looked at. -/
theorem NoBlankFirst.append (h : NoBlankFirst (front ++ rest)) (hrest : NoBlankFirst rest') :
    NoBlankFirst (front ++ rest') := by
  cases front with
  | nil => exact hrest
  | cons c front => exact h

theorem noDigitFirst_iff : NoDigitFirst text ↔ text.takeWhile Hex.isDigit = [] := by
  cases text with
  | nil => exact iff_of_true noDigitFirst_nil rfl
  | cons c text =>
    cases hc : Hex.isDigit c with
    | true =>
      refine iff_of_false (fun h => ?_) ?_
      · rw [h c rfl] at hc
        contradiction
      · rw [List.takeWhile_cons_of_pos hc]
        exact List.cons_ne_nil _ _
    | false =>
      refine iff_of_true (noDigitFirst_cons hc text) (List.takeWhile_cons_of_neg ?_)
      rw [hc]
      exact Bool.false_ne_true

theorem NoDigitFirst.append (h : NoDigitFirst (front ++ rest))
    (hdigits : SameDigitsFirst rest' rest) : NoDigitFirst (front ++ rest') := by
  cases front with
  | nil =>
    rw [List.nil_append, noDigitFirst_iff] at h ⊢
    exact hdigits.trans h
  | cons c front => exact h

/-- The digits in front of a text that goes on with a blank end there at the latest. -/
theorem takeWhile_append_blanks {blanks : List Char} (hne : blanks ≠ [])
    (h : ∀ c ∈ blanks, isBlank c = true) (front back : List Char) :
    (front ++ blanks ++ back).takeWhile Hex.isDigit = front.takeWhile Hex.isDigit := by
  induction front with
  | nil =>
    obtain ⟨b, blanks, rfl⟩ := List.exists_cons_of_ne_nil hne
    have hb : NoDigitFirst (b :: (blanks ++ back)) :=
      noDigitFirst_cons (isDigit_of_isBlank (h b List.mem_cons_self)) _
    exact noDigitFirst_iff.mp hb
  | cons c front ih =>
    rw [List.append_assoc] at ih
    rw [List.append_assoc, List.cons_append, List.takeWhile_cons, List.takeWhile_cons, ih]

/-! ### Reading another text in the same place -/

/-- The digits that a text starts with lead another text that starts with the same ones. -/
theorem Leads.replace (h : Leads text run rest) (hrest : NoBlankFirst rest')
    (hdigits : SameDigitsFirst rest' (run ++ rest)) :
    ∃ blanks behind, text = blanks ++ (run ++ rest) ∧ rest' = run ++ behind ∧
      Leads (blanks ++ rest') run behind := by
  obtain ⟨⟨blanks, hblanks, hone, htext⟩, hrun, hstop, -⟩ := h
  have htake : rest'.takeWhile Hex.isDigit = run := by
    rw [hdigits, List.takeWhile_append_of_pos hrun, noDigitFirst_iff.mp hstop, List.append_nil]
  have hsplit : rest' = run ++ rest'.dropWhile Hex.isDigit := by
    conv => lhs; rw [← List.takeWhile_append_dropWhile (p := Hex.isDigit) (l := rest'), htake]
  refine ⟨blanks, _, htext, hsplit, ⟨blanks, hblanks, hone, congrArg (blanks ++ ·) hsplit⟩, hrun,
    noneFirst_dropWhile _ _, ?_⟩
  rwa [← hsplit]

/-- **The bytes do not depend on the text behind them**, if the text starts with the same digits. -/
theorem Scans.replace (h : Scans text bytes stop) (hstop : stop = .before rest) :
    ∃ front, text = front ++ rest ∧ ∀ {rest'}, NoBlankFirst rest' → SameDigitsFirst rest' rest →
      Scans (front ++ rest') bytes (.before rest') := by
  induction h with
  | twoBlanks hblanks htwo _ =>
    cases hstop
    exact ⟨_, rfl, fun hrest _ => .twoBlanks hblanks htwo hrest⟩
  | noGroup hrun hlength =>
    cases hstop
    obtain ⟨blanks, -, -, htext⟩ := hrun.eq_append
    refine ⟨blanks, htext, fun {rest'} hrest hdigits => ?_⟩
    obtain ⟨blanks', behind, htext', hbehind, hleads⟩ := hrun.replace hrest hdigits
    have hblanks : blanks = blanks' := List.append_cancel_right (htext.symm.trans htext')
    subst hblanks
    have hscan := Scans.noGroup hleads hlength
    rwa [← hbehind] at hscan
  | @group _ run _ _ _ _ hrun htwo hle hbytes _ ih =>
    obtain ⟨front, rfl, hreplace⟩ := ih hstop
    obtain ⟨⟨blanks, hblanks, hone, rfl⟩, hdigits, hnext, -⟩ := hrun
    refine ⟨blanks ++ (run ++ front), by simp only [List.append_assoc], fun hrest hsame => ?_⟩
    have hne : run ≠ [] := List.ne_nil_of_length_pos (Nat.zero_lt_of_lt htwo)
    have hleads : Leads (blanks ++ (run ++ _)) run _ := ⟨⟨blanks, hblanks, hone, rfl⟩, hdigits,
      hnext.append hsame, noBlankFirst_digits hne hdigits _⟩
    have hscan := Scans.group hleads htwo hle hbytes (hreplace hrest hsame)
    simpa only [List.append_assoc] using hscan
  | tooLarge => cases hstop
  | overrun => cases hstop

/-- **The address does not depend on the text behind it**, if no colon comes into the text. -/
theorem Located.replace {address : Nat} (h : Located content address body) :
    ∃ front, content = front ++ body ∧ ∀ {body'}, NoBlankFirst body' → (':' ∈ body' → ':' ∈ body) →
      Located (front ++ body') address body' := by
  cases h with
  | absent hcolon => exact ⟨[], rfl, fun _ hsame => .absent (mt hsame hcolon)⟩
  | @present head tail _ hcolon haddress =>
    have hblanks : ∀ c ∈ tail.takeWhile isBlank, isBlank c = true :=
      List.all_eq_true.mp List.all_takeWhile
    refine ⟨head ++ ':' :: tail.takeWhile isBlank, ?_, fun {body'} hbody _ => ?_⟩
    · rw [List.append_assoc, List.cons_append, trimStart, List.takeWhile_append_dropWhile]
    · have hlocated : Located (head ++ ':' :: (tail.takeWhile isBlank ++ body')) _ _ :=
        .present hcolon haddress
      rw [Text.trimStart_append_of_blank hblanks, Text.trimStart_of_head hbody] at hlocated
      rwa [List.append_assoc, List.cons_append]

theorem Scans.noBlankFirst (h : Scans text bytes stop) (hstop : stop = .before rest) :
    NoBlankFirst rest := by
  induction h with
  | twoBlanks _ _ hrest =>
    cases hstop
    exact hrest
  | noGroup hrun _ =>
    cases hstop
    exact hrun.noBlankFirst
  | group _ _ _ _ _ ih => exact ih hstop
  | tooLarge => cases hstop
  | overrun => cases hstop

theorem Located.noBlankFirst {address : Nat} (h : Located content address body)
    (hcontent : NoBlankFirst content) : NoBlankFirst body := by
  cases h with
  | absent => exact hcontent
  | present => exact noneFirst_dropWhile isBlank _

/-! ### Lines with another text -/

section Lines

variable {number : Nat} {line : List Char} {c : Case}

theorem noBlankFirst_contentOf (line : List Char) : NoBlankFirst (contentOf line) := by
  rw [contentOf, ← Text.trimStart_trimEnd]
  exact noneFirst_dropWhile isBlank _

/-- A case that is found in a line is its outcome. -/
theorem outcome_of_readLine? (h : readLine? number line = some (.found, c)) :
    Outcome number line .found (some c) := by
  rw [readLine?_eq] at h
  obtain ⟨-, hfill⟩ := Option.ite_none_left_eq_some.mp h
  obtain ⟨reading, case?, houtcome⟩ := exists_outcome number line
  obtain ⟨hreading, hcase⟩ := fill_of_outcome houtcome
  rw [Option.some.inj hfill] at hreading hcase
  subst hreading hcase
  exact houtcome

theorem readLine?_of_outcome (hcase : hasCase line = true)
    (h : Outcome number line .found (some c)) : readLine? number line = some (.found, c) := by
  obtain ⟨hreading, hfound⟩ := fill_of_outcome h
  rw [readLine?_of_hasCase hcase]
  generalize fill _ _ = filled at hreading hfound
  obtain ⟨reading, c'⟩ := filled
  obtain rfl : reading = .found := hreading
  rw [Option.some.inj hfound]

/-- **A line is read with another text** behind the bytes, if the text starts with the same digits
and brings no colon into the line. -/
theorem readLine?_replace (h : readLine? number line = some (.found, c)) :
    NoBlankFirst c.assembly.toList ∧ ∃ front, contentOf line = front ++ c.assembly.toList ∧
      ∀ {line' rest'}, contentOf line' = front ++ rest' → commentOf line' = commentOf line →
        NoBlankFirst rest' → rest' ≠ [] → SameDigitsFirst rest' c.assembly.toList →
        (':' ∈ rest' → ':' ∈ c.assembly.toList) →
        readLine? number line' = some (.found, { c with assembly := String.ofList rest' }) := by
  have houtcome := outcome_of_readLine? h
  generalize hreading : Reading.found = reading at houtcome
  generalize hcase : some c = case? at houtcome
  cases houtcome with
  | invalidAddress => cases hreading
  | invalidBytes => cases hreading
  | overrun => cases hreading
  | noBytes => cases hreading
  | @found address _ rest _ hlocated hscan hbytes =>
    cases hcase
    dsimp only
    rw [String.toList_ofList]
    have hbody := hlocated.noBlankFirst (noBlankFirst_contentOf line)
    obtain ⟨label, hcontent, hlocated'⟩ := hlocated.replace
    obtain ⟨front, rfl, hscan'⟩ := hscan.replace rfl
    refine ⟨hscan.noBlankFirst rfl, label ++ front, by rw [hcontent, List.append_assoc], ?_⟩
    intro line' rest' hcontent' hcomment hrest hne hdigits hcolon
    have hcase : hasCase line' = true := by
      rw [← contentOf_ne_nil_iff, hcontent']
      exact List.append_ne_nil_of_right_ne_nil _ hne
    have hcolon' : ':' ∈ front ++ rest' → ':' ∈ front ++ rest := by
      rw [List.mem_append, List.mem_append]
      exact Or.imp_right hcolon
    have hlocated'' : Located (contentOf line') address (front ++ rest') := by
      rw [hcontent', List.append_assoc]
      exact hlocated' (hbody.append hrest) hcolon'
    have hfound : Outcome number line' .found (some _) :=
      .found hlocated'' (hscan' hrest hdigits) hbytes
    rw [hcomment] at hfound
    exact readLine?_of_outcome hcase hfound

end Lines

/-! ### Blanks in a text -/

/-- Whether a text ends without a blank, or is empty. -/
def NoBlankLast (text : List Char) : Prop := ∀ c ∈ text.getLast?, isBlank c = false

theorem noBlankLast_append (hne : back ≠ []) :
    NoBlankLast (front ++ back) ↔ NoBlankLast back := by
  obtain ⟨init, c, rfl⟩ := (List.eq_nil_or_concat back).resolve_left hne
  rw [List.concat_eq_append, NoBlankLast, NoBlankLast, ← List.append_assoc, List.getLast?_concat,
    List.getLast?_concat]

theorem noBlankLast_trimEnd (text : List Char) : NoBlankLast (trimEnd text) := by
  rw [trimEnd, NoBlankLast, List.getLast?_reverse]
  exact noneFirst_dropWhile isBlank _

theorem noBlankLast_contentOf (line : List Char) : NoBlankLast (contentOf line) :=
  noBlankLast_trimEnd _

/-- Of a text that ends without a blank, only a margin is cut off. -/
theorem exists_margin (h : NoBlankLast text) :
    ∃ margin, (∀ c ∈ margin, isBlank c = true) ∧ text = margin ++ trim text := by
  refine ⟨text.takeWhile isBlank, List.all_eq_true.mp List.all_takeWhile, ?_⟩
  rw [← Text.trimStart_trimEnd, Text.trimEnd_of_last h, trimStart, List.takeWhile_append_dropWhile]

theorem trim_margin_append {margin : List Char} (hmargin : ∀ c ∈ margin, isBlank c = true)
    (hfirst : NoBlankFirst text) (hlast : NoBlankLast text) : trim (margin ++ text) = text := by
  rw [trim, Text.trimStart_append_of_blank hmargin, Text.trimStart_of_head hfirst,
    Text.trimEnd_of_last hlast]

/-- One or more blanks. -/
structure IsGap (gap : List Char) : Prop where
  ne_nil : gap ≠ []
  isBlank : ∀ c ∈ gap, Text.isBlank c = true

variable {gap gap' : List Char}

theorem IsGap.not_mem {c : Char} (h : IsGap gap) (hc : Text.isBlank c = false) : c ∉ gap := by
  intro hmem
  rw [h.isBlank c hmem] at hc
  contradiction

/-- A text that starts and ends without a blank has something on both sides of its gaps, and so it
starts and ends without a blank whatever its gaps are. -/
theorem IsGap.replace (h : IsGap gap) (hfirst : NoBlankFirst (front ++ gap ++ back))
    (hlast : NoBlankLast (front ++ gap ++ back)) (gap' : List Char) :
    NoBlankFirst (front ++ gap' ++ back) ∧ NoBlankLast (front ++ gap' ++ back) := by
  have hback : back ≠ [] := by
    rintro rfl
    rw [List.append_nil, noBlankLast_append h.ne_nil] at hlast
    have hblank := h.isBlank _ (List.getLast_mem h.ne_nil)
    rw [hlast _ (List.getLast?_eq_some_getLast h.ne_nil)] at hblank
    contradiction
  rw [noBlankLast_append hback] at hlast ⊢
  refine ⟨?_, hlast⟩
  cases front with
  | nil =>
    obtain ⟨b, gap, rfl⟩ := List.exists_cons_of_ne_nil h.ne_nil
    have hblank := h.isBlank b List.mem_cons_self
    rw [hfirst b rfl] at hblank
    contradiction
  | cons c front => exact hfirst

/-- Where the text of the case in a line stands: in front of the comment, and nothing but blanks
stand behind it. -/
structure AssemblyAt (line front assembly tail : List Char) : Prop where
  line_eq : line = front ++ assembly ++ tail
  at_not_mem : '@' ∉ front ++ assembly
  isBlank_tail : ∀ c ∈ tail.takeWhile (· != '@'), isBlank c = true
  found : ∃ c, readLine? 1 line = some (.found, c) ∧ c.assembly = String.ofList assembly

section Lines

variable {number : Nat} {line tail : List Char} {c : Case}

theorem contentOf_append_tail (hat : '@' ∉ front)
    (htail : ∀ c ∈ tail.takeWhile (· != '@'), isBlank c = true) :
    contentOf (front ++ tail) = trim front := by
  rw [contentOf, Text.takeWhile_append_of_not_mem hat, Text.trim_append_of_blank htail]

theorem commentOf_append_tail (hat : '@' ∉ front) : commentOf (front ++ tail) = commentOf tail := by
  rw [commentOf, Text.dropWhile_append_of_not_mem hat, commentOf]

/-- A line is a part without the mark of a comment, and a comment, which may be missing. -/
theorem exists_front_of_comment (line : List Char) :
    ∃ front comment, line = front ++ comment ∧ '@' ∉ front ∧
      comment.takeWhile (· != '@') = [] := by
  rcases Text.not_mem_or_exists_first '@' line with hnot | ⟨front, behind, hfront, rfl⟩
  · exact ⟨line, [], (List.append_nil line).symm, hnot, rfl⟩
  · exact ⟨front, '@' :: behind, rfl, hfront, List.takeWhile_cons_of_neg (by decide)⟩

/-- Every text that is read stands somewhere in its line. -/
theorem exists_assemblyAt (h : readLine? number line = some (.found, c)) :
    ∃ front tail, AssemblyAt line front c.assembly.toList tail := by
  obtain ⟨-, start, hcontent, -⟩ := readLine?_replace h
  obtain ⟨body, comment, rfl, hat, hcomment⟩ := exists_front_of_comment line
  have htrim : contentOf (body ++ comment) = trim body :=
    contentOf_append_tail hat (by rw [hcomment]; exact List.forall_mem_nil _)
  obtain ⟨blanks, hblanks, hbody⟩ := Text.eq_trimEnd_append body
  obtain ⟨margin, -, hmargin⟩ := exists_margin (noBlankLast_trimEnd body)
  rw [Text.trim_trimEnd, ← htrim, hcontent, ← List.append_assoc] at hmargin
  rw [hmargin] at hbody
  have hblank : '@' ∉ blanks := fun hmem => absurd (hblanks _ hmem) (by decide)
  refine ⟨margin ++ start, blanks ++ comment, ⟨?_, ?_, ?_, ?_⟩⟩
  · rw [hbody, List.append_assoc]
  · rw [hbody] at hat
    exact fun hmem => hat (List.mem_append_left _ hmem)
  · rw [Text.takeWhile_append_of_not_mem hblank, hcomment, List.append_nil]
    exact hblanks
  · refine ⟨{ c with line := 1 }, ?_, String.ofList_toList.symm⟩
    rw [readLine?_renumber 1 number, h]
    rfl

/-- **Blanks in a text may be replaced by others**, where some are left: the line is read as before,
with this text. -/
theorem AssemblyAt.respaced {before behind : List Char}
    (h : AssemblyAt line front (before ++ gap ++ behind) tail) (hgap : IsGap gap)
    (hgap' : IsGap gap') (number : Nat) :
    ∃ c, readLine? number line = some (.found, c) ∧
      c.assembly = String.ofList (before ++ gap ++ behind) ∧
      readLine? number (front ++ (before ++ gap' ++ behind) ++ tail) =
        some (.found, { c with assembly := String.ofList (before ++ gap' ++ behind) }) := by
  obtain ⟨rfl, hat, htail, c, hfound, hassembly⟩ := h
  have hread : readLine? number (front ++ (before ++ gap ++ behind) ++ tail) =
      some (.found, { c with line := number }) := by
    rw [readLine?_renumber number 1, hfound]
    rfl
  obtain ⟨hfirst, start, hcontent, hreplace⟩ := readLine?_replace hread
  dsimp only at hfirst hcontent hreplace
  rw [hassembly, String.toList_ofList] at hfirst hcontent hreplace
  have hat' : '@' ∉ front ++ (before ++ gap' ++ behind) := by
    simp only [List.mem_append, not_or] at hat ⊢
    exact ⟨hat.1, ⟨hat.2.1.1, hgap'.not_mem (by decide)⟩, hat.2.2⟩
  have hne : ∀ {gap}, IsGap gap → before ++ gap ++ behind ≠ [] := fun hgap =>
    List.append_ne_nil_of_left_ne_nil (List.append_ne_nil_of_right_ne_nil _ hgap.ne_nil) _
  -- the content of the line is what stands in front of its comment, without the margin
  have hlast : NoBlankLast (before ++ gap ++ behind) := by
    rw [← noBlankLast_append (hne hgap), ← hcontent]
    exact noBlankLast_contentOf _
  obtain ⟨hfirst', hlast'⟩ := hgap.replace hfirst hlast gap'
  obtain ⟨margin, hmargin, hfront⟩ := exists_margin ((noBlankLast_append (hne hgap)).mpr hlast)
  rw [← contentOf_append_tail hat htail, hcontent, ← List.append_assoc margin] at hfront
  obtain rfl : front = margin ++ start := List.append_cancel_right hfront
  have hcontent' : contentOf (margin ++ start ++ (before ++ gap' ++ behind) ++ tail) =
      start ++ (before ++ gap' ++ behind) := by
    have hstart : NoBlankFirst (start ++ (before ++ gap ++ behind)) := by
      rw [← hcontent]
      exact noBlankFirst_contentOf _
    rw [contentOf_append_tail hat' htail, List.append_assoc margin]
    exact trim_margin_append hmargin (hstart.append hfirst')
      ((noBlankLast_append (hne hgap')).mpr hlast')
  refine ⟨_, hread, hassembly, hreplace hcontent' ?_ hfirst' (hne hgap') ?_ ?_⟩
  · rw [commentOf_append_tail hat, commentOf_append_tail hat']
  · rw [SameDigitsFirst, takeWhile_append_blanks hgap'.ne_nil hgap'.isBlank,
      takeWhile_append_blanks hgap.ne_nil hgap.isBlank]
  · simp only [List.mem_append]
    rintro ((hmem | hmem) | hmem)
    · exact .inl (.inl hmem)
    · exact absurd hmem (hgap'.not_mem (by decide))
    · exact .inr hmem

end Lines

end ArmListing.Suite
