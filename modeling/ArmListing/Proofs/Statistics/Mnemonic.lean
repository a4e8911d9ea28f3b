import Mathlib.Data.List.Basic
import ArmListing.Command
import ArmListing.Proofs.Decoder.Text
import ArmListing.Proofs.Session
import ArmListing.Proofs.Statistics.Listing

/-!
# ArmListing.Proofs.Statistics.Mnemonic

What is counted of a listing is **how often each mnemonic occurs** among its
instructions, apart for those with an immediate. This holds for every decoder
whose texts start with a mnemonic of letters (`Decoder.WritesMnemonics`).

The key of an instruction is said twice: on its text (`keyOfText`), and by the
reader of listings on the whole line. The two agree (`keyOfLine?_eq_key?`), since
the reader finds the encoding as the first word behind the address and the words
of the text behind it.

The messages that a run writes around a listing have no key
(`keys_shown`), so it does not matter whether they are counted with it.
-/

namespace ArmListing

/-! ### Keys of instructions -/

/-- What an instruction is counted as: its mnemonic, with a mark if there are operands and the last
of them starts like an immediate. -/
def keyOfText (text : String) : String :=
  let mnemonic := String.ofList (text.toList.takeWhile isLetter)
  let operands := Text.words (text.toList.dropWhile isLetter)
  if operands.getLast?.any (·.head? == some '#') then mnemonic ++ immediateMark else mnemonic

/-- What the answer of a decoder is counted as, if its encoding is defined. -/
def Decoded.key? (d : Decoded) : Option String := d.text?.map keyOfText

/-- A text is made of a mnemonic of letters and, behind a blank, what belongs to it. -/
structure HasMnemonic (text mnemonic behind : String) : Prop where
  text_eq : text = mnemonic ++ behind
  mnemonic_ne : mnemonic ≠ ""
  isLetter_of_mem : ∀ c ∈ mnemonic.toList, isLetter c = true
  isBlank_head : ∀ c ∈ behind.toList.head?, Text.isBlank c = true

/-- All texts of the decoder start with a mnemonic. -/
def Decoder.WritesMnemonics (d : Decoder) (target : Target) : Prop :=
  ∀ p, ∀ text ∈ (d.decode target p).text?, ∃ mnemonic behind, HasMnemonic text mnemonic behind

theorem isBlank_of_isLetter {c : Char} (h : isLetter c = true) : Text.isBlank c = false :=
  isBlank_of_isAlphanum (isAlphanum_of_isAlpha h)

namespace HasMnemonic

variable {text mnemonic behind : String}

/-- The mnemonic is what stands in front of the first character that is not a letter. -/
theorem takeWhile_eq (h : HasMnemonic text mnemonic behind) :
    text.toList.takeWhile isLetter = mnemonic.toList ∧
      text.toList.dropWhile isLetter = behind.toList := by
  have hbehind : behind.toList.takeWhile isLetter = [] ∧
      behind.toList.dropWhile isLetter = behind.toList := by
    have hblank := h.isBlank_head
    cases hlist : behind.toList with
    | nil => exact ⟨rfl, rfl⟩
    | cons c rest =>
      rw [hlist, List.head?_cons] at hblank
      have hnot : ¬ isLetter c = true := by
        intro hletter
        have hc := hblank c rfl
        rw [isBlank_of_isLetter hletter] at hc
        contradiction
      exact ⟨List.takeWhile_cons_of_neg hnot, List.dropWhile_cons_of_neg hnot⟩
  rw [h.text_eq, String.toList_append, List.takeWhile_append_of_pos h.isLetter_of_mem,
    List.dropWhile_append_of_pos h.isLetter_of_mem, hbehind.1, hbehind.2, List.append_nil]
  exact ⟨rfl, rfl⟩

/-- The first word is the mnemonic. -/
theorem words_eq (h : HasMnemonic text mnemonic behind) :
    Text.words text.toList = mnemonic.toList :: Text.words behind.toList := by
  have hne : mnemonic.toList ≠ [] := by
    intro hnil
    exact h.mnemonic_ne (String.toList_eq_nil_iff.mp hnil)
  have hblank : ∀ c ∈ mnemonic.toList, Text.isBlank c = false := by
    intro c hc
    exact isBlank_of_isLetter (h.isLetter_of_mem c hc)
  have hhead := h.isBlank_head
  rw [h.text_eq, String.toList_append]
  cases hlist : behind.toList with
  | nil => rw [List.append_nil, Text.words_eq_singleton hne hblank]; rfl
  | cons c rest =>
    rw [hlist, List.head?_cons] at hhead
    rw [Text.words_append hne hblank (hhead c rfl), Text.words_cons (hhead c rfl)]

/-- **The reader of listings finds the key of the text** behind an address and an encoding. -/
theorem keyOfFields?_eq (h : HasMnemonic text mnemonic behind) (e : Encoding) :
    keyOfFields? (e.digits.toList :: Text.words text.toList) = some (keyOfText text) := by
  have hdigits : e.digits.toList.all Hex.isDigit = true :=
    List.all_eq_true.mpr fun _ hc => Encoding.isDigit_of_mem_digits hc
  have hletters : mnemonic.toList.all isLetter = true := List.all_eq_true.mpr h.isLetter_of_mem
  obtain ⟨hmnemonic, hbehind⟩ := h.takeWhile_eq
  simp only [h.words_eq, keyOfFields?, hdigits, hletters, Bool.and_self, if_true, keyOfText,
    hmnemonic, hbehind]
  -- both tests look at the first character of the last operand
  cases (Text.words behind.toList).getLast? <;> rfl

end HasMnemonic

/-- A line has the key of its instruction. -/
theorem keyOfLine?_eq_key? {decoder : Decoder} {target : Target}
    (hdecoder : decoder.WritesMnemonics target) {data : Array UInt8} {offset : Nat}
    (h : offset < 16 ^ 8) :
    keyOfLine? (Code.lineAt decoder target data offset).text.toList =
      (Code.lineAt decoder target data offset).decoded.key? := by
  rw [Decoded.key?]
  cases htext : (Code.lineAt decoder target data offset).decoded.text? with
  | none => rw [keyOfLine?_of_unknown h htext]; rfl
  | some text =>
    obtain ⟨mnemonic, behind, hmnemonic⟩ := hdecoder _ text htext
    rw [keyOfLine?_text h, Decoded.text, htext, Option.getD_some, hmnemonic.keyOfFields?_eq]
    rfl

/-- In Thumb state the texts of the standard decoder are counted under their mnemonics. -/
theorem Decoder.writesMnemonics_standard_thumb (revision : Revision) :
    standard.WritesMnemonics ⟨.thumb, revision⟩ := by
  intro p text htext
  obtain ⟨mnemonic, operands, hassembly, hletters⟩ := isAssembly_standard htext
  refine ⟨mnemonic, "\t" ++ ", ".intercalate operands, ?_, hassembly.mnemonic_ne,
    spelled_iff.mp hletters, ?_⟩
  · rw [hassembly.text_eq, String.append_assoc]
  · rw [String.toList_append]
    intro c hc
    obtain rfl : '\t' = c := Option.some.inj hc
    decide

namespace Statistics

variable {w : Walk}

/-- The keys of a listing are those of its instructions, in their order. -/
theorem keys_listing (hline : w.decoder.OneLine w.target)
    (hmnemonics : w.decoder.WritesMnemonics w.target) (hsize : w.cursor.data.size ≤ 2 ^ 32) :
    keys (Listing.text w.left w.lines).toList = w.lines.filterMap fun l => l.decoded.key? := by
  rw [Listing.keys_text w.left fun l hl => Walk.newline_not_mem_of_mem_lines hline hl]
  refine List.filterMap_congr fun l hl => ?_
  have haddress := Walk.address_lt_of_size_le hsize hl
  rw [Walk.eq_lineAt_of_mem_lines hl]
  exact keyOfLine?_eq_key? hmnemonics haddress

/-! ### Messages around a listing -/

theorem endsLine_listing (size : Nat) (lines : List Line) :
    Text.endsLine (Listing.text size lines).toList = true := by
  unfold Listing.text Text.endsLine
  simp only [String.toList_append, List.getLast?_append]
  rfl

/-- A message starts with its mark, so it has no key, whatever it is about. -/
theorem keys_message {front about back : List Char} (hmark : front = '[' :: 'I' :: front.drop 2)
    (hfront : '\n' ∉ front) (habout : '\n' ∉ about) (hback : '\n' ∉ back) (rest : List Char) :
    keys (front ++ about ++ back ++ '\n' :: rest) = keys rest := by
  have hline : '\n' ∉ front ++ about ++ back := by
    simp only [List.mem_append, not_or]
    exact ⟨⟨hfront, habout⟩, hback⟩
  have hnone : keyOfLine? (front ++ about ++ back) = none := by
    rw [hmark]
    exact keyOfLine?_eq_none rfl _
  exact keys_cons_line hline hnone rest

/-- What is said of an input has the keys of its listing. -/
theorem keys_shown {input : String} (h : '\n' ∉ input.toList) (size : Nat) (lines : List Line)
    (rest : List Char) :
    keys ((Session.shown input (Listing.text size lines)).toList ++ rest) =
      keys (Listing.text size lines).toList ++ keys rest := by
  have hquote : "\".\n".toList = "\".".toList ++ ['\n'] := by decide
  have hblank : "\n[INFO]: Completed successfully \"".toList =
      '\n' :: "[INFO]: Completed successfully \"".toList := by decide
  have hlines : (Session.shown input (Listing.text size lines)).toList ++ rest =
      "[INFO]: Starting disassembly of \"".toList ++ input.toList ++ "\".".toList ++ '\n' ::
        ((Listing.text size lines).toList ++ ([] ++ '\n' ::
          ("[INFO]: Completed successfully \"".toList ++ input.toList ++ "\".".toList ++
            '\n' :: rest))) := by
    unfold Session.shown
    simp only [String.toList_append, hquote, hblank, List.append_assoc, List.cons_append,
      List.nil_append]
  rw [hlines, keys_message (by decide) (by decide) h (by decide),
    keys_append (endsLine_listing size lines), keys_cons_line List.not_mem_nil rfl,
    keys_message (by decide) (by decide) h (by decide)]

/-- The message at the end of a run has no key. -/
theorem keys_completion {elapsed : String} (h : '\n' ∉ elapsed.toList) :
    keys (Command.completion elapsed).toList = [] := by
  have hunit : " ms\n".toList = " ms".toList ++ ['\n'] := by decide
  have hline : (Command.completion elapsed).toList =
      "[INFO]: Completed in: ".toList ++ elapsed.toList ++ " ms".toList ++ '\n' :: [] := by
    unfold Command.completion
    simp only [String.toList_append, hunit, List.append_assoc]
  rw [hline, keys_message (by decide) (by decide) h (by decide)]
  rfl

/-! ### Counts of a listing -/

/-- What is counted of a listing are its known lines, each under the mnemonic of its text, with a
mark if the text ends with an immediate. Counting all that a run says when it shows an input comes
to the same as counting the listing alone. -/
theorem get_ofListing_eq_countP :
    (∀ {decoder : Decoder} {target : Target} {data : Array UInt8} {span r : Span},
      decoder.OneLine target → decoder.WritesMnemonics target → data.size ≤ 2 ^ 32 →
      span.resolve? data.size = some r →
      ∃ w tally text, Walk.start decoder target data span = .ok w ∧
        Listing.write decoder target data span {} = .ok tally ⟨none, text.toUTF8⟩ ∧
        ∀ key, (ofListing text).get key = w.lines.countP fun l => l.decoded.key? = some key) ∧
    ∀ {target : Target} {input : String} {directory : Directory} {contents : ByteArray}
      {span r : Span},
      directory.read input = .ok contents → span.resolve? contents.size = some r →
      '\n' ∉ input.toList →
      ∃ tally listing shown,
        Listing.write .standard target contents.data span {} = .ok tally ⟨none, listing.toUTF8⟩ ∧
        (Session.run Directory.access (.showListing input span target)).run directory =
          (⟨true, shown.toUTF8⟩, directory) ∧
        ofListing shown = ofListing listing ∧
        ∀ elapsed : String, '\n' ∉ elapsed.toList →
          ofListing (shown ++ Command.completion elapsed) = ofListing listing := by
  constructor
  · intro decoder target data span r hline hmnemonics hsize hresolve
    let w := Walk.between decoder target data r.start r.stop (Span.stop_le_of_resolve? hresolve)
    have hstart : Walk.start decoder target data span = .ok w := Walk.start_of_resolve? hresolve
    refine ⟨w, _, _, hstart, Listing.write_unbounded hstart, fun key => ?_⟩
    rw [get_ofListing, keys_listing hline hmnemonics hsize, List.count_filterMap]
    simp only [beq_eq_decide]
  · intro target input directory contents span r hread hresolve hinput
    let w := Walk.between .standard target contents.data r.start r.stop
      (Span.stop_le_of_resolve? hresolve)
    have hstart : Walk.start .standard target contents.data span = .ok w :=
      Walk.start_of_resolve? hresolve
    have hrun : (Session.run Directory.access (.showListing input span target)).run directory =
        (Session.showListing input contents span target, directory) :=
      Session.run_showListing hread
    rw [Session.showListing_of_start hstart] at hrun
    refine ⟨_, _, _, Listing.write_unbounded hstart, hrun, ?_, fun elapsed helapsed => ?_⟩
    · have hkeys := keys_shown hinput w.left w.lines []
      rw [List.append_nil] at hkeys
      exact ofListing_congr (hkeys.trans (List.append_nil _))
    · apply ofListing_congr
      rw [String.toList_append, keys_shown hinput, keys_completion helapsed, List.append_nil]

/-- A move of an immediate and a return, listed on their own and from a file. -/
theorem get_ofListing_eq_countP_return :
    ((Decoder.standard.OneLine ⟨.thumb, .v5te⟩ ∧ Decoder.standard.WritesMnemonics ⟨.thumb, .v5te⟩ ∧
        #[1, 0x20, 0x70, 0x47].size ≤ 2 ^ 32 ∧ (⟨0, 0⟩ : Span).resolve? 4 = some ⟨0, 4⟩) ∧
      ∃ w tally text, Walk.start .standard ⟨.thumb, .v5te⟩ #[1, 0x20, 0x70, 0x47] ⟨0, 0⟩ = .ok w ∧
        Listing.write .standard ⟨.thumb, .v5te⟩ #[1, 0x20, 0x70, 0x47] ⟨0, 0⟩ {} =
          .ok tally ⟨none, text.toUTF8⟩ ∧
        ∀ key, (ofListing text).get key = w.lines.countP fun l => l.decoded.key? = some key) ∧
    ((({ files := [(["code.bin"], ⟨#[1, 0x20, 0x70, 0x47]⟩)] } : Directory).read "code.bin" =
          .ok ⟨#[1, 0x20, 0x70, 0x47]⟩ ∧
        (⟨0, 0⟩ : Span).resolve? 4 = some ⟨0, 4⟩ ∧ '\n' ∉ "code.bin".toList) ∧
      ∃ tally listing shown,
        Listing.write .standard ⟨.arm, .v4t⟩ #[1, 0x20, 0x70, 0x47] ⟨0, 0⟩ {} =
          .ok tally ⟨none, listing.toUTF8⟩ ∧
        (Session.run Directory.access (.showListing "code.bin" ⟨0, 0⟩ ⟨.arm, .v4t⟩)).run
            { files := [(["code.bin"], ⟨#[1, 0x20, 0x70, 0x47]⟩)] } =
          (⟨true, shown.toUTF8⟩, { files := [(["code.bin"], ⟨#[1, 0x20, 0x70, 0x47]⟩)] }) ∧
        ofListing shown = ofListing listing ∧
        ∀ elapsed : String, '\n' ∉ elapsed.toList →
          ofListing (shown ++ Command.completion elapsed) = ofListing listing) := by
  have hline := Decoder.oneLine_standard ⟨.thumb, .v5te⟩
  have hmnemonics := Decoder.writesMnemonics_standard_thumb .v5te
  have hread : ({ files := [(["code.bin"], ⟨#[1, 0x20, 0x70, 0x47]⟩)] } : Directory).read
      "code.bin" = .ok ⟨#[1, 0x20, 0x70, 0x47]⟩ := rfl
  exact ⟨⟨⟨hline, hmnemonics, by decide, rfl⟩,
      get_ofListing_eq_countP.1 hline hmnemonics (by decide) rfl⟩,
    ⟨hread, rfl, by decide⟩, get_ofListing_eq_countP.2 hread rfl (by decide)⟩

end Statistics

end ArmListing
