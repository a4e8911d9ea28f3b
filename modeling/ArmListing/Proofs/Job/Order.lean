import ArmListing.Job
import ArmListing.Proofs.Argument.Kind

/-!
# ArmListing.Proofs.Job.Order

The **order of a span and a mode** on a command line.

A mode is no span and is refused as one in silence, so settings do not depend on
which of the two comes first (`Settings.ofArguments_span_mode`,
`Settings.ofArguments_mode_span`). A command line does, in one case: the argument
behind the input is the output if it looks like a path, and then it is not read
as a span.
-/

namespace ArmListing

variable {input output range mode : String} {span : Span} {target : Target}

/-! ### Settings -/

namespace Settings

theorem readSpan_of_ok (s : Settings) (h : Span.ofArgument range = .ok span) :
    s.readSpan (some range) = (true, { s with span }) := by
  simp only [readSpan, h]

theorem readTarget_of_ok (s : Settings) (h : Target.ofArgument mode = .ok target) :
    s.readTarget (some mode) = (true, { s with target }) := by
  simp only [readTarget, h]

/-- A mode is refused as a span, and the user is told nothing. -/
theorem readSpan_of_mode (s : Settings) (h : Target.ofArgument mode = .ok target) :
    s.readSpan (some mode) = (false, s) := by
  have hslash := Span.ofArgument_of_slash (Target.head?_of_ofArgument h)
  simp only [readSpan, hslash, SpanError.warning?, Option.toList_none, List.append_nil]

theorem ofArguments_span_mode (hspan : Span.ofArgument range = .ok span)
    (hmode : Target.ofArgument mode = .ok target) :
    ofArguments (some range) (some mode) = ⟨span, target, []⟩ := by
  simp only [ofArguments, readSpan_of_ok _ hspan, readTarget_of_ok _ hmode]

/-- A mode in front is followed by a span, or by nothing. -/
theorem ofArguments_mode (hmode : Target.ofArgument mode = .ok target) (second : Option String) :
    ofArguments (some mode) second = (({ target } : Settings).readSpan second).2 := by
  simp only [ofArguments, readSpan_of_mode _ hmode, readTarget_of_ok _ hmode]

theorem ofArguments_mode_span (hspan : Span.ofArgument range = .ok span)
    (hmode : Target.ofArgument mode = .ok target) :
    ofArguments (some mode) (some range) = ⟨span, target, []⟩ := by
  rw [ofArguments_mode hmode, readSpan_of_ok _ hspan]

end Settings

/-! ### Command lines -/

namespace Job

/-- Behind a path for the input and another one for the output come the settings. -/
theorem ofInput_of_path (houtput : isPath output = true) (rest : List String) :
    ofInput input (output :: rest) =
      (saveListing input output (Settings.ofArguments rest[0]? rest[1]?).span
        (Settings.ofArguments rest[0]? rest[1]?).target,
        (Settings.ofArguments rest[0]? rest[1]?).warnings) :=
  if_pos houtput

theorem ofInput_of_not_path {first : String} (hfirst : isPath first = false) (rest : List String) :
    ofInput input (first :: rest) =
      (showListing input (Settings.ofArguments (some first) rest[0]?).span
        (Settings.ofArguments (some first) rest[0]?).target,
        (Settings.ofArguments (some first) rest[0]?).warnings) :=
  if_neg (Bool.eq_false_iff.mp hfirst)

theorem ofTokens_of_path {rest : List String} (program : String) (hinput : isPath input = true)
    (hlength : rest.length < maxArguments) :
    ofTokens (program :: input :: rest) = ofInput input rest := by
  have hfew : ¬maxArguments < rest.length + 1 := by omega
  simp only [ofTokens, if_neg hfew, if_pos hinput]

/-- With an output, the order does not matter. -/
theorem ofTokens_output (program : String) (hinput : isPath input = true)
    (houtput : isPath output = true) (hspan : Span.ofArgument range = .ok span)
    (hmode : Target.ofArgument mode = .ok target) :
    ofTokens [program, input, output, range, mode] =
        (saveListing input output span target, []) ∧
      ofTokens [program, input, output, mode, range] =
        (saveListing input output span target, []) := by
  rw [ofTokens_of_path program hinput (by simp [maxArguments]), ofInput_of_path houtput,
    ofTokens_of_path program hinput (by simp [maxArguments]), ofInput_of_path houtput]
  simp only [List.getElem?_cons_zero, List.getElem?_cons_succ]
  rw [Settings.ofArguments_span_mode hspan hmode, Settings.ofArguments_mode_span hspan hmode]
  exact ⟨rfl, rfl⟩

/-- A mode is no path, so behind it a span is a span. -/
theorem ofTokens_mode_span (program : String) (hinput : isPath input = true)
    (hspan : Span.ofArgument range = .ok span) (hmode : Target.ofArgument mode = .ok target) :
    ofTokens [program, input, mode, range] = (showListing input span target, []) := by
  have hpath : isPath mode = false :=
    Bool.eq_false_iff.mpr (ArgumentKind.not_path_of_mode ⟨target, hmode⟩)
  rw [ofTokens_of_path program hinput (by simp [maxArguments]), ofInput_of_not_path hpath]
  simp only [List.getElem?_cons_zero]
  rw [Settings.ofArguments_mode_span hspan hmode]

/-- A span in front is taken for the output if it looks like a path. -/
theorem ofTokens_span_mode (program : String) (hinput : isPath input = true)
    (hspan : Span.ofArgument range = .ok span) (hmode : Target.ofArgument mode = .ok target) :
    ofTokens [program, input, range, mode] =
      (if isPath range then saveListing input range {} target
        else showListing input span target, []) := by
  rw [ofTokens_of_path program hinput (by simp [maxArguments])]
  by_cases hpath : isPath range = true
  · rw [ofInput_of_path hpath, if_pos hpath]
    simp only [List.getElem?_cons_zero, List.getElem?_cons_succ, List.getElem?_nil]
    rw [Settings.ofArguments_mode hmode]
    rfl
  · rw [ofInput_of_not_path (Bool.eq_false_iff.mpr hpath), if_neg hpath]
    simp only [List.getElem?_cons_zero]
    rw [Settings.ofArguments_span_mode hspan hmode]

/-- **A span and a mode may come in either order**, except that right behind the input a span that
looks like a path is the output. There is nothing to warn of, and these are the only texts that two
readers take. -/
theorem ofTokens_either_order (program : String) (hinput : isPath input = true)
    (hspan : Span.ofArgument range = .ok span) (hmode : Target.ofArgument mode = .ok target) :
    (∀ output, isPath output = true →
      ofTokens [program, input, output, range, mode] =
          (saveListing input output span target, []) ∧
        ofTokens [program, input, output, mode, range] =
          (saveListing input output span target, [])) ∧
      ofTokens [program, input, mode, range] = (showListing input span target, []) ∧
      ((ofTokens [program, input, range, mode]).1 = showListing input span target ↔
        isPath range = false) ∧
      (ofTokens [program, input, range, mode]).2 = [] ∧
      ∀ a b : ArgumentKind, (∃ text, a.Takes text ∧ b.Takes text) ↔
        a = b ∨ (a = .path ∧ b = .span) ∨ (a = .span ∧ b = .path) := by
  refine ⟨fun output houtput => ofTokens_output program hinput houtput hspan hmode,
    ofTokens_mode_span program hinput hspan hmode, ?_, ?_, ArgumentKind.exists_takes_both_iff⟩
  · rw [ofTokens_span_mode program hinput hspan hmode]
    cases hpath : isPath range <;> simp
  · rw [ofTokens_span_mode program hinput hspan hmode]

/-- Of a span that looks like a path, the order does matter. -/
theorem ofTokens_either_order_dotted :
    isPath "code.bin" = true ∧ Span.ofArgument "2-10.0" = .ok ⟨2, 16⟩ ∧
      Target.ofArgument "/a4" = .ok ⟨.arm, .v4t⟩ ∧
      ofTokens ["armdis", "code.bin", "/a4", "2-10.0"] =
        (showListing "code.bin" ⟨2, 16⟩ ⟨.arm, .v4t⟩, []) ∧
      (ofTokens ["armdis", "code.bin", "2-10.0", "/a4"]).1 ≠
        showListing "code.bin" ⟨2, 16⟩ ⟨.arm, .v4t⟩ := by
  have hinput : isPath "code.bin" = true := rfl
  have hspan : Span.ofArgument "2-10.0" = .ok ⟨2, 16⟩ := rfl
  have hmode : Target.ofArgument "/a4" = .ok ⟨.arm, .v4t⟩ := rfl
  obtain ⟨-, hfirst, hsecond, -⟩ := ofTokens_either_order "armdis" hinput hspan hmode
  exact ⟨hinput, hspan, hmode, hfirst, fun h => absurd (hsecond.mp h) (by decide)⟩

end Job
end ArmListing
