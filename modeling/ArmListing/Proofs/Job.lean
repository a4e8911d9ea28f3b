import ArmListing.Job
import ArmListing.Proofs.Argument
import ArmListing.Proofs.Walk.Tiling

/-!
# ArmListing.Proofs.Job

The **spans that command lines ask for**, and the warnings that come with them.

A span and a mode are read in either order. An argument that is refused leaves
the settings as they are, but for a warning (`readSpan_cases`,
`readTarget_cases`). So whatever the arguments are, the span is ordered, and
there is at most one warning, which stands where the span is the whole input
(`Settings.WellFormed`). What holds of the settings holds of the job that is
made of them (`Job.span_ofTokens`).
-/

namespace ArmListing

namespace Settings

/-- Whether `warning` is about one of the texts, which stands for a span that would stop before it
starts. -/
def WarnsOf (texts : List String) (warning : String) : Prop :=
  ∃ text ∈ texts, ∃ start stop, 0 < stop ∧ stop < start ∧
    Span.ofArgument text = .error (.stopBeforeStart start stop) ∧
    warning = "range end 0x" ++ Hex.lower stop ++ " is less than start 0x" ++ Hex.lower start ++
      ", the whole input will be disassembled"

theorem WarnsOf.mono {texts texts' : List String} {warning : String} (h : WarnsOf texts warning)
    (hsub : ∀ text ∈ texts, text ∈ texts') : WarnsOf texts' warning := by
  obtain ⟨text, htext, hwarns⟩ := h
  exact ⟨text, hsub text htext, hwarns⟩

/-! ### Single arguments -/

/-- **An argument that is tried as a span** sets the span, or does nothing, or adds a warning. -/
theorem readSpan_cases (s : Settings) (argument : Option String) :
    (∃ span : Span, span.IsOrdered ∧ s.readSpan argument = (true, { s with span })) ∨
      s.readSpan argument = (false, s) ∨
      ∃ text warning, argument = some text ∧ text.toList.head? ≠ some '/' ∧
        WarnsOf [text] warning ∧
        s.readSpan argument = (false, { s with warnings := s.warnings ++ [warning] }) := by
  cases argument with
  | none => exact .inr (.inl rfl)
  | some text =>
    rcases Span.ofArgument_cases text with ⟨span, hordered, hread⟩ | ⟨e, hsilent, hread⟩ |
      ⟨hslash, start, stop, hpos, hlt, hread⟩
    · refine .inl ⟨span, hordered, ?_⟩
      simp only [readSpan, hread]
    · refine .inr (.inl ?_)
      simp only [readSpan, hread, hsilent, Option.toList_none, List.append_nil]
    · have hwarns : WarnsOf [text] _ :=
        ⟨text, List.mem_singleton_self text, start, stop, hpos, hlt, hread, rfl⟩
      refine .inr (.inr ⟨text, _, rfl, hslash, hwarns, ?_⟩)
      simp only [readSpan, hread]
      rfl

/-- **An argument that is tried as a mode** sets the target, for which it needs a slash in front, or
does nothing. -/
theorem readTarget_cases (s : Settings) (argument : Option String) :
    (∃ text target, argument = some text ∧ text.toList.head? = some '/' ∧
      s.readTarget argument = (true, { s with target })) ∨
      s.readTarget argument = (false, s) := by
  cases argument with
  | none => exact .inr rfl
  | some text =>
    cases hread : Target.ofArgument text with
    | ok target =>
      refine .inl ⟨text, target, rfl, Target.head?_of_ofArgument hread, ?_⟩
      simp only [readTarget, hread]
    | error e =>
      refine .inr ?_
      simp only [readTarget, hread]

/-! ### Both arguments -/

/-- What holds of all settings that are read from `texts`. -/
structure WellFormed (texts : List String) (s : Settings) : Prop where
  isOrdered : s.span.IsOrdered
  length_warnings : s.warnings.length ≤ 1
  of_mem_warnings : ∀ warning ∈ s.warnings, WarnsOf texts warning ∧ s.span = {}

namespace WellFormed

variable {texts : List String} {warning : String}

/-- Settings with a span and no warning. -/
theorem of_isOrdered {span : Span} (h : span.IsOrdered) (target : Target) :
    WellFormed texts ⟨span, target, []⟩ where
  isOrdered := h
  length_warnings := Nat.zero_le 1
  of_mem_warnings := nofun

/-- Settings with a warning, whose span has been left as it is. -/
theorem of_warnsOf (h : WarnsOf texts warning) (target : Target) :
    WellFormed texts ⟨{}, target, [warning]⟩ where
  isOrdered := .inl rfl
  length_warnings := Nat.le_refl 1
  of_mem_warnings w hw := by
    rw [List.mem_singleton.mp hw]
    exact ⟨h, rfl⟩

theorem mono {texts' : List String} {s : Settings} (h : WellFormed texts s)
    (hsub : ∀ text ∈ texts, text ∈ texts') : WellFormed texts' s where
  isOrdered := h.isOrdered
  length_warnings := h.length_warnings
  of_mem_warnings w hw := by
    obtain ⟨hwarns, hspan⟩ := h.of_mem_warnings w hw
    exact ⟨hwarns.mono hsub, hspan⟩

end WellFormed

/-- Only one of two arguments can give a warning: the second one is read as a span only if the first
one is a mode, and with a slash in front it gives none. -/
theorem wellFormed_ofArguments (first second : Option String) :
    WellFormed (first.toList ++ second.toList) (ofArguments first second) := by
  unfold ofArguments
  rcases readSpan_cases {} first with ⟨span, hordered, hspan⟩ | hspan |
    ⟨text, warning, hfirst, hslash, hwarns, hspan⟩
  · simp only [hspan]
    rcases readTarget_cases { span } second with ⟨-, target, -, -, htarget⟩ | htarget
    · rw [htarget]
      exact .of_isOrdered hordered target
    · rw [htarget]
      exact .of_isOrdered hordered {}
  · simp only [hspan]
    rcases readTarget_cases {} first with ⟨-, target, -, -, htarget⟩ | htarget
    · simp only [htarget]
      rcases readSpan_cases { target } second with ⟨span, hordered, hspan'⟩ | hspan' |
        ⟨text, warning, hsecond, -, hwarns, hspan'⟩
      · rw [hspan']
        exact .of_isOrdered hordered target
      · rw [hspan']
        exact .of_isOrdered (.inl rfl) target
      · rw [hspan', hsecond]
        exact .of_warnsOf (hwarns.mono (List.subset_append_right _ _)) target
    · simp only [htarget]
      exact .of_isOrdered (.inl rfl) {}
  · simp only [hspan]
    rcases readTarget_cases { warnings := [warning] } first with
      ⟨text', -, hfirst', hslash', -⟩ | htarget
    · cases hfirst.symm.trans hfirst'
      exact absurd hslash' hslash
    · rw [List.nil_append, htarget, hfirst]
      exact .of_warnsOf (hwarns.mono (List.subset_append_left _ _)) {}

/-- The same of the first two of some arguments. -/
theorem wellFormed_ofArguments_getElem? (arguments : List String) :
    WellFormed arguments (ofArguments arguments[0]? arguments[1]?) := by
  refine (wellFormed_ofArguments _ _).mono fun text htext => ?_
  rcases List.mem_append.mp htext with hfirst | hsecond
  · exact List.mem_of_getElem? (Option.mem_toList.mp hfirst)
  · exact List.mem_of_getElem? (Option.mem_toList.mp hsecond)

end Settings

namespace Job

/-- The span that a job lists. -/
def span? : Job → Option Span
  | showListing _ span _ => some span
  | saveListing _ _ span _ => some span
  | _ => none

/-- What a job lists, and what is warned of, is as settings say that have been read from the
arguments behind the path of its input. -/
theorem ofInput_cases (input : String) (arguments : List String) :
    ∃ s, Settings.WellFormed arguments s ∧ (ofInput input arguments).1.span? = some s.span ∧
      (ofInput input arguments).2 = s.warnings := by
  cases arguments with
  | nil => exact ⟨{}, .of_isOrdered (.inl rfl) {}, rfl, rfl⟩
  | cons output rest =>
    unfold ofInput
    by_cases hpath : isPath output = true
    · simp only [if_pos hpath]
      have hsettings := Settings.wellFormed_ofArguments_getElem? rest
      exact ⟨_, hsettings.mono fun _ => List.mem_cons_of_mem output, rfl, rfl⟩
    · simp only [if_neg hpath]
      exact ⟨_, Settings.wellFormed_ofArguments_getElem? (output :: rest), rfl, rfl⟩

/-- A command line lists nothing and warns of nothing, or does as settings say that have been read
from its tokens. -/
theorem ofTokens_cases (tokens : List String) :
    ((ofTokens tokens).1.span? = none ∧ (ofTokens tokens).2 = []) ∨
      ∃ s, Settings.WellFormed tokens s ∧ (ofTokens tokens).1.span? = some s.span ∧
        (ofTokens tokens).2 = s.warnings := by
  unfold ofTokens
  split
  case h_1 program first rest =>
    by_cases hmany : maxArguments < rest.length + 1
    · rw [if_pos hmany]
      exact .inl ⟨rfl, rfl⟩
    rw [if_neg hmany]
    by_cases hpath : isPath first = true
    · rw [if_pos hpath]
      obtain ⟨s, hsettings, hspan, hwarnings⟩ := ofInput_cases first rest
      refine .inr ⟨s, hsettings.mono fun text htext => ?_, hspan, hwarnings⟩
      exact List.mem_cons_of_mem _ (List.mem_cons_of_mem _ htext)
    · rw [if_neg hpath]
      refine .inl ⟨?_, rfl⟩
      show span? (ofCode first rest) = none
      unfold ofCode
      split <;> rfl
  case h_2 => exact .inl ⟨rfl, rfl⟩

/-- **Command lines ask for ordered spans**, which are refused only for what lies outside the input,
and closed once and for all. There is at most one warning. It is about a token that stands for a
span that would stop before it starts, and where there is one the whole input is listed. -/
theorem span_ofTokens (tokens : List String) :
    (ofTokens tokens).2.length ≤ 1 ∧
      ∀ span ∈ (ofTokens tokens).1.span?,
        (∀ length,
          (span.resolve? length = none ↔ span.start > length ∨ span.stop > length) ∧
            ∀ r ∈ span.resolve? length,
              r.start ≤ r.stop ∧ r.stop ≤ length ∧ r.resolve? length = some r) ∧
        ∀ warning ∈ (ofTokens tokens).2,
          Settings.WarnsOf tokens warning ∧ span = ⟨0, 0⟩ ∧
            ∀ decoder target data, ∃ w, Walk.start decoder target data span = .ok w ∧
              Tiles decoder target data 0 data.size w.finish.offset w.lines := by
  rcases ofTokens_cases tokens with ⟨hspan, hwarnings⟩ | ⟨s, hsettings, hspan, hwarnings⟩
  · rw [hspan, hwarnings]
    exact ⟨Nat.zero_le 1, nofun⟩
  · rw [hspan, hwarnings]
    refine ⟨hsettings.length_warnings, fun span hmem => ?_⟩
    obtain rfl := Option.some.inj hmem
    refine ⟨fun length => ⟨Span.resolve?_eq_none_iff, fun r hr => ?_⟩, fun warning hw => ?_⟩
    · exact hsettings.isOrdered.resolve? hr
    · obtain ⟨hwarns, hwhole⟩ := hsettings.of_mem_warnings warning hw
      refine ⟨hwarns, hwhole, fun decoder target data => ?_⟩
      rw [hwhole]
      have hstart : Walk.start decoder target data {} = _ :=
        Walk.start_of_resolve? (Span.resolve?_default data.size)
      have htiles := Walk.tiles_lines (Walk.between decoder target data 0 data.size (Nat.le_refl _))
      rw [Walk.offset_between (Nat.zero_le _)] at htiles
      exact ⟨_, hstart, htiles⟩

/-- A span that stops before it starts, behind a mode. -/
theorem span_ofTokens_reversed :
    let tokens := ["armdis", "code.bin", "/a", "20-10"]
    ofTokens tokens = (showListing "code.bin" {} ⟨.arm, .v5te⟩,
        ["range end 0x10 is less than start 0x20, the whole input will be disassembled"]) ∧
      Settings.WarnsOf tokens
        "range end 0x10 is less than start 0x20, the whole input will be disassembled" ∧
      ∃ w, Walk.start .echo {} #[1, 0, 2] {} = .ok w ∧
        Tiles .echo {} #[1, 0, 2] 0 3 w.finish.offset w.lines := by
  intro tokens
  have htokens : ofTokens tokens = (showListing "code.bin" {} ⟨.arm, .v5te⟩,
      ["range end 0x10 is less than start 0x20, the whole input will be disassembled"]) := by
    decide +kernel
  obtain ⟨-, hspan⟩ := span_ofTokens tokens
  rw [htokens] at hspan
  obtain ⟨-, hwarnings⟩ := hspan {} rfl
  obtain ⟨hwarns, -, hwalk⟩ := hwarnings _ (List.mem_singleton_self _)
  exact ⟨htokens, hwarns, hwalk .echo {} #[1, 0, 2]⟩

end Job

end ArmListing
