import ArmListing.Proofs.Statistics.Counts

/-!
# ArmListing.Proofs.Statistics.Ranking

**The laws of counting.** However lines are counted, the counts are kept in a
normal form (`Kept`): each key has one entry, in ascending order, and no entry is
zero. So the entries are what a look-up finds and nothing else
(`Kept.mem_iff`), and counts with the same look-ups are the same value
(`Kept.eq_of_countIn`). This is why the order of the lines does not matter
(`ofLines_perm`).

A ranking holds the same entries. As no key stands twice, entries of one count
are put in order by their keys, and the order is strict (`pairwise_ranking`).
-/

namespace ArmListing.Statistics

variable {key k : String} {n : Nat} {counts others : List (String × Nat)}

/-! ### Counts in normal form -/

/-- The keys ascend, and each of them has been counted. -/
structure Kept (counts : List (String × Nat)) : Prop where
  ascending : Ascending counts
  pos : ∀ entry ∈ counts, 0 < entry.2

theorem pos_bump (h : ∀ entry ∈ counts, 0 < entry.2) :
    ∀ entry ∈ bump key counts, 0 < entry.2 := by
  fun_induction bump key counts with
  | case1 => exact List.forall_mem_singleton.mpr Nat.zero_lt_one
  | case2 k n rest hlt => exact List.forall_mem_cons.mpr ⟨Nat.zero_lt_one, h⟩
  | case3 n rest hle =>
    exact List.forall_mem_cons.mpr ⟨Nat.succ_pos n, (List.forall_mem_cons.mp h).2⟩
  | case4 k n rest hle hne ih =>
    obtain ⟨hfirst, hrest⟩ := List.forall_mem_cons.mp h
    exact List.forall_mem_cons.mpr ⟨hfirst, ih hrest⟩

theorem kept_nil : Kept [] := ⟨List.Pairwise.nil, nofun⟩

theorem Kept.bump (h : Kept counts) (key : String) : Kept (bump key counts) :=
  ⟨ascending_bump h.ascending, pos_bump h.pos⟩

theorem Kept.bumpAll (h : Kept counts) (keys : List String) : Kept (bumpAll counts keys) := by
  induction keys generalizing counts with
  | nil => exact h
  | cons key rest ih => exact ih (h.bump key)

/-- **Counting keeps the normal form.** -/
theorem kept_ofLines (lines : List (List Char)) : Kept (ofLines lines).counts := by
  rw [ofLines_eq]
  exact kept_nil.bumpAll _

/-- **The entries are what a look-up finds.** -/
theorem Kept.mem_iff (h : Kept counts) : (k, n) ∈ counts ↔ countIn counts k = n ∧ 0 < n := by
  induction counts with
  | nil =>
    rw [countIn_nil]
    constructor
    · exact fun hmem => absurd hmem List.not_mem_nil
    · rintro ⟨rfl, hpos⟩
      exact absurd hpos (Nat.lt_irrefl 0)
  | cons first rest ih =>
    obtain ⟨first, m⟩ := first
    obtain ⟨hfirst, hrest⟩ := List.pairwise_cons.mp h.ascending
    obtain ⟨hm, hpos⟩ := List.forall_mem_cons.mp h.pos
    rw [List.mem_cons, Prod.mk.injEq, countIn_cons]
    by_cases hk : first = k
    · subst hk
      -- the key stands in front, so it does not stand behind
      have hbehind : (first, n) ∉ rest := fun hmem =>
        String.lt_irrefl first (hfirst (first, n) hmem)
      rw [if_pos rfl]
      constructor
      · rintro (⟨-, rfl⟩ | hmem)
        · exact ⟨rfl, hm⟩
        · exact absurd hmem hbehind
      · rintro ⟨rfl, -⟩
        exact .inl ⟨rfl, rfl⟩
    · rw [if_neg hk, ← ih ⟨hrest, hpos⟩]
      exact or_iff_right fun heq => hk heq.1.symm

/-- No key stands twice. -/
theorem Ascending.pairwise_ne (h : Ascending counts) : counts.Pairwise fun a b => a.1 ≠ b.1 := by
  refine List.Pairwise.imp (fun {a b} hlt heq => ?_) h
  rw [heq] at hlt
  exact String.lt_irrefl b.1 hlt

theorem Ascending.nodup (h : Ascending counts) : counts.Nodup :=
  h.pairwise_ne.imp fun hne heq => hne (congrArg Prod.fst heq)

/-- **Counts with the same look-ups are the same.** -/
theorem Kept.eq_of_countIn (h : Kept counts) (h' : Kept others)
    (heq : ∀ k, countIn counts k = countIn others k) : counts = others := by
  have hmem : ∀ entry, entry ∈ counts ↔ entry ∈ others := by
    rintro ⟨k, n⟩
    rw [h.mem_iff, h'.mem_iff, heq k]
  have hperm : counts.Perm others :=
    (List.perm_ext_iff_of_nodup h.ascending.nodup h'.ascending.nodup).mpr hmem
  exact hperm.eq_of_pairwise (fun _ _ _ _ hlt hgt => absurd hgt (String.lt_asymm hlt))
    h.ascending h'.ascending

/-! ### Counting lines in any order -/

/-- The statistics of lines, told by their keys. -/
theorem get_ofLines (lines : List (List Char)) (k : String) :
    (ofLines lines).get k = (lines.filterMap keyOfLine?).count k := by
  rw [ofLines_eq, get, countIn_bumpAll List.Pairwise.nil, countIn_nil, Nat.zero_add]

/-- **The order of the lines does not matter.** -/
theorem ofLines_perm {lines lines' : List (List Char)} (h : lines'.Perm lines) :
    ofLines lines' = ofLines lines := by
  have hkeys : (lines'.filterMap keyOfLine?).Perm (lines.filterMap keyOfLine?) := h.filterMap _
  have hcounts : (ofLines lines').counts = (ofLines lines).counts := by
    refine (kept_ofLines lines').eq_of_countIn (kept_ofLines lines) fun k => ?_
    show (ofLines lines').get k = (ofLines lines).get k
    rw [get_ofLines, get_ofLines, hkeys.count_eq]
  have htotal : (ofLines lines').total = (ofLines lines).total := by
    rw [ofLines_eq, ofLines_eq]
    exact hkeys.length_eq
  rw [Statistics.mk.injEq]
  exact ⟨hcounts, htotal⟩

/-- What the calls say that count lines one after the other. -/
def answers : Statistics → List (List Char) → List Bool
  | _, [] => []
  | s, line :: rest => (s.addLine line).1 :: answers (s.addLine line).2 rest

theorem answers_eq (s : Statistics) (lines : List (List Char)) :
    answers s lines = lines.map fun line => (keyOfLine? line).isSome := by
  induction lines generalizing s with
  | nil => rfl
  | cons line rest ih => rw [answers, addLine_fst, ih, List.map_cons]

/-- The total is the number of calls that have counted their line. -/
theorem total_ofLines (lines : List (List Char)) :
    (ofLines lines).total = (answers {} lines).count true := by
  rw [ofLines_eq, answers_eq, List.count_eq_countP, List.countP_map,
    List.length_filterMap_eq_countP]
  refine List.countP_congr fun line _ => ?_
  rw [Function.comp_apply, beq_iff_eq]

/-- It is the sum of the counts. -/
theorem total_eq_sumOf (lines : List (List Char)) :
    (ofLines lines).total = sumOf (ofLines lines).counts := by
  rw [ofLines_eq, sumOf_bumpAll]
  exact (Nat.zero_add _).symm

/-! ### Ranking -/

/-- Higher counts stand first, and equal counts in the order of their keys. -/
def RanksBefore (a b : String × Nat) : Prop := b.2 < a.2 ∨ a.2 = b.2 ∧ a.1 < b.1

theorem precedes_iff {a b : String × Nat} :
    precedes a b = true ↔ b.2 < a.2 ∨ a.2 = b.2 ∧ a.1 ≤ b.1 := by
  unfold precedes
  simp only [Bool.or_eq_true, Bool.and_eq_true, decide_eq_true_eq, beq_iff_eq]

theorem precedes_trans (a b c : String × Nat) (hab : precedes a b = true)
    (hbc : precedes b c = true) : precedes a c = true := by
  rw [precedes_iff] at *
  rcases hab with hab | ⟨hab, hkeys⟩ <;> rcases hbc with hbc | ⟨hbc, hkeys'⟩
  · exact .inl (Nat.lt_trans hbc hab)
  · exact .inl (hbc ▸ hab)
  · exact .inl (hab ▸ hbc)
  · exact .inr ⟨hab.trans hbc, String.le_trans hkeys hkeys'⟩

theorem precedes_total (a b : String × Nat) : (precedes a b || precedes b a) = true := by
  rw [Bool.or_eq_true, precedes_iff, precedes_iff]
  rcases Nat.lt_trichotomy a.2 b.2 with hlt | heq | hgt
  · exact .inr (.inl hlt)
  · rcases String.le_total a.1 b.1 with hle | hle
    · exact .inl (.inr ⟨heq, hle⟩)
    · exact .inr (.inr ⟨heq.symm, hle⟩)
  · exact .inl (.inl hgt)

/-- A ranking has the entries of the counts. -/
theorem ranking_perm (s : Statistics) : s.ranking.Perm s.counts := List.mergeSort_perm ..

/-- No key stands twice in a ranking. -/
theorem pairwise_ne_ranking {s : Statistics} (h : Kept s.counts) :
    s.ranking.Pairwise fun a b => a.1 ≠ b.1 :=
  h.ascending.pairwise_ne.perm (ranking_perm s).symm fun hne => hne.symm

/-- **A ranking is in strict order.** -/
theorem pairwise_ranking {s : Statistics} (h : Kept s.counts) :
    s.ranking.Pairwise RanksBefore := by
  have hsorted : s.ranking.Pairwise fun a b => precedes a b = true :=
    List.pairwise_mergeSort precedes_trans precedes_total s.counts
  refine (hsorted.and (pairwise_ne_ranking h)).imp fun ⟨hab, hne⟩ => ?_
  rcases precedes_iff.mp hab with hlt | ⟨heq, hle⟩
  · exact .inl hlt
  · exact .inr ⟨heq, Std.lt_of_le_of_ne hle hne⟩

/-! ### Laws -/

/-- **The laws of counting.** The total is kept in step with the counts and counts the calls that
have accepted their line, the order of the lines does not matter, a text behind the end of a line
adds its counts to those in front of it, and a ranking shows each key that has been counted once, in
strict order. -/
theorem counting_laws (lines : List (List Char)) :
    ((ofLines lines).total = (answers {} lines).count true ∧
      (ofLines lines).total = sumOf (ofLines lines).counts ∧
      ∀ entry ∈ (ofLines lines).counts, entry.2 ≠ 0) ∧
    (∀ lines' : List (List Char), lines'.Perm lines →
      ofLines lines' = ofLines lines ∧
        (ofLines lines').ranking = (ofLines lines).ranking ∧
        (ofLines lines').report = (ofLines lines).report) ∧
    (∀ front back : String, front = "" ∨ Text.endsLine front.toList = true → ∀ k,
      (ofListing (front ++ back)).get k = (ofListing front).get k + (ofListing back).get k) ∧
    (∀ k n, (k, n) ∈ (ofLines lines).ranking ↔ (ofLines lines).get k = n ∧ 0 < n) ∧
    ((ofLines lines).ranking.map Prod.fst).Nodup ∧
    (ofLines lines).ranking.Pairwise RanksBefore := by
  have hkept := kept_ofLines lines
  refine ⟨⟨total_ofLines lines, total_eq_sumOf lines, fun entry hentry => ?_⟩,
    fun lines' hperm => ?_, fun front back hfront k => ?_, fun k n => ?_, ?_,
    pairwise_ranking hkept⟩
  · exact Nat.ne_of_gt (hkept.pos entry hentry)
  · rw [ofLines_perm hperm]
    exact ⟨rfl, rfl, rfl⟩
  · rw [get_ofListing, get_ofListing, get_ofListing, String.toList_append]
    rcases hfront with rfl | hends
    · exact (Nat.zero_add _).symm
    · rw [keys_append hends, List.count_append]
  · rw [(ranking_perm _).mem_iff, hkept.mem_iff, get]
  · exact List.pairwise_map.mpr (pairwise_ne_ranking hkept)

/-- Two returns, a line that is none, and a move of an immediate, counted in both directions and as
texts behind each other. -/
theorem counting_laws_returns :
    let bx := "00000000: 4770     bx\tlr".toList
    let mov := "00000002: 2001     mov\tr0, #1".toList
    let lines := [bx, "garbage".toList, mov, bx]
    let front := "garbage\r\n00000000: 4770     bx\tlr\n"
    (lines.reverse.Perm lines ∧ ("bx", 2) ∈ (ofLines lines).counts ∧
      Text.endsLine front.toList = true ∧ (ofLines lines).get "mov_i" = 1) ∧
    (ofLines lines).total = (answers {} lines).count true ∧
    (ofLines lines).total = sumOf (ofLines lines).counts ∧ ("bx", 2).2 ≠ 0 ∧
    ofLines lines.reverse = ofLines lines ∧
    (ofLines lines.reverse).ranking = (ofLines lines).ranking ∧
    (ofLines lines.reverse).report = (ofLines lines).report ∧
    (ofListing (front ++ front)).get "bx" =
      (ofListing front).get "bx" + (ofListing front).get "bx" ∧
    ("mov_i", 1) ∈ (ofLines lines).ranking ∧
    ((ofLines lines).ranking.map Prod.fst).Nodup ∧
    (ofLines lines).ranking.Pairwise RanksBefore := by
  intro bx mov lines front
  have hperm : lines.reverse.Perm lines := List.reverse_perm lines
  have hmem : ("bx", 2) ∈ (ofLines lines).counts := by decide
  have hends : Text.endsLine front.toList = true := by decide
  have hget : (ofLines lines).get "mov_i" = 1 := by decide
  obtain ⟨⟨hanswers, hsum, hzero⟩, horder, hbehind, hranking, hnodup, hstrict⟩ :=
    counting_laws lines
  obtain ⟨hvalue, hsame, hreport⟩ := horder lines.reverse hperm
  exact ⟨⟨hperm, hmem, hends, hget⟩, hanswers, hsum, hzero _ hmem, hvalue, hsame, hreport,
    hbehind front front (.inr hends) "bx", (hranking "mov_i" 1).mpr ⟨hget, Nat.one_pos⟩, hnodup,
    hstrict⟩

end ArmListing.Statistics
