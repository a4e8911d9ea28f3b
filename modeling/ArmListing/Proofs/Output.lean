import ArmListing.Output

/-!
# ArmListing.Proofs.Output

**Sinks do not see how a text is cut** into pieces: two texts after each other
leave the same bytes, and the same failure, as both at once (`emit_append`).

So whatever writes piece by piece writes one text, and what a full sink keeps of
it has to be said for one text only (`emit_of_fits`, `emit_of_full`). A sink that
starts empty keeps the first bytes, as many as it has room for (`cuts_emit`).
-/

namespace ArmListing.Sink

variable {sink : Sink}

section Sequence

variable {α β : Type} {first : Output α} {next : α → Output β} {after : Sink}

/-- What follows a success goes on where it has ended. -/
theorem bind_of_ok {result : α} (h : first sink = .ok result after) :
    (first >>= next) sink = next result after := by
  show EStateM.bind first next sink = _
  rw [EStateM.bind, h]

/-- What follows a failure is not reached. -/
theorem bind_of_error {e : ListingError} (h : first sink = .error e after) :
    (first >>= next) sink = .error e after := by
  show EStateM.bind first next sink = _
  rw [EStateM.bind, h]

end Sequence

/-! ### Single texts -/

/-- A text that there is room for is kept as a whole. -/
theorem emit_of_fits (text : String)
    (h : ∀ c ∈ sink.capacity?, text.toUTF8.size ≤ c - sink.written.size) :
    emit text sink = .ok () { sink with written := sink.written ++ text.toUTF8 } := by
  obtain ⟨capacity?, written⟩ := sink
  cases capacity? with
  | none => exact if_pos (Nat.le_refl _)
  | some c => exact if_pos (h c rfl)

/-- Of a text that there is no room for, the sink keeps as much as there is room for. -/
theorem emit_of_full (text : String) {c : Nat} (hc : sink.capacity? = some c)
    (h : c - sink.written.size < text.toUTF8.size) :
    emit text sink = .error .sinkFull
      { sink with written := sink.written ++ text.toUTF8.extract 0 (c - sink.written.size) } := by
  obtain ⟨capacity?, written⟩ := sink
  obtain rfl : capacity? = some c := hc
  exact if_neg (Nat.not_le.mpr h)

@[simp] theorem emit_empty : emit "" = pure () := by
  funext sink
  rw [emit_of_fits _ fun c _ => Nat.zero_le _]
  show EStateM.Result.ok () { sink with written := sink.written ++ ByteArray.empty } = _
  rw [ByteArray.append_empty]
  rfl

/-- **Writing two texts after each other is writing both at once.** -/
theorem emit_append (first second : String) :
    emit (first ++ second) = (do emit first; emit second) := by
  funext sink
  have hutf8 : (first ++ second).toUTF8 = first.toUTF8 ++ second.toUTF8 := rfl
  have hsize : (first ++ second).toUTF8.size = first.toUTF8.size + second.toUTF8.size := by
    rw [hutf8, ByteArray.size_append]
  obtain ⟨_ | c, written⟩ := sink
  case none =>
    rw [bind_of_ok (emit_of_fits first (by simp)), emit_of_fits _ (by simp),
      emit_of_fits _ (by simp), hutf8, ByteArray.append_assoc]
  case some =>
    have hroom : c - (written ++ first.toUTF8).size = c - written.size - first.toUTF8.size := by
      rw [ByteArray.size_append, Nat.sub_sub]
    by_cases hfirst : first.toUTF8.size ≤ c - written.size
    · rw [bind_of_ok (emit_of_fits first fun _ h => Option.some.inj h ▸ hfirst)]
      by_cases hsecond : second.toUTF8.size ≤ c - written.size - first.toUTF8.size
      · have hboth : (first ++ second).toUTF8.size ≤ c - written.size := by omega
        rw [← hroom] at hsecond
        rw [emit_of_fits _ fun _ h => Option.some.inj h ▸ hboth,
          emit_of_fits _ fun _ h => Option.some.inj h ▸ hsecond, hutf8, ByteArray.append_assoc]
      · have hboth : c - written.size < (first ++ second).toUTF8.size := by omega
        have hcut : first.toUTF8.extract 0 (c - written.size) = first.toUTF8 := by
          rw [← Nat.max_eq_left hfirst, ByteArray.extract_zero_max_size]
        rw [← hroom] at hsecond
        rw [emit_of_full _ rfl hboth, emit_of_full _ rfl (Nat.not_le.mp hsecond), hutf8,
          ByteArray.extract_append, hcut, Nat.zero_sub, ByteArray.append_assoc, hroom]
    · have hboth : c - written.size < (first ++ second).toUTF8.size := by omega
      -- the first text is cut already, so nothing of the second one is kept
      have hnothing : second.toUTF8.extract 0 (c - written.size - first.toUTF8.size) = .empty :=
        ByteArray.extract_eq_empty_iff.mpr (by omega)
      rw [bind_of_error (emit_of_full first rfl (Nat.not_le.mp hfirst)),
        emit_of_full _ rfl hboth, hutf8, ByteArray.extract_append, Nat.zero_sub, hnothing,
        ByteArray.append_empty]

/-- Without a capacity nothing is lost. -/
theorem unbounded_emit {α : Type} (text : String) (result : α) :
    (do emit text; return result : Output α) {} = .ok result ⟨none, text.toUTF8⟩ := by
  rw [bind_of_ok (emit_of_fits text (by simp)), ByteArray.empty_append]
  rfl

/-! ### Empty sinks with a capacity -/

/-- An empty sink with room for `capacity` bytes. -/
def ofCapacity (capacity : Nat) : Sink := { capacity? := some capacity }

/-- What a computation makes of an empty sink with room for `capacity` bytes, if it ends with
`result` and the bytes `written` where there is room for everything. -/
structure Cuts {α : Type} (output : Output α) (result : α) (written : ByteArray)
    (capacity : Nat) : Prop where
  /-- Without a capacity the computation comes to its end. -/
  unbounded : output {} = .ok result ⟨none, written⟩
  /-- If there is room for everything, the capacity makes no difference. -/
  fits : written.size ≤ capacity →
    output (ofCapacity capacity) = .ok result ⟨some capacity, written⟩
  /-- If there is not, the computation fails and the sink holds the first bytes. -/
  full : capacity < written.size →
    output (ofCapacity capacity) = .error .sinkFull ⟨some capacity, written.extract 0 capacity⟩

/-- A computation with a capacity succeeds just where there is room for everything. -/
theorem Cuts.isOk_iff {α : Type} {output : Output α} {result : α} {written : ByteArray}
    {capacity : Nat} (h : Cuts output result written capacity) :
    (∃ r sink, output (ofCapacity capacity) = .ok r sink) ↔ written.size ≤ capacity := by
  constructor
  · intro ⟨r, sink, hok⟩
    rcases Nat.lt_or_ge capacity written.size with hfull | hfits
    · rw [h.full hfull] at hok
      contradiction
    · exact hfits
  · intro hfits
    exact ⟨result, _, h.fits hfits⟩

/-- **A text that is emitted is cut at the capacity.** -/
theorem cuts_emit {α : Type} (text : String) (result : α) (capacity : Nat) :
    Cuts (do emit text; return result) result text.toUTF8 capacity where
  unbounded := unbounded_emit text result
  fits hfits := by
    have hroom : ∀ c ∈ (ofCapacity capacity).capacity?, text.toUTF8.size ≤ c - 0 := by
      intro c hc
      obtain rfl := Option.some.inj hc
      exact hfits
    rw [bind_of_ok (emit_of_fits text hroom)]
    simp only [ofCapacity, ByteArray.empty_append]
    rfl
  full hfull := by
    rw [bind_of_error (emit_of_full text rfl hfull)]
    simp only [ofCapacity, ByteArray.empty_append, ByteArray.size_empty, Nat.sub_zero]

end ArmListing.Sink
