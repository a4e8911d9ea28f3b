import ArmListing.Proofs.Listing

/-!
# ArmListing.Proofs.Listing.Capacity

Listings into a **sink that may run full**. Since a listing is one text, it does
not matter where in it the room ends: inside a column, between two lines, in the
header or in the trailer. What the sink holds is the beginning of the listing
that is as long as the sink is large, and the outcome says whether that is all
of it (`write_ofCapacity`).
-/

namespace ArmListing.Listing

variable {decoder : Decoder} {target : Target} {data : Array UInt8} {span : Span} {w : Walk}

theorem cuts_writeLines (h : Walk.start decoder target data span = .ok w) (capacity : Nat) :
    Sink.Cuts (writeLines decoder target data span) (.ofLines w.lines) (body w.lines).toUTF8
      capacity := by
  rw [writeLines_eq h]
  exact Sink.cuts_emit ..

theorem cuts_write (h : Walk.start decoder target data span = .ok w) (capacity : Nat) :
    Sink.Cuts (write decoder target data span) (.ofLines w.lines) (text w.left w.lines).toUTF8
      capacity := by
  rw [write_eq h]
  exact Sink.cuts_emit ..

/-- A span outside the data is refused with nothing written, however small the sink is. Otherwise
there is a text that a sink without a capacity takes. A sink with a capacity takes it too, with the
same outcome, if and only if it has room for all of it; else writing fails and the sink holds the
first bytes of the text. -/
theorem write_ofCapacity (decoder : Decoder) (target : Target) (data : Array UInt8) (span : Span)
    (capacity : Nat) :
    match span.resolve? data.size with
    | none =>
      writeLines decoder target data span (.ofCapacity capacity) =
          .error (.outOfRange span data.size) (.ofCapacity capacity) ∧
        write decoder target data span (.ofCapacity capacity) =
          .error (.outOfRange span data.size) (.ofCapacity capacity)
    | some _ =>
      (∃ tally written,
        Sink.Cuts (writeLines decoder target data span) tally written capacity ∧
          ((∃ r sink, writeLines decoder target data span (.ofCapacity capacity) = .ok r sink) ↔
            written.size ≤ capacity)) ∧
      (∃ tally written,
        Sink.Cuts (write decoder target data span) tally written capacity ∧
          ((∃ r sink, write decoder target data span (.ofCapacity capacity) = .ok r sink) ↔
            written.size ≤ capacity)) := by
  cases hresolve : span.resolve? data.size with
  | none => exact write_of_outOfRange hresolve _
  | some r =>
    have hstart : Walk.start decoder target data span = _ := Walk.start_of_resolve? hresolve
    have hlines := cuts_writeLines hstart capacity
    have hlisting := cuts_write hstart capacity
    exact ⟨⟨_, _, hlines, hlines.isOk_iff⟩, _, _, hlisting, hlisting.isOk_iff⟩

end ArmListing.Listing
