/-! Byte ranges of a header. The ends are 32-bit words: a header is expected to be shorter than
2^32 bytes, and larger offsets lose their high bits. -/

namespace HeaderBindings

/-- A byte range. Comments are blanked in place, so a range of a stripped header is the same
range of the header as written. -/
structure Span where
  start : UInt32
  stop : UInt32
deriving DecidableEq, Repr

namespace Span

/-- The range between two offsets; a reversed one is empty and stands at its start. -/
def between (start stop : Nat) : Span :=
  ⟨start.toUInt32, (max stop start).toUInt32⟩

/-- The length in bytes. -/
def length (span : Span) : UInt32 := span.stop - span.start

/-- Whether the range holds no byte. -/
def isEmpty (span : Span) : Bool := span.start == span.stop

/-- Within the expected size the range has the offsets it was made from. -/
theorem toNat_between {start stop : Nat} (horder : start ≤ stop) (hstop : stop < 4294967296) :
    (between start stop).start.toNat = start ∧ (between start stop).stop.toNat = stop := by
  rw [between, Nat.max_eq_left horder]
  exact ⟨UInt32.toNat_ofNat_of_lt' (by simp only [UInt32.size]; omega),
    UInt32.toNat_ofNat_of_lt' (by simp only [UInt32.size]; omega)⟩

end Span

end HeaderBindings
