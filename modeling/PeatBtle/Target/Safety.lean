import PeatBtle.Target.Documents

/-!
# Decoders on 32-bit targets

Counters, emergencies and documents are read safely whatever the bytes. An
envelope and a clock are read safely exactly where what they announce fits the
word, and a delta document where its clock does. On a host with wider words every
announcement fits.
-/

namespace PeatBtle

open Wire Machine

namespace Machine.Target

/-- Bytes in one slice on a target. -/
structure Slice (t : Target) where
  bytes : Bytes
  holds : t.Holds bytes

def esp32 (overflow : Overflow) : Target := ⟨2 ^ 32, overflow, Nat.le_refl _⟩

end Machine.Target

open Target

/-- Which bytes are read safely with 32-bit words, whatever the build makes of an overflow. -/
theorem decoders_safe_iff (overflow : Overflow) (data : (esp32 overflow).Slice) :
    ((RelayEnvelope.decodeOn (esp32 overflow) data.bytes).Safe ↔
      (28 ≤ data.bytes.length → byteAt data.bytes 0 = relayEnvelopeMarker →
        28 + (u32At data.bytes 24).toNat < 2 ^ 32)) ∧
    ((VectorClock.decodeOn (esp32 overflow) data.bytes).Safe ↔
      (4 ≤ data.bytes.length → 4 + (u32At data.bytes 0).toNat * 12 < 2 ^ 32)) ∧
    ((DeltaDocument.decodeOn (esp32 overflow) data.bytes).Safe ↔
      (18 ≤ data.bytes.length → byteAt data.bytes 0 = deltaDocumentMarker →
        (DeltaFlags.fromByte (byteAt data.bytes 1)).hasVectorClock = true →
          4 + (u32At data.bytes 14).toNat * 12 < 2 ^ 32)) ∧
    (GCounter.decodeOn (esp32 overflow) data.bytes).Safe ∧
    (EmergencyEvent.decodeOn (esp32 overflow) data.bytes).Safe ∧
    ∀ rounds, data.bytes.length ≤ rounds →
      (PeatDocument.decodeOn (esp32 overflow) rounds data.bytes).Safe := by
  refine ⟨RelayEnvelope.safe_decodeOn_iff data.holds, VectorClock.safe_decodeOn_iff data.holds,
    (DeltaDocument.safe_decodeOn_iff data.holds).trans ?_, ?_, ?_, ?_⟩
  · have hlength : (data.bytes.drop 14).length = data.bytes.length - 14 := List.length_drop
    unfold DeltaDocument.ClockFits VectorClock.TableFits
    rw [hlength, u32At_drop, Nat.add_zero]
    constructor
    · intro h hlen hmarker hclock
      exact h (by omega) hmarker hclock (by omega)
    · intro h _ hmarker hclock hlen
      exact h (by omega) hmarker hclock
  · rw [GCounter.decodeOn_eq data.holds]
    exact Run.safe_pure _
  · rw [EmergencyEvent.decodeOn_eq data.holds]
    exact Run.safe_pure _
  · intro rounds henough
    rw [PeatDocument.decodeOn_eq data.holds henough]
    exact Run.safe_pure _

/-- With words of 36 bits or more nothing that 32 bits can announce exceeds them. -/
theorem decoders_agree_on_wide {t : Target} (hwide : 2 ^ 36 ≤ t.limit) (data : t.Slice) :
    RelayEnvelope.decodeOn t data.bytes = pure (RelayEnvelope.decode data.bytes) ∧
    VectorClock.decodeOn t data.bytes = pure (VectorClock.decode data.bytes) ∧
    DeltaDocument.decodeOn t data.bytes = pure (DeltaDocument.decode data.bytes) := by
  have htable : ∀ bytes, VectorClock.TableFits t bytes := by
    intro bytes _
    have hcount := (u32At bytes 0).toNat_lt
    omega
  refine ⟨RelayEnvelope.decodeOn_eq data.holds fun _ _ => ?_,
    VectorClock.decodeOn_eq data.holds (htable _),
    DeltaDocument.decodeOn_eq data.holds fun _ _ _ => htable _⟩
  have hlen := (u32At data.bytes 24).toNat_lt
  omega

/-- An envelope that announces a payload of almost 4 GiB. -/
def hugeEnvelope : Bytes :=
  relayEnvelopeMarker :: (List.replicate 23 0 ++ [0xFF, 0xFF, 0xFF, 0xFF])

/-- A clock whose announced size exceeds 32 bits by twelve bytes. -/
def hugeClock : Bytes := [0x56, 0x55, 0x55, 0x15] ++ List.replicate 12 0

def hugeDelta : Bytes := deltaDocumentMarker :: 0x01 :: (List.replicate 12 0 ++ hugeClock)

/-- A build that notices the overflow stops at it; one that does not takes the payload from an
impossible range, and the loop over the clock's entries runs out of bounds. -/
theorem decoders_overflow :
    ¬ (RelayEnvelope.decodeOn (esp32 .traps) hugeEnvelope).Safe ∧
    RelayEnvelope.decodeOn (esp32 .wraps) hugeEnvelope = ⟨true, .error .outOfBounds⟩ ∧
    ¬ (VectorClock.decodeOn (esp32 .traps) hugeClock).Safe ∧
    VectorClock.decodeOn (esp32 .wraps) hugeClock = ⟨true, .error .outOfBounds⟩ ∧
    ¬ (DeltaDocument.decodeOn (esp32 .traps) hugeDelta).Safe ∧
    DeltaDocument.decodeOn (esp32 .wraps) hugeDelta = ⟨true, .error .outOfBounds⟩ := by
  refine ⟨?_, rfl, ?_, rfl, ?_, rfl⟩ <;> decide

end PeatBtle
