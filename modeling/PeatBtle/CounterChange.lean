import PeatBtle.Data.MapTotal
import PeatBtle.Mesh.Effect

/-!
# Reported changes of the counter

A merge notices a change of the counter by comparing two totals, and totals wrap at
64 bits. A document that raises some counts by a multiple of that goes unnoticed,
and beyond it the total is no longer the sum of the counts.
-/

namespace PeatBtle

open Wire

namespace GCounter

variable (c other : GCounter)

/-- The true sum of the counts. -/
def total : Nat := MapTotal.total UInt64.toNat c.counts

/-- What the other counter has in excess of this one. -/
def excess : Nat := MapTotal.excess UInt64.toNat c.counts other.counts

theorem weightAt_counts (node : NodeId) :
    MapTotal.weightAt UInt64.toNat c.counts node = (c.nodeCount node).toNat := by
  unfold MapTotal.weightAt nodeCount
  cases c.counts[node]? <;> rfl

theorem toNat_foldl_add (counts : List UInt64) (start : UInt64) :
    (counts.foldl (· + ·) start).toNat =
      (start.toNat + (counts.map UInt64.toNat).sum) % 2 ^ 64 := by
  induction counts generalizing start with
  | nil =>
      have hlt := start.toNat_lt
      simp only [List.foldl_nil, List.map_nil, List.sum_nil, Nat.add_zero]
      rw [Nat.mod_eq_of_lt hlt]
  | cons count counts ih =>
      rw [List.foldl_cons, ih, UInt64.toNat_add, List.map_cons, List.sum_cons]
      omega

theorem toNat_value : c.value.toNat = c.total % 2 ^ 64 := by
  rw [value, toNat_foldl_add, total, MapTotal.total, List.map_map]
  exact congrArg (· % 2 ^ 64) (Nat.zero_add _)

theorem total_merge : (c.merge other).total = c.total + c.excess other := by
  refine MapTotal.total_of_max fun node => ?_
  rw [weightAt_counts, weightAt_counts, weightAt_counts, toNat_nodeCount_merge]

theorem excess_pos_iff :
    0 < c.excess other ↔ ∃ node, c.nodeCount node < (c.merge other).nodeCount node := by
  simp only [excess, MapTotal.excess_pos_iff, weightAt_counts, UInt64.lt_iff_toNat_lt,
    toNat_nodeCount_merge]
  refine exists_congr fun node => ?_
  omega

theorem value_merge_ne_iff :
    (c.merge other).value ≠ c.value ↔ ¬ 2 ^ 64 ∣ c.excess other := by
  rw [Ne, ← UInt64.toNat_inj, toNat_value, toNat_value, total_merge]
  omega

end GCounter

namespace DocumentSync

variable {s : DocumentSync} {data : Bytes} {received : PeatDocument}

/-- The change of the counter and its total are reported exactly if and only if the counts, each
node's at its larger value, sum to less than 64 bits hold. The change alone is missed if and only if
what the document has in excess is a positive multiple of that. -/
theorem counter_change_exact_iff (h : s.accepts data = some received) :
    ∃ after report, s.mergeDocument data = (after, some report) ∧
      (((report.counterChanged = true ↔
            ∃ node, s.counter.nodeCount node < after.counter.nodeCount node) ∧
          report.totalCount.toNat = after.counter.total) ↔
        s.counter.total + s.counter.excess received.counter < 2 ^ 64) ∧
      ((report.counterChanged = true ↔
          ∃ node, s.counter.nodeCount node < after.counter.nodeCount node) ↔
        ¬ (0 < s.counter.excess received.counter ∧ 2 ^ 64 ∣ s.counter.excess received.counter)) := by
  have hmerged : s.mergeDocument data =
      ((s.mergeReceived received).1, some (s.mergeReceived received).2) := by
    rw [mergeDocument_eq, h]
  refine ⟨_, _, hmerged, ?_⟩
  have hcounter := s.counter_mergeReceived received
  have hreported : (s.mergeReceived received).2.counterChanged = true ↔
      ¬ 2 ^ 64 ∣ s.counter.excess received.counter := by
    rw [← GCounter.value_merge_ne_iff]
    exact bne_iff_ne
  have htotal : (s.mergeReceived received).2.totalCount.toNat =
      (s.counter.total + s.counter.excess received.counter) % 2 ^ 64 := by
    show (s.mergeReceived received).1.counter.value.toNat = _
    rw [hcounter, GCounter.toNat_value, GCounter.total_merge]
  rw [hcounter, ← GCounter.excess_pos_iff, hreported, htotal, GCounter.total_merge]
  generalize s.counter.excess received.counter = excess
  omega

/-- Node 2 has counted to half of what 64 bits hold, and so has node 3. -/
def halves : PeatDocument where
  version := 1
  nodeId := 2
  counter := ⟨((∅ : Map UInt32 UInt64).insert 2 0x8000000000000000).insert 3 0x8000000000000000⟩
  peripheral := none
  emergency := none

theorem halves_unnoticed :
    ((DocumentSync.new 1 "ALPHA").mergeDocument halves.encode).2.map
        (fun report => (report.counterChanged, report.totalCount)) = some (false, 0) ∧
      (DocumentSync.new 1 "ALPHA").counter.nodeCount 2 <
        ((DocumentSync.new 1 "ALPHA").mergeDocument halves.encode).1.counter.nodeCount 2 := by
  decide +kernel

def greeting : PeatDocument := (PeatDocument.new 2).incrementCounter

theorem greeting_noticed :
    ∃ after report,
      (DocumentSync.new 1 "ALPHA").mergeDocument greeting.encode = (after, some report) ∧
      (report.counterChanged = true ↔
          ∃ node, (DocumentSync.new 1 "ALPHA").counter.nodeCount node < after.counter.nodeCount node) ∧
        report.totalCount.toNat = after.counter.total := by
  have haccepts : (DocumentSync.new 1 "ALPHA").accepts greeting.encode = some greeting := by
    decide +kernel
  obtain ⟨after, report, hmerged, hexact, -⟩ := counter_change_exact_iff haccepts
  exact ⟨after, report, hmerged, hexact.mpr (by decide +kernel)⟩

end DocumentSync

end PeatBtle
