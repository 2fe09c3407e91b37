import Embext.Implementation.Partition
import Mathlib.Data.List.Basic

set_option autoImplicit false

/-! # Partitions inside the volume

A partition table is read right when the list handed out is the table's entries that lie inside the
volume. The driver adds start and length in 32 bits, so an entry whose end is past the last 32-bit
block number looks as if it ended near the beginning. -/

namespace Embext

instance retval_neZero : NeZero 4 := ⟨by decide⟩

/-- The blocks of the entry are blocks of the volume, and not its first one. -/
def MbrEntry.Inside (volumeSize : UInt32) (entry : MbrEntry) : Prop :=
  0 < entry.lbaStart.toNat ∧ 0 < entry.length.toNat ∧
    entry.lbaStart.toNat + entry.length.toNat ≤ volumeSize.toNat

instance (volumeSize : UInt32) (entry : MbrEntry) : Decidable (entry.Inside volumeSize) :=
  inferInstanceAs (Decidable (_ ∧ _ ∧ _))

/-- The entry starts inside the volume and its end is no 32-bit number. -/
def MbrEntry.Wraps (volumeSize : UInt32) (entry : MbrEntry) : Prop :=
  0 < entry.lbaStart.toNat ∧ entry.lbaStart.toNat < volumeSize.toNat ∧
    2 ^ 32 ≤ entry.lbaStart.toNat + entry.length.toNat

/-- The four entries, in table order. -/
def mbrEntries (mbr : Sector) : List MbrEntry := (List.range 4).map (mbrEntry mbr)

/-- The partitions of the table that lie inside the volume. -/
def partitionsInside (mbr : Sector) (volumeSize : UInt32) : List Partition :=
  ((mbrEntries mbr).filter fun entry => entry.Inside volumeSize).map MbrEntry.partition

/-- The call returns the number of partitions inside the volume and hands out just these. -/
def ReadsPartitions (mbr : Sector) (volumeSize : UInt32) (retval : Retval) : Prop :=
  ∃ n retval', readPartitionTable mbr volumeSize retval = .ok (n, retval') ∧
    n = (partitionsInside mbr volumeSize).length ∧
    Window.slice retval' 0 n = partitionsInside mbr volumeSize

variable {volumeSize : UInt32} {mbr : Sector} {entry : MbrEntry}

/-! ## The test -/

/-- What the test lets through. -/
theorem MbrEntry.valid_iff :
    entry.valid volumeSize = true ↔ entry.Inside volumeSize ∨ entry.Wraps volumeSize := by
  have hstart := entry.lbaStart.toNat_lt
  have hlength := entry.length.toNat_lt
  have hvolume := volumeSize.toNat_lt
  have h0 : (0 : UInt32).toNat = 0 := rfl
  unfold MbrEntry.valid MbrEntry.Inside MbrEntry.Wraps
  rw [decide_eq_true_iff, gt_iff_lt, gt_iff_lt, UInt32.lt_iff_toNat_lt, UInt32.lt_iff_toNat_lt,
    UInt32.lt_iff_toNat_lt, UInt32.le_iff_toNat_le, UInt32.toNat_add, h0]
  omega

/-- No entry inside the volume has an end that wraps. -/
theorem MbrEntry.Wraps.not_inside (h : entry.Wraps volumeSize) : ¬ entry.Inside volumeSize := by
  have hvolume := volumeSize.toNat_lt
  unfold MbrEntry.Wraps at h
  unfold MbrEntry.Inside
  omega

/-! ## The loop -/

/-- Putting one more partition behind the ones found. -/
theorem slice_found (retval : Retval) {j : Nat} (hj : j < 4) (p : Partition) :
    Window.slice (Window.patch retval j [p]) 0 (j + 1) = Window.slice retval 0 j ++ [p] := by
  have hlast : Window.slice (Window.patch retval j [p]) j [p].length = [p] :=
    Window.slice_patch_self retval hj
  rw [Window.slice_add, Window.slice_patch_disjoint retval (by omega) (.inl (by omega)),
    Nat.zero_add]
  exact congrArg (Window.slice retval 0 j ++ ·) hlast

/-- The loop appends the partitions of the entries that pass the test. -/
theorem readEntries_ok (mbr : Sector) (volumeSize : UInt32) (is : List Nat) :
    ∀ (j : Nat) (retval : Retval), j + is.length ≤ 4 →
    ∃ retval', readEntries mbr volumeSize is j retval = .ok
        (j + ((is.map (mbrEntry mbr)).filter (·.valid volumeSize)).length, retval') ∧
      Window.slice retval' 0 (j + ((is.map (mbrEntry mbr)).filter (·.valid volumeSize)).length) =
        Window.slice retval 0 j ++
          ((is.map (mbrEntry mbr)).filter (·.valid volumeSize)).map MbrEntry.partition := by
  induction is with
  | nil =>
    intro j retval _
    exact ⟨retval, rfl, by simp⟩
  | cons i rest ih =>
    intro j retval hroom
    rw [List.length_cons] at hroom
    rw [List.map_cons]
    by_cases hvalid : (mbrEntry mbr i).valid volumeSize = true
    · have hj : j < 4 := by omega
      obtain ⟨retval', hrun, hslice⟩ := ih (j + 1)
        (Window.patch retval j [(mbrEntry mbr i).partition]) (by omega)
      have hcount : ∀ n, j + (n + 1) = j + 1 + n := by omega
      rw [List.filter_cons_of_pos hvalid, List.length_cons, hcount]
      refine ⟨retval', ?_, ?_⟩
      · rw [readEntries, if_pos hvalid, if_pos hj, hrun]
      · rw [hslice, slice_found retval hj, List.append_assoc, List.map_cons,
          List.singleton_append]
    · obtain ⟨retval', hrun, hslice⟩ := ih j retval (by omega)
      rw [List.filter_cons_of_neg hvalid]
      refine ⟨retval', ?_, hslice⟩
      rw [readEntries, if_neg hvalid, hrun]

/-- The call hands out the partitions of the entries that pass the test. -/
theorem readPartitionTable_ok (mbr : Sector) (volumeSize : UInt32) (retval : Retval) :
    ∃ retval', readPartitionTable mbr volumeSize retval =
        .ok (((mbrEntries mbr).filter (·.valid volumeSize)).length, retval') ∧
      Window.slice retval' 0 ((mbrEntries mbr).filter (·.valid volumeSize)).length =
        ((mbrEntries mbr).filter (·.valid volumeSize)).map MbrEntry.partition := by
  obtain ⟨retval', hrun, hslice⟩ := readEntries_ok mbr volumeSize (List.range 4) 0 retval
    (by simp)
  rw [Nat.zero_add] at hrun hslice
  exact ⟨retval', hrun, hslice⟩

/-! ## The table -/

/-- **A partition table is read right** exactly when no entry that starts inside the volume has an
end past the 32-bit block numbers. -/
theorem readsPartitions_iff (mbr : Sector) (volumeSize : UInt32) (retval : Retval) :
    ReadsPartitions mbr volumeSize retval ↔
      ∀ entry ∈ mbrEntries mbr, ¬ entry.Wraps volumeSize := by
  obtain ⟨retval', hrun, hslice⟩ := readPartitionTable_ok mbr volumeSize retval
  constructor
  · rintro ⟨n, r, hread, hcount, -⟩ entry hmem hwraps
    rw [hrun] at hread
    cases hread
    -- the entry that wraps is counted, the ones inside the volume all are
    have hsub : ((mbrEntries mbr).filter fun entry => entry.Inside volumeSize).Sublist
        ((mbrEntries mbr).filter (·.valid volumeSize)) :=
      List.monotone_filter_right _ fun e he =>
        MbrEntry.valid_iff.2 (.inl (of_decide_eq_true he))
    have heq := hsub.eq_of_length (by rw [hcount, partitionsInside, List.length_map])
    have hin : entry ∈ (mbrEntries mbr).filter (·.valid volumeSize) :=
      List.mem_filter.2 ⟨hmem, MbrEntry.valid_iff.2 (.inr hwraps)⟩
    rw [← heq] at hin
    exact hwraps.not_inside (of_decide_eq_true (List.mem_filter.1 hin).2)
  · intro hall
    have heq : (mbrEntries mbr).filter (·.valid volumeSize) =
        (mbrEntries mbr).filter fun entry => entry.Inside volumeSize := by
      apply List.filter_congr
      intro entry hmem
      rw [Bool.eq_iff_iff, MbrEntry.valid_iff, decide_eq_true_iff]
      exact or_iff_left (hall entry hmem)
    rw [heq] at hrun hslice
    exact ⟨_, retval', hrun, by rw [partitionsInside, List.length_map], hslice⟩

/-- A record with one entry, of 4294967295 blocks from block 2 on. -/
def wrappingMbr : Sector :=
  Window.patch (fun _ => 0) partition0Start
    (MbrEntry.packed.bytes ⟨0, fun _ => 0, 0x0B, fun _ => 0, 2, 0xFFFFFFFF⟩)

/-- Its end wraps to block 1, so it passes for a partition of a volume of 100 blocks. -/
theorem readsPartitions_fails :
    ¬ ReadsPartitions wrappingMbr 100 fun _ => ⟨0, 0, 0⟩ := by
  rintro ⟨n, retval', hread, hcount, -⟩
  have hone : (readPartitionTable wrappingMbr 100 fun _ => ⟨0, 0, 0⟩).toOption.map Prod.fst =
      some 1 := by decide +kernel
  have hnone : (partitionsInside wrappingMbr 100).length = 0 := by decide +kernel
  rw [hread, hcount, hnone] at hone
  simp [Except.toOption] at hone

end Embext
