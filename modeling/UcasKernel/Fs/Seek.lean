/-
Where `do_lseek` puts a descriptor.

The three branches of the `switch` each compare a sum with one bound of the file.
The sums are C `int`s: the one of `SEEK_END` stays in range, and the one of
`SEEK_CUR` wraps to a negative number when it reaches `2 ^ 31`, which is then
below the size and taken as it is.
-/
import UcasKernel.Fs.Slots

namespace UcasKernel
namespace Fs

/-- The values of `whence`. -/
def seekSet : ℤ := 0
def seekCur : ℤ := 1
def seekEnd : ℤ := 2

/-- What the offset of a seek counts from. -/
inductive SeekBase (curOffset fileSize : ℕ) : ℤ → ℕ → Prop
  | set : SeekBase curOffset fileSize seekSet 0
  | cur : SeekBase curOffset fileSize seekCur curOffset
  | ofEnd : SeekBase curOffset fileSize seekEnd fileSize

/-- The nearest position of a file of the given size. -/
def clampOffset (fileSize : ℕ) (position : ℤ) : ℕ := (max 0 (min position fileSize)).toNat

lemma clampOffset_le (fileSize : ℕ) (position : ℤ) : clampOffset fileSize position ≤ fileSize := by
  simp only [clampOffset]
  omega

lemma cast_clampOffset (fileSize : ℕ) (position : ℤ) :
    (clampOffset fileSize position : ℤ) = max 0 (min position fileSize) := by
  simp only [clampOffset]
  omega

/-- The call returns the clamped position and stores it in the descriptor. -/
def SeeksTo (fs : Fs) (fd offset whence : ℤ) (d : Fdesc) (position : ℕ) : Prop :=
  fs.doLseek fd offset whence = some ((position : ℤ), fs.setFdesc fd { d with offset := position })

/-! ## The three branches -/

lemma seekOffset_set (curOffset fileSize offset : ℤ) :
    seekOffset curOffset fileSize offset seekSet =
      some (if offset ≥ 0 then (if offset > fileSize then fileSize else offset) else 0) := rfl

lemma seekOffset_cur (curOffset fileSize offset : ℤ) :
    seekOffset curOffset fileSize offset seekCur =
      some (if offset ≥ 0 then
          (if toInt32 (offset + curOffset) > fileSize then fileSize
            else toInt32 (offset + curOffset))
        else (if toInt32 (offset + curOffset) ≥ 0 then toInt32 (offset + curOffset) else 0)) := rfl

lemma seekOffset_end (curOffset fileSize offset : ℤ) :
    seekOffset curOffset fileSize offset seekEnd =
      some (if offset ≥ 0 then fileSize
        else (if toInt32 (fileSize + offset) ≥ 0 then toInt32 (fileSize + offset) else 0)) := rfl

section Seek

variable {curOffset fileSize base : ℕ} {offset whence : ℤ}

/-- The sum of `SEEK_CUR` leaves the range of an `int`. -/
def SeekWraps (curOffset : ℕ) (offset whence : ℤ) : Prop :=
  whence = seekCur ∧ 0 ≤ offset ∧ 2 ^ 31 ≤ offset + curOffset

/-- The wrapped sum is negative, so it passes the test against the size. -/
lemma seekOffset_wraps (hcur : curOffset < 2 ^ 31) (hoffset : offset < 2 ^ 31)
    (h : SeekWraps curOffset offset whence) :
    seekOffset curOffset fileSize offset whence = some (offset + curOffset - 2 ^ 32) := by
  obtain ⟨rfl, hpos, hsum⟩ := h
  have hwrap : toInt32 (offset + curOffset) = offset + curOffset - 2 ^ 32 := by
    rw [toInt32, Int.bmod]
    omega
  rw [seekOffset_cur, hwrap, if_pos hpos, if_neg (by omega)]

/-- The other sums are those of the integers. -/
lemma seekOffset_eq_clamp (hle : curOffset ≤ fileSize) (hsize : fileSize < 2 ^ 31)
    (hoffset : -2 ^ 31 ≤ offset) (hbase : SeekBase curOffset fileSize whence base)
    (h : ¬ SeekWraps curOffset offset whence) :
    seekOffset curOffset fileSize offset whence =
      some (clampOffset fileSize (base + offset) : ℤ) := by
  rw [cast_clampOffset]
  cases hbase with
  | set =>
    rw [seekOffset_set]
    congr 1
    by_cases hpos : 0 ≤ offset
    · rw [if_pos hpos]
      split <;> omega
    · rw [if_neg hpos]
      omega
  | cur =>
    have hsum : offset + curOffset < 2 ^ 31 := by
      by_contra hge
      refine h ⟨rfl, ?_, ?_⟩ <;> omega
    rw [seekOffset_cur, toInt32_of_range ⟨by omega, hsum⟩]
    congr 1
    by_cases hpos : 0 ≤ offset
    · rw [if_pos hpos]
      split <;> omega
    · rw [if_neg hpos]
      split <;> omega
  | ofEnd =>
    rw [seekOffset_end]
    congr 1
    by_cases hpos : 0 ≤ offset
    · rw [if_pos hpos]
      omega
    · rw [if_neg hpos, toInt32_of_range ⟨by omega, by omega⟩]
      split <;> omega

end Seek

section DoLseek

variable {fs : Fs} {fd offset whence : ℤ} {d : Fdesc} {x : Inode}

/-- The call, with the result of its `switch`. -/
lemma doLseek_eq (hfd : fs.fdesc fd = some d) (hx : fs.readInode d.inum = some x)
    (hoff : d.offset ≤ x.size) (hsize : x.size < 2 ^ 31) :
    fs.doLseek fd offset whence = (seekOffset d.offset x.size offset whence).map fun result =>
      (result, fs.setFdesc fd { d with offset := (result % 2 ^ 64).toNat }) := by
  have hcur : toInt32 d.offset = d.offset := toInt32_of_range ⟨by omega, by omega⟩
  have hend : toInt32 x.size = x.size := toInt32_of_range ⟨by omega, by omega⟩
  simp only [doLseek, hfd, hx, Option.bind_eq_bind, Option.bind_some, hcur, hend]
  cases seekOffset d.offset x.size offset whence <;> rfl

/-- A seek ends on the clamped position, unless the sum of `SEEK_CUR` is too large for
an `int`. -/
theorem seeks_clamped_iff {base : ℕ} (hfd : fs.fdesc fd = some d)
    (hx : fs.readInode d.inum = some x) (hoff : d.offset ≤ x.size) (hsize : x.size < 2 ^ 31)
    (hoffset : -2 ^ 31 ≤ offset ∧ offset < 2 ^ 31) (hbase : SeekBase d.offset x.size whence base) :
    fs.SeeksTo fd offset whence d (clampOffset x.size (base + offset)) ↔
      ¬ SeekWraps d.offset offset whence := by
  rw [SeeksTo, doLseek_eq hfd hx hoff hsize]
  constructor
  · intro hseek hwrap
    rw [seekOffset_wraps (by omega) hoffset.2 hwrap, Option.map_some, Option.some.injEq,
      Prod.mk.injEq] at hseek
    have hneg : offset + d.offset - 2 ^ 32 < 0 := by omega
    have hpos : (0 : ℤ) ≤ (clampOffset x.size (base + offset) : ℕ) := Int.natCast_nonneg _
    omega
  · intro hwrap
    have hle := clampOffset_le x.size (base + offset)
    have hstored : ((clampOffset x.size (base + offset) : ℤ) % 2 ^ 64).toNat =
        clampOffset x.size (base + offset) := by
      omega
    rw [seekOffset_eq_clamp hoff hsize hoffset.1 hbase hwrap, Option.map_some, hstored]

end DoLseek

/-- A seek from position 1 of a file of one byte, to its end and by `2 ^ 31 - 1`. -/
def seekCard : Fs := fileCard (fileInode 1 fun _ => 0) ⟨1, true, true, 1⟩ fun _ => Bytes.zero

lemma readInode_seekCard : ∃ x, seekCard.readInode 1 = some x ∧ x.size = 1 := by
  obtain ⟨x, hx, hagree⟩ := @readInode_fileCard (fileInode 1 fun _ => 0) ⟨1, true, true, 1⟩
    (fun _ => Bytes.zero) (inRange_fileInode (by decide) fun _ _ => by decide)
  exact ⟨x, hx, hagree.size⟩

theorem seeks_clamped_end :
    ∃ x, seekCard.readInode 1 = some x ∧
      seekCard.SeeksTo 0 0 seekEnd ⟨1, true, true, 1⟩ (clampOffset x.size (x.size + 0)) := by
  obtain ⟨x, hx, hsize⟩ := readInode_seekCard
  refine ⟨x, hx, (seeks_clamped_iff rfl hx hsize.ge (by omega) (by decide) .ofEnd).2 ?_⟩
  exact fun hwrap => absurd hwrap.1 (by decide)

/-- The result of the second seek is `- 2 ^ 31`, where the end of the file is 1. -/
theorem seek_not_clamped :
    seekCard.fdesc 0 = some ⟨1, true, true, 1⟩ ∧
      ∃ x, seekCard.readInode 1 = some x ∧ x.size = 1 ∧
        (∃ fs', seekCard.doLseek 0 (2 ^ 31 - 1) seekCur = some (-2 ^ 31, fs')) ∧
        ¬ seekCard.SeeksTo 0 (2 ^ 31 - 1) seekCur ⟨1, true, true, 1⟩
          (clampOffset x.size ((1 : ℕ) + (2 ^ 31 - 1))) := by
  obtain ⟨x, hx, hsize⟩ := readInode_seekCard
  have hcall : seekCard.doLseek 0 (2 ^ 31 - 1) seekCur = some (-2 ^ 31, seekCard.setFdesc 0
      ⟨1, true, true, (-2 ^ 31 % 2 ^ 64 : ℤ).toNat⟩) := by
    rw [doLseek_eq rfl hx hsize.ge (by omega), hsize,
      seekOffset_wraps (by decide) (by decide) ⟨rfl, by decide, by decide⟩]
    rfl
  refine ⟨rfl, x, hx, hsize, ⟨_, hcall⟩, ?_⟩
  intro hseek
  rw [SeeksTo, hcall, Option.some.injEq, Prod.mk.injEq] at hseek
  have hpos : (0 : ℤ) ≤ (clampOffset x.size ((1 : ℕ) + (2 ^ 31 - 1)) : ℕ) := Int.natCast_nonneg _
  omega

end Fs
end UcasKernel
