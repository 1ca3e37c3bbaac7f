/-
What `do_fread` puts into the buffer of the caller.

The request is cut at the block boundaries of the file, and each piece is copied to the
start of `buff`: the loop advances the offset and the count, not the buffer.  So the
buffer ends up with the last piece, and where that one is shorter, with the end of the
one before.
-/
import UcasKernel.Fs.Slots

namespace UcasKernel
namespace Fs

/-- The block number that `offset_to_blk` finds for a position of a file. -/
def blkNum (fs : Fs) (x : Inode) (p : ℕ) : ℕ := (fs.offsetToBlk p x).1

/-- The byte of a file at a position. -/
def fileByte (fs : Fs) (x : Inode) (p : ℕ) : UInt8 :=
  (fs.readBlock (fs.blkNum x p)).blockBuf (p % nbytesPerBlock)

/-- The length of the first piece of a request. -/
def piece (offset n : ℕ) : ℕ := min n (nbytesPerBlock - offset % nbytesPerBlock)

/-- Where the last piece of a request starts, and where the one before it does: in a
request of one piece both are the offset. -/
def lastStart (offset n : ℕ) : ℕ :=
  max offset (nbytesPerBlock * ((offset + n - 1) / nbytesPerBlock))
def prevStart (offset n : ℕ) : ℕ := max offset (lastStart offset n - nbytesPerBlock)

/-- The position of the file whose byte ends up at index `i` of the buffer. -/
def source (offset n i : ℕ) : Option ℕ :=
  if lastStart offset n + i < offset + n then some (lastStart offset n + i)
  else if prevStart offset n + i < lastStart offset n then some (prevStart offset n + i)
  else none

/-- The buffer after a request. -/
def readInto (fs : Fs) (x : Inode) (offset n : ℕ) (buff : Bytes) : Bytes :=
  fun i => ((source offset n i).map (fs.fileByte x)).getD (buff i)

/-! ## The blocks of a file -/

section Blocks

variable {fs : Fs} {x : Inode} {p q : ℕ}

/-- A position has the block number of its block of the file. -/
lemma blkNum_congr (h : p / nbytesPerBlock = q / nbytesPerBlock) :
    fs.blkNum x p = fs.blkNum x q := by
  simp only [blkNum, offsetToBlk, h]

lemma offsetToBlk_snd (fs : Fs) (x : Inode) (p : ℕ) :
    ∃ buf, (fs.offsetToBlk p x).2 = { fs with blockBuf := buf } := by
  refine ⟨(fs.offsetToBlk p x).2.blockBuf, ?_⟩
  unfold offsetToBlk
  dsimp only
  split
  · rfl
  · split <;> rfl

/-- Lookups do not depend on the block buffer. -/
lemma blkNum_setBlockBuf (fs : Fs) (buf : Bytes) : blkNum { fs with blockBuf := buf } = fs.blkNum := by
  funext x p
  unfold blkNum offsetToBlk
  dsimp only
  split
  · rfl
  · split <;> rfl

lemma blkNum_readBlock (fs : Fs) (b : ℕ) : (fs.readBlock b).blkNum = fs.blkNum :=
  blkNum_setBlockBuf fs _

lemma fileByte_readBlock (fs : Fs) (b : ℕ) : (fs.readBlock b).fileByte = fs.fileByte := by
  funext x p
  rw [fileByte, blkNum_readBlock]
  rfl

end Blocks

/-! ## Pieces -/

section Pieces

variable {offset n i p : ℕ}

lemma piece_le (offset n : ℕ) : piece offset n ≤ n := Nat.min_le_left ..

lemma piece_pos (hn : 0 < n) : 0 < piece offset n := by
  simp only [piece, nbytesPerBlock]
  omega

lemma source_zero (offset i : ℕ) : source offset 0 i = none := by
  have hlast : lastStart offset 0 = offset := by
    simp only [lastStart, nbytesPerBlock]
    omega
  rw [source, prevStart, hlast, if_neg (by omega), if_neg (by omega)]

/-- Only the first `n` bytes of the buffer are written. -/
lemma source_lt (h : source offset n i = some p) : i < n := by
  have hlast : offset ≤ lastStart offset n := le_max_left _ _
  have hprev : offset ≤ prevStart offset n := le_max_left _ _
  rw [source] at h
  split at h
  · omega
  · split at h
    · have hle : n ≠ 0 → lastStart offset n < offset + n := by
        simp only [lastStart, nbytesPerBlock]
        omega
      by_cases hn : n = 0
      · subst hn
        rename_i hin
        simp only [prevStart, lastStart, nbytesPerBlock] at hin
        omega
      · have := hle hn
        omega
    · cases h

/-- A request of one piece. -/
lemma source_piece (hn : n ≤ nbytesPerBlock - offset % nbytesPerBlock) (i : ℕ) :
    source offset n i = if i < n then some (offset + i) else none := by
  have hlast : lastStart offset n = offset := by
    simp only [lastStart, nbytesPerBlock] at *
    omega
  rw [source, prevStart, hlast]
  by_cases hi : i < n
  · rw [if_pos (by omega), if_pos hi]
  · rw [if_neg (by omega), if_neg (by omega), if_neg hi]

/-- The first piece shows where the rest of the request leaves the buffer alone. -/
lemma source_cons {m : ℕ} (hm : 0 < m) (i : ℕ) :
    source offset (nbytesPerBlock - offset % nbytesPerBlock + m) i =
      (source (offset + (nbytesPerBlock - offset % nbytesPerBlock)) m i).or
        (if i < nbytesPerBlock - offset % nbytesPerBlock then some (offset + i) else none) := by
  obtain ⟨l, hl⟩ : ∃ l, nbytesPerBlock - offset % nbytesPerBlock = l := ⟨_, rfl⟩
  have hlast : lastStart offset (l + m) = lastStart (offset + l) m := by
    simp only [lastStart, nbytesPerBlock] at *
    omega
  obtain ⟨s, hs⟩ : ∃ s, lastStart (offset + l) m = s := ⟨_, rfl⟩
  have hbounds : 0 < l ∧ l ≤ nbytesPerBlock ∧ s < offset + l + m ∧
      (s = offset + l ∨ offset + l + nbytesPerBlock ≤ s) := by
    simp only [lastStart, nbytesPerBlock] at *
    omega
  obtain ⟨hl0, hl1, hlt, hnext⟩ := hbounds
  rw [hl, source, source, prevStart, prevStart, hlast, hs, ← Nat.add_assoc]
  by_cases hin : s + i < offset + l + m
  · rw [if_pos hin, if_pos hin]
    rfl
  rw [if_neg hin, if_neg hin]
  rcases hnext with heq | hle
  · -- the first piece is the one before the last
    have hprev : max offset (s - nbytesPerBlock) = offset := by omega
    have hprev' : max (offset + l) (s - nbytesPerBlock) = offset + l := by omega
    rw [hprev, hprev', if_neg (show ¬ offset + l + i < s by omega), Option.none_or]
    exact if_congr (by omega) rfl rfl
  · have hprev : max offset (s - nbytesPerBlock) = s - nbytesPerBlock := by omega
    have hprev' : max (offset + l) (s - nbytesPerBlock) = s - nbytesPerBlock := by omega
    rw [hprev, hprev']
    by_cases hi : i < nbytesPerBlock
    · rw [if_pos (by omega)]
      rfl
    · rw [if_neg (by omega), if_neg (by omega), Option.none_or]

end Pieces

section Into

variable {fs : Fs} {x : Inode} {offset : ℕ} {buff : Bytes}

lemma readInto_zero (fs : Fs) (x : Inode) (offset : ℕ) (buff : Bytes) :
    fs.readInto x offset 0 buff = buff := by
  funext i
  rw [readInto, source_zero]
  rfl

lemma readInto_readBlock (fs : Fs) (b : ℕ) : (fs.readBlock b).readInto = fs.readInto := by
  funext x offset n buff i
  rw [readInto, readInto, fileByte_readBlock]

lemma readInto_of_le (fs : Fs) (x : Inode) (buff : Bytes) {n i : ℕ} (hi : n ≤ i) :
    fs.readInto x offset n buff i = buff i := by
  have hnone : source offset n i = none := by
    by_contra hsome
    obtain ⟨p, hp⟩ := Option.ne_none_iff_exists'.1 hsome
    exact absurd (source_lt hp) (by omega)
  rw [readInto, hnone]
  rfl

/-- The bytes of one piece. -/
lemma readInto_piece (fs : Fs) (x : Inode) (buff : Bytes) {n : ℕ}
    (hn : n ≤ nbytesPerBlock - offset % nbytesPerBlock) :
    fs.readInto x offset n buff = Bytes.blit buff 0
      (fs.readBlock (fs.blkNum x offset)).blockBuf (offset % nbytesPerBlock) n := by
  funext i
  rw [readInto, source_piece hn]
  by_cases hi : i < n
  · have hdiv : (offset + i) / nbytesPerBlock = offset / nbytesPerBlock := by
      simp only [nbytesPerBlock] at *
      omega
    have hmod : (offset + i) % nbytesPerBlock = offset % nbytesPerBlock + i := by
      simp only [nbytesPerBlock] at *
      omega
    rw [if_pos hi, Bytes.blit_apply_of_mem (by omega), Option.map_some, Option.getD_some, fileByte,
      blkNum_congr hdiv, hmod, Nat.sub_zero]
  · rw [if_neg hi, Bytes.blit_apply_of_notMem (by omega)]
    rfl

/-- A piece up to the end of a block, and the rest of the request behind it. -/
lemma readInto_cons (fs : Fs) (x : Inode) (offset : ℕ) (buff : Bytes) {m : ℕ} (hm : 0 < m) :
    fs.readInto x (offset + (nbytesPerBlock - offset % nbytesPerBlock)) m
        (fs.readInto x offset (nbytesPerBlock - offset % nbytesPerBlock) buff) =
      fs.readInto x offset (nbytesPerBlock - offset % nbytesPerBlock + m) buff := by
  funext i
  rw [readInto, readInto, readInto, source_cons hm, source_piece le_rfl]
  cases source (offset + (nbytesPerBlock - offset % nbytesPerBlock)) m i <;> rfl

end Into

/-! ## The loop -/

section Loop

variable {fs : Fs} {x : Inode} {offset n fuel : ℕ} {buff : Bytes} {bytesRead : ℤ}

/-- The C expression for the length of a piece, where its sum is an `int`. -/
lemma pieceLen_eq (h : offset % nbytesPerBlock + n < 2 ^ 31) :
    pieceLen (offset % nbytesPerBlock) n = (piece offset n : ℕ) := by
  have hr : offset % nbytesPerBlock < 4096 := Nat.mod_lt _ (by decide)
  rw [pieceLen, toInt32_of_range ⟨by omega, by exact_mod_cast h⟩, piece]
  by_cases hover : ((offset % nbytesPerBlock : ℕ) : ℤ) + n > nbytesPerBlock
  · rw [if_pos hover]
    simp only [nbytesPerBlock] at *
    omega
  · rw [if_neg hover]
    simp only [nbytesPerBlock] at *
    omega

/-- Where the sum is not, the piece is the whole request and leaves the block buffer. -/
lemma pieceLen_of_overflow (hn : n < 2 ^ 31) (h : 2 ^ 31 ≤ offset % nbytesPerBlock + n) :
    pieceLen (offset % nbytesPerBlock) n = n := by
  have hr : offset % nbytesPerBlock < 4096 := Nat.mod_lt _ (by decide)
  have hneg : toInt32 (((offset % nbytesPerBlock : ℕ) : ℤ) + n) ≤ nbytesPerBlock := by
    rw [toInt32, Int.bmod]
    simp only [nbytesPerBlock] at *
    omega
  rw [pieceLen, if_neg (not_lt.2 hneg)]

lemma freadLoop_done : freadLoop fuel fs x offset buff (0 : ℕ) bytesRead =
    some (bytesRead, buff, fs) := by
  cases fuel with
  | zero => rfl
  | succ fuel => rw [freadLoop, if_pos (by simp)]

/-- The loop ends at a block that the file does not have. -/
lemma freadLoop_missing (hn : 0 < n) (hblk : fs.blkNum x offset = 0) :
    freadLoop (fuel + 1) fs x offset buff n bytesRead =
      some (bytesRead, buff, (fs.offsetToBlk offset x).2) := by
  rw [freadLoop, if_neg (by omega)]
  exact if_pos hblk

/-- One round of the loop. -/
lemma freadLoop_piece (hn : 0 < n) (hblk : fs.blkNum x offset ≠ 0)
    (hint : offset % nbytesPerBlock + n < 2 ^ 31) :
    freadLoop (fuel + 1) fs x offset buff n bytesRead =
      freadLoop fuel (fs.readBlock (fs.blkNum x offset)) x ((offset + piece offset n) % 2 ^ 32)
        (fs.readInto x offset (piece offset n) buff) (n - piece offset n : ℕ)
        (bytesRead + piece offset n) := by
  have hin : ¬ ((offset % nbytesPerBlock : ℕ) : ℤ) + (piece offset n : ℕ) > nbytesPerBlock := by
    simp only [piece, nbytesPerBlock]
    omega
  obtain ⟨buf, hbuf⟩ := offsetToBlk_snd fs x offset
  have hpair : fs.offsetToBlk offset x = (fs.blkNum x offset, { fs with blockBuf := buf }) :=
    Prod.ext rfl hbuf
  have hle := piece_le offset n
  have hblock : piece offset n ≤ nbytesPerBlock - offset % nbytesPerBlock := Nat.min_le_right ..
  rw [freadLoop, if_neg (by omega), hpair]
  dsimp only
  rw [if_neg hblk, pieceLen_eq hint, if_neg hin, Int.toNat_natCast,
    readInto_piece fs x buff hblock, Int.ofNat_sub hle]
  rfl

/-- A sum that overflows sends the copy past the block buffer. -/
lemma freadLoop_overflow (hn : n < 2 ^ 31) (hblk : fs.blkNum x offset ≠ 0)
    (hint : 2 ^ 31 ≤ offset % nbytesPerBlock + n) :
    freadLoop (fuel + 1) fs x offset buff n bytesRead = none := by
  have hr : offset % nbytesPerBlock < 4096 := Nat.mod_lt _ (by decide)
  have hblk' : (fs.offsetToBlk offset x).1 ≠ 0 := hblk
  rw [freadLoop, if_neg (by omega)]
  dsimp only
  rw [pieceLen_of_overflow hn hint, if_neg hblk', if_pos]
  simp only [nbytesPerBlock] at *
  omega

/-- The loop reads up to the end of the request or to the first block that is missing. -/
lemma freadLoop_spec (hfuel : n < fuel) (hoff : offset < 2 ^ 32)
    (hint : fs.blkNum x offset ≠ 0 → offset % nbytesPerBlock + n < 2 ^ 31)
    (hend : offset + n ≤ 2 ^ 32 ∨ ∃ q, offset ≤ q ∧ q < 2 ^ 32 ∧ fs.blkNum x q = 0) :
    ∃ r buf, freadLoop fuel fs x offset buff n bytesRead =
        some (bytesRead + (r : ℕ), fs.readInto x offset r buff, { fs with blockBuf := buf }) ∧
      r ≤ n ∧ (∀ p, offset ≤ p → p < offset + r → fs.blkNum x p ≠ 0) ∧
      (r < n → fs.blkNum x (offset + r) = 0) := by
  induction fuel generalizing fs offset n buff bytesRead with
  | zero => omega
  | succ fuel ih =>
    rcases Nat.eq_zero_or_pos n with rfl | hn
    · refine ⟨0, fs.blockBuf, ?_, le_rfl, fun p hlo hhi => by omega, fun h => absurd h (by omega)⟩
      rw [readInto_zero, freadLoop_done, Nat.cast_zero, add_zero]
    by_cases hblk : fs.blkNum x offset = 0
    · obtain ⟨buf, hbuf⟩ := offsetToBlk_snd fs x offset
      refine ⟨0, buf, ?_, Nat.zero_le _, fun p hlo hhi => by omega, fun _ => hblk⟩
      rw [readInto_zero, freadLoop_missing hn hblk, hbuf, Nat.cast_zero, add_zero]
    have hpiece := @piece_pos offset n hn
    have hint' := hint hblk
    obtain ⟨l, hl⟩ : ∃ l, piece offset n = l := ⟨_, rfl⟩
    rw [freadLoop_piece hn hblk hint', hl]
    -- the whole piece lies in the block of the offset
    have hsame : ∀ p, offset ≤ p → p < offset + l → fs.blkNum x p = fs.blkNum x offset := by
      intro p hlo hhi
      refine blkNum_congr ?_
      simp only [piece, nbytesPerBlock] at *
      omega
    rcases Nat.eq_or_lt_of_le (hl ▸ piece_le offset n) with heq | hlt
    · refine ⟨l, (fs.readBlock (fs.blkNum x offset)).blockBuf, ?_, heq.le, fun p hlo hhi => ?_,
        fun h => absurd h (by omega)⟩
      · rw [heq, Nat.sub_self, freadLoop_done, readBlock]
      · rw [hsame p hlo hhi]
        exact hblk
    · have hl' : l = nbytesPerBlock - offset % nbytesPerBlock := by
        simp only [piece, nbytesPerBlock] at *
        omega
      have hnext : offset + l < 2 ^ 32 := by
        rcases hend with hend | ⟨q, hlo, hhi, hq⟩
        · omega
        · by_contra hge
          refine hblk ?_
          rw [← hsame q hlo (by omega), hq]
      have hint₁ : (offset + l) % nbytesPerBlock + (n - l) < 2 ^ 31 := by
        simp only [nbytesPerBlock] at *
        omega
      have hend₁ : offset + l + (n - l) ≤ 2 ^ 32 ∨
          ∃ q, offset + l ≤ q ∧ q < 2 ^ 32 ∧ fs.blkNum x q = 0 := by
        rcases hend with hend | ⟨q, hlo, hhi, hq⟩
        · exact .inl (by omega)
        · refine .inr ⟨q, ?_, hhi, hq⟩
          by_contra hlt'
          refine hblk ?_
          rw [← hsame q hlo (by omega), hq]
      have hrest := @ih (fs.readBlock (fs.blkNum x offset)) (offset + l) (n - l)
        (fs.readInto x offset l buff) (bytesRead + l) (by omega) hnext
      rw [blkNum_readBlock, readInto_readBlock] at hrest
      obtain ⟨r, buf, hloop, hr, hall, hstop⟩ := hrest (fun _ => hint₁) hend₁
      clear hrest hend hend₁
      have hinto : fs.readInto x (offset + l) r (fs.readInto x offset l buff) =
          fs.readInto x offset (l + r) buff := by
        rcases Nat.eq_zero_or_pos r with rfl | hr0
        · rw [readInto_zero, Nat.add_zero]
        · rw [hl', readInto_cons _ _ _ _ hr0]
      refine ⟨l + r, buf, ?_, by omega, fun p hlo hhi => ?_, fun h => ?_⟩
      · rw [Nat.mod_eq_of_lt hnext, hloop, hinto, Nat.cast_add, add_assoc]
        rfl
      · by_cases hp : p < offset + l
        · rw [hsame p hlo hp]
          exact hblk
        · exact hall p (by omega) (by omega)
      · rw [← Nat.add_assoc]
        exact hstop (by omega)

/-- What the loop returns counts at least the bytes before the first block that is missing. -/
lemma freadLoop_reads {m : ℕ} {r : ℤ} {buff' : Bytes} {fs' : Fs} (hfuel : n < fuel)
    (hn : n < 2 ^ 31) (hm : m ≤ n) (hend : offset + m ≤ 2 ^ 32)
    (hall : ∀ p, offset ≤ p → p < offset + m → fs.blkNum x p ≠ 0)
    (h : freadLoop fuel fs x offset buff n bytesRead = some (r, buff', fs')) :
    bytesRead + (m : ℕ) ≤ r := by
  induction fuel generalizing fs offset n m buff bytesRead with
  | zero => omega
  | succ fuel ih =>
    rcases Nat.eq_zero_or_pos n with rfl | hpos
    · rw [freadLoop_done, Option.some.injEq, Prod.mk.injEq] at h
      omega
    by_cases hblk : fs.blkNum x offset = 0
    · have hm0 : m = 0 := by
        by_contra hne
        exact hall offset le_rfl (by omega) hblk
      rw [freadLoop_missing hpos hblk, Option.some.injEq, Prod.mk.injEq] at h
      omega
    by_cases hint : offset % nbytesPerBlock + n < 2 ^ 31
    · have hpiece := @piece_pos offset n hpos
      have hle := piece_le offset n
      rw [freadLoop_piece hpos hblk hint] at h
      have hrest := ih (m := m - piece offset n) (by omega) (by omega) (by omega) ?_ ?_ h
      · omega
      · rcases Nat.lt_or_ge (piece offset n) m with hlt | hge
        · omega
        · rw [Nat.sub_eq_zero_of_le hge]
          exact (Nat.mod_lt _ (by decide)).le
      · intro p hlo hhi
        rw [blkNum_readBlock]
        exact hall p (by omega) (by omega)
    · rw [freadLoop_overflow hn hblk (not_lt.1 hint)] at h
      cases h

end Loop

/-! ## The call -/

/-- A read delivers the bytes of the file from the offset on, and no others. -/
def FreadDelivers (fs : Fs) (fd : ℤ) (x : Inode) (offset n : ℕ) (buff : Bytes) : Prop :=
  ∃ buff' fs', fs.doFread fd buff n = some ((n : ℤ), buff', fs') ∧
    (∀ i < n, buff' i = fs.fileByte x (offset + i)) ∧ ∀ i, n ≤ i → buff' i = buff i

/-- The bytes the pieces leave in the buffer are those of the file in order: at each index,
the byte of the last piece that is longer, or the byte that was there, is that of the file. -/
def PiecesAgree (fs : Fs) (x : Inode) (offset n : ℕ) (buff : Bytes) : Prop :=
  ∀ i < n, match source offset n i with
    | some p => fs.fileByte x p = fs.fileByte x (offset + i)
    | none => buff i = fs.fileByte x (offset + i)

/-- A read returns no more bytes than the file has behind the offset, and leaves the
descriptor inside of the file. -/
def FreadStops (fs : Fs) (fd : ℤ) (d : Fdesc) (x : Inode) (n : ℕ) (buff : Bytes) : Prop :=
  ∃ r buff' fs' d', fs.doFread fd buff n = some (r, buff', fs') ∧ fs'.fdesc fd = some d' ∧
    r ≤ max 0 ((x.size : ℤ) - d.offset) ∧ d'.offset ≤ x.size

section Calls

variable {fs : Fs} {x : Inode} {fd : ℤ} {d : Fdesc} {n : ℕ} {buff : Bytes}

/-- The call, with the result of its loop. -/
lemma doFread_eq (hfd : fs.fdesc fd = some d) (hread : d.read = true)
    (hx : fs.readInode d.inum = some x) :
    fs.doFread fd buff n =
      (freadLoop (n + 1) fs x (d.offset % 2 ^ 32) buff n 0).map fun s =>
        (s.1, s.2.1,
          s.2.2.setFdesc fd { d with offset := ((d.offset + s.1) % 2 ^ 64).toNat }) := by
  simp only [doFread, hfd, hx, hread, Option.bind_eq_bind, Option.bind_some, Bool.not_true,
    Bool.false_eq_true, if_false, Int.toNat_natCast]
  cases freadLoop (n + 1) fs x (d.offset % 2 ^ 32) buff n 0 <;> rfl

lemma piecesAgree_iff {offset : ℕ} :
    fs.PiecesAgree x offset n buff ↔
      ∀ i < n, fs.readInto x offset n buff i = fs.fileByte x (offset + i) := by
  refine forall₂_congr fun i hi => ?_
  rw [readInto]
  cases source offset n i <;> rfl

/-- Where every block is there, the loop takes the whole request. -/
lemma freadLoop_all {offset : ℕ} (hoff : offset < 2 ^ 32) (hend : offset + n ≤ 2 ^ 32)
    (hint : offset % nbytesPerBlock + n < 2 ^ 31)
    (hblk : ∀ p, offset ≤ p → p < offset + n → fs.blkNum x p ≠ 0) :
    ∃ buf, freadLoop (n + 1) fs x offset buff n 0 =
      some ((n : ℤ), fs.readInto x offset n buff, { fs with blockBuf := buf }) := by
  obtain ⟨r, buf, hloop, hr, -, hstop⟩ := @freadLoop_spec fs x offset n (n + 1) buff 0
    (Nat.lt_succ_self n) hoff (fun _ => hint) (.inl hend)
  have hrn : r = n := by
    by_contra hne
    exact hblk (offset + r) (by omega) (by omega) (hstop (by omega))
  subst hrn
  exact ⟨buf, by rw [hloop, zero_add]⟩

/-- What a read that delivers the file says about the pieces. -/
lemma FreadDelivers.agree (hfd : fs.fdesc fd = some d) (hread : d.read = true)
    (hx : fs.readInode d.inum = some x) (hpos : 0 < n) (hn : n < 2 ^ 31)
    (hend : d.offset + n ≤ 2 ^ 32)
    (hblk : ∀ p, d.offset ≤ p → p < d.offset + n → fs.blkNum x p ≠ 0)
    (h : fs.FreadDelivers fd x d.offset n buff) :
    d.offset % nbytesPerBlock + n < 2 ^ 31 ∧ fs.PiecesAgree x d.offset n buff := by
  obtain ⟨buff', fs', hcall, hbytes, -⟩ := h
  rw [doFread_eq hfd hread hx, Nat.mod_eq_of_lt (by omega)] at hcall
  obtain ⟨s, hloop, hs⟩ := Option.map_eq_some_iff.1 hcall
  have hint : d.offset % nbytesPerBlock + n < 2 ^ 31 := by
    by_contra hover
    rw [freadLoop_overflow hn (hblk _ le_rfl (by omega)) (not_lt.1 hover)] at hloop
    cases hloop
  obtain ⟨buf, hall⟩ := @freadLoop_all fs x n buff d.offset (by omega) hend hint hblk
  rw [hall, Option.some.injEq] at hloop
  rw [← hloop, Prod.mk.injEq, Prod.mk.injEq] at hs
  refine ⟨hint, piecesAgree_iff.2 fun i hi => ?_⟩
  rw [← hbytes i hi, ← hs.2.1]

/-- A read of allocated blocks delivers the file exactly where the pieces agree with it: the
sum that decides the length of the first piece is an `int`, and what the later pieces copy
over the earlier ones are the same bytes. -/
theorem freadDelivers_iff (hfd : fs.fdesc fd = some d) (hread : d.read = true)
    (hx : fs.readInode d.inum = some x) (hn : n < 2 ^ 31) (hend : d.offset + n ≤ 2 ^ 32)
    (hblk : ∀ p, d.offset ≤ p → p < d.offset + n → fs.blkNum x p ≠ 0) :
    fs.FreadDelivers fd x d.offset n buff ↔
      d.offset % nbytesPerBlock + n < 2 ^ 31 ∧ fs.PiecesAgree x d.offset n buff := by
  rcases Nat.eq_zero_or_pos n with rfl | hpos
  · have hr : d.offset % nbytesPerBlock < 4096 := Nat.mod_lt _ (by decide)
    rw [FreadDelivers, doFread_eq hfd hread hx, freadLoop_done]
    exact ⟨fun _ => ⟨by omega, fun i hi => by omega⟩, fun _ => ⟨buff, _, rfl, fun i hi => by omega,
      fun _ _ => rfl⟩⟩
  constructor
  · exact FreadDelivers.agree hfd hread hx hpos hn hend hblk
  · rintro ⟨hint, hagree⟩
    obtain ⟨buf, hall⟩ := @freadLoop_all fs x n buff d.offset (by omega) hend hint hblk
    rw [FreadDelivers, doFread_eq hfd hread hx, Nat.mod_eq_of_lt (by omega), hall]
    exact ⟨fs.readInto x d.offset n buff, _, rfl, piecesAgree_iff.1 hagree,
      fun i hi => readInto_of_le fs x buff hi⟩

omit x n buff in
lemma fdesc_setFdesc {fs' : Fs} (hfd : fs.fdesc fd = some d) (d' : Fdesc) :
    (fs'.setFdesc fd d').fdesc fd = some d' := by
  have hin : 0 ≤ fd ∧ fd < numFdescs := by
    by_contra hout
    rw [fdesc, if_neg hout] at hfd
    cases hfd
  rw [fdesc, if_pos hin]
  exact congrArg some (Function.update_self ..)

omit n buff in
lemma size_lt_of_readInode {m : ℤ} (hx : fs.readInode m = some x) : x.size < 2 ^ 32 := by
  rw [readInode] at hx
  dsimp only at hx
  split at hx
  · obtain rfl := Option.some.inj hx
    exact (Inode.inRange_get _ _).size
  · cases hx

/-- A call that stays within the file. -/
lemma freadStops_of (hfd : fs.fdesc fd = some d) (hread : d.read = true)
    (hx : fs.readInode d.inum = some x) (hle : d.offset ≤ x.size) (hn : n < 2 ^ 31)
    (hint : fs.blkNum x d.offset ≠ 0 → d.offset % nbytesPerBlock + n < 2 ^ 31)
    (hend : d.offset + n ≤ x.size ∨ ∃ q, d.offset ≤ q ∧ q ≤ x.size ∧ fs.blkNum x q = 0) :
    fs.FreadStops fd d x n buff := by
  have hsize := size_lt_of_readInode hx
  have hmod : d.offset % 2 ^ 32 = d.offset := Nat.mod_eq_of_lt (by omega)
  have hend' : d.offset + n ≤ 2 ^ 32 ∨
      ∃ q, d.offset ≤ q ∧ q < 2 ^ 32 ∧ fs.blkNum x q = 0 := by
    rcases hend with hend | ⟨q, hlo, hhi, hq⟩
    · exact .inl (by omega)
    · exact .inr ⟨q, hlo, by omega, hq⟩
  obtain ⟨r, buf, hloop, hr, hall, -⟩ := @freadLoop_spec fs x d.offset n (n + 1) buff 0
    (Nat.lt_succ_self n) (by omega) hint hend'
  have hbound : d.offset + r ≤ x.size := by
    rcases hend with hend | ⟨q, hlo, hhi, hq⟩
    · omega
    · by_contra hgt
      exact hall q hlo (by omega) hq
  have hstored : (((d.offset : ℤ) + (0 + (r : ℕ))) % 2 ^ 64).toNat = d.offset + r := by omega
  have hcall := @doFread_eq fs x fd d n buff hfd hread hx
  rw [hmod, hloop] at hcall
  exact ⟨_, _, _, _, hcall, fdesc_setFdesc hfd _, by simp only; omega, hstored.trans_le hbound⟩

/-- A read stays within the size of the file exactly if the descriptor does, and the request
ends before the size or a block is missing before it. -/
theorem freadStops_iff (hfd : fs.fdesc fd = some d) (hx : fs.readInode d.inum = some x)
    (hn : n < 2 ^ 31) (hoff : d.offset < 2 ^ 64) :
    fs.FreadStops fd d x n buff ↔
      d.offset ≤ x.size ∧ (d.read = false ∨ fs.blkNum x d.offset = 0 ∨
        d.offset % nbytesPerBlock + n < 2 ^ 31 ∧ (d.offset + n ≤ x.size ∨
          ∃ q, d.offset ≤ q ∧ q ≤ x.size ∧ fs.blkNum x q = 0)) := by
  have hsize := size_lt_of_readInode hx
  by_cases hread : d.read = true
  swap
  · -- without the permission the call returns -1
    have hcall : fs.doFread fd buff n = some (-1, buff, fs) := by
      simp only [doFread, hfd, Option.bind_eq_bind, Option.bind_some]
      rw [if_pos (by simpa using hread)]
    constructor
    · rintro ⟨r, buff', fs', d', hcall', hfd', -, hle⟩
      rw [hcall, Option.some.injEq, Prod.mk.injEq, Prod.mk.injEq] at hcall'
      rw [← hcall'.2.2, hfd, Option.some.injEq] at hfd'
      rw [hfd']
      exact ⟨hle, .inl (by rw [← hfd']; simpa using hread)⟩
    · rintro ⟨hle, -⟩
      exact ⟨-1, buff, fs, d, hcall, hfd, by omega, hle⟩
  constructor
  · rintro ⟨r, buff', fs', d', hcall, hfd', hmax, hle⟩
    rw [doFread_eq hfd hread hx] at hcall
    obtain ⟨⟨r', buff₁, fs₁⟩, hloop, hs⟩ := Option.map_eq_some_iff.1 hcall
    simp only [Prod.mk.injEq] at hs
    obtain ⟨rfl, -, rfl⟩ := hs
    rw [fdesc_setFdesc hfd, Option.some.injEq] at hfd'
    subst hfd'
    have hmin := @freadLoop_reads fs x (d.offset % 2 ^ 32) n (n + 1) buff 0 0 _ _ _
      (Nat.lt_succ_self n) hn (Nat.zero_le n) (Nat.mod_lt _ (by decide)).le (by omega) hloop
    dsimp only at hle
    have hoffset : d.offset ≤ x.size := by omega
    have hmod : d.offset % 2 ^ 32 = d.offset := Nat.mod_eq_of_lt (by omega)
    rw [hmod] at hloop
    refine ⟨hoffset, .inr ?_⟩
    by_cases hblk : fs.blkNum x d.offset = 0
    · exact .inl hblk
    have hint : d.offset % nbytesPerBlock + n < 2 ^ 31 := by
      by_contra hover
      rw [freadLoop_overflow hn hblk (not_lt.1 hover)] at hloop
      cases hloop
    refine .inr ⟨hint, ?_⟩
    by_contra hpast
    rw [not_or, not_exists] at hpast
    -- every block up to the size is there, so the byte behind the file is read
    have hmore := @freadLoop_reads fs x d.offset n (n + 1) buff 0 (x.size - d.offset + 1) _ _ _
      (Nat.lt_succ_self n) hn (by omega) (by omega)
      (fun p hlo hhi h0 => hpast.2 p ⟨hlo, by omega, h0⟩) hloop
    omega
  · rintro ⟨hle, hfalse | hblk | ⟨hint, hend⟩⟩
    · rw [hread] at hfalse
      cases hfalse
    · exact freadStops_of hfd hread hx hle hn (fun hne => absurd hblk hne)
        (.inr ⟨d.offset, le_rfl, hle, hblk⟩)
    · exact freadStops_of hfd hread hx hle hn (fun _ => hint) hend

end Calls

/-! ## A file to read -/

/-- A card with a file of ten blocks, each of which is filled with its number. -/
def stripedCard (size : ℕ) : Fs :=
  fileCard (fileInode size fun i => 71 + i) ⟨1, true, true, 0⟩ fun b _ => UInt8.ofNat b

lemma blkNum_direct (fs : Fs) (x : Inode) {p : ℕ} (hp : p < ndirectBlocks * nbytesPerBlock) :
    fs.blkNum x p = x.direct (p / nbytesPerBlock) := by
  have hlt : p / nbytesPerBlock < ndirectBlocks := by
    simp only [ndirectBlocks, nbytesPerBlock] at *
    omega
  rw [blkNum, offsetToBlk]
  dsimp only
  rw [if_pos hlt]

lemma stripedCard_file {size : ℕ} (hsize : size < 2 ^ 32) :
    ∃ x, (stripedCard size).readInode 1 = some x ∧ x.size = size ∧
      ∀ p < ndirectBlocks * nbytesPerBlock,
        (stripedCard size).blkNum x p ≠ 0 ∧
        (stripedCard size).fileByte x p = UInt8.ofNat (71 + p / nbytesPerBlock) := by
  have hsmall : ∀ i < ndirectBlocks, 71 + i < 2 ^ 32 := by
    intro i hi
    simp only [ndirectBlocks] at hi
    omega
  obtain ⟨x, hx, hagree⟩ := @readInode_fileCard (fileInode size fun i => 71 + i) ⟨1, true, true, 0⟩
    (fun b _ => UInt8.ofNat b) (inRange_fileInode hsize hsmall)
  refine ⟨x, hx, hagree.size, fun p hp => ?_⟩
  have hlt : p / nbytesPerBlock < ndirectBlocks := by
    simp only [ndirectBlocks, nbytesPerBlock] at *
    omega
  have hblk : (stripedCard size).blkNum x p = 71 + p / nbytesPerBlock := by
    rw [blkNum_direct _ _ hp, hagree.direct _ hlt]
    rfl
  obtain ⟨b, hb⟩ : ∃ b, 71 + p / nbytesPerBlock = b := ⟨_, rfl⟩
  have hrange : 70 ≤ b ∧ b < 2 ^ 17 := by
    simp only [ndirectBlocks, nbytesPerBlock] at hlt hb
    omega
  rw [hblk, fileByte, hblk, hb, readBlock_block rfl hrange.2]
  exact ⟨by omega, block_fileCard hrange.1 (Nat.mod_lt _ (by decide))⟩

/-- A read within one block. -/
theorem freadDelivers_first :
    ∃ x, (stripedCard 5000).readInode 1 = some x ∧
      (stripedCard 5000).FreadDelivers 0 x 0 10 Bytes.zero := by
  obtain ⟨x, hx, -, hfile⟩ := @stripedCard_file 5000 (by decide)
  have hlt : ∀ p, p < 10 → p < ndirectBlocks * nbytesPerBlock := fun p hp => by
    simp only [ndirectBlocks, nbytesPerBlock]
    omega
  refine ⟨x, hx, (@freadDelivers_iff _ x 0 ⟨1, true, true, 0⟩ 10 _ rfl rfl hx (by decide) (by decide)
    fun p _ (hp : p < 0 + 10) => ?_).2 ⟨by decide, fun i hi => ?_⟩⟩
  · exact (hfile p (hlt p (by omega))).1
  · rw [source_piece (by decide), if_pos hi]

/-- A read of two blocks leaves the second one at the start of the buffer. -/
theorem fread_not_delivers :
    ∃ x, (stripedCard 8192).readInode 1 = some x ∧
      (∀ p < 8192, (stripedCard 8192).blkNum x p ≠ 0) ∧
      ¬ (stripedCard 8192).FreadDelivers 0 x 0 8192 Bytes.zero := by
  obtain ⟨x, hx, -, hfile⟩ := @stripedCard_file 8192 (by decide)
  have hlt : ∀ p, p < 8192 → p < ndirectBlocks * nbytesPerBlock := fun p hp => by
    simp only [ndirectBlocks, nbytesPerBlock]
    omega
  have hblk : ∀ p < 8192, (stripedCard 8192).blkNum x p ≠ 0 := fun p hp => (hfile p (hlt p hp)).1
  refine ⟨x, hx, hblk, fun hdelivers => ?_⟩
  have hagree := (@FreadDelivers.agree _ x 0 ⟨1, true, true, 0⟩ 8192 _ rfl rfl hx (by decide)
    (by decide) (by decide) (fun p _ (hp : p < 0 + 8192) => hblk p (by omega))
    hdelivers).2 0 (by decide)
  have hsource : source 0 8192 0 = some 4096 := by decide
  simp only [hsource] at hagree
  rw [(hfile 4096 (hlt _ (by decide))).2, (hfile (0 + 0) (hlt _ (by decide))).2] at hagree
  exact absurd hagree (by decide)

/-- A read of ten bytes of a file of five thousand. -/
theorem freadStops_first :
    ∃ x, (stripedCard 5000).readInode 1 = some x ∧
      (stripedCard 5000).FreadStops 0 ⟨1, true, true, 0⟩ x 10 Bytes.zero := by
  obtain ⟨x, hx, hsize, -⟩ := @stripedCard_file 5000 (by decide)
  refine ⟨x, hx, (freadStops_iff rfl hx (by decide) (by decide)).2 ⟨Nat.zero_le _, .inr (.inr
    ⟨by decide, .inl ?_⟩)⟩⟩
  rw [hsize]
  decide

/-- Two bytes are read of a file of one. -/
theorem fread_not_stops :
    ∃ x, (stripedCard 1).readInode 1 = some x ∧ x.size = 1 ∧
      ¬ (stripedCard 1).FreadStops 0 ⟨1, true, true, 0⟩ x 2 Bytes.zero := by
  obtain ⟨x, hx, hsize, hfile⟩ := @stripedCard_file 1 (by decide)
  refine ⟨x, hx, hsize, ?_⟩
  rintro ⟨r, buff', fs', d', hcall, -, hmax, -⟩
  obtain ⟨buf, hall⟩ := @freadLoop_all (stripedCard 1) x 2 Bytes.zero 0 (by decide) (by decide)
    (by decide) fun p _ hp => (hfile p (by simp only [ndirectBlocks, nbytesPerBlock]; omega)).1
  rw [@doFread_eq _ x 0 ⟨1, true, true, 0⟩ 2 _ rfl rfl hx, Nat.zero_mod, hall] at hcall
  simp only [Option.map_some, Option.some.injEq, Prod.mk.injEq] at hcall
  dsimp only at hmax
  omega

end Fs
end UcasKernel
