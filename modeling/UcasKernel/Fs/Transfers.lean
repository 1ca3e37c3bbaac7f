/-
How many bytes `do_fread` and `do_fwrite` transfer, and what they say about it.

The two calls once more, with a log of the lengths that the loops pass to `memcpy`.  Without
the log they are the functions of the other modules.  `do_fread` returns the sum of the log
and moves the offset by it.  `do_fwrite` returns what is left of `length` when its loop ends,
and sets the offset and the size before the loop.
-/
import UcasKernel.Fs.Descriptors
import UcasKernel.Fs.Writing
import UcasKernel.Fs.Accesses

namespace UcasKernel
namespace Fs

/-- A computation with the lengths that it passes to `memcpy`. -/
abbrev CopyLog (α : Type) : Type := Logged ℤ α

/-- The bytes that a computation copies. -/
def copied {α : Type} (call : CopyLog α) : ℤ := call.log.sum

/-- The loop of `do_fread`. -/
def freadLoopC : ℕ → Fs → Inode → ℕ → Bytes → ℤ → ℤ → CopyLog (ℤ × Bytes × Fs)
  | 0, fs, _, _, buff, _, bytesRead => pure (bytesRead, buff, fs)
  | fuel + 1, fs, inode, offset, buff, length, bytesRead =>
    if length ≤ 0 then pure (bytesRead, buff, fs)
    else
      let (blkNum, fs) := fs.offsetToBlk offset inode
      if blkNum = 0 then pure (bytesRead, buff, fs)
      else
        let inblkOffset := offset % nbytesPerBlock
        let len := pieceLen inblkOffset length
        let fs := fs.readBlock blkNum
        if inblkOffset + len > nbytesPerBlock then .of none
        else do
          let buff ← .tell len (some (Bytes.blit buff 0 fs.blockBuf inblkOffset len.toNat))
          freadLoopC fuel fs inode ((offset + len.toNat) % 2 ^ 32) buff (length - len)
            (bytesRead + len)

/-- `do_fread`. -/
def doFreadC (fs : Fs) (fd : ℤ) (buff : Bytes) (length : ℤ) : CopyLog (ℤ × Bytes × Fs) := do
  let fdesc ← .of (fs.fdesc fd)
  if !fdesc.read then pure (-1, buff, fs)
  else
    let inode ← .of (fs.readInode fdesc.inum)
    let (bytesRead, buff, fs) ←
      freadLoopC (length.toNat + 1) fs inode (fdesc.offset % 2 ^ 32) buff length 0
    let offset := ((fdesc.offset + bytesRead) % 2 ^ 64).toNat
    pure (bytesRead, buff, fs.setFdesc fd { fdesc with offset := offset })

/-- One round of the loop of `do_fwrite`. -/
def fwriteRoundC (fs : Fs) (inode : Inode) (inum : ℤ) (offset : ℕ) (buff : Bytes) (length : ℤ) :
    CopyLog (Inode × Fs × ℕ × ℤ) := do
  let (blkNum, inode, fs) ← .of (fs.fwriteBlock inode inum offset)
  let inblkOffset := offset % nbytesPerBlock
  let len := pieceLen inblkOffset length
  if inblkOffset + len > nbytesPerBlock then .of none
  else
    let fs ← .tell len
      (some { fs with blockBuf := Bytes.blit fs.blockBuf inblkOffset buff 0 len.toNat })
    let fs := fs.writeBlock blkNum
    pure (inode, fs, (offset + len.toNat) % 2 ^ 32, length - len)

/-- The loop of `do_fwrite`. -/
def fwriteLoopC : ℕ → Fs → Inode → ℤ → ℕ → Bytes → ℤ → CopyLog (ℤ × Inode × Fs)
  | 0, fs, inode, _, _, _, length => pure (length, inode, fs)
  | fuel + 1, fs, inode, inum, offset, buff, length =>
    if length ≤ 0 then pure (length, inode, fs)
    else do
      let (inode, fs, offset, length) ← fs.fwriteRoundC inode inum offset buff length
      fwriteLoopC fuel fs inode inum offset buff length

/-- `do_fwrite`. -/
def doFwriteC (fs : Fs) (fd : ℤ) (buff : Bytes) (length : ℤ) : CopyLog (ℤ × Fs) := do
  let fdesc ← .of (fs.fdesc fd)
  if !fdesc.write then pure (-1, fs)
  else
    let offset := fdesc.offset % 2 ^ 32
    let inode ← .of (fs.readInode fdesc.inum)
    let endOffset := ((offset + length) % 2 ^ 32).toNat
    let inode := if endOffset > inode.size then { inode with size := endOffset } else inode
    let fs := fs.setFdesc fd { fdesc with offset := endOffset }
    let (length, inode, fs) ←
      fwriteLoopC (length.toNat + 1) fs inode fdesc.inum offset buff length
    let fs ← .of (fs.writeInode fdesc.inum inode)
    pure (length, fs)

/-- What a transfer promises: it returns the number of the bytes copied, which is at most
`length`, the 64 bits of the offset move by it, and without a copy the inode and the disk stay
as they are. -/
structure Counts (fs fs' : Fs) (fd : ℤ) (d : Fdesc) (length r copied : ℤ) : Prop where
  returned : r = copied
  atMost : r ≤ max 0 length
  moved : ∃ d', fs'.fdesc fd = some d' ∧ (d'.offset : ℤ) = (d.offset + r) % 2 ^ 64
  idle : copied = 0 → fs'.disk = fs.disk ∧ fs'.readInode d.inum = fs.readInode d.inum

/-- `do_fread` returns, and keeps that promise. -/
def FreadCounts (fs : Fs) (fd : ℤ) (d : Fdesc) (buff : Bytes) (length : ℤ) : Prop :=
  ∃ r buff' fs', fs.doFread fd buff length = some (r, buff', fs') ∧
    Counts fs fs' fd d length r (copied (fs.doFreadC fd buff length))

/-- `do_fwrite` does. -/
def FwriteCounts (fs : Fs) (fd : ℤ) (d : Fdesc) (buff : Bytes) (length : ℤ) : Prop :=
  ∃ r fs', fs.doFwrite fd buff length = some (r, fs') ∧
    Counts fs fs' fd d length r (copied (fs.doFwriteC fd buff length))

/-! ## Without the log -/

section Result

open Logged

variable (fs : Fs)

lemma result_freadLoopC (fuel : ℕ) (inode : Inode) (offset : ℕ) (buff : Bytes)
    (length bytesRead : ℤ) :
    (freadLoopC fuel fs inode offset buff length bytesRead).result =
      freadLoop fuel fs inode offset buff length bytesRead := by
  induction fuel generalizing fs offset buff length bytesRead with
  | zero => rfl
  | succ fuel ih =>
    rw [freadLoopC, freadLoop]
    split
    · rfl
    rcases fs.offsetToBlk offset inode with ⟨blkNum, fs₁⟩
    dsimp only
    split
    · rfl
    split
    · rfl
    · rw [result_bind, result_tell, Option.bind_some]
      exact ih _ _ _ _ _

/-- The log changes nothing. -/
theorem result_doFreadC (fd : ℤ) (buff : Bytes) (length : ℤ) :
    (fs.doFreadC fd buff length).result = fs.doFread fd buff length := by
  rw [doFreadC, doFread]
  refine result_bind_congr (result_of _) fun fdesc => ?_
  split
  · rfl
  refine result_bind_congr (result_of _) fun inode => ?_
  exact result_bind_congr (result_freadLoopC _ _ _ _ _ _ _) fun _ => rfl

lemma result_fwriteRoundC (inode : Inode) (inum : ℤ) (offset : ℕ) (buff : Bytes) (length : ℤ) :
    (fs.fwriteRoundC inode inum offset buff length).result =
      fs.fwriteRound inode inum offset buff length := by
  rw [fwriteRoundC, fwriteRound]
  refine result_bind_congr (result_of _) fun r => ?_
  dsimp only
  split <;> rfl

lemma result_fwriteLoopC (fuel : ℕ) (inode : Inode) (inum : ℤ) (offset : ℕ) (buff : Bytes)
    (length : ℤ) : (fwriteLoopC fuel fs inode inum offset buff length).result =
      fwriteLoop fuel fs inode inum offset buff length := by
  induction fuel generalizing fs inode offset length with
  | zero => rfl
  | succ fuel ih =>
    by_cases hlen : length ≤ 0
    · rw [fwriteLoopC, fwriteLoop, if_pos hlen, if_pos hlen, result_pure]
    · rw [fwriteLoopC, if_neg hlen, fwriteLoop_succ (not_le.1 hlen)]
      exact result_bind_congr (result_fwriteRoundC _ _ _ _ _ _) fun _ => ih _ _ _ _

/-- The log changes nothing. -/
theorem result_doFwriteC (fd : ℤ) (buff : Bytes) (length : ℤ) :
    (fs.doFwriteC fd buff length).result = fs.doFwrite fd buff length := by
  rw [doFwriteC, doFwrite]
  refine result_bind_congr (result_of _) fun fdesc => ?_
  split
  · rfl
  refine result_bind_congr (result_of _) fun inode => ?_
  refine result_bind_congr (result_fwriteLoopC _ _ _ _ _ _ _) fun _ => ?_
  exact result_bind_congr (result_of _) fun _ => rfl

end Result

/-! ## The pieces -/

section Copied

open Logged

variable {α β : Type}

lemma copied_bind {x : CopyLog α} {a : α} (h : x.result = some a) (f : α → CopyLog β) :
    copied (x >>= f) = copied x + copied (f a) := by
  rw [copied, log_bind h, List.sum_append]
  rfl

lemma copied_tell (len : ℤ) (a : α) (f : α → CopyLog β) :
    copied (tell len (some a) >>= f) = len + copied (f a) := List.sum_cons

lemma copied_of (a : α) (f : α → CopyLog β) : copied (of (some a) >>= f) = copied (f a) := rfl

lemma copied_pure (a : α) : copied (pure a : CopyLog α) = 0 := rfl

end Copied

section Pieces

open Logged

variable {fs fs' : Fs} {inode inode' : Inode} {inum : ℤ} {offset offset' fuel n : ℕ}
  {buff buff' : Bytes} {length length' bytesRead r : ℤ}

/-- What the loop of `do_fread` returns is what it got and the pieces it copied. -/
lemma freadLoopC_returned
    (h : (freadLoopC fuel fs inode offset buff length bytesRead).result = some (r, buff', fs')) :
    r = bytesRead + copied (freadLoopC fuel fs inode offset buff length bytesRead) ∧
      r ≤ bytesRead + max 0 length := by
  induction fuel generalizing fs offset buff length bytesRead with
  | zero =>
    cases h
    exact ⟨(add_zero _).symm, by omega⟩
  | succ fuel ih =>
    rw [freadLoopC] at h ⊢
    split at h
    · rename_i hle
      cases h
      rw [if_pos hle]
      exact ⟨(add_zero _).symm, by omega⟩
    rename_i hlen
    rw [if_neg hlen]
    rcases hoff : fs.offsetToBlk offset inode with ⟨blkNum, fs₁⟩
    rw [hoff] at h
    dsimp only at h ⊢
    split at h
    · rename_i hblk
      cases h
      rw [if_pos hblk]
      exact ⟨(add_zero _).symm, by omega⟩
    rename_i hblk
    rw [if_neg hblk]
    split at h
    · cases h
    rename_i hin
    rw [if_neg hin]
    have hpiece := pieceLen_bounds (Nat.mod_lt offset (show 0 < nbytesPerBlock by decide))
      (not_le.1 hlen)
    rw [result_bind, result_tell, Option.bind_some] at h
    obtain ⟨hsum, hle⟩ := ih h
    rw [copied_tell]
    exact ⟨by omega, by omega⟩

/-- A round that does not fail copies a piece. -/
lemma fwriteRoundC_copied (hlen : 0 < length)
    (h : (fs.fwriteRoundC inode inum offset buff length).result =
      some (inode', fs', offset', length')) :
    0 < copied (fs.fwriteRoundC inode inum offset buff length) := by
  have hpiece := pieceLen_bounds (Nat.mod_lt offset (show 0 < nbytesPerBlock by decide)) hlen
  rw [fwriteRoundC] at h ⊢
  cases hblock : fs.fwriteBlock inode inum offset with
  | none =>
    rw [hblock] at h
    cases h
  | some s =>
    rcases s with ⟨blkNum, inode₁, fs₁⟩
    rw [hblock, result_bind, result_of, Option.bind_some] at h
    rw [copied_of]
    dsimp only at h ⊢
    split at h
    · cases h
    · rename_i hin
      rw [if_neg hin, copied_tell, copied_pure]
      omega

/-- Nor does a loop copy a negative number of bytes. -/
lemma fwriteLoopC_copied
    (h : (fwriteLoopC fuel fs inode inum offset buff length).result = some (r, inode', fs')) :
    0 ≤ copied (fwriteLoopC fuel fs inode inum offset buff length) := by
  induction fuel generalizing fs inode offset length with
  | zero => exact le_rfl
  | succ fuel ih =>
    rw [fwriteLoopC] at h ⊢
    split at h
    · rename_i hle
      rw [if_pos hle]
      exact le_rfl
    rename_i hlen
    rw [if_neg hlen]
    rw [result_bind] at h
    obtain ⟨⟨inode₁, fs₁, offset₁, length₁⟩, hround, hrest⟩ := Option.bind_eq_some_iff.1 h
    rw [copied_bind hround]
    exact add_nonneg (fwriteRoundC_copied (not_le.1 hlen) hround).le (ih hrest)

/-- A request of some bytes copies some. -/
lemma fwriteLoopC_pos (hlen : 0 < length)
    (h : (fwriteLoopC (fuel + 1) fs inode inum offset buff length).result = some (r, inode', fs')) :
    0 < copied (fwriteLoopC (fuel + 1) fs inode inum offset buff length) := by
  rw [fwriteLoopC, if_neg (not_le.2 hlen)] at h ⊢
  rw [result_bind] at h
  obtain ⟨⟨inode₁, fs₁, offset₁, length₁⟩, hround, hrest⟩ := Option.bind_eq_some_iff.1 h
  rw [copied_bind hround]
  exact add_pos_of_pos_of_nonneg (fwriteRoundC_copied hlen hround) (fwriteLoopC_copied hrest)

/-- The loop of `do_fread` ends unless the first piece leaves the block buffer. -/
lemma freadLoop_ends (hfuel : n < fuel)
    (h : n = 0 ∨ fs.blkNum inode offset = 0 ∨ offset % nbytesPerBlock + n < 2 ^ 31) :
    ∃ s, freadLoop fuel fs inode offset buff n bytesRead = some s := by
  induction fuel generalizing fs offset buff n bytesRead with
  | zero => omega
  | succ fuel ih =>
    rcases Nat.eq_zero_or_pos n with rfl | hn
    · exact ⟨_, freadLoop_done⟩
    by_cases hblk : fs.blkNum inode offset = 0
    · exact ⟨_, freadLoop_missing hn hblk⟩
    have hint : offset % nbytesPerBlock + n < 2 ^ 31 := by
      rcases h with h | h | h
      · omega
      · exact absurd h hblk
      · exact h
    have hpiece := @piece_pos offset n hn
    rw [freadLoop_piece hn hblk hint]
    -- the rest starts at a block boundary, where no sum leaves the range of an `int`
    refine ih (by omega) ?_
    simp only [piece, nbytesPerBlock] at *
    omega

end Pieces

/-! ## Writing back what was read -/

section Unchanged

variable {fs fs' : Fs} {x : Inode} {m : ℤ}

lemma Inode.put_get (b : Bytes) (a : ℕ) : Inode.put b a (Inode.get b a) = b := by
  have hdirect : ∀ n, Inode.putDirect b (a + 16) (Inode.get b a).direct n = b := by
    intro n
    induction n with
    | zero => rfl
    | succ n ih =>
      rw [Inode.putDirect, ih]
      exact Bytes.setLE_getLE b 4 _
  have htype : Bytes.set16 b a (Inode.get b a).type = b := Bytes.setLE_getLE b 2 a
  have hpermission : Bytes.set16 b (a + 2) (Inode.get b a).permission = b :=
    Bytes.setLE_getLE b 2 (a + 2)
  have hfields : ∀ c, Bytes.set32 b c (Bytes.get32 b c) = b := fun c => Bytes.setLE_getLE b 4 c
  calc Inode.put b a (Inode.get b a)
      = Bytes.set32 (Bytes.set32 b (a + 56) (Bytes.get32 b (a + 56))) (a + 60)
          (Bytes.get32 b (a + 60)) := by
        simp only [Inode.put]
        rw [htype, hpermission, show (Inode.get b a).size = Bytes.get32 b (a + 4) from rfl,
          hfields, show (Inode.get b a).ref = Bytes.get32 b (a + 8) from rfl, hfields,
          show (Inode.get b a).timeCreated = Bytes.get32 b (a + 12) from rfl, hfields, hdirect]
        rfl
    _ = b := by rw [hfields, hfields]

/-- An inode written back leaves the card as it is. -/
lemma writeInode_readInode (hx : fs.readInode m = some x) : fs.writeInode m x = some fs := by
  rw [readInode] at hx
  rw [writeInode]
  rcases hat : fs.inodeSlot m with ⟨sector, offset⟩
  rw [hat] at hx
  dsimp only at hx ⊢
  split at hx
  · rename_i hslot
    cases hx
    rw [if_pos hslot, Inode.put_get, sdwrite_sdread]
  · cases hx

lemma fdesc_writeInode (hwrite : fs.writeInode m x = some fs') : fs'.fdesc = fs.fdesc := by
  rw [writeInode] at hwrite
  dsimp only at hwrite
  split at hwrite
  · cases hwrite
    rfl
  · cases hwrite

/-- The size of an inode is read back. -/
lemma size_readInode_writeInode (hwrite : fs.writeInode m x = some fs')
    (hsize : x.size < 2 ^ 32) : ∃ y, fs'.readInode m = some y ∧ y.size = x.size := by
  rw [writeInode] at hwrite
  rcases hslot : fs.inodeSlot m with ⟨sector, offset⟩
  rw [hslot] at hwrite
  dsimp only at hwrite
  split at hwrite
  swap
  · cases hwrite
  rename_i hlt
  cases hwrite
  refine ⟨Inode.get ((fs.sdwrite (Inode.put (fs.sdread 1 sector) (Inode.sizeof * offset) x) 1
    sector).sdread 1 sector) (Inode.sizeof * offset), ?_, ?_⟩
  · rw [readInode, show (fs.sdwrite _ 1 sector).inodeSlot m = fs.inodeSlot m from rfl, hslot]
    exact if_pos hlt
  · have hin : Inode.sizeof * offset + 4 + 4 ≤ nbytesPerSector * 1 := by
      simp only [Inode.sizeof, nbytesPerSector]
      omega
    calc (Inode.get _ (Inode.sizeof * offset)).size
        = Bytes.get32 (Inode.put (fs.sdread 1 sector) (Inode.sizeof * offset) x)
            (Inode.sizeof * offset + 4) := by
          show Bytes.getLE _ 4 _ = _
          rw [getLE_sdread _ hin, getLE_sdwrite _ hin]
      _ = x.size % 2 ^ 32 := Inode.get_put_size _ _ _
      _ = x.size := Nat.mod_eq_of_lt hsize

end Unchanged

/-! ## The calls -/

section Calls

open Logged

variable {fs fs' : Fs} {x : Inode} {fd : ℤ} {d : Fdesc} {buff : Bytes} {length : ℤ}

lemma doFreadC_eq (hfd : fs.fdesc fd = some d) (hread : d.read = true)
    (hx : fs.readInode d.inum = some x) :
    fs.doFreadC fd buff length =
      freadLoopC (length.toNat + 1) fs x (d.offset % 2 ^ 32) buff length 0 >>= fun s =>
        pure (s.1, s.2.1,
          s.2.2.setFdesc fd { d with offset := ((d.offset + s.1) % 2 ^ 64).toNat }) := by
  rw [doFreadC, hfd]
  show (if (!d.read) = true then _ else _) = _
  rw [if_neg (by simp [hread]), hx]
  rfl

/-- `do_fread` counts what it copies exactly if it copies nothing, or the sum that decides the
length of the first piece is an `int`. -/
theorem freadCounts_iff (hfd : fs.fdesc fd = some d) (hread : d.read = true)
    (hx : fs.readInode d.inum = some x) (hlen : -2 ^ 31 ≤ length ∧ length < 2 ^ 31) :
    fs.FreadCounts fd d buff length ↔
      length ≤ 0 ∨ fs.blkNum x (d.offset % 2 ^ 32) = 0 ∨
        (d.offset % nbytesPerBlock : ℕ) + length < 2 ^ 31 := by
  have hmod : d.offset % 2 ^ 32 % nbytesPerBlock = d.offset % nbytesPerBlock := by
    simp only [nbytesPerBlock]
    omega
  constructor
  · rintro ⟨r, buff', fs', hcall, -⟩
    by_contra hnot
    obtain ⟨hpos, hblk, hover⟩ : 0 < length ∧ fs.blkNum x (d.offset % 2 ^ 32) ≠ 0 ∧
        2 ^ 31 ≤ (d.offset % nbytesPerBlock : ℕ) + length := by
      refine ⟨by omega, fun h => hnot (.inr (.inl h)), ?_⟩
      by_contra hlt
      exact hnot (.inr (.inr (not_le.1 hlt)))
    obtain ⟨n, rfl⟩ := Int.eq_ofNat_of_zero_le hpos.le
    rw [doFread_eq hfd hread hx, freadLoop_overflow (by omega) hblk (by omega)] at hcall
    cases hcall
  · intro h
    have hends : ∃ s, freadLoop (length.toNat + 1) fs x (d.offset % 2 ^ 32) buff length 0 =
        some s := by
      by_cases hpos : 0 < length
      · obtain ⟨n, rfl⟩ := Int.eq_ofNat_of_zero_le hpos.le
        refine freadLoop_ends (Nat.lt_succ_self n) ?_
        omega
      · exact ⟨_, if_pos (not_lt.1 hpos)⟩
    obtain ⟨⟨r, buff', fs₁⟩, hloop⟩ := hends
    have hreadOnly := freadLoop_readOnly hloop
    rw [← result_freadLoopC] at hloop
    obtain ⟨hr, hle⟩ := freadLoopC_returned hloop
    refine ⟨r, buff', fs₁.setFdesc fd { d with offset := ((d.offset + r) % 2 ^ 64).toNat }, ?_, ?_⟩
    · rw [← result_doFreadC, doFreadC_eq hfd hread hx, result_bind, hloop]
      rfl
    rw [doFreadC_eq hfd hread hx, copied_bind hloop, copied_pure, add_zero]
    refine ⟨by omega, by omega, ⟨_, fdesc_setFdesc hfd _, ?_⟩, fun _ => ?_⟩
    · exact Int.toNat_of_nonneg (by omega)
    · rw [hreadOnly]
      exact ⟨rfl, rfl⟩

lemma doFwriteC_eq (hfd : fs.fdesc fd = some d) (hwrite : d.write = true)
    (hx : fs.readInode d.inum = some x) {e : ℕ}
    (he : e = (((d.offset % 2 ^ 32 : ℕ) + length) % 2 ^ 32).toNat) :
    fs.doFwriteC fd buff length =
      fwriteLoopC (length.toNat + 1) (fs.setFdesc fd { d with offset := e })
        (if e > x.size then { x with size := e } else x) d.inum (d.offset % 2 ^ 32) buff length >>=
        fun s => of (s.2.2.writeInode d.inum s.2.1) >>= fun fs' => pure (s.1, fs') := by
  rw [doFwriteC, hfd, he]
  show (if (!d.write) = true then _ else _) = _
  rw [if_neg (by simp [hwrite]), hx]
  rfl

/-- A call of a length that is not positive. -/
lemma doFwriteC_of_nonpos (hfd : fs.fdesc fd = some d) (hwrite : d.write = true)
    (hx : fs.readInode d.inum = some x) (hlen : length ≤ 0) {e : ℕ}
    (he : e = (((d.offset % 2 ^ 32 : ℕ) + length) % 2 ^ 32).toNat) :
    fs.doFwriteC fd buff length =
      of ((fs.setFdesc fd { d with offset := e }).writeInode d.inum
        (if e > x.size then { x with size := e } else x)) >>= fun fs' => pure (length, fs') := by
  rw [doFwriteC_eq hfd hwrite hx he, fwriteLoopC, if_pos hlen]
  rfl

/-- A call of a positive length that returns copied something. -/
lemma doFwriteC_copied {r : ℤ} (hfd : fs.fdesc fd = some d) (hwrite : d.write = true)
    (hx : fs.readInode d.inum = some x) (hlen : 0 < length)
    (h : fs.doFwrite fd buff length = some (r, fs')) :
    0 < copied (fs.doFwriteC fd buff length) := by
  rw [← result_doFwriteC, doFwriteC_eq hfd hwrite hx rfl, result_bind] at h
  obtain ⟨⟨r', y, fs₁⟩, hloop, hrest⟩ := Option.bind_eq_some_iff.1 h
  rw [result_bind, result_of] at hrest
  obtain ⟨fs₂, hput, -⟩ := Option.bind_eq_some_iff.1 hrest
  rw [doFwriteC_eq hfd hwrite hx rfl, copied_bind hloop]
  dsimp only
  rw [hput, copied_of, copied_pure, add_zero]
  exact fwriteLoopC_pos hlen hloop

/-- But it returns 0. -/
lemma FwriteCounts.nonpos (hfd : fs.fdesc fd = some d) (hwrite : d.write = true)
    (hx : fs.readInode d.inum = some x) (h : fs.FwriteCounts fd d buff length) : length ≤ 0 := by
  by_contra hpos
  obtain ⟨r, fs', hcall, hcounts⟩ := h
  have hr : r = 0 := doFwrite_result hfd hwrite (not_le.1 hpos) hcall
  have hcopied := doFwriteC_copied hfd hwrite hx (not_le.1 hpos) hcall
  have hret := hcounts.returned
  omega

/-- `do_fwrite` counts what it copies exactly if it is asked for nothing, at an offset inside
of the file. -/
theorem fwriteCounts_iff (hfd : fs.fdesc fd = some d) (hwrite : d.write = true)
    (hx : fs.readInode d.inum = some x) (hoff : d.offset < 2 ^ 64) :
    fs.FwriteCounts fd d buff length ↔ length = 0 ∧ d.offset ≤ x.size := by
  have hsize := size_lt_of_readInode hx
  constructor
  · intro h
    have hle := h.nonpos hfd hwrite hx
    obtain ⟨r, fs', hcall, hcounts⟩ := h
    obtain ⟨e, he⟩ : ∃ e, e = (((d.offset % 2 ^ 32 : ℕ) + length) % 2 ^ 32).toNat := ⟨_, rfl⟩
    rw [← result_doFwriteC, doFwriteC_of_nonpos hfd hwrite hx hle he, result_bind,
      result_of] at hcall
    obtain ⟨fs₁, hput, hret⟩ := Option.bind_eq_some_iff.1 hcall
    obtain ⟨rfl, rfl⟩ := Prod.mk.inj (Option.some.inj hret)
    have hcopied : copied (fs.doFwriteC fd buff length) = 0 := by
      rw [doFwriteC_of_nonpos hfd hwrite hx hle he, hput, copied_of, copied_pure]
    have hzero : length = 0 := hcounts.returned.trans hcopied
    refine ⟨hzero, ?_⟩
    subst hzero
    obtain ⟨d', hfd', hmoved⟩ := hcounts.moved
    have hfd₁ : fs₁.fdesc fd = some { d with offset := e } := by
      rw [fdesc_writeInode hput]
      exact fdesc_setFdesc hfd _
    rw [hfd₁, Option.some.injEq] at hfd'
    subst hfd'
    dsimp only at hmoved
    by_contra hgt
    have hread := (hcounts.idle hcopied).2
    rw [if_pos (by omega)] at hput
    obtain ⟨y, hy, hysize⟩ := size_readInode_writeInode hput (by simp only; omega)
    rw [hread, hx, Option.some.injEq] at hy
    subst hy
    dsimp only at hysize
    omega
  · rintro ⟨rfl, hin⟩
    have hput : (fs.setFdesc fd { d with offset := d.offset }).writeInode d.inum
        (if d.offset > x.size then { x with size := d.offset } else x) =
          some (fs.setFdesc fd { d with offset := d.offset }) := by
      rw [if_neg (by omega)]
      exact writeInode_readInode hx
    have heq := @doFwriteC_of_nonpos fs x fd d buff 0 hfd hwrite hx le_rfl d.offset (by omega)
    rw [hput] at heq
    refine ⟨0, fs.setFdesc fd { d with offset := d.offset }, ?_, ?_⟩
    · rw [← result_doFwriteC, heq]
      rfl
    rw [heq, copied_of, copied_pure]
    exact ⟨rfl, le_max_left _ _, ⟨_, fdesc_setFdesc hfd _, by omega⟩, fun _ => ⟨rfl, rfl⟩⟩

/-- When the two calls count what they transfer: a read, unless its first piece leaves the
block buffer, and a write, only if there is nothing to write and the offset is inside of the
file. -/
theorem transfers_counted_iff (hfd : fs.fdesc fd = some d) (hx : fs.readInode d.inum = some x)
    (hlen : -2 ^ 31 ≤ length ∧ length < 2 ^ 31) (hoff : d.offset < 2 ^ 64) :
    (d.read = true →
      (fs.FreadCounts fd d buff length ↔
        length ≤ 0 ∨ fs.blkNum x (d.offset % 2 ^ 32) = 0 ∨
          (d.offset % nbytesPerBlock : ℕ) + length < 2 ^ 31)) ∧
    (d.write = true →
      (fs.FwriteCounts fd d buff length ↔ length = 0 ∧ d.offset ≤ x.size)) :=
  ⟨fun hread => freadCounts_iff hfd hread hx hlen,
    fun hwrite => fwriteCounts_iff hfd hwrite hx hoff⟩

end Calls

/-- On a file of five thousand bytes a read of ten is counted, and so is a write of none. -/
theorem transfers_counted_first :
    (stripedCard 5000).FreadCounts 0 ⟨1, true, true, 0⟩ Bytes.zero 10 ∧
      (stripedCard 5000).FwriteCounts 0 ⟨1, true, true, 0⟩ Bytes.zero 0 := by
  obtain ⟨x, hx, -⟩ := @stripedCard_file 5000 (by decide)
  have hread := (@transfers_counted_iff _ x 0 ⟨1, true, true, 0⟩ Bytes.zero 10 rfl hx (by decide)
    (by decide)).1 rfl
  have hwrite := (@transfers_counted_iff _ x 0 ⟨1, true, true, 0⟩ Bytes.zero 0 rfl hx (by decide)
    (by decide)).2 rfl
  exact ⟨hread.2 (.inr (.inr (by decide))), hwrite.2 ⟨rfl, Nat.zero_le _⟩⟩

/-- A write of ten bytes into a file returns 0. -/
theorem fwrite_not_counted :
    (∃ fs', (markedCard 5000).doFwrite 0 Bytes.zero 10 = some (0, fs')) ∧
      0 < copied ((markedCard 5000).doFwriteC 0 Bytes.zero 10) ∧
      ¬ (markedCard 5000).FwriteCounts 0 ⟨1, true, true, 0⟩ Bytes.zero 10 := by
  obtain ⟨x, hx, howns, hdirect⟩ := @ownsIn_markedCard 5000 (by decide)
  have hmissing : missing x 0 10 = ∅ :=
    missing_eq_empty (fun i hi => by rw [hdirect i hi]; omega) 0 10
  obtain ⟨fs', y, hcall, -⟩ := @doFwrite_written _ x 0 ⟨1, true, true, 0⟩ 1 10 Bytes.zero rfl rfl
    (by decide) hx howns (by decide) (by rw [hmissing]; exact Nat.zero_le _)
  rw [show ((10 : ℕ) : ℤ) = 10 from rfl] at hcall
  have hcopied := doFwriteC_copied rfl rfl hx (by decide) hcall
  refine ⟨⟨fs', hcall⟩, hcopied, ?_⟩
  rintro ⟨r, fs₁, hcall₁, hcounts⟩
  rw [hcall₁] at hcall
  have hr : r = 0 := congrArg Prod.fst (Option.some.inj hcall)
  have hret := hcounts.returned
  omega

end Fs
end UcasKernel
