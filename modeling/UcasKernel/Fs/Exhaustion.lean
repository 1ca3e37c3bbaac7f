/-
What the allocators return when a map is full, and what the calls make of it.

The loops of `alloc_block` and `alloc_inode` run off the end of a full map and
return the number behind its last one.  No caller tests the number: `mkdir` and
`touch` return 0 or do not return once they have reached an allocation, and
`fwrite` returns the bytes that remain to be written, which are 0 in the end.
-/
import UcasKernel.Fs.MapBits

namespace UcasKernel
namespace Fs

/-- Every bit of the block map is set. -/
def BmapFull (fs : Fs) : Prop :=
  ∀ i < nbitsPerSector * nsectorsBmap, fs.mapBit fs.bmapStart i = true

/-- Every bit of the inode map is set. -/
def ImapFull (fs : Fs) : Prop :=
  ∀ i < nbitsPerSector * nsectorsImap, fs.mapBit fs.imapStart i = true

/-- The call returns an error and leaves the card as it was. -/
def Refused (fs : Fs) (isError : ℤ → Prop) (result : Option (ℤ × Fs)) : Prop :=
  ∃ r fs', result = some (r, fs') ∧ isError r ∧ fs'.disk = fs.disk

/-- `mkdir` and `touch` of the path reach their allocations: the name is short
enough and no entry of the current directory has it. -/
def Creates (fs : Fs) (path : List UInt8) : Prop :=
  path.length ≤ dentryNameLen ∧ ∃ cwd scan blockNum fs', fs.readInode fs.cwdInum = some cwd ∧
    fs.scanBlocks cwd (isNamed path) isUnused 0 0 ndirectBlocks = some (scan, blockNum, fs') ∧
    ∀ j, scan ≠ .hit j

/-- The block of the next piece of `do_fwrite`, in the block buffer: a new one is
allocated where the inode has none. -/
def fwriteBlock (fs : Fs) (inode : Inode) (inum : ℤ) (offset : ℕ) : Option (ℕ × Inode × Fs) :=
  let (blkNum, fs) := fs.offsetToBlk offset inode
  if blkNum = 0 then do
    let (blkNum, fs) := fs.allocBlock
    let (inode, fs) ← fs.setInodeBlkNum offset blkNum inode inum
    some (blkNum, inode, { fs with blockBuf := Bytes.zero })
  else some (blkNum, inode, fs.readBlock blkNum)

/-- One round of the loop of `do_fwrite`, with a piece that is left: the inode,
the state, the offset and the length behind it. -/
def fwriteRound (fs : Fs) (inode : Inode) (inum : ℤ) (offset : ℕ) (buff : Bytes) (length : ℤ) :
    Option (Inode × Fs × ℕ × ℤ) :=
  (fs.fwriteBlock inode inum offset).bind fun (blkNum, inode, fs) =>
    let inblkOffset := offset % nbytesPerBlock
    let len := pieceLen inblkOffset length
    if inblkOffset + len > nbytesPerBlock then none
    else
      let fs := { fs with blockBuf := Bytes.blit fs.blockBuf inblkOffset buff 0 len.toNat }
      some (inode, fs.writeBlock blkNum, (offset + len.toNat) % 2 ^ 32, length - len)

/-- The loop of `do_fwrite` comes to a piece that has no block while the block map
is full. -/
inductive LoopRunsOut (inum : ℤ) (buff : Bytes) : Fs → Inode → ℕ → ℤ → Prop
  | here {fs : Fs} {inode : Inode} {offset : ℕ} {length : ℤ} (hlen : 0 < length)
      (hnew : (fs.offsetToBlk offset inode).1 = 0)
      (hfull : (fs.offsetToBlk offset inode).2.BmapFull) : LoopRunsOut inum buff fs inode offset length
  | later {fs fs' : Fs} {inode inode' : Inode} {offset offset' : ℕ} {length length' : ℤ}
      (hlen : 0 < length)
      (hround : fs.fwriteRound inode inum offset buff length = some (inode', fs', offset', length'))
      (hrest : LoopRunsOut inum buff fs' inode' offset' length') :
      LoopRunsOut inum buff fs inode offset length

/-- `fwrite` comes to a piece that cannot get a block. -/
def FwriteRunsOut (fs : Fs) (fd : ℤ) (buff : Bytes) (length : ℤ) : Prop :=
  ∃ d inode, fs.fdesc fd = some d ∧ d.write = true ∧ fs.readInode d.inum = some inode ∧
    let endOffset := (((d.offset % 2 ^ 32 : ℕ) + length) % 2 ^ 32).toNat
    LoopRunsOut d.inum buff (fs.setFdesc fd { d with offset := endOffset })
      (if endOffset > inode.size then { inode with size := endOffset } else inode)
      (d.offset % 2 ^ 32) length

section Maps

variable {fs fs' : Fs} {sector n i : ℕ}

/-- A map whose bits are all set has full words. -/
lemma mapWord_full (hall : ∀ i < nbitsPerSector * n, fs.mapBit sector i = true) {w : ℕ}
    (hw : w < 64 * n) : fs.mapWord sector w = 0xffffffffffffffff := by
  refine Nat.eq_of_testBit_eq fun k => ?_
  rw [testBit_full]
  by_cases hk : k < 64
  · have := hall (64 * w + k) (by simp only [nbitsPerSector]; omega)
    rw [mapBit_word, show (64 * w + k) / 64 = w by omega, show (64 * w + k) % 64 = k by omega] at this
    rw [this, decide_eq_true hk]
  · rw [decide_eq_false hk]
    exact Nat.testBit_lt_two_pow
      ((mapWord_lt ..).trans_le (Nat.pow_le_pow_right (by decide) (by omega)))

/-- A map is full or has a smallest clear bit. -/
lemma full_or_first (fs : Fs) (sector n : ℕ) :
    (∀ i < nbitsPerSector * n, fs.mapBit sector i = true) ∨ ∃ i, fs.FirstClearBit sector n i := by
  by_cases hall : ∀ i < nbitsPerSector * n, fs.mapBit sector i = true
  · exact .inl hall
  · have hex : ∃ i, i < nbitsPerSector * n ∧ fs.mapBit sector i = false := by
      push Not at hall
      obtain ⟨i, hi, hne⟩ := hall
      exact ⟨i, hi, by simpa using hne⟩
    classical
    obtain ⟨hlt, hclear⟩ := Nat.find_spec hex
    refine .inr ⟨Nat.find hex, hlt, hclear, fun j hj => ?_⟩
    have := Nat.find_min hex hj
    by_contra hne
    exact this ⟨hj.trans hlt, by simpa using hne⟩

lemma FirstClearBit.unique {j : ℕ} (hi : fs.FirstClearBit sector n i)
    (hj : fs.FirstClearBit sector n j) : i = j := by
  rcases Nat.lt_trichotomy i j with hlt | heq | hgt
  · have := hj.set i hlt
    rw [hi.clear] at this
    cases this
  · exact heq
  · have := hi.set j hgt
    rw [hj.clear] at this
    cases this

/-- A full block map yields block 131073. -/
lemma allocBlock_full (hfit : fs.MapsFit) (hfull : fs.BmapFull) : fs.allocBlock.1 = 131073 := by
  rcases allocBlock_taken (Eq.refl fs.bmapStart) hfit.bmap with ⟨-, halloc⟩ | ⟨w, k, fs', -, ht⟩
  · rw [halloc]
    rfl
  · have hzero := ht.zero
    change (fs.mapWord fs.bmapStart w).testBit k = false at hzero
    rw [mapWord_full hfull ht.word_lt, testBit_full, decide_eq_true ht.bit_lt] at hzero
    cases hzero

/-- A full inode map yields inode 4097. -/
lemma allocInode_full (hfit : fs.MapsFit) (hfull : fs.ImapFull) : fs.allocInode.1 = 4097 := by
  rcases allocInode_taken (Eq.refl fs.imapStart) hfit.imap with ⟨-, halloc⟩ | ⟨w, k, fs', -, ht⟩
  · rw [halloc]
  · have hzero := ht.zero
    change (fs.mapWord fs.imapStart w).testBit k = false at hzero
    rw [mapWord_full hfull ht.word_lt, testBit_full, decide_eq_true ht.bit_lt] at hzero
    cases hzero

lemma allocBlock_inRange_iff (hfit : fs.MapsFit) :
    70 ≤ fs.allocBlock.1 ∧ fs.allocBlock.1 ≤ 131071 ↔
      ∃ i, fs.FirstClearBit fs.bmapStart nsectorsBmap i ∧ 69 ≤ i ∧ i ≤ 131070 := by
  rcases full_or_first fs fs.bmapStart nsectorsBmap with hfull | ⟨i, hi⟩
  · rw [allocBlock_full hfit hfull]
    refine ⟨fun h => by omega, ?_⟩
    rintro ⟨i, hi, -⟩
    exact (hi.not_full fun w hw => mapWord_full hfull hw).elim
  · rw [(allocBlock_of_first hfit hi).1]
    constructor
    · intro h
      exact ⟨i, hi, by omega⟩
    · rintro ⟨j, hj, hlo, hhi⟩
      obtain rfl := hi.unique hj
      omega

lemma allocInode_inRange_iff (hfit : fs.MapsFit) :
    1 ≤ fs.allocInode.1 ∧ fs.allocInode.1 ≤ 4096 ↔
      ∃ i, fs.FirstClearBit fs.imapStart nsectorsImap i := by
  rcases full_or_first fs fs.imapStart nsectorsImap with hfull | ⟨i, hi⟩
  · rw [allocInode_full hfit hfull]
    refine ⟨fun h => by omega, ?_⟩
    rintro ⟨i, hi⟩
    exact (hi.not_full fun w hw => mapWord_full hfull hw).elim
  · have hlt : i < 4096 * 1 := hi.lt
    rw [(allocInode_of_first hfit hi).1]
    exact ⟨fun _ => ⟨i, hi⟩, fun _ => by omega⟩

end Maps

/-! ## The calls -/

section Calls

variable {fs fs' : Fs} {path : List UInt8} {r : ℤ}

/-- Behind its allocations `mkdir` returns 0. -/
lemma Creates.doMkdir (hc : fs.Creates path) (h : fs.doMkdir path = some (r, fs')) : r = 0 := by
  obtain ⟨hlen, cwd, scan, blockNum, fs₁, hcwd, hscan, hnohit⟩ := hc
  rw [Fs.doMkdir, hcwd] at h
  simp only [Option.bind_eq_bind, Option.bind_some] at h
  rw [if_neg (by omega), hscan, Option.bind_some] at h
  split at h
  · rename_i j heq
    exact absurd heq (hnohit j)
  · obtain ⟨⟨n, fs₂⟩, -, h⟩ := Option.bind_eq_some_iff.1 h
    obtain ⟨fs₃, -, h⟩ := Option.bind_eq_some_iff.1 h
    simp only [Option.some.injEq, Prod.mk.injEq] at h
    exact h.1.symm

/-- Behind its allocation `touch` returns 0. -/
lemma Creates.doTouch (hc : fs.Creates path) (h : fs.doTouch path = some (r, fs')) : r = 0 := by
  obtain ⟨hlen, cwd, scan, blockNum, fs₁, hcwd, hscan, hnohit⟩ := hc
  rw [Fs.doTouch, hcwd] at h
  simp only [Option.bind_eq_bind, Option.bind_some] at h
  rw [if_neg (by omega), hscan, Option.bind_some] at h
  split at h
  · rename_i j heq
    exact absurd heq (hnohit j)
  · obtain ⟨fs₂, -, h⟩ := Option.bind_eq_some_iff.1 h
    obtain ⟨fs₃, -, h⟩ := Option.bind_eq_some_iff.1 h
    simp only [Option.some.injEq, Prod.mk.injEq] at h
    exact h.1.symm

end Calls

/-! ## `fwrite` -/

section Fwrite

variable {fs fs' : Fs} {inode inode' : Inode} {inum : ℤ} {offset offset' fuel : ℕ} {buff : Bytes}
  {length length' r : ℤ}

lemma fwriteLoop_succ (hlen : 0 < length) :
    fwriteLoop (fuel + 1) fs inode inum offset buff length =
      (fs.fwriteRound inode inum offset buff length).bind fun s =>
        fwriteLoop fuel s.2.1 s.1 inum s.2.2.1 buff s.2.2.2 := by
  rw [fwriteLoop, if_neg (by omega), fwriteRound, fwriteBlock, Option.bind_assoc]
  simp only [Option.bind_eq_bind]
  split
  · rw [Option.bind_assoc]
    congr 1
    funext ⟨inode, fs⟩
    simp only [Option.bind_some]
    split <;> rfl
  · simp only [Option.bind_some]
    split <;> rfl

/-- A piece has at least one byte and at most those that are left. -/
lemma pieceLen_bounds {inblkOffset : ℕ} (hoff : inblkOffset < nbytesPerBlock) (hlen : 0 < length) :
    0 < pieceLen inblkOffset length ∧ pieceLen inblkOffset length ≤ length := by
  have hoff' : inblkOffset < 4096 := hoff
  unfold pieceLen
  split
  · rename_i hgt
    simp only [nbytesPerBlock] at hgt ⊢
    have hle : toInt32 (inblkOffset + length) ≤ inblkOffset + length := by
      rw [toInt32, Int.bmod_def]
      split <;> omega
    push_cast at hgt ⊢
    omega
  · exact ⟨hlen, le_rfl⟩

/-- A round makes the length smaller, and not negative. -/
lemma fwriteRound_length (hlen : 0 < length)
    (hround : fs.fwriteRound inode inum offset buff length = some (inode', fs', offset', length')) :
    0 ≤ length' ∧ length' < length := by
  have hpiece := pieceLen_bounds (Nat.mod_lt offset (show 0 < nbytesPerBlock by decide)) hlen
  rw [fwriteRound] at hround
  obtain ⟨⟨blkNum, inode₁, fs₁⟩, -, hround⟩ := Option.bind_eq_some_iff.1 hround
  simp only at hround
  split at hround
  · cases hround
  · simp only [Option.some.injEq, Prod.mk.injEq] at hround
    omega

/-- What the loop returns is the length that is left, which is 0. -/
lemma fwriteLoop_result (hnonneg : 0 ≤ length) (hfuel : length.toNat < fuel)
    (h : fwriteLoop fuel fs inode inum offset buff length = some (r, inode', fs')) : r = 0 := by
  induction fuel generalizing fs inode offset length with
  | zero => omega
  | succ fuel ih =>
    by_cases hlen : 0 < length
    · rw [fwriteLoop_succ hlen] at h
      obtain ⟨⟨inode₁, fs₁, offset₁, length₁⟩, hround, hrest⟩ := Option.bind_eq_some_iff.1 h
      obtain ⟨hnonneg₁, hless⟩ := fwriteRound_length hlen hround
      exact ih hnonneg₁ (by omega) hrest
    · rw [fwriteLoop, if_pos (by omega)] at h
      simp only [Option.some.injEq, Prod.mk.injEq] at h
      omega

lemma LoopRunsOut.pos (h : LoopRunsOut inum buff fs inode offset length) : 0 < length := by
  cases h with
  | here hlen _ _ => exact hlen
  | later hlen _ _ => exact hlen

/-- `fwrite` of a positive length to a descriptor that may write returns 0. -/
lemma doFwrite_result {fd : ℤ} {d : Fdesc} (hfd : fs.fdesc fd = some d) (hwrite : d.write = true)
    (hlen : 0 < length) (h : fs.doFwrite fd buff length = some (r, fs')) : r = 0 := by
  rw [Fs.doFwrite, hfd] at h
  simp only [Option.bind_eq_bind, Option.bind_some, hwrite, Bool.not_true, Bool.false_eq_true,
    if_false] at h
  obtain ⟨x, -, h⟩ := Option.bind_eq_some_iff.1 h
  obtain ⟨⟨r', y, fs₁⟩, hloop, h⟩ := Option.bind_eq_some_iff.1 h
  obtain ⟨fs₂, -, h⟩ := Option.bind_eq_some_iff.1 h
  simp only [Option.some.injEq, Prod.mk.injEq] at h
  rw [← h.1]
  exact fwriteLoop_result (by omega) (by omega) hloop

end Fwrite

/-- The allocators return numbers in range exactly if the smallest clear bit
stands for one, and the calls that come to a full map never report it. -/
theorem exhaustion_reported_iff (fs : Fs) (hfit : fs.MapsFit) :
    (70 ≤ fs.allocBlock.1 ∧ fs.allocBlock.1 ≤ 131071 ↔
      ∃ i, fs.FirstClearBit fs.bmapStart nsectorsBmap i ∧ 69 ≤ i ∧ i ≤ 131070) ∧
    (1 ≤ fs.allocInode.1 ∧ fs.allocInode.1 ≤ 4096 ↔
      ∃ i, fs.FirstClearBit fs.imapStart nsectorsImap i) ∧
    (∀ path : Path,
      (fs.Creates path.1 ∧ (fs.ImapFull ∨ fs.allocInode.2.BmapFull) →
          fs.Refused (· ≠ 0) (fs.doMkdir path.1)) ↔
        ¬ (fs.Creates path.1 ∧ (fs.ImapFull ∨ fs.allocInode.2.BmapFull))) ∧
    (∀ path : Path,
      (fs.Creates path.1 ∧ fs.ImapFull → fs.Refused (· ≠ 0) (fs.doTouch path.1)) ↔
        ¬ (fs.Creates path.1 ∧ fs.ImapFull)) ∧
    (∀ fd buff length,
      (fs.FwriteRunsOut fd buff length → fs.Refused (· < 0) (fs.doFwrite fd buff length)) ↔
        ¬ fs.FwriteRunsOut fd buff length) := by
  refine ⟨allocBlock_inRange_iff hfit, allocInode_inRange_iff hfit, fun path => ?_, fun path => ?_,
    fun fd buff length => ?_⟩
  · refine ⟨fun h hout => ?_, fun h hout => absurd hout h⟩
    obtain ⟨r, fs', hmkdir, hne, -⟩ := h hout
    exact hne (hout.1.doMkdir hmkdir)
  · refine ⟨fun h hout => ?_, fun h hout => absurd hout h⟩
    obtain ⟨r, fs', htouch, hne, -⟩ := h hout
    exact hne (hout.1.doTouch htouch)
  · refine ⟨fun h hout => ?_, fun h hout => absurd hout h⟩
    obtain ⟨r, fs', hfwrite, hneg, -⟩ := h hout
    obtain ⟨d, inode, hfd, hwrite, -, hloop⟩ := hout
    have := doFwrite_result hfd hwrite hloop.pos hfwrite
    omega

/-- On an empty card `alloc_inode` finds an inode. -/
theorem exhaustion_reported_empty :
    1 ≤ (cardWithWord 0 0).allocInode.1 ∧ (cardWithWord 0 0).allocInode.1 ≤ 4096 := by
  refine (exhaustion_reported_iff (cardWithWord 0 0) (mapsFit_cardWithWord 0 0)).2.1.2
    ⟨0, by decide, ?_, by simp⟩
  rw [mapBit_word, mapWord, cardWithWord, Bytes.get64,
    Bytes.getLE_setLE_of_disjoint (.inr (by decide)), Bytes.getLE_zero, Nat.zero_testBit]

/-- A card whose two maps are full and whose other bytes are 0. -/
def fullCard : Fs :=
  { emptyCard with
    disk := fun x =>
      if nbytesPerSector * bmapSector ≤ x ∧ x < nbytesPerSector * inodeSector then 255 else 0
    superblock := mkfsSuperblock }

lemma mapsFit_fullCard : fullCard.MapsFit :=
  ⟨show bmapSector + nsectorsBmap ≤ 2 ^ 32 by decide, show imapSector + nsectorsImap ≤ 2 ^ 32 by decide⟩

lemma mapBit_fullCard (sector : ℕ) {n : ℕ} (hlo : bmapSector ≤ sector)
    (hhi : sector + n ≤ inodeSector) :
    ∀ i < nbitsPerSector * n, fullCard.mapBit sector i = true := by
  intro i hi
  have hword : fullCard.mapWord sector (i / 64) = 0xffffffffffffffff := by
    calc fullCard.mapWord sector (i / 64)
        = Bytes.getLE (fun _ => 255) 8 0 := Bytes.getLE_congr fun k hk => by
          simp only [nbitsPerSector, bmapSector, inodeSector] at hi hlo hhi
          exact if_pos (by simp only [nbytesPerSector, bmapSector, inodeSector]; omega)
      _ = 0xffffffffffffffff := by decide
  exact mapBit_of_full hword

/-- The current directory of the card has no block, so `touch` goes to create a
file. -/
lemma creates_fullCard : fullCard.Creates [97] := by
  have hread : fullCard.readInode fullCard.cwdInum = some (fullCard.inode 1) :=
    readInode_inode rfl (by decide)
  have hzero : (fullCard.inode 1).direct 0 = 0 := by
    rw [Fs.inode, Inode.get]
    calc Bytes.get32 (fullCard.sdread 1 (inodeSector + (1 - 1) / 8)) (64 * ((1 - 1) % 8) + 16 + 4 * 0)
        = Bytes.getLE (fun _ => 0) 4 0 := Bytes.getLE_congr fun k hk => by
          rw [sdread, Bytes.blit_apply_of_mem (by simp only [nbytesPerSector]; omega)]
          exact if_neg (by simp only [nbytesPerSector, bmapSector, inodeSector]; omega)
      _ = 0 := by decide
  refine ⟨by decide, _, .past, 0, fullCard, hread, ?_, fun j hj => by cases hj⟩
  rw [ndirectBlocks, scanBlocks, hzero]
  rfl

/-- With full maps the allocators return numbers behind the last one, and `touch`
does not report that there is no inode. -/
theorem exhaustion_unreported :
    fullCard.allocBlock.1 = 131073 ∧ fullCard.allocInode.1 = 4097 ∧
      (fullCard.Creates [97] ∧ fullCard.ImapFull) ∧
      ¬ fullCard.Refused (· ≠ 0) (fullCard.doTouch [97]) := by
  have hbmap : fullCard.BmapFull := mapBit_fullCard bmapSector (by decide) (by decide)
  have himap : fullCard.ImapFull := mapBit_fullCard imapSector (by decide) (by decide)
  refine ⟨allocBlock_full mapsFit_fullCard hbmap, allocInode_full mapsFit_fullCard himap,
    ⟨creates_fullCard, himap⟩, ?_⟩
  rintro ⟨r, fs', htouch, hne, -⟩
  exact hne (creates_fullCard.doTouch htouch)

end Fs
end UcasKernel
