/-
`do_mkfs` and `init_bigfile`, and the disk they leave.

`init_bigfile` numbers the blocks of `8MB.dat` by hand: 10 direct blocks from
72, the indirect block and its 1024 blocks, the double indirect block, its first
second-level block and the 1014 blocks of that one, up to block 2122.  The block
map it writes before that has 2119 bits set, which by the convention of
`alloc_block` stand for blocks 1 to 2119: the three index blocks were not
counted.
-/
import UcasKernel.Fs.File

namespace UcasKernel
namespace Fs

/-- The superblock `do_mkfs` fills in. -/
def mkfsSuperblock : Superblock where
  magic := superblockMagic
  start := fsStartSector
  size := nsectorsFs
  bmapOffset := nsectorsSuperblock
  imapOffset := nsectorsSuperblock + nsectorsBmap
  inodeOffset := nsectorsSuperblock + nsectorsBmap + nsectorsImap
  dataOffset := nsectorsSuperblock + nsectorsBmap + nsectorsImap + nsectorsInodeblock
  inodeSize := Inode.sizeof
  dentrySize := sizeofDentry

/-- `sector_buf[i] = v` for the words `0 .. n - 1`. -/
def fillWords (b : Bytes) (v : ℕ) : ℕ → Bytes
  | 0 => b
  | n + 1 => Bytes.set64 (fillWords b v n) (8 * n) v

/-- The loop of `do_mkfs` that clears the block-map sectors from number `i`. -/
def clearBmap (fs : Fs) (bmapStart i : ℕ) : ℕ → Fs
  | 0 => fs
  | n + 1 => (fs.sdwrite Bytes.zero 1 (bmapStart + i)).clearBmap bmapStart (i + 1) n

/-- The first part of `do_mkfs`: the superblock and the two bit maps. -/
def mkfsMaps (fs : Fs) : Fs :=
  let fs := { fs with superblock := mkfsSuperblock }
  let sb := fs.superblock
  let fs := fs.sdwrite (sb.put Bytes.zero) 1 sb.start
  let sectorBuf := Bytes.set64 (Bytes.set64 Bytes.zero 0 0xffffffffffffffff) 8 0x3f
  let fs := fs.sdwrite sectorBuf 1 (sb.start + sb.bmapOffset)
  let fs := fs.clearBmap (sb.start + sb.bmapOffset) 1 (nsectorsBmap - 1)
  fs.sdwrite Bytes.zero 1 (sb.start + sb.imapOffset)

/-- The block map `init_bigfile` writes. -/
def bigfileBmap : Bytes :=
  Bytes.set64 (fillWords Bytes.zero 0xffffffffffffffff 33) (8 * 33) 0x7f

/-- The name `8MB.dat`. -/
def bigfileName : List UInt8 := [56, 77, 66, 46, 100, 97, 116]

/-- The inode of the big file after its block numbers were assigned. -/
def bigfileInode (inode : Inode) : Inode :=
  { inode with
    direct := fun i => if i < ndirectBlocks then 72 + i else inode.direct i
    indirect := 82
    doubleIndirect := 1107
    size := 8388608 }

lemma doubleIndirect_bigfileInode (inode : Inode) :
    (bigfileInode inode).doubleIndirect = 1107 := rfl

/-- Write block `blockNum` with the given content, through the block buffer. -/
def fillBlock (fs : Fs) (blockNum : ℕ) (buf : Bytes) : Fs :=
  ({ fs with blockBuf := buf } : Fs).writeBlock blockNum

/-- The part of `init_bigfile` behind `do_touch`: `free_block` runs from 72. -/
def fillBigfile (fs : Fs) : Option Fs := do
  let bigFile ← fs.readInode testBigFileInum
  let fs := fs.sdwrite bigfileBmap 1 (fs.superblock.start + fs.superblock.bmapOffset)
  let fs := fs.fillBlock 82 (Bytes.fill32 Bytes.zero 83 1024)
  let fs := fs.fillBlock 1107 (Bytes.set32 Bytes.zero 0 1108)
  let fs := fs.fillBlock 1108 (Bytes.fill32 Bytes.zero 1109 1014)
  fs.writeInode testBigFileInum (bigfileInode bigFile)

/-- `init_bigfile`; the result of `do_touch` is not looked at. -/
def initBigfile (fs : Fs) : Option Fs := do
  let (_, fs) ← fs.doTouch bigfileName
  fs.fillBigfile

/-- `do_mkfs`. -/
def doMkfs (fs : Fs) : Option (ℤ × Fs) := do
  let (_, fs) ← fs.mkfsMaps.initDirInode rootDirInum
  let fs ← ({ fs with cwdInum := rootDirInum } : Fs).initBigfile
  some (0, fs)

/-! ## Reading back what was written -/

lemma get64_fillWords (b : Bytes) (v : ℕ) {n i : ℕ} (hi : i < n) :
    Bytes.get64 (fillWords b v n) (8 * i) = v % 256 ^ 8 := by
  induction n with
  | zero => omega
  | succ n ih =>
    rcases Nat.lt_succ_iff_lt_or_eq.1 hi with h | rfl
    · rw [fillWords, Bytes.get64, Bytes.getLE_setLE_of_disjoint (by omega)]
      exact ih h
    · rw [fillWords, Bytes.get64, Bytes.getLE_setLE]

/-- The first sectors of the block map, the inode map and the inodes. -/
def bmapSector : ℕ := 0x100001
def imapSector : ℕ := 0x100021
def inodeSector : ℕ := 0x100022

section Sectors

variable {fs : Fs} (h : fs.superblock = mkfsSuperblock)
include h

lemma bmapStart_eq : fs.superblock.start + fs.superblock.bmapOffset = bmapSector := by
  rw [h]; rfl

lemma imapStart_eq : fs.superblock.start + fs.superblock.imapOffset = imapSector := by
  rw [h]; rfl

lemma blockSector_eq {b : ℕ} (hb : b < 2 ^ 17) : fs.blockSector b = 0x100000 + 8 * b := by
  rw [blockSector, h]
  simp only [mkfsSuperblock, fsStartSector, nsectorsPerBlock]
  omega

lemma writeBlock_eq {b : ℕ} (hb : b < 2 ^ 17) :
    fs.writeBlock b = fs.sdwrite fs.blockBuf 8 (0x100000 + 8 * b) := by
  rw [writeBlock, blockSector_eq h hb]
  rfl

/-- The first eight inodes share the first inode sector. -/
lemma inodeSlot_eq {k : ℕ} (hk : k < 8) : fs.inodeSlot (k + 1 : ℕ) = (inodeSector, k) := by
  have h1 : ((k + 1 : ℕ) : ℤ) - 1 = (k : ℤ) := by push_cast; ring
  have h2 : (k : ℤ).tdiv (nsectorsPerBlock : ℕ) = 0 :=
    Int.tdiv_eq_zero_of_lt (by omega) (by simp only [nsectorsPerBlock]; omega)
  have h3 : (k : ℤ).tmod (nsectorsPerBlock : ℕ) = k :=
    Int.tmod_eq_of_lt (by omega) (by simp only [nsectorsPerBlock]; omega)
  simp only [inodeSlot, h1, h2, h3, h, Prod.mk.injEq]
  refine ⟨rfl, by omega⟩

lemma writeInode_eq {k : ℕ} (hk : k < 8) (inode : Inode) :
    fs.writeInode (k + 1 : ℕ) inode =
      some (fs.sdwrite (Inode.put (fs.sdread 1 inodeSector) (64 * k) inode) 1 inodeSector) := by
  rw [writeInode, inodeSlot_eq h hk]
  simp only [hk, if_true]
  rfl

lemma readInode_eq {k : ℕ} (hk : k < 8) :
    fs.readInode (k + 1 : ℕ) = some (Inode.get (fs.sdread 1 inodeSector) (64 * k)) := by
  rw [readInode, inodeSlot_eq h hk]
  simp only [hk, if_true]
  rfl

end Sectors

/-- A block holds the bytes of a buffer that is zero from 4096 on. -/
def BlockIs (fs : Fs) (b : ℕ) (buf : Bytes) : Prop :=
  ∀ x < nbytesPerBlock, fs.disk (nbytesPerSector * (0x100000 + 8 * b) + x) = buf x

lemma readBlock_eq {fs : Fs} (h : fs.superblock = mkfsSuperblock) {b : ℕ} (hb : b < 2 ^ 17)
    {buf : Bytes} (hbuf : ∀ x, nbytesPerBlock ≤ x → buf x = 0) (hdisk : fs.BlockIs b buf) :
    fs.readBlock b = { fs with blockBuf := buf } := by
  have heq : fs.sdread nsectorsPerBlock (fs.blockSector b) = buf := by
    funext x
    rw [sdread, blockSector_eq h hb]
    by_cases hx : x < nbytesPerBlock
    · have hx' : x < 4096 := hx
      rw [Bytes.blit_apply_of_mem (by simp only [nbytesPerSector, nsectorsPerBlock]; omega),
        Nat.mod_eq_of_lt (by omega), Nat.sub_zero]
      exact hdisk x hx
    · have hx' : 4096 ≤ x := Nat.le_of_not_lt hx
      rw [Bytes.blit_apply_of_notMem (by simp only [nbytesPerSector, nsectorsPerBlock]; omega),
        hbuf x hx', Bytes.zero_apply]
  rw [readBlock, heq]

/-- A write to other sectors keeps a block. -/
lemma BlockIs.sdwrite {fs : Fs} {b : ℕ} {buf c : Bytes} {n s : ℕ} (hdisk : fs.BlockIs b buf)
    (hs : s + n ≤ 0x100000 + 8 * b ∨ 0x100000 + 8 * b + 8 ≤ s) (hlt : s < 2 ^ 32) :
    (fs.sdwrite c n s).BlockIs b buf := by
  intro x hx
  have hx' : x < 4096 := hx
  rw [disk_sdwrite_of_disjoint, hdisk x hx]
  rw [Nat.mod_eq_of_lt hlt]
  simp only [nbytesPerSector]
  omega

lemma blockIs_sdwrite (fs : Fs) {b : ℕ} {buf : Bytes} (hb : b < 2 ^ 17) :
    (fs.sdwrite buf 8 (0x100000 + 8 * b)).BlockIs b buf := by
  intro x hx
  have hx' : x < 4096 := hx
  rw [disk_sdwrite, Nat.mod_eq_of_lt (by omega),
    Bytes.blit_apply_of_mem (by simp only [nbytesPerSector]; omega)]
  congr 1
  omega

/-! ## The allocators on a map with a known first clear word -/

/-- The scan passes `m` full words and stops at the word behind them. -/
lemma scanWords_of_full {buf : Bytes} {bnum j m n : ℕ} (hm : m < n)
    (hfull : ∀ i < m, Bytes.get64 buf (8 * (j + i)) = 0xffffffffffffffff)
    (hopen : Bytes.get64 buf (8 * (j + m)) ≠ 0xffffffffffffffff) :
    scanWords buf bnum j n =
      let bnum := bnum + 64 * m + trailingOnes 64 (Bytes.get64 buf (8 * (j + m)))
      (Bytes.set64 buf (8 * (j + m))
        (Bytes.get64 buf (8 * (j + m)) ||| shl1 (bnum % 64 : ℕ)), bnum, true) := by
  induction m generalizing bnum j n with
  | zero =>
    obtain ⟨n, rfl⟩ : ∃ k, n = k + 1 := ⟨n - 1, by omega⟩
    rw [scanWords, if_neg (by simpa using hopen)]
    simp only [Nat.mul_zero, Nat.add_zero]
  | succ m ih =>
    obtain ⟨n, rfl⟩ : ∃ k, n = k + 1 := ⟨n - 1, by omega⟩
    have h0 : Bytes.get64 buf (8 * j) = 0xffffffffffffffff := by simpa using hfull 0 (by omega)
    have hidx : ∀ i, j + 1 + i = j + (i + 1) := fun i => by omega
    rw [scanWords, if_pos h0, ih (by omega) (fun i hi => by rw [hidx]; exact hfull (i + 1) (by omega))
      (by rw [hidx]; exact hopen), hidx]
    simp only [show bnum + 64 + 64 * m = bnum + 64 * (m + 1) by omega]

/-- `alloc_inode` on a map whose first word `v` is not full. -/
lemma allocInode_eq {fs : Fs} (h : fs.superblock = mkfsSuperblock) {v : ℕ}
    (hv : Bytes.get64 fs.disk (nbytesPerSector * imapSector) = v)
    (hopen : v ≠ 0xffffffffffffffff) :
    ∃ buf, fs.allocInode = (((trailingOnes 64 v + 1 : ℕ) : ℤ), fs.sdwrite buf 1 imapSector) ∧
      Bytes.get64 buf 0 = (v ||| shl1 (trailingOnes 64 v % 64 : ℕ)) % 2 ^ 64 := by
  have hread : Bytes.get64 (fs.sdread 1 imapSector) (8 * (0 + 0)) = v := by
    rw [Bytes.get64, getLE_sdread _ (by decide)]
    exact hv
  have hscan := @scanWords_of_full (fs.sdread 1 imapSector) 0 0 0 64 (by decide)
    (fun i hi => absurd hi (by omega)) (by rw [hread]; exact hopen)
  rw [hread] at hscan
  refine ⟨Bytes.set64 (fs.sdread 1 imapSector) 0 (v ||| shl1 (trailingOnes 64 v % 64 : ℕ)), ?_,
    Bytes.getLE_setLE _ 8 0 _⟩
  simp only [allocInode, imapStart_eq h, hscan, Nat.mul_zero, Nat.add_zero, Nat.zero_add,
    Nat.cast_add, Nat.cast_one]

/-- `alloc_block` when the first sector of the block map has a word with a clear
bit. -/
lemma allocBlock_of_finished {fs : Fs} (h : fs.superblock = mkfsSuperblock) {buf : Bytes} {bnum : ℕ}
    (hscan : scanWords (fs.sdread 1 bmapSector) 0 0 64 = (buf, bnum, true)) :
    fs.allocBlock = (bnum + 1, fs.sdwrite buf 1 bmapSector) := by
  have hloop : ∀ n, fs.allocBlockLoop bmapSector 0 0 (n + 1) = (bnum, fs.sdwrite buf 1 bmapSector) := by
    intro n
    rw [allocBlockLoop, Nat.add_zero, hscan]
    rfl
  rw [allocBlock, bmapStart_eq h]
  simp only [nsectorsBmap, hloop 31]

/-- `alloc_block` on a map whose first word is full and whose second word `v` is
not. -/
lemma allocBlock_eq {fs : Fs} (h : fs.superblock = mkfsSuperblock) {v : ℕ}
    (hfull : Bytes.get64 fs.disk (nbytesPerSector * bmapSector) = 0xffffffffffffffff)
    (hv : Bytes.get64 fs.disk (nbytesPerSector * bmapSector + 8) = v)
    (hopen : v ≠ 0xffffffffffffffff) :
    ∃ buf, fs.allocBlock = (64 + trailingOnes 64 v + 1, fs.sdwrite buf 1 bmapSector) := by
  have hread : ∀ i < 2, Bytes.get64 (fs.sdread 1 bmapSector) (8 * (0 + i)) =
      Bytes.get64 fs.disk (nbytesPerSector * bmapSector + 8 * i) := by
    intro i hi
    rw [Bytes.get64, getLE_sdread _ (by simp only [nbytesPerSector]; omega), Nat.zero_add]
    rfl
  have hfull0 : ∀ i < 1, Bytes.get64 (fs.sdread 1 bmapSector) (8 * (0 + i)) =
      0xffffffffffffffff := by
    intro i hi
    obtain rfl : i = 0 := by omega
    rw [hread 0 (by omega)]
    exact hfull
  have hread1 : Bytes.get64 (fs.sdread 1 bmapSector) (8 * (0 + 1)) = v := by
    rw [hread 1 (by omega)]
    exact hv
  have hscan := @scanWords_of_full (fs.sdread 1 bmapSector) 0 0 1 64 (by decide) hfull0
    (by rw [hread1]; exact hopen)
  rw [hread1] at hscan
  simp only [Nat.zero_add, Nat.mul_one] at hscan
  exact ⟨_, allocBlock_of_finished h hscan⟩

/-! ## The root directory -/

/-- The block of a root directory with its two entries. -/
def rootBlock : Bytes :=
  Bytes.blit Bytes.zero 0 (setDentry (setDentry Bytes.zero 0 1 [46]) 1 1 [46, 46]) 0
    (2 * sizeofDentry)

lemma rootBlock_zero (x : ℕ) (hx : nbytesPerBlock ≤ x) : rootBlock x = 0 := by
  have hx' : 4096 ≤ x := hx
  rw [rootBlock, Bytes.blit_apply_of_notMem (by simp only [sizeofDentry]; omega),
    Bytes.zero_apply]

/-- The state `do_mkfs` is in when it calls `init_bigfile`. -/
structure FreshRoot (fs : Fs) : Prop where
  superblock : fs.superblock = mkfsSuperblock
  cwdInum : fs.cwdInum = rootDirInum
  imap : Bytes.get64 fs.disk (nbytesPerSector * imapSector) = 1
  rootDirect : Bytes.get32 fs.disk (nbytesPerSector * inodeSector + 16) = 71
  root : fs.BlockIs 71 rootBlock

lemma superblock_clearBmap (fs : Fs) (bmapStart i n : ℕ) :
    (fs.clearBmap bmapStart i n).superblock = fs.superblock := by
  induction n generalizing fs i with
  | zero => rfl
  | succ n ih => rw [clearBmap, ih, superblock_sdwrite]

/-- Clearing the later sectors of the block map keeps the first one. -/
lemma getLE_clearBmap {fs : Fs} {bmapStart i n m c : ℕ} (hlt : bmapStart + i + n ≤ 2 ^ 32)
    (hc : c + m ≤ nbytesPerSector * (bmapStart + i)) :
    Bytes.getLE (fs.clearBmap bmapStart i n).disk m c = Bytes.getLE fs.disk m c := by
  induction n generalizing fs i with
  | zero => rfl
  | succ n ih =>
    have hmod : (bmapStart + i) % 2 ^ 32 = bmapStart + i := Nat.mod_eq_of_lt (by omega)
    rw [clearBmap, ih (by omega) (by simp only [nbytesPerSector] at hc ⊢; omega),
      getLE_sdwrite_of_disjoint _ (Or.inl (by rw [hmod]; exact hc))]

@[simp] lemma superblock_mkfsMaps (fs : Fs) : fs.mkfsMaps.superblock = mkfsSuperblock := by
  simp only [mkfsMaps, superblock_sdwrite, superblock_clearBmap]

/-- After the maps were written, words 0 and 1 of the block map are the 70 blocks
of the metadata. -/
lemma bmap_mkfsMaps (fs : Fs) {a : ℕ} (ha : a + 8 ≤ nbytesPerSector) :
    Bytes.get64 fs.mkfsMaps.disk (nbytesPerSector * bmapSector + a) =
      Bytes.get64 (Bytes.set64 (Bytes.set64 Bytes.zero 0 0xffffffffffffffff) 8 0x3f) a := by
  have ha' : a + 8 ≤ 512 := ha
  have hb : ∀ sb : Superblock, sb = mkfsSuperblock → sb.start + sb.bmapOffset = bmapSector := by
    rintro _ rfl
    rfl
  have hi : ∀ sb : Superblock, sb = mkfsSuperblock → sb.start + sb.imapOffset = imapSector := by
    rintro _ rfl
    rfl
  simp only [mkfsMaps]
  rw [hb _ rfl, hi _ rfl, Bytes.get64, getLE_sdwrite_of_disjoint, getLE_clearBmap]
  · exact getLE_sdwrite (n := 1) (s := bmapSector) _ ha
  · decide
  · simp only [nbytesPerSector, bmapSector]
    omega
  · left
    norm_num [nbytesPerSector, bmapSector, imapSector]
    omega

lemma imap_mkfsMaps (fs : Fs) :
    Bytes.get64 fs.mkfsMaps.disk (nbytesPerSector * imapSector) = 0 := by
  have hi : ∀ sb : Superblock, sb = mkfsSuperblock → sb.start + sb.imapOffset = imapSector := by
    rintro _ rfl
    rfl
  simp only [mkfsMaps]
  rw [hi _ rfl]
  exact (getLE_sdwrite (n := 1) (s := imapSector) (a := 0) _ (by decide)).trans
    (Bytes.getLE_zero _ _)

/-- A write to sectors with numbers below `2 ^ 32` keeps the integers outside of
them. -/
lemma getLE_keep (fs : Fs) {buf : Bytes} {n s m c : ℕ} (hlt : s < 2 ^ 32)
    (h : c + m ≤ nbytesPerSector * s ∨ nbytesPerSector * (s + n) ≤ c) :
    Bytes.getLE (fs.sdwrite buf n s).disk m c = Bytes.getLE fs.disk m c :=
  getLE_sdwrite_of_disjoint fs (by rwa [Nat.mod_eq_of_lt hlt])

/-- The integers of a sector with a number below `2 ^ 32` after it was written. -/
lemma getLE_written (fs : Fs) {buf : Bytes} {n s m a : ℕ} (hlt : s < 2 ^ 32)
    (h : a + m ≤ nbytesPerSector * n) :
    Bytes.getLE (fs.sdwrite buf n s).disk m (nbytesPerSector * s + a) = Bytes.getLE buf m a := by
  have hread := @getLE_sdwrite fs buf n s m a h
  rwa [Nat.mod_eq_of_lt hlt] at hread

/-- With empty maps but for the 70 metadata blocks, `init_dir_inode` takes inode
1 and block 71 for the root. -/
lemma initDirInode_root {fs : Fs} (hsb : fs.superblock = mkfsSuperblock)
    (himap : Bytes.get64 fs.disk (nbytesPerSector * imapSector) = 0)
    (hbm0 : Bytes.get64 fs.disk (nbytesPerSector * bmapSector) = 0xffffffffffffffff)
    (hbm1 : Bytes.get64 fs.disk (nbytesPerSector * bmapSector + 8) = 0x3f) :
    ∃ fs', fs.initDirInode rootDirInum = some (1, fs') ∧
      FreshRoot { fs' with cwdInum := rootDirInum } := by
  obtain ⟨bufI, hI, hI0⟩ := allocInode_eq hsb himap (by decide)
  set A := fs.sdwrite bufI 1 imapSector with hA
  have hsbA : A.superblock = mkfsSuperblock := hsb
  have hA0 : Bytes.get64 A.disk (nbytesPerSector * imapSector) = 1 := by
    have h := @getLE_written fs bufI 1 imapSector 8 0 (by decide) (by decide)
    exact h.trans (hI0.trans (by decide))
  have hA1 : Bytes.get64 A.disk (nbytesPerSector * bmapSector) = 0xffffffffffffffff := by
    rw [hA, Bytes.get64, getLE_keep _ (by decide) (by decide)]
    exact hbm0
  have hA2 : Bytes.get64 A.disk (nbytesPerSector * bmapSector + 8) = 0x3f := by
    rw [hA, Bytes.get64, getLE_keep _ (by decide) (by decide)]
    exact hbm1
  obtain ⟨bufB, hB⟩ := allocBlock_eq hsbA hA1 hA2 (by decide)
  rw [show 64 + trailingOnes 64 0x3f + 1 = 71 by decide] at hB
  set B := A.sdwrite bufB 1 bmapSector with hBdef
  have hsbB : B.superblock = mkfsSuperblock := hsbA
  have hB0 : Bytes.get64 B.disk (nbytesPerSector * imapSector) = 1 := by
    rw [hBdef, Bytes.get64, getLE_keep _ (by decide) (by decide)]
    exact hA0
  clear_value A B
  have hinit : fs.initDirInode rootDirInum = (do
      let C ← ({ B with clock := fun i => B.clock (i + 1) } : Fs).writeInode (0 + 1 : ℕ)
        (Inode.setDirect { Inode.zero with
          type := typeDirectory, permission := 0b1111101101, timeCreated := B.clock 0, ref := 1 } 0 71)
      some (1, ({ C with blockBuf := rootBlock } : Fs).writeBlock 71)) := by
    rw [initDirInode, hI]
    simp only [hB, getTicks]
    rfl
  generalize hC : ({ B with clock := fun i => B.clock (i + 1) } : Fs) = C at hinit
  have hsbC : C.superblock = mkfsSuperblock := by rw [← hC]; exact hsbB
  have hC0 : Bytes.get64 C.disk (nbytesPerSector * imapSector) = 1 := by rw [← hC]; exact hB0
  rw [writeInode_eq hsbC (by decide), Option.bind_eq_bind, Option.bind_some] at hinit
  generalize hD : C.sdwrite _ 1 inodeSector = D at hinit
  have hsbD : D.superblock = mkfsSuperblock := by rw [← hD, superblock_sdwrite, hsbC]
  have hD0 : Bytes.get64 D.disk (nbytesPerSector * imapSector) = 1 := by
    rw [← hD, Bytes.get64, getLE_keep _ (by decide) (by decide)]
    exact hC0
  have hD1 : Bytes.get32 D.disk (nbytesPerSector * inodeSector + 16) = 71 := by
    rw [← hD, Bytes.get32, getLE_written _ (by decide) (by decide)]
    exact Inode.get_put_direct (i := 0) _ 0 _ (by decide)
  rw [writeBlock_eq (by exact hsbD) (by decide)] at hinit
  refine ⟨_, hinit, hsbD, rfl, ?_, ?_, ?_⟩
  · exact (getLE_keep _ (by decide) (by decide)).trans hD0
  · exact (getLE_keep _ (by decide) (by decide)).trans hD1
  · exact blockIs_sdwrite _ (by decide)

/-- The scan of the root block for a name that is not in it ends at entry 2. -/
lemma scanBlocks_root {fs : Fs} (h : FreshRoot fs) {inode : Inode} (hdir : inode.direct 0 = 71) :
    fs.scanBlocks inode (isNamed bigfileName) isUnused 0 0 ndirectBlocks =
      some (.stop 2, 71, { fs with blockBuf := rootBlock }) := by
  have hread := readBlock_eq h.superblock (by decide) rootBlock_zero h.root
  have hscan : scanEntries (isNamed bigfileName rootBlock 0) (isUnused rootBlock 0) 0
      ndentriesPerBlock = some (.stop 2) := by decide
  rw [ndirectBlocks, scanBlocks]
  simp only [hdir, hread, hscan]
  rfl

/-- `do_touch("8MB.dat")` in the fresh root directory succeeds with inode 2. -/
lemma doTouch_bigfile {fs : Fs} (h : FreshRoot fs) :
    ∃ fs', fs.doTouch bigfileName = some (0, fs') ∧ fs'.superblock = mkfsSuperblock ∧
      Bytes.get64 fs'.disk (nbytesPerSector * imapSector) = 3 := by
  have hroot : fs.cwdInum = ((0 + 1 : ℕ) : ℤ) := h.cwdInum
  have hdir : (Inode.get (fs.sdread 1 inodeSector) (64 * 0)).direct 0 = 71 := by
    simp only [Inode.get]
    rw [Bytes.get32, getLE_sdread _ (by decide)]
    exact h.rootDirect
  have hsbA : ({ fs with blockBuf := rootBlock } : Fs).superblock = mkfsSuperblock := h.superblock
  obtain ⟨bufI, hI, hI0⟩ := allocInode_eq hsbA h.imap (by decide)
  rw [show ((trailingOnes 64 1 + 1 : ℕ) : ℤ) = ((1 + 1 : ℕ) : ℤ) by decide] at hI
  set A := ({ fs with blockBuf := rootBlock } : Fs).sdwrite bufI 1 imapSector with hA
  have hsbA : A.superblock = mkfsSuperblock := h.superblock
  have hA0 : Bytes.get64 A.disk (nbytesPerSector * imapSector) = 3 := by
    have hw := @getLE_written { fs with blockBuf := rootBlock } bufI 1 imapSector 8 0
      (by decide) (by decide)
    exact hw.trans (hI0.trans (by decide))
  have hA1 : A.BlockIs 71 rootBlock := BlockIs.sdwrite h.root (by decide) (by decide)
  -- the inode slot of the new file and the second read of the root block
  set B := ({ A with clock := fun i => A.clock (i + 1) } : Fs).sdwrite
    (Inode.put (A.sdread 1 inodeSector) (64 * 1) (newFile (A.clock 0))) 1 inodeSector with hB
  have hsbB : B.superblock = mkfsSuperblock := hsbA
  have hB0 : Bytes.get64 B.disk (nbytesPerSector * imapSector) = 3 := by
    rw [hB, Bytes.get64, getLE_keep _ (by decide) (by decide)]
    exact hA0
  have hB1 : B.BlockIs 71 rootBlock := BlockIs.sdwrite hA1 (by decide) (by decide)
  have hread := readBlock_eq hsbB (by decide) rootBlock_zero hB1
  have hfirst : firstUnused rootBlock 0 ndentriesPerBlock = some 2 := by decide
  have htouch : fs.doTouch bigfileName = some (0, ({ B with
      blockBuf := setDentry rootBlock 2 (1 + 1 : ℕ) bigfileName } : Fs).writeBlock 71) := by
    rw [doTouch, hroot, readInode_eq h.superblock (by decide)]
    simp only [Option.bind_eq_bind, Option.bind_some, scanBlocks_root h hdir]
    rw [if_neg (by decide), hI]
    simp only [getTicks]
    rw [writeInode_eq (by exact hsbA) (by decide)]
    simp only [Option.bind_some]
    rw [show ∀ g : Fs, g = B → (g.readBlock 71).appendDentry 71 (1 + 1 : ℕ) bigfileName =
      some (({ B with blockBuf := setDentry rootBlock 2 (1 + 1 : ℕ) bigfileName } : Fs).writeBlock
        71) by rintro g rfl; rw [hread, appendDentry]; simp only [hfirst]; rfl]
    · rfl
    · rfl
  refine ⟨_, htouch, hsbB, ?_⟩
  rw [writeBlock_eq (by exact hsbB) (by decide), Bytes.get64, getLE_keep _ (by decide) (by decide)]
  exact hB0

/-! ## The state `do_mkfs` leaves -/

/-- The facts about the disk left by `do_mkfs` that concern the tail of the big
file. -/
structure AfterMkfs (fs : Fs) : Prop where
  superblock : fs.superblock = mkfsSuperblock
  imap : Bytes.get64 fs.disk (nbytesPerSector * imapSector) = 3
  bmap : ∀ j < 64, Bytes.get64 fs.disk (nbytesPerSector * bmapSector + 8 * j) =
    Bytes.get64 bigfileBmap (8 * j)
  doubleIndirect : (Inode.get (fs.sdread 1 inodeSector) (64 * 1)).doubleIndirect = 1107
  index : Bytes.get32 fs.disk (nbytesPerSector * (0x100000 + 8 * 1107)) = 1108
  second : ∀ k < 1014,
    Bytes.get32 fs.disk (nbytesPerSector * (0x100000 + 8 * 1108) + 4 * k) = 1109 + k

lemma superblock_fillBlock (fs : Fs) (b : ℕ) (buf : Bytes) :
    (fs.fillBlock b buf).superblock = fs.superblock := rfl

/-- A filled block leaves the integers outside of it. -/
lemma getLE_fillBlock_of_disjoint {fs : Fs} (h : fs.superblock = mkfsSuperblock) {b m c : ℕ}
    {buf : Bytes} (hb : b < 2 ^ 17)
    (hc : c + m ≤ nbytesPerSector * (0x100000 + 8 * b) ∨
      nbytesPerSector * (0x100000 + 8 * b + 8) ≤ c) :
    Bytes.getLE (fs.fillBlock b buf).disk m c = Bytes.getLE fs.disk m c := by
  rw [fillBlock, writeBlock_eq (by exact h) hb, getLE_keep _ (by omega) hc]

lemma getLE_fillBlock {fs : Fs} (h : fs.superblock = mkfsSuperblock) {b m a : ℕ} {buf : Bytes}
    (hb : b < 2 ^ 17) (ha : a + m ≤ nbytesPerBlock) :
    Bytes.getLE (fs.fillBlock b buf).disk m (nbytesPerSector * (0x100000 + 8 * b) + a) =
      Bytes.getLE buf m a := by
  rw [fillBlock, writeBlock_eq (by exact h) hb, getLE_written _ (by omega) ha]

lemma afterMkfs_fillBigfile {fs : Fs} (hsb : fs.superblock = mkfsSuperblock)
    (himap : Bytes.get64 fs.disk (nbytesPerSector * imapSector) = 3) :
    ∃ fs', fs.fillBigfile = some fs' ∧ AfterMkfs fs' := by
  have hinum : testBigFileInum = ((1 + 1 : ℕ) : ℤ) := rfl
  obtain ⟨A, hA⟩ : ∃ f, f = fs.sdwrite bigfileBmap 1 bmapSector := ⟨_, rfl⟩
  have hsbA : A.superblock = mkfsSuperblock := by rw [hA, superblock_sdwrite, hsb]
  obtain ⟨B, hB⟩ : ∃ f, f = A.fillBlock 82 (Bytes.fill32 Bytes.zero 83 1024) := ⟨_, rfl⟩
  have hsbB : B.superblock = mkfsSuperblock := by rw [hB, superblock_fillBlock, hsbA]
  obtain ⟨C, hC⟩ : ∃ f, f = B.fillBlock 1107 (Bytes.set32 Bytes.zero 0 1108) := ⟨_, rfl⟩
  have hsbC : C.superblock = mkfsSuperblock := by rw [hC, superblock_fillBlock, hsbB]
  obtain ⟨D, hD⟩ : ∃ f, f = C.fillBlock 1108 (Bytes.fill32 Bytes.zero 1109 1014) := ⟨_, rfl⟩
  have hsbD : D.superblock = mkfsSuperblock := by rw [hD, superblock_fillBlock, hsbC]
  have hfill : fs.fillBigfile = some (D.sdwrite (Inode.put (D.sdread 1 inodeSector) (64 * 1)
      (bigfileInode (Inode.get (fs.sdread 1 inodeSector) (64 * 1)))) 1 inodeSector) := by
    rw [fillBigfile, hinum, readInode_eq hsb (by decide)]
    simp only [Option.bind_eq_bind, Option.bind_some]
    rw [bmapStart_eq hsb, ← hA, ← hB, ← hC, ← hD, writeInode_eq hsbD (by decide)]
  -- the integers in the metadata are those of `A`
  have hmeta : ∀ m c, c + m ≤ nbytesPerSector * 0x100290 →
      Bytes.getLE D.disk m c = Bytes.getLE A.disk m c := by
    intro m c hc
    rw [hD, getLE_fillBlock_of_disjoint hsbC (by decide)
        (Or.inl (hc.trans (by decide))),
      hC, getLE_fillBlock_of_disjoint hsbB (by decide)
        (Or.inl (hc.trans (by decide))),
      hB, getLE_fillBlock_of_disjoint hsbA (by decide)
        (Or.inl (hc.trans (by decide)))]
  have hindex : Bytes.get32 D.disk (nbytesPerSector * (0x100000 + 8 * 1107)) = 1108 := by
    rw [hD, Bytes.get32, getLE_fillBlock_of_disjoint hsbC (by decide) (by decide)]
    have hw := @getLE_fillBlock B hsbB 1107 4 0 (Bytes.set32 Bytes.zero 0 1108) (by decide)
      (by decide)
    rw [← hC, Nat.add_zero] at hw
    rw [hw, Bytes.getLE_setLE]
    norm_num
  have hsecond : ∀ k < 1014,
      Bytes.get32 D.disk (nbytesPerSector * (0x100000 + 8 * 1108) + 4 * k) = 1109 + k := by
    intro k hk
    rw [hD, Bytes.get32, getLE_fillBlock hsbC (by decide) (by simp only [nbytesPerBlock]; omega)]
    exact Bytes.get32_fill32 _ _ hk (by norm_num)
  refine ⟨_, hfill, hsbD, ?_, ?_, ?_, ?_, ?_⟩
  · rw [Bytes.get64, getLE_keep _ (by decide) (by decide), hmeta _ _ (by decide), hA,
      getLE_keep _ (by decide) (by decide)]
    exact himap
  · intro j hj
    have hle : nbytesPerSector * bmapSector + 8 * j + 8 ≤ nbytesPerSector * imapSector := by
      simp only [nbytesPerSector, bmapSector, imapSector]
      omega
    rw [Bytes.get64, getLE_keep _ (by decide) (Or.inl (hle.trans (by decide))),
      hmeta _ _ (hle.trans (by decide)), hA,
      getLE_written _ (by decide) (by simp only [nbytesPerSector]; omega)]
  · simp only [Inode.get]
    rw [Bytes.get32, getLE_sdread _ (by decide),
      show inodeSector % 2 ^ 32 = inodeSector by decide, getLE_written _ (by decide) (by decide)]
    refine (Inode.get_put_doubleIndirect _ _ _).trans ?_
    rw [doubleIndirect_bigfileInode, Nat.mod_eq_of_lt (by norm_num)]
  · rw [Bytes.get32, getLE_keep _ (by decide) (by decide)]
    exact hindex
  · intro k hk
    rw [Bytes.get32, getLE_keep _ (by decide) (Or.inr ?_)]
    · exact hsecond k hk
    · simp only [nbytesPerSector, inodeSector]
      omega

theorem afterMkfs_doMkfs (fs : Fs) : ∃ fs', fs.doMkfs = some (0, fs') ∧ AfterMkfs fs' := by
  obtain ⟨fs₁, h₁, hroot⟩ := initDirInode_root (superblock_mkfsMaps fs) (imap_mkfsMaps fs)
    (bmap_mkfsMaps fs (a := 0) (by decide)) (bmap_mkfsMaps fs (a := 8) (by decide))
  obtain ⟨fs₂, h₂, hsb, himap⟩ := doTouch_bigfile hroot
  obtain ⟨fs₃, h₃, hafter⟩ := afterMkfs_fillBigfile hsb himap
  refine ⟨fs₃, ?_, hafter⟩
  rw [doMkfs, h₁]
  simp only [Option.bind_eq_bind, Option.bind_some]
  rw [initBigfile, h₂]
  simp only [Option.bind_eq_bind, Option.bind_some, h₃]

end Fs
end UcasKernel
