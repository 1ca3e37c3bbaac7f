/-
Which bytes of the card a call changes.

The regions are those of the layout of `do_mkfs`: the two maps, the slots of the
inodes, the blocks, and the entries of a block.  An inode is written by reading its
sector, changing its slot and writing the sector back, and an entry by doing the
same with its block, so every access changes the bytes it means to.
-/
import UcasKernel.Fs.Walk
import Mathlib.Data.Set.Function

namespace UcasKernel
namespace Fs

/-- `fs'` has the bytes of `fs` on the card outside of a region. -/
def ChangesIn (fs : Fs) (region : Set ℕ) (fs' : Fs) : Prop :=
  Set.EqOn fs'.disk fs.disk regionᶜ

/-! ## Regions -/

/-- The sectors of the block map. -/
def bmapBytes : Set ℕ := {x | nbytesPerSector * bmapSector ≤ x ∧ x < nbytesPerSector * imapSector}

/-- The sector of the inode map. -/
def imapBytes : Set ℕ := {x | nbytesPerSector * imapSector ≤ x ∧ x < nbytesPerSector * inodeSector}

/-- The first byte of the slot of inode `n`. -/
def slotBase (n : ℕ) : ℕ := nbytesPerSector * inodeSector + Inode.sizeof * (n - 1)

/-- The slot of inode `n`. -/
def slotBytes (n : ℕ) : Set ℕ := {x | slotBase n ≤ x ∧ x < slotBase n + Inode.sizeof}

/-- Block `b`. -/
def blockBytes (b : ℕ) : Set ℕ := {x | blockBase b ≤ x ∧ x < blockBase b + nbytesPerBlock}

/-- Entry `j` of block `b`, as far as the block goes. -/
def entryBytes (b j : ℕ) : Set ℕ :=
  {x | blockBase b + sizeofDentry * j ≤ x ∧ x < blockBase b + sizeofDentry * (j + 1) ∧
    x < blockBase b + nbytesPerBlock}

section ChangesIn

variable {fs fs' fs'' : Fs} {r r' : Set ℕ}

lemma ChangesIn.of_disk (h : fs'.disk = fs.disk) : fs.ChangesIn r fs' := fun x _ => by rw [h]

lemma ChangesIn.mono (h : fs.ChangesIn r fs') (hr : r ⊆ r') : fs.ChangesIn r' fs' :=
  Set.EqOn.mono (Set.compl_subset_compl.2 hr) h

/-- One change after another. -/
lemma ChangesIn.trans (h : fs.ChangesIn r fs') (h' : fs'.ChangesIn r' fs'') :
    fs.ChangesIn (r ∪ r') fs'' := by
  intro x hx
  rw [h' fun hmem => hx (.inr hmem), h fun hmem => hx (.inl hmem)]

lemma Writes.changesIn {lo hi : ℕ} (h : fs.Writes lo hi fs') :
    fs.ChangesIn {x | lo ≤ x ∧ x < hi} fs' := by
  intro x hx
  refine h.outside x ?_
  by_contra hin
  exact hx ⟨by omega, by omega⟩

/-- A block that lies outside of the region. -/
lemma ChangesIn.block (h : fs.ChangesIn r fs') {b : ℕ} (hr : Disjoint r (blockBytes b)) :
    fs'.block b = fs.block b := by
  funext x
  unfold Fs.block
  split
  · exact h fun hmem => Set.disjoint_left.1 hr hmem ⟨by omega, by omega⟩
  · rfl

end ChangesIn

/-! ## The maps -/

section Maps

variable {fs : Fs} (h : fs.superblock = mkfsSuperblock)
include h

lemma writes_allocInode :
    fs.Writes (nbytesPerSector * imapSector) (nbytesPerSector * inodeSector) fs.allocInode.2 := by
  rw [Fs.allocInode]
  dsimp only
  rw [imapStart_eq h]
  exact writes_sdwrite fs _ (n := 1) (s := imapSector) (by decide)

omit h in
lemma writes_allocBlockLoop (start bnum : ℕ) {i n : ℕ} (hlt : start + i + n ≤ 2 ^ 32) :
    fs.Writes (nbytesPerSector * (start + i)) (nbytesPerSector * (start + i + n))
      (fs.allocBlockLoop start bnum i n).2 := by
  induction n generalizing fs bnum i with
  | zero => exact Writes.refl _ _ _
  | succ n ih =>
    rw [allocBlockLoop]
    generalize scanWords (fs.sdread 1 (start + i)) bnum 0 64 = scan
    obtain ⟨buf, bnum', finished⟩ := scan
    have hw : fs.Writes (nbytesPerSector * (start + i)) (nbytesPerSector * (start + i + (n + 1)))
        (fs.sdwrite buf 1 (start + i)) :=
      (writes_sdwrite fs buf (by omega)).mono le_rfl (Nat.mul_le_mul_left _ (by omega))
    dsimp only
    split
    · exact hw
    · refine hw.trans ((ih bnum' (by omega)).mono ?_ ?_)
      · exact Nat.mul_le_mul_left _ (by omega)
      · exact Nat.mul_le_mul_left _ (by omega)

lemma writes_allocBlock :
    fs.Writes (nbytesPerSector * bmapSector) (nbytesPerSector * imapSector) fs.allocBlock.2 := by
  rw [Fs.allocBlock]
  dsimp only
  rw [bmapStart_eq h]
  exact writes_allocBlockLoop bmapSector 0 (i := 0) (n := nsectorsBmap) (by decide)

end Maps

/-! ## Inodes -/

lemma Inode.put_apply_of_notMem {b : Bytes} {a c : ℕ} {x : Inode} (h : c < a ∨ a + 64 ≤ c) :
    Inode.put b a x c = b c := by
  have hbyte := Inode.getLE_put_of_disjoint (b := b) (x := x) (m := 1) (c := c) (a := a) (by omega)
  simp only [Bytes.getLE, Nat.mul_zero, Nat.add_zero] at hbyte
  exact UInt8.toNat_inj.1 hbyte

lemma changesIn_writeInode {fs fs' : Fs} {n : ℕ} {x : Inode} (h : fs.superblock = mkfsSuperblock)
    (hn : 1 ≤ n ∧ n ≤ 4096) (hwrite : fs.writeInode n x = some fs') :
    fs.ChangesIn (slotBytes n) fs' := by
  have hoff : (n - 1) % 8 < 8 := Nat.mod_lt _ (by decide)
  have hs : (inodeSector + (n - 1) / 8) % 2 ^ 32 = inodeSector + (n - 1) / 8 := by
    refine Nat.mod_eq_of_lt ?_
    simp only [inodeSector]
    omega
  rw [writeInode, inodeSlot_of_le h hn] at hwrite
  dsimp only at hwrite
  rw [if_pos hoff, Option.some.injEq] at hwrite
  subst hwrite
  intro y hy
  rw [disk_sdwrite, hs]
  have hbase : slotBase n = nbytesPerSector * (inodeSector + (n - 1) / 8) + 64 * ((n - 1) % 8) := by
    simp only [slotBase, nbytesPerSector, Inode.sizeof]
    omega
  have hout : y < slotBase n ∨ slotBase n + 64 ≤ y := by
    by_contra hin
    exact hy ⟨by omega, by simp only [Inode.sizeof]; omega⟩
  by_cases hsec : nbytesPerSector * (inodeSector + (n - 1) / 8) ≤ y ∧
      y < nbytesPerSector * (inodeSector + (n - 1) / 8) + nbytesPerSector * 1
  · -- the rest of the sector is written back as it was read
    rw [Bytes.blit_apply_of_mem hsec, Inode.put_apply_of_notMem (by simp only [Inode.sizeof]; omega),
      sdread, hs, Bytes.blit_apply_of_mem (by omega)]
    congr 1
    omega
  · exact Bytes.blit_apply_of_notMem (by omega)

lemma superblock_writeInode {fs fs' : Fs} {n : ℕ} {x : Inode} (h : fs.superblock = mkfsSuperblock)
    (hn : 1 ≤ n ∧ n ≤ 4096) (hwrite : fs.writeInode n x = some fs') :
    fs'.superblock = mkfsSuperblock := by
  obtain ⟨fs₁, hwrite₁, hw, -⟩ := writeInode_spec h hn x
  obtain rfl := Option.some.inj (hwrite.symm.trans hwrite₁)
  exact hw.superblock.trans h

/-! ## Blocks -/

section Blocks

variable {fs fs' : Fs} {b : ℕ} {es : List Entry}

lemma changesIn_writeBlock (h : fs.superblock = mkfsSuperblock) (hb : b < 2 ^ 17) :
    fs.ChangesIn (blockBytes b) (fs.writeBlock b) := (writeBlock_writes h hb).changesIn

/-- The first unused entry of a block that was read is filled and the block is written
back. -/
lemma changesIn_appendDentry {inum : ℤ} {name : List UInt8} (h : fs.superblock = mkfsSuperblock)
    (hb : b < 2 ^ 17) (hbuf : IsDir (fs.readBlock b).blockBuf es) (hlen : name.length ≤ 27)
    (happend : (fs.readBlock b).appendDentry b inum name = some fs') :
    fs.ChangesIn (entryBytes b es.length) fs' := by
  obtain ⟨j, hj, happend⟩ := Option.bind_eq_some_iff.1 happend
  obtain ⟨buf, hput, happend⟩ := Option.bind_eq_some_iff.1 happend
  obtain rfl := Option.some.inj happend
  rw [hbuf.firstUnused] at hj
  split at hj
  swap
  · cases hj
  obtain rfl := Option.some.inj hj
  rw [putDentry] at hput
  split at hput
  swap
  · cases hput
  obtain rfl := Option.some.inj hput
  rw [readBlock_block h hb] at *
  intro x hx
  rw [writeBlock_eq (by exact h) hb, disk_sdwrite, Nat.mod_eq_of_lt (by omega)]
  dsimp only
  have hbase : nbytesPerSector * (0x100000 + 8 * b) = blockBase b := rfl
  rw [hbase]
  by_cases hin : x ∈ blockBytes b
  · obtain ⟨hlo, hhi⟩ := hin
    have hout : x - blockBase b < sizeofDentry * es.length ∨
        sizeofDentry * es.length + 8 + name.length < x - blockBase b := by
      by_contra hmem
      rw [not_or, not_lt, not_lt] at hmem
      refine hx ⟨by omega, ?_, hhi⟩
      simp only [sizeofDentry] at *
      omega
    have hsector : nbytesPerSector * 8 = nbytesPerBlock := rfl
    rw [Bytes.blit_apply_of_mem ⟨hlo, by rw [hsector]; exact hhi⟩, Nat.zero_add,
      setDentry_of_notMem hout, Fs.block, if_pos (by omega)]
    congr 1
    omega
  · refine Bytes.blit_apply_of_notMem ?_
    by_contra hmem
    exact hin ⟨by omega, by simp only [nbytesPerSector, nbytesPerBlock] at *; omega⟩

/-- The block is all that is written. -/
lemma appendDentry_writes {inum : ℤ} {name : List UInt8} (h : fs.superblock = mkfsSuperblock)
    (hb : b < 2 ^ 17) (happend : fs.appendDentry b inum name = some fs') :
    fs.Writes (blockBase b) (blockBase b + nbytesPerBlock) fs' := by
  obtain ⟨j, -, happend⟩ := Option.bind_eq_some_iff.1 happend
  obtain ⟨buf, -, happend⟩ := Option.bind_eq_some_iff.1 happend
  obtain rfl := Option.some.inj happend
  have hw := @writeBlock_writes { fs with blockBuf := buf } b h hb
  exact ⟨hw.superblock, hw.cwdInum, hw.fdescArray, hw.outside⟩

end Blocks

/-! ## Regions that do not meet -/

lemma disjoint_maps_block {b : ℕ} (hb : DataBlock b) :
    Disjoint (imapBytes ∪ bmapBytes) (blockBytes b) := by
  have hbehind := dataBlock_behind hb
  refine Set.disjoint_left.2 ?_
  rintro x (⟨-, hx⟩ | ⟨-, hx⟩) ⟨hx', -⟩
  · simp only [nbytesPerSector, inodeSector] at *
    omega
  · simp only [nbytesPerSector, inodeSector, imapSector] at *
    omega

lemma disjoint_slot_block {n b : ℕ} (hn : n ≤ 4096) (hb : DataBlock b) :
    Disjoint (slotBytes n) (blockBytes b) := by
  have hbehind := dataBlock_behind hb
  refine Set.disjoint_left.2 ?_
  rintro x ⟨-, hx⟩ ⟨hx', -⟩
  simp only [slotBase, nbytesPerSector, inodeSector, Inode.sizeof] at *
  omega

lemma disjoint_block_block {b c : ℕ} (hne : c ≠ b) : Disjoint (blockBytes c) (blockBytes b) := by
  refine Set.disjoint_left.2 ?_
  rintro x ⟨hx, hx'⟩ ⟨hy, hy'⟩
  simp only [blockBase, nbytesPerSector, nbytesPerBlock] at *
  omega

/-! ## New entries -/

section Append

variable {fs fs₁ fs' : Fs} {v : Volume} {n b : ℕ} {es : List Entry} {x : Inode} {r : Set ℕ}

/-- What was written before lies apart from the block of the directory, so the entry
that is filled is the one that was unused at first. -/
lemma Opened.append_changes (o : fs.Opened v n es x b) (h : fs.superblock = mkfsSuperblock)
    (h₁ : fs₁.superblock = mkfsSuperblock) (hr : fs.ChangesIn r fs₁)
    (hdisjoint : Disjoint r (blockBytes b)) {inum : ℤ} {name : List UInt8} (hlen : name.length ≤ 27)
    (happend : (fs₁.readBlock b).appendDentry b inum name = some fs') :
    fs.ChangesIn (entryBytes b es.length ∪ r) fs' := by
  have hbuf := o.buf
  rw [readBlock_block h o.data.2] at hbuf
  have hbuf₁ : IsDir (fs₁.readBlock b).blockBuf es := by
    rw [readBlock_block h₁ o.data.2]
    dsimp only
    rw [hr.block hdisjoint]
    exact hbuf
  rw [Set.union_comm]
  exact hr.trans (changesIn_appendDentry h₁ o.data.2 hbuf₁ hlen happend)

/-- Reading a block does not depend on the block buffer. -/
lemma Opened.setBlockBuf (o : fs.Opened v n es x b) (h : fs.superblock = mkfsSuperblock)
    (buf : Bytes) : ({ fs with blockBuf := buf } : Fs).Opened v n es x b := by
  have hread : ({ fs with blockBuf := buf } : Fs).readBlock b = fs.readBlock b := by
    rw [readBlock_block h o.data.2, readBlock_block (by exact h) o.data.2]
    rfl
  refine ⟨o.inode, o.same, o.fits, o.first, o.block, o.data, ?_, ?_⟩
  · rw [hread]
    exact o.shows
  · rw [hread]
    exact o.buf

/-- The entry that is filled was unused. -/
lemma Opened.unused (o : fs.Opened v n es x b) (hlt : es.length < maxEntries) :
    dentryValid (fs.readBlock (x.direct 0)).blockBuf es.length = some false ∧
      dentryInum (fs.readBlock (x.direct 0)).blockBuf es.length = some 0 := by
  rw [o.first]
  exact ⟨o.buf.dentryValid_unused le_rfl hlt, o.buf.dentryInum_unused le_rfl hlt⟩

end Append

end Fs
end UcasKernel
