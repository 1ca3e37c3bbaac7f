/-
What the card holds, as the code reads it.

The block map, the inode map, the inodes and the blocks lie behind each other on
the card.  Each of the accesses of `Fs.Disk` gets one lemma: what a read returns,
and what a write leaves as it was.
-/
import UcasKernel.Fs.Mkfs

namespace UcasKernel
namespace Fs

/-- `fs'` differs from `fs` in the bytes `lo .. hi - 1` of the card, and in the
block buffer and the clock. -/
structure Writes (fs : Fs) (lo hi : ℕ) (fs' : Fs) : Prop where
  superblock : fs'.superblock = fs.superblock
  cwdInum : fs'.cwdInum = fs.cwdInum
  fdescArray : fs'.fdescArray = fs.fdescArray
  outside : ∀ x, x < lo ∨ hi ≤ x → fs'.disk x = fs.disk x

/-- The first byte of block `b`. -/
def blockBase (b : ℕ) : ℕ := nbytesPerSector * (0x100000 + 8 * b)

/-- Block `b`, as `read_block` puts it into the block buffer. -/
def block (fs : Fs) (b : ℕ) : Bytes :=
  fun x => if x < nbytesPerBlock then fs.disk (blockBase b + x) else 0

/-- Inode `n`, as `read_inode` returns it. -/
def inode (fs : Fs) (n : ℕ) : Inode :=
  Inode.get (fs.sdread 1 (inodeSector + (n - 1) / 8)) (64 * ((n - 1) % 8))

/-- The fields of an inode that say what it is and where its data is. -/
structure Inode.Same (x y : Inode) : Prop where
  type : x.type = y.type
  ref : x.ref = y.ref
  direct : ∀ i < ndirectBlocks, x.direct i = y.direct i

/-- The first inode has the index blocks of the second, as 32-bit numbers. -/
structure Inode.SameIndex (x y : Inode) : Prop where
  indirect : x.indirect = y.indirect % 2 ^ 32
  doubleIndirect : x.doubleIndirect = y.doubleIndirect % 2 ^ 32

section Writes

variable {fs fs' fs'' : Fs} {lo hi : ℕ}

lemma Writes.refl (fs : Fs) (lo hi : ℕ) : fs.Writes lo hi fs := ⟨rfl, rfl, rfl, fun _ _ => rfl⟩

lemma Writes.trans (h : fs.Writes lo hi fs') (h' : fs'.Writes lo hi fs'') : fs.Writes lo hi fs'' :=
  ⟨h'.superblock.trans h.superblock, h'.cwdInum.trans h.cwdInum,
    h'.fdescArray.trans h.fdescArray, fun x hx => (h'.outside x hx).trans (h.outside x hx)⟩

lemma Writes.mono {lo' hi' : ℕ} (h : fs.Writes lo hi fs') (hlo : lo' ≤ lo) (hhi : hi ≤ hi') :
    fs.Writes lo' hi' fs' :=
  ⟨h.superblock, h.cwdInum, h.fdescArray, fun x hx => h.outside x (by omega)⟩

/-- A change of the block buffer or the clock. -/
lemma Writes.of_disk (hsb : fs'.superblock = fs.superblock) (hcwd : fs'.cwdInum = fs.cwdInum)
    (hfd : fs'.fdescArray = fs.fdescArray) (hdisk : fs'.disk = fs.disk) : fs.Writes lo hi fs' :=
  ⟨hsb, hcwd, hfd, fun x _ => by rw [hdisk]⟩

lemma writes_sdwrite (fs : Fs) (buf : Bytes) {n s : ℕ} (hs : s < 2 ^ 32) :
    fs.Writes (nbytesPerSector * s) (nbytesPerSector * (s + n)) (fs.sdwrite buf n s) :=
  ⟨rfl, rfl, rfl, fun x hx => disk_sdwrite_of_disjoint fs (by rwa [Nat.mod_eq_of_lt hs])⟩

lemma Writes.getLE (h : fs.Writes lo hi fs') {m c : ℕ} (hc : c + m ≤ lo ∨ hi ≤ c) :
    Bytes.getLE fs'.disk m c = Bytes.getLE fs.disk m c :=
  Bytes.getLE_congr fun i hi' => h.outside _ (by omega)

lemma Writes.block (h : fs.Writes lo hi fs') {b : ℕ}
    (hb : blockBase b + nbytesPerBlock ≤ lo ∨ hi ≤ blockBase b) : fs'.block b = fs.block b := by
  funext x
  unfold Fs.block
  split
  · exact h.outside _ (by omega)
  · rfl

lemma Writes.sdread (h : fs.Writes lo hi fs') {n s : ℕ} (hs : s < 2 ^ 32)
    (hc : nbytesPerSector * (s + n) ≤ lo ∨ hi ≤ nbytesPerSector * s) :
    fs'.sdread n s = fs.sdread n s := by
  funext x
  unfold Fs.sdread
  rw [Nat.mod_eq_of_lt hs]
  rw [Nat.mul_add] at hc
  by_cases hx : x < nbytesPerSector * n
  · rw [Bytes.blit_apply_of_mem (by omega), Bytes.blit_apply_of_mem (by omega)]
    exact h.outside _ (by omega)
  · rw [Bytes.blit_apply_of_notMem (by omega), Bytes.blit_apply_of_notMem (by omega)]

/-- A write before or behind the inodes keeps them. -/
lemma Writes.inode (h : fs.Writes lo hi fs') {n : ℕ} (hn : n ≤ 4096)
    (hc : hi ≤ nbytesPerSector * inodeSector ∨ nbytesPerSector * (inodeSector + 512) ≤ lo) :
    fs'.inode n = fs.inode n := by
  unfold Fs.inode
  rw [h.sdread]
  · simp only [inodeSector]
    omega
  · simp only [nbytesPerSector, inodeSector] at hc ⊢
    omega

end Writes

lemma Inode.Same.refl (x : Inode) : Inode.Same x x := ⟨rfl, rfl, fun _ _ => rfl⟩

lemma Inode.Same.trans {x y z : Inode} (h : Inode.Same x y) (h' : Inode.Same y z) :
    Inode.Same x z :=
  ⟨h.type.trans h'.type, h.ref.trans h'.ref,
    fun i hi => (h.direct i hi).trans (h'.direct i hi)⟩

/-- The numbers of an inode that was read fit into 32 bits. -/
lemma Inode.sameIndex_get (b : Bytes) (a : ℕ) : Inode.SameIndex (Inode.get b a) (Inode.get b a) :=
  ⟨(Nat.mod_eq_of_lt (Bytes.getLE_lt b 4 _)).symm, (Nat.mod_eq_of_lt (Bytes.getLE_lt b 4 _)).symm⟩

/-! ## Blocks -/

section Blocks

variable {fs : Fs} {b : ℕ}

lemma block_of_le {x : ℕ} (hx : nbytesPerBlock ≤ x) : fs.block b x = 0 := if_neg (by omega)

lemma blockIs_block (fs : Fs) (b : ℕ) : fs.BlockIs b (fs.block b) := fun _ hx => (if_pos hx).symm

lemma readBlock_block (h : fs.superblock = mkfsSuperblock) (hb : b < 2 ^ 17) :
    fs.readBlock b = { fs with blockBuf := fs.block b } :=
  readBlock_eq h hb (fun _ hx => block_of_le hx) (blockIs_block fs b)

lemma writeBlock_writes (h : fs.superblock = mkfsSuperblock) (hb : b < 2 ^ 17) :
    fs.Writes (blockBase b) (blockBase b + nbytesPerBlock) (fs.writeBlock b) := by
  rw [writeBlock_eq h hb]
  refine (writes_sdwrite fs _ (by omega)).mono le_rfl ?_
  simp only [blockBase, nbytesPerSector, nbytesPerBlock]
  omega

/-- A block that was written holds the first 4096 bytes of the block buffer. -/
lemma block_writeBlock (h : fs.superblock = mkfsSuperblock) (hb : b < 2 ^ 17) {x : ℕ}
    (hx : x < nbytesPerBlock) : (fs.writeBlock b).block b x = fs.blockBuf x := by
  rw [writeBlock_eq h hb, Fs.block, if_pos hx]
  exact blockIs_sdwrite fs hb x hx

end Blocks

/-! ## Inodes -/

namespace Inode

lemma getLE_put_of_disjoint {b : Bytes} {a m c : ℕ} {x : Inode} (h : c + m ≤ a ∨ a + 64 ≤ c) :
    Bytes.getLE (put b a x) m c = Bytes.getLE b m c := by
  simp only [put]
  rw [Bytes.getLE_setLE_of_disjoint (by omega), Bytes.getLE_setLE_of_disjoint (by omega),
    getLE_putDirect_of_disjoint (by simp only [ndirectBlocks]; omega),
    Bytes.getLE_setLE_of_disjoint (by omega), Bytes.getLE_setLE_of_disjoint (by omega),
    Bytes.getLE_setLE_of_disjoint (by omega), Bytes.getLE_setLE_of_disjoint (by omega),
    Bytes.getLE_setLE_of_disjoint (by omega)]

lemma get_put_type (b : Bytes) (a : ℕ) (x : Inode) : (get (put b a x) a).type = x.type % 2 ^ 16 := by
  simp only [get, put]
  rw [Bytes.get16, Bytes.getLE_setLE_of_disjoint (by omega),
    Bytes.getLE_setLE_of_disjoint (by omega),
    getLE_putDirect_of_disjoint (by simp only [ndirectBlocks]; omega),
    Bytes.getLE_setLE_of_disjoint (by omega), Bytes.getLE_setLE_of_disjoint (by omega),
    Bytes.getLE_setLE_of_disjoint (by omega), Bytes.getLE_setLE_of_disjoint (by omega),
    Bytes.getLE_setLE]
  norm_num

lemma get_put_ref (b : Bytes) (a : ℕ) (x : Inode) : (get (put b a x) a).ref = x.ref % 2 ^ 32 := by
  simp only [get, put]
  rw [Bytes.get32, Bytes.getLE_setLE_of_disjoint (by omega),
    Bytes.getLE_setLE_of_disjoint (by omega),
    getLE_putDirect_of_disjoint (by simp only [ndirectBlocks]; omega),
    Bytes.getLE_setLE_of_disjoint (by omega), Bytes.getLE_setLE]
  norm_num

end Inode

section Inodes

variable {fs : Fs} {n : ℕ}

lemma inodeSlot_of_le (h : fs.superblock = mkfsSuperblock) (hn : 1 ≤ n ∧ n ≤ 4096) :
    fs.inodeSlot n = (inodeSector + (n - 1) / 8, (n - 1) % 8) := by
  have h1 : (n : ℤ) - 1 = ((n - 1 : ℕ) : ℤ) := by push_cast [hn.1]; ring
  have h2 : ((n - 1 : ℕ) : ℤ).tdiv (nsectorsPerBlock : ℕ) = (((n - 1) / 8 : ℕ) : ℤ) := rfl
  have h3 : ((n - 1 : ℕ) : ℤ).tmod (nsectorsPerBlock : ℕ) = (((n - 1) % 8 : ℕ) : ℤ) := rfl
  simp only [inodeSlot, h1, h2, h3, h, Prod.mk.injEq]
  have hst : mkfsSuperblock.start + mkfsSuperblock.inodeOffset = inodeSector := rfl
  constructor
  · rw [hst]
    simp only [inodeSector]
    omega
  · omega

lemma readInode_inode (h : fs.superblock = mkfsSuperblock) (hn : 1 ≤ n ∧ n ≤ 4096) :
    fs.readInode n = some (fs.inode n) := by
  rw [readInode, inodeSlot_of_le h hn]
  simp only [Nat.mod_lt _ (show 8 > 0 by decide), if_true]
  rfl

/-- Every field of a slot after `write_inode`: those of the inode that was written, and the
others as they were. -/
lemma writeInode_slots (h : fs.superblock = mkfsSuperblock) (hn : 1 ≤ n ∧ n ≤ 4096) (x : Inode) :
    ∃ fs', fs.writeInode n x = some fs' ∧
      fs.Writes (nbytesPerSector * inodeSector) (nbytesPerSector * (inodeSector + 512)) fs' ∧
      (∀ m c, c + m ≤ 64 →
        Bytes.getLE (fs'.sdread 1 (inodeSector + (n - 1) / 8)) m (64 * ((n - 1) % 8) + c) =
          Bytes.getLE (Inode.put (fs.sdread 1 (inodeSector + (n - 1) / 8)) (64 * ((n - 1) % 8)) x) m
            (64 * ((n - 1) % 8) + c)) ∧
      ∀ k, 1 ≤ k ∧ k ≤ 4096 → k ≠ n → ∀ m c, c + m ≤ 64 →
        Bytes.getLE (fs'.sdread 1 (inodeSector + (k - 1) / 8)) m (64 * ((k - 1) % 8) + c) =
          Bytes.getLE (fs.sdread 1 (inodeSector + (k - 1) / 8)) m (64 * ((k - 1) % 8) + c) := by
  have hslot := inodeSlot_of_le h hn
  have hlt : ∀ k, k ≤ 4096 → inodeSector + (k - 1) / 8 < 2 ^ 32 := fun k hk => by
    simp only [inodeSector]
    omega
  generalize hs : inodeSector + (n - 1) / 8 = s at hslot
  have hs32 : s < 2 ^ 32 := hs ▸ hlt n hn.2
  refine ⟨fs.sdwrite (Inode.put (fs.sdread 1 s) (64 * ((n - 1) % 8)) x) 1 s, ?_, ?_, ?_⟩
  · rw [writeInode, hslot]
    simp only [Nat.mod_lt _ (show 8 > 0 by decide), if_true]
    rfl
  · refine (writes_sdwrite fs _ hs32).mono ?_ ?_
    · simp only [nbytesPerSector]
      omega
    · simp only [nbytesPerSector, ← hs, inodeSector]
      omega
  · -- a read of the sector just written returns the buffer
    have hread : ∀ m c, c + m ≤ 512 →
        Bytes.getLE ((fs.sdwrite (Inode.put (fs.sdread 1 s) (64 * ((n - 1) % 8)) x) 1 s).sdread 1 s)
          m c = Bytes.getLE (Inode.put (fs.sdread 1 s) (64 * ((n - 1) % 8)) x) m c := by
      intro m c hc
      rw [getLE_sdread _ (by simpa [nbytesPerSector] using hc),
        getLE_sdwrite _ (by simpa [nbytesPerSector] using hc)]
    refine ⟨fun m c hc => hread m _ (by omega), fun k hk hkn m c hc => ?_⟩
    by_cases hks : inodeSector + (k - 1) / 8 = s
    · rw [hks, hread m _ (by omega)]
      exact Inode.getLE_put_of_disjoint (by omega)
    · rw [(writes_sdwrite fs _ hs32).sdread (hlt k hk.2)]
      simp only [nbytesPerSector]
      omega

/-- What `write_inode` does: the inode is there, the others are as they were. -/
lemma writeInode_spec (h : fs.superblock = mkfsSuperblock) (hn : 1 ≤ n ∧ n ≤ 4096) (x : Inode) :
    ∃ fs', fs.writeInode n x = some fs' ∧
      fs.Writes (nbytesPerSector * inodeSector) (nbytesPerSector * (inodeSector + 512)) fs' ∧
      (fs'.inode n).type = x.type % 2 ^ 16 ∧ (fs'.inode n).ref = x.ref % 2 ^ 32 ∧
      (∀ i < ndirectBlocks, (fs'.inode n).direct i = x.direct i % 2 ^ 32) ∧
      ∀ m, 1 ≤ m ∧ m ≤ 4096 → m ≠ n → Inode.Same (fs'.inode m) (fs.inode m) := by
  obtain ⟨fs', hwrite, hw, hself, hother⟩ := writeInode_slots h hn x
  refine ⟨fs', hwrite, hw, (hself 2 0 (by omega)).trans (Inode.get_put_type _ _ _),
    (hself 4 8 (by omega)).trans (Inode.get_put_ref _ _ _), fun i hi => ?_, fun m hm hmn => ?_⟩
  · have hi' : i < 10 := hi
    refine Eq.trans ?_ (Inode.get_put_direct (fs.sdread 1 (inodeSector + (n - 1) / 8))
      (64 * ((n - 1) % 8)) x hi)
    simp only [Fs.inode, Inode.get, Nat.add_assoc]
    exact hself 4 (16 + 4 * i) (by omega)
  · refine ⟨hother m hm hmn 2 0 (by omega), hother m hm hmn 4 8 (by omega), fun i hi => ?_⟩
    have hi' : i < 10 := hi
    simp only [Fs.inode, Inode.get, Nat.add_assoc]
    exact hother m hm hmn 4 (16 + 4 * i) (by omega)

/-- The numbers of the index blocks after `write_inode`. -/
lemma writeInode_index {fs' : Fs} {x : Inode} (h : fs.superblock = mkfsSuperblock)
    (hn : 1 ≤ n ∧ n ≤ 4096) (hwrite : fs.writeInode n x = some fs') :
    Inode.SameIndex (fs'.inode n) x ∧
      ∀ m, 1 ≤ m ∧ m ≤ 4096 → m ≠ n → (fs'.inode m).indirect = (fs.inode m).indirect ∧
        (fs'.inode m).doubleIndirect = (fs.inode m).doubleIndirect := by
  obtain ⟨fs₁, hwrite₁, -, hself, hother⟩ := writeInode_slots h hn x
  obtain rfl := Option.some.inj (hwrite.symm.trans hwrite₁)
  refine ⟨⟨(hself 4 56 (by omega)).trans (Inode.get_put_indirect _ _ _),
    (hself 4 60 (by omega)).trans (Inode.get_put_doubleIndirect _ _ _)⟩, fun m hm hmn => ?_⟩
  exact ⟨hother m hm hmn 4 56 (by omega), hother m hm hmn 4 60 (by omega)⟩

end Inodes

end Fs
end UcasKernel
