/-
What `do_fwrite` does to the tree, and where it writes.

The blocks of a file are those in its direct slots and, for `8MB.dat`, those in the entries
of the index blocks that `init_bigfile` lays out.  As long as a request stays in cells that
are there, and the blocks in them are not those of directories, a round of the loop writes
a block of the file, and the cells of the file keep their blocks.
-/
import UcasKernel.Fs.Accesses
import UcasKernel.Fs.Cells
import UcasKernel.Fs.Descriptors

namespace UcasKernel
namespace Fs

/-! ## The volume -/

section Represents

variable {fs : Fs} {v : Volume} {t : Tree} {n ref k b : ℕ} {x : Inode} {buf : Bytes}

/-- Block `b` is not that of a directory. -/
def Tree.Spares (t : Tree) (v : Volume) (b : ℕ) : Prop :=
  ∀ m es, t.node m = some (.dir es) → (v.inode m).direct 0 ≠ b

/-- A block that is not marked is none of a directory and no index block. -/
lemma Represents.spares_free (hr : Represents v t) (hb : b ∉ v.bmap) : t.Spares v b := by
  intro m es hm heq
  obtain ⟨hmarked, -⟩ := hr.dirBlock hm
  rw [heq] at hmarked
  exact hb hmarked

lemma Represents.fileBlock_free (hr : Represents v t) (hix : Indexes v) (hb : Handed nblocks b)
    (hnew : b ∉ v.bmap) : FileBlock b ∧ 71 ≤ b := by
  have hge : 71 ≤ b := by
    by_contra hlt
    exact hnew (hr.metadata b (by omega) hb)
  exact ⟨⟨⟨by omega, hb.lt⟩, fun hmem => hnew (hix.marked b hmem)⟩, hge⟩

/-- A block of a file is written. -/
lemma Represents.writeData (hr : Represents v t) (hspares : t.Spares v b) (hb : b ∉ imageIndex)
    (buf : Bytes) : Represents { v with block := Function.update v.block b buf } t := by
  refine hr.retouch (fun _ _ _ _ => rfl) (fun _ => Iff.rfl) rfl rfl rfl
    (fun hix => ⟨hix.inode, fun c hc =>
      Function.update_of_ne (fun heq : c = b => hb (heq ▸ hc)) _ _⟩)
    fun m nd hm => ?_
  refine (hr.node m nd hm).congr rfl rfl (fun _ _ => rfl) fun es hes => ?_
  subst hes
  exact Function.update_of_ne (hspares m es hm) _ _

lemma Inode.setDirect_direct (x : Inode) (k b i : ℕ) :
    (x.setDirect k b).direct i = if i = k then b else x.direct i := Function.update_apply _ _ _ _

/-- A file gets a new block in a direct slot. -/
lemma Represents.addBlock (hr : Represents v t) (hn : t.node n = some (.file ref))
    (hx : Inode.Same x (v.inode n)) (hindex : Inode.SameIndex x (v.inode n))
    (hk : k < ndirectBlocks) (h0 : x.direct k = 0) (hb : b ∉ v.bmap) (hge : 71 ≤ b) :
    Represents { v with
      bmap := insert b v.bmap
      inode := Function.update v.inode n (x.setDirect k b) } t := by
  have hmem := hr.mem_imap hn
  have hself : (Function.update v.inode n (x.setDirect k b)) n = x.setDirect k b :=
    Function.update_self _ _ _
  have hother : ∀ m, m ≠ n → (Function.update v.inode n (x.setDirect k b)) m = v.inode m :=
    fun m hm => Function.update_of_ne hm _ _
  have hdirect : ∀ i < ndirectBlocks, (x.setDirect k b).direct i =
      if i = k then b else (v.inode n).direct i := by
    intro i hi
    rw [Inode.setDirect_direct, hx.direct i hi]
  -- the slots other than the new one are as they were
  have hslot : ∀ m ∈ v.imap, ∀ i < ndirectBlocks,
      (m = n ∧ i = k ∧ (Function.update v.inode n (x.setDirect k b) m).direct i = b) ∨
      (Function.update v.inode n (x.setDirect k b) m).direct i = (v.inode m).direct i ∧
        ¬ (m = n ∧ i = k) := by
    intro m _ i hi
    by_cases hmn : m = n
    · subst hmn
      rw [hself, hdirect i hi]
      by_cases hik : i = k
      · exact .inl ⟨rfl, hik, if_pos hik⟩
      · exact .inr ⟨if_neg hik, fun hand => hik hand.2⟩
    · rw [hother m hmn]
      exact .inr ⟨rfl, fun hand => hmn hand.1⟩
  have hold : ∀ m ∈ v.imap, ∀ i < ndirectBlocks, (v.inode m).direct i = b → b = 0 := by
    intro m hm i hi heq
    by_contra hb0
    exact hb (heq ▸ (hr.owned m hm i hi (heq ▸ hb0)).1)
  refine ⟨hr.imap, fun m nd hm => ?_, fun m hm i hi hne => ?_,
    fun m hm m' hm' i hi i' hi' hne heq => ?_,
    fun c hc hlt => ?_, fun c hc hc' => .inr (hr.metadata c hc hc'), fun hflag => ?_, hr.cwd,
    hr.fdescArray⟩
  · by_cases hmn : m = n
    · subst hmn
      obtain rfl := Option.some.inj (hm.symm.trans hn)
      have hat : (v.inode m).type = typeFile ∧ (v.inode m).ref = ref := hr.node m _ hn
      refine ⟨?_, ?_⟩
      · simp only [hself]
        exact hx.type.trans hat.1
      · simp only [hself]
        exact hx.ref.trans hat.2
    · refine (hr.node m nd hm).congr ?_ ?_ (fun i _ => ?_) fun _ _ => rfl <;>
        simp only [hother m hmn]
  · simp only at hne ⊢
    rcases hslot m hm i hi with ⟨-, -, heq⟩ | ⟨heq, -⟩
    · rw [heq]
      exact ⟨.inl rfl, hge⟩
    · rw [heq] at hne ⊢
      obtain ⟨hmarked, hle⟩ := hr.owned m hm i hi hne
      exact ⟨.inr hmarked, hle⟩
  · simp only at hne heq
    rcases hslot m hm i hi with ⟨rfl, rfl, h1⟩ | ⟨h1, -⟩ <;>
      rcases hslot m' hm' i' hi' with ⟨rfl, rfl, h2⟩ | ⟨h2, -⟩
    · exact ⟨rfl, rfl⟩
    · rw [h1, h2] at heq
      exact absurd (hold m' hm' i' hi' heq.symm) (by omega)
    · rw [h1, h2] at heq
      exact absurd (hold m hm i hi heq) (by omega)
    · rw [h1, h2] at heq
      rw [h1] at hne
      exact hr.unique m hm m' hm' i hi i' hi' hne heq
  · rcases hc with rfl | hc
    · refine .inl ⟨n, hmem, k, hk, ?_⟩
      simp only [hself, hdirect k hk, if_true]
    rcases hr.full c hc hlt with ⟨m, hm, i, hi, hmi⟩ | hentry
    · refine .inl ⟨m, hm, i, hi, ?_⟩
      rcases hslot m hm i hi with ⟨rfl, rfl, -⟩ | ⟨heq, -⟩
      · rw [← hx.direct i hi, h0] at hmi
        exact absurd hmi (by omega)
      · exact heq.trans hmi
    · exact .inr hentry
  · have hix := hr.index hflag
    refine hix.congr (fun c hc => .inr (hix.marked c hc)) (fun m hm i hi => ?_) (fun m hm => ?_)
      fun _ _ => rfl
    · rcases hslot m hm i hi with ⟨-, -, heq⟩ | ⟨heq, -⟩
      · exact fun hmem => hb (hix.marked b (heq ▸ hmem))
      · exact fun hmem => hix.apart m hm i hi (heq ▸ hmem)
    · by_cases hmn : m = n
      · subst hmn
        simp only [hself]
        exact (hix.inode m hm).same ⟨hindex.indirect, hindex.doubleIndirect⟩
      · simp only [hother m hmn]
        exact hix.inode m hm

/-- `8MB.dat` gets a new block in an entry of its last index block. -/
lemma Represents.addEntry (hr : Represents v t) (hflag : t.indexed = true)
    (hk : k < nindirectBlocks) (h0 : v.entry 1108 k = 0) (hb : b ∉ v.bmap) (hfile : FileBlock b)
    (hbuf : ∀ j < nindirectBlocks,
      Bytes.get32 buf (4 * j) = if j = k then b else v.entry 1108 j) :
    Represents { v with
      bmap := insert b v.bmap
      block := Function.update v.block 1108 buf } t := by
  have hix := hr.index hflag
  have hentry : ∀ c ∈ imageIndex, c ≠ 1108 → ∀ j,
      Volume.entry { v with
        bmap := insert b v.bmap
        block := Function.update v.block 1108 buf } c j = v.entry c j := fun c _ hne =>
    Volume.entry_congr (Function.update_of_ne hne _ _)
  have hlast : ∀ j < nindirectBlocks,
      Volume.entry { v with
        bmap := insert b v.bmap
        block := Function.update v.block 1108 buf } 1108 j = if j = k then b else v.entry 1108 j := by
    intro j hj
    rw [Volume.entry]
    simp only [Function.update_self]
    exact hbuf j hj
  refine ⟨hr.imap, fun m nd hm => ?_, fun m hm i hi hne => ?_, hr.unique, fun c hc hlt => ?_,
    fun c hc hc' => .inr (hr.metadata c hc hc'), fun _ => ?_, hr.cwd, hr.fdescArray⟩
  · refine (hr.node m nd hm).congr rfl rfl (fun _ _ => rfl) fun es hes => ?_
    subst hes
    refine Function.update_of_ne (fun heq => ?_) _ _
    have happart := hix.apart m (hr.mem_imap hm) 0 (by decide)
    rw [heq] at happart
    exact happart (by decide)
  · exact ⟨.inr (hr.owned m hm i hi hne).1, (hr.owned m hm i hi hne).2⟩
  · rcases hc with rfl | hc
    · exact .inr ⟨hflag, k, hk, by rw [hlast k hk, if_pos rfl]⟩
    rcases hr.full c hc hlt with hslot | ⟨-, j, hj, hmj⟩
    · exact .inl hslot
    · refine .inr ⟨hflag, j, hj, ?_⟩
      rw [hlast j hj, if_neg, hmj]
      rintro rfl
      rw [h0] at hmj
      omega
  · refine ⟨fun c hc => .inr (hix.marked c hc), hix.apart, hix.inode, fun j hj => ?_, fun j hj => ?_,
      fun j hj => ?_⟩
    · rw [hentry 82 (by decide) (by decide)]
      exact hix.indirect j hj
    · rw [hentry 1107 (by decide) (by decide)]
      exact hix.double j hj
    · rw [hlast j hj]
      split
      · exact .inr hfile
      · exact hix.second j hj

end Represents

/-! ## Cells -/

/-- The index blocks on the way to a cell are there; of the second level there is one. -/
def Cell.Covered (x : Inode) : Cell → Prop
  | .direct _ => True
  | .indirect _ => x.indirect ≠ 0
  | .double i _ => x.doubleIndirect ≠ 0 ∧ i.1 = 0

/-- The block in a cell that is covered. -/
def Volume.cell (v : Volume) (x : Inode) : Cell → ℕ
  | .direct i => x.direct i
  | .indirect i => v.entry 82 i
  | .double _ j => v.entry 1108 j

/-- `offset_to_blk`, from the cell on. -/
def Cell.fetchA (fs : Fs) (x : Inode) : Cell → AccessLog (ℕ × Fs)
  | direct i => pure (x.direct i, fs)
  | indirect i => do
    let fs ← fs.readIndexA x.indirect
    pure (fs.indexEntry i, fs)
  | double i j => do
    let fs ← fs.readIndexA x.doubleIndirect
    let fs ← fs.readIndexA (fs.indexEntry i)
    pure (fs.indexEntry j, fs)

/-- `set_inode_blk_num`, from the cell on. -/
def Cell.assignA (fs : Fs) (newBlk : ℕ) (x : Inode) (inum : ℤ) : Cell → AccessLog (Inode × Fs)
  | direct i => do
    let fs ← fs.writeInodeA inum (x.setDirect i newBlk)
    pure (x.setDirect i newBlk, fs)
  | indirect i => do
    let fs ← fs.readIndexA x.indirect
    let fs := fs.setIndexEntry i newBlk
    let fs ← fs.writeIndexA x.indirect
    pure (x, fs)
  | double i j => do
    let fs ← fs.readIndexA x.doubleIndirect
    let dbIndirectBlkNum := fs.indexEntry i
    let fs ← fs.readIndexA dbIndirectBlkNum
    let fs := fs.setIndexEntry j newBlk
    let fs ← fs.writeIndexA dbIndirectBlkNum
    pure (x, fs)

lemma offsetToBlkA_eq_fetchA {offset : ℕ} (h : offset < 2 ^ 32) (fs : Fs) (x : Inode) :
    fs.offsetToBlkA offset x = (Cell.ofOffset offset h).fetchA fs x := by
  unfold offsetToBlkA Cell.ofOffset
  dsimp only
  split
  · rfl
  · split <;> rfl

lemma setInodeBlkNumA_eq_assignA {offset : ℕ} (h : offset < 2 ^ 32) (fs : Fs) (newBlk : ℕ)
    (x : Inode) (inum : ℤ) :
    fs.setInodeBlkNumA offset newBlk x inum = (Cell.ofOffset offset h).assignA fs newBlk x inum := by
  unfold setInodeBlkNumA Cell.ofOffset
  dsimp only
  split
  · rfl
  · split <;> rfl

/-- A block of the file: one in a cell that is covered, or the last index block. -/
def HasBlock (v : Volume) (t : Tree) (x : Inode) (b : ℕ) : Prop :=
  (∃ c : Cell, c.Covered x ∧ v.cell x c = b ∧ FileBlock b ∧ t.Spares v b) ∨
    b = 1108 ∧ x.doubleIndirect ≠ 0

/-- Where a request of the file of inode `n` reads index blocks and writes. -/
def Lands (v : Volume) (t : Tree) (n : ℕ) (x : Inode) : Access → Prop
  | .readIndex b => b ∈ imageIndex
  | .writeIndex b => b ∈ imageIndex
  | .write k s =>
    k = 1 ∧ (bmapSector ≤ s ∧ s < imapSector ∨ s = inodeSector + (n - 1) / 8) ∨
      k = nsectorsPerBlock ∧ ∃ b, s = 0x100000 + 8 * b ∧ HasBlock v t x b

/-- The cells of a file keep their blocks, and other inodes stay as they are. -/
structure Kept (n : ℕ) (v : Volume) (x : Inode) (v' : Volume) (x' : Inode) : Prop where
  cell : ∀ c, v.cell x c ≠ 0 → v'.cell x' c = v.cell x c
  inode : ∀ m, m ≠ n → v'.inode m = v.inode m
  indirect : x'.indirect = x.indirect
  doubleIndirect : x'.doubleIndirect = x.doubleIndirect

/-- What the loop of `do_fwrite` keeps: the card holds the tree, the copy of the inode is that
of the file, and the cells `C` of the request are covered and have no block of a directory. -/
structure Writing (fs : Fs) (v : Volume) (t : Tree) (n : ℕ) (x : Inode) (C : Set Cell) : Prop where
  shows : fs.Shows v
  represents : Represents v t
  indexed : t.indexed = true
  file : ∃ ref, t.node n = some (.file ref)
  same : Inode.Same x (v.inode n)
  sameIndex : Inode.SameIndex x (v.inode n)
  fits : x.Fits
  covered : ∀ c ∈ C, c.Covered x
  spares : ∀ c ∈ C, t.Spares v (v.cell x c)

section Kept

variable {n : ℕ} {v v' v'' : Volume} {x x' x'' : Inode} {t : Tree} {b : ℕ}

lemma Kept.refl (n : ℕ) (v : Volume) (x : Inode) : Kept n v x v x :=
  ⟨fun _ _ => rfl, fun _ _ => rfl, rfl, rfl⟩

lemma Kept.trans (h : Kept n v x v' x') (h' : Kept n v' x' v'' x'') : Kept n v x v'' x'' := by
  refine ⟨fun c hc => ?_, fun m hm => (h'.inode m hm).trans (h.inode m hm),
    h'.indirect.trans h.indirect, h'.doubleIndirect.trans h.doubleIndirect⟩
  have hkeep := h.cell c hc
  rw [← hkeep] at hc
  exact (h'.cell c hc).trans hkeep

lemma Kept.covered (h : Kept n v x v' x') {c : Cell} (hc : c.Covered x) : c.Covered x' := by
  cases c with
  | direct i => trivial
  | indirect i =>
    show x'.indirect ≠ 0
    rw [h.indirect]
    exact hc
  | double i j =>
    refine ⟨?_, hc.2⟩
    rw [h.doubleIndirect]
    exact hc.1

/-- The blocks of the directories stay. -/
lemma Kept.spares (h : Kept n v x v' x') (hfile : ∃ ref, t.node n = some (.file ref))
    (hb : t.Spares v b) : t.Spares v' b := by
  intro m es hm
  rw [h.inode m]
  · exact hb m es hm
  · rintro rfl
    obtain ⟨ref, hn⟩ := hfile
    rw [hm] at hn
    cases hn

lemma Kept.lands (h : Kept n v x v' x') (hfile : ∃ ref, t.node n = some (.file ref)) (a : Access)
    (ha : Lands v t n x a) : Lands v' t n x' a := by
  cases a with
  | readIndex b | writeIndex b => exact ha
  | write k s =>
    refine ha.imp_right fun ⟨hk, b, hs, hb⟩ => ⟨hk, b, hs, ?_⟩
    rcases hb with ⟨c, hc, hval, hb, hspares⟩ | ⟨hb, hdouble⟩
    · refine .inl ⟨c, h.covered hc, ?_, hb, h.spares hfile hspares⟩
      rw [h.cell c, hval]
      rw [hval]
      have := hb.1.1
      omega
    · exact .inr ⟨hb, by rw [h.doubleIndirect]; exact hdouble⟩

end Kept

/-! ## One block -/

/-- The entries of a block on the card. -/
lemma Shows.entry {fs : Fs} {v : Volume} (hs : fs.Shows v) {b k : ℕ} (hb : DataBlock b)
    (hk : k < nindirectBlocks) : Bytes.get32 (fs.block b) (4 * k) = v.entry b k := by
  have hk' : k < 1024 := hk
  refine Bytes.getLE_congr fun i hi => ?_
  exact hs.block b hb _ (by simp only [nbytesPerBlock]; omega)

lemma Inode.IndexAt.indirect_eq {x : Inode} (hat : x.IndexAt) (h : x.indirect ≠ 0) :
    x.indirect = 82 := by
  rcases hat with ⟨h0, -⟩ | ⟨h82, -⟩
  · exact absurd h0 h
  · exact h82

lemma Inode.IndexAt.doubleIndirect_eq {x : Inode} (hat : x.IndexAt) (h : x.doubleIndirect ≠ 0) :
    x.doubleIndirect = 1107 := by
  rcases hat with ⟨-, h0⟩ | ⟨-, h1107⟩
  · exact absurd h0 h
  · exact h1107

lemma dataBlock_index {b : ℕ} (hb : b ∈ imageIndex) : DataBlock b := by
  have hcases : b = 82 ∨ b = 1107 ∨ b = 1108 := by simpa [imageIndex] using hb
  rcases hcases with rfl | rfl | rfl <;> exact ⟨by decide, by decide⟩

/-- The second level of the image begins with its last index block. -/
lemma Shows.second {fs : Fs} {v : Volume} (hs : fs.Shows v) (hix : Indexes v) {k : ℕ}
    (hk : k < nindirectBlocks) :
    Bytes.get32 (fs.block 1107) (4 * k) = if k = 0 then 1108 else 0 := by
  rw [hs.entry (dataBlock_index (by decide)) hk]
  exact hix.double k hk

/-- Reading an index block. -/
lemma readIndexA_returns {fs : Fs} {v : Volume} {t : Tree} {n b : ℕ} {x : Inode}
    (hsb : fs.superblock = mkfsSuperblock) (hb : b ∈ imageIndex) :
    Logged.Returns (Lands v t n x) (fs.readIndexA b) { fs with blockBuf := fs.block b } :=
  Logged.returns_tell (congrArg some (readBlock_block hsb (dataBlock_index hb).2)) hb

/-- `alloc_block` writes sectors of the block map. -/
lemma allocBlockA_returns {fs : Fs} {v : Volume} {t : Tree} {n : ℕ} {x : Inode}
    (hsb : fs.superblock = mkfsSuperblock) :
    Logged.Returns (Lands v t n x) fs.allocBlockA fs.allocBlock := by
  refine ⟨result_allocBlockA fs, ?_⟩
  have hloop : ∀ k i bnum (fs : Fs), i + k ≤ nsectorsBmap →
      (fs.allocBlockLoopA bmapSector bnum i k).All (Lands v t n x) := by
    intro k
    induction k with
    | zero => exact fun i bnum fs _ => Logged.all_pure _
    | succ k ih =>
      intro i bnum fs hi
      have hi' : i + (k + 1) ≤ 32 := hi
      rw [allocBlockLoopA]
      rcases scanWords (fs.sdread 1 (bmapSector + i)) bnum 0 64 with ⟨buf, bnum', finished⟩
      refine Logged.All.bind (Logged.all_tell.2 (.inl ⟨rfl, .inl ?_⟩)) fun fs₁ _ => ?_
      · simp only [bmapSector, imapSector]
        omega
      · split
        · exact Logged.all_pure _
        · exact ih _ _ _ (by omega)
  rw [allocBlockA, bmapStart_eq hsb]
  exact (hloop nsectorsBmap 0 0 fs le_rfl).bind fun _ _ => Logged.all_pure _

section Writing

open Logged

variable {fs : Fs} {v : Volume} {t : Tree} {n : ℕ} {x : Inode} {C : Set Cell} {c : Cell} {b : ℕ}

lemma Writing.setBlockBuf (w : Writing fs v t n x C) (buf : Bytes) :
    Writing { fs with blockBuf := buf } v t n x C :=
  { w with shows := w.shows.setBlockBuf buf }

lemma Writing.indexes (w : Writing fs v t n x C) : Indexes v := w.represents.index w.indexed

lemma Writing.mem_imap (w : Writing fs v t n x C) : n ∈ v.imap := by
  obtain ⟨ref, hn⟩ := w.file
  exact w.represents.mem_imap hn

lemma Writing.handed (w : Writing fs v t n x C) : 1 ≤ n ∧ n ≤ ninodes := by
  obtain ⟨ref, hn⟩ := w.file
  obtain ⟨h1, h2, -⟩ := w.shows.nodeBounds w.represents hn
  exact ⟨h1, h2⟩

lemma Writing.indexAt (w : Writing fs v t n x C) : x.IndexAt :=
  (w.indexes.inode n w.mem_imap).same w.sameIndex

/-- A cell has no block or a block that can hold data. -/
lemma Writing.fileBlock (w : Writing fs v t n x C) (c : Cell) (h0 : v.cell x c ≠ 0) :
    FileBlock (v.cell x c) := by
  cases c with
  | direct i =>
    have hblk : x.direct i = (v.inode n).direct i := w.same.direct i i.2
    show FileBlock (x.direct i)
    have hne : (v.inode n).direct i ≠ 0 := by
      rw [← hblk]
      exact h0
    obtain ⟨hmarked, hge⟩ := w.represents.owned n w.mem_imap i i.2 hne
    rw [hblk]
    exact ⟨⟨by omega, (w.shows.bmap_handed _ hmarked).lt⟩, w.indexes.apart n w.mem_imap i i.2⟩
  | indirect i => exact w.indexes.indirect i i.2
  | double i j => exact (w.indexes.second j j.2).resolve_left h0

/-- The block in a cell is found. -/
lemma Writing.fetchA (w : Writing fs v t n x C) (hc : c ∈ C) :
    ∃ buf, Returns (Lands v t n x) (c.fetchA fs x) (v.cell x c, { fs with blockBuf := buf }) := by
  have hsb := w.shows.superblock
  cases c with
  | direct i => exact ⟨fs.blockBuf, returns_pure _⟩
  | indirect i =>
    refine ⟨fs.block 82, ?_⟩
    rw [Cell.fetchA, w.indexAt.indirect_eq (w.covered _ hc)]
    refine (readIndexA_returns hsb (by decide)).bind ?_
    have hentry : ({ fs with blockBuf := fs.block 82 } : Fs).indexEntry i = v.entry 82 i :=
      w.shows.entry (dataBlock_index (by decide)) i.2
    rw [hentry]
    exact returns_pure _
  | double i j =>
    obtain ⟨hdouble, hi⟩ := w.covered _ hc
    refine ⟨fs.block 1108, ?_⟩
    rw [Cell.fetchA, w.indexAt.doubleIndirect_eq hdouble]
    refine (readIndexA_returns hsb (by decide)).bind ?_
    have hsecond : ({ fs with blockBuf := fs.block 1107 } : Fs).indexEntry i = 1108 :=
      (w.shows.second w.indexes i.2).trans (if_pos hi)
    rw [hsecond]
    refine (readIndexA_returns (by exact hsb) (by decide)).bind ?_
    have hentry : ({ fs with blockBuf := fs.block 1108 } : Fs).indexEntry j = v.entry 1108 j :=
      w.shows.entry (dataBlock_index (by decide)) j.2
    exact (congrArg₂ Prod.mk hentry rfl) ▸ returns_pure _

/-- `write_block` of a block of the file. -/
lemma writeBlockA_returns (hsb : fs.superblock = mkfsSuperblock) (hb : b < 2 ^ 17)
    (hown : HasBlock v t x b) :
    Returns (Lands v t n x) (fs.writeBlockA b) (fs.writeBlock b) := by
  refine returns_tell rfl (.inr ⟨rfl, b, ?_, hown⟩)
  rw [blockSector_eq hsb hb]
  omega

/-- `write_inode` of the file. -/
lemma writeInodeA_returns {fs' : Fs} {y : Inode} (hsb : fs.superblock = mkfsSuperblock)
    (hn : 1 ≤ n ∧ n ≤ ninodes) (hwrite : fs.writeInode n y = some fs') :
    Returns (Lands v t n x) (fs.writeInodeA n y) fs' := by
  refine ⟨(result_writeInodeA fs n y).trans hwrite, ?_⟩
  rw [writeInodeA, inodeSlot_of_le hsb hn]
  dsimp only
  rw [if_pos (Nat.mod_lt _ (by decide))]
  refine all_tell.2 (.inl ⟨rfl, .inr (Nat.mod_eq_of_lt ?_)⟩)
  have hle : n ≤ 4096 := hn.2
  simp only [inodeSector]
  omega

/-- A write of data. -/
lemma Writing.writeData (w : Writing fs v t n x C) (hfile : FileBlock b) (hspares : t.Spares v b)
    (buf : Bytes) :
    Writing (({ fs with blockBuf := buf } : Fs).writeBlock b)
        { v with block := Function.update v.block b buf } t n x C ∧
      Kept n v x { v with block := Function.update v.block b buf } x := by
  have hcell : ∀ c, Volume.cell { v with block := Function.update v.block b buf } x c =
      v.cell x c := by
    have hblock : ∀ p ∈ imageIndex, Function.update v.block b buf p = v.block p := fun p hp =>
      Function.update_of_ne (fun heq : p = b => hfile.2 (heq ▸ hp)) _ _
    intro c
    cases c with
    | direct i => rfl
    | indirect i => exact Volume.entry_congr (hblock 82 (by decide)) i
    | double i j => exact Volume.entry_congr (hblock 1108 (by decide)) j
  refine ⟨⟨(w.shows.setBlockBuf buf).writeBlock hfile.1, w.represents.writeData hspares hfile.2 buf,
    w.indexed, w.file, w.same, w.sameIndex, w.fits, w.covered, fun c hc => ?_⟩,
    fun c _ => hcell c, fun _ _ => rfl, rfl, rfl⟩
  rw [hcell]
  exact w.spares c hc

/-- Block `b` has been taken for a cell without a block, and every other cell is as it was. -/
lemma Writing.filled {fs' : Fs} {v' : Volume} {x' : Inode} (w : Writing fs v t n x C)
    (hs : fs'.Shows v') (hr : Represents v' t) (hsame : Inode.Same x' (v'.inode n))
    (hindex : Inode.SameIndex x' (v'.inode n)) (hfits : x'.Fits) (hfree : b ∉ v.bmap)
    (hinode : ∀ m, m ≠ n → v'.inode m = v.inode m) (hindirect : x'.indirect = x.indirect)
    (hdouble : x'.doubleIndirect = x.doubleIndirect)
    (hcell : ∀ c, v'.cell x' c = v.cell x c ∨ v.cell x c = 0 ∧ v'.cell x' c = b) :
    Writing fs' v' t n x' C ∧ Kept n v x v' x' := by
  have hkept : Kept n v x v' x' :=
    ⟨fun c hc => (hcell c).resolve_right fun h => hc h.1, hinode, hindirect, hdouble⟩
  refine ⟨⟨hs, hr, w.indexed, w.file, hsame, hindex, hfits, fun c hc => hkept.covered (w.covered c hc),
    fun c hc => hkept.spares w.file ?_⟩, hkept⟩
  rcases hcell c with heq | ⟨-, heq⟩
  · rw [heq]
    exact w.spares c hc
  · rw [heq]
    exact w.represents.spares_free hfree

/-- A new block is put into a direct slot. -/
lemma Writing.assignDirect {fs₁ : Fs} {i : Fin ndirectBlocks} (w : Writing fs v t n x C)
    (hs : fs₁.Shows { v with bmap := insert b v.bmap }) (hb : Handed nblocks b) (hfree : b ∉ v.bmap)
    (h0 : x.direct i = 0) :
    ∃ fs' v', Returns (Lands v' t n (x.setDirect i b)) ((Cell.direct i).assignA fs₁ b x n)
        (x.setDirect i b, fs') ∧
      Writing fs' v' t n (x.setDirect i b) C ∧ Kept n v x v' (x.setDirect i b) := by
  obtain ⟨hfile, hge⟩ := w.represents.fileBlock_free w.indexes hb hfree
  obtain ⟨ref, hn⟩ := w.file
  have hlt : b < 2 ^ 32 := by
    have := hb.lt
    simp only [nblocks] at this
    omega
  have hfits : (x.setDirect i b).Fits := by
    refine ⟨w.fits.type, w.fits.ref, fun j hj => ?_⟩
    rw [Inode.setDirect_direct]
    split
    · exact hlt
    · exact w.fits.direct j hj
  obtain ⟨fs', hwrite, hs'⟩ := hs.writeInode w.handed.1 w.handed.2 hfits
  have hr := w.represents.addBlock hn w.same w.sameIndex i.2 h0 hfree hge
  have hself : Function.update v.inode n (x.setDirect i b) n = x.setDirect i b :=
    Function.update_self ..
  have hmod : ∀ {a c : ℕ}, a = c % 2 ^ 32 → a = a % 2 ^ 32 := fun h => by omega
  refine ⟨fs', _, (writeInodeA_returns hs.superblock w.handed hwrite).bind (returns_pure _),
    w.filled hs' hr ?_ ?_ hfits hfree (fun m hm => Function.update_of_ne hm _ _) rfl rfl fun c => ?_⟩
  · dsimp only
    rw [hself]
    exact Inode.Same.refl _
  · dsimp only
    rw [hself]
    exact ⟨hmod w.sameIndex.indirect, hmod w.sameIndex.doubleIndirect⟩
  · cases c with
    | direct j =>
      by_cases hj : j = i
      · subst hj
        exact .inr ⟨h0, (Inode.setDirect_direct x j b j).trans (if_pos rfl)⟩
      · refine .inl ((Inode.setDirect_direct x i b j).trans (if_neg fun heq => hj (Fin.ext heq)))
    | indirect j => exact .inl rfl
    | double j k => exact .inl rfl

/-- A new block is put into an entry of the last index block. -/
lemma Writing.assignEntry {fs₁ : Fs} {i j : Fin nindirectBlocks} (w : Writing fs v t n x C)
    (hs : fs₁.Shows { v with bmap := insert b v.bmap }) (hb : Handed nblocks b) (hfree : b ∉ v.bmap)
    (hc : (Cell.double i j).Covered x) (h0 : v.entry 1108 j = 0) :
    ∃ fs' v', Returns (Lands v' t n x) ((Cell.double i j).assignA fs₁ b x n) (x, fs') ∧
      Writing fs' v' t n x C ∧ v'.cell x (.double i j) = b ∧ Kept n v x v' x := by
  obtain ⟨hdouble, hi⟩ := hc
  obtain ⟨hfile, -⟩ := w.represents.fileBlock_free w.indexes hb hfree
  have hsb := hs.superblock
  have hlt : b < 2 ^ 32 := by
    have := hb.lt
    simp only [nblocks] at this
    omega
  obtain ⟨buf, hbuf⟩ : ∃ buf, buf = Bytes.set32 (fs₁.block 1108) (4 * (j : ℕ)) b := ⟨_, rfl⟩
  have hentries : ∀ k < nindirectBlocks,
      Bytes.get32 buf (4 * k) = if k = j then b else v.entry 1108 k := by
    intro k hk
    rw [hbuf]
    by_cases hkj : k = j
    · rw [if_pos hkj, hkj, Bytes.get32, Bytes.getLE_setLE]
      exact Nat.mod_eq_of_lt hlt
    · rw [if_neg hkj, Bytes.get32, Bytes.getLE_setLE_of_disjoint (by omega)]
      exact hs.entry (dataBlock_index (by decide)) hk
  obtain ⟨v', hv'⟩ : ∃ v' : Volume, v' = { v with
    bmap := insert b v.bmap
    block := Function.update v.block 1108 buf } := ⟨_, rfl⟩
  have hr := w.represents.addEntry w.indexed j.2 h0 hfree hfile hentries
  have hs' := (hs.setBlockBuf buf).writeBlock (b := 1108) (dataBlock_index (by decide))
  rw [← hv'] at hr
  have hlast : ∀ k < nindirectBlocks,
      v'.entry 1108 k = if k = j then b else v.entry 1108 k := by
    intro k hk
    rw [Volume.entry, hv']
    simp only [Function.update_self]
    exact hentries k hk
  refine ⟨({ fs₁ with blockBuf := buf } : Fs).writeBlock 1108, v', ?_, ?_⟩
  · rw [Cell.assignA, w.indexAt.doubleIndirect_eq hdouble]
    refine (readIndexA_returns hsb (by decide)).bind ?_
    have hsecond : ({ fs₁ with blockBuf := fs₁.block 1107 } : Fs).indexEntry i = 1108 := by
      have hentry := hs.entry (b := 1107) (dataBlock_index (by decide)) i.2
      exact hentry.trans ((w.indexes.double i i.2).trans (if_pos hi))
    rw [hsecond]
    refine (readIndexA_returns (by exact hsb) (by decide)).bind ?_
    have hset : ({ fs₁ with blockBuf := ({ fs₁ with blockBuf := fs₁.block 1107 } : Fs).block 1108 } :
        Fs).setIndexEntry j b = { fs₁ with blockBuf := buf } := by
      rw [hbuf]
      rfl
    dsimp only
    rw [hset]
    exact Returns.bind (Returns.bind (returns_tell rfl (show 1108 ∈ imageIndex by decide))
      (writeBlockA_returns hsb (by decide) (.inr ⟨rfl, hdouble⟩))) (returns_pure _)
  · have hinode : v'.inode = v.inode := by rw [hv']
    have hcell : ∀ c, v'.cell x c = v.cell x c ∨ v.cell x c = 0 ∧ v'.cell x c = b := by
      intro c
      cases c with
      | direct k => exact .inl rfl
      | indirect k =>
        refine .inl (Volume.entry_congr ?_ k)
        rw [hv']
        exact Function.update_of_ne (show 82 ≠ 1108 by decide) buf v.block
      | double l k =>
        by_cases hkj : (k : ℕ) = j
        · refine .inr ⟨?_, (hlast k k.2).trans (if_pos hkj)⟩
          show v.entry 1108 k = 0
          rw [hkj, h0]
        · exact .inl ((hlast k k.2).trans (if_neg hkj))
    have hwriting := w.filled (by rw [hv']; exact hs') hr (by rw [hinode]; exact w.same)
      (by rw [hinode]; exact w.sameIndex) w.fits hfree (fun m _ => congrFun hinode m) rfl rfl hcell
    exact ⟨hwriting.1, (hlast j j.2).trans (if_pos rfl), hwriting.2⟩

/-- A new block is put into a cell that has none. -/
lemma Writing.assignA {fs₁ : Fs} (w : Writing fs v t n x C)
    (hs : fs₁.Shows { v with bmap := insert b v.bmap }) (hb : Handed nblocks b) (hfree : b ∉ v.bmap)
    (hc : c ∈ C) (h0 : v.cell x c = 0) :
    ∃ x' fs' v', Returns (Lands v' t n x') (c.assignA fs₁ b x n) (x', fs') ∧
      Writing fs' v' t n x' C ∧ v'.cell x' c = b ∧ Kept n v x v' x' := by
  cases c with
  | direct i =>
    obtain ⟨fs', v', hret, w', hkept⟩ := w.assignDirect hs hb hfree h0
    exact ⟨_, fs', v', hret, w', (Inode.setDirect_direct x i b i).trans (if_pos rfl), hkept⟩
  | indirect i =>
    have hentry := (w.indexes.indirect i i.2).1.1
    have hzero : v.entry 82 i = 0 := h0
    omega
  | double i j =>
    obtain ⟨fs', v', hret, w', hcell, hkept⟩ := w.assignEntry hs hb hfree (w.covered _ hc) h0
    exact ⟨x, fs', v', hret, w', hcell, hkept⟩

/-- The block of the next piece: that in the cell, or a new one. -/
lemma Writing.fwriteBlockA {offset : ℕ} (w : Writing fs v t n x C) (hlt : offset < 2 ^ 32)
    (hc : Cell.ofOffset offset hlt ∈ C) :
    ∃ b x' fs' v', Returns (Lands v' t n x') (fs.fwriteBlockA x n offset) (b, x', fs') ∧
      Writing fs' v' t n x' C ∧ v'.cell x' (Cell.ofOffset offset hlt) = b ∧ b ≠ 0 ∧
      Kept n v x v' x' := by
  rw [Fs.fwriteBlockA, offsetToBlkA_eq_fetchA hlt]
  obtain ⟨buf, hfetch⟩ := w.fetchA hc
  have w₀ := w.setBlockBuf buf
  by_cases h0 : v.cell x (Cell.ofOffset offset hlt) = 0
  · obtain ⟨b, fs₁, halloc, hb, hfree, -, hs₁⟩ := w₀.shows.allocBlock
      (w.represents.bmapOpen fun m hm => (w.shows.imap_handed m hm).2.1)
    obtain ⟨x', fs₂, v', hassign, w', hcell, hkept⟩ := w₀.assignA hs₁ hb hfree hc h0
    refine ⟨b, x', { fs₂ with blockBuf := Bytes.zero }, v', ?_, w'.setBlockBuf _, hcell, ?_, hkept⟩
    · refine (hfetch.mono (hkept.lands w.file)).bind ?_
      dsimp only
      rw [if_pos h0]
      refine (allocBlockA_returns w₀.shows.superblock).bind ?_
      rw [halloc]
      dsimp only
      rw [setInodeBlkNumA_eq_assignA hlt]
      exact hassign.bind (returns_pure _)
    · have := hb.1
      omega
  · have hlt17 := (w.fileBlock _ h0).1.2
    refine ⟨_, x, ({ fs with blockBuf := buf } : Fs).readBlock (v.cell x (Cell.ofOffset offset hlt)), v,
      hfetch.bind ?_, ?_, rfl, h0, Kept.refl n v x⟩
    · dsimp only
      rw [if_neg h0]
      exact returns_pure _
    · rw [readBlock_block w₀.shows.superblock hlt17]
      exact w₀.setBlockBuf _

/-- One round of the loop. -/
lemma Writing.fwriteRoundA {offset : ℕ} {length : ℤ} (w : Writing fs v t n x C)
    (hlt : offset < 2 ^ 32) (hc : Cell.ofOffset offset hlt ∈ C) (buff : Bytes)
    (hin : ((offset % nbytesPerBlock : ℕ) : ℤ) + pieceLen (offset % nbytesPerBlock) length ≤
      nbytesPerBlock) :
    ∃ x' fs' v', Returns (Lands v' t n x') (fs.fwriteRoundA x n offset buff length)
        (x', fs', (offset + (pieceLen (offset % nbytesPerBlock) length).toNat) % 2 ^ 32,
          length - pieceLen (offset % nbytesPerBlock) length) ∧
      Writing fs' v' t n x' C ∧ Kept n v x v' x' := by
  obtain ⟨b, x', fs₁, v₁, hblock, w₁, hcell, hb, hkept⟩ := w.fwriteBlockA hlt hc
  have hfile := w₁.fileBlock (Cell.ofOffset offset hlt) (hcell ▸ hb)
  have hspares := w₁.spares _ hc
  rw [hcell] at hfile hspares
  obtain ⟨len, hlen⟩ : ∃ len, pieceLen (offset % nbytesPerBlock) length = len := ⟨_, rfl⟩
  obtain ⟨buf, hbuf⟩ : ∃ buf,
      buf = Bytes.blit fs₁.blockBuf (offset % nbytesPerBlock) buff 0 len.toNat := ⟨_, rfl⟩
  obtain ⟨w₂, hkept₂⟩ := w₁.writeData hfile hspares buf
  rw [hlen] at hin ⊢
  refine ⟨x', ({ fs₁ with blockBuf := buf } : Fs).writeBlock b, _, ?_, w₂, hkept.trans hkept₂⟩
  rw [Fs.fwriteRoundA]
  refine (hblock.mono (hkept₂.lands w.file)).bind ?_
  dsimp only
  rw [hlen, if_neg (not_lt.2 hin), ← hbuf]
  refine Returns.bind (writeBlockA_returns w₁.shows.superblock hfile.1.2 (.inl ?_)) (returns_pure _)
  refine ⟨Cell.ofOffset offset hlt, w₂.covered _ hc, ?_, hfile, hkept₂.spares w.file hspares⟩
  rw [hkept₂.cell _ (hcell ▸ hb), hcell]

/-- A piece does not leave its block, as long as the request is a number of 31 bits. -/
lemma pieceLen_le_block {r : ℕ} {length : ℤ} (hlt : r + length < 2 ^ 31) (hpos : 0 < length) :
    (r : ℤ) + pieceLen r length ≤ nbytesPerBlock := by
  have hint : toInt32 ((r : ℤ) + length) = (r : ℤ) + length := by
    rw [toInt32]
    exact Int.bmod_eq_of_le (by omega) (by omega)
  rw [pieceLen, hint]
  split <;> omega

/-- The blocks of a file that are in direct slots or reached by the index blocks of the
image. -/
def imageReach : ℕ := ndirectBlocks + 2 * nindirectBlocks

/-- The cells of the blocks of a request. -/
def requestCells (offset : ℕ) (length : ℤ) : Set Cell :=
  {c | ∃ p, ∃ h : p < 2 ^ 32, offset ≤ p ∧ (p : ℤ) < offset + length ∧ Cell.ofOffset p h = c}

/-- A request in covered cells ends within them. -/
lemma request_end {offset : ℕ} {length : ℤ} (hcov : ∀ c ∈ requestCells offset length, c.Covered x)
    (hoff : offset < 2 ^ 32) (hpos : 0 < length) :
    offset + length ≤ imageReach * nbytesPerBlock := by
  by_contra hgt
  have hgt' : 8429568 < offset + length := not_le.1 hgt
  -- the first block behind them, or the one the request begins in
  obtain ⟨p, hp⟩ : ∃ p, p = max offset 8429568 := ⟨_, rfl⟩
  have hp32 : p < 2 ^ 32 := by omega
  have hcell := hcov _ ⟨p, hp32, by omega, by omega, rfl⟩
  have hk : 2058 ≤ p / nbytesPerBlock := by
    simp only [nbytesPerBlock]
    omega
  unfold Cell.ofOffset at hcell
  rw [dif_neg (by simp only [ndirectBlocks]; omega),
    dif_neg (by simp only [ndirectBlocks, nindirectBlocks]; omega)] at hcell
  obtain ⟨-, hi⟩ := hcell
  simp only [ndirectBlocks, nindirectBlocks] at hi
  omega

/-- The loop of `do_fwrite`. -/
lemma Writing.fwriteLoopA {fuel offset : ℕ} {length : ℤ} (w : Writing fs v t n x C) (buff : Bytes)
    (hC : requestCells offset length ⊆ C)
    (hend : 0 < length → offset + length ≤ imageReach * nbytesPerBlock) :
    ∃ r y fs' v', Returns (Lands v' t n y) (Fs.fwriteLoopA fuel fs x n offset buff length)
        (r, y, fs') ∧
      Writing fs' v' t n y C ∧ Kept n v x v' y := by
  induction fuel generalizing fs v x offset length with
  | zero => exact ⟨length, x, fs, v, returns_pure _, w, Kept.refl n v x⟩
  | succ fuel ih =>
    rw [Fs.fwriteLoopA]
    by_cases hpos : length ≤ 0
    · rw [if_pos hpos]
      exact ⟨length, x, fs, v, returns_pure _, w, Kept.refl n v x⟩
    rw [if_neg hpos]
    have hend' : offset + length ≤ 8429568 := hend (not_le.1 hpos)
    have hlt : offset < 2 ^ 32 := by omega
    have hr : offset % nbytesPerBlock < nbytesPerBlock := Nat.mod_lt _ (by decide)
    have hr' : offset % nbytesPerBlock ≤ offset := Nat.mod_le _ _
    obtain ⟨hlen0, hlen1⟩ := pieceLen_bounds hr (not_le.1 hpos)
    have hin := @pieceLen_le_block (offset % nbytesPerBlock) length (by omega) (not_le.1 hpos)
    obtain ⟨x₁, fs₁, v₁, hround, w₁, hkept⟩ :=
      w.fwriteRoundA hlt (hC ⟨offset, hlt, le_rfl, by omega, rfl⟩) buff hin
    obtain ⟨len, hlen⟩ : ∃ len, pieceLen (offset % nbytesPerBlock) length = len := ⟨_, rfl⟩
    rw [hlen] at hround hlen0 hlen1
    have hnext : (offset + len.toNat) % 2 ^ 32 = offset + len.toNat := by omega
    rw [hnext] at hround
    have hrest : ((offset + len.toNat : ℕ) : ℤ) + (length - len) ≤ 8429568 := by omega
    have hsub : requestCells (offset + len.toNat) (length - len) ⊆ C := by
      rintro c ⟨p, hp, h1, h2, rfl⟩
      exact hC ⟨p, hp, by omega, by omega, rfl⟩
    obtain ⟨r, y, fs', v', hloop, w', hkept'⟩ := ih w₁ hsub fun _ => hrest
    exact ⟨r, y, fs', v', (hround.mono (hkept'.lands w.file)).bind hloop, w', hkept.trans hkept'⟩

/-- `write_inode` of the copy. -/
lemma Writing.writeInode (w : Writing fs v t n x C) :
    ∃ fs', fs.writeInode n x = some fs' ∧
      Writing fs' { v with inode := Function.update v.inode n x } t n x C ∧
      Kept n v x { v with inode := Function.update v.inode n x } x := by
  obtain ⟨fs', hwrite, hs'⟩ := w.shows.writeInode w.handed.1 w.handed.2 w.fits
  obtain ⟨ref, hn⟩ := w.file
  have hat : (v.inode n).type = typeFile ∧ (v.inode n).ref = ref := w.represents.node n _ hn
  have hself : Function.update v.inode n x n = x := Function.update_self ..
  have hset := w.represents.setInode (.file ref) hn w.same.direct (fun _ => w.indexAt) (x := x) ?_
  · rw [Tree.set, ← hn, Function.update_eq_self] at hset
    have hkept : Kept n v x { v with inode := Function.update v.inode n x } x :=
      ⟨fun c _ => by cases c <;> rfl, fun m hm => Function.update_of_ne hm _ _, rfl, rfl⟩
    refine ⟨fs', hwrite, ⟨hs', hset, w.indexed, w.file, ?_, ?_, w.fits, w.covered, fun c hc => ?_⟩,
      hkept⟩
    · dsimp only
      rw [hself]
      exact Inode.Same.refl _
    · dsimp only
      rw [hself]
      have hmod : ∀ {a c : ℕ}, a = c % 2 ^ 32 → a = a % 2 ^ 32 := fun h => by omega
      exact ⟨hmod w.sameIndex.indirect, hmod w.sameIndex.doubleIndirect⟩
    · have hspares := hkept.spares w.file (w.spares c hc)
      cases c <;> exact hspares
  · refine ⟨?_, ?_⟩
    · dsimp only
      rw [hself]
      exact w.same.type.trans hat.1
    · dsimp only
      rw [hself]
      exact w.same.ref.trans hat.2

end Writing

/-! ## The call -/

section Call

open Logged

variable {fs : Fs} {v : Volume} {t : Tree} {n ref : ℕ} {x : Inode} {fd : ℤ} {d : Fdesc}
  {length : ℤ}

/-- The descriptor after a write. -/
def Fdesc.advance (d : Fdesc) (length : ℤ) : Fdesc :=
  { d with offset := (((d.offset % 2 ^ 32 : ℕ) + length) % 2 ^ 32).toNat }

/-- Without the permission to write nothing is done. -/
lemma doFwriteA_denied {P : Access → Prop} (hfd : fs.fdesc fd = some d) (hd : ¬ d.write = true)
    (buff : Bytes) : Returns P (fs.doFwriteA fd buff length) (-1, fs) := by
  rw [doFwriteA]
  refine (returns_of hfd).bind ?_
  rw [if_pos (by simpa using hd)]
  exact returns_pure _

/-- `do_fwrite` in cells that are covered and without blocks of directories. -/
lemma doFwriteA_returns (hs : fs.Shows v) (hr : Represents v t) (hflag : t.indexed = true)
    (hfd : fs.fdesc fd = some d) (hwrite : d.write = true) (hnum : d.inum = n)
    (hn : t.node n = some (.file ref)) (hx : fs.readInode n = some x) (buff : Bytes)
    (hcov : ∀ c ∈ requestCells (d.offset % 2 ^ 32) length, c.Covered x)
    (hspares : ∀ c ∈ requestCells (d.offset % 2 ^ 32) length, t.Spares v (v.cell x c)) :
    ∃ r fs' v' y, Returns (Lands v' t n y) (fs.doFwriteA fd buff length) (r, fs') ∧
      Writing fs' v' (t.setFdesc fd.toNat (d.advance length)) n y
        (requestCells (d.offset % 2 ^ 32) length) ∧ Kept n v x v' y := by
  obtain ⟨h1, h2, -⟩ := hs.nodeBounds hr hn
  obtain ⟨x', hx', hsame, hfits⟩ := hs.readInode h1 h2
  obtain rfl := Option.some.inj (hx.symm.trans hx')
  have hindex := hs.readInode_index h1 h2 hx
  obtain ⟨size, hsize⟩ : ∃ size,
      size = (((d.offset % 2 ^ 32 : ℕ) + length) % 2 ^ 32).toNat := ⟨_, rfl⟩
  obtain ⟨z, hz⟩ : ∃ z, z = if size > x.size then { x with size := size } else x := ⟨_, rfl⟩
  have hfields : z.type = x.type ∧ z.ref = x.ref ∧ z.direct = x.direct ∧ z.indirect = x.indirect ∧
      z.doubleIndirect = x.doubleIndirect := by
    rw [hz]
    split <;> exact ⟨rfl, rfl, rfl, rfl, rfl⟩
  obtain ⟨htype, href, hdirect, hindirect, hdouble⟩ := hfields
  have hcell : ∀ u : Volume, ∀ c, u.cell z c = u.cell x c := by
    intro u c
    cases c with
    | direct i => exact congrFun hdirect i
    | indirect i | double i j => rfl
  have w : Writing (fs.setFdesc fd (d.advance length)) { v with
      fdescArray := Function.update v.fdescArray fd.toNat (d.advance length) }
      (t.setFdesc fd.toNat (d.advance length)) n z (requestCells (d.offset % 2 ^ 32) length) := by
    refine ⟨?_, ?_, hflag, ⟨ref, hn⟩, ⟨htype.trans hsame.type, href.trans hsame.ref, fun i hi => ?_⟩,
      ⟨hindirect.trans hindex.indirect, hdouble.trans hindex.doubleIndirect⟩,
      ⟨htype ▸ hfits.type, href ▸ hfits.ref, hdirect ▸ hfits.direct⟩, fun c hc => ?_, fun c hc => ?_⟩
    · rw [← hs.fdescArray]
      exact hs.setFdescArray _
    · rw [Tree.setFdesc, ← hr.fdescArray]
      exact hr.setFdescArray _
    · exact (congrFun hdirect i).trans (hsame.direct i hi)
    · have hc' := hcov c hc
      cases c with
      | direct i => trivial
      | indirect i => exact fun h0 => hc' (hindirect.symm.trans h0)
      | double i j => exact ⟨fun h0 => hc'.1 (hdouble.symm.trans h0), hc'.2⟩
    · rw [hcell]
      exact hspares c hc
  have hoff : d.offset % 2 ^ 32 < 2 ^ 32 := Nat.mod_lt _ (by decide)
  obtain ⟨r, y, fs₁, v₁, hloop, w₁, hkept₁⟩ := @Writing.fwriteLoopA _ _ _ _ _ _
    (length.toNat + 1) (d.offset % 2 ^ 32) length w buff subset_rfl (request_end hcov hoff)
  obtain ⟨fs₂, hput, w₂, hkept₂⟩ := w₁.writeInode
  refine ⟨r, fs₂, _, y, ?_, w₂, ?_⟩
  · rw [doFwriteA]
    refine (returns_of hfd).bind ?_
    rw [if_neg (by rw [hwrite]; decide), hnum]
    refine (returns_of hx).bind ?_
    dsimp only
    rw [← hsize, ← hz]
    have hadvance : ({ inum := n, read := d.read, write := d.write, offset := size } : Fdesc) =
        d.advance length := by
      rw [Fdesc.advance, ← hsize, ← hnum]
    rw [hadvance]
    refine Returns.bind (hloop.mono (hkept₂.lands ⟨ref, hn⟩)) ?_
    exact (writeInodeA_returns w₁.shows.superblock w₁.handed hput).bind (returns_pure _)
  · have hkept := hkept₁.trans hkept₂
    refine ⟨fun c hc => ?_, hkept.inode, hkept.indirect.trans hindirect,
      hkept.doubleIndirect.trans hdouble⟩
    have hcellv : ∀ a : ℕ → Fdesc, Volume.cell { v with fdescArray := a } z c = v.cell x c := by
      intro a
      rw [hcell]
      cases c <;> rfl
    rw [hkept.cell c (by rw [hcellv]; exact hc), hcellv]

/-! ### Within the direct blocks -/

/-- The cells of a request that ends within the direct blocks. -/
lemma direct_of_requestCells {offset : ℕ} {length : ℤ} {c : Cell}
    (hlen : offset + length ≤ ndirectBlocks * nbytesPerBlock) (hc : c ∈ requestCells offset length) :
    ∃ i, c = .direct i := by
  obtain ⟨p, hp, -, h2, rfl⟩ := hc
  have hk : p / nbytesPerBlock < ndirectBlocks := by
    simp only [ndirectBlocks, nbytesPerBlock] at hlen ⊢
    omega
  exact ⟨⟨p / nbytesPerBlock, hk⟩, dif_pos hk⟩

/-- A direct slot of a file has no block of a directory. -/
lemma Represents.spares_direct (hr : Represents v t) (hn : t.node n = some (.file ref))
    (hx : Inode.Same x (v.inode n)) (i : Fin ndirectBlocks) : t.Spares v (x.direct i) := by
  intro m es hm heq
  rw [hx.direct i i.2] at heq
  refine hr.dirBlock_ne hm (hr.mem_imap hn) ?_ i.2 heq.symm
  rintro rfl
  rw [hm] at hn
  cases hn

/-- `do_fwrite` within the direct blocks of a file changes only a descriptor of the tree. -/
lemma Stores.doFwrite (h : fs.Stores t) (hflag : t.indexed = true) (hfd : fs.fdesc fd = some d)
    (hwrite : d.write = true) (hnum : d.inum = n) (hn : t.node n = some (.file ref))
    (hlen : (d.offset % 2 ^ 32 : ℕ) + length ≤ ndirectBlocks * nbytesPerBlock) (buff : Bytes) :
    ∃ r fs', fs.doFwrite fd buff length = some (r, fs') ∧
      fs'.Stores (t.setFdesc fd.toNat (d.advance length)) := by
  obtain ⟨v, hs, hr⟩ := h
  obtain ⟨h1, h2, -⟩ := hs.nodeBounds hr hn
  obtain ⟨x, hx, hsame, -⟩ := hs.readInode h1 h2
  obtain ⟨r, fs', v', y, ⟨hres, -⟩, w, -⟩ := doFwriteA_returns hs hr hflag hfd hwrite hnum hn hx buff
    (fun c hc => by
      obtain ⟨i, rfl⟩ := direct_of_requestCells hlen hc
      trivial)
    (fun c hc => by
      obtain ⟨i, rfl⟩ := direct_of_requestCells hlen hc
      exact hr.spares_direct hn hsame i)
  rw [result_doFwriteA] at hres
  exact ⟨r, fs', hres, v', w.shows, w.represents⟩

end Call

end Fs
end UcasKernel
