/-
What the descriptor calls do to the tree.

The tree has the open files but not what is in a file, so `do_fread` and `do_lseek` change
an offset, and `do_fopen` and `do_fclose` a descriptor.
-/
import UcasKernel.Fs.Refine

namespace UcasKernel
namespace Fs

/-- Descriptor `fd` is changed. -/
def Tree.setFdesc (t : Tree) (fd : ℕ) (fdesc : Fdesc) : Tree :=
  { t with fdescArray := Function.update t.fdescArray fd fdesc }

@[simp] lemma Tree.node_setFdesc (t : Tree) (fd : ℕ) (fdesc : Fdesc) :
    (t.setFdesc fd fdesc).node = t.node := rfl

@[simp] lemma Tree.cwd_setFdesc (t : Tree) (fd : ℕ) (fdesc : Fdesc) :
    (t.setFdesc fd fdesc).cwd = t.cwd := rfl

section Descriptors

variable {fs fs' : Fs} {v : Volume} {t : Tree} {n : ℕ} {fd : ℤ} {d : Fdesc}

lemma Represents.setFdescArray (hr : Represents v t) (a : ℕ → Fdesc) :
    Represents { v with fdescArray := a } { t with fdescArray := a } :=
  ⟨hr.imap, fun k nd hk => (hr.node k nd hk).congr rfl rfl (fun _ _ => rfl) fun _ _ => rfl,
    hr.owned, hr.unique, hr.full, hr.metadata, fun hi => (hr.index hi).setState _ _, hr.cwd, rfl⟩

lemma Shows.setFdescArray (h : fs.Shows v) (a : ℕ → Fdesc) :
    ({ fs with fdescArray := a } : Fs).Shows { v with fdescArray := a } :=
  ⟨h.superblock, ⟨h.imap.regular, h.imap.bit⟩, h.imap_handed, ⟨h.bmap.regular, h.bmap.bit⟩,
    h.bmap_handed, h.inode, h.index, h.block, h.cwdInum, rfl⟩

lemma Stores.setFdesc (h : fs.Stores t) (fd : ℤ) (d : Fdesc) :
    (fs.setFdesc fd d).Stores (t.setFdesc fd.toNat d) := by
  obtain ⟨v, hs, hr⟩ := h
  refine ⟨_, hs.setFdescArray _, ?_⟩
  rw [Tree.setFdesc, ← hr.fdescArray, hs.fdescArray]
  exact hr.setFdescArray _

lemma Stores.of_blockBuf (h : fs.Stores t) (hread : fs' = { fs with blockBuf := fs'.blockBuf }) :
    fs'.Stores t := by
  obtain ⟨v, hs, hr⟩ := h
  rw [hread]
  exact ⟨v, hs.setBlockBuf _, hr⟩

lemma fdesc_eq (h : fs.Stores t) (hfd : fs.fdesc fd = some d) :
    0 ≤ fd ∧ fd < numFdescs ∧ t.fdescArray fd.toNat = d := by
  obtain ⟨v, hs, hr⟩ := h
  rw [fdesc] at hfd
  split at hfd
  · rename_i hin
    rw [Option.some.injEq, hs.fdescArray, hr.fdescArray] at hfd
    exact ⟨hin.1, hin.2, hfd⟩
  · cases hfd

/-! ## Reading -/

lemma offsetToBlk_readOnly (fs : Fs) (offset : ℕ) (inode : Inode) :
    (fs.offsetToBlk offset inode).2 =
      { fs with blockBuf := (fs.offsetToBlk offset inode).2.blockBuf } := by
  unfold offsetToBlk
  dsimp only
  split
  · rfl
  split <;> rfl

lemma freadLoop_readOnly {fuel offset : ℕ} {inode : Inode} {buff buff' : Bytes} {length bytesRead r : ℤ}
    (h : freadLoop fuel fs inode offset buff length bytesRead = some (r, buff', fs')) :
    fs' = { fs with blockBuf := fs'.blockBuf } := by
  induction fuel generalizing fs offset buff length bytesRead with
  | zero =>
    cases h
    rfl
  | succ fuel ih =>
    rw [freadLoop] at h
    split at h
    · cases h
      rfl
    have hblk := offsetToBlk_readOnly fs offset inode
    rcases hoff : fs.offsetToBlk offset inode with ⟨blkNum, fs₁⟩
    rw [hoff] at h hblk
    dsimp only at h hblk
    split at h
    · cases h
      exact hblk
    split at h
    · cases h
    · have hrest := ih h
      rw [hblk] at hrest
      exact hrest

lemma Stores.doFread {buff buff' : Bytes} {length r : ℤ} (h : fs.Stores t)
    (hfd : fs.fdesc fd = some d) (hread : fs.doFread fd buff length = some (r, buff', fs')) :
    fs'.Stores t ∨ ∃ offset, fs'.Stores (t.setFdesc fd.toNat { d with offset := offset }) := by
  rw [Fs.doFread, hfd] at hread
  simp only [Option.bind_eq_bind, Option.bind_some] at hread
  split at hread
  · cases hread
    exact .inl h
  · obtain ⟨x, -, hread⟩ := Option.bind_eq_some_iff.1 hread
    obtain ⟨⟨bytesRead, buff₁, fs₁⟩, hloop, hread⟩ := Option.bind_eq_some_iff.1 hread
    cases hread
    exact .inr ⟨_, (h.of_blockBuf (freadLoop_readOnly hloop)).setFdesc fd _⟩

lemma Stores.doLseek {offset whence r : ℤ} (h : fs.Stores t) (hfd : fs.fdesc fd = some d)
    (hseek : fs.doLseek fd offset whence = some (r, fs')) :
    ∃ offset, fs'.Stores (t.setFdesc fd.toNat { d with offset := offset }) := by
  rw [Fs.doLseek, hfd] at hseek
  simp only [Option.bind_eq_bind, Option.bind_some] at hseek
  obtain ⟨x, -, hseek⟩ := Option.bind_eq_some_iff.1 hseek
  obtain ⟨result, -, hseek⟩ := Option.bind_eq_some_iff.1 hseek
  cases hseek
  exact ⟨_, h.setFdesc fd _⟩

lemma Stores.doFclose {r : ℤ} (h : fs.Stores t) (hclose : fs.doFclose fd = some (r, fs')) :
    fs'.Stores (t.setFdesc fd.toNat Fdesc.zero) := by
  obtain ⟨d, -, hclose⟩ := Option.bind_eq_some_iff.1 hclose
  cases hclose
  exact h.setFdesc fd _

/-- A path that leads somewhere gets the first free descriptor, if there is one. -/
lemma Resolved.doFopen {path : List UInt8} {m : ℕ} {fs₁ : Fs} {mode r : ℤ}
    (p : Resolved fs fs₁ v t path m) (hopen : fs.doFopen path mode = some (r, fs')) :
    fs'.Stores t ∨
      m ≠ 0 ∧ ∃ i < numFdescs, fs'.Stores (t.setFdesc i (openAs (t.fdescArray i) m mode)) := by
  rw [Fs.doFopen, p.parse] at hopen
  simp only [Option.bind_eq_bind, Option.bind_some] at hopen
  split at hopen
  · cases hopen
    exact .inl p.stores
  rename_i hm
  split at hopen
  · rename_i i hfind
    cases hopen
    have hi : i < numFdescs := List.mem_range.1 (List.mem_of_find?_eq_some hfind)
    have hset := p.stores.setFdesc i (openAs (fs₁.fdescArray i) m mode)
    rw [p.after.fdescArray, p.represents.fdescArray] at hset ⊢
    exact .inr ⟨by exact_mod_cast hm, i, hi, hset⟩
  · cases hopen
    exact .inl p.stores

end Descriptors

end Fs
end UcasKernel
