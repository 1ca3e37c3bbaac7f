/-
Walks over a directory, paths, and new entries.

The loops of the directory calls run over the direct blocks of a directory and
the entries in each of them.  A directory of the tree has one block, so a walk
ends within it, and where it ends is read off the list of entries.
-/
import UcasKernel.Fs.Tree
import Mathlib.Data.List.TakeWhile

namespace UcasKernel
namespace Fs

/-- A block with these entries has room for a further one of the given name. -/
def HasRoom (es : List Entry) (name : List UInt8) : Prop :=
  es.length < maxEntries ∧ sizeofDentry * es.length + 8 + name.length < nbytesPerBlock

instance (es : List Entry) (name : List UInt8) : Decidable (HasRoom es name) := by
  unfold HasRoom
  infer_instance

section Walk

variable {fs : Fs} {v : Volume} {t : Tree} {n b : ℕ} {es : List Entry} {path : List UInt8}

/-- The walk over a directory with one block. -/
lemma scanBlocks_dir {x : Inode} {hit stop : Bytes → ℕ → ℕ → Option Bool} {r : Option Scan}
    (hx : x.direct 0 = b) (hb : b ≠ 0)
    (hscan : scanEntries (hit (fs.readBlock b).blockBuf 0) (stop (fs.readBlock b).blockBuf 0) 0
      ndentriesPerBlock = r) (hr : r ≠ some .past) :
    fs.scanBlocks x hit stop 0 0 ndirectBlocks = r.map fun r => (r, b, fs.readBlock b) := by
  rw [ndirectBlocks, scanBlocks]
  simp only [hx, if_neg hb, hscan]
  rcases r with _ | (j | j | _)
  · rfl
  · rfl
  · rfl
  · exact absurd rfl hr

/-- What a call sees of a directory: its inode, and its block in the block
buffer. -/
structure Opened (fs : Fs) (v : Volume) (n : ℕ) (es : List Entry) (x : Inode) (b : ℕ) : Prop where
  inode : fs.readInode n = some x
  same : Inode.Same x (v.inode n)
  fits : x.Fits
  first : x.direct 0 = b
  block : (v.inode n).direct 0 = b
  data : DataBlock b
  shows : (fs.readBlock b).Shows v
  buf : IsDir (fs.readBlock b).blockBuf es

lemma Shows.nodeBounds (h : fs.Shows v) (hr : Represents v t) {nd : Node} (hn : t.node n = some nd) :
    Handed ninodes n := h.imap_handed n (hr.mem_imap hn)

/-- Every directory of the tree can be read. -/
lemma Shows.opened (h : fs.Shows v) (hr : Represents v t) (hn : t.node n = some (.dir es)) :
    ∃ x b, fs.Opened v n es x b := by
  obtain ⟨h1, h2, -⟩ := h.nodeBounds hr hn
  obtain ⟨x, hx, hsame, hfits⟩ := h.readInode h1 h2
  obtain ⟨hmarked, hge⟩ := hr.dirBlock hn
  have hdata : DataBlock ((v.inode n).direct 0) := ⟨by omega, (h.bmap_handed _ hmarked).lt⟩
  obtain ⟨hshows, hbuf⟩ := h.readBlock hdata
  exact ⟨x, _, hx, hsame, hfits, hsame.direct 0 (by decide), rfl, hdata, hshows,
    (DirAt.block (hr.node n _ hn)).congr hbuf⟩

/-- The working directory can be read. -/
lemma Shows.openedCwd (h : fs.Shows v) (hr : Represents v t) (hc : t.node t.cwd = some (.dir es)) :
    ∃ x b, fs.Opened v t.cwd es x b ∧ fs.readInode fs.cwdInum = some x := by
  obtain ⟨x, b, o⟩ := h.opened hr hc
  refine ⟨x, b, o, ?_⟩
  rw [h.cwdInum, hr.cwd]
  exact o.inode

namespace Opened

variable {x : Inode} (o : fs.Opened v n es x b)
include o

lemma ne_zero : b ≠ 0 := by
  have := o.data.1
  omega

/-- The walk for a name that the directory has. -/
lemma scan_hit (stop : Bytes → ℕ → ℕ → Option Bool) {j : ℕ} (hpath : 0 ∉ path)
    (hfirst : firstNamed es path = some j)
    (hstop : ∀ i < j, stop (fs.readBlock b).blockBuf 0 i = some false) :
    fs.scanBlocks x (isNamed path) stop 0 0 ndirectBlocks =
      some (.hit j, b, fs.readBlock b) :=
  scanBlocks_dir o.first o.ne_zero (o.buf.scan_hit hpath hfirst hstop 0) (by simp)

lemma isUnused_of_lt {j : ℕ} (hj : j < es.length) (i : ℕ) :
    isUnused (fs.readBlock b).blockBuf i j = some false := (o.buf.entry j hj).isUnused i

/-- The same with the test for the end of the directory. -/
lemma scan_named {j : ℕ} (hpath : 0 ∉ path) (hfirst : firstNamed es path = some j) :
    fs.scanBlocks x (isNamed path) isUnused 0 0 ndirectBlocks =
      some (.hit j, b, fs.readBlock b) := by
  obtain ⟨hj, -, -⟩ := firstNamed_eq_some.1 hfirst
  exact o.scan_hit isUnused hpath hfirst fun i hi => o.isUnused_of_lt (hi.trans hj) 0

/-- The walk for a name that the directory has not. -/
lemma scan_unnamed (hpath : 0 ∉ path) (hnone : firstNamed es path = none) :
    fs.scanBlocks x (isNamed path) isUnused 0 0 ndirectBlocks =
      if es.length < maxEntries then some (.stop es.length, b, fs.readBlock b) else none := by
  rw [scanBlocks_dir o.first o.ne_zero (o.buf.scan_miss hpath hnone 0) (by split <;> simp)]
  split <;> rfl

/-- The walk of `do_rmdir` for a name that the directory has not. -/
lemma scan_endless (hpath : 0 ∉ path) (hnone : firstNamed es path = none) :
    fs.scanBlocks x (isNamed path) (fun buf i _ => isUnused buf i i) 0 0 ndirectBlocks =
      if es = [] then some (.stop 0, b, fs.readBlock b) else none := by
  rw [scanBlocks_dir o.first o.ne_zero (o.buf.scan_endless hpath hnone 0) (by split <;> simp)]
  split <;> rfl

/-- The walk for an unused entry. -/
lemma scan_unused :
    fs.scanBlocks x never isUnused 0 0 ndirectBlocks =
      if es.length < maxEntries then some (.stop es.length, b, fs.readBlock b) else none := by
  rw [scanBlocks_dir o.first o.ne_zero (o.buf.scan_unused 0) (by split <;> simp)]
  split <;> rfl

end Opened

/-! ## Paths -/

/-- One level of `parse_path`, in a directory with one block. -/
lemma parsePathLoop_dir {x : Inode} {m : ℤ} (fuel : ℕ) (hx : fs.readInode m = some x)
    (hb : x.direct 0 ≠ 0) (hdir : IsDir (fs.readBlock (x.direct 0)).blockBuf es) (hpath : 0 ∉ path)
    (hne : path ≠ []) (hlen : path.length < 16) :
    (∀ j (hj : j < es.length), firstNamed es path = some j →
      parsePathLoop (fuel + 1) fs path m =
        if (path.takeWhile (· ≠ 47)).length + 1 < 16 then
          parsePathLoop fuel (fs.readBlock (x.direct 0))
            (path.drop ((path.takeWhile (· ≠ 47)).length + 1)) (toInt32 es[j].inum)
        else none) ∧
    (firstNamed es path = none → parsePathLoop (fuel + 1) fs path m =
      if es.length < maxEntries then some (0, fs.readBlock (x.direct 0)) else none) := by
  have hscan : ∀ r, scanEntries (isNamed path (fs.readBlock (x.direct 0)).blockBuf 0)
      (isUnused (fs.readBlock (x.direct 0)).blockBuf 0) 0 ndentriesPerBlock = r → r ≠ some .past →
      fs.scanBlocks x (isNamed path) isUnused 0 0 ndirectBlocks =
        r.map fun r => (r, x.direct 0, fs.readBlock (x.direct 0)) := fun r =>
    scanBlocks_dir rfl hb
  rw [parsePathLoop, if_neg hne, if_neg (by omega), hx]
  refine ⟨fun j hj hfirst => ?_, fun hnone => ?_⟩
  · have hhit := hscan _ (hdir.scan_hit hpath hfirst (fun i hi =>
      (hdir.entry i (hi.trans hj)).isUnused 0) 0) (by simp)
    simp only [Option.bind_eq_bind, Option.bind_some, hhit, Option.map_some,
      (hdir.entry j hj).dentryInum]
  · have hmiss := hscan _ (hdir.scan_miss hpath hnone 0) (by split <;> simp)
    simp only [Option.bind_eq_bind, Option.bind_some, hmiss]
    split <;> rfl

/-- Resolving a path that has no separator, or that the directory has no entry
for. -/
lemma Opened.parsePath {x : Inode} (o : fs.Opened v n es x b) (hpath : 0 ∉ path) (hne : path ≠ [])
    (hlen : path.length < 16) :
    (∀ j (hj : j < es.length), firstNamed es path = some j → 47 ∉ path → es[j].inum < 2 ^ 31 →
      fs.parsePath path n =
        if path.length + 1 < 16 then some ((es[j].inum : ℤ), fs.readBlock b) else none) ∧
    (firstNamed es path = none → fs.parsePath path n =
      if es.length < maxEntries then some (0, fs.readBlock b) else none) := by
  obtain ⟨hhit, hmiss⟩ := parsePathLoop_dir path.length o.inode (by rw [o.first]; exact o.ne_zero)
    (by rw [o.first]; exact o.buf) hpath hne hlen
  rw [o.first] at hhit hmiss
  refine ⟨fun j hj hfirst hslash hlt => ?_, hmiss⟩
  have htake : path.takeWhile (· ≠ 47) = path := by
    refine List.takeWhile_eq_self_iff.2 fun c hc => ?_
    simp only [decide_eq_true_eq]
    rintro rfl
    exact hslash hc
  have hdrop : path.drop (path.length + 1) = [] := List.drop_eq_nil_of_le (by omega)
  have hint : toInt32 (es[j].inum : ℤ) = (es[j].inum : ℤ) := by
    rw [toInt32]
    exact Int.bmod_eq_of_le (by omega) (by omega)
  obtain ⟨m, hm⟩ : ∃ m, path.length = m + 1 :=
    ⟨path.length - 1, by have := List.length_pos_iff.2 hne; omega⟩
  rw [Fs.parsePath, hhit j hj hfirst, htake, hdrop, hint, hm]
  split
  · rw [parsePathLoop, if_pos rfl]
  · rfl

/-- A walk over a directory changes only the block buffer. -/
lemma scanBlocks_readOnly {fs' : Fs} {x : Inode} {hit stop : Bytes → ℕ → ℕ → Option Bool} {k i m c : ℕ}
    {r : Scan} (h : fs.scanBlocks x hit stop k i m = some (r, c, fs')) :
    fs' = { fs with blockBuf := fs'.blockBuf } := by
  induction m generalizing fs k i with
  | zero =>
    rw [scanBlocks] at h
    cases h
    rfl
  | succ m ih =>
    rw [scanBlocks] at h
    split at h
    · cases h
      rfl
    · obtain ⟨scan, -, h⟩ := Option.bind_eq_some_iff.1 h
      cases scan with
      | past =>
        have hrest : fs' = { fs.readBlock (x.direct i) with blockBuf := fs'.blockBuf } := ih h
        exact hrest
      | hit j | stop j =>
        cases h
        rfl

/-- So does resolving a path. -/
lemma parsePathLoop_readOnly {fs' : Fs} {fuel : ℕ} {n r : ℤ}
    (h : parsePathLoop fuel fs path n = some (r, fs')) :
    fs' = { fs with blockBuf := fs'.blockBuf } := by
  induction fuel generalizing fs path n with
  | zero => cases h
  | succ fuel ih =>
    rw [parsePathLoop] at h
    split at h
    · cases h
      rfl
    split at h
    · cases h
    obtain ⟨x, -, h⟩ := Option.bind_eq_some_iff.1 h
    obtain ⟨⟨scan, c, fs₁⟩, hscan, h⟩ := Option.bind_eq_some_iff.1 h
    have hfs₁ := scanBlocks_readOnly hscan
    cases scan with
    | hit j =>
      obtain ⟨inum, -, h⟩ := Option.bind_eq_some_iff.1 h
      split at h
      · have hfs' := ih h
        rw [hfs₁] at hfs'
        exact hfs'
      · cases h
    | stop j | past =>
      cases h
      exact hfs₁

lemma Shows.of_parsePath {fs' : Fs} {n r : ℤ} (h : fs.Shows v)
    (hparse : fs.parsePath path n = some (r, fs')) : fs'.Shows v := by
  rw [parsePathLoop_readOnly hparse]
  exact h.setBlockBuf _

lemma parsePath_nil (fs : Fs) (n : ℤ) : fs.parsePath [] n = some (n, fs) := rfl

lemma parsePath_long (hlen : 16 ≤ path.length) (n : ℤ) : fs.parsePath path n = none := by
  have hne : path ≠ [] := by
    rintro rfl
    simp at hlen
  rw [Fs.parsePath, parsePathLoop, if_neg hne, if_pos hlen]

/-- A path that leads somewhere else begins with an entry of the directory. -/
lemma Opened.named_of_parsePath {x : Inode} {fs' : Fs} {m : ℤ} (o : fs.Opened v n es x b)
    (hpath : 0 ∉ path) (hne : path ≠ []) (hparse : fs.parsePath path n = some (m, fs'))
    (hm : m ≠ 0) : ∃ j, firstNamed es path = some j := by
  by_cases hlong : 16 ≤ path.length
  · rw [parsePath_long hlong] at hparse
    cases hparse
  rw [← Option.ne_none_iff_exists']
  intro hnone
  rw [(o.parsePath hpath hne (not_le.1 hlong)).2 hnone] at hparse
  split at hparse
  · cases hparse
    exact hm rfl
  · cases hparse

/-! ## New entries -/

/-- Filling the first unused entry of a directory. -/
lemma Shows.appendDentry (h : fs.Shows v) (hb : DataBlock b) (hbuf : IsDir fs.blockBuf es) {inum : ℕ}
    {name : List UInt8} (hinum : Handed ninodes inum) (hname : 0 ∉ name) (hlen : name.length ≤ 27)
    (hroom : HasRoom es name) :
    ∃ buf fs', fs.appendDentry b inum name = some fs' ∧ IsDir buf (es ++ [⟨true, inum, name⟩]) ∧
      fs'.Shows { v with block := Function.update v.block b buf } := by
  obtain ⟨h1, h2, -⟩ := hinum
  have hlt : inum < 2 ^ 32 := by
    simp only [ninodes] at h2
    omega
  obtain ⟨buf, hbufeq⟩ : ∃ buf, buf = setDentry fs.blockBuf es.length inum name := ⟨_, rfl⟩
  refine ⟨buf, ({ fs with blockBuf := buf } : Fs).writeBlock b, ?_, ?_,
    (h.setBlockBuf _).writeBlock hb⟩
  · rw [Fs.appendDentry, hbuf.firstUnused, if_pos hroom.1]
    simp only [Option.bind_eq_bind, Option.bind_some, putDentry, if_pos hroom.2, hbufeq]
  · rw [hbufeq]
    exact hbuf.append hroom.1 name (by omega) hlt hname hlen hroom.2

lemma appendDentry_full (hbuf : IsDir fs.blockBuf es) {inum : ℤ} {name : List UInt8}
    (hroom : ¬ HasRoom es name) : fs.appendDentry b inum name = none := by
  rw [Fs.appendDentry, hbuf.firstUnused]
  by_cases hlt : es.length < maxEntries
  · rw [if_pos hlt]
    simp only [Option.bind_eq_bind, Option.bind_some, putDentry,
      if_neg fun hin => hroom ⟨hlt, hin⟩, Option.bind_none]
  · rw [if_neg hlt]
    rfl

end Walk

end Fs
end UcasKernel
