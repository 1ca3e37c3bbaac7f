/-
The tree of files and directories.

A `Tree` says which inode numbers are in use and what each of them is: a file
with its link count, or a directory with its entries.  `Represents` relates it to
the volume.  With it comes the ownership of blocks by direct slots, so that an
update of the block of one directory leaves the others, and the index blocks that
`init_bigfile` lays out, which no direct slot has and no call frees.
-/
import UcasKernel.Fs.Volume
import Mathlib.Combinatorics.Pigeonhole

namespace UcasKernel
namespace Fs

/-- What an inode is. -/
inductive Node
  | file (ref : ℕ)
  | dir (entries : List Entry)

/-- The inodes in use, the working directory and the open files, and whether the index
blocks of `8MB.dat` have been laid out. -/
structure Tree where
  node : ℕ → Option Node
  cwd : ℕ
  fdescArray : ℕ → Fdesc
  indexed : Bool

/-- The entries of a directory. -/
def Tree.entries (t : Tree) (d : ℕ) : List Entry :=
  match t.node d with
  | some (.dir es) => es
  | _ => []

def Tree.set (t : Tree) (n : ℕ) (nd : Option Node) : Tree :=
  { t with node := Function.update t.node n nd }

/-- A directory has one block. -/
structure DirAt (v : Volume) (n : ℕ) (es : List Entry) : Prop where
  type : (v.inode n).type = typeDirectory
  first : (v.inode n).direct 0 ≠ 0
  rest : ∀ i, 1 ≤ i → i < ndirectBlocks → (v.inode n).direct i = 0
  block : IsDir (v.block ((v.inode n).direct 0)) es

/-- Inode `n` is as the node says. -/
def NodeAt (v : Volume) (n : ℕ) : Node → Prop
  | .file ref => (v.inode n).type = typeFile ∧ (v.inode n).ref = ref
  | .dir es => DirAt v n es

/-! ## Index blocks -/

/-- Entry `k` of a block as an index block. -/
def Volume.entry (v : Volume) (b k : ℕ) : ℕ := Bytes.get32 (v.block b) (4 * k)

lemma Volume.entry_congr {v v' : Volume} {b : ℕ} (h : v'.block b = v.block b) (k : ℕ) :
    v'.entry b k = v.entry b k := congrArg (Bytes.get32 · (4 * k)) h

/-- The index blocks that `init_bigfile` lays out: the indirect block, the double indirect
block and the first block of its second level. -/
def imageIndex : Finset ℕ := {82, 1107, 1108}

/-- A block that holds data of a file. -/
def FileBlock (b : ℕ) : Prop := DataBlock b ∧ b ∉ imageIndex

/-- An inode has no index blocks, or those of the image. -/
def Inode.IndexAt (x : Inode) : Prop :=
  x.indirect = 0 ∧ x.doubleIndirect = 0 ∨ x.indirect = 82 ∧ x.doubleIndirect = 1107

/-- The index blocks of the image are marked and apart from the blocks in direct slots, and
their entries lead to blocks of files.  Only the first entry of the double indirect block
is set. -/
structure Indexes (v : Volume) : Prop where
  marked : ∀ b ∈ imageIndex, b ∈ v.bmap
  apart : ∀ n ∈ v.imap, ∀ i < ndirectBlocks, (v.inode n).direct i ∉ imageIndex
  inode : ∀ n ∈ v.imap, (v.inode n).IndexAt
  indirect : ∀ k < nindirectBlocks, FileBlock (v.entry 82 k)
  double : ∀ k < nindirectBlocks, v.entry 1107 k = if k = 0 then 1108 else 0
  second : ∀ k < nindirectBlocks, v.entry 1108 k = 0 ∨ FileBlock (v.entry 1108 k)

lemma Inode.IndexAt.same {x y : Inode} (h : x.IndexAt) (hy : Inode.SameIndex y x) : y.IndexAt := by
  obtain ⟨hindirect, hdouble⟩ := hy
  rcases h with ⟨h1, h2⟩ | ⟨h1, h2⟩
  · exact .inl ⟨by rw [hindirect, h1]; rfl, by rw [hdouble, h2]; rfl⟩
  · exact .inr ⟨by rw [hindirect, h1]; rfl, by rw [hdouble, h2]; rfl⟩

/-- A change that keeps the index blocks, and the slots of the inodes in use away from them. -/
lemma Indexes.congr {v v' : Volume} (h : Indexes v) (hmarked : ∀ b ∈ imageIndex, b ∈ v'.bmap)
    (hapart : ∀ n ∈ v'.imap, ∀ i < ndirectBlocks, (v'.inode n).direct i ∉ imageIndex)
    (hinode : ∀ n ∈ v'.imap, (v'.inode n).IndexAt)
    (hblock : ∀ b ∈ imageIndex, v'.block b = v.block b) : Indexes v' := by
  have hentry : ∀ b ∈ imageIndex, ∀ k, v'.entry b k = v.entry b k := fun b hb =>
    Volume.entry_congr (hblock b hb)
  refine ⟨hmarked, hapart, hinode, fun k hk => ?_, fun k hk => ?_, fun k hk => ?_⟩
  · rw [hentry 82 (by decide)]
    exact h.indirect k hk
  · rw [hentry 1107 (by decide)]
    exact h.double k hk
  · rw [hentry 1108 (by decide)]
    exact h.second k hk

/-- The index blocks do not depend on the state of the kernel that is not on the card. -/
lemma Indexes.setState {v : Volume} (h : Indexes v) (n : ℤ) (a : ℕ → Fdesc) :
    Indexes { v with cwdInum := n, fdescArray := a } :=
  h.congr h.marked h.apart h.inode fun _ _ => rfl

/-! ## The tree -/

/-- The blocks that the image of `do_mkfs` marks end within word 33 of the map. -/
def imageBlocks : ℕ := 2176

/-- The volume holds the tree.  The blocks behind the image are marked only when
a direct slot or an entry of the last index block has them, so that the map never runs
full. -/
structure Represents (v : Volume) (t : Tree) : Prop where
  imap : ∀ n, n ∈ v.imap ↔ t.node n ≠ none
  node : ∀ n nd, t.node n = some nd → NodeAt v n nd
  owned : ∀ n ∈ v.imap, ∀ i < ndirectBlocks, (v.inode n).direct i ≠ 0 →
    (v.inode n).direct i ∈ v.bmap ∧ 71 ≤ (v.inode n).direct i
  unique : ∀ n ∈ v.imap, ∀ n' ∈ v.imap, ∀ i < ndirectBlocks, ∀ i' < ndirectBlocks,
    (v.inode n).direct i ≠ 0 → (v.inode n).direct i = (v.inode n').direct i' → n = n' ∧ i = i'
  full : ∀ b ∈ v.bmap, imageBlocks < b →
    (∃ n ∈ v.imap, ∃ i < ndirectBlocks, (v.inode n).direct i = b) ∨
      t.indexed = true ∧ ∃ k < nindirectBlocks, v.entry 1108 k = b
  metadata : ∀ b ≤ 70, Handed nblocks b → b ∈ v.bmap
  index : t.indexed = true → Indexes v
  cwd : v.cwdInum = t.cwd
  fdescArray : v.fdescArray = t.fdescArray

section Represents

variable {v : Volume} {t : Tree} {n : ℕ}

@[simp] lemma Tree.cwd_set (t : Tree) (n : ℕ) (nd : Option Node) : (t.set n nd).cwd = t.cwd := rfl

@[simp] lemma Tree.indexed_set (t : Tree) (n : ℕ) (nd : Option Node) :
    (t.set n nd).indexed = t.indexed := rfl

@[simp] lemma Tree.fdescArray_set (t : Tree) (n : ℕ) (nd : Option Node) :
    (t.set n nd).fdescArray = t.fdescArray := rfl

lemma Tree.node_set_self (t : Tree) (n : ℕ) (nd : Option Node) : (t.set n nd).node n = nd :=
  Function.update_self _ _ _

lemma Tree.node_set_of_ne (t : Tree) {m n : ℕ} (nd : Option Node) (h : m ≠ n) :
    (t.set n nd).node m = t.node m := Function.update_of_ne h _ _

lemma Tree.entries_of_node {es : List Entry} (h : t.node n = some (.dir es)) : t.entries n = es := by
  rw [Tree.entries, h]

lemma DirAt.congr {v' : Volume} {es : List Entry} (h : DirAt v n es)
    (htype : (v'.inode n).type = (v.inode n).type)
    (hdirect : ∀ i < ndirectBlocks, (v'.inode n).direct i = (v.inode n).direct i)
    (hblock : v'.block ((v.inode n).direct 0) = v.block ((v.inode n).direct 0)) : DirAt v' n es := by
  have h0 := hdirect 0 (by decide)
  refine ⟨htype.trans h.type, by rw [h0]; exact h.first, fun i hi hi' => ?_, ?_⟩
  · rw [hdirect i hi']
    exact h.rest i hi hi'
  · rw [h0, hblock]
    exact h.block

/-- A node stays as it is when its inode and, for a directory, its block do. -/
lemma NodeAt.congr {v' : Volume} {nd : Node} (h : NodeAt v n nd)
    (htype : (v'.inode n).type = (v.inode n).type) (href : (v'.inode n).ref = (v.inode n).ref)
    (hdirect : ∀ i < ndirectBlocks, (v'.inode n).direct i = (v.inode n).direct i)
    (hblock : ∀ es, nd = .dir es →
      v'.block ((v.inode n).direct 0) = v.block ((v.inode n).direct 0)) : NodeAt v' n nd := by
  cases nd with
  | file ref => exact ⟨htype.trans h.1, href.trans h.2⟩
  | dir es => exact DirAt.congr h htype hdirect (hblock es rfl)

section Basic

variable (h : Represents v t)
include h

lemma Represents.mem_imap {nd : Node} (hn : t.node n = some nd) : n ∈ v.imap := by
  rw [h.imap, hn]
  exact Option.some_ne_none _

lemma Represents.node_none (hn : n ∉ v.imap) : t.node n = none := by
  by_contra hne
  exact hn ((h.imap n).2 hne)

/-- The block of a directory. -/
lemma Represents.dirBlock {es : List Entry} (hn : t.node n = some (.dir es)) :
    (v.inode n).direct 0 ∈ v.bmap ∧ 71 ≤ (v.inode n).direct 0 :=
  h.owned n (h.mem_imap hn) 0 (by decide) (DirAt.first (h.node n _ hn))

/-- Another inode has not the block of a directory. -/
lemma Represents.dirBlock_ne {es : List Entry} (hn : t.node n = some (.dir es)) {m i : ℕ}
    (hm : m ∈ v.imap) (hmn : m ≠ n) (hi : i < ndirectBlocks) :
    (v.inode m).direct i ≠ (v.inode n).direct 0 := fun heq =>
  hmn (h.unique n (h.mem_imap hn) m hm 0 (by decide) i hi (DirAt.first (h.node n _ hn))
    heq.symm).1.symm

/-- The block map always has a free block. -/
lemma Represents.bmapOpen (hle : ∀ n ∈ v.imap, n ≤ ninodes) : ∃ b, Handed nblocks b ∧ b ∉ v.bmap := by
  by_contra hall
  push Not at hall
  -- 64448 blocks behind the image would belong to different slots of 4096 inodes and entries
  -- of one index block; the entries are numbered behind the slots
  obtain ⟨N, hN⟩ : ∃ N, N = 64448 := ⟨_, rfl⟩
  obtain ⟨S, hS⟩ : ∃ S, S = (ninodes + 1) * ndirectBlocks := ⟨_, rfl⟩
  obtain ⟨M, hM⟩ : ∃ M, M = S + nindirectBlocks := ⟨_, rfl⟩
  have hblock : ∀ x < N, Handed nblocks (64 * (34 + x / 32) + x % 32 + 1) := fun x hx =>
    handed_bit (by simp only [nblocks]; omega) ⟨2048, rfl⟩ (by omega)
  have howner : ∀ x : ℕ, ∃ p < M, x < N → 64 * (34 + x / 32) + x % 32 + 1 =
      if p < S then (v.inode (p / ndirectBlocks)).direct (p % ndirectBlocks)
      else v.entry 1108 (p - S) := by
    intro x
    by_cases hx : x < N
    · rcases h.full _ (hall _ (hblock x hx)) (by simp only [imageBlocks]; omega) with
        ⟨m, hm, i, hi, hmi⟩ | ⟨-, k, hk, hmk⟩
      · have hp : ndirectBlocks * m + i < S := by
          have := hle m hm
          simp only [ndirectBlocks, ninodes] at *
          omega
        refine ⟨ndirectBlocks * m + i, by omega, fun _ => ?_⟩
        rw [if_pos hp, Nat.mul_add_div (by decide), Nat.div_eq_of_lt hi, Nat.mul_add_mod,
          Nat.mod_eq_of_lt hi]
        exact hmi.symm
      · refine ⟨S + k, by omega, fun _ => ?_⟩
        rw [if_neg (by omega), Nat.add_sub_cancel_left, hmk]
    · exact ⟨0, by rw [hM, hS]; decide, fun hlt => absurd hlt hx⟩
  choose owner hlt howner using howner
  have hmaps : ∀ x ∈ Finset.range N, owner x ∈ Finset.range M := fun x _ =>
    Finset.mem_range.2 (hlt x)
  have hcard : (Finset.range M).card < (Finset.range N).card := by
    rw [Finset.card_range, Finset.card_range, hM, hS, hN]
    norm_num [ninodes, ndirectBlocks, nindirectBlocks]
  obtain ⟨x, hx, y, hy, hne, heq⟩ := Finset.exists_ne_map_eq_of_card_lt_of_maps_to hcard hmaps
  have h1 := howner x (Finset.mem_range.1 hx)
  have h2 := howner y (Finset.mem_range.1 hy)
  rw [heq, ← h2] at h1
  omega

/-! ## Changes -/

/-- A change of inodes and blocks that moves no block. -/
lemma Represents.retouch {inode' : ℕ → Inode} {block' : ℕ → Bytes} {t' : Tree}
    (hdirect : ∀ m ∈ v.imap, ∀ i < ndirectBlocks,
      (inode' m).direct i = (v.inode m).direct i)
    (hdom : ∀ m, t'.node m = none ↔ t.node m = none) (hcwd : t'.cwd = t.cwd)
    (hfd : t'.fdescArray = t.fdescArray) (hflag : t'.indexed = t.indexed)
    (hindex : Indexes v → (∀ m ∈ v.imap, (inode' m).IndexAt) ∧
      ∀ b ∈ imageIndex, block' b = v.block b)
    (hnode : ∀ m nd, t'.node m = some nd →
      NodeAt { v with inode := inode', block := block' } m nd) :
    Represents { v with inode := inode', block := block' } t' := by
  refine ⟨fun m => (h.imap m).trans (not_congr (hdom m)).symm, hnode, fun m hm i hi => ?_,
    fun m hm m' hm' i hi i' hi' => ?_, fun b hb hlt => ?_, h.metadata, fun hi => ?_,
    h.cwd.trans (by rw [hcwd]), h.fdescArray.trans hfd.symm⟩
  · simp only [hdirect m hm i hi]
    exact h.owned m hm i hi
  · simp only [hdirect m hm i hi, hdirect m' hm' i' hi']
    exact h.unique m hm m' hm' i hi i' hi'
  · rcases h.full b hb hlt with ⟨m, hm, i, hi, hmi⟩ | ⟨hflag', k, hk, hmk⟩
    · exact .inl ⟨m, hm, i, hi, (hdirect m hm i hi).trans hmi⟩
    · refine .inr ⟨hflag.trans hflag', k, hk, ?_⟩
      exact (Volume.entry_congr ((hindex (h.index hflag')).2 1108 (by decide)) k).trans hmk
  · have hix := h.index (hflag ▸ hi)
    obtain ⟨hinode, hblock⟩ := hindex hix
    refine hix.congr hix.marked (fun m hm i hi => ?_) hinode hblock
    simp only [hdirect m hm i hi]
    exact hix.apart m hm i hi

/-- The block of a directory is written. -/
lemma Represents.setEntries {es es' : List Entry} (hn : t.node n = some (.dir es)) {buf : Bytes}
    (hbuf : IsDir buf es') :
    Represents { v with block := Function.update v.block ((v.inode n).direct 0) buf }
      (t.set n (some (.dir es'))) := by
  have hdir : DirAt v n es := h.node n _ hn
  refine h.retouch (fun _ _ _ _ => rfl) (fun m => ?_) rfl rfl rfl (fun hix => ⟨hix.inode, ?_⟩)
    fun m nd hm => ?_
  · by_cases hmn : m = n
    · subst hmn
      rw [Tree.node_set_self, hn]
      exact iff_of_false (Option.some_ne_none _) (Option.some_ne_none _)
    · rw [Tree.node_set_of_ne _ _ hmn]
  · intro b hb
    refine Function.update_of_ne (fun heq => ?_) _ _
    exact hix.apart n (h.mem_imap hn) 0 (by decide) (heq ▸ hb)
  · by_cases hmn : m = n
    · subst hmn
      rw [Tree.node_set_self, Option.some.injEq] at hm
      subst hm
      refine ⟨hdir.type, hdir.first, hdir.rest, ?_⟩
      simp only [Function.update_self]
      exact hbuf
    · rw [Tree.node_set_of_ne _ _ hmn] at hm
      refine (h.node m nd hm).congr rfl rfl (fun _ _ => rfl) fun _ _ => ?_
      exact Function.update_of_ne (h.dirBlock_ne hn (h.mem_imap hm) hmn (by decide)) _ _

/-- The inode of a node is written, with the same blocks. -/
lemma Represents.setInode {nd : Node} (nd' : Node) {x : Inode} (hn : t.node n = some nd)
    (hdirect : ∀ i < ndirectBlocks, x.direct i = (v.inode n).direct i)
    (hindex : Inode.IndexAt (v.inode n) → x.IndexAt)
    (hx : NodeAt { v with inode := Function.update v.inode n x } n nd') :
    Represents { v with inode := Function.update v.inode n x } (t.set n (some nd')) := by
  refine h.retouch (fun m _ i hi => ?_) (fun m => ?_) rfl rfl rfl
    (fun hix => ⟨fun m hm => ?_, fun _ _ => rfl⟩) fun m nd'' hm => ?_
  · by_cases hmn : m = n
    · subst hmn
      rw [Function.update_self]
      exact hdirect i hi
    · rw [Function.update_of_ne hmn]
  · by_cases hmn : m = n
    · subst hmn
      rw [Tree.node_set_self, hn]
      exact iff_of_false (Option.some_ne_none _) (Option.some_ne_none _)
    · rw [Tree.node_set_of_ne _ _ hmn]
  · by_cases hmn : m = n
    · subst hmn
      rw [Function.update_self]
      exact hindex (hix.inode m hm)
    · rw [Function.update_of_ne hmn]
      exact hix.inode m hm
  · by_cases hmn : m = n
    · subst hmn
      rw [Tree.node_set_self, Option.some.injEq] at hm
      subst hm
      exact hx
    · rw [Tree.node_set_of_ne _ _ hmn] at hm
      refine (h.node m _ hm).congr ?_ ?_ (fun i _ => ?_) fun _ _ => rfl <;>
        simp only [Function.update_of_ne hmn]

/-- A new inode, with blocks of its own. -/
lemma Represents.create (nd : Node) (x : Inode) (B : Set ℕ) (block' : ℕ → Bytes) (hn : n ∉ v.imap)
    (hB : ∀ b, b ∈ B ↔ ∃ i < ndirectBlocks, x.direct i ≠ 0 ∧ x.direct i = b)
    (hfree : ∀ b ∈ B, b ∉ v.bmap ∧ 71 ≤ b)
    (hinj : ∀ i < ndirectBlocks, ∀ i' < ndirectBlocks, x.direct i ≠ 0 →
      x.direct i = x.direct i' → i = i')
    (hblock : ∀ b ∈ v.bmap, block' b = v.block b) (hindex : x.IndexAt)
    (hx : NodeAt { v with inode := Function.update v.inode n x, block := block' } n nd) :
    Represents { v with
      imap := insert n v.imap
      bmap := v.bmap ∪ B
      inode := Function.update v.inode n x
      block := block' } (t.set n (some nd)) := by
  have hother : ∀ m ∈ v.imap, m ≠ n := fun m hm heq => hn (heq ▸ hm)
  have hself : (Function.update v.inode n x) n = x := Function.update_self _ _ _
  have hold : ∀ m ∈ v.imap, (Function.update v.inode n x) m = v.inode m := fun m hm =>
    Function.update_of_ne (hother m hm) _ _
  refine ⟨fun m => ?_, fun m nd' hm => ?_, fun m hm i hi h0 => ?_,
    fun m hm m' hm' i hi i' hi' h0 heq => ?_, fun b hb hlt => ?_,
    fun b hb hb' => .inl (h.metadata b hb hb'), fun hi => ?_, h.cwd, h.fdescArray⟩
  · by_cases hmn : m = n
    · subst hmn
      rw [Tree.node_set_self]
      exact iff_of_true (Set.mem_insert _ _) (Option.some_ne_none _)
    · rw [Tree.node_set_of_ne _ _ hmn, ← h.imap, Set.mem_insert_iff, or_iff_right hmn]
  · by_cases hmn : m = n
    · subst hmn
      rw [Tree.node_set_self, Option.some.injEq] at hm
      subst hm
      cases nd with
      | file ref => exact hx
      | dir es => exact ⟨hx.type, hx.first, hx.rest, hx.block⟩
    · rw [Tree.node_set_of_ne _ _ hmn] at hm
      have hmem := h.mem_imap hm
      refine (h.node m nd' hm).congr ?_ ?_ (fun i _ => ?_) fun es hes => ?_
      · simp only [hold m hmem]
      · simp only [hold m hmem]
      · simp only [hold m hmem]
      · subst hes
        exact hblock _ (h.dirBlock hm).1
  · simp only at h0 ⊢
    rcases hm with rfl | hm
    · rw [hself] at h0 ⊢
      have hmem := (hB _).2 ⟨i, hi, h0, rfl⟩
      exact ⟨.inr hmem, (hfree _ hmem).2⟩
    · rw [hold m hm] at h0 ⊢
      obtain ⟨hmarked, hge⟩ := h.owned m hm i hi h0
      exact ⟨.inl hmarked, hge⟩
  · simp only at h0 heq
    rcases hm with rfl | hm <;> rcases hm' with rfl | hm'
    · rw [hself] at h0 heq
      exact ⟨rfl, hinj i hi i' hi' h0 heq⟩
    · rw [hself] at h0 heq
      rw [hold m' hm'] at heq
      refine absurd ?_ (hfree _ ((hB _).2 ⟨i, hi, h0, rfl⟩)).1
      rw [heq]
      exact (h.owned m' hm' i' hi' (heq ▸ h0)).1
    · rw [hself] at heq
      rw [hold m hm] at h0 heq
      refine absurd ?_ (hfree _ ((hB _).2 ⟨i', hi', heq ▸ h0, rfl⟩)).1
      rw [← heq]
      exact (h.owned m hm i hi h0).1
    · rw [hold m hm] at h0 heq
      rw [hold m' hm'] at heq
      exact h.unique m hm m' hm' i hi i' hi' h0 heq
  · rcases hb with hb | hb
    · rcases h.full b hb hlt with ⟨m, hm, i, hi, hmi⟩ | ⟨hflag, k, hk, hmk⟩
      · refine .inl ⟨m, .inr hm, i, hi, ?_⟩
        simp only [hold m hm]
        exact hmi
      · refine .inr ⟨hflag, k, hk, (Volume.entry_congr ?_ k).trans hmk⟩
        exact hblock 1108 ((h.index hflag).marked 1108 (by decide))
    · obtain ⟨i, hi, -, hmi⟩ := (hB b).1 hb
      refine .inl ⟨n, .inl rfl, i, hi, ?_⟩
      simp only [hself]
      exact hmi
  · have hix := h.index hi
    refine hix.congr (fun b hb => .inl (hix.marked b hb)) (fun m hm j hj => ?_) (fun m hm => ?_)
      fun b hb => hblock b (hix.marked b hb)
    · rcases hm with rfl | hm
      · simp only [hself]
        by_cases h0 : x.direct j = 0
        · rw [h0]
          decide
        · exact fun hmem => (hfree _ ((hB _).2 ⟨j, hj, h0, rfl⟩)).1 (hix.marked _ hmem)
      · simp only [hold m hm]
        exact hix.apart m hm j hj
    · rcases hm with rfl | hm
      · simp only [hself]
        exact hindex
      · simp only [hold m hm]
        exact hix.inode m hm

/-- An inode is freed with its blocks. -/
lemma Represents.erase (hn : n ∈ v.imap) :
    Represents { v with
      imap := v.imap \ {n}
      bmap := v.bmap \ directBlocks (v.inode n) 0 ndirectBlocks } (t.set n none) := by
  have hkeep : ∀ m ∈ v.imap, m ≠ n → ∀ i < ndirectBlocks, (v.inode m).direct i ≠ 0 →
      (v.inode m).direct i ∉ directBlocks (v.inode n) 0 ndirectBlocks := by
    rintro m hm hmn i hi h0 ⟨j, -, hj, heq⟩
    exact hmn (h.unique m hm n hn i hi j (by simpa using hj) h0 heq.symm).1
  refine ⟨fun m => ?_, fun m nd hm => ?_, fun m hm i hi h0 => ?_,
    fun m hm m' hm' => h.unique m hm.1 m' hm'.1, fun b hb hlt => ?_, fun b hb hb' => ?_, fun hi => ?_,
    h.cwd, h.fdescArray⟩
  · by_cases hmn : m = n
    · subst hmn
      rw [Tree.node_set_self]
      exact iff_of_false (fun hm => hm.2 rfl) (fun hne => hne rfl)
    · rw [Tree.node_set_of_ne _ _ hmn, ← h.imap]
      exact and_iff_left hmn
  · by_cases hmn : m = n
    · subst hmn
      rw [Tree.node_set_self] at hm
      cases hm
    · rw [Tree.node_set_of_ne _ _ hmn] at hm
      exact (h.node m nd hm).congr rfl rfl (fun _ _ => rfl) fun _ _ => rfl
  · obtain ⟨hmarked, hge⟩ := h.owned m hm.1 i hi h0
    exact ⟨⟨hmarked, hkeep m hm.1 hm.2 i hi h0⟩, hge⟩
  · rcases h.full b hb.1 hlt with ⟨m, hm, i, hi, hmi⟩ | hentry
    · refine .inl ⟨m, ⟨hm, fun heq => ?_⟩, i, hi, hmi⟩
      rw [Set.mem_singleton_iff.1 heq] at hmi
      exact hb.2 ⟨i, Nat.zero_le i, by simpa using hi, hmi⟩
    · exact .inr hentry
  · refine ⟨h.metadata b hb hb', ?_⟩
    rintro ⟨j, -, hj, heq⟩
    have hge := h.owned n hn j (by simpa using hj) (by rw [heq]; have := hb'.1; omega)
    omega
  · have hix := h.index hi
    refine hix.congr (fun b hb => ⟨hix.marked b hb, ?_⟩) (fun m hm => hix.apart m hm.1)
      (fun m hm => hix.inode m hm.1) fun _ _ => rfl
    rintro ⟨j, -, hj, rfl⟩
    exact hix.apart n hn j (by simpa using hj) hb

end Basic

end Represents

end Fs
end UcasKernel
