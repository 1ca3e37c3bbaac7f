/-
Runs of calls with the numbers `alloc_inode` has returned.

Setting bit 31 of a word of the inode map sets the bits 32 to 63 with it, so the
map marks numbers that nobody asked for.  An inode is allocated when its number
has been returned by `alloc_inode` and is marked.
-/
import UcasKernel.Fs.Format
import UcasKernel.Fs.Ownership
import Mathlib.Algebra.BigOperators.Group.Finset.Basic

namespace UcasKernel
namespace Fs

/-- The file system and the numbers returned so far. -/
structure History where
  fs : Fs
  returned : List ℕ

/-- The numbers `alloc_inode` returns during a call: `do_mkdir` and `do_touch` call
it once on the way to a result of 0. -/
def returnedBy (fs : Fs) : Syscall → List ℕ
  | .mkdir path => if (fs.doMkdir path.1).map (·.1) = some 0 then [fs.allocInode.1.toNat] else []
  | .touch path => if (fs.doTouch path.1).map (·.1) = some 0 then [fs.allocInode.1.toNat] else []
  | _ => []

instance (fs : Fs) (n : ℕ) : Decidable (fs.inodeAllocated n) := by
  unfold inodeAllocated
  infer_instance

namespace History

/-- The state after a call, if it returns. -/
def step (s : History) (call : Syscall) : Option History := do
  let fs ← s.fs.syscall call
  some ⟨fs, s.fs.returnedBy call ++ s.returned⟩

def Allocated (s : History) (n : ℕ) : Prop := n ∈ s.returned ∧ s.fs.inodeAllocated n

instance (s : History) (n : ℕ) : Decidable (s.Allocated n) := by
  unfold Allocated
  infer_instance

end History

/-! ## Directory entries on the card -/

/-- The valid entries of a block that lead to inode `n`. -/
def blockLinks (buf : Bytes) (n : ℕ) : ℕ :=
  (List.range maxEntries).countP fun j =>
    decide (dentryValid buf j = some true ∧ dentryInum buf j = some n)

/-- The valid entries of a directory that lead to inode `n`. -/
def dirLinks (fs : Fs) (inode : Inode) (n : ℕ) : ℕ :=
  ∑ i ∈ Finset.range ndirectBlocks,
    if inode.direct i = 0 then 0 else blockLinks (fs.readBlock (inode.direct i)).blockBuf n

/-- The valid entries, over all directories, that lead to inode `n`. -/
def History.links (s : History) (n : ℕ) : ℕ :=
  ∑ d ∈ Finset.range (ninodes + 1),
    match s.fs.readInode d with
    | some inode =>
      if s.Allocated d ∧ inode.type = typeDirectory then s.fs.dirLinks inode n else 0
    | none => 0

/-! ## The tree behind a history -/

/-- The valid entries among some that lead to inode `n`. -/
def countLinks (es : List Entry) (n : ℕ) : ℕ := es.countP fun e => e.valid && decide (e.inum = n)

/-- The same over all directories of a tree. -/
def Tree.links (t : Tree) (n : ℕ) : ℕ :=
  ∑ d ∈ Finset.range (ninodes + 1), countLinks (t.entries d) n

/-- The card holds the tree, and the inodes of the tree are those that were
returned and are marked. -/
structure Tracks (s : History) (t : Tree) : Prop where
  stores : s.fs.Stores t
  handed : ∀ n ∈ s.returned, Handed ninodes n
  returned : ∀ n, t.node n ≠ none → n ∈ s.returned

section Tracks

variable {s : History} {t : Tree}

lemma Stores.handed {fs : Fs} (h : fs.Stores t) {n : ℕ} (hn : t.node n ≠ none) :
    Handed ninodes n := by
  obtain ⟨v, hs, hr⟩ := h
  exact hs.imap_handed n ((hr.imap n).2 hn)

lemma Stores.mapOpen_iff {fs : Fs} (h : fs.Stores t) :
    fs.MapOpen imapSector 1 ↔ ∃ n, Handed ninodes n ∧ t.node n = none := by
  obtain ⟨v, hs, hr⟩ := h
  rw [hs.mapOpen_iff]
  exact exists_congr fun n => and_congr_right fun _ => by rw [hr.imap, not_not]

/-- The number `alloc_inode` returns is not in the tree. -/
lemma Stores.allocInode_fresh {fs : Fs} (h : fs.Stores t) (hopen : fs.MapOpen imapSector 1) :
    t.node fs.allocInode.1.toNat = none := by
  obtain ⟨v, hs, hr⟩ := h
  obtain ⟨n, fs', halloc, -, hnew, -⟩ := hs.allocInode hopen
  rw [halloc, Int.toNat_natCast]
  exact hr.node_none hnew

/-- The bits of the map that stand for inodes. -/
lemma Stores.inodeAllocated_iff {fs : Fs} (h : fs.Stores t) {n : ℕ} (hn : Handed ninodes n) :
    fs.inodeAllocated n ↔ t.node n ≠ none := by
  obtain ⟨v, hs, hr⟩ := h
  obtain ⟨w, k, hk, hw, rfl⟩ := hn.bit
  have hbit := hs.imap.bit w (by simp only [ninodes] at hw; omega) k hk
  have hdiv : (64 * w + k) / 64 = w := by omega
  have hmod : (64 * w + k) % 64 = k := by omega
  rw [← hr.imap, ← hbit, inodeAllocated, imapStart_eq hs.superblock, Nat.add_sub_cancel, mapBit,
    hdiv, hmod]
  exact ⟨fun hall => hall.2.2, fun hall => ⟨hn.1, hn.2.1, hall⟩⟩

lemma Tracks.allocated_iff (h : Tracks s t) (n : ℕ) : s.Allocated n ↔ t.node n ≠ none := by
  constructor
  · rintro ⟨hmem, hall⟩
    exact (h.stores.inodeAllocated_iff (h.handed n hmem)).1 hall
  · intro hn
    exact ⟨h.returned n hn, (h.stores.inodeAllocated_iff (h.stores.handed hn)).2 hn⟩

/-- The valid entries of a block are those of the list. -/
lemma IsDir.valid_iff {buf : Bytes} {es : List Entry} (hd : IsDir buf es) {j : ℕ}
    (hj : j < maxEntries) (n : ℕ) :
    dentryValid buf j = some true ∧ dentryInum buf j = some n ↔
      ∃ hj : j < es.length, es[j].valid = true ∧ es[j].inum = n := by
  by_cases hlt : j < es.length
  · have hentry := hd.entry j hlt
    rw [hentry.dentryValid, hentry.dentryInum, Option.some.injEq, Option.some.injEq]
    exact ⟨fun hand => ⟨hlt, hand⟩, fun ⟨_, hand⟩ => hand⟩
  · rw [hd.dentryValid_unused (not_lt.1 hlt) hj]
    exact iff_of_false (fun hand => Bool.noConfusion (Option.some.inj hand.1)) fun ⟨h, _⟩ => hlt h

/-- Counting over the entries of a block is counting over the list. -/
lemma IsDir.blockLinks {buf : Bytes} {es : List Entry} (hd : IsDir buf es) (n : ℕ) :
    blockLinks buf n = countLinks es n := by
  have hes : es = (List.range es.length).map fun j => es.getD j default := by
    refine List.ext_getElem (by simp) fun j hj _ => ?_
    simp [List.getElem?_eq_getElem hj]
  have hsplit : List.range maxEntries = List.range es.length ++
      (List.range (maxEntries - es.length)).map (es.length + ·) := by
    rw [← List.range_add, Nat.add_sub_cancel' hd.length]
  have hused : (List.range es.length).countP (fun j =>
      decide (dentryValid buf j = some true ∧ dentryInum buf j = some n)) = countLinks es n := by
    rw [countLinks]
    conv_rhs => rw [hes, List.countP_map]
    refine List.countP_congr fun j hj => ?_
    have hj' := List.mem_range.1 hj
    rw [decide_eq_true_eq, hd.valid_iff (hj'.trans_le hd.length)]
    simp [hj']
  have hrest : ((List.range (maxEntries - es.length)).map (es.length + ·)).countP (fun j =>
      decide (dentryValid buf j = some true ∧ dentryInum buf j = some n)) = 0 := by
    refine List.countP_eq_zero.2 fun j hj => ?_
    obtain ⟨i, hi, rfl⟩ := List.mem_map.1 hj
    have hi' := List.mem_range.1 hi
    rw [decide_eq_true_eq, hd.valid_iff (by omega)]
    rintro ⟨hlt, -⟩
    omega
  rw [Fs.blockLinks, hsplit, List.countP_append, hused, hrest, Nat.add_zero]

/-- The entries of a directory fit into its block. -/
lemma Stores.length_entries {fs : Fs} (h : fs.Stores t) (d : ℕ) :
    (t.entries d).length ≤ maxEntries := by
  obtain ⟨v, -, hr⟩ := h
  cases hnode : t.node d with
  | none =>
    rw [Tree.entries, hnode]
    exact Nat.zero_le _
  | some nd =>
    cases nd with
    | file ref =>
      rw [Tree.entries, hnode]
      exact Nat.zero_le _
    | dir es =>
      rw [Tree.entries_of_node hnode]
      exact (DirAt.block (hr.node d _ hnode)).length

/-- The links of an inode fit into 32 bits. -/
lemma Stores.links_lt {fs : Fs} (h : fs.Stores t) (n : ℕ) : t.links n + 1 < 2 ^ 32 := by
  have hsum : t.links n ≤ ∑ d ∈ Finset.range (ninodes + 1), maxEntries :=
    Finset.sum_le_sum fun d _ => List.countP_le_length.trans (h.length_entries d)
  rw [Finset.sum_const, Finset.card_range, smul_eq_mul] at hsum
  have : (ninodes + 1) * maxEntries = 467058 := by decide
  omega

/-- The links counted on the card are those of the tree. -/
lemma Tracks.links_eq (h : Tracks s t) (n : ℕ) : s.links n = t.links n := by
  obtain ⟨v, hs, hr⟩ := h.stores
  refine Finset.sum_congr rfl fun d hd => ?_
  cases hnode : t.node d with
  | none =>
    have hnot : ¬ s.Allocated d := fun hall => (h.allocated_iff d).1 hall hnode
    rw [Tree.entries, hnode]
    cases s.fs.readInode d with
    | none => rfl
    | some x => exact if_neg fun hand => hnot hand.1
  | some nd =>
    have hhanded := hs.nodeBounds hr hnode
    have hall : s.Allocated d := (h.allocated_iff d).2 (by rw [hnode]; exact Option.some_ne_none _)
    cases nd with
    | file ref =>
      obtain ⟨x, hx, hsame, -⟩ := hs.readInode hhanded.1 hhanded.2.1
      have htype : x.type = typeFile := (hr.type_eq_file hnode hsame).2 ⟨ref, rfl⟩
      rw [Tree.entries, hnode, hx]
      refine if_neg fun hand => ?_
      rw [htype] at hand
      exact absurd hand.2 (by decide)
    | dir es =>
      obtain ⟨x, b, o⟩ := hs.opened hr hnode
      have hdir : DirAt v d es := hr.node d _ hnode
      rw [Tree.entries_of_node hnode, o.inode]
      dsimp only
      rw [if_pos ⟨hall, o.same.type.trans hdir.type⟩, dirLinks,
        Finset.sum_eq_single_of_mem 0 (by decide) fun i hi hi0 => ?_]
      · rw [o.first, if_neg o.ne_zero]
        exact o.buf.blockLinks n
      · have hi' := Finset.mem_range.1 hi
        refine if_pos ?_
        rw [o.same.direct i hi']
        exact hdir.rest i (by omega) hi'

end Tracks

end Fs
end UcasKernel
