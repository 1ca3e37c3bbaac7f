/-
Removing one name from a directory.

`do_rm` clears the `valid` of an entry and keeps its number, so that the walks still go over
it to the entries behind.  Apart from the block of the directory it writes the inode, when
the file has further names, or the two maps.  The inode with the last number has its bit
looked for behind the sector buffer of `free_inode`.
-/
import UcasKernel.Fs.MapBits
import UcasKernel.Fs.Names
import UcasKernel.Fs.Slots

namespace UcasKernel
namespace Fs

/-- The working directory `c` begins with the block `b`, which has the entries `es` with
different names and an unused entry behind them. -/
structure OneBlock (fs : Fs) (c b : ℕ) (es : List Entry) : Prop where
  superblock : fs.superblock = mkfsSuperblock
  cwdInum : fs.cwdInum = c
  inum : 1 ≤ c ∧ c ≤ ninodes
  first : (fs.inode c).direct 0 = b
  data : DataBlock b
  entries : IsDir (fs.block b) es
  room : es.length < maxEntries
  names : DifferentNames es

/-- What `parse_path` answers for a name in a directory. -/
def answer (es : List Entry) (c : ℕ) (name : List UInt8) : Option ℤ :=
  if name = [] then some c
  else if 16 ≤ name.length then none
  else match firstNamed es name with
    | some j => if name.length + 1 < 16 then (es[j]?).map fun e => toInt32 e.inum else none
    | none => some 0

/-- The name is gone, all other names lead where they led, the slots have their numbers, and
the bytes that changed are those of the directory, the inode and the two maps. -/
structure Removed (fs : Fs) (c b m : ℕ) (path : List UInt8) (fs' : Fs) : Prop where
  gone : ∃ fs'', fs'.parsePath path c = some (0, fs'')
  others : ∀ name, 0 ∉ name → 47 ∉ name → name ≠ path →
    (fs'.parsePath name c).map Prod.fst = (fs.parsePath name c).map Prod.fst
  slots : ∀ j < maxEntries, dentryInum (fs'.block b) j = dentryInum (fs.block b) j
  frame : fs.ChangesIn (blockBytes b ∪ (slotBytes m ∪ (bmapBytes ∪ imapBytes))) fs'

/-- `do_rm` returns 0 and has removed the name of inode `m`. -/
def RmRemoves (fs : Fs) (c b m : ℕ) (path : List UInt8) : Prop :=
  ∃ fs', fs.doRm path = some (0, fs') ∧ Removed fs c b m path fs'

/-! ## Entries -/

section Entries

variable {es : List Entry} {path name : List UInt8} {c j : ℕ}

lemma firstNamed_eq_map (es : List Entry) (name : List UInt8) :
    firstNamed es name = (es.map (·.named name)).findIdx? id := by
  rw [firstNamed, List.findIdx?_map]
  rfl

/-- A cleared entry hides no entry and is hidden by none. -/
lemma firstNamed_clear_of_ne (hj : j < es.length) (hnamed : es[j].named path = true)
    (hne : name ≠ path) : firstNamed (es.modify j Entry.cleared) name = firstNamed es name := by
  rw [firstNamed_eq_map, firstNamed_eq_map]
  congr 1
  refine List.ext_getElem (by simp) fun i hi hi' => ?_
  rw [List.getElem_map, List.getElem_map, List.getElem_modify]
  split
  · rename_i hij
    subst hij
    simp only [Entry.named, Bool.and_eq_true, decide_eq_true_eq] at hnamed
    rw [Entry.named, Entry.named, Entry.cleared, Bool.false_and, hnamed.2,
      decide_eq_false (Ne.symm hne), Bool.and_false]
  · rfl

/-- The name of the cleared entry is the name of no entry. -/
lemma firstNamed_clear_self (h : DifferentNames es) (hj : j < es.length)
    (hnamed : es[j].named path = true) : firstNamed (es.modify j Entry.cleared) path = none := by
  refine List.findIdx?_eq_none_iff.2 fun e he => ?_
  obtain ⟨i, hi, rfl⟩ := List.getElem_of_mem he
  rw [List.getElem_modify]
  split
  · rfl
  · rename_i hij
    by_contra htrue
    rw [Bool.not_eq_false] at htrue
    rw [List.length_modify] at hi
    exact hij (h.eq_of_named hj hi hnamed htrue)

lemma answer_clear_of_ne (hj : j < es.length) (hnamed : es[j].named path = true)
    (hne : name ≠ path) : answer (es.modify j Entry.cleared) c name = answer es c name := by
  have hinum : ∀ k : ℕ, ((es.modify j Entry.cleared)[k]?).map (fun e : Entry => toInt32 e.inum) =
      (es[k]?).map fun e : Entry => toInt32 e.inum := by
    intro k
    rw [List.getElem?_modify]
    split
    · cases es[k]? <;> rfl
    · cases es[k]? <;> rfl
  rw [answer, answer, firstNamed_clear_of_ne hj hnamed hne]
  simp only [hinum]

lemma answer_clear_self (h : DifferentNames es) (hj : j < es.length)
    (hnamed : es[j].named path = true) (hne : path ≠ []) (hlen : path.length < 16) :
    answer (es.modify j Entry.cleared) c path = some 0 := by
  rw [answer, if_neg hne, if_neg (by omega), firstNamed_clear_self h hj hnamed]

end Entries

/-! ## The directory -/

section Directory

variable {fs fs' : Fs} {c b j : ℕ} {es es' : List Entry} {name : List UInt8}

lemma OneBlock.readInode (d : fs.OneBlock c b es) : fs.readInode c = some (fs.inode c) :=
  readInode_inode d.superblock d.inum

lemma OneBlock.ne_zero (d : fs.OneBlock c b es) : b ≠ 0 := by
  have := d.data.1
  omega

lemma OneBlock.readBlock (d : fs.OneBlock c b es) :
    fs.readBlock b = { fs with blockBuf := fs.block b } := readBlock_block d.superblock d.data.2

/-- The block buffer is not part of the directory. -/
lemma OneBlock.setBlockBuf (d : fs.OneBlock c b es) (buf : Bytes) :
    ({ fs with blockBuf := buf } : Fs).OneBlock c b es :=
  ⟨d.superblock, d.cwdInum, d.inum, d.first, d.data, d.entries, d.room, d.names⟩

lemma OneBlock.parsePath (d : fs.OneBlock c b es) (hname : 0 ∉ name) (hslash : 47 ∉ name) :
    (fs.parsePath name c).map Prod.fst = answer es c name := by
  rw [answer]
  split
  · rename_i hnil
    rw [hnil, parsePath_nil]
    rfl
  rename_i hne
  split
  · rename_i hlong
    rw [parsePath_long hlong]
    rfl
  rename_i hshort
  have hdir : IsDir (fs.readBlock ((fs.inode c).direct 0)).blockBuf es := by
    rw [d.first, d.readBlock]
    exact d.entries
  obtain ⟨hhit, hmiss⟩ := parsePathLoop_dir name.length d.readInode (by rw [d.first]; exact d.ne_zero)
    hdir hname hne (not_le.1 hshort)
  cases hfirst : firstNamed es name with
  | none =>
    rw [Fs.parsePath, hmiss hfirst, if_pos d.room]
    rfl
  | some j =>
    obtain ⟨hj, -, -⟩ := firstNamed_eq_some.1 hfirst
    have htake : name.takeWhile (· ≠ 47) = name := by
      refine List.takeWhile_eq_self_iff.2 fun u hu => ?_
      simp only [decide_eq_true_eq]
      rintro rfl
      exact hslash hu
    obtain ⟨k, hk⟩ : ∃ k, name.length = k + 1 :=
      ⟨name.length - 1, by have := List.length_pos_iff.2 hne; omega⟩
    rw [Fs.parsePath, hhit j hj hfirst, htake, List.drop_eq_nil_of_le (by omega)]
    dsimp only
    rw [List.getElem?_eq_getElem hj]
    split
    · rw [hk, parsePathLoop, if_pos rfl, Option.map_some, Option.map_some]
    · rfl

/-- The walk of `do_rm` for a name that the directory has. -/
lemma OneBlock.scan_hit (d : fs.OneBlock c b es) (hname : 0 ∉ name)
    (hfirst : firstNamed es name = some j) :
    fs.scanBlocks (fs.inode c) (isNamed name) never 0 0 ndirectBlocks =
      some (.hit j, b, fs.readBlock b) := by
  have hdir : IsDir (fs.readBlock b).blockBuf es := by
    rw [d.readBlock]
    exact d.entries
  have hentries : scanEntries (isNamed name (fs.readBlock b).blockBuf 0)
      (never (fs.readBlock b).blockBuf 0) 0 ndentriesPerBlock = some (.hit j) :=
    hdir.scan_hit hname hfirst (fun _ _ => rfl) 0
  exact scanBlocks_dir d.first d.ne_zero hentries (by simp)

/-- A change that leaves the inode of the directory. -/
lemma OneBlock.keep (d : fs.OneBlock c b es) (hsb : fs'.superblock = fs.superblock)
    (hcwd : fs'.cwdInum = fs.cwdInum)
    (hinode : (fs'.inode c).direct 0 = (fs.inode c).direct 0)
    (hblock : fs'.block b = fs.block b) : fs'.OneBlock c b es :=
  ⟨hsb.trans d.superblock, hcwd.trans d.cwdInum, d.inum, hinode.trans d.first, d.data,
    by rw [hblock]; exact d.entries, d.room, d.names⟩

/-- Entry `j` is cleared and the block written. -/
lemma OneBlock.unlink (d : fs.OneBlock c b es) (hj : j < es.length) :
    (((fs.readBlock b).clearValid j).writeBlock b).OneBlock c b (es.modify j Entry.cleared) ∧
    fs.Writes (blockBase b) (blockBase b + nbytesPerBlock)
      (((fs.readBlock b).clearValid j).writeBlock b) := by
  have hsb : ((fs.readBlock b).clearValid j).superblock = mkfsSuperblock := d.superblock
  have hw : fs.Writes (blockBase b) (blockBase b + nbytesPerBlock)
      (((fs.readBlock b).clearValid j).writeBlock b) := by
    have hwrite := @writeBlock_writes ((fs.readBlock b).clearValid j) b hsb d.data.2
    exact ⟨hwrite.superblock, hwrite.cwdInum, hwrite.fdescArray, hwrite.outside⟩
  refine ⟨⟨hw.superblock.trans d.superblock, hw.cwdInum.trans d.cwdInum, d.inum, ?_, d.data, ?_,
    by rw [List.length_modify]; exact d.room, d.names.clear j⟩, hw⟩
  · rw [hw.inode d.inum.2 (.inr (dataBlock_behind d.data))]
    exact d.first
  · refine (d.entries.clear hj).congr fun y hy => ?_
    rw [block_writeBlock hsb d.data.2 hy, clearValid, d.readBlock]

end Directory

/-! ## The inode and the maps -/

section Free

variable {fs fs' : Fs} {x : Inode} {c b m i n : ℕ} {es : List Entry}

/-- The blocks of an inode have their bits in the two maps. -/
def MapsHold (x : Inode) : Prop :=
  ∀ i < ndirectBlocks, x.direct i < nbitsPerSector * (nsectorsBmap + nsectorsImap)

/-- Freeing the direct blocks writes the maps only. -/
lemma freeDirect_writes (h : fs.superblock = mkfsSuperblock) (hx : MapsHold x)
    (hn : i + n ≤ ndirectBlocks) :
    ∃ fs', fs.freeDirect x i n = some fs' ∧
      fs.Writes (nbytesPerSector * bmapSector) (nbytesPerSector * inodeSector) fs' := by
  induction n generalizing fs i with
  | zero => exact ⟨fs, rfl, Writes.refl fs _ _⟩
  | succ n ih =>
    have hlt := hx i (by omega)
    have hint : toInt32 (x.direct i : ℤ) = (x.direct i : ℤ) := by
      refine toInt32_of_range ?_
      simp only [nbitsPerSector, nsectorsBmap, nsectorsImap] at hlt
      omega
    obtain ⟨fs₁, hfree, hw⟩ : ∃ fs₁, fs.freeBlock (x.direct i) = some fs₁ ∧
        fs.Writes (nbytesPerSector * bmapSector) (nbytesPerSector * inodeSector) fs₁ := by
      rcases Nat.eq_zero_or_pos (x.direct i) with h0 | hpos
      · exact ⟨fs, by rw [h0]; rfl, Writes.refl fs _ _⟩
      · have hstart : fs.superblock.start + fs.superblock.bmapOffset = bmapSector := by
          rw [h]
          rfl
        obtain ⟨fs₁, hfree, hfreed⟩ := freeBlock_freed_of_lt hstart (by decide) ⟨hpos, hlt⟩
        exact ⟨fs₁, hfree, hfreed.writes⟩
    obtain ⟨fs', hrest, hw'⟩ := ih (hw.superblock.trans h) (by omega : i + 1 + n ≤ ndirectBlocks)
    refine ⟨fs', ?_, hw.trans hw'⟩
    rw [Fs.freeDirect, hint, hfree]
    exact hrest

/-- A write to the maps. -/
lemma OneBlock.mapsWritten (d : fs.OneBlock c b es)
    (hw : fs.Writes (nbytesPerSector * bmapSector) (nbytesPerSector * inodeSector) fs') :
    fs'.OneBlock c b es ∧ fs.ChangesIn (bmapBytes ∪ imapBytes) fs' := by
  refine ⟨d.keep hw.superblock hw.cwdInum ?_ (hw.block (.inr ?_)), hw.changesIn.mono fun a ha => ?_⟩
  · rw [hw.inode d.inum.2 (.inl le_rfl)]
  · exact le_trans (by decide) (dataBlock_behind d.data)
  · rcases Nat.lt_or_ge a (nbytesPerSector * imapSector) with hlt | hge
    · exact .inl ⟨ha.1, hlt⟩
    · exact .inr ⟨hge, ha.2⟩

/-- The inode and its blocks are freed. -/
lemma OneBlock.freeNode (d : fs.OneBlock c b es) (hm : m < 4096) (hx : MapsHold x) :
    ∃ fs₁ fs', fs.freeInode m = some fs₁ ∧ fs₁.freeDirect x 0 ndirectBlocks = some fs' ∧
      fs'.OneBlock c b es ∧ fs.ChangesIn (bmapBytes ∪ imapBytes) fs' := by
  have hstart : fs.superblock.start + fs.superblock.imapOffset = imapSector := by
    rw [d.superblock]
    rfl
  obtain ⟨fs₁, hfree, hfreed⟩ := freeInode_freed hstart (by decide) hm
  have hw₁ : fs.Writes (nbytesPerSector * bmapSector) (nbytesPerSector * inodeSector) fs₁ :=
    hfreed.writes.mono (by decide) (by decide)
  obtain ⟨fs', hdirect, hw'⟩ := @freeDirect_writes fs₁ x 0 ndirectBlocks
    (hw₁.superblock.trans d.superblock) hx (Nat.zero_add _).le
  obtain ⟨d', hframe⟩ := d.mapsWritten (hw₁.trans hw')
  exact ⟨fs₁, fs', hfree, hdirect, d', hframe⟩

/-- The inode is written with its old blocks. -/
lemma OneBlock.writeInode (d : fs.OneBlock c b es) (hm : 1 ≤ m ∧ m ≤ ninodes)
    (hx : ∀ i < ndirectBlocks, x.direct i = (fs.inode m).direct i) :
    ∃ fs', fs.writeInode m x = some fs' ∧ fs'.OneBlock c b es ∧ fs.ChangesIn (slotBytes m) fs' := by
  obtain ⟨fs', hwrite, hw, -, -, hdirect, hothers⟩ := writeInode_spec d.superblock hm x
  refine ⟨fs', hwrite, d.keep hw.superblock hw.cwdInum ?_ (hw.block (.inr (dataBlock_behind d.data))),
    changesIn_writeInode d.superblock hm hwrite⟩
  by_cases hmc : c = m
  · subst hmc
    rw [hdirect 0 (by decide), hx 0 (by decide)]
    exact Nat.mod_eq_of_lt ((Inode.inRange_get _ _).direct 0 (by decide))
  · exact (hothers c d.inum hmc).direct 0 (by decide)

end Free

/-! ## The call -/

section Call

variable {fs fs' : Fs} {x : Inode} {c b m j : ℕ} {es : List Entry} {path : List UInt8}

/-- The directory with the cleared entry has the name removed. -/
lemma OneBlock.removed (d : fs.OneBlock c b es) (d' : fs'.OneBlock c b (es.modify j Entry.cleared))
    (hj : j < es.length) (hnamed : es[j].named path = true) (hpath : 0 ∉ path) (hname : Name path)
    (hframe : fs.ChangesIn (blockBytes b ∪ (slotBytes m ∪ (bmapBytes ∪ imapBytes))) fs') :
    Removed fs c b m path fs' := by
  obtain ⟨h1, h14, hslash⟩ := hname
  refine ⟨?_, fun name h0 h47 hne => ?_, fun i hi => ?_, hframe⟩
  · have hanswer := d'.parsePath hpath hslash
    rw [answer_clear_self d.names hj hnamed (List.ne_nil_of_length_pos h1) (by omega)] at hanswer
    obtain ⟨⟨r, fs''⟩, hparse, rfl⟩ := Option.map_eq_some_iff.1 hanswer
    exact ⟨fs'', hparse⟩
  · rw [d'.parsePath h0 h47, d.parsePath h0 h47, answer_clear_of_ne hj hnamed hne]
  · rcases Nat.lt_or_ge i es.length with hlt | hge
    · have hlt' : i < (es.modify j Entry.cleared).length := by rwa [List.length_modify]
      rw [(d'.entries.entry i hlt').dentryInum, (d.entries.entry i hlt).dentryInum, List.getElem_modify]
      split <;> rfl
    · rw [d'.entries.dentryInum_unused (by rwa [List.length_modify]) hi,
        d.entries.dentryInum_unused hge hi]

/-- The call up to the write of the directory. -/
lemma OneBlock.doRm (d : fs.OneBlock c b es) (hpath : 0 ∉ path) (hname : Name path)
    (hj : j < es.length) (hentry : es[j] = ⟨true, m, path⟩) (hm : 1 ≤ m ∧ m ≤ ninodes)
    (hx : fs.readInode m = some x) (hfile : x.type = typeFile) :
    ∃ fs₂ ref, ref = (x.ref + (2 ^ 32 - 1)) % 2 ^ 32 ∧
      fs₂.OneBlock c b (es.modify j Entry.cleared) ∧ fs.ChangesIn (blockBytes b) fs₂ ∧
      (∀ i < ndirectBlocks, x.direct i = (fs₂.inode m).direct i) ∧
      fs.doRm path = if ref > 0 then (fs₂.writeInode m { x with ref := ref }).map fun f => ((0 : ℤ), f)
        else ((fs₂.freeInode m).bind fun f => f.freeDirect { x with ref := ref } 0 ndirectBlocks).map
          fun f => ((0 : ℤ), f) := by
  obtain ⟨h1, h14, hslash⟩ := hname
  have hne : path ≠ [] := List.ne_nil_of_length_pos h1
  have hnamed : es[j].named path = true := by
    rw [hentry, Entry.named, decide_eq_true rfl]
    rfl
  have hfirst : firstNamed es path = some j := by
    refine firstNamed_eq_some.2 ⟨hj, hnamed, fun i hi => ?_⟩
    by_contra htrue
    rw [Bool.not_eq_false] at htrue
    exact absurd (d.names.eq_of_named (hi.trans hj) hj htrue hnamed) hi.ne
  have hanswer := d.parsePath hpath hslash
  have hint : toInt32 (m : ℤ) = m := by
    have hle := hm.2
    simp only [ninodes] at hle
    exact toInt32_of_range (by omega)
  rw [answer, if_neg hne, if_neg (by omega), hfirst] at hanswer
  dsimp only at hanswer
  rw [if_pos (by omega), List.getElem?_eq_getElem hj, Option.map_some, hentry, hint] at hanswer
  obtain ⟨⟨r, fs₁⟩, hparse, hr⟩ := Option.map_eq_some_iff.1 hanswer
  obtain rfl : r = m := hr
  obtain ⟨buf, rfl⟩ : ∃ buf, fs₁ = { fs with blockBuf := buf } := ⟨_, parsePathLoop_readOnly hparse⟩
  rw [← d.cwdInum] at hparse
  have d₁ := d.setBlockBuf buf
  have hcwd : ({ fs with blockBuf := buf } : Fs).readInode fs.cwdInum = some (fs.inode c) := by
    rw [d.cwdInum]
    exact d₁.readInode
  have hscan := d₁.scan_hit hpath hfirst
  obtain ⟨d₂, hw⟩ := d₁.unlink hj
  have hcall := doRm_found hparse (by omega) hx hfile hcwd hscan rfl
  refine ⟨_, _, rfl, d₂, hw.changesIn, fun i hi => ?_, hcall⟩
  rw [hw.inode hm.2 (.inr (dataBlock_behind d.data))]
  obtain rfl := Option.some.inj ((readInode_inode d.superblock hm).symm.trans hx)
  rfl

/-- The last name of the last inode. -/
lemma OneBlock.doRm_last (d : fs.OneBlock c b es) (hpath : 0 ∉ path) (hname : Name path)
    (he : ⟨true, ninodes, path⟩ ∈ es) (hx : fs.readInode ninodes = some x) (hfile : x.type = typeFile)
    (hone : x.ref = 1) : fs.doRm path = none := by
  obtain ⟨j, hj, hentry⟩ := List.getElem_of_mem he
  obtain ⟨fs₂, ref, href, -, -, -, hcall⟩ := d.doRm hpath hname hj hentry (by decide) hx hfile
  rw [hcall, if_neg (by omega), ninodes, freeInode_last]
  rfl

/-- Removing a name of a regular file removes that name and nothing else, unless the inode
is the last one and this was its last name. -/
theorem rmRemoves_iff (d : fs.OneBlock c b es) (hpath : 0 ∉ path) (hname : Name path)
    (he : ⟨true, m, path⟩ ∈ es) (hm : 1 ≤ m ∧ m ≤ ninodes) (hx : fs.readInode m = some x)
    (hfile : x.type = typeFile) (hblocks : MapsHold x) :
    fs.RmRemoves c b m path ↔ m ≠ ninodes ∨ x.ref ≠ 1 := by
  obtain ⟨j, hj, hentry⟩ := List.getElem_of_mem he
  have hnamed : es[j].named path = true := by
    rw [hentry, Entry.named, decide_eq_true rfl]
    rfl
  obtain ⟨fs₂, ref, href, d₂, hframe₂, hdirect, hcall⟩ := d.doRm hpath hname hj hentry hm hx hfile
  have hlt : x.ref < 2 ^ 32 := by
    obtain rfl := Option.some.inj ((readInode_inode d.superblock hm).symm.trans hx)
    exact (Inode.inRange_get _ _).ref
  by_cases hone : x.ref = 1
  · rw [if_neg (by omega)] at hcall
    by_cases hlast : m = ninodes
    · refine iff_of_false ?_ (by simp [hone, hlast])
      subst hlast
      rintro ⟨fs', hrm, -⟩
      rw [d.doRm_last hpath hname he hx hfile hone] at hrm
      cases hrm
    · obtain ⟨fs₃, fs', hfree, hfrees, d', hframe'⟩ :=
        @OneBlock.freeNode fs₂ { x with ref := ref } c b m _ d₂
          (by simp only [ninodes] at *; omega) hblocks
      refine iff_of_true ⟨fs', ?_, ?_⟩ (.inl hlast)
      · rw [hcall, hfree, Option.bind_some, hfrees]
        rfl
      · refine d.removed d' hj hnamed hpath hname ((hframe₂.trans hframe').mono ?_)
        exact Set.union_subset_union_right _ Set.subset_union_right
  · rw [if_pos (by omega)] at hcall
    obtain ⟨fs', hwrite, d', hframe'⟩ := @OneBlock.writeInode fs₂ { x with ref := ref } c b m _ d₂ hm
      hdirect
    refine iff_of_true ⟨fs', ?_, ?_⟩ (.inr hone)
    · rw [hcall, hwrite]
      rfl
    · refine d.removed d' hj hnamed hpath hname ((hframe₂.trans hframe').mono ?_)
      exact Set.union_subset_union_right _ Set.subset_union_left

end Call

/-! ## Cards -/

section Cards

variable {fs : Fs} {t : Tree} {es : List Entry} {nd : Node} {m : ℕ}

/-- The working directory of a card that stores a tree. -/
lemma Stores.oneBlock (h : fs.Stores t) (hc : t.node t.cwd = some (.dir es))
    (hroom : es.length < maxEntries) (hnames : DifferentNames es) : ∃ b, fs.OneBlock t.cwd b es := by
  obtain ⟨v, hs, hr⟩ := h
  obtain ⟨x, b, o, -⟩ := hs.openedCwd hr hc
  have hbounds := hs.nodeBounds hr hc
  have hx := Option.some.inj
    ((readInode_inode hs.superblock ⟨hbounds.1, hbounds.2.1⟩).symm.trans o.inode)
  refine ⟨b, hs.superblock, hs.cwdInum.trans hr.cwd, ⟨hbounds.1, hbounds.2.1⟩, ?_, o.data, ?_, hroom,
    hnames⟩
  · rw [hx]
    exact o.first
  · have hbuf := o.buf
    rw [readBlock_block hs.superblock o.data.2] at hbuf
    exact hbuf

/-- The blocks of an inode in use lie in the block map. -/
lemma Stores.mapsHold (h : fs.Stores t) (hnode : t.node m = some nd) : MapsHold (fs.inode m) := by
  obtain ⟨v, hs, hr⟩ := h
  obtain ⟨h1, h2, -⟩ := hs.nodeBounds hr hnode
  intro i hi
  rw [(hs.inode m h1 h2).direct i hi]
  by_cases h0 : (v.inode m).direct i = 0
  · rw [h0]
    decide
  · have hlt := (hs.bmap_handed _ (hr.owned m (hr.mem_imap hnode) i hi h0).1).lt
    simp only [nblocks] at hlt
    simp only [nbitsPerSector, nsectorsBmap, nsectorsImap]
    omega

end Cards

/-- The big file of a freshly formatted card is removed. -/
theorem rmRemoves_bigfile :
    ∃ fs b, emptyCard.doMkfs = some (0, fs) ∧ fs.RmRemoves 1 b 2 bigfileName := by
  obtain ⟨fs, hmkfs, hst⟩ := doMkfs_stores emptyCard
  have hroot : (imageTree emptyCard.fdescArray).node (imageTree emptyCard.fdescArray).cwd =
    some (.dir (freshEntries 1 1 ++ [⟨true, 2, bigfileName⟩])) := rfl
  have hnames : DifferentNames (freshEntries 1 1 ++ [⟨true, 2, bigfileName⟩]) :=
    (differentNames_freshEntries 1 1).append 2 (by decide)
  obtain ⟨b, d⟩ := hst.oneBlock hroot (by decide) hnames
  have hnode : (imageTree emptyCard.fdescArray).node 2 = some (.file 1) := rfl
  have hx : fs.readInode (2 : ℕ) = some (fs.inode 2) := readInode_inode d.superblock (by decide)
  have hfile : (fs.inode 2).type = typeFile := by
    obtain ⟨v, hs, hr⟩ := hst
    exact (hr.type_eq_file hnode (hs.inode 2 (by decide) (by decide))).2 ⟨1, rfl⟩
  exact ⟨fs, b, hmkfs, (rmRemoves_iff d (by decide) ⟨by decide, by decide, by decide⟩
    (List.mem_append_right _ List.mem_cons_self) (by decide) hx hfile (hst.mapsHold hnode)).2
      (.inl (by decide))⟩

/-- A card whose working directory has one name, of the last inode. -/
def lastCard : Fs :=
  fileCard { fileInode 0 (fun i => if i = 0 then 70 else 0) with type := typeDirectory } Fdesc.zero
    fun _ => setDentry Bytes.zero 0 4096 [97]

/-- The name of the last inode is not removed. -/
theorem rm_last_undefined :
    ∃ fs x, lastCard.writeInode ninodes (fileInode 0 fun _ => 0) = some fs ∧
      fs.OneBlock 1 70 [⟨true, ninodes, [97]⟩] ∧ fs.readInode ninodes = some x ∧
      x.type = typeFile ∧ MapsHold x ∧ ¬ fs.RmRemoves 1 70 ninodes [97] := by
  have hlast : 1 ≤ ninodes ∧ ninodes ≤ ninodes := by decide
  have hfile := @inRange_fileInode 0 (fun _ => 0) (by decide) fun _ _ => by decide
  have hroot := @inRange_fileInode 0 (fun i => if i = 0 then 70 else 0) (by decide)
    fun i _ => by split <;> decide
  obtain ⟨r, hr, hagree⟩ := @readInode_fileCard
    { fileInode 0 (fun i => if i = 0 then 70 else 0) with type := typeDirectory } Fdesc.zero
    (fun _ => setDentry Bytes.zero 0 4096 [97])
    ⟨⟨by decide, hroot.ref, hroot.direct⟩, hroot.permission, hroot.size, hroot.timeCreated,
      hroot.indirect, hroot.doubleIndirect⟩
  have hr₁ := Option.some.inj ((readInode_inode (n := 1) rfl (by decide)).symm.trans hr)
  obtain ⟨fs, hwrite, hw, -, -, -, hothers⟩ := @writeInode_spec lastCard ninodes rfl hlast
    (fileInode 0 fun _ => 0)
  have hsb : fs.superblock = mkfsSuperblock := hw.superblock
  have hnew := agree_inode_writeInode rfl hlast hfile hwrite
  have hblock : fs.block 70 = lastCard.block 70 := hw.block (.inr (by decide))
  have hbuf : IsDir (fs.block 70) [⟨true, ninodes, [97]⟩] := by
    have hone : IsDir (setDentry Bytes.zero 0 ninodes [97]) [⟨true, ninodes, [97]⟩] :=
      isDir_zero.append (by decide) [97] (by decide) (by decide) (by decide) (by decide) (by decide)
    refine hone.congr fun y hy => ?_
    rw [hblock]
    exact block_fileCard le_rfl hy
  have d : fs.OneBlock 1 70 [⟨true, ninodes, [97]⟩] := by
    refine ⟨hsb, hw.cwdInum, by decide, ?_, ⟨le_rfl, by decide⟩, hbuf, by decide,
      List.pairwise_singleton _ _⟩
    rw [(hothers 1 (by decide) (by decide)).direct 0 (by decide)]
    exact (congrArg (Inode.direct · 0) hr₁).trans (hagree.direct 0 (by decide))
  have hx : fs.readInode ninodes = some (fs.inode ninodes) := readInode_inode hsb hlast
  refine ⟨fs, _, hwrite, d, hx, hnew.type, fun i hi => ?_, ?_⟩
  · rw [hnew.direct i hi]
    exact (by decide : 0 < nbitsPerSector * (nsectorsBmap + nsectorsImap))
  · rintro ⟨fs', hrm, -⟩
    rw [d.doRm_last (by decide) ⟨by decide, by decide, by decide⟩ List.mem_cons_self hx hnew.type
      hnew.ref] at hrm
    cases hrm

end Fs
end UcasKernel
