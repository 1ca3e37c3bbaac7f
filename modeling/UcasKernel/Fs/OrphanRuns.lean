/-
Inodes and the paths that lead to them, over runs of calls.

`do_rmdir` frees the inode of a directory whatever the directory holds and however
many entries lead to it.  From the state `do_mkfs` leaves, as long as it is called
for empty directories with one name only, `alloc_inode` for a map that is not
exhausted, `parse_path` without a name that holds a separator, and `do_ln` with a
name that fits into an entry, the inodes in use are those that are reached from the
root directory.
-/
import UcasKernel.Fs.LinkRuns
import UcasKernel.Fs.Orphans

namespace UcasKernel
namespace Fs

/-! ## Reachability on the card -/

/-- The inode numbers that valid entries lead to from the root directory. -/
inductive Reaches (fs : Fs) : ℕ → Prop
  | root : fs.Reaches 1
  | entry {d n i j : ℕ} {inode : Inode} (hd : fs.Reaches d) (hread : fs.readInode d = some inode)
    (hdir : inode.type = typeDirectory) (hi : i < ndirectBlocks) (hblock : inode.direct i ≠ 0)
    (hj : j < maxEntries)
    (hvalid : dentryValid (fs.readBlock (inode.direct i)).blockBuf j = some true)
    (hinum : dentryInum (fs.readBlock (inode.direct i)).blockBuf j = some n) : fs.Reaches n

/-- The path has no separator, or the working directory has no entry for it. -/
def PlainPath (fs : Fs) (path : List UInt8) : Prop := 47 ∉ path ∨ ¬ fs.NameTaken path

/-- A directory that the path resolves to is not the working directory, has no
valid entry besides `.` and `..`, and only its own `.` and one entry lead to it. -/
def EmptyDirectory (s : History) (path : List UInt8) : Prop :=
  ∀ (n : ℤ) (fs' : Fs) (inode : Inode), s.fs.parsePath path s.fs.cwdInum = some (n, fs') →
    fs'.readInode n = some inode → inode.type ≠ typeFile →
      n ≠ s.fs.cwdInum ∧ s.links n.toNat = 2 ∧
      ∀ j, 2 ≤ j → j < maxEntries →
        dentryValid (fs'.readBlock (inode.direct 0)).blockBuf j ≠ some true

/-- A call that leaves no inode without a path. -/
def Careful (s : History) : Syscall → Prop
  | .touch path | .mkdir path =>
    dentryNameLen < path.1.length ∨ s.fs.NameTaken path.1 ∨ s.fs.MapOpen imapSector 1
  | .cd path | .rm path => s.fs.PlainPath path.1
  | .ln srcPath dstPath =>
    srcPath.1 = dstPath.1 ∨ s.fs.PlainPath srcPath.1 ∧ dstPath.1.length ≤ 27
  | .rmdir path => s.fs.PlainPath path.1 ∧ EmptyDirectory s path.1
  | _ => False

section Reaches

variable {s : History} {t : Tree} {n : ℕ}

/-- What is reached on the card is what is reached in the tree. -/
lemma Tracks.reaches_iff (h : Tracks s t) (hclosed : ∀ d, t.Closed (t.entries d))
    (hroot : t.node 1 ≠ none) : s.fs.Reaches n ↔ t.Reach n := by
  obtain ⟨v, hs, hr⟩ := h.stores
  constructor
  · intro hn
    induction hn with
    | root => exact .root
    | @entry d n i j inode _ hread hdir hi hblock hj hvalid hinum ih =>
      have hd : t.node d ≠ none := ih.mem_of_closed (S := fun k => t.node k ≠ none) hroot
        fun d _ e he hv => hclosed d e he hv
      obtain ⟨nd, hnode⟩ := Option.ne_none_iff_exists'.1 hd
      cases nd with
      | file ref =>
        obtain ⟨h1, h2, -⟩ := hs.nodeBounds hr hnode
        obtain ⟨x, hx, hsame, -⟩ := hs.readInode h1 h2
        obtain rfl := Option.some.inj (hread.symm.trans hx)
        rw [(hr.type_eq_file hnode hsame).2 ⟨ref, rfl⟩] at hdir
        exact absurd hdir (by decide)
      | dir es =>
        obtain ⟨x, b, o⟩ := hs.opened hr hnode
        obtain rfl := Option.some.inj (hread.symm.trans o.inode)
        have hat : DirAt v d es := hr.node d _ hnode
        obtain rfl : i = 0 := by
          by_contra hi0
          exact hblock ((o.same.direct i hi).trans (hat.rest i (by omega) hi))
        rw [o.first] at hvalid hinum
        obtain ⟨hlt, hv, rfl⟩ := (o.buf.valid_iff hj n).1 ⟨hvalid, hinum⟩
        refine ih.entry ?_ hv
        rw [Tree.entries_of_node hnode]
        exact List.getElem_mem hlt
  · intro hn
    induction hn with
    | root => exact .root
    | @entry d e _ he hvalid ih =>
      obtain ⟨es, hnode⟩ := Tree.exists_dir_of_mem he
      rw [Tree.entries_of_node hnode] at he
      obtain ⟨j, hj, rfl⟩ := List.mem_iff_getElem.1 he
      obtain ⟨x, b, o⟩ := hs.opened hr hnode
      have hat : DirAt v d es := hr.node d _ hnode
      have hj' : j < maxEntries := hj.trans_le o.buf.length
      obtain ⟨hv, hinum⟩ := (o.buf.valid_iff hj' es[j].inum).2 ⟨hj, hvalid, rfl⟩
      refine .entry ih o.inode (o.same.type.trans hat.type) (i := 0) (j := j) (by decide) ?_ hj' ?_ ?_
      · rw [o.first]
        exact o.ne_zero
      · rwa [o.first]
      · rwa [o.first]

end Reaches

/-! ## One call -/

/-- The inodes of the tree are those in use, and all are reached. -/
structure NoOrphans (s : History) (t : Tree) : Prop where
  tracks : Tracks s t
  rooted : Rooted t

section Step

variable {s s' : History} {t : Tree} {es : List Entry} {path : Path}

lemma History.step_none {call : Syscall} (h : s.fs.syscall call = none) : s.step call = none := by
  rw [step, h]
  rfl

/-- The path names an entry of the working directory or none. -/
lemma Stores.plain (h : s.fs.Stores t) (hc : t.node t.cwd = some (.dir es))
    (hplain : s.fs.PlainPath path.1) : Plain es path.1 := by
  refine hplain.imp_right fun hnot => ?_
  rw [h.nameTaken_iff hc path.2, not_exists] at hnot
  cases hfirst : firstNamed es path.1 with
  | none => rfl
  | some j => exact absurd hfirst (hnot j)

lemma NoOrphans.cwd (h : NoOrphans s t) : ∃ es, t.node t.cwd = some (.dir es) ∧ t.Closed es := by
  obtain ⟨es, hc⟩ := h.rooted.linked.cwd
  refine ⟨es, hc, ?_⟩
  have hclosed := h.rooted.linked.closed t.cwd
  rwa [Tree.entries_of_node hc] at hclosed

/-- The inodes in use are those that are reached. -/
lemma NoOrphans.allocated_iff (h : NoOrphans s t) (n : ℕ) : s.Allocated n ↔ s.fs.Reaches n := by
  have hroot : t.node 1 ≠ none := by
    obtain ⟨es, hroot⟩ := h.rooted.root
    rw [hroot]
    exact Option.some_ne_none _
  rw [h.tracks.allocated_iff, h.tracks.reaches_iff h.rooted.linked.closed hroot, h.rooted.node_iff]

/-- A call that leaves the tree. -/
lemma NoOrphans.same {call : Syscall} {fs' : Fs} (h : NoOrphans s t)
    (hcall : s.fs.syscall call = some fs') (hret : s.fs.returnedBy call = [])
    (hst : fs'.Stores t) (hstep : s.step call = some s') : NoOrphans s' t := by
  rw [History.step_old hcall hret, Option.some.injEq] at hstep
  subst hstep
  exact ⟨h.tracks.next hst fun _ => id, h.rooted⟩

lemma NoOrphans.touch (h : NoOrphans s t) (hC : Careful s (.touch path))
    (hstep : s.step (.touch path) = some s') : ∃ t', NoOrphans s' t' := by
  obtain ⟨es, hc, -⟩ := h.cwd
  have hst := h.tracks.stores
  by_cases href : path.1.length > dentryNameLen ∨ ∃ j, firstNamed es path.1 = some j
  · obtain ⟨fs', htouch, hst'⟩ := hst.doTouch_refused hc path.2 href
    rw [History.step_touch htouch, Option.some.injEq] at hstep
    subst hstep
    exact ⟨t, h.tracks.next hst' fun _ => id, h.rooted⟩
  · push Not at href
    obtain ⟨hlen, hfirst⟩ := href
    have hnone : firstNamed es path.1 = none := Option.eq_none_iff_forall_ne_some.2 hfirst
    rw [Careful, hst.nameTaken_iff hc path.2] at hC
    obtain hopen : s.fs.MapOpen imapSector 1 := by
      rcases hC with hlong | ⟨j, hj⟩ | hopen
      · exact absurd hlong (by omega)
      · exact absurd hj (hfirst j)
      · exact hopen
    by_cases hroom : HasRoom es path.1
    · obtain ⟨n, fs', htouch, halloc, hn, hhanded, hst'⟩ :=
        hst.doTouch hc path.2 hlen hnone hopen hroom
      rw [History.step_touch htouch, if_pos rfl, halloc, Int.toNat_natCast, Option.some.injEq]
        at hstep
      subst hstep
      exact ⟨_, h.tracks.created h.rooted.linked.cwd hn hhanded hst',
        h.rooted.create hn hhanded.2.1 (fun r hr => (Node.file.inj hr).symm) fun _ hes => by cases hes⟩
    · rw [History.step_none (by rw [syscall, hst.doTouch_full hc path.2 hlen hnone hopen hroom]; rfl)]
        at hstep
      cases hstep

lemma NoOrphans.mkdir (h : NoOrphans s t) (hC : Careful s (.mkdir path))
    (hstep : s.step (.mkdir path) = some s') : ∃ t', NoOrphans s' t' := by
  obtain ⟨es, hc, -⟩ := h.cwd
  have hst := h.tracks.stores
  by_cases href : path.1.length > dentryNameLen ∨ ∃ j, firstNamed es path.1 = some j
  · obtain ⟨fs', hmkdir, hst'⟩ := hst.doMkdir_refused hc path.2 href
    rw [History.step_mkdir hmkdir, Option.some.injEq] at hstep
    subst hstep
    exact ⟨t, h.tracks.next hst' fun _ => id, h.rooted⟩
  · push Not at href
    obtain ⟨hlen, hfirst⟩ := href
    have hnone : firstNamed es path.1 = none := Option.eq_none_iff_forall_ne_some.2 hfirst
    rw [Careful, hst.nameTaken_iff hc path.2] at hC
    obtain hopen : s.fs.MapOpen imapSector 1 := by
      rcases hC with hlong | ⟨j, hj⟩ | hopen
      · exact absurd hlong (by omega)
      · exact absurd hj (hfirst j)
      · exact hopen
    by_cases hroom : HasRoom es path.1
    · obtain ⟨n, fs', hmkdir, halloc, hn, hhanded, hst'⟩ :=
        hst.doMkdir hc path.2 hlen hnone hopen hroom
      rw [History.step_mkdir hmkdir, if_pos rfl, halloc, Int.toNat_natCast, Option.some.injEq]
        at hstep
      subst hstep
      exact ⟨_, h.tracks.created h.rooted.linked.cwd hn hhanded hst',
        h.rooted.create hn hhanded.2.1 (fun _ hr => by cases hr)
          fun es' hes => (Node.dir.inj hes).symm⟩
    · rw [History.step_none (by rw [syscall, hst.doMkdir_full hc path.2 hlen hnone hopen hroom]; rfl)]
        at hstep
      cases hstep

/-- What a path leads to: nothing, the working directory, or the inode of the first
entry with the name. -/
lemma Tree.Closed.lookup_cases (hclosed : t.Closed es) {m : ℕ}
    (hm : lookup es t.cwd path.1 = some m) :
    m = 0 ∨ path.1 = [] ∧ m = t.cwd ∨
      ∃ (j : ℕ) (hj : j < es.length) (nd : Node), firstNamed es path.1 = some j ∧
        es[j].valid = true ∧ es[j].inum = m ∧ t.node m = some nd := by
  by_cases hm0 : m = 0
  · exact .inl hm0
  · rcases lookup_pos hm hm0 with hcwd | ⟨j, hj, hfirst, rfl⟩
    · exact .inr (.inl hcwd)
    · obtain ⟨_, hvalid, -⟩ := firstNamed_valid hfirst
      obtain ⟨nd, hnd⟩ := Option.ne_none_iff_exists'.1 (hclosed _ (List.getElem_mem hj) hvalid)
      exact .inr (.inr ⟨j, hj, nd, hfirst, hvalid, rfl, hnd⟩)

/-- An inode that a path leads to is in use. -/
lemma Tree.Closed.lookup_node (hclosed : t.Closed es)
    (hc : t.node t.cwd = some (.dir es)) {m : ℕ} (hm : lookup es t.cwd path.1 = some m) (hm0 : m ≠ 0) :
    ∃ nd, t.node m = some nd := by
  rcases hclosed.lookup_cases hm with h0 | ⟨-, rfl⟩ | ⟨-, -, nd, -, -, -, hnd⟩
  · exact absurd h0 hm0
  · exact ⟨_, hc⟩
  · exact ⟨nd, hnd⟩

lemma NoOrphans.cd (h : NoOrphans s t) (hC : Careful s (.cd path))
    (hstep : s.step (.cd path) = some s') : ∃ t', NoOrphans s' t' := by
  obtain ⟨es, hc, hclosed⟩ := h.cwd
  have hst := h.tracks.stores
  have hplain := hst.plain hc hC
  cases hm : lookup es t.cwd path.1 with
  | none =>
    rw [History.step_none (by rw [syscall, hst.doCd_none hc path.2 hplain hclosed hm]; rfl)] at hstep
    cases hstep
  | some m =>
    have hrefused : m = 0 ∨ (∃ ref, t.node m = some (.file ref)) → NoOrphans s' t := by
      intro href
      obtain ⟨fs', hcd, hst'⟩ := hst.doCd_refused hc path.2 hplain hclosed hm href
      exact h.same (by rw [syscall, hcd]; rfl) rfl hst' hstep
    by_cases hm0 : m = 0
    · exact ⟨t, hrefused (.inl hm0)⟩
    · obtain ⟨nd, hnd⟩ := hclosed.lookup_node hc hm hm0
      cases nd with
      | file ref => exact ⟨t, hrefused (.inr ⟨ref, hnd⟩)⟩
      | dir es' =>
        obtain ⟨fs', hcd, hst'⟩ := hst.doCd hc path.2 hplain hclosed hm hnd
        rw [History.step_old (by rw [syscall, hcd]; rfl) rfl, Option.some.injEq] at hstep
        subst hstep
        exact ⟨_, h.tracks.next hst' fun _ => id, h.rooted.cd hnd⟩

lemma NoOrphans.ln {dst : Path} (h : NoOrphans s t) (hC : Careful s (.ln path dst))
    (hstep : s.step (.ln path dst) = some s') : ∃ t', NoOrphans s' t' := by
  obtain ⟨es, hc, hclosed⟩ := h.cwd
  have hst := h.tracks.stores
  by_cases hsame : path.1 = dst.1
  · have hcall : s.fs.syscall (.ln path dst) = some s.fs := by
      rw [syscall, hsame, doLn_same]
      rfl
    exact ⟨t, h.same hcall rfl hst hstep⟩
  obtain ⟨hplain, hlen⟩ := hC.resolve_left hsame
  have hplain := hst.plain hc hplain
  have hnone : s.fs.doLn path.1 dst.1 = none → False := by
    intro hln
    rw [History.step_none (by rw [syscall, hln]; rfl)] at hstep
    cases hstep
  cases hm : lookup es t.cwd path.1 with
  | none => exact (hnone (hst.doLn_none hc path.2 hplain hclosed hsame (.inl hm))).elim
  | some m =>
    by_cases hm0 : m = 0
    · subst hm0
      exact (hnone (hst.doLn_none hc path.2 hplain hclosed hsame (.inr hm))).elim
    · obtain ⟨nd, hnd⟩ := hclosed.lookup_node hc hm hm0
      by_cases hroom : HasRoom es dst.1
      · obtain ⟨fs', hln, hst'⟩ := hst.doLn hc path.2 hplain hclosed hsame hm hnd
          (fun ref href => by
            subst href
            rw [(h.rooted.linked.exact m ref hnd).1]
            exact hst.links_lt m) dst.2 hlen hroom
        rw [History.step_old (by rw [syscall, hln]; rfl) rfl, Option.some.injEq] at hstep
        subst hstep
        refine ⟨_, h.tracks.next hst' fun k hk => ?_, h.rooted.ln hnd⟩
        rwa [ne_eq, node_bump_eq_none, node_enter_eq_none hc] at hk
      · exact (hnone (hst.doLn_full hc path.2 hplain hclosed hsame hm hnd hroom)).elim

lemma NoOrphans.rm (h : NoOrphans s t) (hC : Careful s (.rm path))
    (hstep : s.step (.rm path) = some s') : ∃ t', NoOrphans s' t' := by
  obtain ⟨es, hc, hclosed⟩ := h.cwd
  have hst := h.tracks.stores
  have hplain := hst.plain hc hC
  cases hm : lookup es t.cwd path.1 with
  | none =>
    rw [History.step_none (by rw [syscall, hst.doRm_none hc path.2 hplain hclosed hm]; rfl)] at hstep
    cases hstep
  | some m =>
    have hrefused : m = 0 ∨ (∃ es', t.node m = some (.dir es')) → NoOrphans s' t := by
      intro href
      obtain ⟨fs', hrm, hst'⟩ := hst.doRm_refused hc path.2 hplain hclosed hm href
      exact h.same (by rw [syscall, hrm]; rfl) rfl hst' hstep
    rcases hclosed.lookup_cases hm with hm0 | ⟨-, rfl⟩ | ⟨j, hj, nd, hfirst, hvalid, rfl, hnd⟩
    · exact ⟨t, hrefused (.inl hm0)⟩
    · exact ⟨t, hrefused (.inr ⟨es, hc⟩)⟩
    · cases nd with
      | dir es' => exact ⟨t, hrefused (.inr ⟨es', hnd⟩)⟩
      | file ref =>
        obtain ⟨fs', hrm, hst'⟩ := hst.doRm hc path.2 hplain hclosed hm hnd
          (h.rooted.linked.exact _ ref hnd).2 hfirst
        obtain ⟨-, -, hnone, -⟩ := h.rooted.linked.unlink_drop hc hj hvalid hnd
        rw [History.step_old (by rw [syscall, hrm]; rfl) rfl, Option.some.injEq] at hstep
        subst hstep
        exact ⟨_, h.tracks.next hst' fun k hk hk' => hk ((hnone k).2 (.inl hk')),
          h.rooted.rm hc hj hvalid hnd⟩

/-- The directory `do_rmdir` removes is removable. -/
lemma NoOrphans.removable (h : NoOrphans s t) (hc : t.node t.cwd = some (.dir es))
    (hclosed : t.Closed es) (hplain : Plain es path.1) (hempty : EmptyDirectory s path.1) {m : ℕ}
    {es' : List Entry} (hm : lookup es t.cwd path.1 = some m) (hnd : t.node m = some (.dir es')) :
    ∃ (j : ℕ) (hj : j < es.length), firstNamed es path.1 = some j ∧ es[j].valid = true ∧
      es[j].inum = m ∧ Removable t es m es' := by
  obtain ⟨v, fs₁, hs, hs₁, hr, hparse⟩ := h.tracks.stores.parsePath hc path.2 hplain hclosed
  obtain ⟨x, b, o⟩ := hs₁.opened hr hnd
  have hdir : x.type ≠ typeFile := by
    rw [ne_eq, hr.type_eq_file hnd o.same]
    rintro ⟨ref, heq⟩
    cases heq
  rw [hm] at hparse
  obtain ⟨hne, hlinks, hrest⟩ := hempty m fs₁ x hparse o.inode hdir
  rw [hs.cwdInum, hr.cwd, ne_eq, Nat.cast_inj] at hne
  rw [Int.toNat_natCast, h.tracks.links_eq] at hlinks
  rcases hclosed.lookup_cases hm with rfl | ⟨-, rfl⟩ | ⟨j, hj, -, hfirst, hvalid, hinum, -⟩
  · exact absurd (hs.nodeBounds hr hnd).1 (by omega)
  · exact absurd rfl hne
  · refine ⟨j, hj, hfirst, hvalid, hinum, hnd, hne, ⟨_, List.getElem_mem hj, hvalid, hinum⟩, hlinks,
      fun e he => ?_⟩
    obtain ⟨i, hi, rfl⟩ := List.mem_iff_getElem.1 he
    rw [List.length_drop] at hi
    rw [List.getElem_drop, ← Bool.not_eq_true]
    intro hv
    have hlt : 2 + i < es'.length := by omega
    have hentry := (o.buf.valid_iff (hlt.trans_le o.buf.length) _).2 ⟨hlt, hv, rfl⟩
    rw [← o.first] at hentry
    exact hrest (2 + i) (by omega) (hlt.trans_le o.buf.length) hentry.1

lemma NoOrphans.rmdir (h : NoOrphans s t) (hC : Careful s (.rmdir path))
    (hstep : s.step (.rmdir path) = some s') : ∃ t', NoOrphans s' t' := by
  obtain ⟨es, hc, hclosed⟩ := h.cwd
  have hst := h.tracks.stores
  have hplain := hst.plain hc hC.1
  have hnone : s.fs.doRmdir path.1 = none → False := by
    intro hrmdir
    rw [History.step_none (by rw [syscall, hrmdir]; rfl)] at hstep
    cases hstep
  cases hm : lookup es t.cwd path.1 with
  | none => exact (hnone (hst.doRmdir_none hc path.2 hplain hclosed (.inl hm))).elim
  | some m =>
    by_cases hm0 : m = 0
    · subst hm0
      exact (hnone (hst.doRmdir_none hc path.2 hplain hclosed (.inr hm))).elim
    · obtain ⟨nd, hnd⟩ := hclosed.lookup_node hc hm hm0
      cases nd with
      | file ref =>
        obtain ⟨fs', hrmdir, hst'⟩ := hst.doRmdir_refused hc path.2 hplain hclosed hm hnd
        exact ⟨t, h.same (by rw [syscall, hrmdir]; rfl) rfl hst' hstep⟩
      | dir es' =>
        obtain ⟨j, hj, hfirst, hvalid, rfl, hremovable⟩ :=
          h.removable hc hclosed hplain hC.2 hm hnd
        obtain ⟨fs', hrmdir, hst'⟩ := hst.doRmdir hc path.2 hplain hclosed hm hnd hfirst
        rw [History.step_old (by rw [syscall, hrmdir]; rfl) rfl, Option.some.injEq] at hstep
        subst hstep
        refine ⟨_, h.tracks.next hst' fun k hk hk' => hk ?_, h.rooted.rmdir hc hj hvalid hremovable⟩
        by_cases hkm : k = es[j].inum
        · rw [hkm, Tree.node_set_self]
        · rw [Tree.node_set_of_ne _ _ hkm, node_unlink_eq_none hc, hk']

/-- A careful call keeps the inodes in use reached. -/
lemma NoOrphans.step {call : Syscall} (h : NoOrphans s t) (hC : Careful s call)
    (hstep : s.step call = some s') : ∃ t', NoOrphans s' t' := by
  cases call with
  | touch path => exact h.touch hC hstep
  | mkdir path => exact h.mkdir hC hstep
  | cd path => exact h.cd hC hstep
  | ln srcPath dstPath => exact h.ln hC hstep
  | rm path => exact h.rm hC hstep
  | rmdir path => exact h.rmdir hC hstep
  | _ => exact hC.elim

end Step

/-! ## Runs -/

/-- The tree of the image is rooted. -/
lemma rooted_imageTree (fd : ℕ → Fdesc) : Rooted (imageTree fd) := by
  have hroot : (imageTree fd).entries 1 = freshEntries 1 1 ++ [⟨true, 2, bigfileName⟩] := rfl
  refine ⟨linked_imageTree fd, ⟨_, rfl⟩, fun n hn => ?_, fun n es hn => ?_⟩
  · obtain ⟨nd, hnd⟩ := Option.ne_none_iff_exists'.1 hn
    rcases imageTree_node fd hnd with ⟨rfl, -⟩ | ⟨rfl, -⟩
    · exact .root
    · exact Tree.Reach.entry (e := ⟨true, 2, bigfileName⟩) .root
        (hroot ▸ List.mem_append_right _ (List.mem_singleton.2 rfl)) rfl
  · rcases imageTree_node fd hn with ⟨rfl, heq⟩ | ⟨-, heq⟩
    · obtain rfl := Node.dir.inj heq
      exact ⟨1, [⟨true, 2, bigfileName⟩], rfl, .inl ⟨rfl, rfl⟩⟩
    · cases heq

/-- From the state `do_mkfs` leaves, in every run of careful calls the inodes in
use are, in every state reached, those that valid entries lead to from the root. -/
theorem allocated_iff_reaches (fs₀ : Fs) :
    ∃ fs, fs₀.doMkfs = some (0, fs) ∧
      ∀ calls, Trace.StepsMeet History.step Careful ⟨fs, [1, 2]⟩ calls →
        Trace.Always History.step (fun s => ∀ n, s.Allocated n ↔ s.fs.Reaches n) ⟨fs, [1, 2]⟩
          calls := by
  obtain ⟨fs, hmkfs, hstores⟩ := doMkfs_stores fs₀
  refine ⟨fs, hmkfs, fun calls hC => ?_⟩
  have himage : ∃ t, NoOrphans ⟨fs, [1, 2]⟩ t :=
    ⟨_, (exact_image _ hstores).tracks, rooted_imageTree _⟩
  refine (Trace.always_of_invariant (P := fun s => ∃ t, NoOrphans s t) ?_ himage hC).mono ?_
  · rintro s call s' ⟨t, h⟩ hcall hstep
    exact h.step hcall hstep
  · rintro s ⟨t, h⟩ n
    exact h.allocated_iff n

/-- A new file on a freshly formatted empty card is reached. -/
theorem allocated_iff_reaches_newFile :
    ∃ fs s, emptyCard.doMkfs = some (0, fs) ∧
      Trace.run History.step ⟨fs, [1, 2]⟩ [.touch ⟨[97], by decide⟩] = some s ∧
      ∀ n, s.Allocated n ↔ s.fs.Reaches n := by
  obtain ⟨fs, hmkfs, hruns⟩ := allocated_iff_reaches emptyCard
  have hstores := stores_of_doMkfs hmkfs
  have hopen : fs.MapOpen imapSector 1 :=
    hstores.mapOpen_iff.2 ⟨3, ⟨by decide, by decide, by decide⟩, rfl⟩
  have hc : (imageTree emptyCard.fdescArray).node (imageTree emptyCard.fdescArray).cwd =
    some (.dir (freshEntries 1 1 ++ [⟨true, 2, bigfileName⟩])) := rfl
  have hpath : 0 ∉ ([97] : List UInt8) := by decide
  obtain ⟨n, fs₁, htouch, -⟩ := hstores.doTouch hc hpath (by decide) rfl hopen
    ⟨by decide, by decide⟩
  have hstep := @History.step_touch ⟨fs, [1, 2]⟩ _ ⟨[97], hpath⟩ _ htouch
  have hall := hruns [.touch ⟨[97], by decide⟩]
    (Trace.stepsMeet_cons (.inr (.inr hopen)) fun _ _ => Trace.stepsMeet_nil _ _)
  exact ⟨fs, _, hmkfs, (Trace.run_singleton _ _).trans hstep,
    hall.last ((Trace.run_singleton _ _).trans hstep)⟩

/-- `rmdir .` in the root directory of a freshly formatted card frees the inode of the
root directory. -/
theorem rmdir_frees_root :
    ∃ fs s, emptyCard.doMkfs = some (0, fs) ∧
      Trace.run History.step ⟨fs, [1, 2]⟩ [.rmdir ⟨[46], by decide⟩] = some s ∧
      ¬ ∀ n, s.Allocated n ↔ s.fs.Reaches n := by
  obtain ⟨fs, hmkfs, hstores⟩ := doMkfs_stores emptyCard
  have htracks := (exact_image _ hstores).tracks
  have hc : (imageTree emptyCard.fdescArray).node (imageTree emptyCard.fdescArray).cwd =
    some (.dir (freshEntries 1 1 ++ [⟨true, 2, bigfileName⟩])) := rfl
  have hclosed := (linked_imageTree emptyCard.fdescArray).closed 1
  have hlook : lookup (freshEntries 1 1 ++ [⟨true, 2, bigfileName⟩]) 1 [46] = some 1 := rfl
  have hfirst : firstNamed (freshEntries 1 1 ++ [⟨true, 2, bigfileName⟩]) [46] = some 0 := rfl
  obtain ⟨fs', hrmdir, hst'⟩ := hstores.doRmdir hc (by decide) (.inl (by decide)) hclosed hlook hc
    hfirst
  have hcall : fs.syscall (.rmdir ⟨[46], by decide⟩) = some fs' :=
    (congrArg (Option.map fun r : ℤ × Fs => r.2) hrmdir :)
  refine ⟨fs, ⟨fs', [1, 2]⟩, hmkfs, ?_, fun hall => ?_⟩
  · rw [Trace.run_singleton]
    exact History.step_old hcall rfl
  · have htracks' : Tracks ⟨fs', [1, 2]⟩ _ := htracks.next hst' fun k hk hk' => hk ?_
    · exact (htracks'.allocated_iff 1).1 ((hall 1).2 .root) (Tree.node_set_self _ _ _)
    · by_cases hk1 : k = 1
      · rw [hk1]
        exact Tree.node_set_self _ _ _
      · rw [Tree.node_set_of_ne _ _ hk1, node_unlink_eq_none hc, hk']

end Fs
end UcasKernel
