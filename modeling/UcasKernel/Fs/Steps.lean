/-
What one call does to the tree.

`Edits` lists the ways in which a call can change the tree: every call that works on
inodes in use and returns is one of them.  An invariant of the runs is then proved by
cases on `Edits`, without looking at a call again.
-/
import UcasKernel.Fs.OrphanRuns

namespace UcasKernel
namespace Fs

/-- The working directory is a directory in use. -/
def CwdInUse (s : History) : Prop :=
  ∃ (n : ℕ) (inode : Inode), s.fs.cwdInum = n ∧ s.Allocated n ∧ s.fs.readInode n = some inode ∧
    inode.type = typeDirectory

/-- The path leads nowhere or to an inode in use. -/
def LeadsInUse (s : History) (path : Path) : Prop :=
  ∀ (n : ℤ) (fs' : Fs), s.fs.parsePath path.1 s.fs.cwdInum = some (n, fs') →
    n = 0 ∨ s.Allocated n.toNat

/-- A directory call that works on inodes in use, creates a file or a directory with a
free inode number, and links under a name that fits into an entry. -/
def WorksInUse (s : History) : Syscall → Prop
  | .touch path | .mkdir path => CwdInUse s ∧
    (dentryNameLen < path.1.length ∨ s.fs.NameTaken path.1 ∨ s.fs.MapOpen imapSector 1)
  | .cd path | .rm path | .rmdir path => CwdInUse s ∧ LeadsInUse s path
  | .ln srcPath dstPath => srcPath.1 = dstPath.1 ∨
    CwdInUse s ∧ LeadsInUse s srcPath ∧ dstPath.1.length ≤ 27
  | _ => False

/-- The tree after a directory call. -/
inductive Edits (fs : Fs) (t : Tree) : Syscall → Tree → Prop
  | same (call : Syscall) : Edits fs t call t
  | cd {path : Path} {m : ℕ} {es : List Entry} (hnode : t.node m = some (.dir es)) :
    Edits fs t (.cd path) { t with cwd := m }
  | touch {path : Path} {n : ℕ} {es : List Entry} (hc : t.node t.cwd = some (.dir es))
    (hnone : firstNamed es path.1 = none) (hn : t.node n = none) (hhanded : Handed ninodes n) :
    Edits fs t (.touch path) ((t.set n (some (.file 1))).enter path.1 n)
  | mkdir {path : Path} {n : ℕ} {es : List Entry} (hc : t.node t.cwd = some (.dir es))
    (hnone : firstNamed es path.1 = none) (hn : t.node n = none) (hhanded : Handed ninodes n) :
    Edits fs t (.mkdir path) ((t.set n (some (.dir (freshEntries n t.cwd)))).enter path.1 n)
  | lnFile {srcPath dstPath : Path} {m ref : ℕ} {es : List Entry} (hne : srcPath.1 ≠ dstPath.1)
    (hc : t.node t.cwd = some (.dir es)) (hnode : t.node m = some (.file ref)) :
    Edits fs t (.ln srcPath dstPath)
      ((t.enter dstPath.1 m).set m (some (.file ((ref + 1) % 2 ^ 32))))
  | lnDir {srcPath dstPath : Path} {m : ℕ} {es es' : List Entry} (hne : srcPath.1 ≠ dstPath.1)
    (hc : t.node t.cwd = some (.dir es)) (hnode : t.node m = some (.dir es')) :
    Edits fs t (.ln srcPath dstPath) (t.enter dstPath.1 m)
  | rm {path : Path} {m j ref : ℕ} {es : List Entry} (hc : t.node t.cwd = some (.dir es))
    (hnode : t.node m = some (.file ref))
    (hleads : ∃ fs', fs.parsePath path.1 fs.cwdInum = some ((m : ℤ), fs')) :
    Edits fs t (.rm path) ((t.unlink j).set m
      (if ref = 1 then none else some (.file ((ref + (2 ^ 32 - 1)) % 2 ^ 32))))
  | rmdir {path : Path} {m j : ℕ} {es es' : List Entry} (hc : t.node t.cwd = some (.dir es))
    (hnode : t.node m = some (.dir es'))
    (hleads : ∃ fs', fs.parsePath path.1 fs.cwdInum = some ((m : ℤ), fs')) :
    Edits fs t (.rmdir path) ((t.unlink j).set m none)

section Step

variable {s s' : History} {t : Tree} {es : List Entry} {path : Path}

/-- An inode in use is a node of the tree. -/
lemma Tracks.node (h : Tracks s t) {n : ℕ} (hall : s.Allocated n) :
    ∃ nd x, t.node n = some nd ∧ s.fs.readInode n = some x ∧
      (x.type = typeFile ↔ ∃ ref, nd = .file ref) := by
  obtain ⟨nd, hnode⟩ := Option.ne_none_iff_exists'.1 ((h.allocated_iff n).1 hall)
  obtain ⟨v, hs, hr⟩ := h.stores
  obtain ⟨h1, h2, -⟩ := hs.nodeBounds hr hnode
  obtain ⟨x, hx, hsame, -⟩ := hs.readInode h1 h2
  exact ⟨nd, x, hnode, hx, hr.type_eq_file hnode hsame⟩

lemma Tracks.file (h : Tracks s t) {n : ℕ} {x : Inode} (hall : s.Allocated n)
    (hread : s.fs.readInode n = some x) (htype : x.type = typeFile) :
    ∃ ref, t.node n = some (.file ref) := by
  obtain ⟨nd, y, hnode, hy, hiff⟩ := h.node hall
  obtain rfl := Option.some.inj (hread.symm.trans hy)
  obtain ⟨ref, rfl⟩ := hiff.1 htype
  exact ⟨ref, hnode⟩

lemma Tracks.dir (h : Tracks s t) {n : ℕ} {x : Inode} (hall : s.Allocated n)
    (hread : s.fs.readInode n = some x) (htype : x.type = typeDirectory) :
    ∃ es, t.node n = some (.dir es) := by
  obtain ⟨nd, y, hnode, hy, hiff⟩ := h.node hall
  obtain rfl := Option.some.inj (hread.symm.trans hy)
  cases nd with
  | dir es => exact ⟨es, hnode⟩
  | file ref =>
    rw [hiff.2 ⟨ref, rfl⟩] at htype
    exact absurd htype (by decide)

/-- The working directory of the tree. -/
lemma Tracks.cwd (h : Tracks s t) (hcwd : CwdInUse s) : ∃ es, t.node t.cwd = some (.dir es) := by
  obtain ⟨n, x, hn, hall, hread, hdir⟩ := hcwd
  obtain ⟨es, hnode⟩ := h.dir hall hread hdir
  obtain ⟨v, hs, hr⟩ := h.stores
  rw [hs.cwdInum, hr.cwd] at hn
  rw [Int.ofNat_inj.1 hn]
  exact ⟨es, hnode⟩

/-- A directory of the tree is a directory in use. -/
lemma Tracks.cwdInUse (h : Tracks s t) (hc : t.node t.cwd = some (.dir es)) : CwdInUse s := by
  have hall := (h.allocated_iff t.cwd).2 (by rw [hc]; exact Option.some_ne_none _)
  obtain ⟨v, hs, hr⟩ := h.stores
  obtain ⟨x, b, o⟩ := hs.opened hr hc
  have hat : DirAt v t.cwd es := hr.node t.cwd _ hc
  exact ⟨t.cwd, x, hs.cwdInum.trans hr.cwd, hall, o.inode, o.same.type.trans hat.type⟩

/-- A call that returns has resolved its path: to nothing or to a node of the tree. -/
lemma Tracks.resolved (h : Tracks s t) (hleads : LeadsInUse s path) {n : ℤ} {fs' : Fs}
    (hparse : s.fs.parsePath path.1 s.fs.cwdInum = some (n, fs')) :
    ∃ (v : Volume) (m : ℕ), n = m ∧ Resolved s.fs fs' v t path.1 m ∧
      (m = 0 ∨ ∃ nd, t.node m = some nd) := by
  have hm : ∃ m : ℕ, n = m ∧ (m = 0 ∨ ∃ nd, t.node m = some nd) := by
    rcases hleads n fs' hparse with rfl | hall
    · exact ⟨0, rfl, .inl rfl⟩
    · have hnode := (h.allocated_iff _).1 hall
      have hpos := (h.stores.handed hnode).1
      exact ⟨n.toNat, by omega, .inr (Option.ne_none_iff_exists'.1 hnode)⟩
  obtain ⟨m, rfl, hnode⟩ := hm
  obtain ⟨v, r⟩ := h.stores.resolved_of_parsePath hparse
  exact ⟨v, m, rfl, r, hnode⟩

/-- A call that makes no inode. -/
lemma Tracks.edited {call : Syscall} {fs' : Fs} {t' : Tree} (h : Tracks s t)
    (hcall : s.fs.syscall call = some fs') (hret : s.fs.returnedBy call = [])
    (hst : fs'.Stores t') (hsub : ∀ n, t'.node n ≠ none → t.node n ≠ none)
    (hedits : s.fs.Edits t call t') (hstep : s.step call = some s') :
    ∃ t', Tracks s' t' ∧ s.fs.Edits t call t' := by
  rw [History.step_old hcall hret, Option.some.injEq] at hstep
  subst hstep
  exact ⟨t', h.next hst hsub, hedits⟩

/-- A call that leaves the tree. -/
lemma Tracks.same {call : Syscall} {fs' : Fs} (h : Tracks s t)
    (hcall : s.fs.syscall call = some fs') (hret : s.fs.returnedBy call = [])
    (hst : fs'.Stores t) (hstep : s.step call = some s') : ∃ t', Tracks s' t' ∧ s.fs.Edits t call t' :=
  h.edited hcall hret hst (fun _ => id) (.same call) hstep

/-- The inode map is open when a new name is to be entered. -/
lemma Tracks.mapOpen (h : Tracks s t) (hc : t.node t.cwd = some (.dir es))
    (hfresh : dentryNameLen < path.1.length ∨ s.fs.NameTaken path.1 ∨ s.fs.MapOpen imapSector 1) :
    (path.1.length > dentryNameLen ∨ ∃ j, firstNamed es path.1 = some j) ∨
      path.1.length ≤ dentryNameLen ∧ firstNamed es path.1 = none ∧ s.fs.MapOpen imapSector 1 := by
  rw [h.stores.nameTaken_iff hc path.2] at hfresh
  by_cases href : path.1.length > dentryNameLen ∨ ∃ j, firstNamed es path.1 = some j
  · exact .inl href
  · push Not at href
    refine .inr ⟨href.1, Option.eq_none_iff_forall_ne_some.2 href.2, ?_⟩
    rcases hfresh with hlong | ⟨j, hj⟩ | hopen
    · exact absurd hlong (not_lt.2 href.1)
    · exact absurd hj (href.2 j)
    · exact hopen

lemma Tracks.touch (h : Tracks s t) (hC : WorksInUse s (.touch path))
    (hstep : s.step (.touch path) = some s') :
    ∃ t', Tracks s' t' ∧ s.fs.Edits t (.touch path) t' := by
  obtain ⟨es, hc⟩ := h.cwd hC.1
  rcases h.mapOpen hc hC.2 with href | ⟨hlen, hnone, hopen⟩
  · obtain ⟨fs', htouch, hst'⟩ := h.stores.doTouch_refused hc path.2 href
    rw [History.step_touch htouch, Option.some.injEq] at hstep
    subst hstep
    exact ⟨t, h.next hst' fun _ => id, .same _⟩
  by_cases hroom : HasRoom es path.1
  · obtain ⟨n, fs', htouch, halloc, hn, hhanded, hst'⟩ :=
      h.stores.doTouch hc path.2 hlen hnone hopen hroom
    rw [History.step_touch htouch, if_pos rfl, halloc, Int.toNat_natCast, Option.some.injEq] at hstep
    subst hstep
    exact ⟨_, h.created ⟨es, hc⟩ hn hhanded hst', .touch hc hnone hn hhanded⟩
  · rw [History.step_none
      (by rw [syscall, h.stores.doTouch_full hc path.2 hlen hnone hopen hroom]; rfl)] at hstep
    cases hstep

lemma Tracks.mkdir (h : Tracks s t) (hC : WorksInUse s (.mkdir path))
    (hstep : s.step (.mkdir path) = some s') :
    ∃ t', Tracks s' t' ∧ s.fs.Edits t (.mkdir path) t' := by
  obtain ⟨es, hc⟩ := h.cwd hC.1
  rcases h.mapOpen hc hC.2 with href | ⟨hlen, hnone, hopen⟩
  · obtain ⟨fs', hmkdir, hst'⟩ := h.stores.doMkdir_refused hc path.2 href
    rw [History.step_mkdir hmkdir, Option.some.injEq] at hstep
    subst hstep
    exact ⟨t, h.next hst' fun _ => id, .same _⟩
  by_cases hroom : HasRoom es path.1
  · obtain ⟨n, fs', hmkdir, halloc, hn, hhanded, hst'⟩ :=
      h.stores.doMkdir hc path.2 hlen hnone hopen hroom
    rw [History.step_mkdir hmkdir, if_pos rfl, halloc, Int.toNat_natCast, Option.some.injEq] at hstep
    subst hstep
    exact ⟨_, h.created ⟨es, hc⟩ hn hhanded hst', .mkdir hc hnone hn hhanded⟩
  · rw [History.step_none
      (by rw [syscall, h.stores.doMkdir_full hc path.2 hlen hnone hopen hroom]; rfl)] at hstep
    cases hstep

lemma Tracks.cd (h : Tracks s t) (hC : WorksInUse s (.cd path))
    (hstep : s.step (.cd path) = some s') : ∃ t', Tracks s' t' ∧ s.fs.Edits t (.cd path) t' := by
  cases hparse : s.fs.parsePath path.1 s.fs.cwdInum with
  | none =>
    rw [History.step_none (by rw [syscall, doCd, hparse]; rfl)] at hstep
    cases hstep
  | some p =>
    obtain ⟨v, m, -, r, hnode⟩ := h.resolved hC.2 hparse
    have hrefused : m = 0 ∨ (∃ ref, t.node m = some (.file ref)) →
        ∃ t', Tracks s' t' ∧ s.fs.Edits t (.cd path) t' :=
      fun href => h.same (by rw [syscall, r.doCd_refused href]; rfl) rfl r.stores hstep
    rcases hnode with hm | ⟨nd, hnode⟩
    · exact hrefused (.inl hm)
    cases nd with
    | file ref => exact hrefused (.inr ⟨ref, hnode⟩)
    | dir es' =>
      obtain ⟨fs', hcd, hst'⟩ := r.doCd hnode
      exact h.edited (by rw [syscall, hcd]; rfl) rfl hst' (fun _ => id) (.cd hnode) hstep

lemma Tracks.rm (h : Tracks s t) (hC : WorksInUse s (.rm path))
    (hstep : s.step (.rm path) = some s') : ∃ t', Tracks s' t' ∧ s.fs.Edits t (.rm path) t' := by
  obtain ⟨es, hc⟩ := h.cwd hC.1
  cases hparse : s.fs.parsePath path.1 s.fs.cwdInum with
  | none =>
    rw [History.step_none (by rw [syscall, doRm, hparse]; rfl)] at hstep
    cases hstep
  | some p =>
    obtain ⟨v, m, -, r, hnode⟩ := h.resolved hC.2 hparse
    have hrefused : m = 0 ∨ (∃ es', t.node m = some (.dir es')) →
        ∃ t', Tracks s' t' ∧ s.fs.Edits t (.rm path) t' :=
      fun href => h.same (by rw [syscall, r.doRm_refused href]; rfl) rfl r.stores hstep
    rcases hnode with hm | ⟨nd, hnode⟩
    · exact hrefused (.inl hm)
    cases nd with
    | dir es' => exact hrefused (.inr ⟨es', hnode⟩)
    | file ref =>
      obtain ⟨-, hm, -⟩ := r.node hnode
      have hne : path.1 ≠ [] := by
        intro hnil
        rw [r.eq_cwd hnil, hc] at hnode
        cases hnode
      obtain ⟨j, hfirst⟩ := r.named hc path.2 (by exact_mod_cast hm) hne
      obtain ⟨fs', hrm, -, hst'⟩ := r.doRm hc path.2 hnode hfirst
      refine h.edited (by rw [syscall, hrm]; rfl) rfl hst' (fun k hk => ?_)
        (.rm hc hnode ⟨_, r.parse⟩) hstep
      by_cases hkm : k = m
      · rw [hkm, hnode]
        exact Option.some_ne_none _
      · rwa [Tree.node_set_of_ne _ _ hkm, ne_eq, node_unlink_eq_none hc] at hk

lemma Tracks.rmdir (h : Tracks s t) (hC : WorksInUse s (.rmdir path))
    (hstep : s.step (.rmdir path) = some s') : ∃ t', Tracks s' t' ∧ s.fs.Edits t (.rmdir path) t' := by
  obtain ⟨es, hc⟩ := h.cwd hC.1
  have hnone : s.fs.doRmdir path.1 = none → ∃ t', Tracks s' t' ∧ s.fs.Edits t (.rmdir path) t' := by
    intro hrmdir
    rw [History.step_none (by rw [syscall, hrmdir]; rfl)] at hstep
    cases hstep
  cases hparse : s.fs.parsePath path.1 s.fs.cwdInum with
  | none => exact hnone (by rw [doRmdir, hparse]; rfl)
  | some p =>
    obtain ⟨v, m, -, r, hnode⟩ := h.resolved hC.2 hparse
    rcases hnode with hm | ⟨nd, hnode⟩
    · exact hnone (r.doRmdir_none hc hm)
    cases nd with
    | file ref => exact h.same (by rw [syscall, r.doRmdir_refused hc hnode]; rfl) rfl r.stores hstep
    | dir es' =>
      cases hfirst : firstNamed es path.1 with
      | none =>
        rcases r.doRmdir_unnamed hc path.2 hnode hfirst with hrmdir | ⟨fs', hrmdir, hst'⟩
        · exact hnone hrmdir
        · exact h.same (by rw [syscall, hrmdir]; rfl) rfl hst' hstep
      | some j =>
        obtain ⟨fs', hrmdir, hst'⟩ := r.doRmdir hc path.2 hnode hfirst
        refine h.edited (by rw [syscall, hrmdir]; rfl) rfl hst' (fun k hk => ?_)
          (.rmdir hc hnode ⟨_, r.parse⟩)
          hstep
        by_cases hkm : k = m
        · rw [hkm, Tree.node_set_self] at hk
          exact absurd rfl hk
        · rwa [Tree.node_set_of_ne _ _ hkm, ne_eq, node_unlink_eq_none hc] at hk

lemma Tracks.ln {dst : Path} (h : Tracks s t) (hC : WorksInUse s (.ln path dst))
    (hstep : s.step (.ln path dst) = some s') :
    ∃ t', Tracks s' t' ∧ s.fs.Edits t (.ln path dst) t' := by
  by_cases hsame : path.1 = dst.1
  · have hcall : s.fs.syscall (.ln path dst) = some s.fs := by
      rw [syscall, hsame, doLn_same]
      rfl
    exact h.same hcall rfl h.stores hstep
  obtain ⟨hcwd, hleads, hlen⟩ := hC.resolve_left hsame
  obtain ⟨es, hc⟩ := h.cwd hcwd
  have hnone : s.fs.doLn path.1 dst.1 = none → ∃ t', Tracks s' t' ∧ s.fs.Edits t (.ln path dst) t' := by
    intro hln
    rw [History.step_none (by rw [syscall, hln]; rfl)] at hstep
    cases hstep
  cases hparse : s.fs.parsePath path.1 s.fs.cwdInum with
  | none =>
    refine hnone ?_
    rw [doLn, if_neg hsame, hparse]
    rfl
  | some p =>
    obtain ⟨v, m, -, r, hnode⟩ := h.resolved hleads hparse
    rcases hnode with hm | ⟨nd, hnode⟩
    · exact hnone (r.doLn_none hsame hm)
    by_cases hroom : HasRoom es dst.1
    · cases nd with
      | file ref =>
        obtain ⟨fs', hln, hst'⟩ := r.doLn_file hsame hc hnode rfl dst.2 hlen hroom
        refine h.edited (by rw [syscall, hln]; rfl) rfl hst' (fun k hk => ?_) (.lnFile hsame hc hnode)
          hstep
        by_cases hkm : k = m
        · rw [hkm, hnode]
          exact Option.some_ne_none _
        · rwa [Tree.node_set_of_ne _ _ hkm, ne_eq, node_enter_eq_none hc] at hk
      | dir es' =>
        obtain ⟨fs', hln, hst'⟩ := r.doLn_dir hsame hc hnode rfl dst.2 hlen hroom
        refine h.edited (by rw [syscall, hln]; rfl) rfl hst' (fun k hk => ?_) (.lnDir hsame hc hnode)
          hstep
        rwa [ne_eq, node_enter_eq_none hc] at hk
    · exact hnone (r.doLn_full hsame hc hnode hroom)

/-- A directory call that works on inodes in use and returns edits the tree. -/
theorem Tracks.step {call : Syscall} (h : Tracks s t) (hC : WorksInUse s call)
    (hstep : s.step call = some s') : ∃ t', Tracks s' t' ∧ s.fs.Edits t call t' := by
  cases call with
  | touch path => exact h.touch hC hstep
  | mkdir path => exact h.mkdir hC hstep
  | cd path => exact h.cd hC hstep
  | ln srcPath dstPath => exact h.ln hC hstep
  | rm path => exact h.rm hC hstep
  | rmdir path => exact h.rmdir hC hstep
  | _ => exact hC.elim

end Step

end Fs
end UcasKernel
