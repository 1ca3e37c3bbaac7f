/-
Descriptors and working directories.

`fdesc_array` and the field `cwd_inum` of a PCB hold numbers of inodes.  `do_rm`, `do_rmdir`
and `do_mkfs` free inodes without a look at either, and `do_thread_create`, unlike
`do_exec`, leaves `cwd_inum` as the PCB had it before.  As long as no inode is freed that a
descriptor or a live PCB has, and new PCBs get a directory in use, every number stays that
of an inode in use, in every run of the scheduler and the file system together.
-/
import UcasKernel.Fs.Confinement
import UcasKernel.Sched.Threads

namespace UcasKernel
namespace Fs

/-! ## What an event does to the inodes -/

/-- Whether the node is a directory. -/
def Node.isDir : Node → Bool
  | .file _ => false
  | .dir _ => true

/-- Whether inode `m` is in use, and then whether it is a directory. -/
def Tree.kind (t : Tree) (m : ℕ) : Option Bool := (t.node m).map Node.isDir

/-- The inodes that a call frees. -/
inductive Frees (fs : Fs) (t : Tree) : Event → ℕ → Prop
  | rm {path : Path} {m : ℕ} (hnode : t.node m = some (.file 1))
    (hleads : ∃ fs', fs.parsePath path.1 fs.cwdInum = some ((m : ℤ), fs')) :
    Frees fs t (.call (.rm path)) m
  | rmdir {path : Path} {m : ℕ} {es : List Entry} (hnode : t.node m = some (.dir es))
    (hleads : ∃ fs', fs.parsePath path.1 fs.cwdInum = some ((m : ℤ), fs')) :
    Frees fs t (.call (.rmdir path)) m

section Kind

variable {fs : Fs} {t t' : Tree} {es : List Entry} {m n : ℕ} {nd : Option Node}

lemma Tree.kind_of_node {x : Node} (h : t.node m = some x) : t.kind m = some x.isDir := by
  rw [kind, h]
  rfl

lemma Tree.kind_eq_none : t.kind m = none ↔ t.node m = none := Option.map_eq_none_iff

lemma Tree.kind_eq_dir : t.kind m = some true ↔ ∃ es, t.node m = some (.dir es) := by
  constructor
  · intro h
    obtain ⟨x, hx, hdir⟩ := Option.map_eq_some_iff.1 h
    cases x with
    | file ref => cases hdir
    | dir es => exact ⟨es, hx⟩
  · rintro ⟨es, hm⟩
    exact kind_of_node hm

lemma Tree.kind_set_of_ne (nd : Option Node) (h : m ≠ n) : (t.set n nd).kind m = t.kind m := by
  rw [kind, node_set_of_ne t nd h, kind]

/-- A node that stays what it is. -/
lemma Tree.kind_set_of_eq (h : nd.map Node.isDir = t.kind n) (m : ℕ) :
    (t.set n nd).kind m = t.kind m := by
  by_cases hm : m = n
  · subst hm
    rw [kind, node_set_self, h]
  · exact kind_set_of_ne nd hm

lemma Tree.kind_enter (hc : t.kind t.cwd = some true) (name : List UInt8) (n m : ℕ) :
    (t.enter name n).kind m = t.kind m := by
  rw [enter]
  refine kind_set_of_eq ?_ m
  exact hc.symm

lemma Tree.kind_unlink (hc : t.kind t.cwd = some true) (j m : ℕ) :
    (t.unlink j).kind m = t.kind m := by
  rw [unlink]
  refine kind_set_of_eq ?_ m
  exact hc.symm

/-- A new node beside the working directory. -/
lemma Tree.kind_create {x : Node} (hc : t.node t.cwd = some (.dir es)) (hn : t.node n = none)
    (hm : t.kind m ≠ none) (name : List UInt8) :
    ((t.set n (some x)).enter name n).kind m = t.kind m := by
  have hcn : t.cwd ≠ n := by
    rintro heq
    rw [heq, hn] at hc
    cases hc
  have hmn : m ≠ n := by
    rintro rfl
    exact hm (kind_eq_none.2 hn)
  rw [kind_enter, kind_set_of_ne _ hmn]
  rw [Tree.cwd_set, kind_set_of_ne _ hcn]
  exact kind_of_node hc

/-- An edit frees what it frees, and every other inode stays what it is. -/
lemma Edits.kind {call : Syscall} (h : fs.Edits t call t') (hm : t.kind m ≠ none)
    (hkeep : ¬ fs.Frees t (.call call) m) : t'.kind m = t.kind m := by
  cases h with
  | same | cd => rfl
  | touch hc _ hn | mkdir hc _ hn => exact Tree.kind_create hc hn hm _
  | lnFile _ hc hnode =>
    refine (Tree.kind_set_of_eq ?_ m).trans (Tree.kind_enter (Tree.kind_of_node hc) _ _ m)
    rw [Tree.kind_enter (Tree.kind_of_node hc), Tree.kind_of_node hnode]
    rfl
  | lnDir _ hc => exact Tree.kind_enter (Tree.kind_of_node hc) _ _ m
  | @rm path k j ref _ hc hnode hleads =>
    have hunlink := Tree.kind_unlink (Tree.kind_of_node hc) j
    by_cases href : ref = 1
    · rw [if_pos href, Tree.kind_set_of_ne, hunlink]
      rintro rfl
      subst href
      exact hkeep (.rm hnode hleads)
    · rw [if_neg href, Tree.kind_set_of_eq, hunlink]
      rw [hunlink, Tree.kind_of_node hnode, Option.map_some]
      simp only [Node.isDir]
  | @rmdir path k j _ _ hc hnode hleads =>
    rw [Tree.kind_set_of_ne, Tree.kind_unlink (Tree.kind_of_node hc)]
    rintro rfl
    exact hkeep (.rmdir hnode hleads)

/-- The working directory after a call is the old one or a directory. -/
lemma Edits.cwd {call : Syscall} (h : fs.Edits t call t') :
    t'.cwd = t.cwd ∨ t'.kind t'.cwd = some true := by
  cases h with
  | cd hnode => exact .inr (Tree.kind_of_node hnode)
  | _ => exact .inl rfl

/-- What an event other than `do_mkfs` does to the handles. -/
structure Handles (fs : Fs) (t : Tree) (e : Event) (t' : Tree) : Prop where
  /-- An inode in use that is not freed stays what it is. -/
  kind : ∀ m, t.kind m ≠ none → ¬ fs.Frees t e m → t'.kind m = t.kind m
  /-- A descriptor that is opened gets an inode in use. -/
  fdesc : ∀ i, (t'.fdescArray i).inum ≠ 0 →
    (t'.fdescArray i).inum = (t.fdescArray i).inum ∨ t'.kind (t'.fdescArray i).inum.toNat ≠ none
  /-- A new working directory is a directory. -/
  cwd : t'.cwd = t.cwd ∨ t'.kind t'.cwd = some true

lemma handles_setFdesc {call : Syscall} {i : ℕ} {d : Fdesc}
    (hd : d.inum = 0 ∨ d.inum = (t.fdescArray i).inum ∨ t.node d.inum.toNat ≠ none) :
    fs.Handles t (.call call) (t.setFdesc i d) := by
  refine ⟨fun m _ _ => rfl, fun j hopen => ?_, .inl rfl⟩
  by_cases hj : j = i
  · subst hj
    have hself : (t.setFdesc j d).fdescArray j = d := Function.update_self _ _ _
    rw [hself] at hopen ⊢
    exact (hd.resolve_left hopen).imp_right (mt Tree.kind_eq_none.1)
  · have hother : (t.setFdesc i d).fdescArray j = t.fdescArray j := Function.update_of_ne hj _ _
    exact .inl (congrArg Fdesc.inum hother)

/-- Events other than `do_mkfs` and another process coming to run. -/
lemma Moves.handles {e : Event} (h : fs.Moves t e t') (hresume : ∀ n, e ≠ .resume n) :
    fs.Handles t e t' ∨ e = .mkfs ∧ t' = imageTree fs.fdescArray := by
  cases h with
  | same => exact .inl ⟨fun _ _ _ => rfl, fun _ _ => .inl rfl, .inl rfl⟩
  | edits hedits =>
    refine .inl ⟨fun m hm hkeep => hedits.kind hm hkeep, fun i _ => .inl ?_, hedits.cwd⟩
    rw [hedits.fdescArray]
  | fdesc hd => exact .inl (handles_setFdesc hd)
  | resume n => exact absurd rfl (hresume n)
  | mkfs => exact .inr ⟨rfl, rfl⟩

end Kind

/-! ## The system -/

/-- The scheduler, the file system, and `cwd_inum` of every PCB. -/
structure System where
  kernel : Sched.Kernel
  history : History
  cwdInum : Sched.Pcb → ℤ

/-- A step of the scheduler, or a call of the file system by the task that runs on a CPU. -/
inductive SystemEvent
  | sched (e : Sched.Event)
  | fs (cpuid : Sched.Cpu) (e : Event)

namespace System

/-- The file system while `p` is `current_running`. -/
def seenBy (x : System) (p : Sched.Pcb) : History :=
  { x.history with fs := { x.history.fs with cwdInum := x.cwdInum p } }

/-- `p->cwd_inum = current_running->cwd_inum` in `do_exec`, where `create_pcb` found a PCB and
a task.  `do_thread_create` has no such line. -/
def cwdAfter (x : System) : Sched.Event → Sched.Pcb → ℤ
  | .trap cpuid (.exec name) _ =>
    match x.kernel.findUnusedPcb, x.kernel.runnings cpuid with
    | some i, some current =>
      if name ∈ x.kernel.tasks then Function.update x.cwdInum (.slot i) (x.cwdInum current)
      else x.cwdInum
    | _, _ => x.cwdInum
  | _ => x.cwdInum

/-- A call by `p`, up to its return. -/
def call (x : System) (cpuid : Sched.Cpu) (p : Sched.Pcb) : Event → Option System
  | .resume _ => none
  | e => ((x.seenBy p).next e).map fun s =>
    { kernel := x.kernel.retFromKernel cpuid
      history := s
      cwdInum := Function.update x.cwdInum p s.fs.cwdInum }

/-- One step.  The idle tasks make no system calls. -/
def step (x : System) : SystemEvent → Option System
  | .sched e => (x.kernel.step e).map fun kernel =>
    { x with kernel := kernel, cwdInum := x.cwdAfter e }
  | .fs cpuid e =>
    if x.kernel.inKernel = none ∧ x.kernel.stuck = false then
      match x.kernel.runnings cpuid with
      | none => none
      | some p => if p ≠ Sched.idlePcb cpuid then x.call cpuid p e else none
    else none

/-- The shell runs on a card that `do_mkfs` has just formatted; the other PCBs are zero. -/
def boot (tasks : List (List UInt8)) (fs : Fs) : System where
  kernel := Sched.Kernel.boot tasks
  history := ⟨fs, [1, 2]⟩
  cwdInum := Function.update (fun _ => 0) (.slot 0) rootDirInum

/-- No descriptor and no working directory is left behind by its inode. -/
structure Sound (x : System) : Prop where
  fdescs : ∀ i < numFdescs, (x.history.fs.fdescArray i).inum ≠ 0 →
    ∃ n : ℕ, (x.history.fs.fdescArray i).inum = n ∧ x.history.fs.inodeAllocated n
  cwds : ∀ i, x.kernel.pid (.slot i) ≠ 0 →
    ∃ (n : ℕ) (inode : Inode), x.cwdInum (.slot i) = n ∧ 1 ≤ n ∧ n ≤ 4096 ∧
      x.history.fs.inodeAllocated n ∧ x.history.fs.readInode n = some inode ∧
      inode.type = typeDirectory

/-- No descriptor has inode `n`. -/
def Unopened (x : System) (n : ℤ) : Prop := ∀ i < numFdescs, (x.history.fs.fdescArray i).inum ≠ n

/-- What a call of `p` frees, and what `do_mkfs` does not make anew, is no handle. -/
def Spares (x : System) (p : Sched.Pcb) : Event → Prop
  | .call (.rm path) => ∀ n fs' inode,
    (x.seenBy p).fs.parsePath path.1 (x.cwdInum p) = some (n, fs') →
      (x.seenBy p).fs.readInode n = some inode → inode.type = typeFile → inode.ref = 1 →
        x.Unopened n
  | .call (.rmdir path) => ∀ n fs' inode,
    (x.seenBy p).fs.parsePath path.1 (x.cwdInum p) = some (n, fs') →
      (x.seenBy p).fs.readInode n = some inode → inode.type = typeDirectory →
        x.Unopened n ∧ ∀ i, x.kernel.pid (.slot i) ≠ 0 → x.cwdInum (.slot i) ≠ n
  | .mkfs =>
    (∀ i < numFdescs, (x.history.fs.fdescArray i).inum ≤ testBigFileInum) ∧
      ∀ i, x.kernel.pid (.slot i) ≠ 0 → .slot i ≠ p → x.cwdInum (.slot i) = rootDirInum
  | _ => True

/-- An event after which a new PCB has a directory in use, and that frees no handle. -/
def Safe (x : System) : SystemEvent → Prop
  | .sched (.trap cpuid (.exec _) _) =>
    ∀ p, x.kernel.runnings cpuid = some p → CwdInUse (x.seenBy p)
  | .sched (.trap _ .threadCreate _) =>
    ∀ i, x.kernel.findUnusedPcb = some i → CwdInUse (x.seenBy (.slot i))
  | .sched _ => True
  | .fs cpuid e => ∀ p, x.kernel.runnings cpuid = some p → InFile (x.seenBy p) e ∧ x.Spares p e

end System

/-! ## The invariant -/

namespace System

/-- Descriptors hold numbers of nodes, and working directories are directories. -/
structure Inv (x : System) (t : Tree) : Prop where
  formatted : Formatted x.history t
  /-- An open descriptor has a node. -/
  fdescs : ∀ i < numFdescs, (t.fdescArray i).inum ≠ 0 → t.kind (t.fdescArray i).inum.toNat ≠ none
  /-- A live PCB has a directory. -/
  cwds : ∀ i, x.kernel.pid (.slot i) ≠ 0 →
    ∃ n : ℕ, x.cwdInum (.slot i) = n ∧ t.kind n = some true
  /-- Any other PCB has some number. -/
  natural : ∀ p, ∃ n : ℕ, x.cwdInum p = n

variable {x x' : System} {t t' : Tree} {p : Sched.Pcb} {cpuid : Sched.Cpu}

/-- What `p` works on. -/
lemma Inv.seenBy (h : Inv x t) (p : Sched.Pcb) :
    ∃ n : ℕ, x.cwdInum p = n ∧ Formatted (x.seenBy p) { t with cwd := n } := by
  obtain ⟨n, hn⟩ := h.natural p
  refine ⟨n, hn, ?_⟩
  rw [System.seenBy, hn]
  exact h.formatted.setCwd n

/-- The working directory of `p`, when it is one in use. -/
lemma Inv.directory (h : Inv x t) (hcwd : CwdInUse (x.seenBy p)) :
    ∃ n : ℕ, x.cwdInum p = n ∧ t.kind n = some true := by
  obtain ⟨n, hn, hf⟩ := h.seenBy p
  obtain ⟨es, hnode⟩ := hf.tracks.cwd hcwd
  exact ⟨n, hn, Tree.kind_of_node hnode⟩

/-- The descriptors on the kernel side. -/
lemma Inv.fdescArray (h : Inv x t) : x.history.fs.fdescArray = t.fdescArray := by
  obtain ⟨v, hs, hr⟩ := h.formatted.tracks.stores
  rw [hs.fdescArray, hr.fdescArray]

lemma Inv.sound (h : Inv x t) : Sound x := by
  refine ⟨fun i hi hopen => ?_, fun i hi => ?_⟩
  · rw [h.fdescArray] at hopen ⊢
    have hkind := h.fdescs i hi hopen
    have hall := (h.formatted.tracks.allocated_iff _).2 (mt Tree.kind_eq_none.2 hkind)
    exact ⟨_, (Int.toNat_of_nonneg (h.formatted.fdescs i hi).nonneg).symm, hall.2⟩
  · obtain ⟨n, hn, hkind⟩ := h.cwds i hi
    obtain ⟨es, hnode⟩ := Tree.kind_eq_dir.1 hkind
    have hall := (h.formatted.tracks.allocated_iff n).2 (mt Tree.kind_eq_none.2 (by simp [hkind]))
    obtain ⟨v, hs, hr⟩ := h.formatted.tracks.stores
    obtain ⟨h1, h2, -⟩ := hs.nodeBounds hr hnode
    obtain ⟨inode, hread, hsame, -⟩ := hs.readInode h1 h2
    have hat : DirAt v n es := hr.node n _ hnode
    exact ⟨n, inode, hn, h1, h2, hall.2, hread, hsame.type.trans hat.type⟩

/-! ## A step of the scheduler -/

/-- Only the field of a PCB that was not in use changes. -/
lemma cwdAfter_cases (x : System) (e : Sched.Event) : x.cwdAfter e = x.cwdInum ∨
    ∃ i current, x.kernel.findUnusedPcb = some i ∧
      x.cwdAfter e = Function.update x.cwdInum (.slot i) (x.cwdInum current) := by
  cases e with
  | trap cpuid call env =>
    cases call with
    | exec name =>
      rw [cwdAfter]
      cases hfree : x.kernel.findUnusedPcb with
      | none => exact .inl rfl
      | some i =>
        cases x.kernel.runnings cpuid with
        | none => exact .inl rfl
        | some current =>
          dsimp only
          by_cases hname : name ∈ x.kernel.tasks
          · rw [if_pos hname]
            exact .inr ⟨i, current, rfl, rfl⟩
          · rw [if_neg hname]
            exact .inl rfl
    | _ => exact .inl rfl
  | resume | slaveJoin => exact .inl rfl

/-- A step of the scheduler keeps the invariant, when a PCB that it brings to life has a
directory. -/
lemma Inv.scheduled {k' : Sched.Kernel} {e : Sched.Event} (h : Inv x t)
    (hlive : ∀ i, k'.pid (.slot i) ≠ 0 → x.kernel.pid (.slot i) = 0 →
      ∃ n : ℕ, x.cwdAfter e (.slot i) = n ∧ t.kind n = some true) :
    Inv { x with kernel := k', cwdInum := x.cwdAfter e } t := by
  refine ⟨h.formatted, h.fdescs, fun i hi => ?_, fun q => ?_⟩
  · by_cases hold : x.kernel.pid (.slot i) = 0
    · exact hlive i hi hold
    · have hsame : x.cwdAfter e (.slot i) = x.cwdInum (.slot i) := by
        rcases x.cwdAfter_cases e with heq | ⟨j, current, hfree, heq⟩
        · rw [heq]
        · rw [heq, Function.update_of_ne]
          intro hij
          rw [hij] at hold
          exact hold (Sched.Kernel.findUnusedPcb_spec hfree)
      obtain ⟨n, hn, hkind⟩ := h.cwds i hold
      exact ⟨n, hsame.trans hn, hkind⟩
  · show ∃ n : ℕ, x.cwdAfter e q = n
    rcases x.cwdAfter_cases e with heq | ⟨j, current, -, heq⟩
    · rw [heq]
      exact h.natural q
    · rw [heq]
      by_cases hq : q = .slot j
      · rw [hq, Function.update_self]
        exact h.natural current
      · rw [Function.update_of_ne hq]
        exact h.natural q

lemma Inv.sched {k' : Sched.Kernel} {e : Sched.Event} (h : Inv x t) (hC : x.Safe (.sched e))
    (hstep : x.kernel.step e = some k') :
    Inv { x with kernel := k', cwdInum := x.cwdAfter e } t := by
  refine h.scheduled fun i hi hold => ?_
  cases Sched.Kernel.accounted_step hstep with
  | same _ hacc =>
    have hpid : k'.pid = x.kernel.pid := congrArg Prod.fst hacc
    rw [hpid] at hi
    exact absurd hold hi
  | @died p _ _ _ hacc =>
    have hpid : k'.pid = Function.update x.kernel.pid p 0 := congrArg Prod.fst hacc
    rw [hpid] at hi
    by_cases hip : .slot i = p
    · rw [hip, Function.update_self] at hi
      exact absurd rfl hi
    · rw [Function.update_of_ne hip] at hi
      exact absurd hold hi
  | @exec c name env j he hfree hname hacc =>
    have hpid : k'.pid = Function.update x.kernel.pid (.slot j) x.kernel.processId :=
      congrArg Prod.fst hacc
    rw [hpid] at hi
    by_cases hij : i = j
    · subst hij he
      cases hrun : x.kernel.runnings c with
      | none =>
        rw [Sched.Kernel.step, hrun] at hstep
        split at hstep <;> cases hstep
      | some p =>
        obtain ⟨n, hn, hkind⟩ := h.directory (hC p hrun)
        refine ⟨n, ?_, hkind⟩
        rw [cwdAfter, hfree, hrun]
        dsimp only
        rw [if_pos hname, Function.update_self]
        exact hn
    · rw [Function.update_of_ne (by simpa using hij)] at hi
      exact absurd hold hi
  | @threadCreate c env p j he hrun hfree hacc =>
    have hpid : k'.pid = Function.update x.kernel.pid (.slot j) (x.kernel.pid p) :=
      congrArg Prod.fst hacc
    rw [hpid] at hi
    by_cases hij : i = j
    · subst hij he
      exact h.directory (hC i hfree)
    · rw [Function.update_of_ne (by simpa using hij)] at hi
      exact absurd hold hi

/-! ## A call of the file system -/

/-- The inode of a file in the tree. -/
lemma file_inode {s : History} {m ref : ℕ} (h : Formatted s t)
    (hnode : t.node m = some (.file ref)) :
    ∃ inode, s.fs.readInode m = some inode ∧ inode.type = typeFile ∧ inode.ref = ref := by
  obtain ⟨v, hs, hr⟩ := h.tracks.stores
  obtain ⟨h1, h2, -⟩ := hs.nodeBounds hr hnode
  obtain ⟨inode, hread, hsame, -⟩ := hs.readInode h1 h2
  obtain ⟨htype, href⟩ := hr.node m _ hnode
  exact ⟨inode, hread, hsame.type.trans htype, hsame.ref.trans href⟩

/-- The inode of a directory in the tree. -/
lemma dir_inode {s : History} {m : ℕ} {es : List Entry} (h : Formatted s t)
    (hnode : t.node m = some (.dir es)) :
    ∃ inode, s.fs.readInode m = some inode ∧ inode.type = typeDirectory := by
  obtain ⟨v, hs, hr⟩ := h.tracks.stores
  obtain ⟨h1, h2, -⟩ := hs.nodeBounds hr hnode
  obtain ⟨inode, hread, hsame, -⟩ := hs.readInode h1 h2
  have hat : DirAt v m es := hr.node m _ hnode
  exact ⟨inode, hread, hsame.type.trans hat.type⟩

/-- An event that frees no handle: descriptors. -/
lemma Spares.fdesc {e : Event} {m n : ℕ} (hC : x.Spares p e)
    (h : Formatted (x.seenBy p) { t with cwd := n })
    (hfrees : (x.seenBy p).fs.Frees { t with cwd := n } e m) {i : ℕ} (hi : i < numFdescs) :
    (x.history.fs.fdescArray i).inum ≠ m := by
  cases hfrees with
  | rm hnode hleads =>
    obtain ⟨fs', hparse⟩ := hleads
    obtain ⟨inode, hread, htype, href⟩ := file_inode h hnode
    exact hC m fs' inode hparse hread htype href i hi
  | rmdir hnode hleads =>
    obtain ⟨fs', hparse⟩ := hleads
    obtain ⟨inode, hread, htype⟩ := dir_inode h hnode
    exact (hC m fs' inode hparse hread htype).1 i hi

/-- An event that frees no handle: working directories. -/
lemma Spares.cwd {e : Event} {m n : ℕ} (hC : x.Spares p e)
    (h : Formatted (x.seenBy p) { t with cwd := n })
    (hfrees : (x.seenBy p).fs.Frees { t with cwd := n } e m) (hkind : t.kind m = some true)
    {i : Sched.Slot} (hi : x.kernel.pid (.slot i) ≠ 0) : x.cwdInum (.slot i) ≠ m := by
  cases hfrees with
  | rm hnode hleads =>
    obtain ⟨es, hdir⟩ := Tree.kind_eq_dir.1 hkind
    cases hnode.symm.trans hdir
  | rmdir hnode hleads =>
    obtain ⟨fs', hparse⟩ := hleads
    obtain ⟨inode, hread, htype⟩ := dir_inode h hnode
    exact (hC m fs' inode hparse hread htype).2 i hi

lemma call_eq_some {e : Event} (h : x.call cpuid p e = some x') :
    (∀ n, e ≠ .resume n) ∧ ∃ s, (x.seenBy p).next e = some s ∧
      x' = ⟨x.kernel.retFromKernel cpuid, s, Function.update x.cwdInum p s.fs.cwdInum⟩ := by
  unfold System.call at h
  split at h
  · cases h
  · rename_i hresume
    obtain ⟨s, hs, rfl⟩ := Option.map_eq_some_iff.1 h
    exact ⟨hresume, s, hs, rfl⟩

/-- The state after a call of `p`. -/
lemma Inv.called {s : History} (h : Inv x t) (hf : Formatted s t')
    (hfdescs : ∀ i < numFdescs, (t'.fdescArray i).inum ≠ 0 →
      t'.kind (t'.fdescArray i).inum.toNat ≠ none)
    (hown : ∀ i, x.kernel.pid (.slot i) ≠ 0 → .slot i = p → t'.kind t'.cwd = some true)
    (hothers : ∀ i, x.kernel.pid (.slot i) ≠ 0 → .slot i ≠ p →
      ∃ n : ℕ, x.cwdInum (.slot i) = n ∧ t'.kind n = some true) :
    Inv ⟨x.kernel.retFromKernel cpuid, s, Function.update x.cwdInum p s.fs.cwdInum⟩ t' := by
  have hcwd : s.fs.cwdInum = t'.cwd := by
    obtain ⟨v, hs, hr⟩ := hf.tracks.stores
    exact hs.cwdInum.trans hr.cwd
  refine ⟨hf, hfdescs, fun i hi => ?_, fun q => ?_⟩
  · rw [Sched.Kernel.retFromKernel_pid] at hi
    by_cases hip : .slot i = p
    · refine ⟨t'.cwd, ?_, hown i hi hip⟩
      show Function.update x.cwdInum p s.fs.cwdInum (.slot i) = t'.cwd
      rw [hip, Function.update_self, hcwd]
    · obtain ⟨n, hn, hkind⟩ := hothers i hi hip
      exact ⟨n, (Function.update_of_ne hip _ _).trans hn, hkind⟩
  · by_cases hq : q = p
    · refine ⟨t'.cwd, ?_⟩
      show Function.update x.cwdInum p s.fs.cwdInum q = t'.cwd
      rw [hq, Function.update_self, hcwd]
    · obtain ⟨n, hn⟩ := h.natural q
      exact ⟨n, (Function.update_of_ne hq _ _).trans hn⟩

lemma Inv.call {e : Event} (h : Inv x t) (hC : InFile (x.seenBy p) e) (hspares : x.Spares p e)
    (hcall : x.call cpuid p e = some x') : ∃ t', Inv x' t' := by
  obtain ⟨hresume, s, hnext, rfl⟩ := call_eq_some hcall
  obtain ⟨n, hn, hf⟩ := h.seenBy p
  obtain ⟨t', hf', hmoves⟩ := hf.next hC hnext
  rcases hmoves.handles hresume with hhandles | ⟨rfl, rfl⟩
  · have hlive : ∀ i, x.kernel.pid (.slot i) ≠ 0 → ∀ m : ℕ, x.cwdInum (.slot i) = m →
        t.kind m = some true → t'.kind m = some true := by
      intro i hi m hm hkind
      refine (hhandles.kind m ?_ fun hfrees => ?_).trans hkind
      · show t.kind m ≠ none
        rw [hkind]
        exact Option.some_ne_none _
      · exact hspares.cwd hf hfrees hkind hi hm
    refine ⟨t', h.called hf' (fun i hi hopen => ?_) (fun i hi hip => ?_) fun i hi _ => ?_⟩
    · rcases hhandles.fdesc i hopen with hsame | hnew
      · rw [hsame] at hopen ⊢
        have hkind := h.fdescs i hi hopen
        have hkeep := hhandles.kind (t.fdescArray i).inum.toNat hkind fun hfrees => by
          refine hspares.fdesc hf hfrees hi ?_
          rw [h.fdescArray]
          exact (Int.toNat_of_nonneg (h.formatted.fdescs i hi).nonneg).symm
        show t'.kind (t.fdescArray i).inum.toNat ≠ none
        rw [hkeep]
        exact hkind
      · exact hnew
    · rcases hhandles.cwd with hold | hnew
      · obtain ⟨m, hm, hkind⟩ := h.cwds i hi
        have hnm : n = m := by
          rw [hip, hn] at hm
          exact Int.ofNat_inj.1 hm
        rw [hold]
        subst hnm
        exact hlive i hi n hm hkind
      · exact hnew
    · obtain ⟨m, hm, hkind⟩ := h.cwds i hi
      exact ⟨m, hm, hlive i hi m hm hkind⟩
  · -- only the root directory and the big file are made anew
    refine ⟨_, h.called hf' (fun i hi hopen => ?_) (fun i hi _ => rfl) fun i hi hip => ?_⟩
    · have harray : (imageTree (x.seenBy p).fs.fdescArray).fdescArray i = t.fdescArray i :=
        congrFun h.fdescArray i
      have hle := hspares.1 i hi
      have hnonneg := (h.formatted.fdescs i hi).nonneg
      rw [harray] at hopen ⊢
      rw [h.fdescArray, testBigFileInum] at hle
      obtain hone | htwo : (t.fdescArray i).inum = 1 ∨ (t.fdescArray i).inum = 2 := by omega
      · rw [hone]
        exact Option.some_ne_none true
      · rw [htwo]
        exact Option.some_ne_none false
    · exact ⟨1, hspares.2 i hi hip, rfl⟩

/-- A safe step keeps the invariant. -/
lemma Inv.step {e : SystemEvent} (h : Inv x t) (hC : x.Safe e) (hstep : x.step e = some x') :
    ∃ t', Inv x' t' := by
  cases e with
  | sched e =>
    obtain ⟨k', hk', rfl⟩ := Option.map_eq_some_iff.1 hstep
    exact ⟨t, h.sched hC hk'⟩
  | fs cpuid e =>
    rw [System.step] at hstep
    split at hstep
    · split at hstep
      · cases hstep
      · rename_i p hrun
        split at hstep
        · obtain ⟨hin, hspares⟩ := hC p hrun
          exact h.call hin hspares hstep
        · cases hstep
    · cases hstep

/-! ## Runs -/

lemma inv_boot {fs : Fs} {a : ℕ → Fdesc} (tasks : List (List UInt8))
    (h : Formatted ⟨fs, [1, 2]⟩ (imageTree a)) (ha : ∀ i < numFdescs, a i = Fdesc.zero) :
    Inv (boot tasks fs) (imageTree a) := by
  refine ⟨h, fun i hi hopen => ?_, fun i hi => ⟨1, ?_, rfl⟩, fun q => ?_⟩
  · have harray : (imageTree a).fdescArray i = Fdesc.zero := ha i hi
    rw [harray] at hopen
    exact absurd rfl hopen
  · have h0 : i = 0 := by
      by_contra hne
      refine hi ?_
      show Function.update (fun _ => (0 : ℤ)) (Sched.Pcb.slot 0) 1 (.slot i) = 0
      rw [Function.update_of_ne (by simpa using hne)]
    subst h0
    show Function.update (fun _ => (0 : ℤ)) (Sched.Pcb.slot 0) rootDirInum (.slot 0) = 1
    rw [Function.update_self]
    rfl
  · show ∃ n : ℕ, Function.update (fun _ => (0 : ℤ)) (Sched.Pcb.slot 0) rootDirInum q = n
    by_cases hq : q = .slot 0
    · subst hq
      rw [Function.update_self]
      exact ⟨1, rfl⟩
    · rw [Function.update_of_ne hq]
      exact ⟨0, rfl⟩

/-! ## The shell alone -/

section ShellRuns

variable {s : History} {e : Event}

/-- The shell runs on CPU 0, in user mode. -/
structure ShellRuns (x : System) : Prop where
  inKernel : x.kernel.inKernel = none
  stuck : x.kernel.stuck = false
  runnings : x.kernel.runnings 0 = some (.slot 0)
  mapped : x.kernel.freed (x.kernel.pgdir (.slot 0)) = false
  cwd : x.cwdInum (.slot 0) = x.history.fs.cwdInum

lemma ShellRuns.seenBy (h : ShellRuns x) : x.seenBy (.slot 0) = x.history := by
  rw [System.seenBy, h.cwd]

lemma ShellRuns.safe (h : ShellRuns x) (hin : InFile x.history e)
    (hspares : x.Spares (.slot 0) e) : x.Safe (.fs 0 e) := by
  intro p hp
  obtain rfl := Option.some.inj (h.runnings.symm.trans hp)
  rw [h.seenBy]
  exact ⟨hin, hspares⟩

/-- A call of the shell. -/
lemma ShellRuns.step (h : ShellRuns x) (hresume : ∀ n, e ≠ .resume n)
    (hnext : x.history.next e = some s) :
    ∃ x', x.step (.fs 0 e) = some x' ∧ x'.history = s ∧ ShellRuns x' := by
  refine ⟨⟨x.kernel.retFromKernel 0, s, Function.update x.cwdInum (.slot 0) s.fs.cwdInum⟩,
    ?_, rfl, ?_⟩
  · rw [System.step, if_pos ⟨h.inKernel, h.stuck⟩, h.runnings]
    dsimp only
    rw [if_pos (Sched.Kernel.idlePcb_ne_slot 0 0).symm, System.call, h.seenBy, hnext]
    · rfl
    · exact hresume
  · refine ⟨rfl, ?_, ?_, ?_, ?_⟩
    · show (x.kernel.retFromKernel 0).stuck = false
      rw [Sched.Kernel.retFromKernel, Sched.Kernel.switchPgdir, h.runnings]
      dsimp only
      rw [h.stuck, h.mapped]
      rfl
    · show (x.kernel.retFromKernel 0).runnings 0 = some (.slot 0)
      rw [Sched.Kernel.retFromKernel_runnings, h.runnings]
    · show (x.kernel.retFromKernel 0).freed ((x.kernel.retFromKernel 0).pgdir (.slot 0)) = false
      rw [Sched.Kernel.retFromKernel, Sched.Kernel.switchPgdir, h.runnings]
      exact h.mapped
    · show Function.update x.cwdInum (.slot 0) s.fs.cwdInum (.slot 0) = s.fs.cwdInum
      rw [Function.update_self]

/-- Calls of the shell that free nothing. -/
lemma ShellRuns.run {es : List Event} (h : ShellRuns x)
    (hes : ∀ e ∈ es, (∀ n, e ≠ .resume n) ∧ ∀ y : System, y.Spares (.slot 0) e)
    (hC : Trace.StepsMeet History.next InFile x.history es)
    (hrun : Trace.run History.next x.history es = some s) :
    Trace.StepsMeet System.step System.Safe x (es.map (.fs 0)) ∧
      ∃ x', Trace.run System.step x (es.map (.fs 0)) = some x' ∧ x'.history = s := by
  induction es generalizing x with
  | nil => exact ⟨Trace.stepsMeet_nil _ _, x, rfl, Option.some.inj hrun⟩
  | cons e es ih =>
    obtain ⟨hresume, hspares⟩ := hes e List.mem_cons_self
    obtain ⟨s₁, hnext, hrest⟩ := Trace.run_cons_eq_some.1 hrun
    obtain ⟨x₁, hstep, rfl, h₁⟩ := h.step hresume hnext
    obtain ⟨hsafe, x', hrun', hs⟩ :=
      ih h₁ (fun e' he' => hes e' (List.mem_cons_of_mem _ he')) (hC.tail hnext) hrest
    refine ⟨Trace.stepsMeet_cons (h.safe hC.head (hspares x)) fun y hy => ?_, x', ?_, hs⟩
    · obtain rfl := Option.some.inj (hstep.symm.trans hy)
      exact hsafe
    · exact Trace.run_cons_eq_some.2 ⟨x₁, hstep, hrun'⟩

end ShellRuns

end System

end Fs
end UcasKernel
