/-
Threads of a process: their numbers, and the end of the last one.

`threads[pid]` is the number of live PCBs with that pid.  It serves twice: when it
comes to 0 the process is over and its page table is freed, and the next thread gets
it, plus one, as its tid.  The first use is right as long as pids are indices of
`threads`; the second one is not, since the counter goes down when any thread ends.
-/
import Mathlib.Algebra.BigOperators.Group.Finset.Piecewise
import Mathlib.Algebra.Order.BigOperators.Group.Finset
import UcasKernel.Mm.Memory
import UcasKernel.Sched.Accounts
import UcasKernel.Sched.Runs

namespace UcasKernel
namespace Sched

open Trace
open Mm (PAGE_SIZE)

def USER_VA_SP_BASE : ℕ := 0xf0000f000

/-- `NUM_MAX_SUB_THREADS`, the size of `threads`. -/
def NUM_MAX_SUB_THREADS : ℤ := 64

/-- The number of PCBs to which `f` gives the value `v`. -/
def pcbCount (f : Pcb → ℤ) (v : ℤ) : ℕ := (Finset.univ.filter fun p => f p = v).card

section Count

variable {f : Pcb → ℤ} {p : Pcb} {v w : ℤ}

lemma pcbCount_update (f : Pcb → ℤ) (p : Pcb) (w v : ℤ) :
    pcbCount (Function.update f p w) v + (if f p = v then 1 else 0) =
      pcbCount f v + if w = v then 1 else 0 := by
  have hsum : ∀ g : Pcb → ℤ, pcbCount g v =
      (∑ x ∈ Finset.univ \ {p}, if g x = v then 1 else 0) + if g p = v then 1 else 0 := by
    intro g
    rw [pcbCount, Finset.card_filter, ← Finset.sum_sdiff (Finset.subset_univ {p}),
      Finset.sum_singleton]
  have hrest : (∑ x ∈ Finset.univ \ {p}, if Function.update f p w x = v then 1 else 0) =
      ∑ x ∈ Finset.univ \ {p}, if f x = v then 1 else 0 := by
    refine Finset.sum_congr rfl fun x hx => ?_
    have hxp : x ≠ p := by simpa using hx
    rw [Function.update_of_ne hxp]
  rw [hsum (Function.update f p w), hsum f, hrest, Function.update_self]
  omega

lemma pcbCount_eq_zero : pcbCount f v = 0 ↔ ∀ p, f p ≠ v := by
  rw [pcbCount, Finset.card_eq_zero, Finset.filter_eq_empty_iff]
  simp

/-- A value other than the one that is overwritten does not occur after the update exactly
when it is not the new one and did not occur before. -/
lemma forall_update_ne (hp : f p ≠ v) :
    (∀ x, Function.update f p w x ≠ v) ↔ w ≠ v ∧ ∀ x, f x ≠ v := by
  rw [Function.forall_update_iff f fun _ y => y ≠ v]
  refine and_congr_right' ⟨fun h x => ?_, fun h x _ => h x⟩
  by_cases hx : x = p
  · exact hx ▸ hp
  · exact h x hx

lemma pcbCount_le : pcbCount f v ≤ 18 := (Finset.card_le_univ _).trans (by decide)

end Count

namespace Kernel

/-- The PCB that a step ends: that of the task that exits, or the one that `do_kill`
finds. -/
def ends (k : Kernel) : Event → Option Pcb
  | .trap c .exit _ => k.runnings c
  | .trap _ (.kill pid) _ => (k.findPid pid).map .slot
  | _ => none

/-- The pid for which `do_exit` or `do_kill` finds `threads[pid] == 0`, so that the page
table is freed. -/
def lastThread (k : Kernel) (e : Event) : Option ℤ := do
  let p ← k.ends e
  let k ← k.releasePcb p
  if k.threads (k.pid p) = 0 then some (k.pid p) else none

variable {k k' k₁ : Kernel} {c : Cpu} {p r : Pcb} {e : Event} {i : Slot} {pid : ℤ} {pgdir : ℕ}

/-! ## What a step does to the accounts -/

/-- The accounts with a new PCB. -/
def enrolled (k : Kernel) (i : Slot) (pid processId : ℤ) :
    (Pcb → ℤ) × (Pcb → ℤ) × (ℤ → ℤ) × ℤ × List (List UInt8) :=
  (Function.update k.pid (.slot i) pid, Function.update k.tid (.slot i) (k.threads pid + 1),
    Function.update k.threads pid (k.threads pid + 1), processId, k.tasks)

/-- The accounts without a PCB. -/
def retired (k : Kernel) (p : Pcb) :
    (Pcb → ℤ) × (Pcb → ℤ) × (ℤ → ℤ) × ℤ × List (List UInt8) :=
  (Function.update k.pid p 0, k.tid,
    Function.update k.threads (k.pid p) (k.threads (k.pid p) - 1), k.processId, k.tasks)

lemma accounts_initPcb (h : k.initPcb i pid pgdir = some k') :
    k'.accounts = k.enrolled i pid k.processId := by
  simp only [initPcb, Option.bind_eq_bind, Option.bind_eq_some_iff, Option.some.injEq] at h
  obtain ⟨k₁, hk₁, rfl⟩ := h
  have hkeep := keeps_listAddTail (f := accounts) _ hk₁
  simp only [accounts, setStatus, Prod.mk.injEq, Function.update_self] at hkeep
  simp only [accounts, enrolled, hkeep]

lemma accounts_releasePcb (h : k.releasePcb p = some k') :
    k'.accounts = (k.pid, k.tid,
      Function.update k.threads (k.pid p) (k.threads (k.pid p) - 1), k.processId, k.tasks) := by
  have hkeep : Keeps accounts { k.setStatus p .exited with
      threads := Function.update k.threads (k.pid p) (k.threads (k.pid p) - 1) }
      (k.releasePcb p) :=
    keeps_listDeleteEntry.bind fun _ => (keeps_releaseMlocks _ _).bind fun _ =>
      keeps_unblockAll _
  exact hkeep k' h

/-- Taking the pid away behind `release_pcb`. -/
lemma accounts_clearPid (h : k.releasePcb p = some k₁) (heq : k'.accounts = k₁.accounts) :
    (k'.clearPid p).accounts = k.retired p := by
  rw [accounts_releasePcb h] at heq
  simp only [accounts, Prod.mk.injEq] at heq
  simp only [accounts, clearPid, retired, heq]

lemma accounts_doExit (h : k.doExit c p = some k') :
    (∃ k₁, k.releasePcb p = some k₁) ∧ k'.accounts = k.retired p := by
  simp only [doExit, Option.bind_eq_bind, Option.bind_eq_some_iff] at h
  obtain ⟨k₁, hk₁, h⟩ := h
  refine ⟨⟨k₁, hk₁⟩, ?_⟩
  split at h
  · simp only [Option.bind_eq_some_iff, Option.some.injEq] at h
    obtain ⟨k₂, hk₂, rfl⟩ := h
    have hfree : ((k₂.switchPgdir c).freePgdir p).accounts = k₁.accounts :=
      (switchPgdir_ignored (f := accounts) k₂ c).trans (keeps_findIdleTask k₂ hk₂)
    exact accounts_clearPid hk₁ hfree
  · rw [Option.some.injEq] at h
    rw [← h, retFromKernel_ignored (f := accounts)]
    exact accounts_clearPid hk₁ rfl

lemma accounts_doKill {n : ℤ} (hfind : k.findPid pid = some i)
    (h : k.doKill pid = some (n, k')) :
    (∃ k₁, k.releasePcb (.slot i) = some k₁) ∧ k'.accounts = k.retired (.slot i) := by
  simp only [doKill, hfind, Option.bind_eq_bind, Option.bind_eq_some_iff, Option.some.injEq,
    Prod.mk.injEq] at h
  obtain ⟨k₁, hk₁, -, rfl⟩ := h
  refine ⟨⟨k₁, hk₁⟩, ?_⟩
  split
  · have hfree : (k₁.freePgdir (.slot i)).accounts = k₁.accounts := rfl
    exact accounts_clearPid hk₁ hfree
  · exact accounts_clearPid hk₁ rfl

/-- The four things a step can do to the accounts. -/
inductive Accounted (k : Kernel) (e : Event) (k' : Kernel) : Prop
  | same (hends : k.ends e = none) (h : k'.accounts = k.accounts)
  | exec {c : Cpu} {name : List UInt8} {env : Env} {i : Slot} (he : e = .trap c (.exec name) env)
      (hfree : k.findUnusedPcb = some i) (hname : name ∈ k.tasks)
      (h : k'.accounts = k.enrolled i k.processId (k.processId + 1))
  | threadCreate {c : Cpu} {env : Env} {p : Pcb} {i : Slot} (he : e = .trap c .threadCreate env)
      (hrun : k.runnings c = some p) (hfree : k.findUnusedPcb = some i)
      (h : k'.accounts = k.enrolled i (k.pid p) k.processId)
  | died {p : Pcb} {k₁ : Kernel} (hends : k.ends e = some p) (hk₁ : k.releasePcb p = some k₁)
      (h : k'.accounts = k.retired p)

lemma accounted_handle {env : Env} {call : Call} (hrun : k.runnings c = some p)
    (h : k.handle c p env call = some k') : k.Accounted (.trap c call env) k' := by
  cases call with
  | irqTimer => exact .same rfl (keeps_doScheduler k' h)
  | yield => exact .same rfl (keeps_doScheduler k' h)
  | sleep sleepTime =>
    have hkeep : Keeps accounts k (k.doSleep c p sleepTime env) := keeps_doBlock.of_eq rfl
    exact .same rfl (hkeep k' h)
  | exec name =>
    obtain ⟨k₁, hk₁, rfl⟩ := Option.map_eq_some_iff.1 h
    have hret := retFromKernel_ignored (f := accounts) k₁ c
    unfold createPcb at hk₁
    split at hk₁
    · obtain rfl := Option.some.inj hk₁
      exact .same rfl hret
    · rename_i i hi
      split at hk₁
      · rename_i hname
        exact .exec rfl hi hname (hret.trans (accounts_initPcb hk₁))
      · split at hk₁
        · cases hk₁
        · obtain rfl := Option.some.inj hk₁
          exact .same rfl hret
  | exit =>
    obtain ⟨⟨k₁, hk₁⟩, hacc⟩ := accounts_doExit h
    exact .died hrun hk₁ hacc
  | kill pid =>
    obtain ⟨k₂, hk₂, rfl⟩ := Option.map_eq_some_iff.1 h
    obtain ⟨⟨n, k₃⟩, hk₃, rfl⟩ := Option.map_eq_some_iff.1 hk₂
    have hret := retFromKernel_ignored (f := accounts) k₃ c
    cases hfind : k.findPid pid with
    | none =>
      simp only [doKill, hfind, Option.some.injEq, Prod.mk.injEq] at hk₃
      obtain ⟨-, rfl⟩ := hk₃
      exact .same (by simp [ends, hfind]) hret
    | some i =>
      obtain ⟨⟨k₁, hk₁⟩, hacc⟩ := accounts_doKill hfind hk₃
      exact .died (by simp [ends, hfind]) hk₁ (hret.trans hacc)
  | waitpid pid => exact .same rfl (keeps_doWaitpid k' h)
  | threadCreate =>
    obtain ⟨k₁, hk₁, rfl⟩ := Option.map_eq_some_iff.1 h
    have hret := retFromKernel_ignored (f := accounts) k₁ c
    unfold doThreadCreate at hk₁
    split at hk₁
    · obtain rfl := Option.some.inj hk₁
      exact .same rfl hret
    · rename_i i hi
      exact .threadCreate rfl hrun hi (hret.trans (accounts_initPcb hk₁))
  | threadJoin thread => exact .same rfl (keeps_threadJoinLoop _ _ k' h)
  | mutexLockAcquire idx =>
    exact .same rfl (Keeps.bindValue (fun m => keeps_mutexLockAcquire fun _ => keeps_ret) k' h)
  | mutexLockRelease idx =>
    exact .same rfl (Keeps.bindValue (fun m => keeps_returning keeps_mutexLockRelease) k' h)
  | barrierInit key goal => exact .same rfl (keeps_returning keeps_barrierInit k' h)
  | barrierWait idx => exact .same rfl (Keeps.bindValue (fun b => keeps_barrierWait) k' h)
  | barrierDestroy idx =>
    exact .same rfl (Keeps.bindValue (fun b => keeps_returning keeps_barrierDestroy) k' h)
  | conditionWait condIdx mutexIdx =>
    exact .same rfl (Keeps.bindValue (fun i => .bindValue fun m => keeps_conditionWait) k' h)
  | conditionSignal idx =>
    exact .same rfl (Keeps.bindValue (fun i => keeps_returning keeps_conditionSignal) k' h)
  | conditionBroadcast idx =>
    exact .same rfl (Keeps.bindValue (fun i => keeps_returning keeps_conditionBroadcast) k' h)
  | conditionDestroy idx =>
    exact .same rfl (Keeps.bindValue (fun i => keeps_returning keeps_conditionBroadcast) k' h)
  | mboxOpen name => exact .same rfl (keeps_returning keeps_mboxOpen k' h)
  | mboxClose idx =>
    exact .same rfl (Keeps.bindValue (fun i => keeps_returning keeps_mboxClose) k' h)
  | mboxSend idx msg =>
    exact .same rfl (Keeps.bindValue (fun i => .bindValue fun m => keeps_mboxSend) k' h)
  | mboxRecv idx msgLength =>
    exact .same rfl (Keeps.bindValue (fun i => .bindValue fun m => keeps_mboxRecv) k' h)
  | netSend => exact .same rfl (keeps_netSend k' h)
  | netRecv pktNum => exact .same rfl (keeps_netRecv _ _ k' h)

theorem accounted_step (h : k.step e = some k') : k.Accounted e k' := by
  cases e with
  | trap c call env =>
    simp only [step] at h
    split at h
    · split at h
      · cases h
      · rename_i p hrun
        split at h
        · exact accounted_handle hrun h
        · cases h
    · cases h
  | resume c env =>
    simp only [step] at h
    split at h
    · split at h
      · cases h
      · exact .same rfl (keeps_goOn _ k' h)
    · cases h
  | slaveJoin =>
    simp only [step] at h
    split at h
    · exact .same rfl (keeps_slaveJoin k' h)
    · cases h

/-! ## The counters -/

/-- Pids are below `process_id`, and the counter of a pid is the number of its PCBs. -/
structure Counted (k : Kernel) : Prop where
  pid : ∀ p, 0 ≤ k.pid p ∧ k.pid p < k.processId
  threads : ∀ v, v ≠ 0 → k.threads v = pcbCount k.pid v

/-- A new PCB, with a new pid or one that is in use. -/
lemma Counted.enrolled {v n : ℤ} (hc : k.Counted) (hfree : k.pid (.slot i) = 0) (hv : 0 ≤ v)
    (hvn : v < n) (hn : k.processId ≤ n) (h : k'.accounts = k.enrolled i v n) : k'.Counted := by
  simp only [accounts, Kernel.enrolled, Prod.mk.injEq] at h
  obtain ⟨hpid, -, hthreads, hprocess, -⟩ := h
  refine ⟨fun x => ?_, fun u hu => ?_⟩
  · rw [hpid, hprocess]
    by_cases hx : x = .slot i
    · rw [hx, Function.update_self]
      exact ⟨hv, hvn⟩
    · rw [Function.update_of_ne hx]
      exact ⟨(hc.pid x).1, (hc.pid x).2.trans_le hn⟩
  · have hcount := pcbCount_update k.pid (.slot i) v u
    rw [hfree, if_neg hu.symm] at hcount
    rw [hthreads, hpid]
    by_cases huv : u = v
    · subst huv
      rw [if_pos rfl] at hcount
      rw [Function.update_self, hc.threads u hu]
      omega
    · rw [if_neg (Ne.symm huv)] at hcount
      rw [Function.update_of_ne huv, hc.threads u hu]
      omega

/-- A PCB less. -/
lemma Counted.retired (hc : k.Counted) (h : k'.accounts = k.retired p) : k'.Counted := by
  simp only [accounts, Kernel.retired, Prod.mk.injEq] at h
  obtain ⟨hpid, -, hthreads, hprocess, -⟩ := h
  refine ⟨fun x => ?_, fun u hu => ?_⟩
  · rw [hpid, hprocess]
    by_cases hx : x = p
    · rw [hx, Function.update_self]
      exact ⟨le_rfl, (hc.pid p).1.trans_lt (hc.pid p).2⟩
    · rw [Function.update_of_ne hx]
      exact hc.pid x
  · have hcount := pcbCount_update k.pid p 0 u
    rw [if_neg hu.symm] at hcount
    rw [hthreads, hpid]
    by_cases hup : u = k.pid p
    · rw [if_pos hup.symm] at hcount
      rw [hup, Function.update_self, ← hup, hc.threads u hu]
      omega
    · rw [if_neg (Ne.symm hup)] at hcount
      rw [Function.update_of_ne hup, hc.threads u hu]
      omega

lemma Counted.same (hc : k.Counted) (h : k'.accounts = k.accounts) : k'.Counted := by
  simp only [accounts, Prod.mk.injEq] at h
  obtain ⟨hpid, -, hthreads, hprocess, -⟩ := h
  exact ⟨by rw [hpid, hprocess]; exact hc.pid, by rw [hpid, hthreads]; exact hc.threads⟩

lemma Counted.step (hc : k.Counted) (h : k.step e = some k') : k'.Counted := by
  cases accounted_step h with
  | same _ h => exact hc.same h
  | exec _ hfree _ h =>
    have hpos := (hc.pid .pid0Pcb).1.trans_lt (hc.pid .pid0Pcb).2
    exact hc.enrolled (findUnusedPcb_spec hfree) hpos.le (Int.lt_succ _) (Int.lt_succ _).le h
  | @threadCreate _ _ p _ _ _ hfree h =>
    exact hc.enrolled (findUnusedPcb_spec hfree) (hc.pid p).1 (hc.pid p).2 le_rfl h
  | died _ _ h => exact hc.retired h

lemma boot_counted (tasks : List (List UInt8)) : (boot tasks).Counted where
  pid := by
    intro p
    by_cases hp : p = .slot 0 <;> simp [boot, hp]
  threads := by
    intro v hv
    have hcount := pcbCount_update (fun _ => 0) (.slot 0) 1 v
    rw [if_neg hv.symm, pcbCount_eq_zero.2 fun _ => hv.symm] at hcount
    show Function.update (fun _ => (0 : ℤ)) 1 1 v =
      (pcbCount (Function.update (fun _ => 0) (.slot 0) 1) v : ℤ)
    by_cases hv1 : v = 1
    · subst hv1
      rw [if_pos rfl] at hcount
      rw [Function.update_self]
      omega
    · rw [if_neg (Ne.symm hv1)] at hcount
      rw [Function.update_of_ne hv1]
      omega

/-- The test behind `release_pcb`. -/
lemma lastThread_eq (hends : k.ends e = some p)
    (hk₁ : k.releasePcb p = some k₁) : k.lastThread e =
      if k.threads (k.pid p) - 1 = 0 then some (k.pid p) else none := by
  have hacc := accounts_releasePcb hk₁
  simp only [accounts, Prod.mk.injEq] at hacc
  obtain ⟨hpid, -, hthreads, -, -⟩ := hacc
  simp only [Kernel.lastThread, hends, hk₁, Option.bind_eq_bind, Option.bind_some, hpid, hthreads,
    Function.update_self]

/-! ## Thread numbers -/

/-- A new process gets an index of `threads` as its pid. -/
def PidInRange (k : Kernel) : Event → Prop
  | .trap _ (.exec name) _ =>
    k.findUnusedPcb.isSome → name ∈ k.tasks → k.processId < NUM_MAX_SUB_THREADS
  | _ => True

/-- When a thread is created, no live thread of the process has the number that comes
behind the number of live threads. -/
def TidFree (k : Kernel) : Event → Prop
  | .trap c .threadCreate env =>
    (k.step (.trap c .threadCreate env)).isSome → k.findUnusedPcb.isSome →
      ∀ p r, k.runnings c = some p → k.pid p ≠ 0 → k.pid r = k.pid p →
        k.tid r ≠ k.threads (k.pid p) + 1
  | _ => True

/-- The tids of live threads are different and small. -/
structure Numbered (k : Kernel) : Prop extends Counted k where
  range : ∀ p, k.pid p ≠ 0 → 1 ≤ k.tid p ∧ k.tid p ≤ 19
  differ : ∀ p r, k.pid p ≠ 0 → k.pid r = k.pid p → k.tid p = k.tid r → p = r

/-- A new PCB whose number is free in its process. -/
lemma Numbered.enrolled {v n : ℤ} (h : k.Numbered)
    (hno : v ≠ 0 → ∀ r, k.pid r = v → k.tid r ≠ k.threads v + 1) (hv : v ≠ 0 → 0 ≤ k.threads v)
    (hle : v ≠ 0 → k.threads v ≤ 18)
    (hacc : k'.accounts = k.enrolled i v n) (hc : k'.Counted) : k'.Numbered := by
  simp only [accounts, Kernel.enrolled, Prod.mk.injEq] at hacc
  obtain ⟨hpid, htid, -, -, -⟩ := hacc
  refine ⟨hc, fun p hp => ?_, fun p r hp hr heq => ?_⟩
  · by_cases hpi : p = .slot i
    · rw [hpid, hpi, Function.update_self] at hp
      rw [htid, hpi, Function.update_self]
      have := hv hp
      have := hle hp
      omega
    · rw [hpid, Function.update_of_ne hpi] at hp
      rw [htid, Function.update_of_ne hpi]
      exact h.range p hp
  · by_contra hne
    rw [hpid] at hp hr
    rw [htid] at heq
    -- one of the two may be the new PCB
    by_cases hpi : p = .slot i
    · subst hpi
      rw [Function.update_self] at hp hr heq
      rw [Function.update_of_ne (Ne.symm hne)] at hr heq
      exact hno hp r hr heq.symm
    · rw [Function.update_of_ne hpi] at hp hr heq
      by_cases hri : r = .slot i
      · subst hri
        rw [Function.update_self] at hr heq
        exact hno (hr ▸ hp) p hr.symm heq
      · rw [Function.update_of_ne hri] at hr heq
        exact hne (h.differ p r hp hr heq)

lemma Numbered.step (h : k.Numbered) (hC : k.TidFree e) (hs : k.step e = some k') :
    k'.Numbered := by
  have hc' := h.toCounted.step hs
  have hcount : ∀ v, v ≠ 0 → 0 ≤ k.threads v ∧ k.threads v ≤ 18 := by
    intro v hv
    have := pcbCount_le (f := k.pid) (v := v)
    rw [h.threads v hv]
    omega
  cases accounted_step hs with
  | same _ hacc =>
    simp only [accounts, Prod.mk.injEq] at hacc
    obtain ⟨hpid, htid, -, -, -⟩ := hacc
    exact ⟨hc', by rw [hpid, htid]; exact h.range, by rw [hpid, htid]; exact h.differ⟩
  | exec he hfree hname hacc =>
    exact h.enrolled (fun _ r hr => absurd hr (h.pid r).2.ne)
      (fun hv => (hcount _ hv).1) (fun hv => (hcount _ hv).2) hacc hc'
  | @threadCreate _ _ p _ he hrun hfree hacc =>
    subst he
    exact h.enrolled
      (fun hv r hr => hC (by rw [hs]; rfl) (by rw [hfree]; rfl) p r hrun hv hr)
      (fun hv => (hcount _ hv).1) (fun hv => (hcount _ hv).2) hacc hc'
  | @died p _ _ _ hacc =>
    simp only [accounts, retired, Prod.mk.injEq] at hacc
    obtain ⟨hpid, htid, -, -, -⟩ := hacc
    have hlive : ∀ x, k'.pid x ≠ 0 → k'.pid x = k.pid x := by
      intro x hx
      rw [hpid] at hx ⊢
      by_cases hxp : x = p
      · rw [hxp, Function.update_self] at hx
        exact absurd rfl hx
      · rw [Function.update_of_ne hxp]
    refine ⟨hc', fun x hx => ?_, fun x y hx hy heq => ?_⟩
    · rw [htid]
      exact h.range x (hlive x hx ▸ hx)
    · rw [htid] at heq
      have hy0 : k'.pid y ≠ 0 := by rwa [hy]
      rw [hlive x hx, hlive y hy0] at hy
      exact h.differ x y (hlive x hx ▸ hx) hy heq

end Kernel

/-! ## The end of the last thread -/

/-- The kernel, and how often the page table of each pid was freed. -/
structure Tally where
  kernel : Kernel
  freed : ℤ → ℕ

namespace Tally

open Kernel

def init (tasks : List (List UInt8)) : Tally := ⟨boot tasks, fun _ => 0⟩

def step (t : Tally) (e : Event) : Option Tally :=
  (t.kernel.step e).map fun k =>
    ⟨k, match t.kernel.lastThread e with
      | none => t.freed
      | some v => Function.update t.freed v (t.freed v + 1)⟩

/-- What thread accounting promises.  The pids assigned so far are those from 1 up to
`process_id`. -/
structure Law (t : Tally) : Prop where
  /-- Every pid that was assigned is an index of `threads`. -/
  range : t.kernel.processId ≤ NUM_MAX_SUB_THREADS ∧
    ∀ p, 0 ≤ t.kernel.pid p ∧ t.kernel.pid p < t.kernel.processId
  /-- `threads[pid]` is the number of the live PCBs with that pid. -/
  threads : ∀ v, 0 < v → v < t.kernel.processId →
    t.kernel.threads v = pcbCount t.kernel.pid v
  /-- The page table of a process is freed once when no thread is left, and not before. -/
  freed : ∀ v, 0 < v → v < t.kernel.processId →
    t.freed v = if ∃ p, t.kernel.pid p = v then 0 else 1

variable {t t' : Tally} {e : Event}

/-- The invariant: in addition, no page table was freed for a pid that was not assigned. -/
structure Inv (t : Tally) : Prop where
  counted : t.kernel.Counted
  range : t.kernel.processId ≤ NUM_MAX_SUB_THREADS
  freed : ∀ v, v ≠ 0 → t.freed v =
    if v < t.kernel.processId ∧ 0 < v ∧ ∀ p, t.kernel.pid p ≠ v then 1 else 0

lemma Inv.law (h : t.Inv) : t.Law where
  range := ⟨h.range, h.counted.pid⟩
  threads := fun v hv _ => h.counted.threads v hv.ne'
  freed := by
    intro v hv hlt
    rw [h.freed v hv.ne']
    by_cases hp : ∃ p, t.kernel.pid p = v
    · rw [if_pos hp, if_neg fun hno => hno.2.2 _ hp.choose_spec]
    · rw [if_neg hp, if_pos ⟨hlt, hv, fun p heq => hp ⟨p, heq⟩⟩]

lemma inv_init (tasks : List (List UInt8)) : (init tasks).Inv where
  counted := boot_counted tasks
  range := show (2 : ℤ) ≤ 64 by decide
  freed := by
    intro v hv
    rw [if_neg]
    · rfl
    · rintro ⟨hlt, hpos, hall⟩
      have hlt2 : v < 2 := hlt
      have h1 : v = 1 := by omega
      exact hall (.slot 0) (h1 ▸ rfl)

lemma Inv.step (h : t.Inv) (hC : t.kernel.PidInRange e) (hs : t.step e = some t') : t'.Inv := by
  obtain ⟨k', hk', rfl⟩ := Option.map_eq_some_iff.1 hs
  have hc := h.counted
  have hc' := hc.step hk'
  have hpos : 0 < t.kernel.processId :=
    (hc.pid .pid0Pcb).1.trans_lt (hc.pid .pid0Pcb).2
  -- a step that ends no PCB frees no page table
  have hnone : t.kernel.ends e = none → t.kernel.lastThread e = none := fun hends => by
    rw [lastThread, hends]
    rfl
  cases accounted_step hk' with
  | same hends hacc =>
    simp only [accounts, Prod.mk.injEq] at hacc
    obtain ⟨hpid, -, -, hprocess, -⟩ := hacc
    refine ⟨hc', by rw [hprocess]; exact h.range, ?_⟩
    simp only [hnone hends, hpid, hprocess]
    exact h.freed
  | exec he hfree hname hacc =>
    subst he
    simp only [accounts, enrolled, Prod.mk.injEq] at hacc
    obtain ⟨hpid, -, -, hprocess, -⟩ := hacc
    have hlt := hC (by rw [hfree]; rfl) hname
    refine ⟨hc', by rw [hprocess]; omega, fun v hv => ?_⟩
    simp only [hnone rfl, hpid, hprocess]
    rw [h.freed v hv]
    refine if_congr ?_ rfl rfl
    rw [forall_update_ne (by rw [findUnusedPcb_spec hfree]; exact hv.symm)]
    exact ⟨fun ⟨hlt, hpos, hall⟩ => ⟨by omega, hpos, by omega, hall⟩,
      fun ⟨hlt, hpos, hne, hall⟩ => ⟨by omega, hpos, hall⟩⟩
  | @threadCreate _ _ p _ he hrun hfree hacc =>
    subst he
    simp only [accounts, enrolled, Prod.mk.injEq] at hacc
    obtain ⟨hpid, -, -, hprocess, -⟩ := hacc
    refine ⟨hc', by rw [hprocess]; exact h.range, fun v hv => ?_⟩
    simp only [hnone rfl, hpid, hprocess]
    rw [h.freed v hv]
    refine if_congr (and_congr_right' (and_congr_right' ?_)) rfl rfl
    rw [forall_update_ne (by rw [findUnusedPcb_spec hfree]; exact hv.symm)]
    exact ⟨fun hall => ⟨hall p, hall⟩, And.right⟩
  | @died p k₁ hends hk₁ hacc =>
    have hfreed := h.freed
    have hlast := lastThread_eq hends hk₁
    simp only [accounts, retired, Prod.mk.injEq] at hacc
    obtain ⟨hpid, -, hthreads, hprocess, -⟩ := hacc
    refine ⟨hc', by rw [hprocess]; exact h.range, fun v hv => ?_⟩
    simp only [hprocess]
    by_cases hvp : v = t.kernel.pid p
    · -- the process of the PCB: it is over when the counter comes to 0
      have hzero : t.freed v = 0 := by
        rw [hfreed v hv, if_neg fun hno => hno.2.2 p hvp.symm]
      have hover : t.kernel.threads v - 1 = 0 ↔ ∀ x, k'.pid x ≠ v := by
        rw [← pcbCount_eq_zero, ← Int.natCast_eq_zero, ← hc'.threads v hv, hthreads, hvp,
          Function.update_self]
      have hrange : v < t.kernel.processId ∧ 0 < v := by
        have := hc.pid p
        omega
      rw [hlast, ← hvp]
      by_cases hth : t.kernel.threads v - 1 = 0
      · rw [if_pos hth, if_pos ⟨hrange.1, hrange.2, hover.1 hth⟩]
        simp only [Function.update_self, hzero]
      · rw [if_neg hth, if_neg fun hall => hth (hover.2 hall.2.2)]
        exact hzero
    · -- another process
      have hsame : (match t.kernel.lastThread e with
          | none => t.freed
          | some u => Function.update t.freed u (t.freed u + 1)) v = t.freed v := by
        rw [hlast]
        split_ifs with hth
        · exact Function.update_of_ne hvp _ _
        · rfl
      rw [hsame, hfreed v hv]
      refine if_congr (and_congr_right' (and_congr_right' ?_)) rfl rfl
      rw [hpid, forall_update_ne (Ne.symm hvp)]
      exact ⟨fun hall => ⟨hv.symm, hall⟩, And.right⟩

/-- In every run in which new processes get pids below 64, the counters are right, and the
page table of a process is freed exactly once, when its last thread ends. -/
theorem thread_accounting {tasks : List (List UInt8)} {es : List Event}
    (h : StepsMeet step (fun t => t.kernel.PidInRange) (init tasks) es) :
    Always step Law (init tasks) es :=
  (always_of_invariant (fun _ _ _ ht hC hs => ht.step hC hs) (inv_init tasks) h).mono
    fun _ ht => ht.law

/-- A task is started, waited for and over: no pid leaves the range. -/
theorem thread_accounting_handOver : Always step Law (init [[104]])
    (handOver ++ [.trap 0 .exit quietEnv]) := by
  refine thread_accounting ?_
  refine stepsMeet_cons (fun _ _ => by decide) fun _ _ => stepsMeet_cons trivial fun _ _ => ?_
  exact stepsMeet_cons trivial fun _ _ => stepsMeet_cons trivial fun _ _ => stepsMeet_nil _ _

/-! ### A run that leaves the range -/

/-- The kernel when the shell alone lives, and runs on CPU 0. -/
structure ShellOnly (k : Kernel) : Prop where
  inv : ∃ q, k.Inv q
  tasks : k.tasks = [[104]]
  pid : k.pid = Function.update (fun _ => 0) (.slot 0) 1
  runnings : k.runnings = fun c => if c = 0 then some (.slot 0) else none
  inKernel : k.inKernel = none

/-- The shell starts `n` processes and kills each of them. -/
def execKillRun (n : ℕ) : List Event :=
  (List.range n).flatMap fun j : ℕ =>
    [.trap 0 (.exec [104]) quietEnv, .trap 0 (.kill ((j : ℤ) + 2)) quietEnv]

section ShellOnly

variable {k : Kernel}

lemma step_trap {call : Call} {env : Env} (hk : k.inKernel = none) (hs : k.stuck = false)
    (hrun : k.runnings 0 = some (.slot 0)) :
    k.step (.trap 0 call env) = k.handle 0 (.slot 0) env call := by
  rw [Kernel.step, if_pos ⟨hk, hs⟩, hrun]
  exact if_pos (.inr (idlePcb_ne_slot 0 0).symm)

lemma shellOnly_boot : ShellOnly (boot [[104]]) :=
  ⟨⟨_, boot_inv _⟩, rfl, rfl, rfl, rfl⟩

/-- The shell starts a process, in slot 1. -/
lemma ShellOnly.exec (h : ShellOnly k) : ∃ k₁ q₁,
    k.step (.trap 0 (.exec [104]) quietEnv) = some k₁ ∧ k₁.Inv q₁ ∧ k₁.tasks = [[104]] ∧
      k₁.pid = Function.update k.pid (.slot 1) k.processId ∧ k₁.runnings = k.runnings ∧
      k₁.inKernel = none ∧ k₁.processId = k.processId + 1 := by
  obtain ⟨q, hi⟩ := h.inv
  have hm := hi.toMid
  have hl := hm.life
  have hrun : k.runnings 0 = some (.slot 0) := by rw [h.runnings]; rfl
  have hfree : k.findUnusedPcb = some 1 := by
    rw [findUnusedPcb, h.pid]
    decide
  obtain ⟨L, hL, hm₁⟩ := hm.grow.initPcb 1 k.processId k.nextPgdir
    (findUnusedPcb_spec hfree) ⟨hl.processId, Int.lt_succ _⟩
    ⟨(Nat.zero_le _).trans_lt (hl.pgdirLt (.slot 0)), Nat.lt_succ_self _⟩
    (hl.unused _ le_rfl) fun r _ heq => absurd heq (hl.pgdirLt r).ne
  refine ⟨_, _, ?_, hm₁.retFromKernel (c := 0) (p := .slot 0) hrun (idlePcb_ne_slot 0 0).symm,
    ?_, ?_, ?_, rfl, ?_⟩
  · have hcreate : k.createPcb [104] = some (created { k with
        processId := k.processId + 1, nextPgdir := k.nextPgdir + 1 } 1 k.processId k.nextPgdir
        L) := by
      simp only [createPcb, hfree]
      rw [if_pos (by rw [h.tasks]; exact List.mem_singleton.2 rfl)]
      exact hL
    rw [step_trap h.inKernel hm.stuck hrun, handle, hcreate]
    rfl
  · rw [retFromKernel_tasks]
    exact h.tasks
  · rw [retFromKernel_pid]
    rfl
  · rw [retFromKernel_runnings]
    rfl
  · rw [retFromKernel_processId]
    rfl

/-- The shell starts a process and kills it. -/
lemma ShellOnly.execKill (h : ShellOnly k) : ∃ k', ShellOnly k' ∧
    k'.processId = k.processId + 1 ∧ run Kernel.step k [.trap 0 (.exec [104]) quietEnv,
      .trap 0 (.kill k.processId) quietEnv] = some k' := by
  obtain ⟨k₁, q₁, hk₁, hi₁, htasks₁, hpid₁, hrun₁, hin₁, hprocess₁⟩ := h.exec
  have hm₁ := hi₁.toMid
  have hlt : 1 < k.processId := by
    obtain ⟨q, hi⟩ := h.inv
    have hrange := hi.life.pidRange (.slot 0) (by rw [h.pid, Function.update_self]; decide)
    rw [h.pid, Function.update_self] at hrange
    exact hrange.2
  have hrun0 : k₁.runnings 0 = some (.slot 0) := by
    rw [hrun₁, h.runnings]
    rfl
  -- slot 1 alone has the new pid
  have honly : ∀ j, k₁.pid (.slot j) = k.processId → j = 1 := by
    intro j hj
    by_contra hne
    rw [hpid₁, Function.update_of_ne (by simpa using hne), h.pid] at hj
    by_cases h0 : j = 0
    · rw [h0, Function.update_self] at hj
      omega
    · rw [Function.update_of_ne (by simpa using h0)] at hj
      omega
  have hnew : k₁.pid (.slot 1) = k.processId := by rw [hpid₁, Function.update_self]
  obtain ⟨i, hfind⟩ : ∃ i, k₁.findPid k.processId = some i := by
    cases hfind : k₁.findPid k.processId with
    | none => exact absurd hnew (findPid_none hfind 1)
    | some i => exact ⟨i, rfl⟩
  obtain rfl := honly i (findPid_spec hfind)
  obtain ⟨k₂, q₂, hk₂, hm₂, hpid₂, hrun₂, hprocess₂⟩ := hm₁.doKill (by omega) hfind
    (fun j hj => by rw [honly j (hj.trans hnew)]) (fun c hc => by
      rw [hrun₁, h.runnings] at hc
      dsimp only at hc
      split at hc <;> simp at hc)
  have htasks₂ : k₂.tasks = [[104]] := by
    have hacc := (accounts_doKill hfind hk₂).2
    simp only [accounts, retired, Prod.mk.injEq] at hacc
    rw [hacc.2.2.2.2, htasks₁]
  refine ⟨k₂.retFromKernel 0, ⟨⟨q₂, hm₂.retFromKernel (p := .slot 0) (by rw [hrun₂, hrun0])
    (idlePcb_ne_slot 0 0).symm⟩, by rw [retFromKernel_tasks, htasks₂], ?_, ?_, rfl⟩, ?_, ?_⟩
  · rw [retFromKernel_pid, hpid₂, hpid₁, Function.update_idem, h.pid]
    exact Function.update_eq_self_iff.2 rfl
  · rw [retFromKernel_runnings, hrun₂, hrun₁, h.runnings]
  · rw [retFromKernel_processId, hprocess₂, hprocess₁]
  · simp only [run_cons, run_nil, hk₁, Option.bind_some,
      step_trap hin₁ hm₁.stuck hrun0, handle, hk₂, returning, Option.map_some]

lemma ShellOnly.execKillRun (n : ℕ) : ∃ k, ShellOnly k ∧ k.processId = n + 2 ∧
    run Kernel.step (boot [[104]]) (execKillRun n) = some k := by
  induction n with
  | zero => exact ⟨_, shellOnly_boot, rfl, rfl⟩
  | succ n ih =>
    obtain ⟨k, hk, hprocess, hrun⟩ := ih
    obtain ⟨k', hk', hprocess', hrun'⟩ := hk.execKill
    refine ⟨k', hk', by rw [hprocess', hprocess]; push_cast; ring, ?_⟩
    rw [Tally.execKillRun, List.range_succ, List.flatMap_append]
    exact run_append_eq_some.2 ⟨k, hrun, by rw [hprocess] at hrun'; exact hrun'⟩

/-- A run of the kernel is a run with the tally. -/
lemma run_of_kernel {es : List Event} {k k' : Kernel} (f : ℤ → ℕ)
    (h : run Kernel.step k es = some k') : ∃ t, run step ⟨k, f⟩ es = some t ∧ t.kernel = k' := by
  induction es generalizing k f with
  | nil => exact ⟨_, rfl, Option.some.inj h⟩
  | cons e es ih =>
    obtain ⟨k₁, hk₁, h⟩ := run_cons_eq_some.1 h
    have hstep : ∃ g, step ⟨k, f⟩ e = some ⟨k₁, g⟩ := ⟨_, by rw [step, hk₁, Option.map_some]⟩
    obtain ⟨g, hg⟩ := hstep
    obtain ⟨t, ht, hk⟩ := ih g h
    exact ⟨t, run_cons_eq_some.2 ⟨_, hg, ht⟩, hk⟩

end ShellOnly

/-- The shell starts and kills 63 processes: the last of them has pid 64. -/
theorem pid_out_of_range : ¬ Always step Law (init [[104]]) (execKillRun 63) := by
  intro h
  obtain ⟨k, -, hprocess, hrun⟩ := ShellOnly.execKillRun 63
  obtain ⟨t, ht, hk⟩ := run_of_kernel (fun _ => 0) hrun
  have hrange := (h.last ht).range.1
  rw [hk, hprocess] at hrange
  exact absurd hrange (by decide)

end Tally
end Sched
end UcasKernel
