/-
Who owns a mutex.

A task owns a mutex while it is between the return of `do_mutex_lock_acquire` or
`do_condition_wait` and the next release, and from the moment a release hands the
mutex to it.  `Owners` says that a mutex has one owner at most, that it is locked
then and carries the pid of its owner.  Processes may have several threads, and
mailboxes may use the mutexes too, so that the pid does not determine the owner.

There is one lemma for each thing that can happen in a step, as for `Locks`.
-/
import UcasKernel.Sched.Runs
import UcasKernel.Locking.Locks

namespace UcasKernel
namespace Sched

/-- The mutex that a task gets before it goes on. -/
def Cont.mutex : Cont → Option Slot
  | .mutexLockAcquire m | .mboxSendLocked _ m _ | .mboxRecvLocked _ m _ => some m
  | _ => none

namespace Kernel

/-- The task was handed the mutex and has not gone on; the task `cur` makes the
step. -/
def Granted (k : Kernel) (q : Head → List Pcb) (cur : Option Pcb) (m : Slot) (p : Pcb) : Prop :=
  p ∈ q .readyQueue ∧ (k.cont p).mutex = some m ∧ k.Suspended p ∧ some p ≠ cur

/-- The task is inside of the mutex or was handed it. -/
def Owns (k : Kernel) (q : Head → List Pcb) (inside : Slot → Pcb → Prop) (cur : Option Pcb)
    (m : Slot) (p : Pcb) : Prop :=
  inside m p ∨ k.Granted q cur m p

/-- The mutexes, their queues and their owners. -/
structure Owners (k : Kernel) (q : Head → List Pcb) (inside : Slot → Pcb → Prop)
    (cur : Option Pcb) : Prop where
  locked : ∀ m p, k.Owns q inside cur m p → (k.mlocks m).locked = true
  pid : ∀ m p, k.Owns q inside cur m p → (k.mlocks m).pid = k.pid p
  unique : ∀ m p r, k.Owns q inside cur m p → k.Owns q inside cur m r → p = r
  alive : ∀ m p, inside m p → k.pid p ≠ 0
  queued : ∀ m, q (.blockQueue m) ≠ [] → (k.mlocks m).locked = true
  waits : ∀ h p, p ∈ q h → h ≠ .readyQueue → ∀ m, (k.cont p).mutex = some m ↔ h = .blockQueue m
  asleep : ∀ h p, p ∈ q h → h ≠ .readyQueue → ∀ c, k.runnings c ≠ some p

section Primitives

variable {k k' : Kernel} {q q' : Head → List Pcb} {out : Option Cpu} {gone : Option Pcb}
  {inside inside' : Slot → Pcb → Prop} {cur : Option Pcb} {c : Cpu} {p : Pcb} {m : Slot}

lemma suspended_congr (hrun : k'.runnings = k.runnings) (hker : k'.inKernel = k.inKernel) (x : Pcb) :
    k'.Suspended x ↔ k.Suspended x := by
  rw [Suspended, Suspended, hrun, hker]

/-- The owners when no owner is new. -/
lemma Owners.owns_mono (k' : Kernel) (q' : Head → List Pcb) (inside' : Slot → Pcb → Prop)
    (cur' : Option Pcb) (ho : k.Owners q inside cur) (hmlocks : k'.mlocks = k.mlocks)
    (hpid : ∀ m p, k'.Owns q' inside' cur' m p → k.Owns q inside cur m p ∧ k'.pid p = k.pid p) :
    (∀ m p, k'.Owns q' inside' cur' m p → (k'.mlocks m).locked = true) ∧
      (∀ m p, k'.Owns q' inside' cur' m p → (k'.mlocks m).pid = k'.pid p) ∧
      ∀ m p r, k'.Owns q' inside' cur' m p → k'.Owns q' inside' cur' m r → p = r := by
  refine ⟨fun m p hp => ?_, fun m p hp => ?_, fun m p r hp hr => ?_⟩
  · rw [hmlocks]
    exact ho.locked m p (hpid m p hp).1
  · rw [hmlocks, (hpid m p hp).2]
    exact ho.pid m p (hpid m p hp).1
  · exact ho.unique m p r (hpid m p hp).1 (hpid m r hr).1

/-- Who is inside may be forgotten. -/
lemma Owners.forget (ho : k.Owners q inside cur) (hsub : ∀ m p, inside' m p → inside m p) :
    k.Owners q inside' cur := by
  obtain ⟨hlocked, hpid, hunique⟩ := ho.owns_mono k q inside' cur rfl
    fun m p hp => ⟨hp.imp_left (hsub m p), rfl⟩
  exact ⟨hlocked, hpid, hunique, fun m p hp => ho.alive m p (hsub m p hp), ho.queued, ho.waits,
    ho.asleep⟩

/-- What the owners of a kernel depend on. -/
lemma Owners.congr (ho : k.Owners q inside cur) (hmlocks : k'.mlocks = k.mlocks) (hpid : k'.pid = k.pid)
    (hcont : k'.cont = k.cont) (hrun : k'.runnings = k.runnings) (hker : k'.inKernel = k.inKernel) :
    k'.Owners q inside cur := by
  have hgranted : ∀ m p, k'.Granted q cur m p → k.Granted q cur m p := by
    intro m p hp
    rwa [Granted, hcont, suspended_congr hrun hker] at hp
  obtain ⟨hlocked, hpid', hunique⟩ := ho.owns_mono k' q inside cur hmlocks
    fun m p hp => ⟨hp.imp_right (hgranted m p), by rw [hpid]⟩
  refine ⟨hlocked, hpid', hunique, ?_, ?_, ?_, ?_⟩
  · rw [hpid]; exact ho.alive
  · rw [hmlocks]; exact ho.queued
  · rw [hcont]; exact ho.waits
  · rw [hrun]; exact ho.asleep

/-- A wake-up from a queue that is no queue of a mutex. -/
lemma Owners.wake {h : Head} {L : Links Head Pcb} (hm : k.Mid q out gone) (ho : k.Owners q inside cur)
    (hp : p ∈ q h) (hne : h ≠ .readyQueue) (hh : ∀ m, h ≠ .blockQueue m) :
    Owners { k.setStatus p .ready with links := L } (move q p h .readyQueue) inside cur := by
  have hr := hm.lists.repr
  have hmutex : ∀ m, (k.cont p).mutex ≠ some m := fun m heq => hh m ((ho.waits h p hp hne m).1 heq)
  have hgranted : ∀ m x, Granted { k.setStatus p .ready with links := L }
      (move q p h .readyQueue) cur m x → k.Granted q cur m x := by
    rintro m x ⟨hx, hc, hs⟩
    rw [mem_move hr hp] at hx
    by_cases hxp : x = p
    · exact absurd hc (hxp ▸ hmutex m)
    · rw [if_neg hxp] at hx
      exact ⟨hx, hc, hs⟩
  have hold : ∀ g x, x ∈ move q p h .readyQueue g → g ≠ .readyQueue → x ∈ q g := by
    intro g x hx hg
    rw [mem_move hr hp] at hx
    by_cases hxp : x = p
    · rw [if_pos hxp] at hx
      exact absurd hx hg
    · rwa [if_neg hxp] at hx
  obtain ⟨hlocked, hpid, hunique⟩ := ho.owns_mono
    { k.setStatus p .ready with links := L } (move q p h .readyQueue) inside cur rfl
    fun m x hx => ⟨hx.imp_right (hgranted m x), rfl⟩
  refine ⟨hlocked, hpid, hunique, ho.alive, fun m hm' => ?_, fun g x hx hg => ?_,
    fun g x hx hg => ho.asleep g x (hold g x hx hg) hg⟩
  · rw [move_of_ne (hh m).symm (by simp)] at hm'
    exact ho.queued m hm'
  · exact ho.waits g x (hold g x hx hg) hg

/-- Wake-ups from queues that are no queues of mutexes. -/
lemma Wakes.owners {from' : Head → Prop} (hw : Wakes from' k q k' q') (hready : ¬ from' .readyQueue)
    (hfrom : ∀ m, ¬ from' (.blockQueue m)) (hm : k.Mid q out gone) (ho : k.Owners q inside cur) :
    k'.Owners q' inside cur := by
  induction hw with
  | refl => exact ho
  | tail hw hh hp hk ih =>
    have hne : ∀ h', from' h' → h' ≠ .readyQueue := fun h' hh' heq => hready (heq ▸ hh')
    have hm' := (hw.mid hready hm).1
    obtain ⟨L, hL, -⟩ := hm'.doUnblock hp (hne _ hh)
    obtain rfl := Option.some.inj (hk.symm.trans hL)
    exact ih.wake hm' hp (hne _ hh) fun m heq => hfrom m (heq ▸ hh)

/-- Who owns another mutex behind a release owned it before. -/
lemma Released.owns_of_ne {n : Slot} {x : Pcb} (hk : k.Released q m k' q') (hm : k.Mid q out gone)
    (ho : k.Owners q inside cur) (hn : n ≠ m) (hx : k'.Owns q' inside' cur n x) :
    k.Owns q inside' cur n x := by
  rcases hk with ⟨-, rfl, rfl⟩ | ⟨p, l, L, hq, rfl, rfl⟩
  · exact hx
  · have hp : p ∈ q (.blockQueue m) := by rw [hq]; exact List.mem_cons_self
    refine hx.imp_right fun ⟨hmem, hc, hs⟩ => ?_
    rw [mem_move hm.lists.repr hp] at hmem
    by_cases hxp : x = p
    · -- the first waiter waited for `m`
      rw [hxp] at hc
      exact absurd (Head.blockQueue.inj ((ho.waits _ p hp (by simp) n).1 hc)).symm hn
    · rw [if_neg hxp] at hmem
      exact ⟨hmem, hc, hs⟩

/-- A release: who owns the mutex from then on is its first waiter.  The tasks that
stay inside of it, if there are any, are its first waiter too. -/
lemma Owners.release (hm : k.Mid q out gone) (ho : k.Owners q inside cur)
    (hsub : ∀ n x, inside' n x → inside n x)
    (hfirst : ∀ x, k.Owns q inside' cur m x → ∃ l, q (.blockQueue m) = x :: l)
    (hlive : ∀ p ∈ q (.blockQueue m), k.pid p ≠ 0) (hk : k.Released q m k' q') :
    k'.Owners q' inside' cur ∧ k'.pid = k.pid ∧ (∀ n, n ≠ m → k'.mlocks n = k.mlocks n) ∧
      ((k'.mlocks m).pid = 0 ∨ ∃ p ∈ q (.blockQueue m), (k'.mlocks m).pid = k.pid p) := by
  rcases hk with ⟨hempty, rfl, rfl⟩ | ⟨p, l, L, hq, rfl, rfl⟩
  · have hmlock : ∀ n, n ≠ m → (k.setMlock m ⟨false, 0⟩).mlocks n = k.mlocks n := fun n hn =>
      Function.update_of_ne hn ..
    have hself : (k.setMlock m ⟨false, 0⟩).mlocks m = ⟨false, 0⟩ := Function.update_self ..
    -- nobody owns the mutex, since nobody waits for it
    have hother : ∀ n x, (k.setMlock m ⟨false, 0⟩).Owns q' inside' cur n x →
        n ≠ m ∧ k.Owns q' inside cur n x := by
      intro n x hx
      refine ⟨?_, hx.imp_left (hsub n x)⟩
      rintro rfl
      obtain ⟨l, hl⟩ := hfirst x hx
      simp [hempty] at hl
    refine ⟨⟨fun n x hx => ?_, fun n x hx => ?_, fun n x y hx hy => ?_,
      fun n x hx => ho.alive n x (hsub n x hx), fun n hn => ?_, ho.waits, ho.asleep⟩, rfl, hmlock,
      .inl (by rw [hself])⟩
    · rw [hmlock n (hother n x hx).1]
      exact ho.locked n x (hother n x hx).2
    · rw [hmlock n (hother n x hx).1]
      exact ho.pid n x (hother n x hx).2
    · exact ho.unique n x y (hother n x hx).2 (hother n y hy).2
    · have hnm : n ≠ m := by
        rintro rfl
        exact hn hempty
      rw [hmlock n hnm]
      exact ho.queued n hn
  · have hr := hm.lists.repr
    have hp : p ∈ q (.blockQueue m) := by rw [hq]; exact List.mem_cons_self
    have hlocked : (k.mlocks m).locked = true := ho.queued m (by rw [hq]; simp)
    obtain ⟨k₁, hk₁⟩ : ∃ k₁ : Kernel, k₁ =
        { (k.setMlock m ⟨(k.mlocks m).locked, k.pid p⟩).setStatus p .ready with links := L } :=
      ⟨_, rfl⟩
    rw [← hk₁]
    have hmlock : ∀ n, n ≠ m → k₁.mlocks n = k.mlocks n := fun n hn => by
      rw [hk₁]
      exact Function.update_of_ne hn ..
    have hself : k₁.mlocks m = ⟨true, k.pid p⟩ := by
      rw [hk₁, ← hlocked]
      exact Function.update_self ..
    have hpids : k₁.pid = k.pid := by rw [hk₁]; rfl
    have hcont : k₁.cont = k.cont := by rw [hk₁]; rfl
    have hsus : ∀ x, k₁.Suspended x ↔ k.Suspended x := by
      rw [hk₁]
      exact suspended_congr rfl rfl
    -- the owners: the first waiter, and those of the other mutexes
    have howns : ∀ n x, k₁.Owns (move q p (.blockQueue m) .readyQueue) inside' cur n x →
        n = m ∧ x = p ∨ n ≠ m ∧ k.Owns q inside cur n x := by
      intro n x hx
      have hx' : x = p ∧ n = m ∨ k.Owns q inside' cur n x := by
        rcases hx with hin | ⟨hx, hc, hs⟩
        · exact .inr (.inl hin)
        · rw [hcont] at hc
          rw [mem_move hr hp] at hx
          by_cases hxp : x = p
          · refine .inl ⟨hxp, ?_⟩
            rw [hxp] at hc
            exact (Head.blockQueue.inj ((ho.waits _ p hp (by simp) n).1 hc)).symm
          · rw [if_neg hxp] at hx
            exact .inr (.inr ⟨hx, hc, (hsus x).1 hs.1, hs.2⟩)
      rcases hx' with ⟨hxp, hn⟩ | hx'
      · exact .inl ⟨hn, hxp⟩
      · by_cases hn : n = m
        · subst hn
          obtain ⟨l', hl'⟩ := hfirst x hx'
          rw [hq, List.cons.injEq] at hl'
          exact .inl ⟨rfl, hl'.1.symm⟩
        · exact .inr ⟨hn, hx'.imp_left (hsub n x)⟩
    have hold : ∀ g x, x ∈ move q p (.blockQueue m) .readyQueue g → g ≠ .readyQueue → x ∈ q g := by
      intro g x hx hg
      rw [mem_move hr hp] at hx
      by_cases hxp : x = p
      · rw [if_pos hxp] at hx
        exact absurd hx hg
      · rwa [if_neg hxp] at hx
    refine ⟨⟨fun n x hx => ?_, fun n x hx => ?_, fun n x y hx hy => ?_, fun n x hx => ?_,
      fun n hn => ?_, fun g x hx hg => ?_, fun g x hx hg => ?_⟩, hpids, hmlock,
      .inr ⟨p, hp, by rw [hself]⟩⟩
    · rcases howns n x hx with ⟨rfl, -⟩ | ⟨hn, hx⟩
      · rw [hself]
      · rw [hmlock n hn]
        exact ho.locked n x hx
    · rcases howns n x hx with ⟨rfl, rfl⟩ | ⟨hn, hx⟩
      · rw [hself, hpids]
      · rw [hmlock n hn, hpids]
        exact ho.pid n x hx
    · rcases howns n x hx with ⟨rfl, rfl⟩ | ⟨hn, hx⟩ <;> rcases howns n y hy with ⟨hn', rfl⟩ | ⟨hn', hy⟩
      · rfl
      · exact absurd rfl hn'
      · exact absurd hn' hn
      · exact ho.unique n x y hx hy
    · rw [hpids]
      exact ho.alive n x (hsub n x hx)
    · by_cases hn' : n = m
      · rw [hn', hself]
      · rw [move_of_ne (by simpa using hn') (by simp)] at hn
        rw [hmlock n hn']
        exact ho.queued n hn
    · rw [hcont]
      exact ho.waits g x (hold g x hx hg) hg
    · rw [hk₁]
      exact ho.asleep g x (hold g x hx hg) hg

/-- Who is granted what when the task `p` of CPU `c` was switched away from. -/
lemma granted_switched {L : Links Head Pcb} {st : TaskStatus} {r x : Pcb} {cont : Cont}
    (hrun : k.runnings c = some p) (hx : x ≠ p) (hmem : x ∈ q' .readyQueue → x ∈ q .readyQueue)
    (hg : (k.switched c p L st r cont).Granted q' none m x) : k.Granted q (some p) m x := by
  obtain ⟨hx', hc, hs, -⟩ := hg
  have hcont : (k.switched c p L st r cont).cont x = k.cont x := Function.update_of_ne hx ..
  refine ⟨hmem hx', hcont ▸ hc, fun d hd => ?_, by simpa using hx⟩
  have hdc : d ≠ c := by
    rintro rfl
    exact hx (Option.some.inj (hd.symm.trans hrun))
  have : some c = some d := hs d (by
    simp only [switched, Function.update_of_ne hdc]
    exact hd)
  exact absurd (Option.some.inj this).symm hdc

/-- A task is switched away from and put on the queue `h`. -/
lemma Owners.switch {h : Head} {L : Links Head Pcb} {st : TaskStatus} {r : Pcb} {cont : Cont}
    (hm : k.Mid q none none) (ho : k.Owners q inside (some p)) (hrun : k.runnings c = some p)
    (hp : p ∈ q .readyQueue)
    (hst : h = .readyQueue ∧ cont = .ret ∨
      h ≠ .readyQueue ∧ ∀ m, cont.mutex = some m ↔ h = .blockQueue m)
    (hlocked : ∀ m, h = .blockQueue m → (k.mlocks m).locked = true)
    (hpick : r = idlePcb c ∨ r ∈ move q p .readyQueue h .readyQueue) :
    (k.switched c p L st r cont).Owners (move q p .readyQueue h) inside none := by
  have hr := hm.lists.repr
  have hcases : ∀ g x, x ∈ move q p .readyQueue h g →
      x = p ∧ g = h ∨ x ≠ p ∧ x ∈ q g := by
    intro g x hx
    rw [mem_move hr hp] at hx
    by_cases hxp : x = p
    · exact .inl ⟨hxp, by rwa [if_pos hxp] at hx⟩
    · exact .inr ⟨hxp, by rwa [if_neg hxp] at hx⟩
  -- who waits is not picked
  have hnotr : ∀ g x, x ∈ move q p .readyQueue h g → g ≠ .readyQueue → x ≠ r := by
    rintro g x hx hg rfl
    rcases hpick with rfl | hmem
    · rcases hcases g _ hx with ⟨hxp, -⟩ | ⟨-, hx⟩
      · exact hm.lists.idle_notMem c _ (hxp ▸ hp)
      · exact hm.lists.idle_notMem c _ hx
    · rcases hcases g x hx with ⟨hxp, hgh⟩ | ⟨hxp, hx⟩ <;>
        rcases hcases _ x hmem with ⟨hxp', hgh'⟩ | ⟨hxp', hmem⟩
      · exact hg (hgh.trans hgh'.symm)
      · exact hxp' hxp
      · exact hxp hxp'
      · exact hg (hr.disjoint _ _ x hx hmem)
  have hgranted : ∀ m x, (k.switched c p L st r cont).Granted (move q p .readyQueue h) none m x →
      k.Granted q (some p) m x := by
    intro m x hx
    by_cases hxp : x = p
    · -- what the task waits for, it is not granted yet
      exfalso
      obtain ⟨hmem, hc, -⟩ := hx
      have hcont : (k.switched c p L st r cont).cont x = cont := by
        rw [hxp]
        exact Function.update_self ..
      rw [hcont] at hc
      rcases hcases _ x hmem with ⟨-, hh⟩ | ⟨hne, -⟩
      · rcases hst with ⟨-, rfl⟩ | ⟨hne, -⟩
        · cases hc
        · exact hne hh.symm
      · exact hne hxp
    · refine granted_switched hrun hxp (fun hmem => ?_) hx
      exact ((hcases _ x hmem).resolve_left fun hh => hxp hh.1).2
  obtain ⟨hlocked', hpid, hunique⟩ := ho.owns_mono (k.switched c p L st r cont)
    (move q p .readyQueue h) inside none rfl fun m x hx => ⟨hx.imp_right (hgranted m x), rfl⟩
  refine ⟨hlocked', hpid, hunique, ho.alive, fun m hm' => ?_, fun g x hx hg => ?_,
    fun g x hx hg d hd => ?_⟩
  · by_cases hh : h = .blockQueue m
    · exact hlocked m hh
    · rw [move_of_ne (by simp) (Ne.symm hh)] at hm'
      exact ho.queued m hm'
  · rcases hcases g x hx with ⟨rfl, rfl⟩ | ⟨hxp, hx⟩
    · rcases hst with ⟨hgr, -⟩ | ⟨-, hcont⟩
      · exact absurd hgr hg
      · simpa only [switched, Function.update_self] using hcont
    · simpa only [switched, Function.update_of_ne hxp] using ho.waits g x hx hg
  · have hxr := hnotr g x hx hg
    simp only [switched] at hd
    by_cases hdc : d = c
    · subst hdc
      rw [Function.update_self, Option.some.injEq] at hd
      exact hxr hd.symm
    · rw [Function.update_of_ne hdc] at hd
      rcases hcases g x hx with ⟨rfl, rfl⟩ | ⟨hxp, hx⟩
      · exact hdc (hm.runs.distinct d c x (by simp) (by simp) hd hrun)
      · exact ho.asleep g x hx hg d hd

/-- A task that is on no queue is switched away from: an idle task, or one that
exits. -/
lemma Owners.switchOff (L : Links Head Pcb) (r : Pcb) (st : TaskStatus) (hm : k.Mid q out gone)
    (ho : k.Owners q inside (some p)) (hrun : k.runnings c = some p) (hoff : ∀ g, p ∉ q g)
    (hpick : r = idlePcb c ∨ r ∈ q .readyQueue) :
    (k.switched c p L st r .ret).Owners q inside none := by
  have hne : ∀ g x, x ∈ q g → x ≠ p := by
    rintro g x hx rfl
    exact hoff g hx
  have hnotr : ∀ g x, x ∈ q g → g ≠ .readyQueue → x ≠ r := by
    rintro g x hx hg rfl
    rcases hpick with rfl | hmem
    · exact hm.lists.idle_notMem c g hx
    · exact hg (hm.lists.repr.disjoint _ _ x hx hmem)
  obtain ⟨hlocked, hpid, hunique⟩ := ho.owns_mono (k.switched c p L st r .ret) q inside none
    rfl fun m x hx => ⟨hx.imp_right fun hg => granted_switched hrun (hne _ x hg.1) id hg, rfl⟩
  refine ⟨hlocked, hpid, hunique, ho.alive, ho.queued, fun g x hx hg => ?_, fun g x hx hg d hd => ?_⟩
  · simpa only [switched, Function.update_of_ne (hne g x hx)] using ho.waits g x hx hg
  · simp only [switched] at hd
    by_cases hdc : d = c
    · subst hdc
      rw [Function.update_self, Option.some.injEq] at hd
      exact hnotr g x hx hg hd.symm
    · rw [Function.update_of_ne hdc] at hd
      exact ho.asleep g x hx hg d hd

/-- `ret_from_kernel`. -/
lemma Owners.ret (ho : k.Owners q inside (some p)) (hrun : k.runnings c = some p) :
    (k.retFromKernel c).Owners q inside none := by
  have hfields : (k.retFromKernel c).pid = k.pid ∧ (k.retFromKernel c).mlocks = k.mlocks ∧
      (k.retFromKernel c).cont = k.cont ∧ (k.retFromKernel c).runnings = k.runnings ∧
      (k.retFromKernel c).inKernel = none := by
    unfold Kernel.retFromKernel switchPgdir
    cases k.runnings c <;> exact ⟨rfl, rfl, rfl, rfl, rfl⟩
  obtain ⟨hpid, hmlocks, hcont, hruns, hker⟩ := hfields
  have hgranted : ∀ m x, (k.retFromKernel c).Granted q none m x → k.Granted q (some p) m x := by
    unfold Granted Suspended
    rw [hcont, hruns, hker]
    rintro m x ⟨hx, hc, hs, -⟩
    have hoff : ∀ d, k.runnings d ≠ some x := fun d hd =>
      Option.some_ne_none d (hs d hd).symm
    refine ⟨hx, hc, fun d hd => absurd hd (hoff d), fun hxp => hoff c ?_⟩
    rw [hxp, hrun]
  obtain ⟨hlocked, hpid', hunique⟩ := ho.owns_mono (k.retFromKernel c) q inside none hmlocks
    fun m x hx => ⟨hx.imp_right (hgranted m x), by rw [hpid]⟩
  refine ⟨hlocked, hpid', hunique, ?_, ?_, ?_, ?_⟩
  · rw [hpid]; exact ho.alive
  · rw [hmlocks]; exact ho.queued
  · rw [hcont]; exact ho.waits
  · rw [hruns]; exact ho.asleep

/-- A free mutex is taken. -/
lemma Owners.take (ho : k.Owners q inside cur) (hfree : (k.mlocks m).locked = false)
    (hpid : k.pid p ≠ 0) :
    (k.setMlock m ⟨true, k.pid p⟩).Owners q (fun n x => inside n x ∨ n = m ∧ x = p) cur := by
  have hmlock : ∀ n, n ≠ m → (k.setMlock m ⟨true, k.pid p⟩).mlocks n = k.mlocks n := fun n hn =>
    Function.update_of_ne hn ..
  have hself : (k.setMlock m ⟨true, k.pid p⟩).mlocks m = ⟨true, k.pid p⟩ :=
    Function.update_self ..
  have howns : ∀ n x, (k.setMlock m ⟨true, k.pid p⟩).Owns q
      (fun n x => inside n x ∨ n = m ∧ x = p) cur n x →
        n = m ∧ x = p ∨ n ≠ m ∧ k.Owns q inside cur n x := by
    intro n x hx
    have hx' : n = m ∧ x = p ∨ k.Owns q inside cur n x := by
      rcases hx with (hx | hx) | hx
      · exact .inr (.inl hx)
      · exact .inl hx
      · exact .inr (.inr hx)
    refine hx'.imp_right fun hown => ⟨?_, hown⟩
    rintro rfl
    exact Bool.false_ne_true (hfree.symm.trans (ho.locked n x hown))
  refine ⟨fun n x hx => ?_, fun n x hx => ?_, fun n x y hx hy => ?_, fun n x hx => ?_,
    fun n hn => ?_, ho.waits, ho.asleep⟩
  · rcases howns n x hx with ⟨rfl, -⟩ | ⟨hn, hx⟩
    · rw [hself]
    · rw [hmlock n hn]
      exact ho.locked n x hx
  · rcases howns n x hx with ⟨rfl, rfl⟩ | ⟨hn, hx⟩
    · rw [hself]
      rfl
    · rw [hmlock n hn]
      exact ho.pid n x hx
  · rcases howns n x hx with ⟨rfl, rfl⟩ | ⟨hn, hx⟩ <;> rcases howns n y hy with ⟨hn', rfl⟩ | ⟨hn', hy⟩
    · rfl
    · exact absurd rfl hn'
    · exact absurd hn' hn
    · exact ho.unique n x y hx hy
  · rcases hx with hx | ⟨-, rfl⟩
    · exact ho.alive n x hx
    · exact hpid
  · by_cases hn' : n = m
    · rw [hn', hself]
    · rw [hmlock n hn']
      exact ho.queued n hn

/-- A task begins a step. -/
lemma Owners.begin (p : Pcb) (ho : k.Owners q inside none) : k.Owners q inside (some p) := by
  obtain ⟨hlocked, hpid, hunique⟩ := ho.owns_mono k q inside (some p) rfl fun m x hx =>
    ⟨hx.imp_right fun ⟨hx, hc, hs, _⟩ => ⟨hx, hc, hs, by simp⟩, rfl⟩
  exact ⟨hlocked, hpid, hunique, ho.alive, ho.queued, ho.waits, ho.asleep⟩

/-- A task that was handed a mutex enters it. -/
lemma Owners.enter (hm : k.Mid q none none) (ho : k.Owners q inside none)
    (hp : k.Granted q none m p) :
    k.Owners q (fun n x => inside n x ∨ n = m ∧ x = p) (some p) := by
  have howns : ∀ n x, k.Owns q (fun n x => inside n x ∨ n = m ∧ x = p) (some p) n x →
      k.Owns q inside none n x := by
    rintro n x ((hx | ⟨rfl, rfl⟩) | ⟨hx, hc, hs, -⟩)
    · exact .inl hx
    · exact .inr hp
    · exact .inr ⟨hx, hc, hs, by simp⟩
  obtain ⟨hlocked, hpid, hunique⟩ := ho.owns_mono k q
    (fun n x => inside n x ∨ n = m ∧ x = p) (some p) rfl fun n x hx => ⟨howns n x hx, rfl⟩
  refine ⟨hlocked, hpid, hunique, fun n x hx => ?_, ho.queued, ho.waits, ho.asleep⟩
  rcases hx with hx | ⟨-, rfl⟩
  · exact ho.alive n x hx
  · exact (hm.life.live x (by simp)).2 ⟨_, hp.1⟩

/-! ## Death and birth -/

/-- The first part of `release_pcb`. -/
lemma Owners.retire {i : Slot} {h : Head} {L : Links Head Pcb} (hm : k.Mid q none none)
    (ho : k.Owners q inside cur) (hp : .slot i ∈ q h) :
    (k.retire (.slot i) L).Owners (Function.update q h ((q h).erase (.slot i)))
      (fun m x => inside m x ∧ x ≠ .slot i) cur := by
  have hmem : ∀ x g, x ∈ Function.update q h ((q h).erase (.slot i)) g ↔ x ≠ .slot i ∧ x ∈ q g :=
    fun x g => mem_erase_queue hm.lists.repr hp
  obtain ⟨hlocked, hpid, hunique⟩ := ho.owns_mono (k.retire (.slot i) L)
    (Function.update q h ((q h).erase (.slot i))) (fun m x => inside m x ∧ x ≠ .slot i) cur rfl
    fun m x hx => ⟨hx.imp (fun hx => hx.1) fun hx => ⟨((hmem x _).1 hx.1).2, hx.2⟩, rfl⟩
  refine ⟨hlocked, hpid, hunique, fun m x hx => ho.alive m x hx.1, fun m hm' => ?_,
    fun g x hx hg => ho.waits g x ((hmem x g).1 hx).2 hg,
    fun g x hx hg => ho.asleep g x ((hmem x g).1 hx).2 hg⟩
  refine ho.queued m fun hempty => hm' (List.eq_nil_iff_forall_not_mem.2 fun x hx => ?_)
  have := ((hmem x _).1 hx).2
  rw [hempty] at this
  exact List.not_mem_nil this

/-- `release_pcb` of a PCB whose other threads own no mutex. -/
lemma Owners.releasePcb {i : Slot} (hm : k.Mid q none none) (ho : k.Owners q inside cur)
    (hpid : k.pid (.slot i) ≠ 0)
    (hout : out = none ∧ (∀ c, k.runnings c ≠ some (.slot i)) ∨
      ∃ c, out = some c ∧ k.runnings c = some (.slot i))
    (hother : ∀ m x, k.Owns q inside cur m x → x ≠ .slot i → k.pid x ≠ k.pid (.slot i)) :
    ∃ k' q', k.releasePcb (.slot i) = some k' ∧ k'.Mid q' out (some (.slot i)) ∧
      q' (.waitList (.slot i)) = [] ∧ k.pid = k'.pid ∧ k'.runnings = k.runnings ∧
      k'.inKernel = k.inKernel ∧ k'.Owners q' (fun m x => inside m x ∧ x ≠ .slot i) cur := by
  obtain ⟨h, hp⟩ := (hm.life.live (.slot i) (by simp)).1 hpid
  obtain ⟨L, hL, hm₁⟩ := hm.remove hp hout
  have ho₁ := ho.retire (L := L) hm hp
  have hown₁ : ∀ m x, (k.retire (.slot i) L).Owns (Function.update q h ((q h).erase (.slot i)))
      (fun m x => inside m x ∧ x ≠ .slot i) cur m x → k.pid x ≠ k.pid (.slot i) := by
    rintro m x (⟨hin, hx⟩ | ⟨hx, hc, hs⟩)
    · exact hother m x (.inl hin) hx
    · obtain ⟨hxi, hx⟩ := (mem_erase_queue hm.lists.repr hp).1 hx
      exact hother m x (.inr ⟨hx, hc, hs⟩) hxi
  -- the loop over the mutexes: those before `ms` are done, the others are as they were
  obtain ⟨k₂, q₂, hk₂, hm₂, hquiet₂, ho₂, -⟩ := releaseMlocks_rule
    (k.pid (.slot i)) (List.finRange 16) (k := k.retire (.slot i) L)
    (q := Function.update q h ((q h).erase (.slot i)))
    (P := fun ms k' q' => k'.Mid q' out (some (.slot i)) ∧ (k.retire (.slot i) L).Quiet k' ∧
      k'.Owners q' (fun m x => inside m x ∧ x ≠ .slot i) cur ∧ ms.Nodup ∧
      ∀ m ∈ ms, k'.mlocks m = k.mlocks m ∧
        ∀ x, k'.Owns q' (fun m x => inside m x ∧ x ≠ .slot i) cur m x → k.pid x ≠ k.pid (.slot i))
    (fun m ms k' q' ⟨hm', hquiet', ho', hnodup, htodo⟩ _ =>
      ⟨hm', hquiet', ho', hnodup.of_cons, fun n hn => htodo n (List.mem_cons_of_mem _ hn)⟩)
    (fun m ms k' q' ⟨hm', hquiet', ho', hnodup, htodo⟩ hown => by
      have hpid' : k'.pid = k.pid := hquiet'.pid
      obtain ⟨k'', q'', hk'', hm'', hquiet'', hrel⟩ := hm'.mutexLockRelease m
      -- nobody owns the mutex: it has the pid of the PCB, and no other thread owns one
      have hnone : ∀ x, ¬ k'.Owns q' (fun m x => inside m x ∧ x ≠ .slot i) cur m x := by
        intro x hx
        refine (htodo m List.mem_cons_self).2 x hx ?_
        rw [← hown, ho'.pid m x hx, hpid']
      have hlive : ∀ p ∈ q' (.blockQueue m), k'.pid p ≠ 0 := by
        intro p hp
        have hne : some p ≠ some (.slot i) := fun heq =>
          hm'.life.off _ rfl _ (Option.some.inj heq ▸ hp)
        exact (hm'.life.live p hne).2 ⟨_, hp⟩
      obtain ⟨ho'', -, hsame, -⟩ := ho'.release hm' (fun _ _ hx => hx)
        (fun x hx => absurd hx (hnone x)) hlive hrel
      refine ⟨k'', q'', hk'', hm'', hquiet'.trans hquiet'', ho'', hnodup.of_cons, fun n hn => ?_⟩
      have hnm : n ≠ m := by
        rintro rfl
        exact (List.nodup_cons.1 hnodup).1 hn
      obtain ⟨hmlock, hothers⟩ := htodo n (List.mem_cons_of_mem _ hn)
      refine ⟨by rw [hsame n hnm, hmlock], fun x hx => hothers x ?_⟩
      exact hrel.owns_of_ne hm' ho' hnm hx)
    ⟨hm₁, Quiet.refl _, ho₁, List.nodup_finRange 16, fun m _ => ⟨rfl, hown₁ m⟩⟩
  obtain ⟨k₃, q₃, hk₃, hw, hempty⟩ := hm₂.unblockAll (h := .waitList (.slot i)) (by simp)
    (fun r hr => by
      obtain rfl := Head.waitList.inj hr
      rw [hquiet₂.pid]
      exact hpid)
  obtain ⟨hm₃, hquiet₃⟩ := hw.mid (by simp) hm₂
  exact ⟨k₃, q₃, by rw [releasePcb_eq hL, hk₂, Option.bind_some, hk₃], hm₃, hempty,
    (hquiet₃.pid.trans hquiet₂.pid).symm, hquiet₃.runnings.trans hquiet₂.runnings,
    hquiet₃.inKernel.trans hquiet₂.inKernel, hw.owners (by simp) (by simp) hm₂ ho₂⟩

/-- A PCB that owns nothing and is on no queue loses its pid. -/
lemma Owners.clearPid {i : Slot} (hoff : ∀ g, .slot i ∉ q g)
    (ho : k.Owners q (fun m x => inside m x ∧ x ≠ .slot i) cur) :
    (k.clearPid (.slot i)).Owners q (fun m x => inside m x ∧ x ≠ .slot i) cur := by
  have hpid : ∀ x, x ≠ .slot i → (k.clearPid (.slot i)).pid x = k.pid x := fun x hx =>
    Function.update_of_ne hx ..
  have hne : ∀ m x, k.Owns q (fun m x => inside m x ∧ x ≠ .slot i) cur m x → x ≠ .slot i := by
    rintro m x (hx | hx)
    · exact hx.2
    · rintro rfl
      exact hoff _ hx.1
  obtain ⟨hlocked, hpid', hunique⟩ := ho.owns_mono (k.clearPid (.slot i)) q
    (fun m x => inside m x ∧ x ≠ .slot i) cur rfl fun m x hx => ⟨hx, hpid x (hne m x hx)⟩
  refine ⟨hlocked, hpid', hunique, fun m x hx => ?_, ho.queued, ho.waits, ho.asleep⟩
  rw [hpid x hx.2]
  exact ho.alive m x hx

/-- A new PCB, of a new process or of an old one. -/
lemma Owners.created {i : Slot} (pid : ℤ) (pgdir : ℕ) (L : Links Head Pcb) (hm : k.Mid q none none)
    (ho : k.Owners q inside cur) (hfree : k.pid (.slot i) = 0) :
    (k.created i pid pgdir L).Owners
      (Function.update q .readyQueue (q .readyQueue ++ [.slot i])) inside cur := by
  have hoff : ∀ g, .slot i ∉ q g := fun g hmem =>
    (hm.life.live (.slot i) (by simp)).2 ⟨g, hmem⟩ hfree
  have hne : ∀ g x, x ∈ q g → x ≠ .slot i := fun g x hx heq => hoff g (heq ▸ hx)
  have hpid : ∀ x, x ≠ .slot i → (k.created i pid pgdir L).pid x = k.pid x := fun x hx =>
    Function.update_of_ne hx ..
  have hcont : ∀ x, x ≠ .slot i → (k.created i pid pgdir L).cont x = k.cont x := fun x hx =>
    Function.update_of_ne hx ..
  have hself : (k.created i pid pgdir L).cont (.slot i) = .ret := Function.update_self ..
  have halive : ∀ m x, inside m x → x ≠ .slot i := by
    rintro m x hx rfl
    exact ho.alive m _ hx hfree
  have howns : ∀ m x, (k.created i pid pgdir L).Owns
      (Function.update q .readyQueue (q .readyQueue ++ [.slot i])) inside cur m x →
      k.Owns q inside cur m x ∧ x ≠ .slot i := by
    rintro m x (hx | ⟨hx, hc, hs⟩)
    · exact ⟨.inl hx, halive m x hx⟩
    · have hxi : x ≠ .slot i := by
        rintro rfl
        rw [hself] at hc
        cases hc
      rw [Function.update_self, List.mem_append, List.mem_singleton] at hx
      exact ⟨.inr ⟨hx.resolve_right hxi, hcont x hxi ▸ hc, hs⟩, hxi⟩
  have hold : ∀ g x, g ≠ .readyQueue →
      x ∈ Function.update q .readyQueue (q .readyQueue ++ [.slot i]) g → x ∈ q g := by
    intro g x hg hx
    rwa [Function.update_of_ne hg] at hx
  obtain ⟨hlocked, hpid', hunique⟩ := ho.owns_mono (k.created i pid pgdir L)
    (Function.update q .readyQueue (q .readyQueue ++ [.slot i])) inside cur rfl
    fun m x hx => ⟨(howns m x hx).1, hpid x (howns m x hx).2⟩
  refine ⟨hlocked, hpid', hunique, fun m x hx => ?_, fun m hm' => ?_, fun g x hx hg => ?_,
    fun g x hx hg => ho.asleep g x (hold g x hg hx) hg⟩
  · rw [hpid x (halive m x hx)]
    exact ho.alive m x hx
  · rw [Function.update_of_ne (by simp)] at hm'
    exact ho.queued m hm'
  · have hx := hold g x hg hx
    rw [hcont x (hne g x hx)]
    exact ho.waits g x hx hg

/-- The first switch of CPU 1. -/
lemma Owners.slaveJoin {second : Pcb} (hm : k.Mid q none none) (ho : k.Owners q inside cur)
    (h1 : k.runnings 1 = none) (hsecond : second ∈ q .readyQueue) :
    (({ k with runnings := Function.update k.runnings 1 (some second) }.setStatus second
      .running).switchTo 1 .pid0Pcb2 .ret).Owners q inside cur := by
  obtain ⟨k', hk'⟩ : ∃ k' : Kernel, k' = ({ k with
      runnings := Function.update k.runnings 1 (some second) }.setStatus second
      .running).switchTo 1 .pid0Pcb2 .ret := ⟨_, rfl⟩
  rw [← hk']
  have hidle : ∀ g x, x ∈ q g → x ≠ .pid0Pcb2 := by
    rintro g x hx rfl
    exact hm.lists.idle_notMem 1 g hx
  have hruns : ∀ d, d ≠ 1 → k'.runnings d = k.runnings d := fun d hd => by
    rw [hk']
    exact Function.update_of_ne hd (some second) k.runnings
  have hruns1 : k'.runnings 1 = some second := by
    rw [hk']
    exact Function.update_self (1 : Cpu) (some second) k.runnings
  have hker : k'.inKernel = some 1 := by rw [hk']; rfl
  have hcont : ∀ g x, x ∈ q g → k'.cont x = k.cont x := fun g x hx => by
    rw [hk']
    exact Function.update_of_ne (hidle g x hx) ..
  have hgranted : ∀ m x, k'.Granted q cur m x → k.Granted q cur m x := by
    rintro m x ⟨hx, hc, hs, hcur⟩
    refine ⟨hx, hcont _ x hx ▸ hc, fun d hd => ?_, hcur⟩
    have hd1 : d ≠ 1 := by
      rintro rfl
      exact Option.some_ne_none x (hd.symm.trans h1)
    have := (hs d (by rw [hruns d hd1, hd])).symm.trans hker
    exact absurd (Option.some.inj this) hd1
  have hmlocks : k'.mlocks = k.mlocks := by rw [hk']; rfl
  have hpid : k'.pid = k.pid := by rw [hk']; rfl
  obtain ⟨hlocked, hpid', hunique⟩ := ho.owns_mono k' q inside cur hmlocks
    fun m x hx => ⟨hx.imp_right (hgranted m x), by rw [hpid]⟩
  refine ⟨hlocked, hpid', hunique, ?_, ?_, fun g x hx hg => ?_, fun g x hx hg d hd => ?_⟩
  · rw [hpid]; exact ho.alive
  · rw [hmlocks]; exact ho.queued
  · rw [hcont g x hx]
    exact ho.waits g x hx hg
  · by_cases hd1 : d = 1
    · rw [hd1, hruns1, Option.some.injEq] at hd
      exact hg (hm.lists.repr.disjoint _ _ x hx (hd ▸ hsecond))
    · rw [hruns d hd1] at hd
      exact ho.asleep g x hx hg d hd

end Primitives

end Kernel
end Sched
end UcasKernel
