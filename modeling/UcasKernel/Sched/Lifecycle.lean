/-
Creation and death of PCBs under the invariant of the scheduler.

Death has two parts.  `release_pcb` takes the PCB off its queue and wakes others;
from then on it counts as `gone`.  Clearing its pid ends the release: the PCB is
dead, and its page directory is freed if no live PCB uses it.
-/
import UcasKernel.Sched.Operations

namespace UcasKernel
namespace Sched
namespace Kernel

section Count

variable {k : Kernel} {i : Slot}

lemma pidCount_none (k : Kernel) (i : Slot) (v : ℤ) :
    k.pidCount none v =
      k.pidCount (some (.slot i)) v + if k.pid (.slot i) = v then 1 else 0 := by
  have hfilter : (Finset.univ.filter fun j : Slot =>
      k.pid (.slot j) = v ∧ some (Pcb.slot j) ≠ some (.slot i)) =
      (Finset.univ.filter fun j : Slot => k.pid (.slot j) = v ∧ some (Pcb.slot j) ≠ none).erase i := by
    ext j
    simp only [Finset.mem_filter, Finset.mem_univ, true_and, Finset.mem_erase, ne_eq,
      Option.some.injEq, Pcb.slot.injEq, reduceCtorEq, not_false_eq_true, and_true]
    tauto
  unfold pidCount
  rw [hfilter]
  by_cases hi : k.pid (.slot i) = v
  · have hmem : i ∈ Finset.univ.filter fun j : Slot =>
        k.pid (.slot j) = v ∧ some (Pcb.slot j) ≠ none := by simp [hi]
    rw [if_pos hi, Finset.card_erase_of_mem hmem]
    have := Finset.card_pos.2 ⟨i, hmem⟩
    omega
  · rw [if_neg hi, Finset.erase_eq_of_notMem (by simp [hi]), Nat.add_zero]

/-- Changing the pid of a PCB that does not count changes no count. -/
lemma pidCount_update (k k' : Kernel) (i : Slot) (v w : ℤ)
    (hpid : k'.pid = Function.update k.pid (.slot i) w) :
    k'.pidCount (some (.slot i)) v = k.pidCount (some (.slot i)) v := by
  unfold pidCount
  congr 1
  ext j
  simp only [Finset.mem_filter, Finset.mem_univ, true_and, ne_eq, Option.some.injEq, hpid]
  by_cases hj : Pcb.slot j = .slot i
  · simp [hj]
  · simp [Function.update_of_ne hj]

/-- Some other PCB with the pid counts. -/
lemma pidCount_pos {j : Slot} {v : ℤ} (hj : k.pid (.slot j) = v) (hne : j ≠ i) :
    0 < k.pidCount (some (.slot i)) v :=
  Finset.card_pos.2 ⟨j, by simp [hj, hne]⟩

/-- No other PCB with the pid counts. -/
lemma pidCount_eq_zero {v : ℤ} (h : ∀ j, k.pid (.slot j) = v → j = i) :
    k.pidCount (some (.slot i)) v = 0 := by
  unfold pidCount
  rw [Finset.card_eq_zero, Finset.filter_eq_empty_iff]
  rintro j -
  simp only [ne_eq, Option.some.injEq, Pcb.slot.injEq, not_and, not_not]
  exact h j

end Count

variable {k : Kernel} {q : Head → List Pcb}

/-! ## Release -/

/-- The queues without a PCB. -/
lemma mem_erase_queue {L : Links Head Pcb} {p x : Pcb} {h g : Head} (hr : L.Repr q) (hp : p ∈ q h) :
    x ∈ Function.update q h ((q h).erase p) g ↔ x ≠ p ∧ x ∈ q g := by
  rcases eq_or_ne g h with rfl | hg
  · rw [Function.update_self, (hr.nodup g).mem_erase_iff]
  · rw [Function.update_of_ne hg]
    refine ⟨fun hx => ⟨?_, hx⟩, fun hx => hx.2⟩
    rintro rfl
    exact hg (hr.disjoint g h x hx hp)

/-- The kernel once `release_pcb` deleted the entry of `p`, with the heap it left. -/
def retire (k : Kernel) (p : Pcb) (L : Links Head Pcb) : Kernel :=
  { k with
    links := L
    status := Function.update k.status p .exited
    threads := Function.update k.threads (k.pid p) (k.threads (k.pid p) - 1) }

lemma releasePcb_eq {p : Pcb} {L : Links Head Pcb} (hL : k.links.delete p = some L) :
    k.releasePcb p = (Kernel.releaseMlocks (k.pid p) (List.finRange 16) (k.retire p L)).bind
      fun k => Kernel.unblockAll (.waitList p) loopBound k := by
  simp only [Kernel.releasePcb, listDeleteEntry, setStatus, hL, Option.map_some,
    Option.bind_eq_bind, Option.bind_some]
  rfl

/-- The first part of `release_pcb`: from here on the PCB is `gone`, and if a CPU
runs it, that CPU is `out`. -/
lemma Mid.remove {i : Slot} {h : Head} {out : Option Cpu} (hm : k.Mid q none none)
    (hp : .slot i ∈ q h)
    (hout : out = none ∧ (∀ c, k.runnings c ≠ some (.slot i)) ∨
      ∃ c, out = some c ∧ k.runnings c = some (.slot i)) :
    ∃ L : Links Head Pcb, k.links.delete (.slot i) = some L ∧
      Mid (k.retire (.slot i) L)
        (Function.update q h ((q h).erase (.slot i))) out (some (.slot i)) := by
  have hr := hm.lists.repr
  obtain ⟨L, hL, hr', hinit⟩ := hr.delete hp
  have hmem : ∀ x g, x ∈ Function.update q h ((q h).erase (.slot i)) g ↔ x ≠ .slot i ∧ x ∈ q g :=
    fun x g => mem_erase_queue hr hp
  -- the CPUs that count do not run the PCB
  have hrun : ∀ c, some c ≠ out → k.runnings c ≠ some (.slot i) := by
    rcases hout with ⟨-, hno⟩ | ⟨c, rfl, hc⟩
    · exact fun c _ => hno c
    · intro d hd hrun
      exact hd (by rw [hm.runs.distinct d c _ (by simp) (by simp) hrun hc])
  have hpid : k.pid (.slot i) ≠ 0 := (hm.life.live _ (by simp)).2 ⟨h, hp⟩
  refine ⟨L, hL, ⟨⟨hr', fun g hg => (hinit g).2 (hm.lists.init g hg),
    fun g x hx => hm.lists.slots g x ((hmem x g).1 hx).2⟩, ?_, ?_, hm.stuck⟩⟩
  · constructor
    case master => exact hm.runs.master
    case joined =>
      rintro rfl
      rcases hout with ⟨h0, -⟩ | ⟨c, hc, hc'⟩
      · cases h0
      · obtain rfl := Option.some.inj hc
        exact fun h1 => Option.some_ne_none _ (hc'.symm.trans h1)
    case run =>
      intro c x hc hx
      refine (hm.runs.run c x (by simp) hx).imp_right fun hxmem => (hmem x _).2 ⟨?_, hxmem⟩
      rintro rfl
      exact hrun c hc hx
    case distinct => exact fun c d x _ _ => hm.runs.distinct c d x (by simp) (by simp)
    case status =>
      intro x hx
      obtain ⟨hxp, hxmem⟩ := (hmem x _).1 hx
      simp only [retire, Function.update_of_ne hxp]
      rw [hm.runs.status x hxmem]
      constructor
      · rintro ⟨c, -, hc⟩
        refine ⟨c, ?_, hc⟩
        rintro rfl
        rcases hout with ⟨h0, -⟩ | ⟨d, hd, hd'⟩
        · cases h0
        · obtain rfl := Option.some.inj hd
          exact hxp (Option.some.inj (hc.symm.trans hd'))
      · rintro ⟨c, -, hc⟩
        exact ⟨c, by simp, hc⟩
    case head =>
      intro h1 h0 x hx
      refine (hm.runs.head h1 (by simp) x hx).imp_right fun ⟨l, hl⟩ => ?_
      have hxp : x ≠ .slot i := by
        rintro rfl
        exact hrun 0 h0 hx
      rcases eq_or_ne .readyQueue h with rfl | hne
      · refine ⟨l.erase (.slot i), ?_⟩
        rw [Function.update_self, hl, List.erase_cons_tail (by simpa using hxp)]
      · exact ⟨l, by rw [Function.update_of_ne hne, hl]⟩
    case satp => exact fun c hc => hm.runs.satp c (by simp)
  · have hl := hm.life
    refine ⟨hl.pidRange, hl.processId, hl.idlePid, fun x hx => ?_, fun x hx g hmem' => ?_,
      fun x hx => (hinit _).2 (hl.waitInit x hx), fun x hx => ?_, fun v hv => ?_,
      fun x _ => hl.pgdirLive x (by simp), hl.pgdirPos, hl.pgdirLt, hl.pgdirPid, hl.idlePgdir,
      hl.kernelPgdir, hl.unused, hl.idleCont⟩
    · have hxp : x ≠ .slot i := fun heq => hx (by rw [heq])
      change k.pid x ≠ 0 ↔ _
      rw [hl.live x (by simp)]
      simp only [hmem, ne_eq, hxp, not_false_eq_true, true_and]
    · obtain rfl := Option.some.inj hx
      exact ((hmem _ g).1 hmem').1 rfl
    · refine List.eq_nil_iff_forall_not_mem.2 fun y hy => ?_
      have hempty := hl.waitEmpty x hx
      have := ((hmem y _).1 hy).2
      rw [hempty] at this
      exact List.not_mem_nil this
    · have hcount := pidCount_none k i v
      have hthreads := hl.threads v hv
      have hsame : ∀ k' : Kernel, k'.pid = k.pid →
          k'.pidCount (some (.slot i)) v = k.pidCount (some (.slot i)) v := by
        intro k' hk'
        simp only [pidCount, hk']
      rw [hsame (k.retire (.slot i) L) rfl]
      by_cases hv' : k.pid (.slot i) = v
      · rw [if_pos hv'] at hcount
        simp only [retire]
        rw [← hv', Function.update_self, hv', hthreads, hcount]
        push_cast
        ring
      · rw [if_neg hv'] at hcount
        simp only [retire]
        rw [Function.update_of_ne (Ne.symm hv'), hthreads, hcount, Nat.add_zero]

/-- `release_pcb` of a live PCB. -/
lemma Mid.releasePcb {i : Slot} {out : Option Cpu} (hm : k.Mid q none none)
    (hpid : k.pid (.slot i) ≠ 0)
    (hout : out = none ∧ (∀ c, k.runnings c ≠ some (.slot i)) ∨
      ∃ c, out = some c ∧ k.runnings c = some (.slot i)) :
    ∃ k' q', k.releasePcb (.slot i) = some k' ∧ k'.Mid q' out (some (.slot i)) ∧
      q' (.waitList (.slot i)) = [] ∧ k'.pid = k.pid ∧ k'.runnings = k.runnings ∧
      k'.processId = k.processId := by
  obtain ⟨h, hp⟩ := (hm.life.live (.slot i) (by simp)).1 hpid
  obtain ⟨L, hL, hm₁⟩ := hm.remove hp hout
  obtain ⟨k₂, q₂, hk₂, hm₂, hquiet₂⟩ :=
    hm₁.releaseMlocks (k.pid (.slot i)) (List.finRange 16)
  obtain ⟨k₃, q₃, hk₃, hw, hempty⟩ := hm₂.unblockAll (h := .waitList (.slot i)) (by simp)
    (fun r hr => by
      obtain rfl := Head.waitList.inj hr
      rw [hquiet₂.pid]
      exact hpid)
  obtain ⟨hm₃, hquiet₃⟩ := hw.mid (by simp) hm₂
  refine ⟨k₃, q₃, ?_, hm₃, hempty, ?_, ?_, ?_⟩
  · rw [releasePcb_eq hL, hk₂, Option.bind_some, hk₃]
  · exact hquiet₃.pid.trans hquiet₂.pid
  · exact hquiet₃.runnings.trans hquiet₂.runnings
  · exact hquiet₃.processId.trans hquiet₂.processId

/-- The pid of a released PCB is cleared. -/
lemma Mid.dropPid {i : Slot} {out : Option Cpu} (hm : k.Mid q out (some (.slot i)))
    (hwait : q (.waitList (.slot i)) = []) : (k.clearPid (.slot i)).Mid q out none := by
  have hl := hm.life
  have hpid' : ∀ x, (k.clearPid (.slot i)).pid x ≠ 0 → x ≠ .slot i ∧ k.pid x ≠ 0 := by
    intro x hx
    have hxp : x ≠ .slot i := by
      rintro rfl
      exact hx (Function.update_self ..)
    refine ⟨hxp, ?_⟩
    simpa [Kernel.clearPid, hxp] using hx
  refine ⟨⟨hm.lists.repr, hm.lists.init, hm.lists.slots⟩,
    ⟨hm.runs.master, hm.runs.joined, hm.runs.run, hm.runs.distinct, hm.runs.status, hm.runs.head,
      hm.runs.satp⟩, ?_, hm.stuck⟩
  constructor
  case pidRange =>
    intro x hx
    obtain ⟨hxp, hx0⟩ := hpid' x hx
    simpa [Kernel.clearPid, hxp] using hl.pidRange x hx0
  case processId => exact hl.processId
  case idlePid =>
    intro c
    simp only [Kernel.clearPid, Function.update_of_ne (idlePcb_ne_slot c i)]
    exact hl.idlePid c
  case live =>
    intro x _
    by_cases hxp : x = .slot i
    · subst hxp
      simp only [Kernel.clearPid, Function.update_self, ne_eq, not_true_eq_false, false_iff,
        not_exists]
      exact hl.off _ rfl
    · simp only [Kernel.clearPid, Function.update_of_ne hxp]
      exact hl.live x (by simpa using hxp)
  case off => simp
  case waitInit => exact fun x hx => hl.waitInit x (hpid' x hx).2
  case waitEmpty =>
    intro x hx
    by_cases hxp : x = .slot i
    · rw [hxp]
      exact hwait
    · simp only [Kernel.clearPid, Function.update_of_ne hxp] at hx
      exact hl.waitEmpty x hx
  case threads =>
    intro v hv
    have hcount := pidCount_none (k.clearPid (.slot i)) i v
    rw [if_neg (by simp [Kernel.clearPid, hv.symm]), Nat.add_zero,
      pidCount_update k _ i v 0 rfl] at hcount
    rw [hcount]
    exact hl.threads v hv
  case pgdirLive =>
    intro x _ hx
    obtain ⟨hxp, hx0⟩ := hpid' x hx
    exact hl.pgdirLive x (by simpa using hxp) hx0
  case pgdirPos => exact fun x hx => hl.pgdirPos x (hpid' x hx).2
  case pgdirLt => exact hl.pgdirLt
  case pgdirPid =>
    intro x y hx hy heq
    obtain ⟨hxp, hx0⟩ := hpid' x hx
    obtain ⟨hyp, hy0⟩ := hpid' y hy
    simp only [Kernel.clearPid, Function.update_of_ne hxp, Function.update_of_ne hyp]
    exact hl.pgdirPid x y hx0 hy0 heq
  case idlePgdir => exact hl.idlePgdir
  case kernelPgdir => exact hl.kernelPgdir
  case unused => exact hl.unused
  case idleCont => exact hl.idleCont

/-- A page directory that no live PCB uses is freed. -/
lemma Mid.freePgdirOf {p : Pcb} {out : Option Cpu} (hm : k.Mid q out none) (hpos : 0 < k.pgdir p)
    (hunused : ∀ x, k.pid x ≠ 0 → k.pgdir x ≠ k.pgdir p) : (k.freePgdir p).Mid q out none := by
  have hl := hm.life
  refine ⟨⟨hm.lists.repr, hm.lists.init, hm.lists.slots⟩,
    ⟨hm.runs.master, hm.runs.joined, hm.runs.run, hm.runs.distinct, hm.runs.status, hm.runs.head,
      hm.runs.satp⟩, ?_, hm.stuck⟩
  refine ⟨hl.pidRange, hl.processId, hl.idlePid, hl.live, hl.off, hl.waitInit, hl.waitEmpty,
    hl.threads, fun x _ hx => ?_, hl.pgdirPos, hl.pgdirLt, hl.pgdirPid, hl.idlePgdir, ?_,
    fun n hn => ?_, hl.idleCont⟩
  · simp only [Kernel.freePgdir, Function.update_of_ne (hunused x hx)]
    exact hl.pgdirLive x (by simp) hx
  · simp only [Kernel.freePgdir, Function.update_of_ne hpos.ne]
    exact hl.kernelPgdir
  · have hn' : n ≠ k.pgdir p := ((hl.pgdirLt p).trans_le hn).ne'
    simp only [Kernel.freePgdir, Function.update_of_ne hn']
    exact hl.unused n hn

/-- The end of a release: the page directory is freed and the pid is cleared. -/
lemma Mid.clearPid {i : Slot} {out : Option Cpu} (hm : k.Mid q out (some (.slot i)))
    (hpid : k.pid (.slot i) ≠ 0) (hwait : q (.waitList (.slot i)) = [])
    (hlast : k.threads (k.pid (.slot i)) = 0) :
    ((k.freePgdir (.slot i)).clearPid (.slot i)).Mid q out none := by
  have hl := hm.life
  refine (hm.dropPid hwait).freePgdirOf (hl.pgdirPos _ hpid) fun x hx heq => ?_
  -- nobody else uses the page directory
  have hxp : x ≠ .slot i := by
    rintro rfl
    exact hx (Function.update_self ..)
  have hx0 : k.pid x ≠ 0 := by simpa [Kernel.clearPid, hxp] using hx
  obtain ⟨j, rfl⟩ : ∃ j, x = .slot j := by
    obtain ⟨g, hg⟩ := (hl.live x (by simpa using hxp)).1 hx0
    exact hm.lists.slots g x hg
  have hcount := pidCount_pos (i := i) (hl.pgdirPid _ _ hx0 hpid heq) (by simpa using hxp)
  have hthreads := hl.threads _ hpid
  rw [hlast] at hthreads
  omega

/-! ## Creation -/

/-- The kernel with a new PCB, and the heap its creation left. -/
def created (k : Kernel) (i : Slot) (pid : ℤ) (pgdir : ℕ) (L : Links Head Pcb) : Kernel :=
  { k with
    links := L
    pid := Function.update k.pid (.slot i) pid
    tid := Function.update k.tid (.slot i) (k.threads pid + 1)
    threads := Function.update k.threads pid (k.threads pid + 1)
    status := Function.update k.status (.slot i) .ready
    pgdir := Function.update k.pgdir (.slot i) pgdir
    cont := Function.update k.cont (.slot i) .ret }

lemma initPcb_eq {i : Slot} {pid : ℤ} {pgdir : ℕ} {L : Links Head Pcb}
    (hL : k.links.addTail (.slot i) .readyQueue = some L) :
    k.initPcb i pid pgdir =
      some (k.created i pid pgdir (L.initHead (.waitList (.slot i)))) := by
  simp only [initPcb, setStatus, listAddTail, hL, Option.map_some, Option.bind_eq_bind,
    Option.bind_some, created, Function.update_self]

/-- An unused PCB gets a pid: a new one, or the one of the process whose page
directory it shares. -/
lemma Mid.initPcb (i : Slot) (pid : ℤ) (pgdir : ℕ) (hm : k.Mid q none none)
    (hfree : k.pid (.slot i) = 0) (hpid : 0 < pid ∧ pid < k.processId)
    (hpgdir : 0 < pgdir ∧ pgdir < k.nextPgdir) (hlive : k.freed pgdir = false)
    (hsame : ∀ r, k.pid r ≠ 0 → k.pgdir r = pgdir → k.pid r = pid) :
    ∃ L : Links Head Pcb, k.initPcb i pid pgdir = some (k.created i pid pgdir L) ∧
      (k.created i pid pgdir L).Mid
        (Function.update q .readyQueue (q .readyQueue ++ [.slot i])) none none := by
  have hr := hm.lists.repr
  have hoff : ∀ h, .slot i ∉ q h := fun h hmem =>
    (hm.life.live (.slot i) (by simp)).2 ⟨h, hmem⟩ hfree
  obtain ⟨L, hL, hr', hinit⟩ := hr.addTail (hm.lists.init .readyQueue (by simp)) hoff
  obtain ⟨hr'', hinit'⟩ := hr'.initHead (h := .waitList (.slot i)) (by
    rw [Function.update_of_ne (by simp)]
    exact hm.life.waitEmpty _ hfree)
  have hmem : ∀ x g, x ∈ Function.update q .readyQueue (q .readyQueue ++ [.slot i]) g ↔
      x ∈ q g ∨ x = .slot i ∧ g = .readyQueue := by
    intro x g
    by_cases hg : g = .readyQueue
    · subst hg
      simp
    · simp [hg]
  have hnorun : ∀ c, k.runnings c ≠ some (.slot i) := by
    intro c hc
    rcases hm.runs.run c _ (by simp) hc with hidle | hready
    · exact idlePcb_ne_slot c i hidle.symm
    · exact hoff _ hready
  refine ⟨_, initPcb_eq hL, ⟨⟨hr'', fun h hh => ?_, fun h x hx => ?_⟩, ?_, ?_, hm.stuck⟩⟩
  · exact (hinit' h).2 (.inr ((hinit h).2 (hm.lists.init h hh)))
  · rcases (hmem x h).1 hx with hx | ⟨rfl, -⟩
    · exact hm.lists.slots h x hx
    · exact ⟨i, rfl⟩
  · constructor
    case master => exact hm.runs.master
    case joined => simp
    case run =>
      exact fun c x hc hx => (hm.runs.run c x hc hx).imp_right fun h => (hmem x _).2 (.inl h)
    case distinct => exact hm.runs.distinct
    case status =>
      intro x hx
      rcases (hmem x _).1 hx with hx | ⟨rfl, -⟩
      · have hxi : x ≠ .slot i := by
          rintro rfl
          exact hoff _ hx
        simp only [created, Function.update_of_ne hxi]
        exact hm.runs.status x hx
      · simp only [created, Function.update_self, reduceCtorEq, false_iff, not_exists, not_and]
        exact fun c _ => hnorun c
    case head =>
      intro h1 h0 x hx
      refine (hm.runs.head h1 h0 x hx).imp_right fun ⟨l, hl⟩ => ⟨l ++ [.slot i], ?_⟩
      rw [Function.update_self, hl, List.cons_append]
    case satp =>
      intro c hc
      refine (hm.runs.satp c hc).imp_right fun ⟨x, hx, hsatp⟩ => ⟨x, hx, ?_⟩
      have hxi : x ≠ .slot i := by
        rintro rfl
        exact hnorun c hx
      simp only [created, Function.update_of_ne hxi]
      exact hsatp
  · have hl := hm.life
    -- the live PCBs after the creation
    have hpid' : ∀ x, (k.created i pid pgdir (L.initHead (.waitList (.slot i)))).pid x ≠ 0 →
        x = .slot i ∨ x ≠ .slot i ∧ k.pid x ≠ 0 := by
      intro x hx
      by_cases hxi : x = .slot i
      · exact .inl hxi
      · simp only [created, Function.update_of_ne hxi] at hx
        exact .inr ⟨hxi, hx⟩
    constructor
    case pidRange =>
      intro x hx
      rcases hpid' x hx with rfl | ⟨hxi, hx0⟩
      · simpa only [created, Function.update_self] using hpid
      · simpa only [created, Function.update_of_ne hxi] using hl.pidRange x hx0
    case processId => exact hl.processId
    case idlePid =>
      intro c
      simp only [created, Function.update_of_ne (idlePcb_ne_slot c i)]
      exact hl.idlePid c
    case live =>
      intro x _
      by_cases hxi : x = .slot i
      · subst hxi
        simp only [created, Function.update_self]
        exact ⟨fun _ => ⟨.readyQueue, (hmem _ _).2 (.inr ⟨rfl, rfl⟩)⟩, fun _ => hpid.1.ne'⟩
      · simp only [created, Function.update_of_ne hxi, hmem, hxi, false_and, or_false]
        exact hl.live x (by simp)
    case off => simp
    case waitInit =>
      intro x hx
      refine (hinit' _).2 ?_
      rcases hpid' x hx with rfl | ⟨-, hx0⟩
      · exact .inl rfl
      · exact .inr ((hinit _).2 (hl.waitInit x hx0))
    case waitEmpty =>
      intro x hx
      have hxi : x ≠ .slot i := by
        rintro rfl
        simp only [created, Function.update_self] at hx
        exact hpid.1.ne' hx
      simp only [created, Function.update_of_ne hxi] at hx
      rw [Function.update_of_ne (by simp)]
      exact hl.waitEmpty x hx
    case threads =>
      intro v hv
      have hafter := pidCount_none (k.created i pid pgdir (L.initHead (.waitList (.slot i)))) i v
      have hbefore := pidCount_none k i v
      rw [pidCount_update k _ i v pid rfl] at hafter
      rw [if_neg (by rw [hfree]; exact hv.symm), Nat.add_zero] at hbefore
      rw [hafter, ← hbefore]
      have hthreads := hl.threads v hv
      by_cases hvp : pid = v
      · subst hvp
        simp only [created, Function.update_self, if_true, hthreads]
        push_cast
        ring
      · simp only [created, Function.update_of_ne (Ne.symm hvp), Function.update_self, if_neg hvp,
          Nat.add_zero, hthreads]
    case pgdirLive =>
      intro x _ hx
      rcases hpid' x hx with rfl | ⟨hxi, hx0⟩
      · simpa only [created, Function.update_self] using hlive
      · simpa only [created, Function.update_of_ne hxi] using hl.pgdirLive x (by simp) hx0
    case pgdirPos =>
      intro x hx
      rcases hpid' x hx with rfl | ⟨hxi, hx0⟩
      · simpa only [created, Function.update_self] using hpgdir.1
      · simpa only [created, Function.update_of_ne hxi] using hl.pgdirPos x hx0
    case pgdirLt =>
      intro x
      by_cases hxi : x = .slot i
      · subst hxi
        simpa only [created, Function.update_self] using hpgdir.2
      · simpa only [created, Function.update_of_ne hxi] using hl.pgdirLt x
    case pgdirPid =>
      intro x y hx hy heq
      rcases hpid' x hx with rfl | ⟨hxi, hx0⟩ <;> rcases hpid' y hy with rfl | ⟨hyi, hy0⟩
      · rfl
      · simp only [created, Function.update_self, Function.update_of_ne hyi] at heq ⊢
        exact (hsame y hy0 heq.symm).symm
      · simp only [created, Function.update_self, Function.update_of_ne hxi] at heq ⊢
        exact hsame x hx0 heq
      · simp only [created, Function.update_of_ne hxi, Function.update_of_ne hyi] at heq ⊢
        exact hl.pgdirPid x y hx0 hy0 heq
    case idlePgdir =>
      intro c
      simp only [created, Function.update_of_ne (idlePcb_ne_slot c i)]
      exact hl.idlePgdir c
    case kernelPgdir => exact hl.kernelPgdir
    case unused => exact hl.unused
    case idleCont =>
      intro c
      simp only [created, Function.update_of_ne (idlePcb_ne_slot c i)]
      exact hl.idleCont c

/-- The counters for pids and page directories are ahead of the ones in use. -/
lemma Mid.grow (hm : k.Mid q none none) :
    Mid { k with processId := k.processId + 1, nextPgdir := k.nextPgdir + 1 } q none none := by
  refine ⟨⟨hm.lists.repr, hm.lists.init, hm.lists.slots⟩,
    ⟨hm.runs.master, hm.runs.joined, hm.runs.run, hm.runs.distinct, hm.runs.status, hm.runs.head,
      hm.runs.satp⟩, ?_, hm.stuck⟩
  have hl := hm.life
  exact ⟨fun p hp => ⟨(hl.pidRange p hp).1, (hl.pidRange p hp).2.trans (Int.lt_succ _)⟩,
    hl.processId.trans (Int.lt_succ _), hl.idlePid, hl.live, hl.off, hl.waitInit, hl.waitEmpty,
    hl.threads, hl.pgdirLive, hl.pgdirPos, fun p => (hl.pgdirLt p).trans (Nat.lt_succ_self _),
    hl.pgdirPid, hl.idlePgdir, hl.kernelPgdir, fun n hn => hl.unused n (Nat.le_of_succ_le hn),
    hl.idleCont⟩

lemma findUnusedPcb_spec {i : Slot} (h : k.findUnusedPcb = some i) : k.pid (.slot i) = 0 := by
  simpa using List.find?_some h

lemma findPid_spec {i : Slot} {pid : ℤ} (h : k.findPid pid = some i) : k.pid (.slot i) = pid := by
  simpa using List.find?_some h

lemma findPid_none {pid : ℤ} (h : k.findPid pid = none) (i : Slot) : k.pid (.slot i) ≠ pid := by
  have := List.find?_eq_none.1 h i (List.mem_finRange i)
  simpa using this

/-- `create_pcb` creates a PCB with a new pid, or changes nothing. -/
lemma Mid.createPcb {name : List UInt8} {k' : Kernel} (hm : k.Mid q none none)
    (hk : k.createPcb name = some k') :
    k' = k ∨ ∃ i L, k.pid (.slot i) = 0 ∧
      k' = created { k with processId := k.processId + 1, nextPgdir := k.nextPgdir + 1 } i
        k.processId k.nextPgdir L ∧
      k'.Mid (Function.update q .readyQueue (q .readyQueue ++ [.slot i])) none none := by
  unfold Kernel.createPcb at hk
  split at hk
  · exact .inl (Option.some.inj hk).symm
  · rename_i i hi
    split at hk
    · have hfree := findUnusedPcb_spec hi
      have hl := hm.life
      obtain ⟨L, hL, hm'⟩ := hm.grow.initPcb i k.processId k.nextPgdir
        hfree ⟨hl.processId, Int.lt_succ _⟩
        ⟨(Nat.zero_le _).trans_lt (hl.pgdirLt (.slot i)), Nat.lt_succ_self _⟩
        (hl.unused _ le_rfl) (fun r _ heq => absurd heq (hl.pgdirLt r).ne)
      obtain rfl := Option.some.inj (hk.symm.trans hL)
      exact .inr ⟨i, L, hfree, rfl, hm'⟩
    · split at hk
      · cases hk
      · exact .inl (Option.some.inj hk).symm

/-- `do_thread_create` by a live task. -/
lemma Mid.doThreadCreate {p : Pcb} (hm : k.Mid q none none) (hp : k.pid p ≠ 0) :
    ∃ k' q', k.doThreadCreate p = some k' ∧ k'.Mid q' none none ∧ k'.runnings = k.runnings ∧
      k'.processId = k.processId ∧ ∀ x, ∃ y, k'.pid x = k.pid y := by
  unfold Kernel.doThreadCreate
  split
  · exact ⟨k, q, rfl, hm, rfl, rfl, fun x => ⟨x, rfl⟩⟩
  · rename_i i hi
    have hl := hm.life
    obtain ⟨L, hL, hm'⟩ := hm.initPcb i (k.pid p) (k.pgdir p) (findUnusedPcb_spec hi) (hl.pidRange p hp)
      ⟨hl.pgdirPos p hp, hl.pgdirLt p⟩ (hl.pgdirLive p (by simp) hp)
      (fun r hr heq => hl.pgdirPid r p hr hp heq)
    refine ⟨_, _, hL, hm', rfl, rfl, fun x => ?_⟩
    by_cases hx : x = .slot i
    · exact ⟨p, by simp only [hx, created, Function.update_self]⟩
    · exact ⟨x, by simp only [created, Function.update_of_ne hx]⟩

/-! ## Exit and kill -/

/-- The PCB is the only one with its pid. -/
def Alone (k : Kernel) (p : Pcb) : Prop := ∀ j, k.pid (.slot j) = k.pid p → Pcb.slot j = p

/-- `release_pcb` of the only PCB with its pid leaves no thread. -/
lemma Mid.threads_eq_zero {i : Slot} {out : Option Cpu} (hm : k.Mid q out (some (.slot i)))
    (hpid : k.pid (.slot i) ≠ 0) (halone : k.Alone (.slot i)) : k.threads (k.pid (.slot i)) = 0 := by
  rw [hm.life.threads _ hpid, pidCount_eq_zero fun j hj => Pcb.slot.inj (halone j hj)]
  rfl

/-- `do_kill` of a process that does not run and has one thread. -/
lemma Mid.doKill {i : Slot} {pid : ℤ} (hm : k.Mid q none none) (hpid : pid ≠ 0)
    (hfind : k.findPid pid = some i) (halone : k.Alone (.slot i))
    (hrun : ∀ c, k.runnings c ≠ some (.slot i)) :
    ∃ k' q', k.doKill pid = some (1, k') ∧ k'.Mid q' none none ∧
      k'.pid = Function.update k.pid (.slot i) 0 ∧ k'.runnings = k.runnings ∧
      k'.processId = k.processId := by
  have hpid' : k.pid (.slot i) ≠ 0 := by rwa [findPid_spec hfind]
  obtain ⟨k₁, q₁, hk₁, hm₁, hempty, hpid₁, hrun₁, hprocess₁⟩ :=
    hm.releasePcb hpid' (.inl ⟨rfl, hrun⟩)
  have hpid₁' : k₁.pid (.slot i) ≠ 0 := by rwa [hpid₁]
  have hlast := hm₁.threads_eq_zero hpid₁' (by
    intro j hj
    rw [hpid₁] at hj
    exact halone j hj)
  refine ⟨_, q₁, ?_, hm₁.clearPid hpid₁' hempty hlast, ?_, hrun₁, hprocess₁⟩
  · simp only [Kernel.doKill, hfind, hk₁, Option.bind_eq_bind, Option.bind_some, hlast, if_true]
  · rw [← hpid₁]
    rfl

/-- `do_exit` behind its `release_pcb`, when no thread is left. -/
lemma Mid.exitRest {c : Cpu} {i : Slot} {k₁ : Kernel} {q₁ : Head → List Pcb}
    (hk₁ : k.releasePcb (.slot i) = some k₁) (hm₁ : k₁.Mid q₁ (some c) (some (.slot i)))
    (hpid : k₁.pid (.slot i) ≠ 0) (hempty : q₁ (.waitList (.slot i)) = [])
    (hlast : k₁.threads (k₁.pid (.slot i)) = 0) :
    ∃ r, (r = idlePcb c ∨ r ∈ q₁ .readyQueue) ∧ k.doExit c (.slot i) =
        some ((((k₁.picked c r).freePgdir (.slot i)).clearPid (.slot i)).switchTo c (.slot i) .ret) ∧
      ((((k₁.picked c r).freePgdir (.slot i)).clearPid (.slot i)).switchTo c (.slot i) .ret).Inv
        q₁ := by
  obtain ⟨r, k₂, hpick, hswitch, hr, hm₂, hidle⟩ := hm₁.pick
  have hm₃ := hm₂.clearPid (i := i) hpid hempty hlast
  refine ⟨r, hr, ?_, ⟨⟨⟨hm₃.lists.repr, hm₃.lists.init, hm₃.lists.slots⟩, ?_, ?_, hm₃.stuck⟩,
    hidle⟩⟩
  · simp only [Kernel.doExit, hk₁, Option.bind_eq_bind, Option.bind_some, hlast, if_true, hpick,
      hswitch]
  · exact ⟨hm₃.runs.master, hm₃.runs.joined, hm₃.runs.run, hm₃.runs.distinct, hm₃.runs.status,
      hm₃.runs.head, hm₃.runs.satp⟩
  · refine hm₃.life.congr ?_ (fun _ => Iff.rfl) (fun _ h => h) (fun _ _ h => h)
    have hc : ∀ d, Function.update k₁.cont (.slot i) .ret (idlePcb d) = k₁.cont (idlePcb d) :=
      fun d => Function.update_of_ne (idlePcb_ne_slot d i) ..
    simp only [lifeFields, switchTo, Kernel.clearPid, freePgdir, picked, hc]

/-- `do_exit` of a task without other threads. -/
lemma Mid.doExit {c : Cpu} {i : Slot} (hm : k.Mid q none none) (hpid : k.pid (.slot i) ≠ 0)
    (hrun : k.runnings c = some (.slot i)) (halone : k.Alone (.slot i)) :
    ∃ k' q', k.doExit c (.slot i) = some k' ∧ k'.Inv q' ∧
      k'.pid = Function.update k.pid (.slot i) 0 ∧ k'.processId = k.processId ∧
      k'.inKernel = some c ∧ ∃ r, k'.runnings c = some r := by
  obtain ⟨k₁, q₁, hk₁, hm₁, hempty, hpid₁, hrun₁, hprocess₁⟩ :=
    hm.releasePcb hpid (.inr ⟨c, rfl, hrun⟩)
  have hpid₁' : k₁.pid (.slot i) ≠ 0 := by rwa [hpid₁]
  have hlast := hm₁.threads_eq_zero hpid₁' (by
    intro j hj
    rw [hpid₁] at hj
    exact halone j hj)
  obtain ⟨r, -, hk', hinv⟩ := hm₁.exitRest hk₁ hpid₁' hempty hlast
  exact ⟨_, q₁, hk', hinv, by rw [← hpid₁]; rfl, hprocess₁, rfl, r, Function.update_self ..⟩

end Kernel
end Sched
end UcasKernel
