/-
The screen buffer and the cursors of the processes, from `drivers/screen.c`.

Nothing in `screen_write_ch` compares the cursor with the size of the screen, and
`screen_move_cursor` sets it to any numbers.  The places of `new_screen` that are
written are recorded; a place outside of the array is memory behind it.
-/
import UcasKernel.Drivers.Printk
import UcasKernel.Lib.Bytes
import UcasKernel.Lib.Trace
import UcasKernel.Sched.Kernel

namespace UcasKernel
namespace Drivers

open Sched (Pcb)

def screenWidth : ℕ := 80

def screenHeight : ℕ := 50

/-- `SCREEN_LOC`. -/
def screenLoc (x y : ℤ) : ℤ := toInt32 (y * screenWidth + x)

/-- The fields `cursor_x` and `cursor_y` of a PCB. -/
structure Cursor where
  x : ℤ
  y : ℤ
deriving DecidableEq, Repr

/-- `new_screen` and `old_screen`, the cursors, and the indices at which `new_screen`
was written so far. -/
structure Screen where
  newScreen : ℤ → UInt8
  oldScreen : ℤ → UInt8
  cursor : Pcb → Cursor
  written : List ℤ

namespace Screen

/-- Before `init_screen`: all of this is in `.bss`. -/
def boot : Screen := ⟨fun _ => 0, fun _ => 0, fun _ => ⟨0, 0⟩, []⟩

/-! ## The operations -/

/-- An assignment to a place of `new_screen`. -/
def put (s : Screen) (i : ℤ) (ch : UInt8) : Screen :=
  { s with newScreen := Function.update s.newScreen i ch, written := i :: s.written }

def setCursor (s : Screen) (p : Pcb) (x y : ℤ) : Screen :=
  { s with cursor := Function.update s.cursor p ⟨x, y⟩ }

/-- The places in the order of the loops over the screen. -/
def places : List ℤ :=
  (List.range screenHeight).flatMap fun (i : ℕ) =>
    (List.range screenWidth).map fun (j : ℕ) => screenLoc j i

/-- `screen_reflush`, without the characters it sends to the serial port. -/
def screenReflush (s : Screen) : Screen :=
  places.foldl (fun s i =>
    if s.newScreen i ≠ s.oldScreen i then
      { s with oldScreen := Function.update s.oldScreen i (s.newScreen i) }
    else s) s

/-- `screen_write_ch`. -/
def screenWriteCh (s : Screen) (p : Pcb) (ch : UInt8) : Screen :=
  let c := s.cursor p
  if ch = 10 then s.setCursor p 0 (toInt32 (c.y + 1))
  else (s.put (screenLoc c.x c.y) ch).setCursor p (toInt32 (c.x + 1)) c.y

/-- `screen_write`. -/
def screenWrite (s : Screen) (p : Pcb) (buff : List UInt8) : Screen :=
  (cString buff).foldl (fun s ch => s.screenWriteCh p ch) s

/-- `screen_clear`. -/
def screenClear (s : Screen) (p : Pcb) : Screen :=
  ((places.foldl (fun s i => s.put i 32) s).setCursor p 0 0).screenReflush

/-- `screen_move_cursor`. -/
def screenMoveCursor (s : Screen) (p : Pcb) (x y : ℤ) : Screen :=
  s.setCursor p (toInt32 x) (toInt32 y)

/-- `screen_backspace`. -/
def screenBackspace (s : Screen) (p : Pcb) (promptLen : ℤ) : Screen :=
  let c := s.cursor p
  if c.x > toInt32 promptLen then
    (s.setCursor p (toInt32 (c.x - 1)) c.y).put (screenLoc (toInt32 (c.x - 1)) c.y) 32
  else s

/-- `printk`. -/
def printk (s : Screen) (p : Pcb) (fmt : List UInt8) (va : List VaArg) : Option Screen := do
  let buff ← vprint fmt va
  some (s.screenWrite p buff).screenReflush

end Screen

inductive ScreenCall
  | screenWrite (buff : List UInt8)
  | printk (fmt : List UInt8) (va : List VaArg)
  | screenMoveCursor (x y : ℤ)
  | screenClear
  | screenBackspace (promptLen : ℤ)
deriving DecidableEq, Repr

namespace Screen

/-- A call by the process that runs. -/
def step (s : Screen) : Pcb × ScreenCall → Option Screen
  | (p, .screenWrite buff) => some (s.screenWrite p buff)
  | (p, .printk fmt va) => s.printk p fmt va
  | (p, .screenMoveCursor x y) => some (s.screenMoveCursor p x y)
  | (p, .screenClear) => some (s.screenClear p)
  | (p, .screenBackspace promptLen) => some (s.screenBackspace p promptLen)

/-! ## On the screen -/

def OnScreen (i : ℤ) : Prop := 0 ≤ i ∧ i ≤ 3999

instance (i : ℤ) : Decidable (OnScreen i) := by
  unfold OnScreen
  infer_instance

/-- Everything was written on the screen. -/
def Law (s : Screen) : Prop := ∀ i ∈ s.written, OnScreen i

/-- The lines of a text, the first of them from column `x` of row `y` on and the
others from the first column of the rows below, end on the screen. -/
def LinesFit : ℤ → ℤ → List (List UInt8) → Prop
  | _, _, [] => True
  | x, y, line :: lines =>
    (line ≠ [] → 0 ≤ screenLoc x y ∧ screenLoc x y + line.length ≤ 4000) ∧
      LinesFit 0 (toInt32 (y + 1)) lines

/-- A text from the cursor of a process on. -/
def TextFits (s : Screen) (p : Pcb) (buff : List UInt8) : Prop :=
  LinesFit (s.cursor p).x (s.cursor p).y ((cString buff).splitOn 10)

/-- A text that is written fits, and a backspace that goes back has a place on the
screen before the cursor. -/
def Fits (s : Screen) : Pcb × ScreenCall → Prop
  | (p, .screenWrite buff) => s.TextFits p buff
  | (p, .printk fmt va) => ∀ buff, vprint fmt va = some buff → s.TextFits p buff
  | (_, .screenMoveCursor _ _) | (_, .screenClear) => True
  | (p, .screenBackspace promptLen) => (s.cursor p).x > toInt32 promptLen →
      OnScreen (screenLoc (toInt32 ((s.cursor p).x - 1)) (s.cursor p).y)

section Written

variable {s : Screen} {p : Pcb} {x y : ℤ}

@[simp] lemma written_setCursor : (s.setCursor p x y).written = s.written := rfl

@[simp] lemma written_put {i : ℤ} {ch : UInt8} : (s.put i ch).written = i :: s.written := rfl

@[simp] lemma cursor_setCursor : (s.setCursor p x y).cursor p = ⟨x, y⟩ :=
  Function.update_self _ _ _

@[simp] lemma cursor_put {i : ℤ} {ch : UInt8} : (s.put i ch).cursor = s.cursor := rfl

lemma law_setCursor : (s.setCursor p x y).Law ↔ s.Law := Iff.rfl

lemma law_put {i : ℤ} {ch : UInt8} : (s.put i ch).Law ↔ OnScreen i ∧ s.Law := by
  rw [Law, written_put, List.forall_mem_cons]
  rfl

lemma onScreen_places : ∀ i ∈ places, OnScreen i := by
  intro i hi
  obtain ⟨row, hrow, hi⟩ := List.mem_flatMap.1 hi
  obtain ⟨col, hcol, rfl⟩ := List.mem_map.1 hi
  rw [List.mem_range, screenHeight] at hrow
  rw [List.mem_range, screenWidth] at hcol
  rw [screenLoc, screenWidth, toInt32_of_range ⟨by omega, by omega⟩]
  exact ⟨by omega, by omega⟩

@[simp] lemma written_screenReflush : s.screenReflush.written = s.written := by
  rw [screenReflush]
  induction places generalizing s with
  | nil => rfl
  | cons i is ih =>
    rw [List.foldl_cons, ih]
    split <;> rfl

lemma law_screenReflush : s.screenReflush.Law ↔ s.Law := by
  rw [Law, written_screenReflush, Law]

lemma law_screenClear (h : s.Law) : (s.screenClear p).Law := by
  have hfill : ∀ is : List ℤ, (∀ i ∈ is, OnScreen i) → ∀ s : Screen, s.Law →
      (is.foldl (fun s i => s.put i 32) s).Law := by
    intro is
    induction is with
    | nil => exact fun _ s hs => hs
    | cons i is ih =>
      intro his s hs
      rw [List.foldl_cons]
      exact ih (fun j hj => his j (List.mem_cons_of_mem _ hj)) _
        (law_put.2 ⟨his i List.mem_cons_self, hs⟩)
  rw [screenClear, law_screenReflush, law_setCursor]
  exact hfill places onScreen_places s h

end Written

/-! ## A text -/

section Text

variable {s : Screen} {p : Pcb} {ch : UInt8} {x y : ℤ}

/-- The place behind a place. -/
lemma screenLoc_next (x y : ℤ) : screenLoc (toInt32 (x + 1)) y = toInt32 (screenLoc x y + 1) := by
  rw [screenLoc, screenLoc, toInt32_add, Int.add_comm, toInt32_add]
  ring_nf

/-- One more character at the front of the first line. -/
lemma linesFit_modifyHead {lines : List (List UInt8)} (hlines : lines ≠ []) :
    LinesFit x y (lines.modifyHead (ch :: ·)) ↔
      OnScreen (screenLoc x y) ∧ LinesFit (toInt32 (x + 1)) y lines := by
  cases lines with
  | nil => exact absurd rfl hlines
  | cons line lines =>
    rw [List.modifyHead_cons, LinesFit, LinesFit, screenLoc_next, ← and_assoc]
    refine and_congr_left fun _ => ?_
    rw [OnScreen, List.length_cons]
    constructor
    · intro h
      obtain ⟨h0, hle⟩ := h (List.cons_ne_nil _ _)
      refine ⟨⟨h0, by omega⟩, fun _ => ?_⟩
      rw [toInt32_of_range ⟨by omega, by omega⟩]
      exact ⟨by omega, by omega⟩
    · rintro ⟨⟨h0, hle⟩, h⟩ -
      cases line with
      | nil => exact ⟨h0, by simp; omega⟩
      | cons ch' line =>
        have hrest := (h (List.cons_ne_nil _ _)).2
        rw [toInt32_of_range ⟨by omega, by omega⟩] at hrest
        exact ⟨h0, by omega⟩

lemma splitOn_cons (text : List UInt8) : (ch :: text).splitOn 10 =
    if ch = 10 then [] :: text.splitOn 10 else (text.splitOn 10).modifyHead (ch :: ·) := by
  rw [List.splitOn, List.splitOnP_cons_eq_if_modifyHead]
  simp only [beq_iff_eq]
  rfl

/-- Writing a text keeps to the screen exactly when its lines fit. -/
lemma law_write (text : List UInt8) :
    (text.foldl (fun s ch => s.screenWriteCh p ch) s).Law ↔
      s.Law ∧ LinesFit (s.cursor p).x (s.cursor p).y (text.splitOn 10) := by
  induction text generalizing s with
  | nil => exact ⟨fun h => ⟨h, fun h => absurd rfl h, trivial⟩, fun h => h.1⟩
  | cons ch text ih =>
    rw [List.foldl_cons, ih, screenWriteCh, splitOn_cons]
    by_cases hnl : ch = 10
    · rw [if_pos hnl, if_pos hnl, law_setCursor, cursor_setCursor, LinesFit]
      refine and_congr_right fun _ => ⟨fun h => ⟨fun h => absurd rfl h, h⟩, fun h => h.2⟩
    · have hlines : text.splitOn 10 ≠ [] := List.splitOnP_ne_nil _ _
      rw [if_neg hnl, if_neg hnl, law_setCursor, cursor_setCursor, law_put,
        linesFit_modifyHead hlines, and_comm (a := OnScreen _), and_assoc]

/-- `screen_write`. -/
lemma law_screenWrite (buff : List UInt8) :
    (s.screenWrite p buff).Law ↔ s.Law ∧ s.TextFits p buff := law_write (cString buff)

end Text

/-! ## Runs -/

section Runs

variable {s s' : Screen} {call : Pcb × ScreenCall}

lemma Law.step (h : s.Law) (hfits : s.Fits call) (hstep : s.step call = some s') : s'.Law := by
  obtain ⟨p, call⟩ := call
  cases call with
  | screenWrite buff =>
    obtain rfl := Option.some.inj hstep
    exact (law_screenWrite buff).2 ⟨h, hfits⟩
  | printk fmt va =>
    obtain ⟨buff, hbuff, hstep⟩ := Option.bind_eq_some_iff.1 hstep
    rw [← Option.some.inj hstep, law_screenReflush]
    exact (law_screenWrite buff).2 ⟨h, hfits buff hbuff⟩
  | screenMoveCursor x y =>
    obtain rfl := Option.some.inj hstep
    exact h
  | screenClear =>
    rw [← Option.some.inj hstep]
    exact law_screenClear h
  | screenBackspace promptLen =>
    rw [← Option.some.inj hstep, screenBackspace]
    split
    · exact law_put.2 ⟨hfits ‹_›, h⟩
    · exact h

/-- A call that only writes on the screen fits. -/
lemma fits_of_law (h : ∀ s', s.step call = some s' → s'.Law) : s.Fits call := by
  obtain ⟨p, call⟩ := call
  cases call with
  | screenWrite buff => exact ((law_screenWrite buff).1 (h _ rfl)).2
  | printk fmt va =>
    intro buff hbuff
    have hlaw := h (s.screenWrite p buff).screenReflush (by rw [step, printk, hbuff]; rfl)
    exact ((law_screenWrite buff).1 (law_screenReflush.1 hlaw)).2
  | screenMoveCursor x y => trivial
  | screenClear => trivial
  | screenBackspace promptLen =>
    intro hgt
    have hlaw := h _ rfl
    rw [screenBackspace, if_pos hgt] at hlaw
    exact (law_put.1 hlaw).1

end Runs

/-- In a run of screen operations by any processes every place of `new_screen` that is
written is one of the array exactly when each text fits on the screen from the cursor
of its process on and each backspace has a place before the cursor. -/
theorem written_on_screen_iff (calls : List (Pcb × ScreenCall)) :
    Trace.Always step Law boot calls ↔ Trace.StepsMeet step Fits boot calls :=
  Trace.always_iff_stepsMeet (M := fun _ _ => True) (fun _ h => h)
    (fun _ _ _ h _ hfits hstep => h.step hfits hstep) (fun _ _ _ _ h => fits_of_law h)
    (fun _ h => absurd h List.not_mem_nil) (Trace.stepsMeet_true _ _)

/-- The cursor is set behind the last row, and a character is written there. -/
theorem written_off_screen :
    ∃ s, Trace.run step boot
        [(.slot 0, .screenMoveCursor 0 50), (.slot 0, .screenWrite [97])] = some s ∧
      s.written = [4000] ∧ ¬ Trace.Always step Law boot
        [(.slot 0, .screenMoveCursor 0 50), (.slot 0, .screenWrite [97])] := by
  refine ⟨_, rfl, by decide, fun h => ?_⟩
  have hlaw := h.last rfl
  exact absurd (hlaw 4000 (List.mem_singleton.2 (by decide))) (by decide)

end Screen
end Drivers
end UcasKernel
