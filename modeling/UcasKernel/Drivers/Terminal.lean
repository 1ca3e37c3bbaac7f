/-
What `screen_reflush` does to the terminal behind the serial port.

The output of `drivers/screen.c` is a sequence of calls of `vt100_move_cursor` and
`bios_putchar`.  `vt100_move_cursor` prints the cursor position sequence with the numbers
in decimal, so that the terminal gets back the row and the column.  After every place of
the screen the terminal shows what `old_screen` says, and in the end `old_screen` is
`new_screen`.
-/
import UcasKernel.Drivers.Screen
import UcasKernel.Lib.Logged
import UcasKernel.Lib.Vt100
import Mathlib.Data.List.TakeWhile

namespace UcasKernel
namespace Drivers

open Sched (Pcb)

/-! ## Numbers in decimal -/

section Decimal

variable {n v : ℕ} {uppercase : Bool}

lemma toNat_itoaDigit {digit : ℕ} (h : digit < 10) :
    (itoaDigit uppercase digit).toNat = 48 + digit := by
  rw [itoaDigit, if_pos h, UInt8.toNat_ofNat']
  exact Nat.mod_eq_of_lt (by omega)

lemma isDigit_itoaDigit {digit : ℕ} (h : digit < 10) :
    Vt100.IsDigit (itoaDigit uppercase digit) := by
  rw [Vt100.IsDigit, UInt8.le_iff_toNat_le, UInt8.le_iff_toNat_le, toNat_itoaDigit h]
  exact ⟨Nat.le_add_right _ _, (by omega : 48 + digit ≤ 57)⟩

lemma isDigit_itoaDigits : ∀ b ∈ itoaDigits 10 uppercase n v, Vt100.IsDigit b := by
  induction n generalizing v with
  | zero => exact fun b hb => absurd hb List.not_mem_nil
  | succ n ih =>
    intro b hb
    rcases List.mem_cons.1 hb with rfl | hb
    · exact isDigit_itoaDigit (Nat.mod_lt _ (by decide))
    · split at hb
      · cases hb
      · exact ih b hb

lemma length_itoaDigits {k : ℕ} (h : v < 10 ^ (k + 1)) :
    (itoaDigits 10 uppercase n v).length ≤ k + 1 := by
  induction n generalizing v k with
  | zero => exact Nat.zero_le _
  | succ n ih =>
    rw [itoaDigits, List.length_cons]
    split
    · exact Nat.succ_le_succ (Nat.zero_le k)
    · rename_i hne
      cases k with
      | zero => exact absurd (Nat.div_eq_of_lt h) hne
      | succ k =>
        refine Nat.succ_le_succ (ih ?_)
        rw [Nat.div_lt_iff_lt_mul (by decide), ← Nat.pow_succ]
        exact h

/-- The digits in their order stand for the number. -/
lemma decimal_itoaDigits (h : v < 10 ^ n) :
    Vt100.decimal 0 (itoaDigits 10 uppercase n v).reverse = v := by
  induction n generalizing v with
  | zero => exact (Nat.lt_one_iff.1 h).symm
  | succ n ih =>
    have hlast : ∀ ds : List UInt8, Vt100.decimal 0
        ((itoaDigit uppercase (v % 10) :: ds).reverse) =
          Vt100.decimal 0 ds.reverse * 10 + v % 10 := by
      intro ds
      rw [List.reverse_cons, Vt100.decimal, List.foldl_append, List.foldl_cons, List.foldl_nil,
        toNat_itoaDigit (Nat.mod_lt _ (by decide)), Nat.add_sub_cancel_left, ← Vt100.decimal]
    rw [itoaDigits, hlast]
    split
    · rename_i h0
      rw [List.reverse_nil, Vt100.decimal, List.foldl_nil]
      omega
    · rw [ih (Nat.div_lt_of_lt_mul (by rw [← Nat.pow_succ']; exact h))]
      omega

/-- The number that `%d` prints: the argument is read as an `unsigned int`. -/
def uint32 (x : ℤ) : ℕ := (BitVec.ofInt 64 x).toNat % 2 ^ 32

lemma uint32_lt (x : ℤ) : uint32 x < 2 ^ 32 := Nat.mod_lt _ (by decide)

lemma uint32_natCast (h : n < 2 ^ 32) : uint32 n = n := by
  rw [uint32, BitVec.ofInt_natCast, BitVec.toNat_ofNat]
  omega

/-- The digits that `%d` prints. -/
def digits (x : ℤ) : List UInt8 := (itoaDigits 10 false 64 (uint32 x)).reverse

lemma isDigit_digits (x : ℤ) : ∀ b ∈ digits x, Vt100.IsDigit b :=
  fun b hb => isDigit_itoaDigits b (List.mem_reverse.1 hb)

lemma decimal_digits (x : ℤ) : Vt100.decimal 0 (digits x) = uint32 x :=
  decimal_itoaDigits ((uint32_lt x).trans (by norm_num))

lemma length_digits (x : ℤ) : (digits x).length ≤ 10 := by
  rw [digits, List.length_reverse]
  exact length_itoaDigits (k := 9) ((uint32_lt x).trans (by norm_num))

/-- The conversion `%d` with room in the buffer. -/
lemma convert_decimal {bufferLen : ℕ} {b : List UInt8} (hb : b.length + 11 < bufferLen) (x : ℤ)
    (va : List VaArg) :
    convert bufferLen 100 false 0 (.num (BitVec.ofInt 64 x) :: va) b =
      some (va, b ++ digits x) := by
  have hlt := uint32_lt x
  have hmsb : (BitVec.ofNat 64 (uint32 x)).msb = false := by
    rw [BitVec.msb_eq_false_iff_two_mul_lt, BitVec.toNat_ofNat]
    omega
  have hnat : (BitVec.ofNat 64 (uint32 x)).toNat = uint32 x := by
    rw [BitVec.toNat_ofNat]
    omega
  have hlen := length_digits x
  have hitoa : miniItoa (BitVec.ofNat 64 (uint32 x)) 10 false false 0 = some (digits x) := by
    simp only [miniItoa, hmsb, hnat, Bool.false_and, Bool.false_eq_true, if_false, Nat.zero_sub,
      List.replicate_zero, List.append_nil]
    rw [if_neg (by decide), if_pos]
    · rfl
    · rw [digits, List.length_reverse] at hlen
      omega
  have hconvert : convertNum bufferLen 10 false false false 0 (.num (BitVec.ofInt 64 x) :: va) b =
      some (va, puts bufferLen b (digits x)) := by
    simp only [convertNum, vaNum, Bool.false_eq_true, if_false, Option.bind_eq_bind,
      Option.bind_some]
    rw [← uint32, hitoa, Option.bind_some]
  rw [convert, if_neg (by decide), if_pos (.inr rfl)]
  refine hconvert.trans ?_
  rw [puts, List.take_of_length_le (by omega)]

end Decimal

/-! ## The output -/

/-- What `drivers/screen.c` sends to the serial port. -/
inductive Output
  /-- `vt100_move_cursor` -/
  | moveCursor (x y : ℤ)
  /-- `bios_putchar` -/
  | putchar (ch : UInt8)
deriving DecidableEq, Repr

/-- `"%c[%d;%dH"`. -/
def moveCursorFmt : List UInt8 := [37, 99, 91, 37, 100, 59, 37, 100, 72]

/-- The bytes of an output; `bios_putstr` sends the string that `printv` has put together. -/
def Output.bytes : Output → Option (List UInt8)
  | .moveCursor x y => do
    let buff ← vprint moveCursorFmt
      [.num 27, .num (BitVec.ofInt 64 y), .num (BitVec.ofInt 64 x)]
    some (cString buff)
  | .putchar ch => some [ch]

lemma miniVsnprintf_text {bufferLen : ℕ} {b fmt : List UInt8} {va : List VaArg} {ch : UInt8}
    (hb : b.length + 1 < bufferLen) (hch : ch ≠ 37) :
    miniVsnprintf bufferLen .text (ch :: fmt) va b =
      miniVsnprintf bufferLen .text fmt va (b ++ [ch]) := by
  rw [miniVsnprintf, if_neg (by omega), if_pos hch, putc, if_neg (by omega)]

lemma miniVsnprintf_convert {bufferLen : ℕ} {b b' fmt : List UInt8} {va va' : List VaArg}
    {ch : UInt8} (hb : b.length + 1 < bufferLen) (h0 : ch ≠ 48) (hl : ch ≠ 108)
    (hconvert : convert bufferLen ch false 0 va b = some (va', b')) :
    miniVsnprintf bufferLen .text (37 :: ch :: fmt) va b =
      miniVsnprintf bufferLen .text fmt va' b' := by
  rw [miniVsnprintf, if_neg (by omega), if_neg (by simp), miniVsnprintf, if_neg h0, if_neg hl,
    hconvert]
  rfl

/-- `vt100_move_cursor` sends the cursor position sequence. -/
theorem bytes_moveCursor (x y : ℤ) :
    (Output.moveCursor x y).bytes = some (27 :: 91 :: (digits y ++ 59 :: (digits x ++ [72]))) := by
  have hy := length_digits y
  have hx := length_digits x
  have hprint : vprint moveCursorFmt
      [.num 27, .num (BitVec.ofInt 64 y), .num (BitVec.ofInt 64 x)] =
        some (27 :: 91 :: (digits y ++ 59 :: (digits x ++ [72]))) := by
    have hfmt : cString moveCursorFmt = moveCursorFmt := by decide
    have hesc : convert 256 99 false 0
        [.num 27, .num (BitVec.ofInt 64 y), .num (BitVec.ofInt 64 x)] [] =
          some ([.num (BitVec.ofInt 64 y), .num (BitVec.ofInt 64 x)], [27]) := by
      simp [convert, putc]
    have hrow : ([27] ++ [91] ++ digits y).length + 1 < 256 := by
      simp only [List.length_append, List.length_singleton]
      omega
    have hsep : ([27] ++ [91] ++ digits y ++ [59]).length + 11 < 256 := by
      simp only [List.length_append, List.length_singleton]
      omega
    have hsep' : ([27] ++ [91] ++ digits y ++ [59]).length + 1 < 256 :=
      (Nat.add_le_add_left (by decide : 1 ≤ 11) _).trans_lt hsep
    have hcol : ([27] ++ [91] ++ digits y ++ [59] ++ digits x).length + 1 < 256 := by
      simp only [List.length_append, List.length_singleton]
      omega
    rw [vprint, hfmt, moveCursorFmt,
      miniVsnprintf_convert (by decide) (by decide) (by decide) hesc,
      miniVsnprintf_text (by decide) (by decide),
      miniVsnprintf_convert (by decide) (by decide) (by decide) (convert_decimal (by decide) y _),
      miniVsnprintf_text hrow (by decide),
      miniVsnprintf_convert hsep' (by decide) (by decide)
        (convert_decimal hsep x _),
      miniVsnprintf_text hcol (by decide), miniVsnprintf]
    simp only [List.append_assoc, List.cons_append, List.nil_append]
  have hzero : ∀ b ∈ 27 :: 91 :: (digits y ++ 59 :: (digits x ++ [72])), b ≠ 0 := by
    have hdigit : ∀ z, ∀ b ∈ digits z, b ≠ 0 := by
      rintro z b hb rfl
      exact absurd (isDigit_digits z 0 hb) (by decide)
    intro b hb
    simp only [List.mem_cons, List.mem_append, List.not_mem_nil, or_false] at hb
    rcases hb with rfl | rfl | hb | rfl | hb | rfl
    · decide
    · decide
    · exact hdigit y b hb
    · decide
    · exact hdigit x b hb
    · decide
  have hstring : cString (27 :: 91 :: (digits y ++ 59 :: (digits x ++ [72]))) =
      27 :: 91 :: (digits y ++ 59 :: (digits x ++ [72])) :=
    List.takeWhile_eq_self_iff.2 fun b hb => decide_eq_true (hzero b hb)
  rw [Output.bytes, hprint, Option.bind_eq_bind, Option.bind_some, hstring]

namespace Screen

/-- The columns and rows in the order of the loops over the screen. -/
def coords : List (ℕ × ℕ) :=
  (List.range screenHeight).flatMap fun i => (List.range screenWidth).map fun j => (j, i)

/-- The body of the loops of `screen_reflush`. -/
def reflushAt (s : Screen) (c : ℕ × ℕ) : Logged Output Screen :=
  let i := screenLoc c.1 c.2
  if s.newScreen i ≠ s.oldScreen i then do
    Logged.tell (.moveCursor (c.1 + 1) (c.2 + 1)) (some ())
    Logged.tell (.putchar (s.newScreen i)) (some ())
    pure { s with oldScreen := Function.update s.oldScreen i (s.newScreen i) }
  else pure s

/-- `screen_reflush` by process `p` with its output. -/
def screenReflushLogged (s : Screen) (p : Pcb) : Logged Output Screen := do
  let s ← coords.foldlM reflushAt s
  Logged.tell (.moveCursor (s.cursor p).x (s.cursor p).y) (some ())
  pure s

lemma places_eq : places = coords.map fun c => screenLoc c.1 c.2 := by
  rw [places, coords, List.map_flatMap]
  simp only [List.map_map, Function.comp_def]

/-- The output aside, this is `screen_reflush`. -/
theorem result_screenReflushLogged (s : Screen) (p : Pcb) :
    (s.screenReflushLogged p).result = some s.screenReflush := by
  have hround : ∀ (s : Screen) (c : ℕ × ℕ), (s.reflushAt c).result =
      some (if s.newScreen (screenLoc c.1 c.2) ≠ s.oldScreen (screenLoc c.1 c.2) then
        { s with
          oldScreen := Function.update s.oldScreen (screenLoc c.1 c.2)
            (s.newScreen (screenLoc c.1 c.2)) }
        else s) := by
    intro s c
    rw [reflushAt]
    split <;> rfl
  have hloop : (coords.foldlM reflushAt s).result = some s.screenReflush := by
    rw [Logged.result_foldlM hround, screenReflush, places_eq, List.foldl_map]
    exact List.foldlM_pure
  simp only [screenReflushLogged, Logged.result_bind, hloop, Option.bind_some, Logged.result_tell,
    Logged.result_pure]

/-! ## The screen behind the loops -/

section Reflush

variable {s : Screen} {i : ℤ}

lemma mem_coords {c : ℕ × ℕ} : c ∈ coords ↔ c.1 < screenWidth ∧ c.2 < screenHeight := by
  obtain ⟨x, y⟩ := c
  simp only [coords, List.mem_flatMap, List.mem_map, List.mem_range, Prod.mk.injEq]
  constructor
  · rintro ⟨_, hy, _, hx, rfl, rfl⟩
    exact ⟨hx, hy⟩
  · rintro ⟨hx, hy⟩
    exact ⟨y, hy, x, hx, rfl, rfl⟩

@[simp] lemma newScreen_screenReflush : s.screenReflush.newScreen = s.newScreen := by
  rw [screenReflush]
  induction places generalizing s with
  | nil => rfl
  | cons j js ih =>
    rw [List.foldl_cons, ih]
    split <;> rfl

/-- `old_screen` becomes `new_screen`. -/
lemma oldScreen_screenReflush (hi : i ∈ places) : s.screenReflush.oldScreen i = s.newScreen i := by
  have hloop : ∀ (js : List ℤ) (s : Screen),
      (js.foldl (fun s i =>
        if s.newScreen i ≠ s.oldScreen i then
          { s with oldScreen := Function.update s.oldScreen i (s.newScreen i) }
        else s) s).oldScreen i = if i ∈ js then s.newScreen i else s.oldScreen i := by
    intro js
    induction js with
    | nil => exact fun s => (if_neg List.not_mem_nil).symm
    | cons j js ih =>
      intro s
      rw [List.foldl_cons, ih]
      by_cases hj : i = j
      · subst hj
        by_cases hne : s.newScreen i = s.oldScreen i <;> simp [hne]
      · by_cases hne : s.newScreen j = s.oldScreen j <;> simp [hne, hj]
  rw [screenReflush, hloop, if_pos hi]

lemma screenLoc_eq {x y : ℕ} (hx : x < screenWidth) (hy : y < screenHeight) :
    screenLoc x y = y * 80 + x := by
  rw [screenWidth] at hx
  rw [screenHeight] at hy
  rw [screenLoc, screenWidth, toInt32_of_range ⟨by omega, by omega⟩]
  rfl

lemma screenLoc_injective {x y x' y' : ℕ} (hx : x < screenWidth) (hy : y < screenHeight)
    (hx' : x' < screenWidth) (hy' : y' < screenHeight) (h : screenLoc x y = screenLoc x' y') :
    x = x' ∧ y = y' := by
  rw [screenLoc_eq hx hy, screenLoc_eq hx' hy'] at h
  rw [screenWidth] at hx hx'
  omega

/-- A screen that is shown already is not sent again. -/
lemma foldlM_reflushAt_shown (cs : List (ℕ × ℕ))
    (hcs : ∀ c ∈ cs, s.newScreen (screenLoc c.1 c.2) = s.oldScreen (screenLoc c.1 c.2)) :
    (cs.foldlM reflushAt s).log = [] ∧ (cs.foldlM reflushAt s).result = some s := by
  induction cs with
  | nil => exact ⟨rfl, rfl⟩
  | cons c cs ih =>
    have hround : s.reflushAt c = pure s := if_neg (not_not.2 (hcs c List.mem_cons_self))
    rw [List.foldlM_cons, hround]
    exact ih fun c' hc' => hcs c' (List.mem_cons_of_mem _ hc')

end Reflush

end Screen

/-! ## The terminal -/

/-- The terminal reads an output. -/
def read (t : Vt100) (out : Output) : Option Vt100 := out.bytes.map t.feeds

def reads (t : Vt100) (outs : List Output) : Option Vt100 := outs.foldlM read t

/-- The terminal shows a screen cell by cell, and is not inside of an escape sequence. -/
structure Shows (t : Vt100) (screen : ℤ → UInt8) : Prop where
  ground : t.mode = .ground
  rows : screenHeight ≤ t.rows
  cols : screenWidth ≤ t.cols
  cell : ∀ x y : ℕ, x < screenWidth → y < screenHeight →
    t.cell (y + 1) (x + 1) = screen (screenLoc x y)

section Shows

variable {t : Vt100} {screen screen' : ℤ → UInt8} {x y : ℕ} {ch : UInt8}

lemma Shows.congr (h : Shows t screen)
    (hscreen : ∀ x y : ℕ, x < screenWidth → y < screenHeight →
      screen (screenLoc x y) = screen' (screenLoc x y)) : Shows t screen' :=
  ⟨h.ground, h.rows, h.cols, fun x y hx hy => (h.cell x y hx hy).trans (hscreen x y hx hy)⟩

lemma read_moveCursor (h : t.mode = .ground) (x y : ℤ) :
    read t (.moveCursor x y) = some (t.moveTo (uint32 y) (uint32 x)) := by
  rw [read, bytes_moveCursor, Option.map_some,
    Vt100.feeds_moveTo h (isDigit_digits y) (isDigit_digits x), decimal_digits, decimal_digits]

/-- Moving the cursor changes no cell. -/
lemma Shows.moveTo (h : Shows t screen) (row col : ℕ) : Shows (t.moveTo row col) screen :=
  ⟨h.ground, h.rows, h.cols, h.cell⟩

lemma Shows.setCell (h : Shows t screen) (hx : x < screenWidth) (hy : y < screenHeight) :
    Shows (t.setCell (y + 1) (x + 1) ch) (Function.update screen (screenLoc x y) ch) := by
  refine ⟨h.ground, h.rows, h.cols, fun x' y' hx' hy' => ?_⟩
  change Function.update t.cell (y + 1) (Function.update (t.cell (y + 1)) (x + 1) ch) (y' + 1)
    (x' + 1) = _
  by_cases heq : x' = x ∧ y' = y
  · obtain ⟨rfl, rfl⟩ := heq
    rw [Function.update_self, Function.update_self, Function.update_self]
  · have hloc : screenLoc x' y' ≠ screenLoc x y :=
      fun hloc => heq (Screen.screenLoc_injective hx' hy' hx hy hloc)
    rw [Function.update_of_ne hloc, ← h.cell x' y' hx' hy']
    by_cases hrow : y' = y
    · subst hrow
      have hcol : x' + 1 ≠ x + 1 := fun hcol => heq ⟨Nat.succ_injective hcol, rfl⟩
      rw [Function.update_self, Function.update_of_ne hcol]
    · rw [Function.update_of_ne fun hrow' => hrow (Nat.succ_injective hrow')]

lemma Shows.advance (h : Shows t screen) : Shows t.advance screen := by
  constructor
  case ground =>
    rw [Vt100.advance_mode]
    exact h.ground
  case rows =>
    rw [Vt100.advance_rows]
    exact h.rows
  case cols =>
    rw [Vt100.advance_cols]
    exact h.cols
  case cell =>
    rw [Vt100.advance_cell]
    exact h.cell

/-- A character at a place of the screen. -/
lemma Shows.put (h : Shows t screen) (hx : x < screenWidth) (hy : y < screenHeight)
    (hch : Vt100.Printable ch) :
    ∃ t', reads t [.moveCursor (x + 1) (y + 1), .putchar ch] = some t' ∧
      Shows t' (Function.update screen (screenLoc x y) ch) := by
  have hrow : uint32 ((y : ℤ) + 1) = y + 1 := by
    have hy' : y + 1 < 2 ^ 32 := by
      rw [screenHeight] at hy
      omega
    exact uint32_natCast hy'
  have hcol : uint32 ((x : ℤ) + 1) = x + 1 := by
    have hx' : x + 1 < 2 ^ 32 := by
      rw [screenWidth] at hx
      omega
    exact uint32_natCast hx'
  obtain ⟨t₁, hmove, hshow, hat, hwrap⟩ : ∃ t₁, read t (.moveCursor (x + 1) (y + 1)) = some t₁ ∧
      Shows t₁ screen ∧ (t₁.row = y + 1 ∧ t₁.col = x + 1) ∧ t₁.wrapNext = false := by
    refine ⟨t.moveTo (y + 1) (x + 1), ?_, h.moveTo _ _, ?_, rfl⟩
    · rw [read_moveCursor h.ground, hrow, hcol]
    · rw [Vt100.moveTo_eq (Nat.le_add_left 1 y) (hy.trans_le h.rows) (Nat.le_add_left 1 x)
        (hx.trans_le h.cols)]
      exact ⟨rfl, rfl⟩
  refine ⟨(t₁.setCell (y + 1) (x + 1) ch).advance, ?_, (hshow.setCell hx hy).advance⟩
  have hput : read t₁ (.putchar ch) = some (t₁.setCell (y + 1) (x + 1) ch).advance := by
    rw [← hat.1, ← hat.2]
    exact congrArg some (Vt100.feed_printable hshow.ground hwrap hch)
  rw [reads, List.foldlM_cons, hmove, Option.bind_eq_bind, Option.bind_some, List.foldlM_cons,
    hput, Option.bind_eq_bind, Option.bind_some]
  rfl

lemma reads_append (t : Vt100) (outs outs' : List Output) :
    reads t (outs ++ outs') = (reads t outs).bind fun t' => reads t' outs' := List.foldlM_append

/-- The loops of `screen_reflush`: the terminal shows `old_screen` all the time. -/
lemma Shows.reflush {s : Screen} (cs : List (ℕ × ℕ)) (h : Shows t s.oldScreen)
    (hcs : ∀ c ∈ cs, c.1 < screenWidth ∧ c.2 < screenHeight)
    (hnew : ∀ c ∈ cs, Vt100.Printable (s.newScreen (screenLoc c.1 c.2))) :
    ∃ s' t', (cs.foldlM Screen.reflushAt s).result = some s' ∧
      reads t (cs.foldlM Screen.reflushAt s).log = some t' ∧ Shows t' s'.oldScreen := by
  induction cs generalizing s t with
  | nil => exact ⟨s, t, rfl, rfl, h⟩
  | cons c cs ih =>
    obtain ⟨hx, hy⟩ := hcs c List.mem_cons_self
    have hcs' : ∀ c ∈ cs, c.1 < screenWidth ∧ c.2 < screenHeight :=
      fun c' hc' => hcs c' (List.mem_cons_of_mem _ hc')
    have hnew' : ∀ c ∈ cs, Vt100.Printable (s.newScreen (screenLoc c.1 c.2)) :=
      fun c' hc' => hnew c' (List.mem_cons_of_mem _ hc')
    rw [List.foldlM_cons]
    by_cases hne : s.newScreen (screenLoc c.1 c.2) = s.oldScreen (screenLoc c.1 c.2)
    · have hround : s.reflushAt c = pure s := if_neg (not_not.2 hne)
      rw [hround]
      exact ih h hcs' hnew'
    · have hround : s.reflushAt c = (do
          Logged.tell (.moveCursor (c.1 + 1) (c.2 + 1)) (some ())
          Logged.tell (.putchar (s.newScreen (screenLoc c.1 c.2))) (some ())
          pure { s with
            oldScreen := Function.update s.oldScreen (screenLoc c.1 c.2)
              (s.newScreen (screenLoc c.1 c.2)) }) := if_pos hne
      obtain ⟨t₁, ht₁, hshow₁⟩ := h.put hx hy (hnew c List.mem_cons_self)
      obtain ⟨s', t', hs', ht', hshow'⟩ := ih (s := { s with
        oldScreen := Function.update s.oldScreen (screenLoc c.1 c.2)
          (s.newScreen (screenLoc c.1 c.2)) }) hshow₁ hcs' hnew'
      refine ⟨s', t', ?_, ?_, hshow'⟩
      · rw [hround]
        exact hs'
      · rw [hround, Logged.log_bind rfl, reads_append]
        exact (congrArg (Option.bind · _) ht₁).trans ht'

end Shows

namespace Screen

variable {s : Screen} {t : Vt100}

/-- After the loops comes the move to the cursor of the process. -/
lemma log_screenReflushLogged {s' : Screen} (p : Pcb)
    (h : (coords.foldlM reflushAt s).result = some s') :
    (s.screenReflushLogged p).log = (coords.foldlM reflushAt s).log ++
      [.moveCursor (s'.cursor p).x (s'.cursor p).y] := by
  rw [screenReflushLogged, Logged.log_bind h]
  rfl

/-- A screen that the terminal shows already costs no characters. -/
lemma no_putchar_of_shown (p : Pcb) (h : ∀ i ∈ places, s.newScreen i = s.oldScreen i) (ch : UInt8) :
    .putchar ch ∉ (s.screenReflushLogged p).log := by
  obtain ⟨hlog, hresult⟩ := foldlM_reflushAt_shown (s := s) coords fun c hc => h _ (by
    rw [places_eq]
    exact List.mem_map_of_mem hc)
  rw [log_screenReflushLogged p hresult, hlog]
  simp

/-- Behind `screen_reflush` a terminal that showed `old_screen` shows `new_screen`, which
`old_screen` is equal to, so that a second `screen_reflush` sends no characters. -/
theorem screenReflush_shows (p : Pcb) (hnew : ∀ i ∈ places, Vt100.Printable (s.newScreen i))
    (hold : Shows t s.oldScreen) :
    (s.screenReflushLogged p).result = some s.screenReflush ∧
      (∃ t', reads t (s.screenReflushLogged p).log = some t' ∧ Shows t' s.newScreen) ∧
      s.screenReflush.newScreen = s.newScreen ∧
      (∀ i ∈ places, s.screenReflush.oldScreen i = s.newScreen i) ∧
      ∀ p' ch, .putchar ch ∉ (s.screenReflush.screenReflushLogged p').log := by
  have hplace : ∀ c ∈ coords, screenLoc c.1 c.2 ∈ places := by
    intro c hc
    rw [places_eq]
    exact List.mem_map_of_mem (f := fun c : ℕ × ℕ => screenLoc c.1 c.2) hc
  obtain ⟨s', t', hs', ht', hshow⟩ := hold.reflush coords (fun c hc => mem_coords.1 hc)
    fun c hc => hnew _ (hplace c hc)
  have hresult := result_screenReflushLogged s p
  have hs'' : s' = s.screenReflush := by
    simp only [screenReflushLogged, Logged.result_bind, hs', Option.bind_some, Logged.result_tell,
      Logged.result_pure] at hresult
    exact Option.some.inj hresult
  rw [hs''] at hs' hshow
  refine ⟨hresult, ?_, newScreen_screenReflush, fun i hi => oldScreen_screenReflush hi,
    fun p' ch => no_putchar_of_shown p' (fun i hi => ?_) ch⟩
  · refine ⟨_, ?_, (hshow.moveTo (uint32 (s.screenReflush.cursor p).y)
      (uint32 (s.screenReflush.cursor p).x)).congr fun x y hx hy => ?_⟩
    · rw [log_screenReflushLogged p hs', reads_append, ht', Option.bind_some, reads,
        List.foldlM_cons, read_moveCursor hshow.ground, Option.bind_eq_bind, Option.bind_some]
      rfl
    · exact oldScreen_screenReflush (hplace (x, y) (mem_coords.2 ⟨hx, hy⟩))
  · rw [newScreen_screenReflush, oldScreen_screenReflush hi]

/-- A blank screen on a terminal that shows nothing. -/
theorem screenReflush_shows_blank :
    ∃ t', reads ⟨50, 80, fun _ _ => 0, 1, 1, false, .ground⟩
        (({ boot with newScreen := fun _ => 32 } : Screen).screenReflushLogged (.slot 0)).log =
          some t' ∧ Shows t' fun _ => 32 :=
  (screenReflush_shows (s := { boot with newScreen := fun _ => 32 })
    (t := ⟨50, 80, fun _ _ => 0, 1, 1, false, .ground⟩) (.slot 0)
    (fun _ _ => (by decide : Vt100.Printable 32)) ⟨rfl, le_rfl, le_rfl, fun _ _ _ _ => rfl⟩).2.1

end Screen

end Drivers
end UcasKernel
