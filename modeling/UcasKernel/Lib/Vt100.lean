/-
A terminal with the cursor position sequence of the VT100.

The terminal reads bytes.  A printable character goes to the cell of the cursor, and the
cursor moves on by itself; behind the last column it waits there, and the next character
goes to the first column of the next row, which scrolls the screen at the last row.  Rows
and columns count from 1.  Escape sequences other than `ESC [ row ; column H` are read and
have no effect.
-/
import Mathlib.Data.List.Basic
import Mathlib.Logic.Function.Basic
import Mathlib.Order.Lattice

namespace UcasKernel

/-- Where in an escape sequence the terminal is. -/
inductive EscMode
  | ground
  | escape
  /-- behind `ESC [`: the number that is being read, and those before it -/
  | csi (n : ℕ) (params : List ℕ)
deriving DecidableEq, Repr

structure Vt100 where
  rows : ℕ
  cols : ℕ
  cell : ℕ → ℕ → UInt8
  row : ℕ
  col : ℕ
  /-- The last column was written, and the cursor still stands there. -/
  wrapNext : Bool
  mode : EscMode

namespace Vt100

def Printable (b : UInt8) : Prop := 32 ≤ b ∧ b ≤ 126

instance (b : UInt8) : Decidable (Printable b) := inferInstanceAs (Decidable (_ ∧ _))

def IsDigit (b : UInt8) : Prop := 48 ≤ b ∧ b ≤ 57

instance (b : UInt8) : Decidable (IsDigit b) := inferInstanceAs (Decidable (_ ∧ _))

/-- The cursor goes to a place, or to the closest one on the screen. -/
def moveTo (t : Vt100) (row col : ℕ) : Vt100 :=
  { t with row := min (max row 1) t.rows, col := min (max col 1) t.cols, wrapNext := false }

/-- The cursor goes down one row; at the last one the screen scrolls. -/
def lineFeed (t : Vt100) : Vt100 :=
  if t.row < t.rows then { t with row := t.row + 1 }
  else { t with cell := fun r c => if r < t.rows then t.cell (r + 1) c else 32 }

/-- The move that was put off at the last column. -/
def wrap (t : Vt100) : Vt100 :=
  if t.wrapNext then { t.lineFeed with col := 1, wrapNext := false } else t

def setCell (t : Vt100) (row col : ℕ) (b : UInt8) : Vt100 :=
  { t with cell := Function.update t.cell row (Function.update (t.cell row) col b) }

/-- The cursor moves on behind a character. -/
def advance (t : Vt100) : Vt100 :=
  if t.col < t.cols then { t with col := t.col + 1 } else { t with wrapNext := true }

/-- A printable character. -/
def draw (t : Vt100) (b : UInt8) : Vt100 :=
  (t.wrap.setCell t.wrap.row t.wrap.col b).advance

/-- Backspace, line feed and carriage return. -/
def control (t : Vt100) (b : UInt8) : Vt100 :=
  if b = 8 then { t with col := max (t.col - 1) 1, wrapNext := false }
  else if b = 10 then t.lineFeed
  else if b = 13 then { t with col := 1, wrapNext := false }
  else t

/-- The end of a sequence behind `ESC [`. -/
def dispatch (t : Vt100) (b : UInt8) (params : List ℕ) : Vt100 :=
  if b = 72 then t.moveTo (params.headD 1) (params.tail.headD 1) else t

/-- One byte. -/
def feed (t : Vt100) (b : UInt8) : Vt100 :=
  match t.mode with
  | .ground =>
    if b = 27 then { t with mode := .escape }
    else if Printable b then t.draw b
    else t.control b
  | .escape => if b = 91 then { t with mode := .csi 0 [] } else { t with mode := .ground }
  | .csi n params =>
    if IsDigit b then { t with mode := .csi (n * 10 + (b.toNat - 48)) params }
    else if b = 59 then { t with mode := .csi 0 (params ++ [n]) }
    else if 32 ≤ b ∧ b ≤ 63 then t
    else { t.dispatch b (params ++ [n]) with mode := .ground }

def feeds (t : Vt100) (bs : List UInt8) : Vt100 := bs.foldl feed t

/-- The number that digits stand for, behind others. -/
def decimal (n : ℕ) (ds : List UInt8) : ℕ := ds.foldl (fun n b => n * 10 + (b.toNat - 48)) n

variable {t : Vt100} {b : UInt8} {bs ds es : List UInt8} {row col n : ℕ} {params : List ℕ}

@[simp] lemma feeds_nil : t.feeds [] = t := rfl

@[simp] lemma feeds_cons : t.feeds (b :: bs) = (t.feed b).feeds bs := rfl

lemma feeds_append (t : Vt100) (bs cs : List UInt8) : t.feeds (bs ++ cs) = (t.feeds bs).feeds cs :=
  List.foldl_append

/-! ## Escape sequences -/

lemma feed_csi (t : Vt100) (n : ℕ) (params : List ℕ) (b : UInt8) :
    ({ t with mode := .csi n params } : Vt100).feed b =
      if IsDigit b then { t with mode := .csi (n * 10 + (b.toNat - 48)) params }
      else if b = 59 then { t with mode := .csi 0 (params ++ [n]) }
      else if 32 ≤ b ∧ b ≤ 63 then { t with mode := .csi n params }
      else { ({ t with mode := .csi n params } : Vt100).dispatch b (params ++ [n]) with
        mode := .ground } := rfl

lemma feeds_digits (hds : ∀ b ∈ ds, IsDigit b) :
    ({ t with mode := .csi n params } : Vt100).feeds ds =
      { t with mode := .csi (decimal n ds) params } := by
  induction ds generalizing n with
  | nil => rfl
  | cons b ds ih =>
    rw [feeds_cons, feed_csi, if_pos (hds b List.mem_cons_self),
      ih fun b' hb' => hds b' (List.mem_cons_of_mem _ hb')]
    rfl

/-- `ESC [ row ; column H`. -/
theorem feeds_moveTo (ht : t.mode = .ground) (hds : ∀ b ∈ ds, IsDigit b)
    (hes : ∀ b ∈ es, IsDigit b) :
    t.feeds (27 :: 91 :: (ds ++ 59 :: (es ++ [72]))) = t.moveTo (decimal 0 ds) (decimal 0 es) := by
  have hstart : (t.feed 27).feed 91 = { t with mode := .csi 0 [] } := by
    simp only [feed, ht, if_true]
  have hsep : ({ t with mode := .csi (decimal 0 ds) [] } : Vt100).feed 59 =
      { t with mode := .csi 0 [decimal 0 ds] } := rfl
  have hfinal : ({ t with mode := .csi (decimal 0 es) [decimal 0 ds] } : Vt100).feed 72 =
      { t.moveTo (decimal 0 ds) (decimal 0 es) with mode := .ground } := rfl
  rw [feeds_cons, feeds_cons, hstart, feeds_append, feeds_digits hds, feeds_cons, hsep,
    feeds_append, feeds_digits hes, feeds_cons, hfinal, feeds_nil, moveTo, ← ht]

/-! ## Characters -/

lemma moveTo_eq (hrow : 1 ≤ row) (hrows : row ≤ t.rows) (hcol : 1 ≤ col) (hcols : col ≤ t.cols) :
    t.moveTo row col = { t with row := row, col := col, wrapNext := false } := by
  rw [moveTo, max_eq_left hrow, min_eq_left hrows, max_eq_left hcol, min_eq_left hcols]

/-- A character at the place of the cursor. -/
lemma feed_printable (ht : t.mode = .ground) (hwrap : t.wrapNext = false) (hb : Printable b) :
    t.feed b = (t.setCell t.row t.col b).advance := by
  have hesc : b ≠ 27 := by
    rintro rfl
    exact absurd hb (by decide)
  simp only [feed, ht, if_neg hesc, if_pos hb, draw, wrap, hwrap, Bool.false_eq_true, if_false]

@[simp] lemma advance_cell : t.advance.cell = t.cell := by
  unfold advance
  split <;> rfl

@[simp] lemma advance_mode : t.advance.mode = t.mode := by
  unfold advance
  split <;> rfl

@[simp] lemma advance_rows : t.advance.rows = t.rows := by
  unfold advance
  split <;> rfl

@[simp] lemma advance_cols : t.advance.cols = t.cols := by
  unfold advance
  split <;> rfl

end Vt100
end UcasKernel
