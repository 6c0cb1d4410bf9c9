import Mathlib.Logic.Function.Basic
import Mathlib.Tactic.Common

/-!
# The character buffer and its driver

The character memory holds one character per byte address; the cell in column
`x` of row `y` has the address `(y << 7) + x`.  The driver writes a
NUL-terminated string cell by cell and stops at the right edge of the screen.
-/

namespace FpgaTrivia.Hardware

/-- The character memory by byte address. -/
abbrev CharBuffer := Nat → Char

namespace CharBuffer

/-- `x_resolution` of the device. -/
def xResolution : Nat := 80

/-- `y_resolution` of the device. -/
def yResolution : Nat := 60

/-- `y_coord_offset` of the device. -/
def yCoordOffset : Nat := 7

/-- The address of the cell in column `x` of row `y`. -/
def address (x y : Nat) : Nat :=
  (y <<< yCoordOffset) + x

theorem address_eq (x y : Nat) : address x y = 128 * y + x := by
  simp only [address, yCoordOffset, Nat.shiftLeft_eq]
  omega

/-- The loop of `alt_up_char_buffer_string`.  It ends at the terminating NUL
with status 0 and at the right edge of the screen with status -1. -/
def writeString (buf : CharBuffer) : List Char → Nat → Nat → Int × CharBuffer
  | [], _, _ => (0, buf)
  | c :: rest, x, offset =>
      if c = '\x00' then (0, buf)
      else if xResolution ≤ x + 1 then (-1, Function.update buf offset c)
      else writeString (Function.update buf offset c) rest (x + 1) (offset + 1)

/-- `alt_up_char_buffer_string`: the status and the new contents. -/
def altUpCharBufferString (buf : CharBuffer) (ptr : String) (x y : Nat) : Int × CharBuffer :=
  if xResolution ≤ x ∨ yResolution ≤ y then (-1, buf)
  else writeString buf ptr.toList x (address x y)

/-- `alt_up_char_buffer_clear`: the device stores a space in every cell. -/
def altUpCharBufferClear (_ : CharBuffer) : Int × CharBuffer :=
  (0, fun _ => ' ')

/-- Draw a string, ignoring the status as every caller does. -/
def draw (buf : CharBuffer) (ptr : String) (x y : Nat) : CharBuffer :=
  (buf.altUpCharBufferString ptr x y).2

/-- Clear the screen, ignoring the status. -/
def clear (buf : CharBuffer) : CharBuffer :=
  buf.altUpCharBufferClear.2

/-- The character shown in column `x` of row `y`. -/
def cell (buf : CharBuffer) (x y : Nat) : Char :=
  buf (address x y)

@[simp]
theorem cell_clear (buf : CharBuffer) (x y : Nat) : buf.clear.cell x y = ' ' :=
  rfl

/-! ## What a string write leaves alone -/

theorem writeString_of_lt (buf : CharBuffer) (chars : List Char) (x offset : Nat) {addr : Nat}
    (before : addr < offset) : (writeString buf chars x offset).2 addr = buf addr := by
  induction chars generalizing buf x offset with
  | nil => rfl
  | cons c rest ih =>
      have other : addr ≠ offset := Nat.ne_of_lt before
      simp only [writeString]
      split
      · rfl
      · split
        · exact Function.update_of_ne other _ _
        · rw [ih _ _ _ (Nat.lt_succ_of_lt before)]
          exact Function.update_of_ne other _ _

theorem writeString_of_ge (buf : CharBuffer) (chars : List Char) (x offset : Nat) {addr : Nat}
    (after : offset + chars.length ≤ addr) :
    (writeString buf chars x offset).2 addr = buf addr := by
  induction chars generalizing buf x offset with
  | nil => rfl
  | cons c rest ih =>
      simp only [List.length_cons] at after
      have other : addr ≠ offset := by omega
      simp only [writeString]
      split
      · rfl
      · split
        · exact Function.update_of_ne other _ _
        · rw [ih _ _ _ (by omega)]
          exact Function.update_of_ne other _ _

/-- The right edge: a write that starts in column `x` stays inside its row. -/
theorem writeString_of_edge (buf : CharBuffer) (chars : List Char) (x offset : Nat) {addr : Nat}
    (inside : x < xResolution) (edge : offset + xResolution ≤ addr + x) :
    (writeString buf chars x offset).2 addr = buf addr := by
  induction chars generalizing buf x offset with
  | nil => rfl
  | cons c rest ih =>
      have other : addr ≠ offset := by omega
      simp only [writeString]
      split
      · rfl
      · split
        · exact Function.update_of_ne other _ _
        · rw [ih _ _ _ (by omega) (by omega)]
          exact Function.update_of_ne other _ _

/-- Drawing changes no cell of another row, no cell to the left of the string
and no cell to the right of its last character. -/
theorem cell_draw_of_disjoint (buf : CharBuffer) (ptr : String) {x y x' y' : Nat}
    (onScreen : x' < xResolution)
    (disjoint : y' ≠ y ∨ x' < x ∨ x + ptr.length ≤ x') :
    (buf.draw ptr x y).cell x' y' = buf.cell x' y' := by
  unfold draw altUpCharBufferString
  split
  · rfl
  · rename_i inside
    simp only [not_or, Nat.not_le] at inside
    have columns : xResolution = 80 := rfl
    have row := address_eq x y
    have row' := address_eq x' y'
    have chars : ptr.toList.length = ptr.length := String.length_toList
    by_cases left : address x' y' < address x y
    · exact writeString_of_lt _ _ _ _ left
    · by_cases right : address x y + ptr.toList.length ≤ address x' y'
      · exact writeString_of_ge _ _ _ _ right
      · exact writeString_of_edge _ _ _ _ inside.1 (by omega)

/-- A one-character string sets one cell. -/
theorem draw_singleton (buf : CharBuffer) {ptr : String} {c : Char} {x y : Nat}
    (single : ptr.toList = [c]) (visible : c ≠ '\x00') (column : x < xResolution)
    (row : y < yResolution) : buf.draw ptr x y = Function.update buf (address x y) c := by
  have inside : ¬ (xResolution ≤ x ∨ yResolution ≤ y) := by omega
  simp only [draw, altUpCharBufferString, inside, if_false, single, writeString, visible]
  split <;> rfl

/-! ## What a string write leaves on the screen -/

/-- A string that ends before the right edge is stored character by
character. -/
theorem writeString_getElem? (buf : CharBuffer) {chars : List Char} {x : Nat} (offset : Nat)
    (visible : '\x00' ∉ chars) (columns : x + chars.length ≤ xResolution) {k : Nat} {c : Char}
    (char : chars[k]? = some c) : (writeString buf chars x offset).2 (offset + k) = c := by
  induction chars generalizing buf x offset k with
  | nil => exact absurd char (by simp)
  | cons d rest ih =>
      rw [List.length_cons] at columns
      have nonzero : d ≠ '\x00' := fun zero => visible (zero ▸ List.mem_cons_self)
      have later : '\x00' ∉ rest := fun member => visible (List.mem_cons_of_mem d member)
      simp only [writeString, if_neg nonzero]
      cases k with
      | zero =>
          obtain rfl : d = c := Option.some.inj char
          split
          · exact Function.update_self ..
          · apply Eq.trans (writeString_of_lt _ _ _ _ (Nat.lt_add_one offset))
            exact Function.update_self ..
      | succ k =>
          have shorter : rest[k]? = some c := char
          have inside : k < rest.length := (List.getElem?_eq_some_iff.mp shorter).1
          rw [if_neg (by omega), show offset + (k + 1) = offset + 1 + k by omega]
          exact ih _ (offset + 1) later (by omega) shorter

/-! ## Drawing several texts -/

/-- A text and the column and row where it starts. -/
structure Text where
  ptr : String
  x : Nat
  y : Nat
  deriving DecidableEq, Repr

/-- The text neither starts in nor runs over the cell in column `x` of row
`y`. -/
def Text.Misses (text : Text) (x y : Nat) : Prop :=
  y ≠ text.y ∨ x < text.x ∨ text.x + text.ptr.length ≤ x

instance (text : Text) (x y : Nat) : Decidable (text.Misses x y) :=
  inferInstanceAs (Decidable (y ≠ text.y ∨ x < text.x ∨ text.x + text.ptr.length ≤ x))

theorem Text.misses_iff {text : Text} {x y : Nat} :
    text.Misses x y ↔ y ≠ text.y ∨ x < text.x ∨ text.x + text.ptr.length ≤ x :=
  Iff.rfl

/-- The text ends before the right edge of one of the rows, and has no NUL
inside. -/
structure Text.Fits (text : Text) : Prop where
  row : text.y < yResolution
  columns : text.x + text.ptr.length ≤ xResolution
  visible : '\x00' ∉ text.ptr.toList

instance Text.decidableFits (text : Text) : Decidable text.Fits :=
  decidable_of_iff (text.y < yResolution ∧ text.x + text.ptr.length ≤ xResolution ∧
    '\x00' ∉ text.ptr.toList)
    ⟨fun ⟨row, columns, visible⟩ => ⟨row, columns, visible⟩,
      fun fits => ⟨fits.row, fits.columns, fits.visible⟩⟩

/-- As many cells as the text has characters, read back from where it starts,
give the text. -/
def Text.ReadsBack (text : Text) (buf : CharBuffer) : Prop :=
  (List.range text.ptr.length).map (fun k => buf.cell (text.x + k) text.y) = text.ptr.toList

theorem Text.readsBack_iff {text : Text} {buf : CharBuffer} :
    text.ReadsBack buf ↔
      ∀ k c, text.ptr.toList[k]? = some c → buf.cell (text.x + k) text.y = c := by
  have chars : text.ptr.toList.length = text.ptr.length := String.length_toList
  constructor
  · intro reads k c char
    have inside : k < text.ptr.length := chars ▸ (List.getElem?_eq_some_iff.mp char).1
    rw [← reads] at char
    simpa [inside] using char
  · intro cells
    apply List.ext_getElem?
    intro k
    by_cases inside : k < text.ptr.length
    · have char := List.getElem?_eq_getElem (chars.symm ▸ inside : k < text.ptr.toList.length)
      rw [char, ← cells k _ char]
      simp [inside]
    · simp [inside, chars]

/-- A text that fits is drawn in full. -/
theorem cell_draw_of_fits (buf : CharBuffer) {text : Text} (fits : text.Fits) {k : Nat} {c : Char}
    (char : text.ptr.toList[k]? = some c) :
    (buf.draw text.ptr text.x text.y).cell (text.x + k) text.y = c := by
  have chars : text.ptr.toList.length = text.ptr.length := String.length_toList
  have inside : k < text.ptr.toList.length := (List.getElem?_eq_some_iff.mp char).1
  have columns := fits.columns
  have row := fits.row
  have onScreen : ¬ (xResolution ≤ text.x ∨ yResolution ≤ text.y) := by omega
  have shifted : address (text.x + k) text.y = address text.x text.y + k := by
    rw [address_eq, address_eq, Nat.add_assoc]
  rw [draw, altUpCharBufferString, if_neg onScreen, cell, shifted]
  exact writeString_getElem? buf _ fits.visible (chars ▸ columns) char

/-- Draw texts in order; later ones win. -/
def drawAll (buf : CharBuffer) (texts : List Text) : CharBuffer :=
  texts.foldl (fun buf text => buf.draw text.ptr text.x text.y) buf

@[simp]
theorem drawAll_nil (buf : CharBuffer) : buf.drawAll [] = buf :=
  rfl

@[simp]
theorem drawAll_cons (buf : CharBuffer) (text : Text) (rest : List Text) :
    buf.drawAll (text :: rest) = (buf.draw text.ptr text.x text.y).drawAll rest :=
  rfl

theorem drawAll_append (buf : CharBuffer) (texts texts' : List Text) :
    buf.drawAll (texts ++ texts') = (buf.drawAll texts).drawAll texts' :=
  List.foldl_append

/-- A cell that every text misses keeps its character. -/
theorem cell_drawAll_of_misses (buf : CharBuffer) {texts : List Text} {x y : Nat}
    (onScreen : x < xResolution) (misses : ∀ text ∈ texts, text.Misses x y) :
    (buf.drawAll texts).cell x y = buf.cell x y := by
  induction texts generalizing buf with
  | nil => rfl
  | cons text rest ih =>
      rw [drawAll_cons, ih _ fun other member => misses other (List.mem_cons_of_mem text member)]
      exact cell_draw_of_disjoint buf text.ptr onScreen (misses text List.mem_cons_self)

/-- A cell of one of the texts that all others miss shows its character,
whatever the order. -/
theorem cell_drawAll_of_mem (buf : CharBuffer) {texts : List Text} {text : Text}
    (member : text ∈ texts) (fits : text.Fits) {k : Nat} {c : Char}
    (char : text.ptr.toList[k]? = some c)
    (misses : ∀ other ∈ texts, other ≠ text → other.Misses (text.x + k) text.y) :
    (buf.drawAll texts).cell (text.x + k) text.y = c := by
  induction texts generalizing buf with
  | nil => exact absurd member List.not_mem_nil
  | cons head rest ih =>
      have misses' : ∀ other ∈ rest, other ≠ text → other.Misses (text.x + k) text.y :=
        fun other listed => misses other (List.mem_cons_of_mem head listed)
      rw [drawAll_cons]
      by_cases later : text ∈ rest
      · exact ih _ later misses'
      · obtain rfl : text = head := (List.mem_cons.mp member).resolve_right later
        have inside : k < text.ptr.toList.length := (List.getElem?_eq_some_iff.mp char).1
        have chars : text.ptr.toList.length = text.ptr.length := String.length_toList
        have columns := fits.columns
        rw [cell_drawAll_of_misses _ (by omega), cell_draw_of_fits buf fits char]
        intro other listed
        apply misses' other listed
        rintro rfl
        exact later listed

end CharBuffer

end FpgaTrivia.Hardware
