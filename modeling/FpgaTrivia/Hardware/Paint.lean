import FpgaTrivia.Hardware.CharBuffer

/-!
# Painting cell by cell

Drawing texts one after the other changes every cell on its own: a cell shows
the last text that covers it, and what was there before if none does.
-/

namespace FpgaTrivia.Hardware.CharBuffer

namespace Text

/-- The character of the text in column `x` of row `y`, if it covers it. -/
def charAt (text : Text) (x y : Nat) : Option Char :=
  if y = text.y ∧ text.x ≤ x then text.ptr.toList[x - text.x]? else none

theorem charAt_of_misses {text : Text} {x y : Nat} (misses : text.Misses x y) :
    text.charAt x y = none := by
  have chars : text.ptr.toList.length = text.ptr.length := String.length_toList
  unfold charAt
  split
  · rename_i here
    apply List.getElem?_eq_none
    rcases misses with row | left | right
    · exact absurd here.1 row
    · omega
    · omega
  · rfl

theorem misses_of_charAt {text : Text} {x y : Nat} (none : text.charAt x y = none) :
    text.Misses x y := by
  have chars : text.ptr.toList.length = text.ptr.length := String.length_toList
  unfold charAt at none
  split at none
  · have right := List.getElem?_eq_none_iff.mp none
    exact Or.inr (Or.inr (by omega))
  · rename_i away
    rw [misses_iff]
    omega

end Text

/-- What a cell shows after the texts have been drawn over `ground`. -/
def paint (texts : List Text) (x y : Nat) (ground : Char) : Char :=
  texts.foldl (fun shown text => (text.charAt x y).getD shown) ground

theorem paint_append (texts texts' : List Text) (x y : Nat) (ground : Char) :
    paint (texts ++ texts') x y ground = paint texts' x y (paint texts x y ground) :=
  List.foldl_append

/-- Texts that miss a cell do not paint it. -/
theorem paint_of_misses {texts : List Text} {x y : Nat} (ground : Char)
    (misses : ∀ text ∈ texts, text.Misses x y) : paint texts x y ground = ground := by
  induction texts with
  | nil => rfl
  | cons text rest ih =>
      have head := Text.charAt_of_misses (misses text List.mem_cons_self)
      have tail := ih fun other listed => misses other (List.mem_cons_of_mem text listed)
      rw [paint, List.foldl_cons, head]
      exact tail

variable {x y : Nat}

/-- Drawing a text that fits changes the cells that it covers. -/
theorem cell_draw (buf : CharBuffer) {text : Text} (fits : text.Fits) (onScreen : x < xResolution) :
    (buf.draw text.ptr text.x text.y).cell x y = (text.charAt x y).getD (buf.cell x y) := by
  rcases char : text.charAt x y with _ | c
  · exact cell_draw_of_disjoint buf text.ptr onScreen (Text.misses_of_charAt char)
  · unfold Text.charAt at char
    split at char
    · rename_i here
      obtain ⟨k, rfl⟩ := Nat.exists_eq_add_of_le here.2
      rw [Nat.add_sub_cancel_left] at char
      rw [here.1]
      exact cell_draw_of_fits buf fits char
    · cases char

theorem cell_drawAll (buf : CharBuffer) {texts : List Text} (fits : ∀ text ∈ texts, text.Fits)
    (onScreen : x < xResolution) :
    (buf.drawAll texts).cell x y = paint texts x y (buf.cell x y) := by
  induction texts generalizing buf with
  | nil => rfl
  | cons text rest ih =>
      rw [drawAll_cons, ih _ fun other listed => fits other (List.mem_cons_of_mem text listed),
        cell_draw buf (fits text List.mem_cons_self) onScreen]
      rfl

end FpgaTrivia.Hardware.CharBuffer
