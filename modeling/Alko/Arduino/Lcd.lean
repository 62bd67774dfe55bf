import Mathlib.Tactic

/-! The 4x20 display: the four rows the program writes and what the panel shows of them. -/

namespace Alko.Arduino

inductive Backlight
  | off
  | color (r g b : UInt8)
  | redCycle
  deriving DecidableEq, Repr

structure LCD where
  -- `m_text`: four rows of 20 characters and a NUL.
  text : List (List UInt8)
  panel : List (List UInt8)
  backlight : Backlight
  deriving DecidableEq, Repr

namespace LCD

def blankRow : List UInt8 := List.replicate 20 0x20 ++ [0]

def clear (l : LCD) : LCD := { l with text := List.replicate 4 blankRow }

def new : LCD := clear ⟨[], List.replicate 4 [], .off⟩

/-- `begin(LCD_COLS, LCD_ROWS)` blanks the panel; the rows to be written stay. -/
def reset (l : LCD) : LCD := { l with panel := List.replicate 4 [] }

/-- `while (*text && length--) *dst++ = *text++;` -/
def copyText : List UInt8 → ℕ → List UInt8
  | c :: text, length + 1 => if c = 0 then [] else c :: copyText text length
  | _, _ => []

def norwegianChar (c : UInt8) : UInt8 :=
  if c = 230 then 1 else if c = 198 then 2 else if c = 248 then 3
  else if c = 216 then 4 else if c = 229 then 5 else if c = 197 then 6 else c

def norwegianChars (row : List UInt8) : List UInt8 :=
  (row.take 20).map norwegianChar ++ row.drop 20

/-- `text` is what can be read from the pointer on, none for a null pointer. -/
def setText (line : ℕ) (text : Option (List UInt8)) (length : ℤ) (l : LCD) : LCD :=
  match text with
  | none => l
  | some text =>
    if length ≤ 0 then l
    else
      let copied := copyText text (min length 20).toNat
      let row := copied ++ List.replicate (20 - copied.length) 0x20 ++ [0]
      { l with text := l.text.set (line % 4) (norwegianChars row) }

def setLine (line : ℕ) (text : String) (l : LCD) : LCD :=
  l.setText line (some (text.toList.map fun c => UInt8.ofNat c.toNat)) 20

def update (l : LCD) : LCD := { l with panel := l.text.map fun row => row.takeWhile (· ≠ 0) }

def setColor (r g b : UInt8) (l : LCD) : LCD := { l with backlight := .color r g b }

def setRedCycle (l : LCD) : LCD := { l with backlight := .redCycle }

end LCD

end Alko.Arduino
