import Mathlib.Tactic

/-! What can be read from a device by lines: `canReadLine` and `readLine`. -/

namespace Alko.Qt

def firstLine : List UInt8 → List UInt8
  | [] => []
  | b :: bytes => if b = 0x0A then [b] else b :: firstLine bytes

def behindLine : List UInt8 → List UInt8
  | [] => []
  | b :: bytes => if b = 0x0A then bytes else behindLine bytes

def canReadLine (bytes : List UInt8) : Bool := bytes.contains 0x0A

def completeLines : List UInt8 → List (List UInt8) × List UInt8
  | [] => ([], [])
  | b :: bytes =>
    if b = 0x0A then ([b] :: (completeLines bytes).1, (completeLines bytes).2)
    else
      match completeLines bytes with
      | ([], rest) => ([], b :: rest)
      | (line :: lines, rest) => ((b :: line) :: lines, rest)

def allLines (bytes : List UInt8) : List (List UInt8) :=
  (completeLines bytes).1 ++ if (completeLines bytes).2 = [] then [] else [(completeLines bytes).2]

end Alko.Qt
