import LineBasic.Display.Command

/-!
# The palette

The sixteen colors that text and graphics can have. An index above fifteen wraps
around.
-/

namespace LineBasic

structure Hue where
  name : String
  red : UInt8
  green : UInt8
  blue : UInt8
  deriving DecidableEq, Repr

namespace Palette

/-- The colors in the order of their indices. -/
def hues : Vector Hue 16 :=
  #v[⟨"BLACK", 0x00, 0x00, 0x00⟩, ⟨"WHITE", 0xFF, 0xFF, 0xFF⟩, ⟨"RED", 0x88, 0x00, 0x00⟩,
    ⟨"CYAN", 0xAA, 0xFF, 0xEE⟩, ⟨"PURPLE", 0xCC, 0x44, 0xCC⟩, ⟨"GREEN", 0x00, 0xCC, 0x55⟩,
    ⟨"BLUE", 0x00, 0x00, 0xAA⟩, ⟨"YELLOW", 0xEE, 0xEE, 0x77⟩, ⟨"ORANGE", 0xDD, 0x88, 0x55⟩,
    ⟨"BROWN", 0x66, 0x44, 0x00⟩, ⟨"LIGHT RED", 0xFF, 0x77, 0x77⟩,
    ⟨"DARK GREY", 0x33, 0x33, 0x33⟩, ⟨"GREY", 0x77, 0x77, 0x77⟩,
    ⟨"LIGHT GREEN", 0xAA, 0xFF, 0x66⟩, ⟨"LIGHT BLUE", 0x00, 0x88, 0xFF⟩,
    ⟨"LIGHT GREY", 0xBB, 0xBB, 0xBB⟩]

def hue (c : Color) : Hue := hues[c.toNat % 16]

end Palette

end LineBasic
