import LifetimeEfficiency.Characters.Marks
import LifetimeEfficiency.Characters.Unassigned
/-!
# Hidden characters

Characters outside ASCII that a reader of a line would not see, or not see as characters of their own.
-/
namespace LifetimeEfficiency

namespace CodeRuns

def invisible : CodeRuns := [
    (0x80, 0xA0), (0xAD, 0xAD), (0x600, 0x605), (0x61C, 0x61C), (0x6DD, 0x6DD), (0x70F, 0x70F),
    (0x890, 0x891), (0x8E2, 0x8E2), (0x1680, 0x1680), (0x180E, 0x180E), (0x2000, 0x200F),
    (0x2028, 0x202F), (0x205F, 0x2064), (0x2066, 0x206F), (0x3000, 0x3000), (0xFEFF, 0xFEFF),
    (0xFFF9, 0xFFFB), (0x110BD, 0x110BD), (0x110CD, 0x110CD), (0x13430, 0x1343F),
    (0x1BCA0, 0x1BCA3), (0x1D173, 0x1D17A), (0xE0001, 0xE0001), (0xE0020, 0xE007F)]

/-- Letters without a shape, which fill the place of a missing one in a syllable. -/
def fillers : CodeRuns := [
    (0x115F, 0x1160), (0x3164, 0x3164), (0xFFA0, 0xFFA0)]

end CodeRuns

/-- Whether a character leaves no mark of its own on a line; those of ASCII never count. -/
def isHidden (c : Char) : Bool :=
  CodeRuns.invisible.holds c || CodeRuns.fillers.holds c || CodeRuns.marks.holds c ||
    CodeRuns.unassigned.holds c

end LifetimeEfficiency
