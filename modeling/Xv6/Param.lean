import Mathlib.Tactic

/-!
The compile-time limits of the kernel.
-/

namespace Xv6.Param

def MAXOPBLOCKS : ℕ := 10
def LOGBLOCKS : ℕ := MAXOPBLOCKS * 3
def NBUF : ℕ := MAXOPBLOCKS * 3

end Xv6.Param
