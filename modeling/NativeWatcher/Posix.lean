/-!
# What the code reads of the POSIX interface
-/

namespace NativeWatcher

/-- `struct timespec`. -/
structure Timespec where
  tv_sec : UInt64
  tv_nsec : UInt64
deriving DecidableEq, Repr

/-- `CONVERT_TIME(ts)`. -/
def convertTime (ts : Timespec) : UInt64 := ts.tv_sec * 1000000000 + ts.tv_nsec

/-- What the code asks of `st_mode`: `S_ISREG`, `S_ISDIR` or neither. -/
inductive FileMode where
  | regular
  | directory
  | other
deriving DecidableEq, Repr

/-! ## Values of `errno` -/

def ENOENT : Nat := 2
def ENOTDIR : Nat := 20
def EINVAL : Nat := 22

end NativeWatcher
