import Columnar.Fault

/-!
# Reference counts

A count starts at one.  Releasing a count that is not positive is a misuse, and lowers it all the
same.
-/

namespace Columnar

/-- The number of holders of a region. -/
structure RefCount where
  holders : Int := 1
  deriving DecidableEq, Repr

namespace RefCount

/-- One more holder. -/
def retain (r : RefCount) : RefCount := ⟨r.holders + 1⟩

/-- One holder fewer, and whether it was the last one. -/
def release (r : RefCount) : RefCount × Except Fault Bool :=
  (⟨r.holders - 1⟩,
    if r.holders ≤ 0 then Misuse.tooManyReleases.stop else .ok (decide (r.holders = 1)))

end RefCount

end Columnar
