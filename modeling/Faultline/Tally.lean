/-
# Tally — counters of a run

Counters are words of 64 bits with sign: sums wrap. A tally is added up from the
tallies of its parts.
-/
import Faultline.Power

namespace Faultline

def countSum (a b : Int) : Int :=
  (a + b).bmod (twoPow 64)

structure SolverTally where
  queries : Int := 0
  time : Int := 0
  deriving DecidableEq, Inhabited

structure CheckTally where
  functions : Int := 0
  sentinels : Int := 0
  reports : Int := 0
  time : Int := 0
  deriving DecidableEq, Inhabited

/-- Sentinels inserted, by what they guard against, and arithmetic left alone because nothing
depends on it. -/
structure InsertTally where
  overflow : Int := 0
  shift : Int := 0
  division : Int := 0
  unobservable : Int := 0
  deriving DecidableEq, Inhabited

namespace SolverTally

def add (a b : SolverTally) : SolverTally :=
  ⟨countSum a.queries b.queries, countSum a.time b.time⟩

end SolverTally

namespace CheckTally

def add (a b : CheckTally) : CheckTally :=
  ⟨countSum a.functions b.functions, countSum a.sentinels b.sentinels,
    countSum a.reports b.reports, countSum a.time b.time⟩

end CheckTally

namespace InsertTally

def add (a b : InsertTally) : InsertTally :=
  ⟨countSum a.overflow b.overflow, countSum a.shift b.shift, countSum a.division b.division,
    countSum a.unobservable b.unobservable⟩

def total (t : InsertTally) : Int :=
  countSum (countSum t.overflow t.shift) t.division

end InsertTally

end Faultline
