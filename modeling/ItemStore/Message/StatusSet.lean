/-!
# Sets of statuses

Which statuses of a response count as a success: by default those from 200 to 299, and any that are
listed.
-/

namespace ItemStore

/-- The statuses that count as a success. -/
structure StatusSet where
  /-- Whether all statuses from 200 to 299 count. -/
  any2xx : Bool
  /-- Further statuses, in the order in which they were added. -/
  extra : List Nat
deriving DecidableEq, Repr

namespace StatusSet

/-- The statuses from 200 to 299. -/
def standard : StatusSet := ⟨true, []⟩

/-- The listed statuses and no others. -/
def only (statuses : List Nat) : StatusSet := ⟨false, statuses⟩

/-- Adds a status. -/
def add (s : StatusSet) (status : Nat) : StatusSet :=
  if s.extra.contains status then s else { s with extra := s.extra ++ [status] }

/-- Whether a status is in the set. -/
def contains (s : StatusSet) (status : Nat) : Bool :=
  (s.any2xx && decide (200 ≤ status) && decide (status < 300)) || s.extra.contains status

end StatusSet

end ItemStore
