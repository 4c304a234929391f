/-!
# The frontier

The elements of a pipeline are numbered in the order in which they are fetched, and they
finish in any order. The frontier is the greatest number up to which all have finished; it
is the only place that is safe to note as progress. Numbers that have finished beyond it
are pending until the gap before them is closed.

A *stretch* is what the frontier has covered since its start, which is moved up to the
frontier whenever the progress has been noted.
-/

namespace EventJournal

/-- Contiguous progress over numbers that finish in any order. -/
structure Frontier where
  /-- Where the stretch begins: the frontier when the progress was last noted. -/
  start : Nat
  /-- The greatest number up to which all have finished. -/
  position : Nat
  /-- The numbers beyond the frontier that have finished, ascending. -/
  pending : List Nat
  /-- How many numbers the frontier has passed since the start of the stretch. -/
  folded : Nat
  deriving DecidableEq, Repr

namespace Frontier

/-- The frontier after which nothing has finished. -/
def ofPosition (position : Nat) : Frontier := ⟨position, position, [], 0⟩

instance : Inhabited Frontier := ⟨ofPosition 0⟩

/-- A list of ascending numbers with `n` in its place. -/
def putNumber (n : Nat) : List Nat → List Nat
  | [] => [n]
  | m :: rest =>
    if n < m then n :: m :: rest
    else if n = m then m :: rest
    else m :: putNumber n rest

/-- How far a frontier comes over ascending numbers, and the numbers beyond it. -/
def pass (position : Nat) : List Nat → Nat × List Nat
  | [] => (position, [])
  | n :: rest => if n = position + 1 then pass n rest else (position, n :: rest)

/-- The frontier after `n` has finished. A number that it has passed counts for nothing. -/
def finish (f : Frontier) (n : Nat) : Frontier :=
  if n ≤ f.position then f
  else
    let (position, pending) := pass f.position (putNumber n f.pending)
    { f with position, pending, folded := f.folded + (position - f.position) }

/-- How many numbers have finished since the start of the stretch, the pending ones
included. -/
def count (f : Frontier) : Nat := f.folded + f.pending.length

/-- The length of the stretch. -/
def length (f : Frontier) : Nat := f.position - f.start

/-- The frontier with a new stretch; pending numbers stay pending. -/
def clear (f : Frontier) : Frontier := { f with start := f.position, folded := 0 }

end Frontier

end EventJournal
