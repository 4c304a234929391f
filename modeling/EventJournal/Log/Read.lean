import EventJournal.Log.Error
import EventJournal.Procedure

/-!
# Reading

Events are read by stream, between two indexes, or in the order of the log, after a
position. A reader that remembers an event instead of a position asks for its position
first; an event that the log does not know stands for the beginning.
-/

namespace EventJournal

/-! ### Positions -/

/-- The control states of the search for an event's position. -/
inductive Locating
  /-- About to ask for the position. -/
  | asking (event : Uuid)
  /-- The log does not know the event. -/
  | unknown
  /-- The search has ended. -/
  | done (result : Except LogError (Option Nat))

/-- What the search for a position does next. -/
def Locating.next : Locating → Progress Locating (Except LogError (Option Nat))
  | asking event => .asks (.positionOf event) fun
    | .ok (some position) => done (.ok (some position))
    | .ok none => unknown
    | .error e => done (.error (.store e))
  | unknown => .warns .unknownEvent (done (.ok none))
  | done result => .finished result

/-! ### Events -/

/-- The control states of a read. -/
inductive Reading
  /-- About to read a stream between two indexes. -/
  | ofStream (stream : Uuid) (first last : Nat)
  /-- About to read the log after a position. -/
  | after (position : Option Nat) (limit : Nat)
  /-- The position after which to read is being looked for. -/
  | locating (search : Locating) (limit : Nat)
  /-- The read has ended. -/
  | done (result : Except LogError (List Event))

namespace Reading

/-- A read after an event, or from the beginning. -/
def afterEvent (event : Option Uuid) (limit : Nat) : Reading :=
  match event with
  | some event => locating (.asking event) limit
  | none => after none limit

/-- What a read does next. The store is not asked for what cannot be there. -/
def next : Reading → Progress Reading (Except LogError (List Event))
  | ofStream stream first last =>
    if last < first then .finished (.ok [])
    else .asks (.eventsOfStream stream first last) fun
      | .ok events => done (.ok events)
      | .error e => done (.error (.store e))
  | after position limit =>
    if limit = 0 then .finished (.ok [])
    else .asks (.eventsAfter position limit) fun
      | .ok events => done (.ok events)
      | .error e => done (.error (.store e))
  | locating search limit => search.next.within (fun s => locating s limit) fun
    | .ok position => .moves (after position limit)
    | .error e => .finished (.error e)
  | done result => .finished result

end Reading

/-! ### Pages -/

/-- The control states of a reader that goes through the log page by page; `pages` are
those it has read. -/
inductive Paging
  /-- A page is being read. -/
  | reading (pages : List (List Event)) (page : Reading)
  /-- A page was empty, or the store has failed. -/
  | done (result : Except LogError (List (List Event)))

/-- What a reader does next that reads `limit` events a page. -/
def Paging.next (limit : Nat) : Paging → Progress Paging (Except LogError (List (List Event)))
  | reading pages page => page.next.within (reading pages) fun
    | .ok [] => .finished (.ok pages)
    | .ok (e :: rest) =>
      let position := ((e :: rest).getLast?.map (·.position))
      .moves (reading (pages ++ [e :: rest]) (.after position limit))
    | .error e => .finished (.error e)
  | done result => .finished result

end EventJournal
