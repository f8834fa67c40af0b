import Glass2Glass.Lib.Rounds
import Glass2Glass.Lib.SortedMap
import Glass2Glass.Moqt.Data

/-!
# Reassembly of a track

The objects of a track arrive on many streams at once. The reassembler buffers them and gives their payloads out in
the order of their group and object ids, within a bound on the groups and bytes that it holds
(`Reassembler` in `g2g-plugins/src/moqt/reassembly.rs`).
-/

namespace Glass2Glass.Moqt

open Rounds

/-- The next id. The largest one stays. -/
def nextId (id : Nat) : Nat := min (id + 1) (2 ^ 64 - 1)

structure PendingGroup where
  objects : SortedMap Nat (List UInt8)
  bytes : Nat
  streamsOpened : Nat
  streamsClosed : Nat
  ended : Bool

namespace PendingGroup

def default : PendingGroup := { objects := .empty, bytes := 0, streamsOpened := 0, streamsClosed := 0, ended := false }

/-- Nothing more will arrive for the group. -/
def complete (g : PendingGroup) : Bool := g.ended || (0 < g.streamsOpened && g.streamsOpened == g.streamsClosed)

end PendingGroup

/-- The object that is to be given out next. -/
structure Cursor where
  group : Nat
  nextObject : Nat

/-- Counters of what was thrown away and what was given out. -/
structure ReassemblyStats where
  groupsDropped : Nat
  objectsDropped : Nat
  objectsEmitted : Nat

namespace ReassemblyStats

def dropGroup (s : ReassemblyStats) : ReassemblyStats := { s with groupsDropped := (s.groupsDropped + 1) % 2 ^ 64 }

def dropObjects (s : ReassemblyStats) (n : Nat) : ReassemblyStats :=
  { s with objectsDropped := (s.objectsDropped + n) % 2 ^ 64 }

def emitObject (s : ReassemblyStats) : ReassemblyStats := { s with objectsEmitted := (s.objectsEmitted + 1) % 2 ^ 64 }

end ReassemblyStats

structure Reassembler where
  maxGroups : Nat
  maxBytes : Nat
  groups : SortedMap Nat PendingGroup
  cursor : Option Cursor
  floor : Nat
  bufferedBytes : Nat
  stats : ReassemblyStats

namespace Reassembler

/-- A bound of zero would drop everything, so both are one at least. -/
def new (maxGroups maxBytes : Nat) : Reassembler :=
  { maxGroups := max maxGroups 1, maxBytes := max maxBytes 1, groups := .empty, cursor := none, floor := 0,
    bufferedBytes := 0, stats := { groupsDropped := 0, objectsDropped := 0, objectsEmitted := 0 } }

variable (r : Reassembler)

variable (id : Nat)

/-- The group with an id, an empty one if there is none. -/
def groupOf : PendingGroup := (r.groups.get? id).getD .default

def setGroup (g : PendingGroup) : Reassembler := { r with groups := r.groups.insert id g }

def streamOpened : Reassembler :=
  if id < r.floor then r
  else r.setGroup id { r.groupOf id with streamsOpened := ((r.groupOf id).streamsOpened + 1) % 2 ^ 32 }

def streamClosed : Reassembler :=
  match r.groups.get? id with
  | none => r
  | some g => r.setGroup id { g with streamsClosed := min (g.streamsClosed + 1) (2 ^ 32 - 1) }

/-- The object is below the cursor, in the group of the cursor. -/
def passed (groupId objectId : Nat) : Bool :=
  r.cursor.any fun c => groupId == c.group && decide (objectId < c.nextObject)

def buffer (g : PendingGroup) (o : ReceivedObject) : PendingGroup :=
  { g with
    objects := g.objects.insert o.objectId o.payload
    bytes := g.bytes + o.payload.length
    ended := g.ended || o.status == .endOfGroup || o.status == .endOfTrack }

/-- Buffer an object. Late and duplicate ones are dropped. The sums are of lengths of buffers, which no word is too
short for. -/
def push (o : ReceivedObject) : Reassembler :=
  if o.groupId < r.floor || r.passed o.groupId o.objectId then { r with stats := r.stats.dropObjects 1 }
  else if (r.groupOf o.groupId).objects.contains o.objectId then
    { r.setGroup o.groupId (r.groupOf o.groupId) with stats := r.stats.dropObjects 1 }
  else { r.setGroup o.groupId (buffer (r.groupOf o.groupId) o) with bufferedBytes := r.bufferedBytes + o.payload.length }

def removeGroup : Reassembler :=
  match r.groups.get? id with
  | none => r
  | some dead =>
    { r with
      groups := r.groups.erase id
      stats := r.stats.dropObjects dead.objects.size
      bufferedBytes := r.bufferedBytes - dead.bytes }

def dropBelow : Reassembler :=
  let stale := (r.groups.entries.map Prod.fst).filter (· < id)
  let dropped := stale.foldl (fun r id => { r with stats := r.stats.dropGroup }.removeGroup id) r
  { dropped with floor := max dropped.floor id }

/-- Retire a group, and go on at the start of the next one. -/
def closeGroup : Reassembler :=
  { r.removeGroup id with floor := nextId id, cursor := some { group := nextId id, nextObject := 0 } }

/-- Give out the object at the cursor. One of no bytes is only a marker. -/
def emit (c : Cursor) (g : PendingGroup) (payload : List UInt8) : Reassembler × List (List UInt8) :=
  ({ r with
      groups := r.groups.insert c.group
        { g with objects := g.objects.erase c.nextObject, bytes := g.bytes - payload.length }
      bufferedBytes := r.bufferedBytes - payload.length
      cursor := some { c with nextObject := nextId c.nextObject }
      stats := if payload.isEmpty then r.stats else r.stats.emitObject },
    if payload.isEmpty then [] else [payload])

/-- One round of `emitReady`, nothing where it returns. -/
def emitStep : Option (Reassembler × List (List UInt8)) :=
  match r.cursor with
  | none =>
    -- Playback begins at the first group whose first object is here.
    (r.groups.entries.find? fun e => e.2.objects.contains 0).map fun e =>
      ({ r.dropBelow e.1 with cursor := some { group := e.1, nextObject := 0 } }, [])
  | some c =>
    match r.groups.get? c.group with
    | none => none
    | some g =>
      match g.objects.get? c.nextObject with
      | some payload => some (r.emit c g payload)
      | none =>
        if g.complete then
          match g.objects.first? with
          | some object =>
            -- A hole in a finished group is never filled.
            some ({ r with
              cursor := some { c with nextObject := object.1 }
              stats := r.stats.dropObjects (object.1 - c.nextObject) }, [])
          | none => some (r.closeGroup c.group, [])
        else none

variable (fuel : Nat) (r : Reassembler)

/-- Give out objects for as long as the next one is there. -/
def emitReady : Option (Reassembler × List (List UInt8)) := loop emitStep fuel r

/-- Drop the oldest group if a bound is exceeded, nothing if none is. -/
def enforceBounds : Option Reassembler :=
  if r.groups.size ≤ r.maxGroups ∧ r.bufferedBytes ≤ r.maxBytes then none
  else
    r.groups.first?.map fun lowest =>
      if r.cursor.any fun c => c.group < lowest.1 then
        -- The group of the cursor never arrived: skip to the oldest one that did.
        { { r with stats := r.stats.dropGroup }.dropBelow lowest.1 with
          cursor := some { group := lowest.1, nextObject := 0 } }
      else { r with stats := r.stats.dropGroup }.closeGroup lowest.1

/-- All payloads that are in order now. -/
def drain : Option (Reassembler × List (List UInt8)) :=
  rounds (emitReady fuel) enforceBounds fuel r

/-- Go on at the oldest group, nothing if there is no group. -/
def skipToLowest : Option Reassembler :=
  r.groups.first?.map fun lowest =>
    { r.dropBelow lowest.1 with
      cursor := some { group := lowest.1, nextObject := (lowest.2.objects.first?.map Prod.fst).getD 0 } }

def endAll : Reassembler := { r with groups := r.groups.map fun g => { g with ended := true } }

/-- Nothing more will arrive: all that is left is given out. -/
def flush : Option (Reassembler × List (List UInt8)) :=
  rounds (emitReady fuel) skipToLowest fuel r.endAll

/-! ## Calls -/

inductive Call where
  | streamOpened (groupId : Nat)
  | streamClosed (groupId : Nat)
  | push (object : ReceivedObject)
  | drain
  | flush

def call : Call → Option (Reassembler × List (List UInt8))
  | .streamOpened groupId => some (r.streamOpened groupId, [])
  | .streamClosed groupId => some (r.streamClosed groupId, [])
  | .push object => some (r.push object, [])
  | .drain => r.drain fuel
  | .flush => r.flush fuel

/-- One call after the other, and all that is given out. Nothing when the fuel runs out in a loop. -/
def calls (fuel : Nat) : Reassembler → List Call → Option (Reassembler × List (List UInt8))
  | r, [] => some (r, [])
  | r, c :: cs => (r.call fuel c).bind fun done => (calls fuel done.1 cs).map fun later => (later.1, done.2 ++ later.2)

end Reassembler

end Glass2Glass.Moqt
