import StreamHouse.Sql.Aggregation
import StreamHouse.Lib.OrderedMap
import StreamHouse.Lib.Sessions
import Mathlib.Data.Prod.Lex

/-!
# Windows

The messages of a window query are grouped by window and group key. A grouping that divides by
zero, or whose loop does not end, gives nothing.
-/

namespace StreamHouse.Sql

open Lib MessageRow

inductive WindowType where
  | tumble (size : Int)
  | hop (size slide : Int)
  | session (gap : Int)

/-- `(window_start, window_end, group_key)` in its order, no group key first. -/
abbrev WindowKey := Int ×ₗ Int ×ₗ WithBot String

def windowKey (windowStart windowEnd : Int) (groupKey : Option String) : WindowKey :=
  toLex (windowStart, toLex (windowEnd, groupKey))

/-- `BTreeMap<WindowKey, Vec<MessageRow>>`. -/
abbrev WindowGroups := List (WindowKey × List MessageRow)

variable (display : Json → String)

/-- The division of `i64` rounds towards zero. -/
def tumbleKey (size : Int) (groupBy : List String) (msg : MessageRow) : WindowKey :=
  let windowStart := msg.timestamp.tdiv size * size
  windowKey windowStart (windowStart + size) (extractGroupKey display msg groupBy)

def groupIntoTumbleWindows (messages : List MessageRow) (size : Int) (groupBy : List String) : Option WindowGroups :=
  if size = 0 ∧ messages ≠ [] then none
  else some ((messages.map fun msg => (tumbleKey display size groupBy msg, msg)).foldl OrderedMap.push [])

/-- The start of the first window that the loop makes. -/
def hopFirst (slide : Int) (messages : List MessageRow) : Int :=
  ((messages.map timestamp).min?.getD 0).tdiv slide * slide

def maxTimestamp (messages : List MessageRow) : Int := (messages.map timestamp).max?.getD 0

/-- The starts of the windows, from the first up to the last timestamp. -/
def hopStarts (slide : Int) (messages : List MessageRow) : List Int :=
  let first := hopFirst slide messages
  let last := maxTimestamp messages
  if first ≤ last then (List.range ((last - first) / slide).toNat.succ).map fun (i : Nat) => first + i * slide else []

def inWindow (windowStart size : Int) (msg : MessageRow) : Bool :=
  decide (windowStart ≤ msg.timestamp) && decide (msg.timestamp < windowStart + size)

def groupIntoHopWindows (messages : List MessageRow) (size slide : Int) (groupBy : List String) : Option WindowGroups :=
  if messages = [] then some []
  else if slide = 0 then none
  else if slide < 0 ∧ hopFirst slide messages ≤ maxTimestamp messages then none
  else some (((hopStarts slide messages).flatMap fun windowStart => (messages.filter (inWindow windowStart size)).map fun msg =>
    (windowKey windowStart (windowStart + size) (extractGroupKey display msg groupBy), msg)).foldl OrderedMap.push [])

/-- The first and the last timestamp of a session. -/
def sessionKey (groupKey : Option String) (session : List MessageRow) : WindowKey :=
  windowKey ((session.head?.map timestamp).getD 0) ((session.getLast?.map timestamp).getD 0) groupKey

/-- The sessions of one group: a session is closed where the next message is more than the gap
behind the last. -/
def groupSessions (messages : List MessageRow) (gap : Int) (groupBy : List String) (groupKey : Option String) : WindowGroups :=
  let group := messages.filter fun msg => extractGroupKey display msg groupBy = groupKey
  (Sessions.sessions timestamp gap (Sessions.sorted timestamp group)).map fun session =>
    (sessionKey groupKey session, session)

/-- The groups have different keys, so that their order does not show in the map. -/
def groupIntoSessionWindows (messages : List MessageRow) (gap : Int) (groupBy : List String) : WindowGroups :=
  let groups := (messages.map fun msg => extractGroupKey display msg groupBy).dedup
  (groups.flatMap (groupSessions display messages gap groupBy)).foldl (fun m entry => OrderedMap.insert entry.1 entry.2 m) []

def groupIntoWindows (window : WindowType) (messages : List MessageRow) (groupBy : List String) : Option WindowGroups :=
  match window with
  | .tumble size => groupIntoTumbleWindows display messages size groupBy
  | .hop size slide => groupIntoHopWindows display messages size slide groupBy
  | .session gap => some (groupIntoSessionWindows display messages gap groupBy)

end StreamHouse.Sql
