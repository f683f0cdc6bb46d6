import SyntaxCoverage.Failure
import SyntaxCoverage.Recording
import SyntaxCoverage.SortedMap
import SyntaxCoverage.Source.LineMap
import SyntaxCoverage.Syntax.Codec

/-!
Tallies: recordings held in memory. A tally adds up hits and completions for each exact extent, and
no sum grows past the largest count. With a line map it refuses extents outside the text, and finds
the outermost extent at a position.
-/

namespace SyntaxCoverage

def addCounts (a b : Nat) : Nat := min (a + b) maxCount

theorem addCounts_comm (a b : Nat) : addCounts a b = addCounts b a := by
  rw [addCounts, addCounts, Nat.add_comm]

theorem addCounts_assoc (a b c : Nat) :
    addCounts (addCounts a b) c = addCounts a (addCounts b c) := by
  simp only [addCounts]
  omega

structure HitRecord where
  extent : Extent
  hits : Nat
  completions : Option Nat
deriving DecidableEq, Inhabited

namespace HitRecord

def toJson (r : HitRecord) : Json :=
  .obj (Json.field "range" r.extent.toJson :: Json.field "hits" (.ofNat r.hits) ::
    r.completions.toList.map fun n => Json.field "completions" (.ofNat n))

def ofJson? (value : Json) : Option HitRecord := do
  match ← value.fields? ["range", "hits", "completions"] false with
  | [some extent, some hits, completions] =>
    return ⟨← Extent.ofJson? extent, ← hits.toNat? maxCount,
      ← Json.optional (Json.toNat? maxCount) completions⟩
  | _ => none

end HitRecord

structure Counts where
  hits : Nat
  completions : Option Nat
deriving DecidableEq, Inhabited

namespace Counts

def none : Counts := ⟨0, .none⟩

def addHits (n : Nat) (c : Counts) : Counts := { c with hits := addCounts c.hits n }

def addCompletions (n : Nat) (c : Counts) : Counts :=
  { c with completions := some (addCounts (c.completions.getD 0) n) }

end Counts

structure Tally where
  counts : SortedMap Extent Counts
  lines : Option LineMap
deriving DecidableEq

namespace Tally

def empty : Tally := ⟨∅, none⟩

instance : Inhabited Tally := ⟨empty⟩

def withLines (t : Tally) (lines : LineMap) : Tally := { t with lines := some lines }

def addHits (t : Tally) (e : Extent) (n : Nat) : Tally :=
  { t with counts := t.counts.upsert e fun c => (c.getD .none).addHits n }

def addCompletions (t : Tally) (e : Extent) (n : Nat) : Tally :=
  { t with counts := t.counts.upsert e fun c => (c.getD .none).addCompletions n }

def addRecord (t : Tally) (r : HitRecord) : Tally :=
  match r.completions with
  | some n => (t.addHits r.extent r.hits).addCompletions r.extent n
  | none => t.addHits r.extent r.hits

def ofRecords (rs : List HitRecord) : Tally := rs.foldl addRecord empty

def records (t : Tally) : List HitRecord :=
  t.counts.entries.map fun e => ⟨e.1, e.2.hits, e.2.completions⟩

/-- Adds the counts of another tally, and takes its lines when there are none yet. -/
def merge (t other : Tally) : Tally :=
  let sum := other.records.foldl addRecord t
  { sum with lines := t.lines <|> other.lines }

def size (t : Tally) : Nat := t.counts.size

def isEmpty (t : Tally) : Bool := t.counts.isEmpty

def ofJson? (value : Json) : Option Tally :=
  (value.toList? HitRecord.ofJson?).map ofRecords

def ofText (text : String) : Except Failure Tally := Json.decodeText ofJson? text

def checkBounds (t : Tally) (e : Extent) : Except RecordingError Unit :=
  match t.lines with
  | some lines => if lines.length < e.stop then .error (.outOfBounds e) else .ok ()
  | none => .ok ()

def hits (t : Tally) (e : Extent) : Except RecordingError (Option Nat) := do
  t.checkBounds e
  return (t.counts.find? e).map (·.hits)

def completions (t : Tally) (e : Extent) : Except RecordingError (Option Nat) := do
  t.checkBounds e
  return (t.counts.find? e).bind (·.completions)

/-- The hits of the outermost extent that starts at a position. -/
def hitsAt (t : Tally) (p : Position) : Except RecordingError (Option Nat) :=
  match t.lines with
  | none => .error (.unreadable "no line index attached to hit table")
  | some lines =>
    match lines.offset? p with
    | none => .ok none
    | some offset =>
      -- extents with one start are in order of their stops, so the outermost is the last
      let here := t.counts.between ⟨offset, offset⟩ ⟨offset, maxIndex⟩
      .ok (here.getLast?.map (·.2.hits))

def recording (t : Tally) : Recording := ⟨t.hits, t.completions⟩

end Tally

end SyntaxCoverage
