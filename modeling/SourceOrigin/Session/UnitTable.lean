import SourceOrigin.Cache
import SourceOrigin.FileTree.Source

/-! The table of loaded units: every file has one unit, under the location of the file. Loading is
also given as a sequence of atomic steps, between which other workers may act; left alone, they do
what `UnitTable.load` does (`advance_eq_load`). -/
namespace SourceOrigin

abbrev UnitId := Nat

structure LoadedUnit where
  id : UnitId
  unit : SourceUnit
  deriving DecidableEq, Repr

def LoadedUnit.document (loaded : LoadedUnit) : Document UnitId := ⟨loaded.id, loaded.unit.tree⟩

/-- Loaded units by the location of their file, in the order of loading, and the number of the next
unit. -/
structure UnitTable where
  entries : List (Location × LoadedUnit) := []
  nextId : UnitId := 0
  deriving DecidableEq, Repr

namespace UnitTable

def find? (table : UnitTable) (location : Location) : Option LoadedUnit :=
  table.entries.lookup location

def size (table : UnitTable) : Nat := table.entries.length

def reserve (table : UnitTable) : UnitTable × UnitId :=
  ({ table with nextId := table.nextId + 1 }, table.nextId)

def adopt (table : UnitTable) (unit : SourceUnit) : UnitTable × LoadedUnit :=
  let (table, id) := table.reserve
  (table, ⟨id, unit⟩)

/-- Enters a unit under a location, unless there is one already; the one that is there is returned. -/
def insertIfAbsent (table : UnitTable) (location : Location) (loaded : LoadedUnit) :
    UnitTable × LoadedUnit :=
  match table.find? location with
  | some present => (table, present)
  | none => ({ table with entries := table.entries ++ [(location, loaded)] }, loaded)

/-- The table without units. Numbers are not used again. -/
def clear (table : UnitTable) : UnitTable := { table with entries := [] }

def load (table : UnitTable) (files : FileTree) (encodingName : Text) (location : Location) :
    UnitTable × Except LoadError LoadedUnit :=
  match table.find? location with
  | some loaded => (table, .ok loaded)
  | none =>
    match files.readUnit (Path.ofLocation location) encodingName with
    | .error error => (table, .error error)
    | .ok unit =>
      let (table, fresh) := table.adopt unit
      let (table, loaded) := table.insertIfAbsent location fresh
      (table, .ok loaded)

end UnitTable

inductive LoadStage where
  | lookup
  | reading
  | inserting (fresh : LoadedUnit)
  | finished (outcome : Except LoadError LoadedUnit)

structure LoadCall where
  location : Location
  stage : LoadStage := .lookup

namespace LoadCall

/-- One atomic step: a lookup, the reading of the file, or the insertion. -/
def step (files : FileTree) (encodingName : Text) (table : UnitTable) (call : LoadCall) :
    UnitTable × LoadCall :=
  match call.stage with
  | .lookup =>
    match table.find? call.location with
    | some loaded => (table, { call with stage := .finished (.ok loaded) })
    | none => (table, { call with stage := .reading })
  | .reading =>
    match files.readUnit (Path.ofLocation call.location) encodingName with
    | .error error => (table, { call with stage := .finished (.error error) })
    | .ok unit =>
      let (table, fresh) := table.adopt unit
      (table, { call with stage := .inserting fresh })
  | .inserting fresh =>
    let (table, loaded) := table.insertIfAbsent call.location fresh
    (table, { call with stage := .finished (.ok loaded) })
  | .finished _ => (table, call)

def advance (files : FileTree) (encodingName : Text) : Nat → UnitTable → LoadCall → UnitTable × LoadCall
  | 0, table, call => (table, call)
  | n + 1, table, call =>
    let (table, call) := call.step files encodingName table
    advance files encodingName n table call

/-- Three steps of a call that no other worker disturbs load the unit. -/
theorem advance_eq_load (files : FileTree) (encodingName : Text) (table : UnitTable)
    (location : Location) :
    advance files encodingName 3 table ⟨location, .lookup⟩ =
      let (loaded, outcome) := table.load files encodingName location
      (loaded, ⟨location, .finished outcome⟩) := by
  unfold UnitTable.load
  cases hfound : table.find? location with
  | some loaded => simp [advance, step, hfound]
  | none =>
    cases hread : files.readUnit (Path.ofLocation location) encodingName with
    | error error => simp [advance, step, hfound, hread]
    | ok unit => simp [advance, step, hfound, hread]

end LoadCall

end SourceOrigin
