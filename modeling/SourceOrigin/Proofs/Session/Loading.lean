import SourceOrigin.Proofs.Session.Processed

/-! Calls for units that several workers make of one session, while others close it. The table of units is looked up, the
file is read and the unit is entered in steps of their own, and the files may change between any two of them. All that an
event can do is listed once (`LoadSystem.Moves`). -/
namespace SourceOrigin

/-- A call for the unit of a path has not begun, or it is refused because no location is found for the path, or it is under
way at the location to which the path led when it began. -/
inductive RequestStage where
  | waiting
  | refused (error : LoadError)
  | loading (call : LoadCall)

structure UnitRequest where
  path : Path
  stage : RequestStage := .waiting

namespace RequestStage

def location? : RequestStage → Option Location
  | loading call => some call.location
  | _ => none

def outcome? : RequestStage → Option (Except LoadError LoadedUnit)
  | refused error => some (.error error)
  | loading ⟨_, .finished outcome⟩ => some outcome
  | _ => none

def held? : RequestStage → Option (Location × LoadedUnit)
  | loading ⟨location, .inserting unit⟩ | loading ⟨location, .finished (.ok unit)⟩ => some (location, unit)
  | _ => none

end RequestStage

namespace UnitRequest

/-- One atomic step, with the files as they are. The path is resolved when the table is looked up. -/
def step (files : FileTree) (encodingName : Text) (table : UnitTable) (request : UnitRequest) :
    UnitTable × UnitRequest :=
  match request.stage with
  | .waiting =>
    match files.resolutionError? request.path with
    | some error => (table, { request with stage := .refused error })
    | none =>
      let (table, call) := LoadCall.step files encodingName table ⟨files.resolve request.path, .lookup⟩
      (table, { request with stage := .loading call })
  | .refused _ => (table, request)
  | .loading call =>
    let (table, call) := call.step files encodingName table
    (table, { request with stage := .loading call })

def advance (files : FileTree) (encodingName : Text) : Nat → UnitTable → UnitRequest → UnitTable × UnitRequest
  | 0, table, request => (table, request)
  | n + 1, table, request =>
    let (table, request) := request.step files encodingName table
    advance files encodingName n table request

private theorem advance_loading (files : FileTree) (encodingName : Text) (n : Nat) (table : UnitTable) (path : Path)
    (call : LoadCall) :
    advance files encodingName n table ⟨path, .loading call⟩ =
      ((call.advance files encodingName n table).1, ⟨path, .loading (call.advance files encodingName n table).2⟩) := by
  induction n generalizing table call with
  | zero => rfl
  | succ n ih => exact ih _ _

/-- Three steps of a call that is left alone load the unit of its path. -/
theorem load_of_advance (session : Session) (files : FileTree) (path : Path) :
    let (units, request) := advance files session.config.sourceEncoding 3 session.units { path }
    (session.load files path).session = { session with units } ∧
      request.stage.outcome?.map (·.mapError .load) = some (session.load files path).outcome := by
  unfold Session.load
  cases hresolved : files.resolutionError? path with
  | some error =>
    simp only [advance, step, hresolved]
    exact ⟨trivial, rfl⟩
  | none =>
    have hfirst : advance files session.config.sourceEncoding 3 session.units { path } =
        advance files session.config.sourceEncoding 3 session.units ⟨path, .loading ⟨files.resolve path, .lookup⟩⟩ := by
      simp only [advance, step, hresolved]
    rw [hfirst, advance_loading, LoadCall.advance_eq_load]
    exact ⟨rfl, rfl⟩

end UnitRequest

/-- A session, and the calls for its units. -/
structure LoadSystem where
  session : Session
  requests : List UnitRequest

/-- A call makes a step among the files that there are at that moment, or the session is closed. -/
inductive LoadEvent where
  | turn (position : Nat) (files : FileTree)
  | close

def LoadEvent.isClose : LoadEvent → Bool
  | close => true
  | _ => false

namespace LoadSystem

def next (system : LoadSystem) : LoadEvent → LoadSystem
  | .turn position files =>
    match system.requests[position]? with
    | none => system
    | some request =>
      let (units, request) := request.step files system.session.config.sourceEncoding system.session.units
      ⟨{ system.session with units }, system.requests.set position request⟩
  | .close => { system with session := system.session.close }

def reached (config : Config) (paths : List Path) (events : List LoadEvent) : LoadSystem :=
  events.foldl next ⟨{ config }, paths.map fun path => { path }⟩

def location? (system : LoadSystem) (position : Nat) : Option Location :=
  system.requests[position]?.bind (·.stage.location?)

def outcome? (system : LoadSystem) (position : Nat) : Option (Except LoadError LoadedUnit) :=
  system.requests[position]?.bind (·.stage.outcome?)

/-- The event is the step by which the call comes to its unit: a lookup that finds it, or the entry of it. -/
def Decides (config : Config) (paths : List Path) (before : List LoadEvent) (event : LoadEvent) (position : Nat)
    (unit : LoadedUnit) : Prop :=
  (reached config paths before).outcome? position = none ∧
    (reached config paths (before ++ [event])).outcome? position = some (.ok unit)

/-- The event is the step by which a call enters its unit under the location, unless there is one already. -/
def Enters (system : LoadSystem) (event : LoadEvent) (location : Location) : Prop :=
  ∃ position files path fresh, event = .turn position files ∧
    system.requests[position]? = some ⟨path, .loading ⟨location, .inserting fresh⟩⟩

def EnteredSinceClose (config : Config) (paths : List Path) (events : List LoadEvent) (location : Location) : Prop :=
  ∃ before event after, events = before ++ event :: after ∧ (reached config paths before).Enters event location ∧
    ∀ later ∈ after, later.isClose = false

end LoadSystem

/-! ### Steps -/

inductive Loads (table : UnitTable) : LoadCall → UnitTable → LoadCall → Prop where
  | finds {location : Location} {loaded : LoadedUnit} : table.find? location = some loaded →
      Loads table ⟨location, .lookup⟩ table ⟨location, .finished (.ok loaded)⟩
  | misses (location : Location) : Loads table ⟨location, .lookup⟩ table ⟨location, .reading⟩
  | fails (location : Location) (error : LoadError) :
      Loads table ⟨location, .reading⟩ table ⟨location, .finished (.error error)⟩
  | reads (location : Location) (unit : SourceUnit) :
      Loads table ⟨location, .reading⟩ (table.adopt unit).1 ⟨location, .inserting (table.adopt unit).2⟩
  | enters (location : Location) (fresh : LoadedUnit) :
      Loads table ⟨location, .inserting fresh⟩ (table.insertIfAbsent location fresh).1
        ⟨location, .finished (.ok (table.insertIfAbsent location fresh).2)⟩
  | rests (location : Location) (outcome : Except LoadError LoadedUnit) :
      Loads table ⟨location, .finished outcome⟩ table ⟨location, .finished outcome⟩

theorem LoadCall.step_loads (files : FileTree) (encodingName : Text) (table : UnitTable) (call : LoadCall) :
    Loads table call (call.step files encodingName table).1 (call.step files encodingName table).2 := by
  obtain ⟨location, stage⟩ := call
  cases stage with
  | lookup =>
    simp only [step]
    cases hfound : table.find? location with
    | some loaded => exact .finds hfound
    | none => exact .misses location
  | reading =>
    simp only [step]
    cases files.readUnit (Path.ofLocation location) encodingName with
    | error error => exact .fails location error
    | ok unit => exact .reads location unit
  | inserting fresh => exact .enters location fresh
  | finished outcome => exact .rests location outcome

inductive RequestMoves (table : UnitTable) : RequestStage → UnitTable → RequestStage → Prop where
  | refuses (error : LoadError) : RequestMoves table .waiting table (.refused error)
  | begins {location : Location} {after : UnitTable} {call : LoadCall} :
      Loads table ⟨location, .lookup⟩ after call → RequestMoves table .waiting after (.loading call)
  | goesOn {call call' : LoadCall} {after : UnitTable} :
      Loads table call after call' → RequestMoves table (.loading call) after (.loading call')
  | rests (error : LoadError) : RequestMoves table (.refused error) table (.refused error)

theorem UnitRequest.step_moves (files : FileTree) (encodingName : Text) (table : UnitTable) (request : UnitRequest) :
    (request.step files encodingName table).2.path = request.path ∧
      RequestMoves table request.stage (request.step files encodingName table).1
        (request.step files encodingName table).2.stage := by
  obtain ⟨path, stage⟩ := request
  cases stage with
  | waiting =>
    simp only [step]
    split
    · next error _ => exact ⟨rfl, .refuses error⟩
    · exact ⟨rfl, .begins (LoadCall.step_loads files encodingName table _)⟩
  | refused error => exact ⟨rfl, .rests error⟩
  | loading call => exact ⟨rfl, .goesOn (call.step_loads files encodingName table)⟩

namespace LoadSystem

/-- What an event makes of the system: it closes the session, changes nothing, or moves one call. -/
inductive Moves (system : LoadSystem) : LoadEvent → LoadSystem → Prop where
  | closes : Moves system .close { system with session := system.session.close }
  | stays {position : Nat} (files : FileTree) : system.requests[position]? = none →
      Moves system (.turn position files) system
  | steps {position : Nat} {path : Path} {stage stage' : RequestStage} {units : UnitTable} (files : FileTree) :
      system.requests[position]? = some ⟨path, stage⟩ → RequestMoves system.session.units stage units stage' →
      Moves system (.turn position files)
        ⟨{ system.session with units }, system.requests.set position ⟨path, stage'⟩⟩

theorem next_moves (system : LoadSystem) (event : LoadEvent) : system.Moves event (system.next event) := by
  cases event with
  | close => exact .closes
  | turn position files =>
    cases hread : system.requests[position]? with
    | none =>
      simp only [next, hread]
      exact .stays files hread
    | some request =>
      obtain ⟨path, stage⟩ := request
      obtain ⟨hpath, hmoves⟩ :=
        UnitRequest.step_moves files system.session.config.sourceEncoding system.session.units ⟨path, stage⟩
      simp only [next, hread]
      generalize UnitRequest.step files system.session.config.sourceEncoding system.session.units ⟨path, stage⟩ = done
        at hpath hmoves
      obtain ⟨units, path', stage'⟩ := done
      obtain rfl : path' = path := hpath
      exact .steps files hread hmoves

theorem reached_concat (config : Config) (paths : List Path) (events : List LoadEvent) (event : LoadEvent) :
    (reached config paths events).Moves event (reached config paths (events ++ [event])) := by
  rw [reached, reached, List.foldl_append]
  exact next_moves _ event

/-! ### What a step leaves as it is -/

end LoadSystem

theorem UnitTable.find?_of_prefix {table after : UnitTable} (h : table.entries <+: after.entries) {location : Location}
    {loaded : LoadedUnit} (hfound : table.find? location = some loaded) : after.find? location = some loaded := by
  obtain ⟨more, hmore⟩ := h
  rw [UnitTable.find?, ← hmore, List.lookup_append, show table.entries.lookup location = some loaded from hfound,
    Option.some_or]

private theorem UnitTable.find?_insertIfAbsent (table : UnitTable) (location : Location) (loaded : LoadedUnit) :
    (table.insertIfAbsent location loaded).1.find? location = some (table.insertIfAbsent location loaded).2 := by
  unfold insertIfAbsent
  cases hfound : table.find? location with
  | some present => exact hfound
  | none =>
    have hsingle : [(location, loaded)].lookup location = some loaded := by simp
    rw [find?, List.lookup_append, show table.entries.lookup location = none from hfound, Option.none_or, hsingle]

section
variable {table after : UnitTable} {call call' : LoadCall} {stage stage' : RequestStage}

theorem Loads.entries (h : Loads table call after call') : table.entries <+: after.entries := by
  cases h with
  | enters location fresh => exact (table.entries_insertIfAbsent location fresh).1
  | _ => exact List.prefix_rfl

theorem Loads.location (h : Loads table call after call') : call'.location = call.location := by
  cases h <;> rfl

/-- What a call has come to, it has come to for good. -/
theorem Loads.finished {outcome : Except LoadError LoadedUnit} (h : Loads table call after call')
    (hfinished : call.stage = .finished outcome) : call' = call := by
  cases h with
  | rests => rfl
  | _ => simp at hfinished

/-- A step by which a call comes to a unit finds it in the table, or leaves it there. -/
theorem Loads.find? {loaded : LoadedUnit} (h : Loads table call after call')
    (hopen : ∀ outcome, call.stage ≠ .finished outcome) (hunit : call'.stage = .finished (.ok loaded)) :
    after.find? call'.location = some loaded := by
  cases h with
  | finds hfound =>
    obtain rfl := Except.ok.inj (LoadStage.finished.inj hunit)
    exact hfound
  | enters location fresh =>
    obtain rfl := Except.ok.inj (LoadStage.finished.inj hunit)
    exact table.find?_insertIfAbsent location fresh
  | rests location outcome => exact absurd rfl (hopen outcome)
  | _ => simp at hunit

/-- A step by which a call fails leaves the table as it is. -/
theorem Loads.table_of_error {error : LoadError} (h : Loads table call after call')
    (herror : call'.stage = .finished (.error error)) : after = table := by
  cases h with
  | reads => simp at herror
  | enters => simp at herror
  | _ => rfl

namespace RequestMoves

theorem entries (h : RequestMoves table stage after stage') : table.entries <+: after.entries := by
  cases h with
  | begins hloads => exact hloads.entries
  | goesOn hloads => exact hloads.entries
  | _ => exact List.prefix_rfl

theorem outcome {outcome : Except LoadError LoadedUnit} (h : RequestMoves table stage after stage')
    (houtcome : stage.outcome? = some outcome) : stage' = stage := by
  cases h with
  | @goesOn call call' _ hloads =>
    obtain ⟨location, stage⟩ := call
    cases stage with
    | finished found => rw [hloads.finished rfl]
    | _ => simp [RequestStage.outcome?] at houtcome
  | rests => rfl
  | _ => simp [RequestStage.outcome?] at houtcome

theorem location {location : Location} (h : RequestMoves table stage after stage')
    (hlocation : stage.location? = some location) : stage'.location? = some location := by
  cases h with
  | goesOn hloads => rw [← hlocation, RequestStage.location?, RequestStage.location?, hloads.location]
  | _ => simp [RequestStage.location?] at hlocation

private theorem exists_loads {outcome : Except LoadError LoadedUnit} (h : RequestMoves table stage after stage')
    (hopen : stage.outcome? = none) (houtcome : stage'.outcome? = some outcome) :
    (after = table ∧ ∃ error, outcome = .error error) ∨ ∃ call call', Loads table call after call' ∧
      (∀ found, call.stage ≠ .finished found) ∧ call'.stage = .finished outcome ∧
      stage'.location? = some call'.location := by
  have hfinished {call : LoadCall} (h : (RequestStage.loading call).outcome? = some outcome) :
      call.stage = .finished outcome := by
    obtain ⟨location, stage⟩ := call
    cases stage with
    | finished found => rw [Option.some.inj h]
    | _ => simp [RequestStage.outcome?] at h
  cases h with
  | refuses error => exact .inl ⟨rfl, error, (Option.some.inj houtcome).symm⟩
  | begins hloads => exact .inr ⟨_, _, hloads, by simp, hfinished houtcome, rfl⟩
  | @goesOn call call' _ hloads =>
    refine .inr ⟨call, call', hloads, ?_, hfinished houtcome, rfl⟩
    obtain ⟨location, stage⟩ := call
    rintro found rfl
    simp [RequestStage.outcome?] at hopen
  | rests => simp [RequestStage.outcome?] at hopen

end RequestMoves

end

namespace LoadSystem
variable {system after : LoadSystem} {event : LoadEvent} {position : Nat}

/-- The table only grows until the session is closed. -/
theorem Moves.entries (h : system.Moves event after) (hopen : event.isClose = false) :
    system.session.units.entries <+: after.session.units.entries := by
  cases h with
  | closes => simp [LoadEvent.isClose] at hopen
  | stays => exact List.prefix_rfl
  | steps files hread hmoves => exact hmoves.entries

/-- The stage of a call, before and after an event, is the same or comes of a step of the call. -/
theorem Moves.stage {path : Path} {stage : RequestStage} (h : system.Moves event after)
    (hread : system.requests[position]? = some ⟨path, stage⟩) :
    ∃ stage', after.requests[position]? = some ⟨path, stage'⟩ ∧
      (stage' = stage ∨ event.isClose = false ∧
        RequestMoves system.session.units stage after.session.units stage') := by
  cases h with
  | closes => exact ⟨stage, hread, .inl rfl⟩
  | stays => exact ⟨stage, hread, .inl rfl⟩
  | @steps moved _ _ stage' _ files hmoved hmoves =>
    by_cases hposition : moved = position
    · subst hposition
      obtain ⟨rfl, rfl⟩ := UnitRequest.mk.inj (Option.some.inj (hread.symm.trans hmoved))
      have hlt := (List.getElem?_eq_some_iff.mp hread).1
      exact ⟨stage', List.getElem?_set_self hlt, .inr ⟨rfl, hmoves⟩⟩
    · exact ⟨stage, by rw [← hread]; exact List.getElem?_set_ne hposition, .inl rfl⟩

theorem Moves.length (h : system.Moves event after) : after.requests.length = system.requests.length := by
  cases h with
  | steps => exact List.length_set
  | _ => rfl

/-- What a call has come to stays, and so does the location at which it is under way. -/
theorem Moves.keeps (h : system.Moves event after) :
    (∀ outcome, system.outcome? position = some outcome → after.outcome? position = some outcome) ∧
      ∀ location, system.location? position = some location → after.location? position = some location := by
  cases hread : system.requests[position]? with
  | none => simp [outcome?, location?, hread]
  | some request =>
    obtain ⟨path, stage⟩ := request
    obtain ⟨stage', hread', hstage⟩ := h.stage hread
    simp only [outcome?, location?, hread, hread', Option.bind_some]
    rcases hstage with rfl | ⟨-, hmoves⟩
    · exact ⟨fun _ => id, fun _ => id⟩
    · refine ⟨fun outcome houtcome => ?_, fun location hlocation => hmoves.location hlocation⟩
      rw [hmoves.outcome houtcome, houtcome]

private theorem Moves.exists_loads (h : system.Moves event after) {outcome : Except LoadError LoadedUnit}
    (hopen : system.outcome? position = none) (houtcome : after.outcome? position = some outcome) :
    event.isClose = false ∧
      ((after.session.units = system.session.units ∧ ∃ error, outcome = .error error) ∨
        ∃ call call', Loads system.session.units call after.session.units call' ∧
          (∀ found, call.stage ≠ .finished found) ∧ call'.stage = .finished outcome ∧
          after.location? position = some call'.location) := by
  have hlt : position < system.requests.length := by
    by_contra hge
    rw [outcome?, List.getElem?_eq_none (by rw [h.length]; omega)] at houtcome
    simp at houtcome
  obtain ⟨⟨path, stage⟩, hread⟩ : ∃ request, system.requests[position]? = some request :=
    ⟨_, List.getElem?_eq_getElem hlt⟩
  obtain ⟨stage', hread', hstage⟩ := h.stage hread
  simp only [outcome?, hread, Option.bind_some] at hopen
  simp only [outcome?, hread', Option.bind_some] at houtcome
  rcases hstage with rfl | ⟨hevent, hmoves⟩
  · rw [hopen] at houtcome
    simp at houtcome
  · refine ⟨hevent, (hmoves.exists_loads hopen houtcome).imp id ?_⟩
    rintro ⟨call, call', hloads, hcall, hcall', hlocation⟩
    exact ⟨call, call', hloads, hcall, hcall', by rw [location?, hread', Option.bind_some, hlocation]⟩

/-- After the step by which a call comes to its unit, the table has this unit at the location of the call. -/
theorem Moves.find? (h : system.Moves event after) {unit : LoadedUnit} (hopen : system.outcome? position = none)
    (hunit : after.outcome? position = some (.ok unit)) :
    event.isClose = false ∧ ∃ location, after.location? position = some location ∧
      after.session.units.find? location = some unit := by
  obtain ⟨hevent, ⟨-, error, hrefused⟩ | ⟨call, call', hloads, hcall, hcall', hlocation⟩⟩ := h.exists_loads hopen hunit
  · simp at hrefused
  · exact ⟨hevent, _, hlocation, hloads.find? hcall hcall'⟩

/-- A call that fails leaves the table as it is. -/
theorem Moves.table_of_error (h : system.Moves event after) {error : LoadError} (hopen : system.outcome? position = none)
    (herror : after.outcome? position = some (.error error)) : after.session.units = system.session.units := by
  obtain ⟨-, ⟨hunits, -⟩ | ⟨call, call', hloads, -, hcall', -⟩⟩ := h.exists_loads hopen herror
  · exact hunits
  · exact hloads.table_of_error hcall'

end LoadSystem

end SourceOrigin
