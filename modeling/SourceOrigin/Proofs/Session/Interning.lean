import Mathlib.Data.List.Induction
import SourceOrigin.Proofs.Session.Loading

/-! Units are interned: from one closing of the session to the next, all calls for one location have one unit, and calls
for different locations never share one. As many units are loaded as there are locations at which units were entered. -/
namespace SourceOrigin

namespace LoadSystem
variable {system : LoadSystem} {position : Nat}

/-! ### Runs -/

theorem reached_append (config : Config) (paths : List Path) (events more : List LoadEvent) :
    reached config paths (events ++ more) = more.foldl next (reached config paths events) := List.foldl_append

private theorem foldl_keeps (P : LoadSystem → Prop) (allowed : LoadEvent → Prop)
    (hstep : ∀ {system event after}, system.Moves event after → allowed event → P system → P after)
    {events : List LoadEvent} (hallowed : ∀ event ∈ events, allowed event) (h : P system) :
    P (events.foldl next system) := by
  induction events generalizing system with
  | nil => exact h
  | cons event rest ih =>
    refine ih (fun later hmem => hallowed later (List.mem_cons_of_mem event hmem)) ?_
    exact hstep (next_moves system event) (hallowed event List.mem_cons_self) h

/-- Calls for one location that come to their units without a close between them come to one unit. -/
theorem eq_of_decides {config : Config} {paths : List Path} {before middle : List LoadEvent} {first last : LoadEvent}
    {one other : Nat} {unit unit' : LoadedUnit} (hone : Decides config paths before first one unit)
    (hother : Decides config paths (before ++ first :: middle) last other unit')
    (hmiddle : ∀ event ∈ middle, event.isClose = false)
    (hlocation : (reached config paths (before ++ first :: middle ++ [last])).location? one =
      (reached config paths (before ++ first :: middle ++ [last])).location? other) : unit = unit' := by
  obtain ⟨-, location, hplace, hfound⟩ := (reached_concat config paths before first).find? hone.1 hone.2
  obtain ⟨hlast, location', hplace', hfound'⟩ :=
    (reached_concat config paths (before ++ first :: middle) last).find? hother.1 hother.2
  have hsplit : before ++ first :: middle ++ [last] = before ++ [first] ++ (middle ++ [last]) := by simp
  rw [hplace', hsplit, reached_append] at hlocation
  rw [hsplit, reached_append] at hfound'
  have hstays : ((middle ++ [last]).foldl next (reached config paths (before ++ [first]))).location? one = some location :=
    foldl_keeps (fun system => system.location? one = some location) (fun _ => True)
      (fun hmoves _ => hmoves.keeps.2 location) (fun _ _ => trivial) hplace
  have hkept : ((middle ++ [last]).foldl next (reached config paths (before ++ [first]))).session.units.find? location =
      some unit := by
    refine foldl_keeps (fun system => system.session.units.find? location = some unit)
      (·.isClose = false) (fun hmoves hopen => UnitTable.find?_of_prefix (hmoves.entries hopen)) ?_ hfound
    intro event hmem
    rcases List.mem_append.mp hmem with hmem | hmem
    · exact hmiddle event hmem
    · rwa [List.mem_singleton.mp hmem]
  obtain rfl : location = location' := Option.some.inj (hstays.symm.trans hlocation)
  exact Option.some.inj (hkept.symm.trans hfound')

private theorem exists_decides {config : Config} {paths : List Path} {events : List LoadEvent} {unit : LoadedUnit}
    (h : (reached config paths events).outcome? position = some (.ok unit)) :
    ∃ before event after, events = before ++ event :: after ∧ Decides config paths before event position unit := by
  induction events using List.reverseRecOn with
  | nil =>
    rw [outcome?, reached, List.foldl_nil, List.getElem?_map] at h
    cases hpath : paths[position]? <;> simp [hpath, RequestStage.outcome?] at h
  | append_singleton events event ih =>
    cases hbefore : (reached config paths events).outcome? position with
    | none => exact ⟨events, event, [], rfl, hbefore, h⟩
    | some outcome =>
      have hstays := (reached_concat config paths events event).keeps.1 outcome hbefore
      obtain rfl : outcome = .ok unit := Option.some.inj (hstays.symm.trans h)
      obtain ⟨before, decisive, after, rfl, hdecides⟩ := ih hbefore
      exact ⟨before, decisive, after ++ [event], by simp, hdecides⟩

/-! ### One location for a unit -/

end LoadSystem

def UnitTable.Owns (place : UnitId → Location) (table : UnitTable) (held : Location × LoadedUnit) : Prop :=
  held.2.id < table.nextId ∧ place held.2.id = held.1

structure LoadSystem.Owns (place : UnitId → Location) (system : LoadSystem) : Prop where
  table : ∀ entry ∈ system.session.units.entries, system.session.units.Owns place entry
  calls : ∀ request ∈ system.requests, ∀ held ∈ request.stage.held?, system.session.units.Owns place held

/-- Numbers that are given out later change nothing about those given out before. -/
structure UnitTable.Later (place place' : UnitId → Location) (table after : UnitTable) : Prop where
  count : table.nextId ≤ after.nextId
  kept : ∀ id < table.nextId, place' id = place id

theorem UnitTable.Owns.later {place place' : UnitId → Location} {table after : UnitTable} {held : Location × LoadedUnit}
    (h : table.Owns place held) (hlater : table.Later place place' after) : after.Owns place' held :=
  ⟨Nat.lt_of_lt_of_le h.1 hlater.count, (hlater.kept _ h.1).trans h.2⟩

private theorem UnitTable.insertIfAbsent_cases (table : UnitTable) (location : Location) (fresh : LoadedUnit) :
    (table.insertIfAbsent location fresh).1.nextId = table.nextId ∧
      (table.insertIfAbsent location fresh).1.entries <+: table.entries ++ [(location, fresh)] ∧
      ((location, (table.insertIfAbsent location fresh).2) ∈ table.entries ∨
        (table.insertIfAbsent location fresh).2 = fresh) := by
  unfold insertIfAbsent
  cases hfound : table.find? location with
  | some present => exact ⟨rfl, List.prefix_append _ _, .inl (mem_of_find? hfound)⟩
  | none => exact ⟨rfl, List.prefix_rfl, .inr rfl⟩

section
variable {place : UnitId → Location} {table after : UnitTable}

/-- The step that reads a file gives a number out, for the location of the call; the others give none. -/
theorem Loads.owns {call call' : LoadCall} (h : Loads table call after call')
    (htable : ∀ entry ∈ table.entries, table.Owns place entry)
    (hcall : ∀ held ∈ (RequestStage.loading call).held?, table.Owns place held) :
    ∃ place', table.Later place place' after ∧ (∀ entry ∈ after.entries, after.Owns place' entry) ∧
      ∀ held ∈ (RequestStage.loading call').held?, after.Owns place' held := by
  have hsame : table.Later place place table := ⟨Nat.le_refl _, fun _ _ => rfl⟩
  cases h with
  | finds hfound =>
    refine ⟨place, hsame, htable, fun held hheld => ?_⟩
    obtain rfl := Option.some.inj hheld
    exact htable _ (UnitTable.mem_of_find? hfound)
  | misses location => exact ⟨place, hsame, htable, by simp [RequestStage.held?]⟩
  | fails location error => exact ⟨place, hsame, htable, by simp [RequestStage.held?]⟩
  | reads location unit =>
    have hlater : table.Later place (Function.update place table.nextId location) (table.adopt unit).1 :=
      ⟨Nat.le_succ _, fun id hid => Function.update_of_ne (Nat.ne_of_lt hid) _ _⟩
    refine ⟨_, hlater, fun entry hmem => (htable entry hmem).later hlater, fun held hheld => ?_⟩
    obtain rfl := Option.some.inj hheld
    exact ⟨Nat.lt_succ_self _, Function.update_self _ _ _⟩
  | enters location fresh =>
    obtain ⟨hcount, hentries, hfound⟩ := table.insertIfAbsent_cases location fresh
    have hlater : table.Later place place (table.insertIfAbsent location fresh).1 := ⟨Nat.le_of_eq hcount.symm, fun _ _ => rfl⟩
    have hfresh : table.Owns place (location, fresh) := hcall _ rfl
    refine ⟨place, hlater, fun entry hmem => ?_, fun held hheld => ?_⟩
    · rcases List.mem_append.mp (hentries.subset hmem) with hmem | hmem
      · exact (htable entry hmem).later hlater
      · rw [List.mem_singleton.mp hmem]
        exact hfresh.later hlater
    · obtain rfl := Option.some.inj hheld
      rcases hfound with hmem | heq
      · exact (htable _ hmem).later hlater
      · rw [heq]
        exact hfresh.later hlater
  | rests location outcome => exact ⟨place, hsame, htable, hcall⟩

private theorem RequestMoves.owns {stage stage' : RequestStage} (h : RequestMoves table stage after stage')
    (htable : ∀ entry ∈ table.entries, table.Owns place entry)
    (hstage : ∀ held ∈ stage.held?, table.Owns place held) :
    ∃ place', table.Later place place' after ∧ (∀ entry ∈ after.entries, after.Owns place' entry) ∧
      ∀ held ∈ stage'.held?, after.Owns place' held := by
  have hsame : table.Later place place table := ⟨Nat.le_refl _, fun _ _ => rfl⟩
  cases h with
  | refuses => exact ⟨place, hsame, htable, by simp [RequestStage.held?]⟩
  | begins hloads => exact hloads.owns htable (by simp [RequestStage.held?])
  | goesOn hloads => exact hloads.owns htable hstage
  | rests => exact ⟨place, hsame, htable, by simp [RequestStage.held?]⟩

end

namespace LoadSystem

private theorem Moves.owns {system after : LoadSystem} {event : LoadEvent} {place : UnitId → Location}
    (h : system.Moves event after) (howns : system.Owns place) : ∃ place', after.Owns place' := by
  cases h with
  | closes => exact ⟨place, fun entry hmem => absurd hmem List.not_mem_nil, howns.calls⟩
  | stays => exact ⟨place, howns⟩
  | steps files hread hmoves =>
    obtain ⟨place', hlater, htable, hstage⟩ :=
      hmoves.owns howns.table (howns.calls _ (List.mem_of_getElem? hread))
    refine ⟨place', htable, fun request hmem held hheld => ?_⟩
    rcases List.mem_or_eq_of_mem_set hmem with hmem | rfl
    · exact (howns.calls request hmem held hheld).later hlater
    · exact hstage held hheld

private theorem exists_owns (config : Config) (paths : List Path) (events : List LoadEvent) :
    ∃ place, (reached config paths events).Owns place := by
  induction events using List.reverseRecOn with
  | nil =>
    refine ⟨fun _ => [], fun entry hmem => absurd hmem List.not_mem_nil, fun request hmem held hheld => ?_⟩
    obtain ⟨path, -, rfl⟩ := List.mem_map.mp hmem
    simp [RequestStage.held?] at hheld
  | append_singleton events event ih =>
    obtain ⟨place, howns⟩ := ih
    exact (reached_concat config paths events event).owns howns

private theorem Owns.place_eq {system : LoadSystem} {place : UnitId → Location} (h : system.Owns place) {position : Nat}
    {unit : LoadedUnit} (hunit : system.outcome? position = some (.ok unit)) :
    system.location? position = some (place unit.id) := by
  obtain ⟨⟨path, stage⟩, hread, houtcome⟩ := Option.bind_eq_some_iff.mp hunit
  have hcall := h.calls _ (List.mem_of_getElem? hread)
  rw [location?, hread, Option.bind_some]
  dsimp only at houtcome hcall ⊢
  cases stage with
  | waiting => simp [RequestStage.outcome?] at houtcome
  | refused => simp [RequestStage.outcome?] at houtcome
  | loading call =>
    obtain ⟨location, stage⟩ := call
    cases stage with
    | finished outcome =>
      obtain rfl := Option.some.inj houtcome
      exact congrArg some (hcall _ rfl).2.symm
    | _ => simp [RequestStage.outcome?] at houtcome

/-! ### The locations in the table -/

end LoadSystem

def UnitTable.locations (table : UnitTable) : List Location := table.entries.map (·.1)

private theorem UnitTable.locations_insertIfAbsent (table : UnitTable) (location : Location) (fresh : LoadedUnit) :
    (∀ other, other ∈ (table.insertIfAbsent location fresh).1.locations ↔ other ∈ table.locations ∨ location = other) ∧
      (table.locations.Nodup → (table.insertIfAbsent location fresh).1.locations.Nodup) := by
  unfold insertIfAbsent
  cases hfound : table.find? location with
  | some present =>
    refine ⟨fun other => ⟨.inl, ?_⟩, id⟩
    rintro (hmem | rfl)
    · exact hmem
    · exact List.mem_map_of_mem (mem_of_find? hfound)
  | none =>
    have hentered : UnitTable.locations { table with entries := table.entries ++ [(location, fresh)] } =
        table.locations ++ [location] := List.map_append
    have hunused : location ∉ table.locations := by
      intro hmem
      obtain ⟨entry, hentry, rfl⟩ := List.mem_map.mp hmem
      have hother := List.lookup_eq_none_iff.mp hfound entry hentry
      simp at hother
    simp only [hentered, List.mem_append, List.mem_singleton]
    refine ⟨fun other => or_congr_right eq_comm, fun h => List.nodup_append.mpr ⟨h, by simp, ?_⟩⟩
    intro other hmem last hlast
    obtain rfl := List.mem_singleton.mp hlast
    exact ne_of_mem_of_not_mem hmem hunused

section
variable {table after : UnitTable} {call call' : LoadCall} {stage stage' : RequestStage}

/-- Only a call that enters its unit adds a location, and none twice. -/
theorem Loads.locations (h : Loads table call after call') :
    (∀ location, location ∈ after.locations ↔ location ∈ table.locations ∨
      ∃ fresh, call = ⟨location, .inserting fresh⟩) ∧ (table.locations.Nodup → after.locations.Nodup) := by
  cases h with
  | reads location unit => exact ⟨by simp [UnitTable.locations, UnitTable.adopt, UnitTable.reserve], id⟩
  | enters location fresh =>
    obtain ⟨hmem, hdistinct⟩ := table.locations_insertIfAbsent location fresh
    refine ⟨fun other => (hmem other).trans (or_congr_right ?_), hdistinct⟩
    simp
  | _ => exact ⟨by simp, id⟩

theorem RequestMoves.locations (h : RequestMoves table stage after stage') :
    (∀ location, location ∈ after.locations ↔ location ∈ table.locations ∨
      ∃ fresh, stage = .loading ⟨location, .inserting fresh⟩) ∧ (table.locations.Nodup → after.locations.Nodup) := by
  cases h with
  | begins hloads => simpa using hloads.locations
  | goesOn hloads => simpa using hloads.locations
  | _ => exact ⟨by simp, id⟩

end

namespace LoadSystem
variable {config : Config} {paths : List Path}

theorem Moves.locations {system after : LoadSystem} {event : LoadEvent} (h : system.Moves event after)
    (hopen : event.isClose = false) :
    (∀ location, location ∈ after.session.units.locations ↔ location ∈ system.session.units.locations ∨
      system.Enters event location) ∧
    (system.session.units.locations.Nodup → after.session.units.locations.Nodup) := by
  cases h with
  | closes => simp [LoadEvent.isClose] at hopen
  | @stays position files hnone =>
    refine ⟨fun location => ⟨.inl, ?_⟩, id⟩
    rintro (hmem | ⟨_, _, path, fresh, hevent, hread⟩)
    · exact hmem
    · obtain ⟨rfl, rfl⟩ := LoadEvent.turn.inj hevent
      rw [hnone] at hread
      simp at hread
  | @steps position path stage stage' units files hread hmoves =>
    obtain ⟨hmem, hdistinct⟩ := hmoves.locations
    refine ⟨fun location => (hmem location).trans (or_congr_right ⟨?_, ?_⟩), hdistinct⟩
    · rintro ⟨fresh, rfl⟩
      exact ⟨position, files, path, fresh, rfl, hread⟩
    · rintro ⟨_, _, _, fresh, hevent, hread'⟩
      obtain ⟨rfl, rfl⟩ := LoadEvent.turn.inj hevent
      obtain ⟨rfl, rfl⟩ := UnitRequest.mk.inj (Option.some.inj (hread.symm.trans hread'))
      exact ⟨fresh, rfl⟩

private theorem enteredSinceClose_concat (events : List LoadEvent) (event : LoadEvent) (location : Location) :
    EnteredSinceClose config paths (events ++ [event]) location ↔
      event.isClose = false ∧ EnteredSinceClose config paths events location ∨
        (reached config paths events).Enters event location := by
  constructor
  · rintro ⟨before, entering, after, hevents, henters, hafter⟩
    rcases List.eq_nil_or_concat after with rfl | ⟨after, last, rfl⟩
    · obtain ⟨rfl, hlast⟩ := List.append_inj' hevents rfl
      rw [← List.singleton_inj.mp hlast] at henters
      exact .inr henters
    · rw [List.concat_eq_append, ← List.cons_append, ← List.append_assoc] at hevents
      obtain ⟨rfl, hlast⟩ := List.append_inj' hevents rfl
      obtain rfl := List.singleton_inj.mp hlast
      refine .inl ⟨hafter event (by simp), before, entering, after, rfl, henters, fun later hmem => ?_⟩
      exact hafter later (by simp [hmem])
  · rintro (⟨hopen, before, entering, after, rfl, henters, hafter⟩ | henters)
    · refine ⟨before, entering, after ++ [event], by simp, henters, fun later hmem => ?_⟩
      rcases List.mem_append.mp hmem with hmem | hmem
      · exact hafter later hmem
      · rwa [List.mem_singleton.mp hmem]
    · exact ⟨events, event, [], rfl, henters, by simp⟩

/-- The table has the locations at which units were entered since the session was last closed, each once. -/
theorem locations_reached (config : Config) (paths : List Path) (events : List LoadEvent) :
    (reached config paths events).session.units.locations.Nodup ∧
      ∀ location, location ∈ (reached config paths events).session.units.locations ↔
        EnteredSinceClose config paths events location := by
  induction events using List.reverseRecOn with
  | nil =>
    refine ⟨List.nodup_nil, fun location => ⟨fun hmem => absurd hmem List.not_mem_nil, ?_⟩⟩
    rintro ⟨before, event, after, hevents, -⟩
    simp at hevents
  | append_singleton events event ih =>
    obtain ⟨hdistinct, hmem⟩ := ih
    have hmoves := reached_concat config paths events event
    simp only [enteredSinceClose_concat]
    cases hclose : event.isClose with
    | true =>
      cases event with
      | turn position files => simp [LoadEvent.isClose] at hclose
      | close =>
        have hempty : (reached config paths (events ++ [.close])).session.units.locations = [] := by
          rw [reached_append]
          rfl
        rw [hempty]
        refine ⟨List.nodup_nil, fun location => ⟨fun hmem => absurd hmem List.not_mem_nil, ?_⟩⟩
        rintro (⟨hopen, -⟩ | ⟨position, files, path, fresh, hevent, -⟩)
        · simp at hopen
        · simp at hevent
    | false =>
      obtain ⟨hadded, hkept⟩ := hmoves.locations hclose
      refine ⟨hkept hdistinct, fun location => (hadded location).trans ?_⟩
      rw [hmem location]
      simp

/-- What is promised of calls for units, in every run of them among closings of the session. -/
structure Interns (config : Config) (paths : List Path) : Prop where
  /-- Two calls at one location come to one unit, if the session is not closed between their deciding steps. -/
  shared : ∀ before first middle last one other unit unit', Decides config paths before first one unit →
    Decides config paths (before ++ first :: middle) last other unit' → (∀ event ∈ middle, event.isClose = false) →
    (reached config paths (before ++ first :: middle ++ [last])).location? one =
      (reached config paths (before ++ first :: middle ++ [last])).location? other → unit = unit'
  /-- Every call that has come to a unit had a deciding step. -/
  decided : ∀ events position unit, (reached config paths events).outcome? position = some (.ok unit) →
    ∃ before event after, events = before ++ event :: after ∧ Decides config paths before event position unit
  /-- Calls at different locations never come to one unit. -/
  apart : ∀ events one other unit unit', (reached config paths events).outcome? one = some (.ok unit) →
    (reached config paths events).outcome? other = some (.ok unit') →
    (reached config paths events).location? one ≠ (reached config paths events).location? other → unit.id ≠ unit'.id
  /-- A call that fails leaves the table as it is. -/
  failed : ∀ events event position error, (reached config paths events).outcome? position = none →
    (reached config paths (events ++ [event])).outcome? position = some (.error error) →
    (reached config paths (events ++ [event])).session.units = (reached config paths events).session.units
  /-- As many units are loaded as there are locations at which units were entered since the session was closed. -/
  counted : ∀ events, ∃ locations : List Location, locations.Nodup ∧
    (∀ location, location ∈ locations ↔ EnteredSinceClose config paths events location) ∧
    (reached config paths events).session.stats.unitsLoaded = locations.length

/-- Units are interned, whatever the paths of the calls and whatever the order of their steps and of closings, and even if
the files change all the time. -/
theorem interns (config : Config) (paths : List Path) : Interns config paths where
  shared before first middle last one other unit unit' hone hother hmiddle hlocation :=
    eq_of_decides hone hother hmiddle hlocation
  decided events position unit hunit := exists_decides hunit
  apart events one other unit unit' hone hother hlocation := by
    obtain ⟨place, howns⟩ := exists_owns config paths events
    intro hsame
    rw [howns.place_eq hone, howns.place_eq hother, hsame] at hlocation
    exact hlocation rfl
  failed events event position error hopen herror :=
    (reached_concat config paths events event).table_of_error hopen herror
  counted events := by
    obtain ⟨hdistinct, hmem⟩ := locations_reached config paths events
    exact ⟨_, hdistinct, hmem, by simp [Session.stats, UnitTable.size, UnitTable.locations]⟩

end LoadSystem

end SourceOrigin
