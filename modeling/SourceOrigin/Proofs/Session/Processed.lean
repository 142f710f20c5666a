import SourceOrigin.Proofs.Session.Processing

/-! What processing files one after the other comes to with nobody to stop it: both tables of the session only grow, every
file that can be read is loaded, and the verdict on its unit is stored. -/
namespace SourceOrigin

namespace UnitTable
variable {files : FileTree} {encodingName : Text} {location : Location}

theorem entries_insertIfAbsent (table : UnitTable) (location : Location) (loaded : LoadedUnit) :
    table.entries <+: (table.insertIfAbsent location loaded).1.entries ∧
      (location, (table.insertIfAbsent location loaded).2) ∈ (table.insertIfAbsent location loaded).1.entries := by
  unfold insertIfAbsent
  cases hfound : table.find? location with
  | some present => exact ⟨List.prefix_rfl, mem_of_find? hfound⟩
  | none => exact ⟨List.prefix_append _ _, List.mem_append_right _ (List.mem_singleton.mpr rfl)⟩

private theorem entries_load (table : UnitTable) (files : FileTree) (encodingName : Text) (location : Location) :
    table.entries <+: (table.load files encodingName location).1.entries := by
  unfold load
  split
  · exact List.prefix_rfl
  split
  · exact List.prefix_rfl
  · next unit _ => exact ((table.adopt unit).1.entries_insertIfAbsent location (table.adopt unit).2).1

private theorem mem_entries_load {table : UnitTable} {loaded : LoadedUnit}
    (h : (table.load files encodingName location).2 = .ok loaded) :
    (location, loaded) ∈ (table.load files encodingName location).1.entries := by
  unfold load at h ⊢
  cases hfound : table.find? location with
  | some present =>
    simp only [hfound] at h ⊢
    obtain rfl := Except.ok.inj h
    exact mem_of_find? hfound
  | none =>
    cases hread : files.readUnit (Path.ofLocation location) encodingName with
    | error error => simp [hfound, hread] at h
    | ok unit =>
      simp only [hfound, hread] at h ⊢
      obtain rfl := Except.ok.inj h
      exact ((table.adopt unit).1.entries_insertIfAbsent location (table.adopt unit).2).2

end UnitTable

namespace Session
variable {files : FileTree} {units : UnitId → SyntaxTree} {session before last : Session} {path : Path}

theorem StoppedAt.of_under {token : CancellationToken} (h : (before.under token).StoppedAt files path last) :
    before.StoppedAt files path last := by
  cases h with
  | unloaded hlast => exact .unloaded hlast
  | unclassified hloaded hunstored hlast =>
    rw [load_under] at hloaded hlast
    exact .unclassified hloaded hunstored hlast

/-- Under a token that never trips the classification of a path is not cancelled, and leaves such a token. -/
theorem classifyPath_of_neverTrips (h : session.token.NeverTrips) (files : FileTree) (path : Path) :
    (session.classifyPath files path).session.token.NeverTrips ∧
      (session.classifyPath files path).outcome ≠ .error (.classify .cancelled) := by
  have htoken := neverTrips_load h files path
  cases hload : (session.load files path).outcome with
  | error error =>
    obtain ⟨houtcome, hlast⟩ := classifyPath_of_error hload
    rw [houtcome, hlast]
    refine ⟨htoken, fun hcancelled => ?_⟩
    exact ne_classify_of_load hload .cancelled (Except.error.inj hcancelled)
  | ok unit =>
    obtain ⟨houtcome, hlast⟩ := classifyPath_of_unit hload
    rw [houtcome, hlast]
    exact classify_of_neverTrips htoken unit.document

theorem processFile_of_neverTrips (h : session.token.NeverTrips) (files : FileTree) (path : Path) :
    session.processFile files path = (session.under session.token.poll).classifyPath files path :=
  if_neg (Bool.eq_false_iff.mp h.poll.cancelled)

/-- The session after files have been processed one after the other with nobody to stop it. -/
def processed (session : Session) (files : FileTree) (paths : List Path) : Session :=
  ((session.under {}).processFiles files paths).2.1

private theorem processFiles_concat (session : Session) (files : FileTree) (paths : List Path) (path : Path) :
    (session.processFiles files (paths ++ [path])).2.1 =
      ((session.processFiles files paths).2.1.processFile files path).session := by
  induction paths generalizing session with
  | nil => rfl
  | cons head rest ih => exact ih _

theorem neverTrips_processFiles (h : session.token.NeverTrips) (files : FileTree) (paths : List Path) :
    (session.processFiles files paths).2.1.token.NeverTrips := by
  induction paths generalizing session with
  | nil => exact h
  | cons path rest ih =>
    refine ih ?_
    rw [processFile_of_neverTrips h]
    exact (classifyPath_of_neverTrips h.poll files path).1

/-! ### Tables that grow -/

/-- Nothing is taken from the tables, and nothing in them is changed. -/
structure Extends (session last : Session) : Prop where
  units : session.units.entries <+: last.units.entries
  verdicts : session.cache.entries <+: last.cache.entries

theorem Extends.refl (session : Session) : session.Extends session := ⟨List.prefix_rfl, List.prefix_rfl⟩

theorem Extends.trans {next : Session} (h : session.Extends next) (h' : next.Extends last) : session.Extends last :=
  ⟨h.units.trans h'.units, h.verdicts.trans h'.verdicts⟩

private theorem extends_load (session : Session) (files : FileTree) (path : Path) :
    session.Extends (session.load files path).session := by
  unfold load
  split
  · exact .refl session
  · exact ⟨session.units.entries_load files _ _, List.prefix_rfl⟩

private theorem extends_classify (h : session.token.NeverTrips) (document : Document UnitId) :
    session.Extends (session.classify (some document)).session := by
  cases hfound : session.cache.get? document.name with
  | some verdict =>
    rw [classify_of_hit hfound]
    exact ⟨List.prefix_rfl, List.prefix_rfl⟩
  | none =>
    obtain ⟨-, token, -, hsettled⟩ := classify_of_miss h hfound
    rw [hsettled]
    cases outcomeBy session.config document.tree Heuristic.all with
    | error error => exact ⟨List.prefix_rfl, List.prefix_rfl⟩
    | ok verdict =>
      refine ⟨List.prefix_rfl, ?_⟩
      change session.missed.cache.entries <+: (session.missed.cache.tryAdd document.name verdict).1.entries
      rcases session.missed.cache.entries_tryAdd document.name verdict with hentries | ⟨-, hentries⟩
      · exact hentries ▸ List.prefix_rfl
      · rw [hentries]
        exact List.prefix_append _ _

private theorem extends_classifyPath (h : session.token.NeverTrips) (files : FileTree) (path : Path) :
    session.Extends (session.classifyPath files path).session := by
  have hload := session.extends_load files path
  cases houtcome : (session.load files path).outcome with
  | error error =>
    rw [(classifyPath_of_error houtcome).2]
    exact hload
  | ok unit =>
    rw [(classifyPath_of_unit houtcome).2]
    exact hload.trans (extends_classify (neverTrips_load h files path) unit.document)

/-- Where a poll stops the work on a file, the tables have only grown. -/
theorem StoppedAt.extends (h : before.StoppedAt files path last) :
    before.Extends last ∧ last.cache.entries = before.cache.entries := by
  cases h with
  | unloaded hlast =>
    rw [hlast]
    exact ⟨⟨List.prefix_rfl, List.prefix_rfl⟩, rfl⟩
  | unclassified _ _ hlast =>
    have hcache : (before.load files path).session.missed.cache.entries = before.cache.entries := by
      rw [session_load]
      rfl
    rw [hlast]
    refine ⟨⟨(before.extends_load files path).units, ?_⟩, hcache⟩
    exact (before.extends_load files path).verdicts

/-! ### Files that are settled -/

def Settles (session : Session) (files : FileTree) (path : Path) : Prop :=
  ∀ unit, files.unitAt session.config path = .ok unit → ∃ id verdict,
    (files.resolve path, ⟨id, unit⟩) ∈ session.units.entries ∧ (id, verdict) ∈ session.cache.entries ∧
      HasVerdict session.config unit.tree verdict

theorem Settles.extends (h : session.Settles files path) (hextends : session.Extends last)
    (hconfig : last.config = session.config) : last.Settles files path := by
  intro unit hunit
  rw [hconfig] at hunit ⊢
  obtain ⟨id, verdict, hloaded, hstored, hverdict⟩ := h unit hunit
  exact ⟨id, verdict, hextends.units.subset hloaded, hextends.verdicts.subset hstored, hverdict⟩

private theorem Agrees.exists_mem_classify (h : session.Agrees files units) (htoken : session.token.NeverTrips)
    {document : Document UnitId} (hknown : session.Knows units document) :
    ∃ verdict, (document.name, verdict) ∈ (session.classify (some document)).session.cache.entries ∧
      HasVerdict session.config document.tree verdict := by
  cases hfound : session.cache.get? document.name with
  | some verdict =>
    have hmem := Cache.mem_of_get? hfound
    have hverdict := h.cached.verdicts document.name verdict hmem
    rw [classify_of_hit hfound]
    refine ⟨verdict, hmem, ?_⟩
    rw [hknown.2]
    exact hverdict
  | none =>
    obtain ⟨verdict, hverdict⟩ := exists_outcomeBy h.valid document.tree Heuristic.all
    obtain ⟨-, token, -, hsettled⟩ := classify_of_miss htoken hfound
    refine ⟨verdict, ?_, (hasVerdict_iff _ _ _).mpr hverdict⟩
    have hunstored : session.missed.cache.contains document.name = false := by
      change (session.cache.get? document.name).isSome = false
      rw [hfound]
      rfl
    rw [hsettled, hverdict]
    simp [settled, under, Cache.tryAdd, hunstored]

private theorem mem_load {loaded : LoadedUnit} (h : (session.load files path).outcome = .ok loaded) :
    (files.resolve path, loaded) ∈ (session.load files path).session.units.entries := by
  unfold load at h ⊢
  split at h
  · simp at h
  refine UnitTable.mem_entries_load ?_
  dsimp only at h
  cases hread : (session.units.load files session.config.sourceEncoding (files.resolve path)).2 with
  | ok unit =>
    rw [hread] at h
    exact congrArg Except.ok (Except.ok.inj h)
  | error error => simp [hread] at h

private theorem Agrees.settles_classifyPath (h : session.Agrees files units) (htoken : session.token.NeverTrips)
    (path : Path) :
    (session.classifyPath files path).session.Settles files path := by
  obtain ⟨_, hafter, -⟩ := h.classifyPath path
  obtain ⟨units', hgrows, hagrees, -, hsame, hloaded⟩ := load_agrees h path
  have hfree : (session.load files path).session.token.NeverTrips := hsame ▸ htoken
  intro unit hunit
  rw [hafter.config] at hunit ⊢
  cases houtcome : (session.load files path).outcome with
  | error error =>
    rw [houtcome] at hloaded
    obtain ⟨fault, hfault, -⟩ := hloaded
    rw [hunit] at hfault
    simp at hfault
  | ok loaded =>
    obtain ⟨id, found⟩ := loaded
    rw [houtcome] at hloaded
    obtain ⟨hknown, hread⟩ := hloaded
    obtain rfl : unit = found := Except.ok.inj (hunit.symm.trans hread)
    obtain ⟨verdict, hstored, hverdict⟩ := hagrees.exists_mem_classify hfree hknown
    rw [(classifyPath_of_unit houtcome).2]
    rw [hgrows.config] at hverdict
    exact ⟨id, verdict, (extends_classify hfree _).units.subset (mem_load houtcome), hstored, hverdict⟩

/-- Files that are processed one after the other are settled, and what was in the tables before stays as it was. -/
theorem Agrees.settles_processFiles (h : session.Agrees files units) (htoken : session.token.NeverTrips)
    (paths : List Path) :
    session.Extends (session.processFiles files paths).2.1 ∧
      (session.processFiles files paths).2.1.config = session.config ∧
      ∀ path ∈ paths, (session.processFiles files paths).2.1.Settles files path := by
  induction paths generalizing session units with
  | nil => exact ⟨.refl session, rfl, by simp⟩
  | cons path rest ih =>
    have hpolled : (session.under session.token.poll).Agrees files units := h.withToken session.token.poll
    obtain ⟨units', hgrows, hagrees⟩ := hpolled.classifyPath path
    have hready : (session.under session.token.poll).token.NeverTrips := htoken.poll
    have hfirst := extends_classifyPath hready files path
    have hfree := (classifyPath_of_neverTrips hready files path).1
    have hsettled := hpolled.settles_classifyPath hready path
    obtain ⟨hrest, hconfig, hothers⟩ := ih hagrees hfree
    rw [processFiles, processFile_of_neverTrips htoken]
    have hwhole := hfirst.trans hrest
    refine ⟨⟨hwhole.units, hwhole.verdicts⟩, hconfig.trans hgrows.config, ?_⟩
    intro other hmem
    rcases List.mem_cons.mp hmem with rfl | hmem
    · exact hsettled.extends hrest hconfig
    · exact hothers other hmem

/-! ### The files before a position -/

theorem neverTrips_processed (session : Session) (files : FileTree) (paths : List Path) :
    (session.processed files paths).token.NeverTrips :=
  neverTrips_processFiles ⟨rfl, rfl⟩ files paths

theorem processed_take_succ {paths : List Path} {position : Nat} (session : Session) (files : FileTree)
    (h : paths[position]? = some path) :
    session.processed files (paths.take (position + 1)) =
      ((session.processed files (paths.take position)).processFile files path).session := by
  rw [List.take_add_one, h]
  exact processFiles_concat _ files _ path

theorem Agrees.settles_processed (h : session.Agrees files units) (paths : List Path) :
    session.Extends (session.processed files paths) ∧ (session.processed files paths).config = session.config ∧
      ∀ path ∈ paths, (session.processed files paths).Settles files path := by
  obtain ⟨hextends, hconfig, hsettled⟩ := settles_processFiles (h.withToken {}) ⟨rfl, rfl⟩ paths
  exact ⟨⟨hextends.units, hextends.verdicts⟩, hconfig, hsettled⟩

end Session

end SourceOrigin
