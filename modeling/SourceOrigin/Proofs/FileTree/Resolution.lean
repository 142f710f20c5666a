import SourceOrigin.Proofs.FileTree.Following

/-! Where the system finds an entry, there a path leads that is followed link by link. A look-up that comes to an end follows
a certain number of links (`Leads`), and so no link comes up again before its target has been followed: to follow that again
would take more links than there are. -/
namespace SourceOrigin

namespace FileTree

/-- The names lead from one location to another, and so many links are followed on the way. -/
inductive Leads (files : FileTree) : Location → List Text → Location → Nat → Prop where
  | nil (location : Location) : Leads files location [] location 0
  | entry {location next goal : Location} {name : Text} {rest : List Text} {links : Nat} :
      files.nameStep location name = .ok (.entry next) → Leads files next rest goal links →
      Leads files location (name :: rest) goal links
  | link {location between goal : Location} {name target : Text} {rest : List Text} {inner links : Nat} :
      files.nameStep location name = .ok (.link target) →
      Leads files (SourceOrigin.startOf location target) (Text.splitOn '/' target) between inner →
      Leads files between rest goal links → Leads files location (name :: rest) goal (inner + links + 1)

variable {files : FileTree} {location goal : Location} {names more : List Text} {links : Nat}

namespace Leads

theorem split (h : files.Leads location (names ++ more) goal links) : ∃ between first second,
    files.Leads location names between first ∧ files.Leads between more goal second ∧ links = first + second := by
  induction names generalizing location links with
  | nil => exact ⟨location, 0, links, .nil location, h, (Nat.zero_add links).symm⟩
  | cons name names ih =>
    cases h with
    | entry hstep hrest =>
      obtain ⟨between, first, second, hfirst, hsecond, rfl⟩ := ih hrest
      exact ⟨between, first, second, .entry hstep hfirst, hsecond, rfl⟩
    | link hstep htarget hrest =>
      obtain ⟨between, first, second, hfirst, hsecond, rfl⟩ := ih hrest
      exact ⟨between, _, second, .link hstep htarget hfirst, hsecond, by omega⟩

/-- Names lead to one location only, over the same links. -/
theorem unique {other : Location} {others : Nat} (h : files.Leads location names goal links)
    (hother : files.Leads location names other others) : goal = other ∧ links = others := by
  induction h generalizing other others with
  | nil => cases hother with
    | nil => exact ⟨rfl, rfl⟩
  | entry hstep _ ih =>
    cases hother with
    | entry hstep' hrest =>
      obtain ⟨rfl⟩ : _ = _ := by simpa [hstep] using hstep'
      exact ih hrest
    | link hstep' => simp [hstep] at hstep'
  | link hstep _ _ ihtarget ih =>
    cases hother with
    | entry hstep' => simp [hstep] at hstep'
    | link hstep' htarget hrest =>
      obtain ⟨rfl⟩ : _ = _ := by simpa [hstep] using hstep'
      obtain ⟨rfl, rfl⟩ := ihtarget htarget
      obtain ⟨rfl, rfl⟩ := ih hrest
      exact ⟨rfl, rfl⟩

/-- Names that lead nowhere else can be left out. -/
theorem filter (h : files.Leads location names goal links) :
    files.Leads location (names.filter (!Path.isIdle ·)) goal links := by
  induction h with
  | nil location => exact .nil location
  | @entry location next goal name rest links hstep hrest ih =>
    cases hidle : Path.isIdle name with
    | true =>
      obtain ⟨rfl⟩ : next = location := by simpa using nameStep_of_isIdle hidle hstep
      rwa [List.filter_cons_of_neg (by simp [hidle])]
    | false =>
      rw [List.filter_cons_of_pos (by simp [hidle])]
      exact .entry hstep ih
  | @link location between goal name target rest inner links hstep htarget _ _ ih =>
    have hidle : Path.isIdle name = false := by
      by_contra htrue
      have hentry := nameStep_of_isIdle (Bool.eq_true_of_not_eq_false htrue) hstep
      simp at hentry
    rw [List.filter_cons_of_pos (by simp [hidle])]
    exact .link hstep htarget ih

end Leads

private theorem exists_leads_of_follow {limit : Nat} (h : files.follow limit location names = .ok goal) :
    ∃ links, files.Leads location names goal links := by
  induction limit, location, names using (follow_induction files) with
  | nil limit location =>
    rw [follow_nil] at h
    obtain rfl := Except.ok.inj h
    exact ⟨0, .nil location⟩
  | error hstep =>
    rw [follow_error hstep] at h
    simp at h
  | entry hstep ih =>
    rw [follow_entry hstep] at h
    obtain ⟨links, hleads⟩ := ih h
    exact ⟨links, .entry hstep hleads⟩
  | stop hstep =>
    rw [follow_link hstep, followLink] at h
    simp at h
  | link hstep ih =>
    rw [follow_link hstep, followLink] at h
    obtain ⟨links, hleads⟩ := ih h
    obtain ⟨between, first, second, htarget, hrest, -⟩ := hleads.split
    exact ⟨_, .link hstep htarget hrest⟩

/-! ### The links of a tree -/

private theorem mem_linksIn_of_lookup {entries : List (Text × FileNode)} {name : Text} {node : FileNode} {below : Location}
    (hentry : entries.lookup name = some node) (h : below ∈ node.links) : name :: below ∈ linksIn entries := by
  induction entries with
  | nil => simp at hentry
  | cons entry rest ih =>
    obtain ⟨other, found⟩ := entry
    rw [linksIn, List.mem_append]
    rw [List.lookup_cons] at hentry
    split at hentry
    · next heq =>
      obtain rfl := Option.some.inj hentry
      rw [eq_of_beq heq]
      exact .inl (List.mem_map_of_mem h)
    · exact .inr (ih hentry)

private theorem mem_links_of_at? {node : FileNode} {target : Text} (h : node.at? location = some (.link target)) :
    location ∈ node.links := by
  induction location generalizing node with
  | nil =>
    obtain rfl : node = .link target := Option.some.inj h
    exact List.mem_singleton_self _
  | cons name rest ih =>
    cases node with
    | directory entries =>
      obtain ⟨child, hchild, hrest⟩ := Option.bind_eq_some_iff.mp h
      exact mem_linksIn_of_lookup hchild (ih hrest)
    | _ => simp [FileNode.at?] at h

/-- The place is spelled from the root, or from the working directory or one above it. -/
def IsSpelled (files : FileTree) (place : Place) : Prop := ∀ steps ∈ place.above, steps ≤ files.workingDirectory.length

private theorem mem_linkPlaces {place : Place} (hspelled : files.IsSpelled place) (h : place.location ∈ files.root.links) :
    place ∈ files.linkPlaces := by
  obtain ⟨above, location⟩ := place
  refine List.mem_flatMap.mpr ⟨above, ?_, List.mem_map_of_mem h⟩
  cases above with
  | none => exact List.mem_cons_self
  | some steps =>
    have hsteps := hspelled steps rfl
    exact List.mem_cons_of_mem _ (List.mem_map_of_mem (List.mem_range.mpr (by omega)))

private theorem isSpelled_parent {place : Place} (h : files.IsSpelled place) : files.IsSpelled (files.parent place) := by
  obtain ⟨above, location⟩ := place
  cases above with
  | none => simp [IsSpelled, parent]
  | some steps =>
    have hsteps := h steps rfl
    intro steps' hsteps'
    simp only [parent, Option.map_some, Option.mem_some_iff] at hsteps'
    split at hsteps' <;> omega

/-! ### Two ways to follow names -/

private theorem nameStep_cases {name : Text} {step : NameStep} (h : files.nameStep location name = .ok step) :
    Path.isIdle name = true ∧ step = .entry location ∨
    name = ['.', '.'] ∧ step = .entry location.dropLast ∨
    Path.isIdle name = false ∧ name ≠ ['.', '.'] ∧
      ((∃ target, files.root.at? (location ++ [name]) = some (.link target) ∧ step = .link target) ∨
        (∀ target, files.root.at? (location ++ [name]) ≠ some (.link target)) ∧ step = .entry (location ++ [name])) := by
  unfold nameStep at h
  split at h
  · next entries hentries =>
    have hbelow : files.root.at? (location ++ [name]) = entries.lookup name := by
      rw [FileNode.at?_append, hentries]
      cases hentry : entries.lookup name <;> simp [FileNode.at?, hentry]
    split at h
    · next hidle => exact .inl ⟨hidle, (Except.ok.inj h).symm⟩
    split at h
    · next hparent => exact .inr (.inl ⟨hparent, (Except.ok.inj h).symm⟩)
    split at h
    · simp at h
    next hidle hparent _ =>
    refine .inr (.inr ⟨Bool.eq_false_of_not_eq_true hidle, hparent, ?_⟩)
    rw [hbelow]
    split at h
    · simp at h
    · next target hentry => exact .inl ⟨target, hentry, (Except.ok.inj h).symm⟩
    · next node hnot hentry =>
      refine .inr ⟨fun target hlink => ?_, (Except.ok.inj h).symm⟩
      rw [hentry] at hlink
      exact hnot target (Option.some.inj hlink)
  · simp at h

private theorem at?_of_nameStep_link {name target : Text} (h : files.nameStep location name = .ok (.link target)) :
    Path.isIdle name = false ∧ name ≠ ['.', '.'] ∧ files.root.at? (location ++ [name]) = some (.link target) := by
  simpa using nameStep_cases h

def LinkLeads (files : FileTree) (link : Location) (inner : Nat) : Prop :=
  ∃ directory name target goal, link = directory ++ [name] ∧ files.root.at? link = some (.link target) ∧
    files.Leads (SourceOrigin.startOf directory target) (Text.splitOn '/' target) goal inner

theorem LinkLeads.unique {link : Location} {inner other : Nat} (h : files.LinkLeads link inner)
    (hother : files.LinkLeads link other) : inner = other := by
  obtain ⟨directory, name, target, goal, rfl, hlink, hleads⟩ := h
  obtain ⟨directory', name', target', goal', hparts, hlink', hleads'⟩ := hother
  obtain ⟨rfl, -⟩ := List.append_inj' hparts rfl
  obtain ⟨rfl⟩ : _ = _ := by simpa [hlink] using hlink'
  exact (hleads.unique hleads').2

def lenientLink (files : FileTree) (unseen : List Place) (directory : Place) (name target : Text) : Place × Bool :=
  if directory.child name ∈ unseen then
    files.followLeniently (allBut (directory.child name) unseen) (directory.startOf target) (Text.splitOn '/' target)
  else (directory.child name, false)

private theorem followLeniently_eq (files : FileTree) (unseen : List Place) :
    files.followLeniently unseen = files.followNamesLeniently (files.lenientLink unseen) := by
  rw [followLeniently]
  rfl

private theorem Place.location_startOf (place : Place) (target : Text) :
    (place.startOf target).location = SourceOrigin.startOf place.location target := by
  unfold Place.startOf SourceOrigin.startOf
  split <;> rfl

private theorem isSpelled_startOf {place : Place} (h : files.IsSpelled place) (target : Text) :
    files.IsSpelled (place.startOf target) := by
  unfold Place.startOf
  split
  · simp [IsSpelled]
  · exact h

/-- A name that leads to an entry does so by name too, or up, or nowhere else. -/
private theorem followLeniently_entry {place : Place} {name : Text} {next : Location}
    (hstep : files.nameStep place.location name = .ok (.entry next)) (hspelled : files.IsSpelled place) (unseen : List Place)
    (rest : List Text) : ∃ place', place'.location = next ∧ files.IsSpelled place' ∧
      files.followLeniently unseen place (name :: rest) = files.followLeniently unseen place' rest := by
  rw [followLeniently_eq]
  rcases nameStep_cases hstep with ⟨hidle, hnext⟩ | ⟨rfl, hnext⟩ | ⟨hidle, hparent, ⟨_, -, hnext⟩ | ⟨hentry, hnext⟩⟩
  · obtain rfl := NameStep.entry.inj hnext
    exact ⟨place, rfl, hspelled, followNamesLeniently_idle hidle⟩
  · obtain rfl := NameStep.entry.inj hnext
    exact ⟨files.parent place, rfl, isSpelled_parent hspelled, followNamesLeniently_parent⟩
  · simp at hnext
  · obtain rfl := NameStep.entry.inj hnext
    exact ⟨place.child name, rfl, hspelled, followNamesLeniently_entry hidle hparent hentry⟩

/-- A link that has not been seen is followed, and then the names behind it. -/
private theorem followLeniently_link {place reached : Place} {name target : Text} {unseen : List Place}
    (hstep : files.nameStep place.location name = .ok (.link target)) (hmem : place.child name ∈ unseen)
    (hreached : files.followLeniently (allBut (place.child name) unseen) (place.startOf target) (Text.splitOn '/' target) =
      (reached, true)) (rest : List Text) :
    files.followLeniently unseen place (name :: rest) = files.followLeniently unseen reached rest := by
  obtain ⟨hidle, hparent, hlink⟩ := at?_of_nameStep_link hstep
  have hfollowed : files.lenientLink unseen place name target = (reached, true) := by
    rw [lenientLink, if_pos hmem, hreached]
  rw [followLeniently_eq, followNamesLeniently_link hidle hparent hlink, hfollowed, if_pos rfl]

private theorem linkLeads_of_nameStep {name target : Text} {between : Location} {inner : Nat}
    (hstep : files.nameStep location name = .ok (.link target))
    (htarget : files.Leads (SourceOrigin.startOf location target) (Text.splitOn '/' target) between inner) :
    files.LinkLeads (location ++ [name]) inner :=
  ⟨location, name, target, between, rfl, (at?_of_nameStep_link hstep).2.2, htarget⟩

/-- Names that the system can follow are followed to the same place, if the links that may come up have not been seen. These
are the links that are followed over fewer others than the names. -/
theorem followLeniently_of_leads (h : files.Leads location names goal links) {unseen : List Place} {place : Place}
    (hplace : place.location = location) (hspelled : files.IsSpelled place)
    (hunseen : ∀ link inner, files.IsSpelled link → files.LinkLeads link.location inner → inner < links → link ∈ unseen) :
    ∃ reached, files.followLeniently unseen place names = (reached, true) ∧ reached.location = goal ∧
      files.IsSpelled reached := by
  induction h generalizing unseen place with
  | nil location =>
    rw [followLeniently_eq]
    exact ⟨place, rfl, hplace, hspelled⟩
  | @entry location next goal name rest links hstep _ ih =>
    subst hplace
    obtain ⟨place', hnext, hspelled', hfollowed⟩ := followLeniently_entry hstep hspelled unseen rest
    rw [hfollowed]
    exact ih hnext hspelled' hunseen
  | @link location between goal name target rest inner links hstep htarget _ ihtarget ih =>
    subst hplace
    have hown : files.LinkLeads (place.child name).location inner := linkLeads_of_nameStep hstep htarget
    have hmem : place.child name ∈ unseen := hunseen _ inner hspelled hown (by omega)
    -- The links within the target are followed over fewer others than the link itself, so it is not among them.
    have hfewer : ∀ link inner', files.IsSpelled link → files.LinkLeads link.location inner' → inner' < inner →
        link ∈ allBut (place.child name) unseen := by
      intro link inner' hspell hleads hlt
      refine List.mem_filter.mpr ⟨hunseen link inner' hspell hleads (by omega), ?_⟩
      rw [decide_eq_true_eq]
      rintro rfl
      exact absurd (hleads.unique hown) (Nat.ne_of_lt hlt)
    obtain ⟨reached, hreached, hbetween, hspell⟩ :=
      ihtarget (place.location_startOf target) (isSpelled_startOf hspelled target) hfewer
    rw [followLeniently_link hstep hmem hreached]
    exact ih hbetween hspell fun link inner' hspell hleads hlt => hunseen link inner' hspell hleads (by omega)

/-- A path that the system finds an entry at stands for the location of the entry, and none of its links lead in a circle. -/
theorem realPath_of_open? {text : Text} {node : FileNode} (h : files.open? files.workingDirectory text = .ok node) :
    ∃ reached, files.realPath (Path.ofText text) = (reached, true) ∧ files.root.at? reached.location = some node := by
  obtain ⟨-, -, location, hfollow, hnode⟩ := (open?_eq_ok_iff _ text node).mp h
  obtain ⟨links, hleads⟩ := exists_leads_of_follow hfollow
  have hslim := hleads.filter
  rw [← Path.namesIn_eq] at hslim
  have hstart : SourceOrigin.startOf files.workingDirectory text =
      (if (Path.ofText text).isAbsolute then (⟨none, []⟩ : Place) else ⟨some 0, files.workingDirectory⟩).location := by
    simp only [SourceOrigin.startOf, Path.head?_iff_isAbsolute]
    split <;> rfl
  have hspelled : files.IsSpelled
      (if (Path.ofText text).isAbsolute then (⟨none, []⟩ : Place) else ⟨some 0, files.workingDirectory⟩) := by
    split <;> simp [IsSpelled]
  obtain ⟨reached, hreached, rfl, -⟩ := followLeniently_of_leads hslim hstart.symm hspelled fun link inner hspell hlink _ => by
    obtain ⟨directory, name, target, -, -, hat, -⟩ := hlink
    exact mem_linkPlaces hspell (mem_links_of_at? hat)
  exact ⟨reached, hreached, hnode⟩

private theorem isCircular_of_open? {text : Text} {node : FileNode}
    (h : files.open? files.workingDirectory text = .ok node) :
    files.isCircular (Path.ofText text) = false := by
  obtain ⟨reached, hreached, -⟩ := realPath_of_open? h
  rw [isCircular, hreached]

/-- A location is found for a path that leads to an entry. -/
theorem resolutionError?_of_open? (hfiles : files.isNulFree = true) {text : Text} {node : FileNode}
    (h : files.open? files.workingDirectory text = .ok node) : files.resolutionError? (Path.ofText text) = none := by
  exact resolutionError?_eq_none_iff.mpr ⟨holdsNul_of_open? hfiles h, isCircular_of_open? h⟩

/-- There are no source files below a directory whose links lead in a circle. -/
theorem isCircular_of_mem_sourceFiles {config : Config} {directory : Path} {paths : List Path} {log : Log}
    (h : files.sourceFiles config (Path.ofLocation (files.resolve directory)) = .ok (paths, log)) {path : Path}
    (hmem : path ∈ paths) : files.isCircular directory = false := by
  by_contra hcircular
  unfold isCircular at hcircular
  split at hcircular
  · exact hcircular rfl
  · next place hplace =>
    rw [resolve, hplace] at h
    unfold sourceFiles at h
    split at h
    · simp at h
    split at h
    · next hopened => simp [hopened] at hcircular
    · obtain ⟨rfl, -⟩ := Prod.mk.inj (Except.ok.inj h)
      simp at hmem

/-- A location is found for every source file below a directory. -/
theorem resolutionError?_of_mem_sourceFiles (hfiles : files.isNulFree = true) {config : Config} {root : Path}
    {paths : List Path} {log : Log} (h : files.sourceFiles config root = .ok (paths, log)) {path : Path}
    (hmem : path ∈ paths) : files.resolutionError? path = none := by
  obtain ⟨hnormal, content, hopened⟩ := opens_of_mem_sourceFiles h hmem
  rw [← hnormal]
  exact resolutionError?_of_open? hfiles hopened

end FileTree

end SourceOrigin
