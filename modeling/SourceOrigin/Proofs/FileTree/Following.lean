import SourceOrigin.Proofs.FileTree.Components
import SourceOrigin.Proofs.FileTree.Opening

/-! Looking up what lies below a directory. The path of an entry leads where the name of the entry leads from its own
directory, unless the system refuses the path: its text or a name in it is too long, or there are too many links on the way. -/
namespace SourceOrigin.FileTree
variable {files : FileTree} {links : Nat} {start base location : Location} {name : Text} {names rest : List Text}

/-! ### The steps of a look-up -/

def followLink (files : FileTree) (links : Nat) (directory : Location) (target : Text) (rest : List Text) :
    Except PathError Location :=
  match links with
  | 0 => .error .tooManyLinks
  | links + 1 => files.follow links (startOf directory target) (Text.splitOn '/' target ++ rest)

private theorem follow_eq (files : FileTree) (links : Nat) :
    files.follow links = files.followNames (files.followLink links) := by
  cases links <;> rfl

theorem follow_nil (files : FileTree) (links : Nat) (start : Location) : files.follow links start [] = .ok start := by
  rw [follow_eq, followNames]

theorem follow_error {error : PathError} (h : files.nameStep start name = .error error) (links : Nat) (rest : List Text) :
    files.follow links start (name :: rest) = .error error := by
  rw [follow_eq, followNames_cons, h]

theorem follow_entry {next : Location} (h : files.nameStep start name = .ok (.entry next)) (links : Nat)
    (rest : List Text) : files.follow links start (name :: rest) = files.follow links next rest := by
  rw [follow_eq, followNames_cons, h]

theorem follow_link {target : Text} (h : files.nameStep start name = .ok (.link target)) (links : Nat) (rest : List Text) :
    files.follow links start (name :: rest) = files.followLink links start target rest := by
  rw [follow_eq, followNames_cons, h]

/-- Look-ups by their steps: a name may lead nowhere, to an entry, or to a link, with its target in front of the other
names and a link less to follow. -/
theorem follow_induction (files : FileTree) {P : Nat → Location → List Text → Prop} (nil : ∀ links start, P links start [])
    (error : ∀ {links start name rest error}, files.nameStep start name = .error error → P links start (name :: rest))
    (entry : ∀ {links start name rest next}, files.nameStep start name = .ok (.entry next) → P links next rest →
      P links start (name :: rest))
    (stop : ∀ {start name rest target}, files.nameStep start name = .ok (.link target) → P 0 start (name :: rest))
    (link : ∀ {links start name rest target}, files.nameStep start name = .ok (.link target) →
      P links (startOf start target) (Text.splitOn '/' target ++ rest) → P (links + 1) start (name :: rest))
    (links : Nat) (start : Location) (names : List Text) : P links start names := by
  induction links generalizing start names with
  | zero =>
    induction names generalizing start with
    | nil => exact nil 0 start
    | cons name rest ih =>
      cases hstep : files.nameStep start name with
      | error => exact error hstep
      | ok step =>
        cases step with
        | entry next => exact entry hstep (ih next)
        | link target => exact stop hstep
  | succ links ih =>
    induction names generalizing start with
    | nil => exact nil (links + 1) start
    | cons name rest ihnames =>
      cases hstep : files.nameStep start name with
      | error => exact error hstep
      | ok step =>
        cases step with
        | entry next => exact entry hstep (ihnames next)
        | link target => exact link hstep (ih _ _)

/-! ### One look-up after the other -/

/-- Names that lead to an entry can be followed by others: it goes on there, with the links that are left. -/
theorem follow_append (h : files.follow links start names = .ok base) :
    ∃ left ≤ links, ∀ rest, files.follow links start (names ++ rest) = files.follow left base rest := by
  induction links, start, names using (follow_induction files) with
  | nil links start =>
    rw [follow_nil] at h
    obtain rfl := Except.ok.inj h
    exact ⟨links, Nat.le_refl links, fun rest => rfl⟩
  | error hstep =>
    rw [follow_error hstep] at h
    simp at h
  | entry hstep ih =>
    rw [follow_entry hstep] at h
    obtain ⟨left, hle, hleft⟩ := ih h
    exact ⟨left, hle, fun rest => (follow_entry hstep _ _).trans (hleft rest)⟩
  | stop hstep =>
    rw [follow_link hstep, followLink] at h
    simp at h
  | link hstep ih =>
    rw [follow_link hstep, followLink] at h
    obtain ⟨left, hle, hleft⟩ := ih h
    refine ⟨left, Nat.le_succ_of_le hle, fun rest => ?_⟩
    rw [List.cons_append, follow_link hstep, followLink, ← List.append_assoc, hleft]

/-- With more links to follow a look-up gives the same, unless there were too many links. -/
theorem follow_mono (h : files.follow links start names ≠ .error .tooManyLinks) {more : Nat} (hle : links ≤ more) :
    files.follow more start names = files.follow links start names := by
  induction links, start, names using (follow_induction files) generalizing more with
  | nil links start => rw [follow_nil, follow_nil]
  | error hstep => rw [follow_error hstep, follow_error hstep]
  | entry hstep ih =>
    rw [follow_entry hstep] at h ⊢
    rw [follow_entry hstep]
    exact ih h hle
  | stop hstep =>
    rw [follow_link hstep, followLink] at h
    exact absurd rfl h
  | link hstep ih =>
    obtain ⟨more, rfl⟩ := Nat.exists_eq_add_of_le' (Nat.le_trans (Nat.le_add_left 1 _) hle)
    rw [follow_link hstep, followLink] at h
    rw [follow_link hstep, followLink, follow_link hstep, followLink]
    exact ih h (Nat.le_of_succ_le_succ hle)

private theorem nameStep_of_idle_error {error : PathError} (hidle : Path.isIdle name = true)
    (h : files.nameStep start name = .error error) (other : Text) : files.nameStep start other = .error error := by
  unfold nameStep at h ⊢
  split at h
  · rw [if_pos hidle] at h
    simp at h
  · exact h

private theorem follow_idle (hidle : Path.isIdle name = true) (hrest : rest ≠ []) (links : Nat) (start : Location)
    (front : List Text) : files.follow links start (front ++ name :: rest) = files.follow links start (front ++ rest) := by
  induction links, start, front using (follow_induction files) with
  | nil links start =>
    obtain ⟨next, rest, rfl⟩ := List.exists_cons_of_ne_nil hrest
    cases hstep : files.nameStep start name with
    | ok step =>
      obtain rfl := nameStep_of_isIdle hidle hstep
      exact follow_entry hstep _ _
    | error error => exact (follow_error hstep _ _).trans (follow_error (nameStep_of_idle_error hidle hstep next) _ _).symm
  | error hstep => exact (follow_error hstep _ _).trans (follow_error hstep _ _).symm
  | entry hstep ih => exact (follow_entry hstep _ _).trans (ih.trans (follow_entry hstep _ _).symm)
  | stop hstep => rw [List.cons_append, follow_link hstep, followLink, List.cons_append, follow_link hstep, followLink]
  | link hstep ih =>
    rw [List.cons_append, follow_link hstep, followLink, List.cons_append, follow_link hstep, followLink,
      ← List.append_assoc, ih, List.append_assoc]

/-! ### Below a directory -/

/-- The system refuses to look up the text, which is too long or holds a name that is, or leads over too many links. -/
def Refuses (files : FileTree) (text : Text) : Prop :=
  files.open? files.workingDirectory text = .error .tooLong ∨
    files.open? files.workingDirectory text = .error .tooManyLinks

variable {directories : List Text} {entries : List (Text × FileNode)}

private theorem exists_directory_at? {more : Location} (h : files.root.at? (start ++ more) = some (.directory entries)) :
    ∃ entries, files.root.at? start = some (.directory entries) := by
  cases more with
  | nil => exact ⟨entries, by rwa [List.append_nil] at h⟩
  | cons name rest => exact FileNode.exists_directory_of_at? h

private theorem nameStep_of_long (hname : isEntryName name = true) (h : files.root.at? start = some (.directory entries))
    (hlong : nameByteLimit < byteLength name) : files.nameStep start name = .error .tooLong := by
  obtain ⟨hidle, hparent, -⟩ := Path.isEntryName_iff.mp hname
  simp [nameStep, h, hidle, hparent, hlong]

private theorem nameStep_of_short {node : FileNode} (hname : isEntryName name = true)
    (hshort : byteLength name ≤ nameByteLimit)
    (h : files.root.at? (start ++ [name]) = some node) (hlink : ∀ target, node ≠ .link target) :
    files.nameStep start name = .ok (.entry (start ++ [name])) := by
  obtain ⟨entries, hentries⟩ := FileNode.exists_directory_of_at? h
  rw [FileNode.at?_append, hentries] at h
  have hlookup : entries.lookup name = some node := by simpa [FileNode.at?] using h
  obtain ⟨hidle, hparent, -⟩ := Path.isEntryName_iff.mp hname
  simp only [nameStep, hentries, hidle, hparent, hlookup, Nat.not_lt.mpr hshort, if_false, Bool.false_eq_true]

/-- The names of directories lead to the last of them, if none of the names is too long. -/
theorem follow_directories (hnames : ∀ name ∈ directories, isEntryName name = true)
    (h : files.root.at? (start ++ directories) = some (.directory entries)) (links : Nat) (rest : List Text) :
    files.follow links start (directories ++ rest) = .error .tooLong ∨
      files.follow links start (directories ++ rest) = files.follow links (start ++ directories) rest := by
  induction directories generalizing start with
  | nil => exact .inr (by rw [List.append_nil, List.nil_append])
  | cons name directories ih =>
    obtain ⟨hname, hnames⟩ := List.forall_mem_cons.mp hnames
    obtain ⟨others, hothers⟩ := exists_directory_at? h
    rw [List.append_cons] at h ⊢
    obtain ⟨entered, hentered⟩ := exists_directory_at? h
    by_cases hlong : nameByteLimit < byteLength name
    · exact .inl (follow_error (nameStep_of_long hname hothers hlong) links _)
    · rw [List.cons_append, follow_entry (nameStep_of_short hname (Nat.le_of_not_lt hlong) hentered (by simp))]
      exact ih hnames h

private theorem refuses_of_long {text : Text} (h : pathByteLimit ≤ byteLength text) : files.Refuses text := by
  have hne : text ≠ [] := by
    rintro rfl
    exact absurd h (by decide)
  exact .inl (by rw [open?, locate, if_neg hne, if_pos h])

/-- Where a directory is found, the text of what is below it leads to where the names lead from there. -/
theorem locate_shown {root : Path} (hbase : files.locate files.workingDirectory root.toText = .ok base)
    (hlocation : ∀ name ∈ location, isEntryName name = true) (hne : location ≠ [])
    (hshort : byteLength (root.shown location) < pathByteLimit) : ∃ left ≤ linkLimit,
      files.locate files.workingDirectory (root.shown location) = files.follow left base location := by
  obtain ⟨hnil, -, hfollow⟩ := (locate_eq_ok_iff _ _ _).mp hbase
  obtain ⟨left, hle, hleft⟩ := follow_append hfollow
  obtain ⟨more, hmore⟩ := root.prefix_shown location
  have hshown : root.shown location ≠ [] := by simp [← hmore, hnil]
  have hstart : startOf files.workingDirectory (root.shown location) = startOf files.workingDirectory root.toText := by
    rw [startOf, startOf, ← hmore, List.head?_append_of_ne_nil _ hnil]
  refine ⟨left, hle, ?_⟩
  obtain ⟨front, idle, hidle, htext, hsplit⟩ := Path.splitOn_shown root hlocation hne
  rw [locate, if_neg hshown, if_neg (Nat.not_le.mpr hshort), hstart, ← hleft, htext, hsplit, List.append_assoc]
  rcases hidle with rfl | rfl
  · rfl
  · exact (follow_idle rfl hne linkLimit _ front).symm

private theorem locate_name (hname : isEntryName name = true) (hshort : byteLength name ≤ nameByteLimit)
    (directory : Location) :
    files.locate directory name = files.follow linkLimit directory [name] := by
  obtain ⟨hidle, -, hslash⟩ := Path.isEntryName_iff.mp hname
  have hempty : name ≠ [] := by
    rintro rfl
    simp [Path.isIdle] at hidle
  have hnormal : Path.IsNormal ⟨[], [name]⟩ := Path.isNormal_of_entryNames (by simpa using hname)
  have hsplit : Text.splitOn '/' name = [name] := by
    simpa [Path.joinNames] using hnormal.splitOn_joinNames (by simp)
  have hstart : startOf directory name = directory := if_neg fun hhead => hslash (List.mem_of_head? hhead)
  have hlimits : nameByteLimit < pathByteLimit := by decide
  rw [locate, if_neg hempty, if_neg (by omega), hsplit, hstart]

/-- The path of an entry leads where its name leads from its own directory, unless the path is refused. -/
theorem open?_shown {root : Path} (hbase : files.locate files.workingDirectory root.toText = .ok base)
    (hdirectory : files.root.at? (base ++ directories) = some (.directory entries))
    (hnames : ∀ other ∈ directories ++ [name], isEntryName other = true) :
    files.Refuses (root.shown (directories ++ [name])) ∨
      files.open? files.workingDirectory (root.shown (directories ++ [name])) = files.open? (base ++ directories) name := by
  have hname : isEntryName name = true := hnames name (by simp)
  have hrefuses : ∀ error, files.locate files.workingDirectory (root.shown (directories ++ [name])) = .error error →
      files.open? files.workingDirectory (root.shown (directories ++ [name])) = .error error := by
    intro error herror
    rw [open?, herror]
  by_cases htext : pathByteLimit ≤ byteLength (root.shown (directories ++ [name]))
  · exact .inl (refuses_of_long htext)
  have hne : directories ++ [name] ≠ [] := List.append_ne_nil_of_right_ne_nil _ (List.cons_ne_nil name [])
  obtain ⟨left, hle, hshown⟩ := locate_shown hbase hnames hne (Nat.lt_of_not_le htext)
  have hdirectories : ∀ other ∈ directories, isEntryName other = true :=
    fun other hmem => hnames other (List.mem_append_left _ hmem)
  rcases follow_directories hdirectories hdirectory left [name] with htoo | hlast
  · exact .inl (.inl (hrefuses _ (hshown.trans htoo)))
  rw [hlast] at hshown
  by_cases hlong : nameByteLimit < byteLength name
  · have hstep := nameStep_of_long hname hdirectory hlong
    exact .inl (.inl (hrefuses _ (hshown.trans (follow_error hstep left []))))
  by_cases hmany : files.follow left (base ++ directories) [name] = .error .tooManyLinks
  · exact .inl (.inr (hrefuses _ (hshown.trans hmany)))
  · have hown : files.locate (base ++ directories) name = files.follow left (base ++ directories) [name] := by
      rw [locate_name hname (Nat.le_of_not_lt hlong), follow_mono hmany hle]
    exact .inr (by rw [open?, open?, hshown, hown])

theorem not_refuses_of_open? {text : Text} {node : FileNode}
    (h : files.open? files.workingDirectory text = .ok node) : ¬ files.Refuses text := by
  rintro (hrefused | hrefused)
  all_goals
    rw [h] at hrefused
    simp at hrefused

end SourceOrigin.FileTree
