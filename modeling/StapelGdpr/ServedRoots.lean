import StapelGdpr.Owners

/-!
# StapelGdpr.ServedRoots

Where an export comes to lie on disk (`export_store.py`), and the boot check that is to keep it
out of every directory a web server hands out (`check_export_storage`).

The check looks at the export, archive and staging roots. The archive may lie elsewhere, where
`STORAGES["stapel_gdpr_exports"]` says, and a served root may begin below a root that is itself
not served: `agrees_iff` says when the check and the writers agree.
-/

namespace StapelGdpr.ExportStore

/-- An absolute path without symlinks, by its segments. -/
abbrev Path := List String

/-! ### The settings -/

/-- `EXPORT_ROOT`, `ARCHIVE_ROOT`, `STAGING_ROOT`. -/
inductive RootName
  | exportRoot
  | archiveRoot
  | stagingRoot
  deriving DecidableEq

/-- A Django storage. -/
inductive Backend
  | filesystem (location : Path)
  | objectStore
  deriving DecidableEq

/-- An entry of `STATICFILES_DIRS`: a path, or a pair of a URL prefix and a path. -/
inductive StaticEntry
  | plain (path : Option Path)
  | pair (url : String) (path : Option Path)
  deriving DecidableEq

/-- The settings a location depends on; what is unset or empty is `none`. -/
structure Layout where
  /-- `STAPEL_GDPR[name]` -/
  namespaced : RootName → Option Path := fun _ => none
  /-- `GDPR_<name>` -/
  flat : RootName → Option Path := fun _ => none
  baseDir : Option Path := none
  /-- `tempfile.gettempdir()` -/
  tempDir : Path := ["tmp"]
  mediaRoot : Option Path := none
  staticRoot : Option Path := none
  staticfilesDirs : List StaticEntry := []
  /-- `STORAGES["stapel_gdpr_exports"]` -/
  aliased : Option Backend := none
  defaultStorage : Backend := .objectStore

variable {c : Layout} {root dir tail : Path}

/-! ### Where an export lies -/

/-- `default_export_root`. -/
def Layout.defaultExportRoot (c : Layout) : Path :=
  match c.baseDir with
  | some base => base ++ ["private", "gdpr"]
  | none => c.tempDir ++ ["stapel-gdpr"]

/-- `_configured`, of one name: namespaced, then flat. -/
def Layout.configured (c : Layout) (name : RootName) : Option Path :=
  (c.namespaced name).or (c.flat name)

/-- `export_root_is_explicit`. -/
def Layout.exportRootIsExplicit (c : Layout) : Bool :=
  (c.configured .exportRoot).isSome || (c.configured .archiveRoot).isSome ||
    (c.configured .stagingRoot).isSome

/-- `export_root`. -/
def Layout.exportRoot (c : Layout) : Path := (c.configured .exportRoot).getD c.defaultExportRoot

/-- `archive_root`. -/
def Layout.archiveRoot (c : Layout) : Path :=
  (c.configured .archiveRoot).getD (c.exportRoot ++ ["exports"])

/-- `staging_root`. -/
def Layout.stagingRoot (c : Layout) : Path :=
  (c.configured .stagingRoot).getD (c.exportRoot ++ ["staging"])

/-- `export_storage`. -/
def Layout.exportStorage (c : Layout) : Backend := c.aliased.getD (.filesystem c.archiveRoot)

/-- The directory of `archive_key`. -/
def archiveKeyDir (correlationId : String) : Path := ["exports", correlationId]

/-- The directory `save_archive` writes into, of a filesystem store. -/
def Layout.archiveDir (c : Layout) (correlationId : String) : Option Path :=
  match c.exportStorage with
  | .filesystem location => some (location ++ archiveKeyDir correlationId)
  | .objectStore => none

/-- `_staging_dir`. -/
def Layout.stagingDir (c : Layout) (request : Nat) : Path := c.stagingRoot ++ [toString request]

/-- `provider_dir` of `run_export`, and `dest_dir` of `_download_bucket_parts`. -/
def Layout.sectionDir (c : Layout) (request : Nat) (section' : String) : Path :=
  c.stagingDir request ++ [section']

/-- `build_dir` of `_assemble_zip`. -/
def Layout.buildDir (c : Layout) : Path := c.stagingRoot ++ [".building"]

/-! ### The check -/

/-- `_is_inside`. -/
def isInside (path parent : Path) : Bool := decide (parent <+: path)

/-- The path of an entry. -/
def StaticEntry.path : StaticEntry → Option Path
  | .plain path => path
  | .pair _ path => path

/-- `_served_roots`. -/
def Layout.servedRoots (c : Layout) : List (String × Path) :=
  c.mediaRoot.toList.map (("MEDIA_ROOT", ·)) ++ c.staticRoot.toList.map (("STATIC_ROOT", ·)) ++
    c.staticfilesDirs.zipIdx.flatMap fun (entry, index) =>
      entry.path.toList.map ((s!"STATICFILES_DIRS[{index}]", ·))

/-- The first served root that a path is in. -/
def Layout.servedIn (c : Layout) (path : Path) : Option (String × Path) :=
  c.servedRoots.find? fun served => isInside path served.2

/-- A finding of `check_export_storage`. -/
inductive Finding
  /-- `gdpr.E013` -/
  | served (label : String) (root : Path) (name : String) (parent : Path)
  /-- `gdpr.W013` -/
  | unnamed (root : Path)
  /-- `gdpr.W014` -/
  | servedSlices (owners : List String) (name : String)
  deriving DecidableEq

/-- The id of a finding. -/
def Finding.id : Finding → String
  | .served .. => "gdpr.E013"
  | .unnamed _ => "gdpr.W013"
  | .servedSlices .. => "gdpr.W014"

/-- `candidates`, with their labels. -/
def Layout.candidates (c : Layout) : List (String × Path) :=
  [("the export root", c.exportRoot), ("the archive root", c.archiveRoot),
    ("the staging root", c.stagingRoot)]

/-- The loop over the candidates: a root inside one that is reported is not reported again. -/
def Layout.reportServed (c : Layout) : List (String × Path) → List Path → List Finding
  | [], _ => []
  | (label, root) :: rest, reported =>
      if reported.any (isInside root ·) then c.reportServed rest reported
      else
        match c.servedIn root with
        | none => c.reportServed rest reported
        | some (name, parent) =>
            .served label root name parent :: c.reportServed rest (reported ++ [root])

/-- `_default_storage_is_served`. -/
def Layout.defaultStorageIsServed (c : Layout) : String :=
  match c.defaultStorage with
  | .objectStore => ""
  | .filesystem location => ((c.servedIn location).map (·.1)).getD ""

/-- `check_export_storage`. -/
def checkExportStorage (report : RegistryReport) (c : Layout) : List Finding :=
  let problems := c.reportServed c.candidates []
  if problems ≠ [] then problems
  else
    let unnamed : List Finding :=
      if c.exportRootIsExplicit = false ∧ c.aliased.isNone = true then [.unnamed c.exportRoot]
      else []
    let remoteOwners := sorted ((report.owners.filter (·.kind = .remote)).map (·.name))
    let slices : List Finding :=
      if c.defaultStorageIsServed ≠ "" ∧ remoteOwners ≠ [] then
        [.servedSlices remoteOwners c.defaultStorageIsServed]
      else []
    unnamed ++ slices

/-! ### What the check finds -/

/-- No served root has the directory. -/
def Layout.Unserved (c : Layout) (dir : Path) : Prop :=
  ∀ served ∈ c.servedRoots, isInside dir served.2 = false

theorem servedIn_eq_none : c.servedIn dir = none ↔ c.Unserved dir := by
  simp [Layout.servedIn, Layout.Unserved, List.find?_eq_none]

/-- The loop is silent on exactly the candidates that no served root has; the deduplication
cannot silence the first finding. -/
theorem reportServed_eq_nil {candidates : List (String × Path)} :
    c.reportServed candidates [] = [] ↔ ∀ candidate ∈ candidates, c.Unserved candidate.2 := by
  induction candidates with
  | nil => simp [Layout.reportServed]
  | cons candidate rest ih =>
      obtain ⟨label, root⟩ := candidate
      rw [Layout.reportServed, if_neg (by simp), List.forall_mem_cons]
      cases hserved : c.servedIn root with
      | none =>
          have hfree : c.Unserved root := servedIn_eq_none.mp hserved
          exact ih.trans ⟨fun h => ⟨hfree, h⟩, fun h => h.2⟩
      | some served =>
          have hin : ¬ c.Unserved root := by
            rw [← servedIn_eq_none, hserved]
            simp
          exact ⟨fun h => absurd h (by simp), fun h => absurd h.1 hin⟩

/-- Every finding of the loop is a `gdpr.E013`. -/
theorem mem_reportServed {finding : Finding} {candidates : List (String × Path)}
    {reported : List Path} (h : finding ∈ c.reportServed candidates reported) :
    finding.id = "gdpr.E013" := by
  induction candidates generalizing reported with
  | nil => exact absurd h (by simp [Layout.reportServed])
  | cons candidate rest ih =>
      obtain ⟨label, root⟩ := candidate
      rw [Layout.reportServed] at h
      split at h
      · exact ih h
      · cases hserved : c.servedIn root with
        | none =>
            rw [hserved] at h
            exact ih h
        | some served =>
            rw [hserved] at h
            rcases List.mem_cons.mp h with rfl | h
            · rfl
            · exact ih h

/-- The check reports no `gdpr.E013`. -/
def Passes (report : RegistryReport) (c : Layout) : Prop :=
  ∀ finding ∈ checkExportStorage report c, finding.id ≠ "gdpr.E013"

instance {report : RegistryReport} : Decidable (Passes report c) :=
  inferInstanceAs (Decidable (∀ finding ∈ checkExportStorage report c, finding.id ≠ "gdpr.E013"))

theorem passes_iff {report : RegistryReport} :
    Passes report c ↔ ∀ candidate ∈ c.candidates, c.Unserved candidate.2 := by
  rw [← reportServed_eq_nil]
  unfold Passes checkExportStorage
  dsimp only
  split
  · rename_i hproblems
    constructor
    · intro hpasses
      obtain ⟨finding, hfinding⟩ := List.exists_mem_of_ne_nil _ hproblems
      exact absurd (mem_reportServed hfinding) (hpasses finding hfinding)
    · exact fun h => absurd h hproblems
  · rename_i hproblems
    refine ⟨fun _ => not_not.mp hproblems, fun _ finding hfinding => ?_⟩
    rcases List.mem_append.mp hfinding with h | h
    · split at h
      · obtain rfl := List.mem_singleton.mp h
        simp [Finding.id]
      · exact absurd h (by simp)
    · split at h
      · obtain rfl := List.mem_singleton.mp h
        simp [Finding.id]
      · exact absurd h (by simp)

/-! ### Where the check and the writers agree -/

/-- A served root begins below the root, on the way to a directory under it. -/
def Layout.ServedBetween (c : Layout) (root tail : Path) : Prop :=
  ∃ served ∈ c.servedRoots, ∃ below, below ≠ [] ∧ below <+: tail ∧ served.2 = root ++ below

theorem unserved_append :
    c.Unserved (root ++ tail) ↔ c.Unserved root ∧ ¬ c.ServedBetween root tail := by
  simp only [Layout.Unserved, isInside, decide_eq_false_iff_not]
  constructor
  · intro h
    refine ⟨fun served hserved hin => h served hserved (hin.trans (List.prefix_append ..)), ?_⟩
    rintro ⟨served, hserved, below, -, htail, heq⟩
    refine h served hserved ?_
    rw [heq]
    exact (List.prefix_append_right_inj root).mpr htail
  · rintro ⟨hroot, hbetween⟩ served hserved hin
    -- the root and the served root are on one way down: the shorter is above the other
    rcases List.prefix_or_prefix_of_prefix hin (List.prefix_append root tail) with habove | hbelow
    · exact hroot served hserved habove
    · obtain ⟨below, heq⟩ := hbelow
      refine hbetween ⟨served, hserved, below, ?_, ?_, heq.symm⟩
      · rintro rfl
        have hsame : served.2 = root := by
          rw [← heq, List.append_nil]
        exact hroot served hserved (hsame ▸ List.prefix_rfl)
      · rw [← heq] at hin
        exact (List.prefix_append_right_inj root).mp hin

/-- What an export writes lies in no served root, whatever the request. -/
structure Layout.LandsPrivately (c : Layout) : Prop where
  archives : ∀ correlationId dir, c.archiveDir correlationId = some dir → c.Unserved dir
  staging : ∀ request, c.Unserved (c.stagingDir request)
  sections : ∀ request section', c.Unserved (c.sectionDir request section')
  building : c.Unserved c.buildDir

/-- The candidate roots apart, nothing served is in the way: the aliased store is at no served
place, and no served root begins below the store or the staging root on the way to what an
export writes. -/
structure Layout.Sheltered (c : Layout) : Prop where
  store : ∀ location, c.aliased = some (.filesystem location) → c.Unserved location
  archives : ∀ location, c.exportStorage = .filesystem location → ∀ correlationId,
    ¬ c.ServedBetween location (archiveKeyDir correlationId)
  sections : ∀ (request : Nat) section',
    ¬ c.ServedBetween c.stagingRoot [toString request, section']
  building : ¬ c.ServedBetween c.stagingRoot [".building"]

/-- A served root on the way to the directory of a request is on the way to those below. -/
theorem Layout.ServedBetween.mono {tail' : Path} (h : c.ServedBetween root tail) :
    c.ServedBetween root (tail ++ tail') := by
  obtain ⟨served, hserved, below, hne, htail, heq⟩ := h
  exact ⟨served, hserved, below, hne, htail.trans (List.prefix_append ..), heq⟩

/-- With the archive and staging roots unserved, the shelter is all it takes. -/
theorem landsPrivately_iff (harchive : c.Unserved c.archiveRoot)
    (hstaging : c.Unserved c.stagingRoot) : c.LandsPrivately ↔ c.Sheltered := by
  have hsection (request : Nat) (section' : String) : c.sectionDir request section' =
      c.stagingRoot ++ [toString request, section'] := by
    simp [Layout.sectionDir, Layout.stagingDir]
  constructor
  · intro h
    have hstore (location : Path) (hloc : c.exportStorage = .filesystem location)
        (correlationId : String) : c.Unserved location ∧
          ¬ c.ServedBetween location (archiveKeyDir correlationId) :=
      unserved_append.mp (h.archives correlationId _ (by rw [Layout.archiveDir, hloc]))
    constructor
    · intro location haliased
      exact (hstore location (by simp [Layout.exportStorage, haliased]) "").1
    · intro location hloc correlationId
      exact (hstore location hloc correlationId).2
    · intro request section'
      have hdir := h.sections request section'
      rw [hsection] at hdir
      exact (unserved_append.mp hdir).2
    · exact (unserved_append.mp h.building).2
  · intro h
    constructor
    · intro correlationId dir hdir
      rw [Layout.archiveDir] at hdir
      split at hdir
      · rename_i location hloc
        obtain rfl := Option.some.inj hdir
        refine unserved_append.mpr ⟨?_, h.archives location hloc correlationId⟩
        cases haliased : c.aliased with
        | none =>
            rw [Layout.exportStorage, haliased] at hloc
            obtain rfl := Backend.filesystem.inj hloc
            exact harchive
        | some backend =>
            rw [Layout.exportStorage, haliased] at hloc
            obtain rfl : backend = .filesystem location := hloc
            exact h.store location haliased
      · exact absurd hdir (by simp)
    · intro request
      refine unserved_append.mpr ⟨hstaging, fun hbetween => h.sections request "" ?_⟩
      exact hbetween.mono
    · intro request section'
      rw [hsection]
      exact unserved_append.mpr ⟨hstaging, h.sections request section'⟩
    · exact unserved_append.mpr ⟨hstaging, h.building⟩

/-- **The check agrees with where archives land** in exactly the layouts of which a candidate
root is served, so that the check speaks up, and those that are sheltered. -/
theorem agrees_iff {report : RegistryReport} : (Passes report c → c.LandsPrivately) ↔
    ((∃ candidate ∈ c.candidates, ¬ c.Unserved candidate.2) ∨ c.Sheltered) := by
  rw [passes_iff]
  by_cases hall : ∀ candidate ∈ c.candidates, c.Unserved candidate.2
  · have harchive : c.Unserved c.archiveRoot :=
      hall ("the archive root", c.archiveRoot) (.tail _ (.head _))
    have hstaging : c.Unserved c.stagingRoot :=
      hall ("the staging root", c.stagingRoot) (.tail _ (.tail _ (.head _)))
    have hland : c.LandsPrivately ↔ c.Sheltered := landsPrivately_iff harchive hstaging
    constructor
    · exact fun h => .inr (hland.mp (h hall))
    · rintro (⟨candidate, hcandidate, hserved⟩ | h) _
      · exact absurd (hall candidate hcandidate) hserved
      · exact hland.mpr h
  · refine ⟨fun _ => .inl ?_, fun _ h => absurd h hall⟩
    simpa using hall

/-- The archives on the volume of the uploads, by an alias. -/
def onMediaVolume : Layout where
  baseDir := some ["srv", "app"]
  mediaRoot := some ["srv", "media"]
  aliased := some (.filesystem ["srv", "media", "gdpr"])

/-- The check passes, and every archive lies in `MEDIA_ROOT`. -/
theorem served_archive : Passes { version := "1" } onMediaVolume ∧
    onMediaVolume.archiveDir "8f0c" = some ["srv", "media", "gdpr", "exports", "8f0c"] ∧
    ¬ ∀ (report : RegistryReport) (c : Layout), Passes report c → c.LandsPrivately := by
  have hpasses : Passes { version := "1" } onMediaVolume := by decide
  have hdir : onMediaVolume.archiveDir "8f0c" =
      some ["srv", "media", "gdpr", "exports", "8f0c"] := rfl
  refine ⟨hpasses, hdir, fun hclaim => ?_⟩
  have hfree := (hclaim _ _ hpasses).archives "8f0c" _ hdir ("MEDIA_ROOT", ["srv", "media"])
    (by decide)
  exact absurd hfree (by decide)

end StapelGdpr.ExportStore
