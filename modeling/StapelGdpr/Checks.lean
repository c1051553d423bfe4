import StapelGdpr.Owners

/-!
# StapelGdpr.Checks

The boot check of the owner names (`checks.py`, `declarations.py`): the host's inventory against
what the installed libraries declare.

A declared name that the inventory does not have is reported once (`names_complete`): as the name
a host owner was meant to have (`gdpr.E009`), as a store nobody asks (`gdpr.E010`), or as one the
host left out on purpose (`gdpr.W011`).
-/

namespace StapelGdpr

/-! ### What the installed libraries declare -/

/-- One library's own statement of what it erases. -/
structure OwnerDeclaration where
  name : String
  subjectTypes : List String := []
  seam : String := "register_gdpr_owner"
  source : String := ""
  /-- Labels that are routinely mistaken for the name. -/
  aliases : List String := []
  deriving DecidableEq

/-- `_merge`, into the entry that is there: subject types win over none, aliases accumulate. -/
def OwnerDeclaration.merge (existing declaration : OwnerDeclaration) : OwnerDeclaration where
  name := existing.name
  subjectTypes :=
    if existing.subjectTypes = [] then declaration.subjectTypes else existing.subjectTypes
  seam := existing.seam
  source := if existing.source = "" then declaration.source else existing.source
  aliases := fromKeys (existing.aliases ++ declaration.aliases)

/-- `_merge`: the dict keeps the order of the first sightings. -/
def mergeDeclaration (into : List OwnerDeclaration) (declaration : OwnerDeclaration) :
    List OwnerDeclaration :=
  if into.any (·.name = declaration.name) then
    into.map fun existing =>
      if existing.name = declaration.name then existing.merge declaration else existing
  else into ++ [declaration]

/-- `installed_owner_declarations`, of the sightings in order of authority. -/
def installedOwnerDeclarations (sightings : List OwnerDeclaration) : List OwnerDeclaration :=
  sightings.foldl mergeDeclaration []

/-- `nearest_declared_name`; `close` is `difflib.get_close_matches` for one match. -/
def nearestDeclaredName (close : String → List String → Option String)
    (declarations : List OwnerDeclaration) (name : String) : Option String :=
  let wanted := strip name
  if wanted = "" ∨ wanted ∈ declarations.map (·.name) then none
  else
    match declarations.find? (wanted ∈ ·.aliases) with
    | some declaration => some declaration.name
    | none => close wanted (declarations.map (·.name))

/-! ### The findings -/

/-- A host owner no library declares, and the declared name it is close to. -/
structure Misspelling where
  name : String
  nearest : String
  source : String
  deriving DecidableEq

/-- What `check_data_owner_names` reports. -/
inductive NameProblem
  /-- `gdpr.E009` -/
  | misspelled (found : List Misspelling)
  /-- `gdpr.E010` -/
  | absent (found : List OwnerDeclaration)
  /-- `gdpr.W011` -/
  | deliberate (found : List OwnerDeclaration)
  /-- `gdpr.W012`, by its texts. -/
  | unlisted (found : List String)
  deriving DecidableEq

namespace NameProblem

def id : NameProblem → String
  | misspelled _ => "gdpr.E009"
  | absent _ => "gdpr.E010"
  | deliberate _ => "gdpr.W011"
  | unlisted _ => "gdpr.W012"

/-- `"; ".join(texts)`. -/
def semicolonJoin (texts : List String) : String := String.intercalate "; " texts

/-- `described`. -/
def describe (declaration : OwnerDeclaration) : String :=
  "\"" ++ declaration.name ++ "\"" ++
    (if declaration.subjectTypes = [] then ""
      else " (claims " ++ commaJoin declaration.subjectTypes ++ ")") ++
    ", declared by " ++ declaration.source

/-- The message. -/
def text : NameProblem → String
  | misspelled found =>
      "STAPEL_GDPR[\"DATA_OWNERS\"] names data owners no installed library declares: " ++
        semicolonJoin (found.map fun m =>
          "\"" ++ m.name ++ "\" -> \"" ++ m.nearest ++ "\" (declared by " ++ m.source ++ ")") ++ "."
  | absent found =>
      "Installed libraries declare GDPR data owners that STAPEL_GDPR[\"DATA_OWNERS\"] does not " ++
        "list: " ++ semicolonJoin (found.map describe) ++ "."
  | deliberate found =>
      "STAPEL_GDPR[\"DATA_OWNERS_OPT_OUT\"] excludes installed data owners from every erasure: " ++
        semicolonJoin (found.map describe) ++ "."
  | unlisted found =>
      "Declared data owners can erase subject types this host does not ask them about: " ++
        semicolonJoin found ++ "."

/-- Does the finding report the declared name: as the one to write, as absent, as left out? -/
def reports (name : String) : NameProblem → Bool
  | misspelled found => found.any (·.nearest = name)
  | absent found | deliberate found => found.any (·.name = name)
  | unlisted _ => false

/-- Does the finding call the name wrong: misspelled, or absent? -/
def faults (name : String) : NameProblem → Bool
  | misspelled found => found.any (·.name = name)
  | absent found => found.any (·.name = name)
  | _ => false

end NameProblem

/-! ### The check -/

/-- The loop of `gdpr.E009`; `none` when a suggested name is not a key of the declarations. -/
def misspelledOwners (declarations : List OwnerDeclaration) (nearest : String → Option String) :
    List String → Option (List Misspelling)
  | [] => some []
  | name :: rest =>
      if name ∈ declarations.map (·.name) then misspelledOwners declarations nearest rest
      else
        match nearest name with
        | none => misspelledOwners declarations nearest rest
        | some suggested =>
            match declarations.find? (·.name = suggested) with
            | none => none
            | some declaration => (misspelledOwners declarations nearest rest).map
                (⟨name, suggested, declaration.source⟩ :: ·)

/-- `host_owners`: of two owners with one name the later. -/
def RegistryReport.hostOwner (report : RegistryReport) (name : String) : Option DataOwner :=
  report.owners.reverse.find? (·.name = name)

/-- The texts of `gdpr.W012`. -/
def unlistedSubjects (settings : Settings) (report : RegistryReport)
    (declarations : List OwnerDeclaration) : List String :=
  (fromKeys report.names).flatMap fun name =>
    match declarations.find? (·.name = name), report.hostOwner name with
    | some declaration, some owner => declaration.subjectTypes.filterMap fun claimed =>
        if claimed ∉ owner.subjects then
          some ("\"" ++ name ++ "\" claims '" ++ claimed ++
            "', which its DATA_OWNERS entry does not list")
        else if claimed ∉ declaredSubjectTypes settings then
          some ("\"" ++ name ++ "\" claims '" ++ claimed ++
            "', which is not in STAPEL_GDPR[\"SUBJECT_TYPES\"]")
        else none
    | _, _ => []

/-- `DATA_OWNERS_OPT_OUT`, read. -/
def optedOut (optOut : List String) : List String := (optOut.map strip).filter (· ≠ "")

/-- `sorted(declarations.items())`: the names are distinct. -/
def byName (declarations : List OwnerDeclaration) : List OwnerDeclaration :=
  declarations.insertionSort fun a b => a.name ≤ b.name

/-- The installed stores nobody asks. -/
def unasked (report : RegistryReport) (declarations : List OwnerDeclaration)
    (misspelled : List Misspelling) : List OwnerDeclaration :=
  (byName declarations).filter fun d =>
    d.name ∉ report.names ∧ d.name ∉ misspelled.map (·.nearest)

/-- `check_data_owner_names`; `none` when it raises `KeyError`. -/
def checkDataOwnerNames (settings : Settings) (sections optOut : List String)
    (declarations : List OwnerDeclaration) (nearest : String → Option String) :
    Option (List NameProblem) :=
  let report := dataOwnerReport settings sections
  if report.unconfigured = true ∨ declarations = [] then some []
  else do
    let misspelled ← misspelledOwners declarations nearest (fromKeys report.names)
    let unasked := unasked report declarations misspelled
    let absent := unasked.filter fun d => d.name ∉ optedOut optOut
    let deliberate := unasked.filter fun d => d.name ∈ optedOut optOut
    let unlisted := unlistedSubjects settings report declarations
    return (if misspelled = [] then [] else [.misspelled misspelled]) ++
      (if absent = [] then [] else [.absent absent]) ++
      (if deliberate = [] then [] else [.deliberate deliberate]) ++
      (if unlisted = [] then [] else [.unlisted unlisted])

/-! ### The declarations -/

variable {settings : Settings} {sections optOut : List String}
  {declarations : List OwnerDeclaration} {nearest : String → Option String}

/-- `nearest_declared_name` suggests declared names only, as `difflib` returns one of those it
was given. -/
theorem nearestDeclaredName_declared {close : String → List String → Option String}
    (hclose : ∀ name names found, close name names = some found → found ∈ names)
    {name suggested : String}
    (h : nearestDeclaredName close declarations name = some suggested) :
    suggested ∈ declarations.map (·.name) := by
  unfold nearestDeclaredName at h
  dsimp only at h
  split at h
  · exact absurd h (by simp)
  · split at h
    · rename_i declaration hfound
      obtain rfl := Option.some.inj h
      exact List.mem_map_of_mem (List.mem_of_find?_eq_some hfound)
    · exact hclose _ _ _ h

/-! ### The findings of one check -/

/-- With suggestions that are declared, the loop of `gdpr.E009` does not raise. -/
theorem misspelledOwners_some
    (hnear : ∀ name suggested, nearest name = some suggested →
      suggested ∈ declarations.map (·.name)) (names : List String) :
    ∃ found, misspelledOwners declarations nearest names = some found ∧
      ∀ m ∈ found, m.name ∉ declarations.map (·.name) := by
  induction names with
  | nil => exact ⟨[], rfl, by simp⟩
  | cons name rest ih =>
      obtain ⟨found, hfound, hnames⟩ := ih
      rw [misspelledOwners]
      by_cases hdeclared : name ∈ declarations.map (·.name)
      · rw [if_pos hdeclared]
        exact ⟨found, hfound, hnames⟩
      · rw [if_neg hdeclared]
        cases hnearest : nearest name with
        | none => exact ⟨found, hfound, hnames⟩
        | some suggested =>
            dsimp only
            cases hfind : declarations.find? (·.name = suggested) with
            | none =>
                obtain ⟨d, hd, hname⟩ := List.mem_map.mp (hnear name suggested hnearest)
                exact absurd (List.find?_eq_none.mp hfind d hd) (by simpa using hname)
            | some declaration =>
                rw [hfound]
                refine ⟨_, rfl, fun m hm => ?_⟩
                rcases List.mem_cons.mp hm with rfl | hm
                · exact hdeclared
                · exact hnames m hm

theorem mem_unasked {report : RegistryReport} {found : List Misspelling} {d : OwnerDeclaration} :
    d ∈ unasked report declarations found ↔
      d ∈ declarations ∧ d.name ∉ report.names ∧ d.name ∉ found.map (·.nearest) := by
  unfold unasked byName
  simp [List.mem_insertionSort]

/-- Of the stores nobody asks, those with a property of the name. -/
theorem any_unasked (report : RegistryReport) (found : List Misspelling) {d : OwnerDeclaration}
    {q : String → Bool} (hd : d ∈ declarations) :
    ((unasked report declarations found).filter fun e => q e.name).any (·.name = d.name) = true ↔
      d.name ∉ report.names ∧ d.name ∉ found.map (·.nearest) ∧ q d.name = true := by
  rw [List.any_eq_true]
  constructor
  · rintro ⟨e, he, hname⟩
    obtain ⟨hunasked, hq⟩ := List.mem_filter.mp he
    obtain ⟨-, hout, hnew⟩ := mem_unasked.mp hunasked
    have hname : e.name = d.name := by simpa using hname
    rw [hname] at hout hnew hq
    exact ⟨hout, hnew, hq⟩
  · rintro ⟨hout, hnew, hq⟩
    exact ⟨d, List.mem_filter.mpr ⟨mem_unasked.mpr ⟨hd, hout, hnew⟩, hq⟩, by simp⟩

/-- The check, with what its loop found. -/
theorem checkDataOwnerNames_eq
    (hconfigured : (dataOwnerReport settings sections).unconfigured = false)
    (hdeclared : declarations ≠ []) {found : List Misspelling}
    (hfound : misspelledOwners declarations nearest
      (fromKeys (dataOwnerReport settings sections).names) = some found) :
    checkDataOwnerNames settings sections optOut declarations nearest =
      let unasked := unasked (dataOwnerReport settings sections) declarations found
      let absent := unasked.filter fun d => d.name ∉ optedOut optOut
      let deliberate := unasked.filter fun d => d.name ∈ optedOut optOut
      let unlisted := unlistedSubjects settings (dataOwnerReport settings sections) declarations
      some ((if found = [] then [] else [.misspelled found]) ++
        (if absent = [] then [] else [.absent absent]) ++
        (if deliberate = [] then [] else [.deliberate deliberate]) ++
        (if unlisted = [] then [] else [.unlisted unlisted])) := by
  unfold checkDataOwnerNames
  rw [if_neg (by simp [hconfigured, hdeclared]), hfound]
  rfl

/-- The findings that report a declared name. -/
def reportedIn (name : String) (problems : List NameProblem) : List String :=
  (problems.filter (·.reports name)).map (·.id)

/-- A finding that is left out when it is empty reports what it has. -/
theorem filter_finding {α : Type} {finding : List α → NameProblem} {found : List α}
    {p : NameProblem → Bool} (hnone : p (finding []) = false) :
    (if found = [] then [] else [finding found]).filter p =
      if p (finding found) = true then [finding found] else [] := by
  cases found with
  | nil => simp [hnone]
  | cons a rest =>
      rw [if_neg (List.cons_ne_nil a rest)]
      cases hp : p (finding (a :: rest)) <;> simp [hp]

theorem mem_finding {α : Type} {finding : List α → NameProblem} {found : List α}
    {p : NameProblem} : p ∈ (if found = [] then [] else [finding found]) ↔
      found ≠ [] ∧ p = finding found := by
  by_cases h : found = [] <;> simp [h]

/-- **Every installed store is accounted for.** Whatever the near matches are, a declared name
that is not in the inventory is in exactly one of the three findings, no declared name of the
inventory is called absent or misspelled, and a check without errors leaves only names that are
in the inventory or opted out. -/
theorem names_complete (hconfigured : (dataOwnerReport settings sections).unconfigured = false)
    (hdeclared : declarations ≠ [])
    (hnear : ∀ name suggested, nearest name = some suggested →
      suggested ∈ declarations.map (·.name)) :
    ∃ problems, checkDataOwnerNames settings sections optOut declarations nearest =
        some problems ∧
      (∀ d ∈ declarations, d.name ∉ (dataOwnerReport settings sections).names →
        ∃ id ∈ ["gdpr.E009", "gdpr.E010", "gdpr.W011"], reportedIn d.name problems = [id]) ∧
      (∀ d ∈ declarations, d.name ∈ (dataOwnerReport settings sections).names →
        ∀ p ∈ problems, p.faults d.name = false) ∧
      ((∀ p ∈ problems, p.id ≠ "gdpr.E009" ∧ p.id ≠ "gdpr.E010") →
        ∀ d ∈ declarations, d.name ∈ (dataOwnerReport settings sections).names ∨
          d.name ∈ optedOut optOut) := by
  obtain ⟨found, hfound, hnames⟩ := misspelledOwners_some hnear
    (fromKeys (dataOwnerReport settings sections).names)
  refine ⟨_, checkDataOwnerNames_eq hconfigured hdeclared hfound, ?_, ?_, ?_⟩
  · intro d hd hout
    have hmisspelled : found.any (·.nearest = d.name) = true ↔ d.name ∈ found.map (·.nearest) := by
      simp
    have habsent := any_unasked (dataOwnerReport settings sections) found
      (q := fun name => name ∉ optedOut optOut) hd
    have hdeliberate := any_unasked (dataOwnerReport settings sections) found
      (q := fun name => name ∈ optedOut optOut) hd
    dsimp only [reportedIn]
    rw [List.filter_append, List.filter_append, List.filter_append, filter_finding rfl,
      filter_finding rfl, filter_finding rfl, filter_finding rfl]
    simp only [NameProblem.reports, hmisspelled, habsent, hdeliberate, hout]
    -- the three findings exclude one another
    by_cases hrenamed : d.name ∈ found.map (·.nearest)
    · refine ⟨"gdpr.E009", by simp, ?_⟩
      simp [hrenamed, NameProblem.id]
    · by_cases hopted : d.name ∈ optedOut optOut
      · refine ⟨"gdpr.W011", by simp, ?_⟩
        simp [hrenamed, hopted, NameProblem.id]
      · refine ⟨"gdpr.E010", by simp, ?_⟩
        simp [hrenamed, hopted, NameProblem.id]
  · intro d hd hin p hp
    have hasked : ∀ e ∈ unasked (dataOwnerReport settings sections) declarations found,
        e.name ≠ d.name := by
      intro e he hsame
      exact (mem_unasked.mp he).2.1 (hsame ▸ hin)
    have hspelled : ∀ m ∈ found, m.name ≠ d.name := by
      intro m hm hsame
      exact hnames m hm (hsame ▸ List.mem_map_of_mem hd)
    simp only [List.mem_append, mem_finding] at hp
    rcases hp with ((⟨-, rfl⟩ | ⟨-, rfl⟩) | ⟨-, rfl⟩) | ⟨-, rfl⟩
    · simpa [NameProblem.faults] using hspelled
    · simp only [NameProblem.faults, List.any_eq_false, List.mem_filter]
      intro e he
      simpa using hasked e he.1
    · rfl
    · rfl
  · intro hclean d hd
    by_contra hno
    obtain ⟨hout, hkept⟩ := not_or.mp hno
    by_cases hrenamed : d.name ∈ found.map (·.nearest)
    · have hfound : found ≠ [] := fun h => by simp [h] at hrenamed
      refine (hclean (.misspelled found) ?_).1 rfl
      simp only [List.mem_append, mem_finding]
      exact .inl (.inl (.inl ⟨hfound, trivial⟩))
    · have hunasked := mem_unasked.mpr ⟨hd, hout, hrenamed⟩
      have habsent : d ∈ (unasked (dataOwnerReport settings sections) declarations found).filter
          fun e => e.name ∉ optedOut optOut := List.mem_filter.mpr ⟨hunasked, by simpa using hkept⟩
      refine (hclean (.absent ((unasked (dataOwnerReport settings sections) declarations
        found).filter fun e => e.name ∉ optedOut optOut)) ?_).2 rfl
      simp only [List.mem_append, mem_finding]
      exact .inl (.inl (.inr ⟨List.ne_nil_of_mem habsent, trivial⟩))

/-- Two libraries: the `profiles` app owns `profile`, and one more store. -/
def fleetDeclarations : List OwnerDeclaration :=
  installedOwnerDeclarations [{ name := "profile", aliases := ["profiles"] }, { name := "video" }]

/-- A host that lists the app label of the first. -/
def fleet : Settings := { dataOwners := .list [.bare "profiles"] }

/-- No two names of the fleet are close. -/
def noneClose (_ : String) (_ : List String) : Option String := none

theorem names_complete_fleet : ∃ problems,
    checkDataOwnerNames fleet [] [] fleetDeclarations
      (nearestDeclaredName noneClose fleetDeclarations) = some problems ∧
    ∃ id ∈ ["gdpr.E009", "gdpr.E010", "gdpr.W011"], reportedIn "video" problems = [id] := by
  have hnear : ∀ name suggested, nearestDeclaredName noneClose fleetDeclarations name =
      some suggested → suggested ∈ fleetDeclarations.map (·.name) :=
    fun _ _ h => nearestDeclaredName_declared (fun _ _ _ h => absurd h (by simp [noneClose])) h
  have hconfigured : (dataOwnerReport fleet []).unconfigured = false := by decide +kernel
  obtain ⟨problems, hcheck, hreported, -⟩ :=
    names_complete hconfigured (by decide +kernel) hnear
  have hvideo : (⟨"video", [], "register_gdpr_owner", "", []⟩ : OwnerDeclaration) ∈
      fleetDeclarations := by decide +kernel
  exact ⟨problems, hcheck, hreported _ hvideo (by decide +kernel)⟩

end StapelGdpr
