import StapelGdpr.Owners

/-!
# StapelGdpr.Registry

One inventory of data owners, written in many ways: `DATA_OWNERS` as a map, as a list of names or
of spec dicts, names in the legacy `REMOTE_DELETION_SERVICES`, with whitespace around a name and
with repetitions. The registry is the same for all of them exactly when no name is taken as it
was padded (`canonical_iff`): repeats are recognised by the stripped name, but what is kept is
the name as written, and the legacy list is compared as written too.
-/

namespace StapelGdpr

variable {settings : Settings} {sections names : List String} {spec : OwnerSpec}
  {specs : List OwnerSpec} {seen : List String}

/-! ### The declarations -/

/-- The name a spec is written with. -/
def OwnerSpec.written (spec : OwnerSpec) : String := spec.name.getD ""

/-- The specs of `DATA_OWNERS`. -/
def Settings.ownerSpecs (settings : Settings) : List OwnerSpec :=
  settings.dataOwners.entries.map OwnerEntry.spec

/-- The first spec of a name that is not blank. -/
def FirstOf (specs : List OwnerSpec) (spec : OwnerSpec) : Prop :=
  ∃ before after, specs = before ++ spec :: after ∧ strip spec.written ≠ "" ∧
    ∀ e ∈ before, strip e.written ≠ strip spec.written

theorem declareOwners_cons (first : OwnerSpec) (rest : List OwnerSpec) (seen : List String) :
    declareOwners (first :: rest) seen =
      if strip first.written = "" ∨ strip first.written ∈ seen then declareOwners rest seen
      else (first :: (declareOwners rest (seen ++ [strip first.written])).1,
        (declareOwners rest (seen ++ [strip first.written])).2) := by
  rw [declareOwners]
  rfl

/-- The loop over `DATA_OWNERS` keeps the first spec of each new name. -/
theorem mem_declareOwners : spec ∈ (declareOwners specs seen).1 ↔
    ∃ before after, specs = before ++ spec :: after ∧ strip spec.written ≠ "" ∧
      strip spec.written ∉ seen ∧ ∀ e ∈ before, strip e.written ≠ strip spec.written := by
  induction specs generalizing seen with
  | nil => simp [declareOwners]
  | cons first rest ih =>
      rw [declareOwners_cons]
      split
      · rename_i hskip
        rw [ih]
        constructor
        · rintro ⟨before, after, rfl, hne, hnew, hbefore⟩
          refine ⟨first :: before, after, rfl, hne, hnew, fun e he => ?_⟩
          rcases List.mem_cons.mp he with rfl | he
          · intro hsame
            rcases hskip with h | h
            · exact hne (hsame ▸ h)
            · exact hnew (hsame ▸ h)
          · exact hbefore e he
        · rintro ⟨before, after, hspecs, hne, hnew, hbefore⟩
          cases before with
          | nil =>
              obtain ⟨rfl, rfl⟩ := List.cons.inj hspecs
              exact absurd hskip (not_or.mpr ⟨hne, hnew⟩)
          | cons e before =>
              obtain ⟨rfl, rfl⟩ := List.cons.inj hspecs
              exact ⟨before, after, rfl, hne, hnew, fun e he =>
                hbefore e (List.mem_cons_of_mem _ he)⟩
      · rename_i hkeep
        obtain ⟨hblank, hnew₀⟩ := not_or.mp hkeep
        rw [List.mem_cons, ih]
        constructor
        · rintro (rfl | ⟨before, after, rfl, hne, hnew, hbefore⟩)
          · exact ⟨[], rest, rfl, hblank, hnew₀, by simp⟩
          · obtain ⟨hnew, hfirst⟩ := not_or.mp (mt List.mem_append.mpr hnew)
            refine ⟨first :: before, after, rfl, hne, hnew, fun e he => ?_⟩
            rcases List.mem_cons.mp he with rfl | he
            · exact fun hsame => hfirst (List.mem_singleton.mpr hsame.symm)
            · exact hbefore e he
        · rintro ⟨before, after, hspecs, hne, hnew, hbefore⟩
          cases before with
          | nil =>
              obtain ⟨rfl, rfl⟩ := List.cons.inj hspecs
              exact .inl rfl
          | cons e before =>
              obtain ⟨rfl, rfl⟩ := List.cons.inj hspecs
              refine .inr ⟨before, after, rfl, hne, ?_, fun e he =>
                hbefore e (List.mem_cons_of_mem _ he)⟩
              intro hin
              rcases List.mem_append.mp hin with hin | hin
              · exact hnew hin
              · exact hbefore first (List.mem_cons_self ..) (List.mem_singleton.mp hin).symm

/-- What it has seen. -/
theorem mem_seen {n : String} : n ∈ (declareOwners specs seen).2 ↔
    n ∈ seen ∨ n ≠ "" ∧ ∃ spec ∈ specs, strip spec.written = n := by
  induction specs generalizing seen with
  | nil => simp [declareOwners]
  | cons first rest ih =>
      rw [declareOwners_cons]
      split
      · rename_i hskip
        rw [ih]
        constructor
        · rintro (h | ⟨hne, spec, hspec, hname⟩)
          · exact .inl h
          · exact .inr ⟨hne, spec, List.mem_cons_of_mem _ hspec, hname⟩
        · rintro (h | ⟨hne, spec, hspec, hname⟩)
          · exact .inl h
          · rcases List.mem_cons.mp hspec with rfl | hspec
            · exact .inl (hname ▸ hskip.resolve_left (hname ▸ hne))
            · exact .inr ⟨hne, spec, hspec, hname⟩
      · rename_i hkeep
        obtain ⟨hblank, -⟩ := not_or.mp hkeep
        dsimp only
        rw [ih]
        simp only [List.mem_append, List.mem_cons, List.not_mem_nil, or_false]
        constructor
        · rintro ((h | rfl) | ⟨hne, spec, hspec, hname⟩)
          · exact .inl h
          · exact .inr ⟨hblank, first, .inl rfl, rfl⟩
          · exact .inr ⟨hne, spec, .inr hspec, hname⟩
        · rintro (h | ⟨hne, spec, rfl | hspec, hname⟩)
          · exact .inl (.inl h)
          · exact .inl (.inr hname.symm)
          · exact .inr ⟨hne, spec, hspec, hname⟩

/-- The loop over the legacy names keeps those that are new as written. -/
theorem mem_declareRemote {legacy : List String} : spec ∈ declareRemote legacy seen ↔
    ∃ name ∈ legacy, name ∉ seen ∧ spec = { name := some name, kind := some "remote" } := by
  induction legacy generalizing seen with
  | nil => simp [declareRemote]
  | cons first rest ih =>
      rw [declareRemote]
      split
      · rename_i hseen
        rw [ih]
        constructor
        · rintro ⟨name, hname, hnew, rfl⟩
          exact ⟨name, List.mem_cons_of_mem _ hname, hnew, rfl⟩
        · rintro ⟨name, hname, hnew, rfl⟩
          rcases List.mem_cons.mp hname with rfl | hname
          · exact absurd hseen hnew
          · exact ⟨name, hname, hnew, rfl⟩
      · rename_i hnew₀
        rw [List.mem_cons, ih]
        constructor
        · rintro (rfl | ⟨name, hname, hnew, rfl⟩)
          · exact ⟨first, List.mem_cons_self .., hnew₀, rfl⟩
          · exact ⟨name, List.mem_cons_of_mem _ hname,
              fun h => hnew (List.mem_append_left _ h), rfl⟩
        · rintro ⟨name, hname, hnew, rfl⟩
          by_cases hsame : name = first
          · exact .inl (by rw [hsame])
          · have hrest := (List.mem_cons.mp hname).resolve_left hsame
            refine .inr ⟨name, hrest, ?_, rfl⟩
            simp [hnew, hsame]

/-- What the loops keep has distinct names: stripped in the first, as written in the second. -/
theorem declareOwners_nodup : ((declareOwners specs seen).1.map (strip ·.written)).Nodup := by
  induction specs generalizing seen with
  | nil => exact List.nodup_nil
  | cons first rest ih =>
      rw [declareOwners_cons]
      split
      · exact ih
      · refine List.nodup_cons.mpr ⟨?_, ih⟩
        intro hin
        obtain ⟨spec, hspec, hname⟩ := List.mem_map.mp hin
        obtain ⟨_, _, -, -, hnew, -⟩ := mem_declareOwners.mp hspec
        exact hnew (List.mem_append_right _ (List.mem_singleton.mpr hname))

theorem declareRemote_nodup {legacy : List String} :
    ((declareRemote legacy seen).map (·.written)).Nodup := by
  induction legacy generalizing seen with
  | nil => exact List.nodup_nil
  | cons first rest ih =>
      rw [declareRemote]
      split
      · exact ih
      · refine List.nodup_cons.mpr ⟨?_, ih⟩
        intro hin
        obtain ⟨spec, hspec, hname⟩ := List.mem_map.mp hin
        obtain ⟨name, -, hnew, rfl⟩ := mem_declareRemote.mp hspec
        exact hnew (List.mem_append_right _ (List.mem_singleton.mpr hname))

/-! ### One inventory, written in many ways -/

/-- Distinct, trimmed, non-empty owner names. -/
structure Inventory (names : List String) : Prop where
  distinct : names.Nodup
  trimmed : ∀ n ∈ names, strip n = n
  nonempty : ∀ n ∈ names, n ≠ ""

/-- The settings write the inventory: every entry is one of its names, with whitespace around it
or not, claims the account and says no more, a legacy entry is not registered here, and every
name is written somewhere. -/
structure Writes (settings : Settings) (sections names : List String) : Prop where
  entries : ∀ spec ∈ settings.ownerSpecs, strip spec.written ∈ names ∧ spec.kind = none ∧
    spec.timeoutHours = none ∧ normalizeSubjects spec.subjectTypes = [subjectAccount]
  legacy : ∀ n ∈ settings.remoteDeletionServices, strip n ∈ names ∧ strip n ∉ sections
  complete : ∀ n ∈ names, (∃ spec ∈ settings.ownerSpecs, strip spec.written = n) ∨
    ∃ w ∈ settings.remoteDeletionServices, strip w = n

/-- The inventory as a plain list of names. -/
def Settings.plain (settings : Settings) (names : List String) : Settings :=
  { settings with dataOwners := .list (names.map .bare), remoteDeletionServices := [] }

/-- The same owners, missing and undeclared names and problems, and no owner name twice. -/
structure SameRegistry (a b : RegistryReport) : Prop where
  owners : ∀ o, o ∈ a.owners ↔ o ∈ b.owners
  missing : ∀ n, n ∈ a.missing ↔ n ∈ b.missing
  undeclared : ∀ n, n ∈ a.undeclared ↔ n ∈ b.undeclared
  problems : a.problems = b.problems
  distinct : a.names.Nodup

/-- No name is taken padded: not the first writing of a name in `DATA_OWNERS`, and no entry of
the legacy list. -/
structure Unpadded (settings : Settings) : Prop where
  entries : ∀ spec, FirstOf settings.ownerSpecs spec → strip spec.written = spec.written
  legacy : ∀ n ∈ settings.remoteDeletionServices, strip n = n

/-! ### The report of an inventory -/

/-- The owner an entry comes to. -/
def defaultOwner (settings : Settings) (sections : List String) (name : String) : DataOwner where
  name := name
  kind := if name ∈ sections then .local else .remote
  timeout := hours (if settings.ownerTimeoutHours = 0 then 24 else settings.ownerTimeoutHours)

theorem declarations_eq : declarations settings = (declareOwners settings.ownerSpecs []).1 ++
    declareRemote settings.remoteDeletionServices (declareOwners settings.ownerSpecs []).2 := rfl

/-- The declarations: the first specs, and the legacy names nobody has written before. -/
theorem mem_declarations : spec ∈ declarations settings ↔
    FirstOf settings.ownerSpecs spec ∨ ∃ name ∈ settings.remoteDeletionServices,
      (∀ e ∈ settings.ownerSpecs, strip e.written = name → name = "") ∧
        spec = { name := some name, kind := some "remote" } := by
  have hfirst : spec ∈ (declareOwners settings.ownerSpecs []).1 ↔
      FirstOf settings.ownerSpecs spec := by
    rw [mem_declareOwners, FirstOf]
    simp
  have hseen : ∀ name, name ∉ (declareOwners settings.ownerSpecs []).2 ↔
      ∀ e ∈ settings.ownerSpecs, strip e.written = name → name = "" := by
    intro name
    rw [mem_seen]
    constructor
    · intro h e he hname
      by_contra hne
      exact h (.inr ⟨hne, e, he, hname⟩)
    · rintro h (hnil | ⟨hne, e, he, hname⟩)
      · exact absurd hnil List.not_mem_nil
      · exact hne (h e he hname)
  rw [declarations_eq, List.mem_append, mem_declareRemote, hfirst]
  refine or_congr_right (exists_congr fun name => ?_)
  rw [hseen]

/-- A name that is written has a first spec. -/
theorem exists_first {n : String} (hne : n ≠ "") (h : ∃ spec ∈ specs, strip spec.written = n) :
    ∃ spec, FirstOf specs spec ∧ strip spec.written = n := by
  induction specs with
  | nil => exact absurd h (by simp)
  | cons first rest ih =>
      by_cases hfirst : strip first.written = n
      · exact ⟨first, ⟨[], rest, rfl, hfirst ▸ hne, by simp⟩, hfirst⟩
      · obtain ⟨spec, hspec, hname⟩ := h
        have hrest := (List.mem_cons.mp hspec).resolve_left fun hsame => hfirst (hsame ▸ hname)
        obtain ⟨spec', ⟨before, after, rfl, hblank, hbefore⟩, hname'⟩ := ih ⟨spec, hrest, hname⟩
        refine ⟨spec', ⟨first :: before, after, rfl, hblank, fun e he => ?_⟩, hname'⟩
        rcases List.mem_cons.mp he with rfl | he
        · rw [hname']
          exact hfirst
        · exact hbefore e he

theorem FirstOf.mem (h : FirstOf specs spec) : spec ∈ specs := by
  obtain ⟨before, after, rfl, -⟩ := h
  simp

/-- The names the declarations are written with. -/
theorem report_names : (dataOwnerReport settings sections).names =
    (declarations settings).map (·.written) := by
  unfold RegistryReport.names dataOwnerReport
  simp only [List.map_map]
  rfl

/-- What a registry that takes no name padded reports of an inventory. -/
structure Resolved (settings : Settings) (sections names : List String) (report : RegistryReport) :
    Prop where
  owners : ∀ o, o ∈ report.owners ↔ ∃ n ∈ names, o = defaultOwner settings sections n
  missing : report.missing = []
  undeclared : report.undeclared = sorted (sections.dedup.filter (· ∉ names))
  unconfigured : report.unconfigured = decide (names = [])
  distinct : report.names.Nodup

/-- An entry of an inventory comes to the default owner of its name. -/
theorem resolve_written (h : Writes settings sections names) (hunpadded : Unpadded settings)
    (hspec : spec ∈ declarations settings) :
    spec.written ∈ names ∧ strip spec.written = spec.written ∧
      spec.resolve sections
        (hours (if settings.ownerTimeoutHours = 0 then 24 else settings.ownerTimeoutHours)) =
        defaultOwner settings sections spec.written := by
  rcases mem_declarations.mp hspec with hfirst | ⟨name, hname, -, rfl⟩
  · obtain ⟨hin, hkind, htimeout, hsubjects⟩ := h.entries spec hfirst.mem
    have htrimmed := hunpadded.entries spec hfirst
    refine ⟨htrimmed ▸ hin, htrimmed, ?_⟩
    unfold OwnerSpec.resolve OwnerSpec.resolveKind defaultOwner
    rw [hkind, htimeout, hsubjects]
    rfl
  · have htrimmed := hunpadded.legacy name hname
    obtain ⟨hin, hout⟩ := h.legacy name hname
    rw [htrimmed] at hin hout
    refine ⟨hin, htrimmed, ?_⟩
    unfold OwnerSpec.resolve OwnerSpec.resolveKind defaultOwner OwnerSpec.written
    simp [hout, normalizeSubjects]

/-- Every name of the inventory is declared. -/
theorem exists_declaration (hinventory : Inventory names) (h : Writes settings sections names)
    (hunpadded : Unpadded settings) {n : String} (hn : n ∈ names) :
    ∃ spec ∈ declarations settings, spec.written = n := by
  have hne := hinventory.nonempty n hn
  by_cases hwritten : ∃ spec ∈ settings.ownerSpecs, strip spec.written = n
  · obtain ⟨spec, hfirst, hname⟩ := exists_first hne hwritten
    refine ⟨spec, mem_declarations.mpr (.inl hfirst), ?_⟩
    rw [← hunpadded.entries spec hfirst, hname]
  · obtain ⟨w, hw, hname⟩ := (h.complete n hn).resolve_left hwritten
    have hsame : w = n := by rw [← hunpadded.legacy w hw, hname]
    subst hsame
    refine ⟨_, mem_declarations.mpr (.inr ⟨w, hw, fun e he hwrite => ?_, rfl⟩), rfl⟩
    exact absurd ⟨e, he, hwrite⟩ hwritten

theorem declarations_nodup (h : Unpadded settings) :
    ((declarations settings).map (·.written)).Nodup := by
  rw [declarations_eq, List.map_append]
  have hstripped : (declareOwners settings.ownerSpecs []).1.map (·.written) =
      (declareOwners settings.ownerSpecs []).1.map (strip ·.written) := by
    refine List.map_congr_left fun spec hspec => ?_
    obtain ⟨before, after, hspecs, hne, -, hbefore⟩ := mem_declareOwners.mp hspec
    exact (h.entries spec ⟨before, after, hspecs, hne, hbefore⟩).symm
  rw [hstripped]
  refine List.nodup_append.mpr ⟨declareOwners_nodup, declareRemote_nodup, ?_⟩
  rintro a ha b hb rfl
  obtain ⟨spec, hspec, rfl⟩ := List.mem_map.mp ha
  obtain ⟨legacy, hlegacy, hname⟩ := List.mem_map.mp hb
  obtain ⟨name, -, hnew, rfl⟩ := mem_declareRemote.mp hlegacy
  obtain ⟨before, after, hspecs, hne, -, -⟩ := mem_declareOwners.mp hspec
  refine hnew (mem_seen.mpr (.inr ⟨?_, spec, by rw [hspecs]; simp, hname.symm⟩))
  intro hblank
  exact hne (hname.symm.trans hblank)

/-- **A registry without padding.** -/
theorem resolved (hinventory : Inventory names) (h : Writes settings sections names)
    (hunpadded : Unpadded settings) :
    Resolved settings sections names (dataOwnerReport settings sections) := by
  have howners : ∀ o, o ∈ (dataOwnerReport settings sections).owners ↔
      ∃ n ∈ names, o = defaultOwner settings sections n := by
    intro o
    constructor
    · intro ho
      obtain ⟨spec, hspec, rfl⟩ := List.mem_map.mp ho
      obtain ⟨hin, -, hresolve⟩ := resolve_written h hunpadded hspec
      exact ⟨spec.written, hin, hresolve⟩
    · rintro ⟨n, hn, rfl⟩
      obtain ⟨spec, hspec, rfl⟩ := exists_declaration hinventory h hunpadded hn
      exact List.mem_map.mpr ⟨spec, hspec, (resolve_written h hunpadded hspec).2.2⟩
  have hnames : ∀ n, n ∈ (dataOwnerReport settings sections).owners.map (·.name) ↔ n ∈ names := by
    intro n
    rw [List.mem_map]
    constructor
    · rintro ⟨o, ho, rfl⟩
      obtain ⟨n, hn, rfl⟩ := (howners o).mp ho
      exact hn
    · exact fun hn => ⟨_, (howners _).mpr ⟨n, hn, rfl⟩, rfl⟩
  constructor
  · exact howners
  · -- a default owner is local only when it is registered
    change (((dataOwnerReport settings sections).owners.filter _).map _) = []
    rw [List.map_eq_nil_iff, List.filter_eq_nil_iff]
    intro o ho
    obtain ⟨n, -, rfl⟩ := (howners o).mp ho
    by_cases hregistered : n ∈ sections <;>
      simp [defaultOwner, DataOwner.isLocal, hregistered]
  · change sorted (sections.dedup.filter fun s =>
      s ∉ (dataOwnerReport settings sections).owners.map DataOwner.name) = _
    congr 1
    refine List.filter_congr fun s _ => ?_
    have hs := hnames s
    simp only [decide_eq_decide]
    exact not_congr hs
  · change decide ((dataOwnerReport settings sections).owners = []) = _
    have hempty : (dataOwnerReport settings sections).owners = [] ↔ names = [] := by
      constructor
      · intro hnone
        refine List.eq_nil_iff_forall_not_mem.mpr fun n hn => ?_
        have hn := (hnames n).mpr hn
        rw [hnone] at hn
        exact List.not_mem_nil hn
      · intro hnone
        refine List.eq_nil_iff_forall_not_mem.mpr fun o ho => ?_
        obtain ⟨n, hn, -⟩ := (howners o).mp ho
        rw [hnone] at hn
        exact List.not_mem_nil hn
    exact decide_eq_decide.mpr hempty
  · rw [report_names]
    exact declarations_nodup hunpadded

theorem plain_specs : (settings.plain names).ownerSpecs =
    names.map fun n => { name := some n } := by
  unfold Settings.ownerSpecs Settings.plain DataOwners.entries
  simp only [List.map_map]
  rfl

/-- The plain list is one of the ways. -/
theorem plain_writes (hinventory : Inventory names) :
    Writes (settings.plain names) sections names := by
  constructor
  · intro spec hspec
    rw [plain_specs] at hspec
    obtain ⟨n, hn, rfl⟩ := List.mem_map.mp hspec
    refine ⟨?_, rfl, rfl, rfl⟩
    show strip n ∈ names
    rw [hinventory.trimmed n hn]
    exact hn
  · intro n hn
    exact absurd hn List.not_mem_nil
  · intro n hn
    refine .inl ⟨{ name := some n }, ?_, hinventory.trimmed n hn⟩
    rw [plain_specs]
    exact List.mem_map_of_mem hn

/-- It takes no name padded. -/
theorem plain_unpadded (hinventory : Inventory names) : Unpadded (settings.plain names) := by
  constructor
  · intro spec hspec
    have hmem := hspec.mem
    rw [plain_specs] at hmem
    obtain ⟨n, hn, rfl⟩ := List.mem_map.mp hmem
    exact hinventory.trimmed n hn
  · intro n hn
    exact absurd hn List.not_mem_nil

/-- **One inventory, one registry.** However an inventory is written, the registry is that of the
plain list of its names if and only if no name is taken padded. -/
theorem canonical_iff (hinventory : Inventory names) (h : Writes settings sections names) :
    SameRegistry (dataOwnerReport settings sections)
        (dataOwnerReport (settings.plain names) sections) ↔ Unpadded settings := by
  have hcanonical : Resolved (settings.plain names) sections names _ :=
    resolved hinventory (plain_writes hinventory) (plain_unpadded hinventory)
  constructor
  · intro hsame
    have htrimmed : ∀ spec ∈ declarations settings, strip spec.written = spec.written := by
      intro spec hspec
      obtain ⟨n, hn, howner⟩ := (hcanonical.owners _).mp
        ((hsame.owners _).mp (List.mem_map_of_mem hspec))
      have hname : spec.written = n := congrArg DataOwner.name howner
      rw [hname]
      exact hinventory.trimmed n hn
    constructor
    · exact fun spec hfirst => htrimmed spec (mem_declarations.mpr (.inl hfirst))
    · intro w hw
      by_cases hwritten : ∃ e ∈ settings.ownerSpecs, strip e.written = w
      · -- a name that was seen is one of the inventory's
        obtain ⟨e, he, rfl⟩ := hwritten
        exact hinventory.trimmed _ (h.entries e he).1
      · have hnew : ∀ e ∈ settings.ownerSpecs, strip e.written = w → w = "" :=
          fun e he hname => absurd ⟨e, he, hname⟩ hwritten
        have hdeclared : { name := some w, kind := some "remote" } ∈ declarations settings :=
          mem_declarations.mpr (.inr ⟨w, hw, hnew, rfl⟩)
        simpa only [OwnerSpec.written, Option.getD_some] using htrimmed _ hdeclared
  · intro hunpadded
    have hreport := resolved hinventory h hunpadded
    have hmissing := hreport.missing.trans hcanonical.missing.symm
    have hundeclared := hreport.undeclared.trans hcanonical.undeclared.symm
    have hunconfigured := hreport.unconfigured.trans hcanonical.unconfigured.symm
    constructor
    · exact fun o => (hreport.owners o).trans (hcanonical.owners o).symm
    · exact fun n => by rw [hmissing]
    · exact fun n => by rw [hundeclared]
    · unfold RegistryReport.problems
      rw [hmissing, hundeclared, hunconfigured]
    · exact hreport.distinct

/-- Two names, one of them repeated with a blank. -/
def repeatedly : Settings where
  dataOwners := .map [("auth", .subjects (some (.one "account"))),
    ("auth ", .subjects (some (.one "account")))]
  remoteDeletionServices := ["media"]

theorem canonical_iff_repeatedly :
    SameRegistry (dataOwnerReport repeatedly ["auth"])
      (dataOwnerReport (repeatedly.plain ["auth", "media"]) ["auth"]) := by
  have hinventory : Inventory ["auth", "media"] :=
    ⟨by decide, by decide +kernel, by decide⟩
  have hwrites : Writes repeatedly ["auth"] ["auth", "media"] :=
    ⟨by decide +kernel, by decide +kernel, by decide +kernel⟩
  refine (canonical_iff hinventory hwrites).mpr ⟨?_, by decide +kernel⟩
  rintro spec ⟨before, after, hspecs, -, hbefore⟩
  cases before with
  | nil =>
      obtain ⟨rfl, -⟩ := List.cons.inj hspecs
      decide +kernel
  | cons first before =>
      obtain ⟨rfl, hrest⟩ := List.cons.inj hspecs
      -- the second writing is not the first
      cases before with
      | nil =>
          obtain ⟨rfl, -⟩ := List.cons.inj hrest
          exact absurd (by decide +kernel) (hbefore _ (List.mem_singleton_self _))
      | cons second before =>
          obtain ⟨-, hrest⟩ := List.cons.inj hrest
          exact absurd hrest (by simp)

/-- A map whose only key is written with a blank: the owner is taken as it is written, and the
provider of that name is nobody's. -/
theorem padded_name : ¬ ∀ (settings : Settings) (sections names : List String),
    Inventory names → Writes settings sections names →
    SameRegistry (dataOwnerReport settings sections)
      (dataOwnerReport (settings.plain names) sections) := by
  intro hclaim
  have hsame := hclaim { dataOwners := .map [(" auth", .subjects (some (.one "account")))] }
    ["auth"] ["auth"] ⟨by decide, by decide +kernel, by decide⟩
    ⟨by decide +kernel, by decide +kernel, by decide +kernel⟩
  exact absurd ((hsame.undeclared "auth").mp (by decide +kernel)) (by decide +kernel)

end StapelGdpr
