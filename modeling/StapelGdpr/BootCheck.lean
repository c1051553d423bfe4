import StapelGdpr.Concurrent

/-!
# StapelGdpr.BootCheck

The boot check of the erasure side (`check_data_owner_registry` of `checks.py`): the inventory,
the open escape hatches, the storage prefix, the identity strategy and the session revoker, as
`manage.py check` sees them in one process.

Its findings are forecasts. A process whose check has a finding about the inventory and no open
hatch certifies nothing, and one that reports a missing revocation seam opens no closure, in
whatever storm it takes part: `boot_check_foretells` says which processes can have written what
the store holds at the end.
-/

namespace StapelGdpr

open Prog

variable {db start : Db}

/-! ### The findings -/

/-- What the check finds around it: the surroundings of the calls of this process, the storage
prefix, and what resolving the dotted paths of the settings comes to. -/
structure Boot extends Env where
  exportBucketPrefix : String := "gdpr/{correlation_id}/"
  /-- The text of the `ImportError` of `import_string`, where it raises one. -/
  importError : String → Option String := fun _ => none
  /-- The text of what `_resolve_revoker` raises, where it raises. -/
  revokerError : Option String := none

/-- The switches of `_HATCHES`. -/
inductive Hatch
  | erasureWithoutReceipts
  | closureWithoutSessionRevocation
  deriving DecidableEq, Repr

namespace Hatch

def setting : Hatch → String
  | erasureWithoutReceipts => "ALLOW_ERASURE_WITHOUT_RECEIPTS"
  | closureWithoutSessionRevocation => "ALLOW_CLOSURE_WITHOUT_SESSION_REVOCATION"

def consequence : Hatch → String
  | erasureWithoutReceipts =>
      "closures can be marked DELETED without a receipt from every declared data owner — an " ++
        "erasure this deployment cannot prove happened"
  | closureWithoutSessionRevocation =>
      "account closure proceeds without revoking sessions — every access token minted before " ++
        "the closure keeps working until it expires"

def isOn (settings : Settings) : Hatch → Bool
  | erasureWithoutReceipts => settings.allowErasureWithoutReceipts
  | closureWithoutSessionRevocation => settings.allowClosureWithoutSessionRevocation

end Hatch

/-- `_HATCHES`. -/
def hatches : List Hatch := [.erasureWithoutReceipts, .closureWithoutSessionRevocation]

/-- What `check_data_owner_registry` reports. -/
inductive RegistryFinding
  | unconfigured
  | missing (owners : List String)
  | undeclared (sections : List String)
  | unversioned
  | hatch (open' : Hatch)
  | openPrefix
  | identity (error : String)
  | revoker (error : String)
  | unrevoked
  deriving DecidableEq, Repr

namespace RegistryFinding

def id : RegistryFinding → String
  | unconfigured => "gdpr.E001"
  | missing _ | undeclared _ | revoker _ => "gdpr.E002"
  | unversioned | hatch _ => "gdpr.W003"
  | openPrefix => "gdpr.W007"
  | identity _ => "gdpr.E006"
  | unrevoked => "gdpr.W005"

/-- `Error`, or `CheckWarning`: with an error the command fails. -/
def isError : RegistryFinding → Bool
  | unconfigured | missing _ | undeclared _ | identity _ | revoker _ => true
  | unversioned | hatch _ | openPrefix | unrevoked => false

/-- The message. -/
def text : RegistryFinding → String
  | unconfigured =>
      "STAPEL_GDPR[\"DATA_OWNERS\"] is empty: this deployment has no inventory of the stores " ++
        "holding personal data."
  | missing owners =>
      "Declared GDPR data owners have no registered provider: " ++ commaJoin owners ++ "."
  | undeclared sections =>
      "GDPR providers are registered but missing from STAPEL_GDPR[\"DATA_OWNERS\"]: " ++
        commaJoin sections ++ "."
  | unversioned =>
      "STAPEL_GDPR[\"DATA_OWNERS_VERSION\"] is unset, so closures cannot record which " ++
        "inventory certified them."
  | hatch h => "STAPEL_GDPR[\"" ++ h.setting ++ "\"] is on: " ++ h.consequence ++ "."
  | openPrefix =>
      "STAPEL_GDPR[\"EXPORT_BUCKET_PREFIX\"] is empty: a peer service may name any key in the " ++
        "storage bucket as its export part, and those bytes are copied into an archive the " ++
        "requesting user downloads."
  | identity error =>
      "STAPEL_GDPR[\"PRIMARY_IDENTITY_ERASURE\"] is neither \"anonymize\"/\"delete\" nor an " ++
        "importable erase(user) callable: " ++ error
  | revoker error => "STAPEL_GDPR[\"SESSION_REVOKER\"] cannot be imported: " ++ error
  | unrevoked =>
      "No session-revocation seam resolves, so every account closure will fail with " ++
        "SessionRevocationUnavailable."

/-- Does the finding say that the inventory and the providers do not agree? -/
def faultsRegistry : RegistryFinding → Bool
  | unconfigured | missing _ | undeclared _ => true
  | _ => false

end RegistryFinding

namespace Boot

/-- The inventory against what is registered. -/
def inventoryFindings (boot : Boot) : List RegistryFinding :=
  if boot.report.unconfigured then [.unconfigured]
  else
    (if boot.report.missing = [] then [] else [.missing boot.report.missing]) ++
    (if boot.report.undeclared = [] then [] else [.undeclared boot.report.undeclared]) ++
    (if boot.report.version = "" then [.unversioned] else [])

/-- The strategy of `erase_identity`: a known one, or importable. -/
def identityFindings (boot : Boot) : List RegistryFinding :=
  let strategy := boot.identityErasure.strategy
  if strategy = "anonymize" ∨ strategy = "delete" then []
  else ((boot.importError strategy).map .identity).toList

/-- `_resolve_revoker` raises, or finds nothing where something is needed. -/
def revokerFindings (boot : Boot) : List RegistryFinding :=
  match boot.revokerError with
  | some error => [.revoker error]
  | none => if boot.refusesClosure then [.unrevoked] else []

/-- `check_data_owner_registry`. -/
def checkDataOwnerRegistry (boot : Boot) : List RegistryFinding :=
  boot.inventoryFindings ++
  (hatches.filter (·.isOn boot.settings)).map .hatch ++
  (if boot.exportBucketPrefix = "" then [.openPrefix] else []) ++
  boot.identityFindings ++
  boot.revokerFindings

/-! ### What each finding is about -/

variable {boot : Boot} {f : RegistryFinding}

theorem mem_inventoryFindings :
    f ∈ boot.inventoryFindings ↔
      (boot.report.unconfigured = true ∧ f = .unconfigured) ∨
      (boot.report.unconfigured = false ∧
        ((boot.report.missing ≠ [] ∧ f = .missing boot.report.missing) ∨
          (boot.report.undeclared ≠ [] ∧ f = .undeclared boot.report.undeclared) ∨
          (boot.report.version = "" ∧ f = .unversioned))) := by
  unfold inventoryFindings
  by_cases hu : boot.report.unconfigured = true <;> by_cases hm : boot.report.missing = [] <;>
    by_cases hd : boot.report.undeclared = [] <;> by_cases hv : boot.report.version = "" <;>
    simp [hu, hm, hd, hv]

theorem mem_identityFindings (h : f ∈ boot.identityFindings) : ∃ error, f = .identity error := by
  unfold identityFindings at h
  dsimp only at h
  split at h
  · exact absurd h List.not_mem_nil
  · obtain ⟨error, -, rfl⟩ := Option.map_eq_some_iff.mp (Option.mem_toList.mp h)
    exact ⟨error, rfl⟩

theorem mem_revokerFindings (h : f ∈ boot.revokerFindings) :
    (∃ error, f = .revoker error) ∨ f = .unrevoked := by
  unfold revokerFindings at h
  split at h
  · exact .inl ⟨_, List.mem_singleton.mp h⟩
  · split at h
    · exact .inr (List.mem_singleton.mp h)
    · exact absurd h List.not_mem_nil

theorem mem_check :
    f ∈ boot.checkDataOwnerRegistry ↔
      f ∈ boot.inventoryFindings ∨ (∃ h ∈ hatches, h.isOn boot.settings = true ∧ .hatch h = f) ∨
      (boot.exportBucketPrefix = "" ∧ f = .openPrefix) ∨ f ∈ boot.identityFindings ∨
      f ∈ boot.revokerFindings := by
  unfold checkDataOwnerRegistry
  by_cases hp : boot.exportBucketPrefix = "" <;> simp [hp, and_assoc]

/-- **The inventory findings are exact**: one stands exactly when the registry has a problem. -/
theorem faultsRegistry_iff :
    (∃ f ∈ boot.checkDataOwnerRegistry, f.faultsRegistry = true) ↔ boot.report.problems ≠ [] := by
  rw [Ne, RegistryReport.problems_eq_nil]
  constructor
  · rintro ⟨f, hf, hfaults⟩ ⟨hu, hm, hd⟩
    rcases mem_check.mp hf with h | ⟨h, -, -, rfl⟩ | ⟨-, rfl⟩ | h | h
    · rcases mem_inventoryFindings.mp h with ⟨hu', -⟩ | ⟨-, ⟨hm', -⟩ | ⟨hd', -⟩ | ⟨-, rfl⟩⟩
      · exact absurd (hu.symm.trans hu') (by simp)
      · exact hm' hm
      · exact hd' hd
      · exact absurd hfaults (by simp [RegistryFinding.faultsRegistry])
    · exact absurd hfaults (by simp [RegistryFinding.faultsRegistry])
    · exact absurd hfaults (by simp [RegistryFinding.faultsRegistry])
    · obtain ⟨error, rfl⟩ := mem_identityFindings h
      exact absurd hfaults (by simp [RegistryFinding.faultsRegistry])
    · obtain ⟨error, rfl⟩ | rfl := mem_revokerFindings h <;>
        exact absurd hfaults (by simp [RegistryFinding.faultsRegistry])
  · intro hproblem
    by_cases hu : boot.report.unconfigured = true
    · exact ⟨.unconfigured, mem_check.mpr (.inl (mem_inventoryFindings.mpr (.inl ⟨hu, rfl⟩))), rfl⟩
    · have hu' : boot.report.unconfigured = false := by simpa using hu
      by_cases hm : boot.report.missing = []
      · have hd : boot.report.undeclared ≠ [] := fun hd => hproblem ⟨hu', hm, hd⟩
        exact ⟨.undeclared _, mem_check.mpr (.inl (mem_inventoryFindings.mpr
          (.inr ⟨hu', .inr (.inl ⟨hd, rfl⟩)⟩))), rfl⟩
      · exact ⟨.missing _, mem_check.mpr (.inl (mem_inventoryFindings.mpr
          (.inr ⟨hu', .inl ⟨hm, rfl⟩⟩))), rfl⟩

/-- An open hatch is reported, and only an open one. -/
theorem hatch_iff {h : Hatch} :
    .hatch h ∈ boot.checkDataOwnerRegistry ↔ h.isOn boot.settings = true := by
  have hall : h ∈ hatches := by cases h <;> simp [hatches]
  rw [mem_check]
  constructor
  · rintro (hf | ⟨h', -, hon, heq⟩ | ⟨-, hf⟩ | hf | hf)
    · exact absurd (mem_inventoryFindings.mp hf) (by simp)
    · exact RegistryFinding.hatch.inj heq ▸ hon
    · exact absurd hf (by simp)
    · exact absurd (mem_identityFindings hf) (by simp)
    · exact absurd (mem_revokerFindings hf) (by simp)
  · exact fun hon => .inr (.inl ⟨h, hall, hon, rfl⟩)

/-- The missing seam is reported exactly where closures are refused for it. -/
theorem unrevoked_iff :
    .unrevoked ∈ boot.checkDataOwnerRegistry ↔
      boot.revokerError = none ∧ boot.refusesClosure := by
  rw [mem_check]
  constructor
  · rintro (hf | ⟨h', -, -, heq⟩ | ⟨-, hf⟩ | hf | hf)
    · exact absurd (mem_inventoryFindings.mp hf) (by simp)
    · exact absurd heq (by simp)
    · exact absurd hf (by simp)
    · exact absurd (mem_identityFindings hf) (by simp)
    · unfold revokerFindings at hf
      split at hf
      · exact absurd (List.mem_singleton.mp hf) (by simp)
      · rename_i hnone
        split at hf
        · exact ⟨hnone, ‹_›⟩
        · exact absurd hf List.not_mem_nil
  · rintro ⟨hnone, hrefuses⟩
    refine .inr (.inr (.inr (.inr ?_)))
    simp [revokerFindings, hnone, hrefuses]

/-- Does the check of this process allow a certificate, with a waiver or without one? -/
structure Allows (boot : Boot) (waived : Bool) : Prop where
  registry : waived = false → ∀ f ∈ boot.checkDataOwnerRegistry, f.faultsRegistry = false
  hatch : waived = true → .hatch .erasureWithoutReceipts ∈ boot.checkDataOwnerRegistry

theorem allows_iff {waived : Bool} : boot.Allows waived ↔ boot.MayCertify waived := by
  have hregistry : (∀ f ∈ boot.checkDataOwnerRegistry, f.faultsRegistry = false) ↔
      boot.report.problems = [] := by
    have h := not_congr (@faultsRegistry_iff boot)
    simpa using h
  constructor
  · intro h
    exact ⟨fun hw => hregistry.mp (h.registry hw), fun hw => hatch_iff.mp (h.hatch hw)⟩
  · intro h
    exact ⟨fun hw => hregistry.mpr (h.sound hw), fun hw => hatch_iff.mpr (h.hatch hw)⟩

end Boot

/-! ### What the findings foretell -/

section Pool

variable {κ : Type} {processes : κ → Boot × Job} {tr : List (Pool.Event κ Op Db)}
  {P : Pool Op Db Error Unit κ}

/-- Every process at its job, under its own settings. -/
def running (processes : κ → Boot × Job) (k : κ) : Env × Job :=
  ((processes k).1.toEnv, (processes k).2)

variable [DecidableEq κ]

/-- A request that is DELETED was so before, or a process certified it that was allowed to. -/
theorem certificates_foretold (hread : ∀ k, (processes k).2.Read start)
    (hrun : Pool.Runs (fun _ _ => True) (concurrently (running processes)) start tr P db) {pk : Nat}
    {r : ErasureRequest} (hr : db.requests.get? pk = some r) (hdel : r.state = .deleted) :
    (∃ r₀, start.requests.get? pk = some r₀ ∧ r₀.state = .deleted) ∨
      ∃ k, (processes k).1.Allows r.completenessWaived := by
  have hchain := hrun.chain (I := fun db => ∀ pk r, db.requests.get? pk = some r →
    r.state = .deleted → (∃ r₀, start.requests.get? pk = some r₀ ∧ r₀.state = .deleted) ∨
      ∃ k, (processes k).1.Allows r.completenessWaived) ?_ fun pk r hr hdel => .inl ⟨r, hr, hdel⟩
  · exact hchain.1 pk r hr hdel
  intro e he ih pk r' hr' hdel
  rcases (concurrently_act hread hrun e he).requests.row hr' with ⟨r, hr, hact⟩ | ⟨-, hnew⟩
  · cases hact with
    | same => exact ih pk r' hr hdel
    | certified hclosure hcomplete hhatch =>
        exact .inr ⟨e.thread, Boot.allows_iff.mpr ⟨fun hw => (hcomplete hw).1, hhatch⟩⟩
    | timedOut => exact absurd hdel (by simp [ErasureRequest.timeOut])
  · obtain ⟨args, st, sk, by', id, rfl⟩ := hnew.row
    exact absurd hdel (by simp [ErasureArgs.row])

/-- The same of closures. -/
theorem deletions_foretold (hread : ∀ k, (processes k).2.Read start)
    (hrun : Pool.Runs (fun _ _ => True) (concurrently (running processes)) start tr P db) {pk : Nat}
    {c : AccountClosureRequest} (hc : db.closures.get? pk = some c) (hdel : c.status = .deleted) :
    (∃ c₀, start.closures.get? pk = some c₀ ∧ c₀.status = .deleted) ∨
      ∃ k, (processes k).1.Allows c.completenessWaived := by
  have hchain := hrun.chain (I := fun db => ∀ pk c, db.closures.get? pk = some c →
    c.status = .deleted → (∃ c₀, start.closures.get? pk = some c₀ ∧ c₀.status = .deleted) ∨
      ∃ k, (processes k).1.Allows c.completenessWaived) ?_ fun pk c hc hdel => .inl ⟨c, hc, hdel⟩
  · exact hchain.1 pk c hc hdel
  intro e he ih pk c' hc' hdel
  rcases (concurrently_act hread hrun e he).closures.row hc' with ⟨c, hc, hact⟩ | ⟨-, -, -, hnew⟩
  · cases hact with
    | same => exact ih pk c' hc hdel
    | cancelled => exact absurd hdel (by simp [AccountClosureRequest.cancel])
    | started => exact absurd hdel (by simp [AccountClosureRequest.startDeleting])
    | identityErased => exact ih pk c hc hdel
    | localDone => exact ih pk c hc hdel
    | deleted now waived hlocal hidentity hmay =>
        exact .inr ⟨e.thread, Boot.allows_iff.mpr hmay⟩
  · obtain ⟨userId, trigger, rfl⟩ := hnew
    exact absurd hdel (by simp [newClosure])

/-- A closure that was not there was opened by a process with a revocation seam. -/
theorem closures_foretold (hread : ∀ k, (processes k).2.Read start)
    (hrun : Pool.Runs (fun _ _ => True) (concurrently (running processes)) start tr P db) {pk : Nat}
    {c : AccountClosureRequest} (hc : db.closures.get? pk = some c)
    (hnew : start.closures.get? pk = none) :
    ∃ k, .unrevoked ∉ (processes k).1.checkDataOwnerRegistry := by
  have hchain := hrun.chain (I := fun db => ∀ pk c, db.closures.get? pk = some c →
    start.closures.get? pk = none → ∃ k, .unrevoked ∉ (processes k).1.checkDataOwnerRegistry) ?_
    fun pk c hc hnew => absurd (hnew.symm.trans hc) (by simp)
  · exact hchain.1 pk c hc hnew
  intro e he ih pk c' hc' hnew
  rcases (concurrently_act hread hrun e he).closures.row hc' with ⟨c, hc, -⟩ | ⟨-, -, hallowed, -⟩
  · exact ih pk c hc hnew
  · exact ⟨e.thread, fun hf => hallowed (Boot.unrevoked_iff.mp hf).2⟩

/-- **The boot check foretells what a deployment can do.** However processes with settings of
their own interleave, fail and die: whatever request or closure became DELETED, with a waiver or
without one, there is a process whose check allows exactly that, without a finding about the
inventory or with the open hatch; and whatever closure was opened, there is a process that does
not report the missing revocation seam. -/
theorem boot_check_foretells (hread : ∀ k, (processes k).2.Read start)
    (hrun : Pool.Runs (fun _ _ => True) (concurrently (running processes)) start tr P db) :
    (∀ pk r, db.requests.get? pk = some r → r.state = .deleted →
      (∃ r₀, start.requests.get? pk = some r₀ ∧ r₀.state = .deleted) ∨
        ∃ k, (processes k).1.Allows r.completenessWaived) ∧
    (∀ pk c, db.closures.get? pk = some c → c.status = .deleted →
      (∃ c₀, start.closures.get? pk = some c₀ ∧ c₀.status = .deleted) ∨
        ∃ k, (processes k).1.Allows c.completenessWaived) ∧
    ∀ pk c, db.closures.get? pk = some c → start.closures.get? pk = none →
      ∃ k, .unrevoked ∉ (processes k).1.checkDataOwnerRegistry :=
  ⟨fun _ _ hr hdel => certificates_foretold hread hrun hr hdel,
    fun _ _ hc hdel => deletions_foretold hread hrun hc hdel,
    fun _ _ hc hnew => closures_foretold hread hrun hc hnew⟩

end Pool

/-- The storm of the sample certifies, so one of its processes has a sound inventory. -/
theorem boot_check_foretells_stormed : ∃ worker : Bool,
    Boot.Allows { toEnv := (erasers worker).1 } false := by
  have hrun := Pool.runs_schedule (fun _ _ => True)
    (List.replicate 7 true ++ List.replicate 4 false ++ List.replicate 15 true)
    (concurrently (running fun worker => ({ toEnv := (erasers worker).1 }, (erasers worker).2)))
    closing
  have hrow : (stormed.requests.get? 0).map (fun r => (r.state, r.completenessWaived)) =
      some (.deleted, false) := by decide +kernel
  obtain ⟨r, hr, hmarks⟩ := Option.map_eq_some_iff.mp hrow
  obtain ⟨hdel, hwaived⟩ := Prod.mk.inj hmarks
  have hnone : closing.requests.get? 0 = none := by decide +kernel
  obtain ⟨r₀, hr₀, -⟩ | hallows := (boot_check_foretells (fun k => by cases k <;> trivial) hrun).1
    0 r hr hdel
  · exact absurd (hnone.symm.trans hr₀) (by simp)
  · rwa [hwaived] at hallows

end StapelGdpr
