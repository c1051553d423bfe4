import Mathlib.Data.List.Dedup
import StapelGdpr.Models

/-!
# StapelGdpr.Owners

The data-owner registry (`owners.py`): the declaration in `DATA_OWNERS`, resolved against
the providers that are actually registered.

`dataOwnerReport` is what every erasure is judged by. A declared local owner with no
provider is `missing`, a provider nobody declared is `undeclared`, an empty declaration
is `unconfigured`; each is a `problem`, and a registry with a problem certifies nothing.
-/

namespace StapelGdpr

/-- The subject an owner claims when it says nothing else. -/
def subjectAccount : String := "account"

/-- `subject_types()`: what an erasure may be requested for. -/
def declaredSubjectTypes (settings : Settings) : List String :=
  let declared := if settings.subjectTypes = [] then [subjectAccount] else settings.subjectTypes
  fromKeys ((declared.map strip).filter (· ≠ ""))

/-- One declared holder of personal data. -/
structure DataOwner where
  name : String
  kind : OwnerKind
  timeout : Delta
  subjects : List String := [subjectAccount]
  deriving DecidableEq, Repr

def DataOwner.isLocal (owner : DataOwner) : Bool := owner.kind = .local

def DataOwner.claims (owner : DataOwner) (subjectType : String) : Bool :=
  subjectType ∈ owner.subjects

/-- What the declaration says, measured against what is wired. -/
structure RegistryReport where
  version : String
  owners : List DataOwner := []
  missing : List String := []
  undeclared : List String := []
  unconfigured : Bool := false
  deriving DecidableEq, Repr

namespace RegistryReport

def names (report : RegistryReport) : List String := report.owners.map DataOwner.name

def owner (report : RegistryReport) (name : String) : Option DataOwner :=
  report.owners.find? (·.name = name)

/-- `owners_for`: declared owners that hold data about `subjectType`. -/
def ownersFor (report : RegistryReport) (subjectType : String) : List DataOwner :=
  report.owners.filter (·.claims subjectType)

/-- Every reason this registry cannot certify an erasure. -/
def problems (report : RegistryReport) : List String :=
  (if report.unconfigured then
    ["STAPEL_GDPR[\"DATA_OWNERS\"] is empty: no inventory of the stores holding personal " ++
      "data, so no erasure can be proven complete"]
   else []) ++
  (if report.missing = [] then [] else
    ["declared data owners are unreachable (no in-process provider registered): " ++
      commaJoin report.missing]) ++
  (if report.undeclared = [] then [] else
    ["GDPR providers are registered but absent from STAPEL_GDPR[\"DATA_OWNERS\"]: " ++
      commaJoin report.undeclared])

theorem problems_eq_nil {report : RegistryReport} :
    report.problems = [] ↔
      report.unconfigured = false ∧ report.missing = [] ∧ report.undeclared = [] := by
  unfold problems
  cases report.unconfigured <;> by_cases hm : report.missing = [] <;>
    by_cases hu : report.undeclared = [] <;> simp [hm, hu]

theorem mem_ownersFor {report : RegistryReport} {subjectType : String} {o : DataOwner} :
    o ∈ report.ownersFor subjectType ↔ o ∈ report.owners ∧ o.claims subjectType = true := by
  simp [ownersFor]

end RegistryReport

/-! ### Resolving the declaration -/

/-- `_normalize_subjects`. -/
def normalizeSubjects (raw : Option SubjectTypes) : List String :=
  match raw with
  | none => [subjectAccount]
  | some types =>
      let names := match types with
        | .one name => [name]
        | .many names => names
      let kept := fromKeys ((names.map strip).filter (· ≠ ""))
      if kept = [] then [subjectAccount] else kept

/-- The list of entries a configured `DATA_OWNERS` comes down to: a map's key is the
name of its spec, whatever the spec says. -/
def DataOwners.entries : DataOwners → List OwnerEntry
  | .map entries => entries.map fun q => match q.2 with
      | .dict spec => .dict { spec with name := some q.1 }
      | .subjects types => .dict { name := some q.1, subjectTypes := types }
  | .list entries => entries

/-- `spec = {"name": entry} if isinstance(entry, str) else dict(entry)`. -/
def OwnerEntry.spec : OwnerEntry → OwnerSpec
  | .bare name => { name := some name }
  | .dict spec => spec

/-- The loop over `DATA_OWNERS`. Entries are recognised as repeats by their stripped
name, and the spec is kept as it was written. -/
def declareOwners : List OwnerSpec → List String → List OwnerSpec × List String
  | [], seen => ([], seen)
  | spec :: rest, seen =>
      let name := strip (spec.name.getD "")
      if name = "" ∨ name ∈ seen then declareOwners rest seen
      else
        let (declared, seen') := declareOwners rest (seen ++ [name])
        (spec :: declared, seen')

/-- The loop over the legacy `REMOTE_DELETION_SERVICES`, by name as written. -/
def declareRemote : List String → List String → List OwnerSpec
  | [], _ => []
  | name :: rest, seen =>
      if name ∈ seen then declareRemote rest seen
      else { name := some name, kind := some "remote" } :: declareRemote rest (seen ++ [name])

/-- `_declarations`. -/
def declarations (settings : Settings) : List OwnerSpec :=
  let (declared, seen) := declareOwners (settings.dataOwners.entries.map OwnerEntry.spec) []
  declared ++ declareRemote settings.remoteDeletionServices seen

/-- `kind`, inferred from the registered sections when the spec does not say. -/
def OwnerSpec.resolveKind (spec : OwnerSpec) (registered : List String) : OwnerKind :=
  match spec.kind with
  | some "local" => .local
  | some "remote" => .remote
  | _ => if spec.name.getD "" ∈ registered then .local else .remote

/-- One spec as a `DataOwner`. -/
def OwnerSpec.resolve (spec : OwnerSpec) (registered : List String) (defaultTimeout : Delta) :
    DataOwner where
  name := spec.name.getD ""
  kind := spec.resolveKind registered
  timeout := match spec.timeoutHours with
    | some h => if h = 0 then defaultTimeout else hours h
    | none => defaultTimeout
  subjects := normalizeSubjects spec.subjectTypes

/-- `data_owner_report()`, for the sections registered in process. -/
def dataOwnerReport (settings : Settings) (sections : List String) : RegistryReport :=
  let defaultTimeout :=
    hours (if settings.ownerTimeoutHours = 0 then 24 else settings.ownerTimeoutHours)
  let owners := (declarations settings).map (·.resolve sections defaultTimeout)
  { version := settings.dataOwnersVersion
    owners := owners
    missing := (owners.filter fun o => o.isLocal && o.name ∉ sections).map DataOwner.name
    undeclared := sorted (sections.dedup.filter fun s => s ∉ owners.map DataOwner.name)
    unconfigured := owners = [] }

end StapelGdpr
