import StapelGdpr.Run
import StapelGdpr.Lib.Keyed
import Mathlib.Data.List.Induction

/-!
# StapelGdpr.Liveness

Owner liveness: the probe every declared owner is asked to answer, the answers
(`orchestrator.py`, `actions.py`), and the two readers of the table they fill, the boot check
`gdpr.W006` (`checks.py`) and the staff view (`views.py`).

The table keeps the last answer only. `liveness_exact` says that this is enough: over every
history of probes and answers, under registries that change in between, both readers tell
exactly which declared owners have answered within the window.
-/

namespace StapelGdpr

/-! ### The table -/

/-- `DataOwnerHealth`, one row for each owner. -/
structure DataOwnerHealth where
  owner : String
  lastAliveAt : Option Time := none
  lastProbeAt : Option Time := none
  declaredSubjectTypes : List String := []
  answeredSubjectTypes : List String := []
  deriving DecidableEq, Repr

/-- The table, and the probes in the outbox. -/
structure HealthDb where
  health : KeyedTable DataOwnerHealth.owner := .empty
  probes : List Uuid := []

def HealthDb.row (db : HealthDb) (owner : String) : Option DataOwnerHealth := db.health.get? owner

/-- `DataOwnerHealth.objects.update_or_create(owner=owner, defaults=...)`. -/
def HealthDb.updateOrCreate (db : HealthDb) (owner : String)
    (w : KeyedTable.Write DataOwnerHealth.owner) : HealthDb :=
  { db with
    health := db.health.updateOrCreate (fun name => { owner := name }) (fun _ => rfl) w owner }

@[simp] theorem HealthDb.row_updateOrCreate (db : HealthDb) (owner : String)
    (w : KeyedTable.Write DataOwnerHealth.owner) (name : String) :
    (db.updateOrCreate owner w).row name =
      if name = owner then some (w.apply ((db.row owner).getD { owner := owner }))
      else db.row name :=
  KeyedTable.get?_updateOrCreate _ _ _ _ _ _

/-! ### Probes and answers -/

/-- What `probe_data_owners` writes of one owner. -/
def probeWrite (now : Time) (owner : DataOwner) : KeyedTable.Write DataOwnerHealth.owner where
  apply row := { row with lastProbeAt := some now, declaredSubjectTypes := owner.subjects }
  kept _ := rfl

/-- `probe_data_owners`, in its unit. -/
def probeDataOwners (env : Env) (correlationId : Uuid) (db : HealthDb) : HealthDb :=
  let asked := env.report.owners.foldl
    (fun db owner => db.updateOrCreate owner.name (probeWrite env.now owner)) db
  { asked with probes := asked.probes ++ [correlationId] }

/-- What `record_owner_alive` writes; the declared subjects only of an owner that is declared. -/
def aliveWrite (now : Time) (subjectTypes : List String) (declared : Option DataOwner) :
    KeyedTable.Write DataOwnerHealth.owner where
  apply row := { row with
    lastAliveAt := some now
    answeredSubjectTypes := subjectTypes
    declaredSubjectTypes := (declared.map (·.subjects)).getD row.declaredSubjectTypes }
  kept _ := rfl

/-- `record_owner_alive`. -/
def recordOwnerAlive (env : Env) (owner : String) (subjectTypes : List String) (db : HealthDb) :
    HealthDb :=
  db.updateOrCreate owner (aliveWrite env.now subjectTypes (env.report.owner owner))

/-- An event of `gdpr.owner.alive`. -/
structure OwnerAlive where
  owner : String
  /-- The envelope's `event.service`. -/
  emitter : String := ""
  subjectTypes : List String := []
  deriving DecidableEq, Repr

def OwnerAlive.ownerName (event : OwnerAlive) : String :=
  if event.owner = "" then event.emitter else event.owner

/-- `handle_owner_alive`: an event without an owner is logged and dropped. -/
def handleOwnerAlive (env : Env) (event : OwnerAlive) (db : HealthDb) : HealthDb :=
  if event.ownerName = "" then db
  else recordOwnerAlive env event.ownerName event.subjectTypes db

/-! ### The readers -/

/-- What a check or a view finds around it. -/
structure Monitor where
  env : Env
  ownerAliveMaxAgeHours : ℚ := 48
  /-- `datetime.isoformat` and `str(timedelta)`. -/
  isoformat : Time → String := fun t => s!"{t}"
  deltaText : Delta → String := fun d => s!"{d}"

/-- `timedelta(hours=float(OWNER_ALIVE_MAX_AGE_HOURS or 48))`. -/
def Monitor.maxAge (m : Monitor) : Delta :=
  hours (if m.ownerAliveMaxAgeHours = 0 then 48 else m.ownerAliveMaxAgeHours)

def Monitor.cutoff (m : Monitor) : Time := m.env.now - m.maxAge

/-- A database alias as a check finds it: the router keeps the model elsewhere, the query
raises, or the rows are there. -/
inductive Alias (σ : Type)
  | foreign
  | unreachable
  | holds (rows : σ)

/-- `_db_query`: the first alias that answers; nothing when none was opted in or none does. -/
def dbQuery {σ β : Type} (databases : List (Alias σ)) (query : σ → β) : Option β :=
  databases.findSome? fun
    | .holds rows => some (query rows)
    | _ => none

/-- One declared owner, as the check sorts it: it never answered, or its last answer is too
old. -/
def quietStep (m : Monitor) (db : HealthDb) (quiet : List String × List (String × Time))
    (owner : DataOwner) : List String × List (String × Time) :=
  match (db.row owner.name).bind (·.lastAliveAt) with
  | none => (quiet.1 ++ [owner.name], quiet.2)
  | some at' => if at' < m.cutoff then (quiet.1, quiet.2 ++ [(owner.name, at')]) else quiet

/-- The loop of the check: `never` and `silent`. -/
def quietOwners (m : Monitor) (db : HealthDb) : List String × List (String × Time) :=
  m.env.report.owners.foldl (quietStep m db) ([], [])

/-- A finding of the check framework. -/
structure CheckWarning where
  id : String
  text : String
  deriving DecidableEq, Repr

/-- The text of `gdpr.W006`. -/
def livenessText (m : Monitor) (never : List String) (silent : List (String × Time)) : String :=
  "Declared GDPR data owners have not answered gdpr.owner.probe in the last " ++
    s!"{m.deltaText m.maxAge}: " ++
    commaJoin (sorted never ++
      sorted (silent.map fun q => s!"{q.1} (last alive {m.isoformat q.2})")) ++ "."

/-- `check_data_owner_liveness`. -/
def checkDataOwnerLiveness (m : Monitor) (databases : List (Alias HealthDb)) : List CheckWarning :=
  if m.env.report.unconfigured then []
  else match dbQuery databases id with
    | none => []
    | some rows =>
        let (never, silent) := quietOwners m rows
        if never = [] ∧ silent = [] then []
        else [⟨"gdpr.W006", livenessText m never silent⟩]

/-- One row of the staff view. -/
structure DataOwnerHealthDto where
  owner : String
  alive : Bool
  lastAliveAt : Option Time
  lastProbeAt : Option Time
  declaredSubjectTypes : List String
  answeredSubjectTypes : List String
  deriving DecidableEq, Repr

/-- `DataOwnerHealthView.get`. -/
def dataOwnerHealth (m : Monitor) (db : HealthDb) : List DataOwnerHealthDto :=
  m.env.report.owners.map fun owner =>
    let row := db.row owner.name
    let lastAlive := row.bind (·.lastAliveAt)
    { owner := owner.name
      alive := lastAlive.any (m.cutoff ≤ ·)
      lastAliveAt := lastAlive
      lastProbeAt := row.bind (·.lastProbeAt)
      declaredSubjectTypes := owner.subjects
      answeredSubjectTypes := (row.map (·.answeredSubjectTypes)).getD [] }

/-! ### Histories -/

/-- What happens to the table, under the registry and clock of its moment. -/
inductive HealthEvent
  | probe (env : Env) (correlationId : Uuid)
  | alive (env : Env) (event : OwnerAlive)

def HealthEvent.env : HealthEvent → Env
  | probe env _ | alive env _ => env

def HealthEvent.step (db : HealthDb) : HealthEvent → HealthDb
  | probe env correlationId => probeDataOwners env correlationId db
  | alive env event => handleOwnerAlive env event db

/-- The table after a history. -/
def watched (history : List HealthEvent) : HealthDb := history.foldl HealthEvent.step {}

/-- The event is an answer of this owner: when it was given, and for which subjects. -/
def HealthEvent.answer (owner : String) : HealthEvent → Option (Time × List String)
  | alive env event =>
      if event.ownerName = owner ∧ owner ≠ "" then some (env.now, event.subjectTypes) else none
  | probe .. => none

/-- The last answer of an owner in a history. -/
def lastAnswer (history : List HealthEvent) (owner : String) : Option (Time × List String) :=
  history.reverse.findSome? (·.answer owner)

theorem lastAnswer_snoc (history : List HealthEvent) (e : HealthEvent) (owner : String) :
    lastAnswer (history ++ [e]) owner = (e.answer owner).or (lastAnswer history owner) := by
  rw [lastAnswer, List.reverse_append, List.reverse_singleton, List.singleton_append,
    List.findSome?_cons]
  cases e.answer owner <;> rfl

theorem answer_alive (env : Env) (event : OwnerAlive) (owner : String) :
    (HealthEvent.alive env event).answer owner =
      if event.ownerName = owner ∧ owner ≠ "" then some (env.now, event.subjectTypes)
      else none :=
  rfl

/-- What the table says of the answers of an owner. -/
def HealthDb.told (db : HealthDb) (owner : String) : Option Time × List String :=
  match db.row owner with
  | none => (none, [])
  | some row => (row.lastAliveAt, row.answeredSubjectTypes)

theorem HealthDb.told_updateOrCreate (db : HealthDb) (owner : String)
    (w : KeyedTable.Write DataOwnerHealth.owner) (name : String) :
    (db.updateOrCreate owner w).told name =
      if name = owner then
        ((w.apply ((db.row owner).getD { owner := owner })).lastAliveAt,
          (w.apply ((db.row owner).getD { owner := owner })).answeredSubjectTypes)
      else db.told name := by
  unfold told
  rw [row_updateOrCreate]
  by_cases hname : name = owner
  · rw [if_pos hname, if_pos hname]
  · rw [if_neg hname, if_neg hname]

theorem HealthDb.lastAlive_told (db : HealthDb) (owner : String) :
    (db.row owner).bind (·.lastAliveAt) = (db.told owner).1 := by
  unfold told
  cases db.row owner <;> rfl

theorem HealthDb.answered_told (db : HealthDb) (owner : String) :
    ((db.row owner).map (·.answeredSubjectTypes)).getD [] = (db.told owner).2 := by
  unfold told
  cases db.row owner <;> rfl

/-- A probe is no answer. -/
theorem told_probeDataOwners {env : Env} {id : Uuid} {db : HealthDb} (name : String) :
    (probeDataOwners env id db).told name = db.told name := by
  have hfold : ∀ (owners : List DataOwner) (db : HealthDb),
      (owners.foldl (fun db owner => db.updateOrCreate owner.name (probeWrite env.now owner))
        db).told name = db.told name := by
    intro owners
    induction owners with
    | nil => intro db; rfl
    | cons owner rest ih =>
        intro db
        rw [List.foldl_cons, ih, HealthDb.told_updateOrCreate]
        by_cases hname : name = owner.name
        · subst hname
          rw [if_pos rfl, HealthDb.told]
          cases db.row owner.name <;> rfl
        · rw [if_neg hname]
  exact hfold _ db

/-- An answer as the table keeps it. -/
def keptAnswer : Option (Time × List String) → Option Time × List String
  | none => (none, [])
  | some (at', subjectTypes) => (some at', subjectTypes)

theorem told_handleOwnerAlive {env : Env} {event : OwnerAlive} {db : HealthDb} {name : String}
    {last : Option (Time × List String)} (h : db.told name = keptAnswer last) :
    (handleOwnerAlive env event db).told name =
      keptAnswer (((HealthEvent.alive env event).answer name).or last) := by
  rw [answer_alive]
  unfold handleOwnerAlive
  by_cases hempty : event.ownerName = ""
  · have hno : ¬ (event.ownerName = name ∧ name ≠ "") := fun h => h.2 (h.1 ▸ hempty)
    rw [if_pos hempty, if_neg hno, Option.none_or, h]
  · rw [if_neg hempty, recordOwnerAlive, HealthDb.told_updateOrCreate]
    by_cases hname : name = event.ownerName
    · subst hname
      rw [if_pos rfl, if_pos ⟨rfl, hempty⟩]
      rfl
    · rw [if_neg hname, if_neg fun h => hname h.1.symm, Option.none_or, h]

/-- The table keeps the last answer of every owner, whatever was declared when it came. -/
theorem told_watched (history : List HealthEvent) (name : String) :
    (watched history).told name = keptAnswer (lastAnswer history name) := by
  induction history using List.reverseRecOn with
  | nil => rfl
  | append_singleton history e ih =>
      rw [lastAnswer_snoc, watched, List.foldl_append, List.foldl_cons, List.foldl_nil, ← watched]
      cases e with
      | probe env id =>
          rw [HealthEvent.step, told_probeDataOwners, ih]
          rfl
      | alive env event => rw [HealthEvent.step, told_handleOwnerAlive ih]

theorem lastAlive_watched (history : List HealthEvent) (name : String) :
    ((watched history).row name).bind (·.lastAliveAt) = (lastAnswer history name).map Prod.fst := by
  rw [HealthDb.lastAlive_told, told_watched]
  cases lastAnswer history name <;> rfl

/-- The owner answered a probe, or volunteered, at or after this moment. -/
def AnsweredSince (history : List HealthEvent) (owner : String) (since : Time) : Prop :=
  ∃ e ∈ history, (e.answer owner).isSome ∧ since ≤ e.env.now

theorem answer_now {e : HealthEvent} {owner : String} {a : Time × List String}
    (h : e.answer owner = some a) : a.1 = e.env.now := by
  cases e with
  | probe env id => exact absurd h nofun
  | alive env event =>
      rw [answer_alive] at h
      split at h
      · rw [← Option.some.inj h]
        rfl
      · exact absurd h nofun

/-- Under a clock that never goes back, the last answer is in the window when some answer is. -/
theorem lastAnswer_window {history : List HealthEvent}
    (hclock : history.Pairwise fun e e' => e.env.now ≤ e'.env.now) (owner : String)
    (since : Time) : ((lastAnswer history owner).map Prod.fst).any (since ≤ ·) = true ↔
      AnsweredSince history owner since := by
  induction history using List.reverseRecOn with
  | nil => simp [lastAnswer, AnsweredSince]
  | append_singleton history e ih =>
      obtain ⟨hbefore, -, hlast⟩ := List.pairwise_append.mp hclock
      rw [lastAnswer_snoc]
      cases he : e.answer owner with
      | some a =>
          rw [Option.some_or, Option.map_some, Option.any_some, decide_eq_true_eq, answer_now he]
          constructor
          · intro hin
            exact ⟨e, by simp, by rw [he]; rfl, hin⟩
          · intro h
            obtain ⟨e', hmem, -, hin⟩ := h
            rcases List.mem_append.mp hmem with hold | hsame
            · exact hin.trans (hlast e' hold e List.mem_cons_self)
            · rw [List.mem_singleton.mp hsame] at hin
              exact hin
      | none =>
          rw [Option.none_or, ih hbefore]
          constructor
          · intro h
            obtain ⟨e', hmem, h⟩ := h
            exact ⟨e', List.mem_append_left _ hmem, h⟩
          · intro h
            obtain ⟨e', hmem, hsome, hin⟩ := h
            rcases List.mem_append.mp hmem with hold | hsame
            · exact ⟨e', hold, hsome, hin⟩
            · rw [List.mem_singleton.mp hsame, he] at hsome
              exact absurd hsome nofun

/-! ### What the readers say -/

/-- What the loop of the check has collected. -/
theorem quietOwners_fold {m : Monitor} {db : HealthDb} (owners : List DataOwner)
    (quiet : List String × List (String × Time)) :
    owners.foldl (quietStep m db) quiet =
      (quiet.1 ++ (owners.filter fun o => ((db.row o.name).bind (·.lastAliveAt)).isNone).map
          (·.name),
        quiet.2 ++ owners.filterMap fun o =>
          ((db.row o.name).bind (·.lastAliveAt)).bind fun at' =>
            if at' < m.cutoff then some (o.name, at') else none) := by
  induction owners generalizing quiet with
  | nil => simp
  | cons o rest ih =>
      rw [List.foldl_cons, ih, quietStep]
      cases hlast : (db.row o.name).bind (·.lastAliveAt) with
      | none => simp [hlast]
      | some at' =>
          by_cases hold : at' < m.cutoff <;> simp [hlast, hold]

theorem mem_never {m : Monitor} {history : List HealthEvent} {name : String} :
    name ∈ (quietOwners m (watched history)).1 ↔
      name ∈ m.env.report.names ∧ lastAnswer history name = none := by
  rw [quietOwners, quietOwners_fold, List.nil_append, RegistryReport.names, List.mem_map,
    List.mem_map]
  constructor
  · intro h
    obtain ⟨o, hmem, rfl⟩ := h
    obtain ⟨hin, hnone⟩ := List.mem_filter.mp hmem
    rw [lastAlive_watched, Option.isNone_map, Option.isNone_iff_eq_none] at hnone
    exact ⟨⟨o, hin, rfl⟩, hnone⟩
  · intro h
    obtain ⟨⟨o, hin, rfl⟩, hnone⟩ := h
    refine ⟨o, List.mem_filter.mpr ⟨hin, ?_⟩, rfl⟩
    rw [lastAlive_watched, hnone]
    rfl

theorem mem_silent {m : Monitor} {history : List HealthEvent} {name : String} {at' : Time} :
    (name, at') ∈ (quietOwners m (watched history)).2 ↔
      name ∈ m.env.report.names ∧ (lastAnswer history name).map Prod.fst = some at' ∧
        at' < m.cutoff := by
  rw [quietOwners, quietOwners_fold, RegistryReport.names, List.mem_map]
  show (name, at') ∈ List.filterMap _ _ ↔ _
  rw [List.mem_filterMap]
  constructor
  · intro h
    obtain ⟨o, hin, hq⟩ := h
    rw [lastAlive_watched] at hq
    obtain ⟨t, ht, hq⟩ := Option.bind_eq_some_iff.mp hq
    split at hq
    · rename_i hold
      cases hq
      exact ⟨⟨o, hin, rfl⟩, ht, hold⟩
    · exact absurd hq nofun
  · intro h
    obtain ⟨⟨o, hin, rfl⟩, ht, hold⟩ := h
    refine ⟨o, hin, ?_⟩
    rw [lastAlive_watched, ht, Option.bind_some, if_pos hold]

/-- No owner is named when every declared one is alive in the view. -/
theorem quiet_iff {m : Monitor} {history : List HealthEvent} :
    (quietOwners m (watched history)).1 = [] ∧ (quietOwners m (watched history)).2 = [] ↔
      ∀ name ∈ m.env.report.names,
        ((lastAnswer history name).map Prod.fst).any (m.cutoff ≤ ·) = true := by
  rw [List.eq_nil_iff_forall_not_mem, List.eq_nil_iff_forall_not_mem]
  constructor
  · intro h name hname
    obtain ⟨hnever, hsilent⟩ := h
    cases hlast : lastAnswer history name with
    | none => exact absurd (mem_never.mpr ⟨hname, hlast⟩) (hnever name)
    | some a =>
        have hin := hsilent (name, a.1)
        rw [mem_silent, hlast] at hin
        simpa [hname] using hin
  · intro h
    constructor
    · intro name hmem
      obtain ⟨hname, hnone⟩ := mem_never.mp hmem
      simpa [hnone] using h name hname
    · intro q hmem
      obtain ⟨hname, hlast, hold⟩ := mem_silent.mp hmem
      have hin := h q.1 hname
      rw [hlast, Option.any_some, decide_eq_true_eq] at hin
      exact absurd hold (not_lt.mpr hin)

theorem unconfigured_iff (env : Env) :
    env.report.unconfigured = true ↔ env.report.owners = [] := by
  show decide (_ = []) = true ↔ _
  rw [decide_eq_true_eq]
  rfl

/-- The view calls an owner alive when its last answer is in the window. -/
theorem mem_dataOwnerHealth {m : Monitor} {history : List HealthEvent} {dto : DataOwnerHealthDto}
    (h : dto ∈ dataOwnerHealth m (watched history)) :
    dto.owner ∈ m.env.report.names ∧
      dto.alive = ((lastAnswer history dto.owner).map Prod.fst).any (m.cutoff ≤ ·) ∧
      dto.lastAliveAt = (lastAnswer history dto.owner).map Prod.fst ∧
      dto.answeredSubjectTypes = ((lastAnswer history dto.owner).map Prod.snd).getD [] := by
  obtain ⟨o, ho, rfl⟩ := List.mem_map.mp h
  refine ⟨List.mem_map_of_mem ho, ?_, lastAlive_watched history o.name, ?_⟩
  · show Option.any _ (((watched history).row o.name).bind (·.lastAliveAt)) = _
    rw [lastAlive_watched]
  · show (((watched history).row o.name).map (·.answeredSubjectTypes)).getD [] = _
    rw [HealthDb.answered_told, told_watched]
    cases lastAnswer history o.name <;> rfl

/-- The check is silent exactly when every declared owner is alive in the view. -/
theorem checkDataOwnerLiveness_nil {m : Monitor} {history : List HealthEvent}
    {databases : List (Alias HealthDb)} (hholds : dbQuery databases id = some (watched history)) :
    checkDataOwnerLiveness m databases = [] ↔
      ∀ dto ∈ dataOwnerHealth m (watched history), dto.alive = true := by
  have halive : (∀ dto ∈ dataOwnerHealth m (watched history), dto.alive = true) ↔
      ∀ name ∈ m.env.report.names,
        ((lastAnswer history name).map Prod.fst).any (m.cutoff ≤ ·) = true := by
    constructor
    · intro h name hname
      obtain ⟨o, ho, rfl⟩ := List.mem_map.mp hname
      have hdto := h _ (List.mem_map_of_mem ho)
      rwa [← lastAlive_watched]
    · intro h dto hdto
      obtain ⟨hname, hflag, -⟩ := mem_dataOwnerHealth hdto
      rw [hflag]
      exact h _ hname
  rw [halive, ← quiet_iff]
  unfold checkDataOwnerLiveness
  by_cases hun : m.env.report.unconfigured = true
  · rw [if_pos hun, quietOwners, (unconfigured_iff _).mp hun]
    simp
  · rw [if_neg hun, hholds]
    dsimp only
    by_cases hquiet : (quietOwners m (watched history)).1 = [] ∧
        (quietOwners m (watched history)).2 = []
    · rw [if_pos hquiet]
      simp [hquiet]
    · rw [if_neg hquiet]
      simp [hquiet]

/-- A finding names the quiet owners of the table. -/
theorem mem_checkDataOwnerLiveness {m : Monitor} {db : HealthDb}
    {databases : List (Alias HealthDb)} (hholds : dbQuery databases id = some db)
    {w : CheckWarning} (h : w ∈ checkDataOwnerLiveness m databases) :
    w = ⟨"gdpr.W006", livenessText m (quietOwners m db).1 (quietOwners m db).2⟩ := by
  unfold checkDataOwnerLiveness at h
  split at h
  · exact absurd h List.not_mem_nil
  · rw [hholds] at h
    dsimp only at h
    split at h
    · exact absurd h List.not_mem_nil
    · exact List.mem_singleton.mp h

/-- After any history of probes and answers, under registries and settings that change in between,
the staff view and the boot check agree and are exact. The view calls a declared owner alive
exactly when it answered within the window, and shows its last answer; the check is silent exactly
when every declared owner is alive there, and what it reports names the declared owners that never
answered, and those whose last answer is too old with its moment, and nobody else. -/
theorem liveness_exact {m : Monitor} {history : List HealthEvent}
    {databases : List (Alias HealthDb)}
    (hclock : history.Pairwise fun e e' => e.env.now ≤ e'.env.now)
    (hholds : dbQuery databases id = some (watched history)) :
    (dataOwnerHealth m (watched history)).map (·.owner) = m.env.report.names ∧
    (∀ dto ∈ dataOwnerHealth m (watched history),
      (dto.alive = true ↔ AnsweredSince history dto.owner m.cutoff) ∧
      dto.lastAliveAt = (lastAnswer history dto.owner).map Prod.fst ∧
      dto.answeredSubjectTypes = ((lastAnswer history dto.owner).map Prod.snd).getD []) ∧
    (checkDataOwnerLiveness m databases = [] ↔
      ∀ dto ∈ dataOwnerHealth m (watched history), dto.alive = true) ∧
    ∀ w ∈ checkDataOwnerLiveness m databases, ∃ never silent,
      w = ⟨"gdpr.W006", livenessText m never silent⟩ ∧
      (∀ name, name ∈ never ↔ name ∈ m.env.report.names ∧ lastAnswer history name = none) ∧
      ∀ name at', (name, at') ∈ silent ↔ name ∈ m.env.report.names ∧
        (lastAnswer history name).map Prod.fst = some at' ∧ at' < m.cutoff := by
  refine ⟨List.map_map, ?_, checkDataOwnerLiveness_nil hholds, ?_⟩
  · intro dto hdto
    obtain ⟨-, halive, hlast, hanswered⟩ := mem_dataOwnerHealth hdto
    exact ⟨halive ▸ lastAnswer_window hclock dto.owner m.cutoff, hlast, hanswered⟩
  · intro w hw
    exact ⟨_, _, mem_checkDataOwnerLiveness hholds hw, fun _ => mem_never, fun _ _ => mem_silent⟩

/-- A deployment that asked on day 0 and heard one of its two owners. -/
def heardOne : List HealthEvent :=
  [.probe deployment 0, .alive (deploymentOn 1) { owner := "auth", subjectTypes := ["account"] }]

/-- On day 2 the check names the other owner. -/
theorem liveness_exact_heardOne :
    (∀ dto ∈ dataOwnerHealth { env := deploymentOn 2 } (watched heardOne),
      dto.alive = decide (dto.owner = "auth")) ∧
    checkDataOwnerLiveness { env := deploymentOn 2 }
      [.unreachable, .holds (watched heardOne)] ≠ [] := by
  have hclock : heardOne.Pairwise fun e e' => e.env.now ≤ e'.env.now := by decide
  have hholds : dbQuery [.unreachable, .holds (watched heardOne)] id = some (watched heardOne) := rfl
  have hexact := @liveness_exact { env := deploymentOn 2 } _ _ hclock hholds
  have halive : ∀ dto ∈ dataOwnerHealth { env := deploymentOn 2 } (watched heardOne),
      dto.alive = decide (dto.owner = "auth") := by decide +kernel
  refine ⟨halive, fun hnil => ?_⟩
  have hall := hexact.2.2.1.mp hnil
  revert hall
  decide +kernel

end StapelGdpr
