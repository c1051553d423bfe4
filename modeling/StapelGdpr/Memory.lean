import StapelGdpr.Concurrent
import StapelGdpr.Liveness

/-!
# StapelGdpr.Memory

Whom the re-registration memory knows. Every digest that a storm adds to it is of an identifier
which the thread that wrote it had itself read on the row of an account with a closure
(`only_the_closing_are_remembered`), so whoever is told that an identifier has been here before
is told of an account that was being erased (`reregistration_means_erasure`).

What other writers leave in the table answers no lookup. The boot check `gdpr.E004` counts it,
`gdpr_purge_unverified_hashes` deletes it, and nothing in this component brings it back
(`purge_settles`).
-/

namespace StapelGdpr

open Prog

variable {env : Env} {op : Op} {db db' start : Db} {userId : UserId}

/-! ### What one thread stores -/

/-- A statement that stores no hash, or one that stores what it has read, of a subject. -/
def Stores (env : Env) (subject : List (Memo Op Db) → UserId → Prop) (past : List (Memo Op Db))
    (op : Op) (a b : Db) : Prop :=
  (∀ userId, op ≠ .storeHash userId) ∨
    ∃ userId, subject past userId ∧ Remembers env userId past op a b

section Recalls

variable {α : Type} {subject : List (Memo Op Db) → UserId → Prop} {past : List (Memo Op Db)}

theorem recalls_of_labels {p : Program α} (h : Labels (fun op => ∀ u, op ≠ .storeHash u) p) :
    Recalls (Stores env subject) (fun _ _ => True) p past :=
  Recalls.always h fun _ _ _ _ _ hop => .inl hop

theorem eraseSubject_recalls {closure : Stored AccountClosureRequest} {correlationId : Uuid}
    {erasure : Stored ErasureRequest}
    (hs : ∀ past', past <+: past' → subject past' closure.row.userId) :
    Recalls (Stores env subject) (fun _ _ => True)
      (eraseSubject env closure correlationId erasure) past := by
  rw [eraseSubject_eq]
  have hstore : Recalls (Stores env subject) (fun _ _ => True)
      (storeReregistrationHashes env closure.row.userId) past :=
    storeReregistrationHashes_recalls.mono fun past' hpre _ _ _ hmem => .inr ⟨_, hs past' hpre, hmem⟩
  refine hstore.bind fun _ past₁ _ _ => recalls_of_labels (eraseStored_always ?_)
  constructor <;> simp

theorem execution_recalls {closure : Stored AccountClosureRequest}
    (hs : ∀ past', past <+: past' → subject past' closure.row.userId) :
    Recalls (Stores env subject) (fun _ _ => True) (executeDeletion env closure) past := by
  refine executeDeletion_recalls (fun db => .inl (by simp)) (fun db => ?_)
    (fun id past' _ => ?_) (fun id erasure past' hpre => ?_) fun request cached past' _ => ?_
  · exact recalls_of_labels (startDeleting_always fun _ => ⟨by simp, by simp⟩)
  · exact recalls_of_labels (closureErasure_always (fun _ => by simp) fun _ =>
      ⟨by simp, fun _ _ _ => by simp⟩)
  · exact eraseSubject_recalls fun past'' hpre' => hs past'' (hpre.trans hpre')
  · refine recalls_of_labels (maybeFinalize_always ?_)
    constructor <;> simp

end Recalls

/-- Whom a job erases, as far as it has read. -/
def Job.Subject (env : Env) : Job → List (Memo Op Db) → UserId → Prop
  | .call (.executeDeletion closure), _, userId => closure.row.userId = userId
  | .call .processExpiredGracePeriods, past, userId =>
      ∃ m ∈ past, ∃ o ∈ m.before.expiredGrace env.now, o.row.userId = userId
  | _, _, _ => False

/-- Every hash that a job stores it has read, and it is of a subject. -/
theorem Job.recalls (job : Job) :
    Recalls (Stores env (job.Subject env)) (fun _ _ => True) (job.prog env) [] := by
  by_cases hexec : ∃ closure, job = .call (.executeDeletion closure)
  · obtain ⟨closure, rfl⟩ := hexec
    exact execution_recalls fun _ _ => rfl
  by_cases hworker : job = .call .processExpiredGracePeriods
  · subst hworker
    refine Recalls.query_bind fun db => ⟨.inl (by simp), Recalls.forM fun o ho past' hpre => ?_⟩
    refine Recalls.tryCatch (execution_recalls fun past'' hpre' => ?_) fun _ _ _ => trivial
    exact ⟨⟨.select, db, db, true⟩, (hpre.trans hpre').subset (by simp), o, ho, rfl⟩
  · refine recalls_of_labels ((Job.noLocalWork (fun c h => hexec ⟨c, h⟩) hworker).mono ?_)
    intro op _ _ hop u hstore
    subst hstore
    exact hop trivial

/-! ### What a storm adds -/

/-- A statement adds hashes of its own or none. -/
theorem Act.hashes (h : Act env op db db') : OwnHashes op db.hashes db'.hashes := by
  cases h with
  | elsewhere users hashes hown => exact hown
  | erasureOpened ho =>
      obtain ⟨by', -, -, -, -, hdb⟩ := openErasure_ok ho
      rw [hdb]
      exact fun _ => .inl
  | _ => exact fun _ => .inl

section Pool

variable {κ : Type} [DecidableEq κ] {jobs : κ → Env × Job} {tr : List (Pool.Event κ Op Db)}
  {P : Pool Op Db Error Unit κ}

/-- Nothing that persists is undone on the way to an event. -/
theorem moments_persist (hread : ∀ k, (jobs k).2.Read start)
    (hrun : Pool.Runs (fun _ _ => True) (concurrently jobs) start tr P db)
    {pre post : List (Pool.Event κ Op Db)} {e : Pool.Event κ Op Db} (hcut : tr = pre ++ e :: post) :
    Persists start e.before ∧ ∀ d ∈ pre, Persists d.before e.before := by
  have hact := concurrently_act hread hrun
  subst hcut
  obtain ⟨P₁, s₁, hpre, hpost⟩ := hrun.split
  obtain ⟨hbefore, -⟩ := hpost.head
  rw [hbefore]
  have hstep : ∀ e' ∈ pre, Persists e'.before e'.after :=
    fun e' he' => (hact e' (List.mem_append_left _ he')).persists
  refine ⟨(hpre.chain (I := Persists start) (fun e' he' h => h.trans (hstep e' he'))
    (.refl start)).1, fun d hd => ?_⟩
  obtain ⟨before, after, rfl⟩ := List.append_of_mem hd
  obtain ⟨P₂, s₂, -, hrest⟩ := hpre.split
  obtain ⟨hd₂, -⟩ := hrest.head
  rw [hd₂]
  exact (hrest.chain (I := Persists s₂)
    (fun e' he' h => h.trans (hstep e' (List.mem_append_right _ he'))) (.refl s₂)).1

/-- The closure of a subject is in the store from the moment the job knows of it. -/
theorem closure_of_subject (hread : ∀ k, (jobs k).2.Read start)
    (hrun : Pool.Runs (fun _ _ => True) (concurrently jobs) start tr P db)
    {pre post : List (Pool.Event κ Op Db)} {e : Pool.Event κ Op Db} (hcut : tr = pre ++ e :: post)
    (hsubject : (jobs e.thread).2.Subject (jobs e.thread).1
      ((pre.filter (·.thread = e.thread)).map Pool.Event.memo) userId) :
    ∃ pk c, e.before.closures.get? pk = some c ∧ c.userId = userId := by
  obtain ⟨hstart, hlater⟩ := moments_persist hread hrun hcut
  have hreads := hread e.thread
  cases hjob : (jobs e.thread).2 with
  | call call =>
      rw [hjob] at hsubject hreads
      cases call with
      | executeDeletion closure =>
          obtain ⟨c, hc, hcopy⟩ := ClosureCopy.persists hreads hstart
          exact ⟨closure.pk, c, hc, hcopy.userId.trans hsubject⟩
      | processExpiredGracePeriods =>
          obtain ⟨s, hs, o, ho, huser⟩ := hsubject
          obtain ⟨d, hd, rfl⟩ := List.mem_map.mp hs
          have hget : d.before.closures.get? o.pk = some o.row := (Table.mem_select.mp ho).1
          obtain ⟨c, hc, hkept⟩ := (hlater d (List.mem_of_mem_filter hd)).closures.kept hget
          exact ⟨o.pk, c, hc, hkept.userId.trans huser⟩
      | _ => exact hsubject.elim
  | _ =>
      rw [hjob] at hsubject
      exact hsubject.elim

/-- `d` is a read and `w` the store of a hash, by the same thread and after `d`: `w` stores the
digest of the identifier that `d` found on the row of the account. -/
structure Remembered (jobs : κ → Env × Job) (tr : List (Pool.Event κ Op Db))
    (d w : Pool.Event κ Op Db) (userId : UserId) (hashType : HashType) (value : String) :
    Prop where
  order : ∃ pre mid post, tr = pre ++ d :: (mid ++ w :: post)
  thread : d.thread = w.thread
  read : d.label = .select
  found : ∃ user, d.before.user userId = some user ∧ user.attr hashType.text = some value
  store : w.label = .storeHash userId
  stored : w.after.hashes = w.before.hashes ++ [newHash (jobs w.thread).1 userId hashType value]
  closing : ∃ pk c, w.before.closures.get? pk = some c ∧ c.userId = userId

/-- **Only the closing are remembered.** Every hash that a storm leaves was there before, or it
is of an identifier of an account with a closure: the thread that stored it has read the
identifier on the row of the account. -/
theorem only_the_closing_are_remembered (hread : ∀ k, (jobs k).2.Read start)
    (hrun : Pool.Runs (fun _ _ => True) (concurrently jobs) start tr P db) :
    ∀ h ∈ db.hashes, h ∈ start.hashes ∨ ∃ d w userId hashType value,
      Remembered jobs tr d w userId hashType value ∧
        h = newHash (jobs w.thread).1 userId hashType value := by
  have hrecalls := hrun.recalls fun k => @Job.recalls (jobs k).1 (jobs k).2
  refine (hrun.chain (I := fun s => ∀ h ∈ s.hashes, h ∈ start.hashes ∨ ∃ d w userId hashType value,
      Remembered jobs tr d w userId hashType value ∧
        h = newHash (jobs w.thread).1 userId hashType value)
    (fun w hw ih h hh => ?_) fun h hh => .inl hh).1
  rcases (concurrently_act hread hrun w hw).hashes h hh with hold | ⟨⟨u, hlabel⟩, -⟩
  · exact ih h hold
  obtain ⟨past, post, hcut⟩ := List.append_of_mem hw
  rcases hrecalls past w post hcut with hno | ⟨userId, hsubject, hsame | hstore⟩
  · exact absurd hlabel (hno u)
  · exact ih h (hsame ▸ hh)
  · obtain ⟨hashType, value, hstore, ⟨-, -, s, hs, hread', huser⟩, hafter⟩ := hstore
    rw [hafter] at hh
    rcases List.mem_append.mp hh with hold | hnew
    · exact ih h hold
    obtain ⟨d, hd, rfl⟩ := List.mem_map.mp hs
    obtain ⟨hpast, hthread⟩ := List.mem_filter.mp hd
    obtain ⟨pre, mid, rfl⟩ := List.append_of_mem hpast
    exact .inr ⟨d, w, userId, hashType, value, ⟨⟨pre, mid, post, by simpa using hcut⟩,
      by simpa using hthread, hread', huser, hstore, by rw [hafter],
      closure_of_subject hread hrun hcut hsubject⟩, List.mem_singleton.mp hnew⟩

/-- The digest tells identifiers apart that are not the same to begin with. -/
theorem normalize_of_computeHash {host : Host} (hmac : Function.Injective host.hmac)
    {hashType : HashType} {e e' : String}
    (h : computeHash host hashType e' = computeHash host hashType e) :
    normalize host hashType e' = normalize host hashType e :=
  (String.append_right_inj _).mp (hmac h)

/-- **Re-registration means erasure.** An identifier that becomes known in a storm is, up to case
and spelling, one that an account carried which had a closure; a thread of the storm has read it
on the row of that account, and stored its hash afterwards, less than 24 months ago. -/
theorem reregistration_means_erasure {hashType : HashType} {e : String}
    (hmac : Function.Injective env.host.hmac) (hhost : ∀ k, (jobs k).1.host = env.host)
    (hread : ∀ k, (jobs k).2.Read start)
    (hrun : Pool.Runs (fun _ _ => True) (concurrently jobs) start tr P db) (he : e ≠ "")
    (hnew : ¬ Reregisters env hashType e start) (hknown : Reregisters env hashType e db) :
    ∃ d w userId value, Remembered jobs tr d w userId hashType value ∧
      env.now < (jobs w.thread).1.now + retention ∧
      normalize env.host hashType value = normalize env.host hashType e := by
  obtain ⟨h, hh, hof, hlive⟩ := (reregisters_iff he).mp hknown
  rcases only_the_closing_are_remembered hread hrun h hh with hold | hnew'
  · exact absurd ((reregisters_iff he).mpr ⟨h, hold, hof, hlive⟩) hnew
  · obtain ⟨d, w, userId, t, value, hrem, rfl⟩ := hnew'
    obtain ⟨rfl, hdigest⟩ := (isOf_hmac rfl).mp hof
    simp only [newHash, hhost] at hdigest hlive
    exact ⟨d, w, userId, value, hrem, hlive, normalize_of_computeHash hmac hdigest⟩

end Pool

/-- The storm of the sample remembers the account it erases. -/
theorem reregistration_means_erasure_stormed : ∃ d w userId value,
    Remembered erasers (Pool.schedule
      (List.replicate 7 true ++ List.replicate 4 false ++ List.replicate 15 true)
      (concurrently erasers) closing).1 d w userId .email value ∧
    normalize deployment.host .email value = normalize deployment.host .email "U1@example.org" := by
  have hrun := Pool.runs_schedule (fun _ _ => True)
    (List.replicate 7 true ++ List.replicate 4 false ++ List.replicate 15 true)
    (concurrently erasers) closing
  have hnew : ¬ Reregisters (deploymentOn 31) .email "U1@example.org" closing := by
    rw [reregisters_iff (by decide)]
    decide +kernel
  have hknown : Reregisters (deploymentOn 31) .email "U1@example.org" stormed := by
    rw [reregisters_iff (by decide)]
    decide +kernel
  obtain ⟨d, w, userId, value, hrem, -, hsame⟩ := reregistration_means_erasure
    Function.injective_id (fun k => by cases k <;> rfl) (fun k => by cases k <;> trivial) hrun
    (by decide) hnew hknown
  exact ⟨d, w, userId, value, hrem, hsame⟩

/-! ### The rows of other writers -/

/-- `exclude(scheme__in=keep)`. -/
def unkeptHashes (includeLegacy : Bool) (hashes : List ReRegistrationHash) :
    List ReRegistrationHash :=
  hashes.filter fun h => h.scheme ∉ keptSchemes includeLegacy

/-- What `gdpr.E004` reports: a database, and how many of its rows nobody can vouch for. -/
structure UnverifiedHashes where
  database : String
  count : Nat
  deriving DecidableEq, Repr

def UnverifiedHashes.text (f : UnverifiedHashes) : String :=
  s!"{f.count} ReRegistrationHash rows in database '{f.database}' were written outside " ++
    "stapel_gdpr.reregistration.store_hashes and carry an unverified digest format."

/-- `check_reregistration_hashes`, over the aliases the caller opted into. -/
def checkReregistrationHashes (databases : List (String × Alias (List ReRegistrationHash))) :
    List UnverifiedHashes :=
  databases.filterMap fun q =>
    match q.2 with
    | .holds rows =>
        let count := (unkeptHashes false rows).length
        if count = 0 then none else some ⟨q.1, count⟩
    | .foreign | .unreachable => none

/-- `gdpr_purge_unverified_hashes`, and what it prints. -/
def purgeCommand (dryRun includeLegacy : Bool) : Program String :=
  if dryRun then do
    let count ← Program.select fun db => (unkeptHashes includeLegacy db.hashes).length
    return s!"{count} re-registration hashes would be deleted (dry run)"
  else do
    let count ← purgeUnverifiedHashes includeLegacy
    return s!"Deleted {count} re-registration hashes"

/-- What a purge leaves. -/
def Db.purged (db : Db) (includeLegacy : Bool) : Db :=
  ((purgeUnverifiedHashes includeLegacy).run db).2

theorem purged_hashes {includeLegacy : Bool} : (db.purged includeLegacy).hashes =
    db.hashes.filter fun h => h.scheme ∈ keptSchemes includeLegacy := rfl

theorem run_purge {includeLegacy : Bool} : (purgeUnverifiedHashes includeLegacy).run db =
    (.ok (unkeptHashes includeLegacy db.hashes).length, db.purged includeLegacy) := rfl

/-- A row that answers a lookup is of a scheme that a purge keeps. -/
theorem kept_of_isOf {host : Host} {hashType : HashType} {e : String} {h : ReRegistrationHash}
    (hof : h.isOf host hashType e = true) : h.scheme ∈ keptSchemes false := by
  simp only [ReRegistrationHash.isOf, Bool.and_eq_true, Bool.or_eq_true, decide_eq_true_eq] at hof
  obtain ⟨-, ⟨-, hscheme⟩ | ⟨-, hscheme⟩⟩ := hof
  · simp [keptSchemes, hscheme]
  · simp [keptSchemes, hscheme]

/-- A purge takes no answer away. -/
theorem reregisters_purged {hashType : HashType} {e : String} (he : e ≠ "") :
    Reregisters env hashType e (db.purged false) ↔ Reregisters env hashType e db := by
  rw [reregisters_iff he, reregisters_iff he, purged_hashes]
  constructor
  · intro ⟨h, hh, hof, hlive⟩
    exact ⟨h, List.mem_of_mem_filter hh, hof, hlive⟩
  · intro ⟨h, hh, hof, hlive⟩
    exact ⟨h, List.mem_filter.mpr ⟨hh, by simpa using kept_of_isOf hof⟩, hof, hlive⟩

theorem check_one {name : String} {hashes : List ReRegistrationHash} :
    checkReregistrationHashes [(name, .holds hashes)] =
      if (unkeptHashes false hashes).length = 0 then []
      else [⟨name, (unkeptHashes false hashes).length⟩] := by
  by_cases h : unkeptHashes false hashes = [] <;> simp [checkReregistrationHashes, h]

/-- The check of one database is silent exactly when every row of it is vouched for. -/
theorem check_silent_iff {name : String} {hashes : List ReRegistrationHash} :
    checkReregistrationHashes [(name, .holds hashes)] = [] ↔
      ∀ h ∈ hashes, h.scheme ∈ keptSchemes false := by
  have hnone : unkeptHashes false hashes = [] ↔ ∀ h ∈ hashes, h.scheme ∈ keptSchemes false := by
    simp [unkeptHashes, List.filter_eq_nil_iff]
  rw [check_one, ← hnone]
  by_cases h : unkeptHashes false hashes = [] <;> simp [h]

/-- **A purge settles `gdpr.E004`.** The check reports the rows that a purge deletes and that a
dry run announces; the purge takes no answer away, and after it no storm of this component makes
the check speak again. -/
theorem purge_settles {κ : Type} [DecidableEq κ] {jobs : κ → Env × Job}
    {tr : List (Pool.Event κ Op Db)} {P : Pool Op Db Error Unit κ} (name : String)
    (hread : ∀ k, (jobs k).2.Read (start.purged false))
    (hrun : Pool.Runs (fun _ _ => True) (concurrently jobs) (start.purged false) tr P db) :
    (∃ count, (purgeUnverifiedHashes false).run start = (.ok count, start.purged false) ∧
      (purgeCommand true false).run start =
        (.ok s!"{count} re-registration hashes would be deleted (dry run)", start) ∧
      checkReregistrationHashes [(name, .holds start.hashes)] =
        if count = 0 then [] else [⟨name, count⟩]) ∧
    (∀ env hashType e, e ≠ "" →
      (Reregisters env hashType e (start.purged false) ↔ Reregisters env hashType e start)) ∧
    checkReregistrationHashes [(name, .holds db.hashes)] = [] := by
  refine ⟨⟨_, run_purge, rfl, check_one⟩, fun env hashType e => reregisters_purged,
    check_silent_iff.mpr ?_⟩
  · refine (hrun.chain (I := fun s => ∀ h ∈ s.hashes, h.scheme ∈ keptSchemes false)
      (fun e he ih h hh => ?_) fun h hh => ?_).1
    · rcases (concurrently_act hread hrun e he).hashes h hh with hold | ⟨-, hscheme⟩
      · exact ih h hold
      · simp [keptSchemes, hscheme]
    · rw [purged_hashes] at hh
      simpa using (List.mem_filter.mp hh).2

/-- Another writer has put a digest of its own into the table. -/
def strayed : Db := { closing with hashes := [{
  hashType := .email, hashValue := "b4c9a289323b21a0", scheme := .unverified, userIdWas := "u1"
  createdAt := 0, expiresAt := days 730 }] }

theorem purge_settles_strayed : ∃ count, count = 1 ∧
    checkReregistrationHashes [("default", .holds strayed.hashes)] = [⟨"default", count⟩] ∧
    checkReregistrationHashes [("default", .holds
      (Pool.schedule (List.replicate 7 true) (concurrently erasers)
        (strayed.purged false)).2.2.hashes)] = [] := by
  obtain ⟨⟨count, hpurge, -, hcheck⟩, -, hsilent⟩ := purge_settles "default"
    (fun k => by cases k <;> trivial) (Pool.runs_schedule (fun _ _ => True)
      (List.replicate 7 true) (concurrently erasers) (strayed.purged false))
  have hrun : ((purgeUnverifiedHashes false).run strayed).1 = .ok 1 := by decide +kernel
  rw [hpurge] at hrun
  obtain rfl := Except.ok.inj hrun
  exact ⟨1, rfl, hcheck, hsilent⟩

end StapelGdpr
