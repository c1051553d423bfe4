import StapelGdpr.Export.Orchestrator
import StapelGdpr.Lib.Phased

/-!
# StapelGdpr.Export.Machine

How far a call has come with an archive, and what it may do there.

A call that has won the locked transaction of `_try_assemble` **builds** the archive of one
request until it has published it or has given the request back; `Phase` says how far it is,
with what it has read on the way. `Step` is the protocol: the statement, the phase it is taken
in, the phase it leads to. `Caller.typed` shows that every call follows it, whatever fails of
`ExportOp.outside`; the results about the export are invariants of phases and store that
`Step` keeps.
-/

namespace StapelGdpr.Export

open Prog

/-! ### Phases -/

/-- How far a call has come with the archive of a request. `staged` are the parts, as they were
listed for the download, whose bytes the call takes to be in staging. -/
inductive Phase
  /-- It builds no archive. -/
  | idle
  /-- It holds the request. -/
  | held (pk : Nat)
  /-- It downloads the parts; those in `todo` are still to come. -/
  | building (pk : Nat) (todo staged : List (Stored DataExportPart))
  /-- It has read the slice of `part`. -/
  | copying (pk : Nat) (part : Stored DataExportPart) (bytes : Bytes)
      (todo staged : List (Stored DataExportPart))
  /-- It knows what is missing. -/
  | judged (pk : Nat) (staged : List (Stored DataExportPart)) (missing : List String)
      (isPartial : Bool)
  /-- It has the ZIP. -/
  | zipped (pk : Nat) (staged : List (Stored DataExportPart)) (missing : List String)
      (isPartial : Bool) (archive : Archive)
  /-- The ZIP is in the export store, and no row names it. -/
  | saved (pk : Nat) (staged : List (Stored DataExportPart)) (missing : List String)
      (isPartial : Bool) (archive : Archive) (key : String)
  /-- It has published the archive. -/
  | published (pk : Nat) (staged : List (Stored DataExportPart)) (archive : Archive)
  /-- It deletes the slices in `todo` from the bucket. -/
  | purging (pk : Nat) (todo : List (Stored DataExportPart)) (archive : Archive)

/-- The request whose archive the call builds. -/
def Phase.builds : Phase → Option Nat
  | idle | published .. | purging .. => none
  | held pk | building pk .. | copying pk .. | judged pk .. | zipped pk .. | saved pk .. => some pk

/-- The request it builds, while nothing of it is in the export store. -/
def Phase.drafts : Phase → Option Nat
  | held pk | building pk .. | copying pk .. | judged pk .. | zipped pk .. => some pk
  | _ => none

theorem Phase.builds_of_drafts {m : Phase} {pk : Nat} (h : m.drafts = some pk) :
    m.builds = some pk := by
  cases m <;> simp_all [Phase.drafts, Phase.builds]

/-- The request whose archive a statement works on. -/
def ExportOp.builds : ExportOp → Option Nat
  | listParts pk | partDir pk _ | fileExists pk .. | openPart pk .. | copyPart pk _ |
    copiedPart pk _ | missing pk | buildDir pk | zip pk | saveArchive pk | unlinkZip pk _ |
    publish pk | giveBack pk => some pk
  | _ => none

/-- The key under which a listed part was uploaded. -/
def sliceKey (part : Stored DataExportPart) : String := part.row.bucketPath.getD ""

/-- The key passes `is_safe_bucket_path` for the request. -/
def SafeFor (x : Exporter) (db : ExportDb) (pk : Nat) (key : String) : Prop :=
  ∃ r, db.requests.get? pk = some r ∧ x.isSafeBucketPath key r.correlationId = true

instance (x : Exporter) (db : ExportDb) (pk : Nat) (key : String) :
    Decidable (SafeFor x db pk key) :=
  decidable_of_iff (∃ r ∈ db.requests.get? pk, x.isSafeBucketPath key r.correlationId = true)
    Iff.rfl

/-- Does the request expect the service? -/
def ExportDb.expects (db : ExportDb) (pk : Nat) (service : String) : Prop :=
  ∃ r, db.requests.get? pk = some r ∧ service ∈ r.expectedServices

/-- The request is held by a build. -/
def Assembling (db : ExportDb) (pk : Nat) : Prop :=
  ∃ r, db.requests.get? pk = some r ∧ r.status = .assembling

/-- Statements that no call takes without going on to another phase. -/
def ExportOp.turns : ExportOp → Bool
  | listParts _ | openPart .. | listStaged _ | bucketDelete .. | deleteArchive _ => true
  | _ => false

/-- A statement that a call can take, or fail to take, without going on: of a build, in the
call that builds. -/
def ExportOp.RestsIn (op : ExportOp) (m : Phase) : Prop :=
  op.turns = false ∧ (op.builds = none ∨ op.builds = m.builds)

/-- The protocol of the export side. -/
inductive Step (x : Exporter) : Phase → ExportOp → Bool → ExportDb → ExportDb → Phase → Prop
  /-- A query, a refused write, a failure. -/
  | stays {m : Phase} {op : ExportOp} {ok : Bool} {db : ExportDb} (h : op.RestsIn m) :
      Step x m op ok db db m
  | created {userId : UserId} {db : ExportDb} :
      Step x .idle (.createRequest userId) true db
        { db with requests := db.requests.insert (newRequest x userId db.uuid4) } .idle
  | partCreated {pk : Nat} {service : String} {db : ExportDb} (h : db.expects pk service)
      (hnew : ∀ i p, db.parts.get? i = some p → p.request = pk → p.service ≠ service) :
      Step x .idle (.createPart pk service) true db
        { db with parts := db.parts.insert { request := pk, service := service } } .idle
  | started {pk : Nat} {r : DataExportRequest} {db : ExportDb}
      (h : db.requests.get? pk = some r) (hopen : r.isOpen = true) :
      Step x .idle (.start pk) true db
        (db.modifyRequest pk fun r => { r with status := .processing }) .idle
  | exported {pk : Nat} {service : String} {files : List (String × Bytes)} {db : ExportDb} :
      Step x .idle (.exportToStaging pk service) true db (db.stageAll pk service files) .idle
  | partSaved {i : Nat} {outcome : DataExportPart} {db : ExportDb} :
      Step x .idle (.savePart i) true db (db.modifyPart i fun p => { p with
        status := outcome.status, completedAt := outcome.completedAt, error := outcome.error })
        .idle
  | partReady {pk : Nat} {service : String} {path : Option String} {db : ExportDb}
      (h : ∀ key, path = some key → key ≠ "" → SafeFor x db pk key) :
      Step x .idle (.partReady pk service) true db { db with
        parts := db.parts.update (·.awaits pk service) fun p =>
          { p with status := .done, bucketPath := path, completedAt := some x.env.now } } .idle
  | locked {pk : Nat} {r : DataExportRequest} {db : ExportDb}
      (h : db.requests.get? pk = some r) (hopen : r.isOpen = true) :
      Step x .idle (.lock pk) true db
        (db.modifyRequest pk fun r => { r with status := .assembling }) (.held pk)
  | listed {pk : Nat} {db : ExportDb} :
      Step x (.held pk) (.listParts pk) true db db (.building pk (db.uploadedParts pk) [])
  /-- A file in its place counts as the slice. -/
  | found {pk : Nat} {part : Stored DataExportPart} {todo staged : List (Stored DataExportPart)}
      {db : ExportDb} (h : db.hasFile pk (exportPath part.row.service) = true) :
      Step x (.building pk (part :: todo) staged)
        (.fileExists pk part.row.service (sliceKey part)) true db db
        (.building pk todo (staged ++ [part]))
  | refused {pk : Nat} {part : Stored DataExportPart} {todo staged : List (Stored DataExportPart)}
      {db : ExportDb} (h : ¬ SafeFor x db pk (sliceKey part)) :
      Step x (.building pk (part :: todo) staged)
        (.fileExists pk part.row.service (sliceKey part)) true db db (.building pk todo staged)
  | opened {pk : Nat} {part : Stored DataExportPart} {todo staged : List (Stored DataExportPart)}
      {bytes : Bytes} {db : ExportDb} (hsafe : SafeFor x db pk (sliceKey part))
      (h : db.readObject (sliceKey part) = some bytes) :
      Step x (.building pk (part :: todo) staged)
        (.openPart pk part.row.service (sliceKey part)) true db db
        (.copying pk part bytes todo staged)
  | notOpened {pk : Nat} {part : Stored DataExportPart}
      {todo staged : List (Stored DataExportPart)} {ok : Bool} {db : ExportDb}
      (hsafe : SafeFor x db pk (sliceKey part))
      (h : ok = true → db.readObject (sliceKey part) = none) :
      Step x (.building pk (part :: todo) staged)
        (.openPart pk part.row.service (sliceKey part)) ok db db (.building pk todo staged)
  | written {pk : Nat} {part : Stored DataExportPart} {todo staged : List (Stored DataExportPart)}
      {bytes : Bytes} {n : Nat} {db : ExportDb} :
      Step x (.copying pk part bytes todo staged) (.copyPart pk part.row.service) true db
        (db.stage pk (exportPath part.row.service) (bytes.take n))
        (.copying pk part bytes todo staged)
  | copied {pk : Nat} {part : Stored DataExportPart} {todo staged : List (Stored DataExportPart)}
      {bytes : Bytes} {db : ExportDb} :
      Step x (.copying pk part bytes todo staged) (.copiedPart pk part.row.service) true db
        (db.stage pk (exportPath part.row.service) bytes) (.building pk todo (staged ++ [part]))
  | notCopied {pk : Nat} {part : Stored DataExportPart}
      {todo staged : List (Stored DataExportPart)} {bytes : Bytes} {op : ExportOp} {db : ExportDb}
      (h : op = .copyPart pk part.row.service ∨ op = .copiedPart pk part.row.service) :
      Step x (.copying pk part bytes todo staged) op false db db (.building pk todo staged)
  | judged {pk : Nat} {staged : List (Stored DataExportPart)} {missing : List String}
      {isPartial : Bool} {db : ExportDb}
      (h : ∀ service, db.expects pk service → service ∈ db.doneServices pk ∨
        service ∈ missing ∧ isPartial = true) :
      Step x (.building pk [] staged) (.missing pk) true db db
        (.judged pk staged missing isPartial)
  | zipped {pk : Nat} {staged : List (Stored DataExportPart)} {missing : List String}
      {isPartial : Bool} {archive : Archive} {db : ExportDb}
      (h : archive.files = db.filesOf pk) :
      Step x (.judged pk staged missing isPartial) (.zip pk) true db db
        (.zipped pk staged missing isPartial archive)
  | saved {pk : Nat} {staged : List (Stored DataExportPart)} {missing : List String}
      {isPartial : Bool} {archive : Archive} {key : String} {db : ExportDb}
      (h : key ∉ db.archives.map (·.1))
      (hname : ∃ id taken, key = x.names.available (x.archiveKey id pk) taken) :
      Step x (.zipped pk staged missing isPartial archive) (.saveArchive pk) true db
        { db with archives := (key, archive) :: db.archives }
        (.saved pk staged missing isPartial archive key)
  | published {req : Stored DataExportRequest} {staged : List (Stored DataExportPart)}
      {missing : List String} {isPartial : Bool} {archive : Archive} {key : String}
      {db : ExportDb} :
      Step x (.saved req.pk staged missing isPartial archive key) (.publish req.pk) true db
        (db.publish x req key isPartial missing) (.published req.pk staged archive)
  /-- The archive stays in the export store. -/
  | notPublished {pk : Nat} {staged : List (Stored DataExportPart)} {missing : List String}
      {isPartial : Bool} {archive : Archive} {key : String} {op : ExportOp} {db : ExportDb}
      (h : op = .unlinkZip pk true ∨ op = .publish pk) :
      Step x (.saved pk staged missing isPartial archive key) op false db db (.held pk)
  | gaveBack {m : Phase} {pk : Nat} {text : String} {db : ExportDb} (h : m.drafts = some pk) :
      Step x m (.giveBack pk) true db
        (db.modifyRequest pk fun r => { r with status := .processing, error := some text }) .idle
  | cleared {pk : Nat} {staged : List (Stored DataExportPart)} {archive : Archive}
      {db : ExportDb} (h : Settled db pk) :
      Step x (.published pk staged archive) (.clearStaging pk) true db (db.clearStaging pk)
        (.published pk staged archive)
  | stagedListed {pk : Nat} {staged : List (Stored DataExportPart)} {archive : Archive}
      {db : ExportDb} :
      Step x (.published pk staged archive) (.listStaged pk) true db db
        (.purging pk (db.stagedParts pk (staged.map (·.pk))) archive)
  | gone {pk : Nat} {part : Stored DataExportPart} {todo : List (Stored DataExportPart)}
      {archive : Archive} {db : ExportDb} (h : db.readObject (sliceKey part) = none) :
      Step x (.purging pk (part :: todo) archive) (.bucketExists part.pk (sliceKey part)) true
        db db (.purging pk todo archive)
  | bucketDeleted {pk : Nat} {part : Stored DataExportPart} {todo : List (Stored DataExportPart)}
      {archive : Archive} {db : ExportDb} :
      Step x (.purging pk (part :: todo) archive) (.bucketDelete part.pk (sliceKey part)) true db
        { db with bucketDeleted := sliceKey part :: db.bucketDeleted } (.purging pk todo archive)
  | notDeleted {pk : Nat} {part : Stored DataExportPart} {todo : List (Stored DataExportPart)}
      {archive : Archive} {op : ExportOp} {db : ExportDb}
      (h : op = .bucketExists part.pk (sliceKey part) ∨
        op = .bucketDelete part.pk (sliceKey part)) :
      Step x (.purging pk (part :: todo) archive) op false db db (.purging pk todo archive)
  | partPurged {i pk : Nat} {todo : List (Stored DataExportPart)} {archive : Archive}
      {db : ExportDb} (h : Settled db pk) (hpart : PartOf db i pk) :
      Step x (.purging pk todo archive) (.purgePart i) true db
        (db.modifyPart i fun p => { p with bucketPath := none }) (.purging pk todo archive)
  /-- The user is told, as far as that goes: there is nothing left to purge. -/
  | notified {m : Phase} {pk : Nat} {archive : Archive} {ok : Bool} {db : ExportDb}
      (h : m = .published pk [] archive ∨ m = .purging pk [] archive) :
      Step x m (.notify pk) ok db db .idle
  | archiveDeleted {stored : String} {db : ExportDb} :
      Step x .idle (.deleteArchive stored) true db (db.removeArchive stored) .idle
  | archiveKept {stored : String} {db : ExportDb} :
      Step x .idle (.deleteArchive stored) false db db .idle
  | expired {pk : Nat} {db : ExportDb} (h : Settled db pk) :
      Step x .idle (.expireRow pk) true db (db.modifyRequest pk fun r =>
        { r with status := .expired, archivePath := none, downloadTokenHash := none }) .idle
  | consumed {pk : Nat} {now : Time} {db : ExportDb} (h : Settled db pk) :
      Step x .idle (.consume pk) true db
        (db.modifyRequest pk fun r => { r with downloadConsumedAt := some now }) .idle
  | pathNulled {pk : Nat} {db : ExportDb} (h : Settled db pk) :
      Step x .idle (.nullPath pk) true db
        (db.modifyRequest pk fun r => { r with archivePath := none }) .idle

/-! ### What is true of every store -/

/-- Nothing of an archive is on the row. -/
def DataExportRequest.Blank (r : DataExportRequest) : Prop :=
  r.archivePath = none ∧ r.downloadTokenHash = none ∧ r.downloadConsumedAt = none ∧
    r.downloadExpiresAt = none

/-- What every reachable store keeps to. -/
structure Sound (db : ExportDb) : Prop where
  /-- A row that is not published has nothing of an archive. -/
  blank : ∀ pk r, db.requests.get? pk = some r → r.isSettled = false → r.Blank
  /-- What was announced is published. -/
  announced : ∀ ready ∈ db.outbox, Settled db ready.requestId
  /-- Nothing is announced twice. -/
  once : (db.outbox.map (·.requestId)).Nodup
  /-- A part belongs to a service its request expects. -/
  enrolled : ∀ i p, db.parts.get? i = some p → db.expects p.request p.service
  /-- `unique_together = [('request', 'service')]`. -/
  unique : ∀ i j p q, db.parts.get? i = some p → db.parts.get? j = some q →
    p.request = q.request → p.service = q.service → i = j

/-- A store in which nothing was ever requested, whatever is uploaded. -/
theorem sound_of_empty {db : ExportDb} (hr : db.requests = {}) (hp : db.parts = {})
    (ho : db.outbox = []) : Sound db where
  blank _ _ h := absurd h (by simp [hr, Table.get?])
  announced _ h := absurd h (by simp [ho])
  once := by simp [ho]
  enrolled _ _ h := absurd h (by simp [hp, Table.get?])
  unique _ _ _ _ h := absurd h (by simp [hp, Table.get?])

/-- What a call in phase `m` may count on. -/
def Guard (m : Phase) (db : ExportDb) : Prop :=
  Sound db ∧ ∀ pk, m.builds = some pk → Assembling db pk

variable {x : Exporter} {m m' : Phase} {op : ExportOp} {ok : Bool} {a b c db s : ExportDb}
  {pk : Nat} {r r' : DataExportRequest}

/-! ### What a step does to the rows -/

/-- What one step may make of a request row. -/
inductive RowMove (m m' : Phase) (pk : Nat) (r : DataExportRequest) : DataExportRequest → Prop
  | started (h : r.isOpen = true) : RowMove m m' pk r { r with status := .processing }
  | locked (h : r.isOpen = true) (hm' : m'.builds = some pk) :
      RowMove m m' pk r { r with status := .assembling }
  | published {x : Exporter} {key : String} {isPartial : Bool} {missing : List String}
      {token : TokenHash} (hm : m.builds = some pk) :
      RowMove m m' pk r (r.publish x key isPartial missing token)
  | gaveBack {text : String} (hm : m.builds = some pk) :
      RowMove m m' pk r { r with status := .processing, error := some text }
  | retired {r' : DataExportRequest} (h : r.isSettled = true) (hs : r'.isSettled = true)
      (hrow : RowLater r r') : RowMove m m' pk r r'

/-- What one step does to the request rows: nothing, a new one, or one of them changed. -/
inductive RowsMove (m m' : Phase) (a b : ExportDb) : Prop
  | same (h : b.requests = a.requests) (hm : m'.builds = m.builds)
  | inserted (row : DataExportRequest) (h : b.requests = a.requests.insert row)
      (hrow : row.status = .pending ∧ row.Blank) (hm : m'.builds = m.builds)
  | modified (pk : Nat) (f : DataExportRequest → DataExportRequest)
      (h : b.requests = a.requests.modify pk f)
      (hrow : ∀ r, a.requests.get? pk = some r → RowMove m m' pk r (f r))
      (hm : ∀ i, m'.builds = some i → m.builds = some i ∨ i = pk)

/-- Every step, by what it does to the request rows. -/
theorem Step.rows (h : Step x m op ok a b m') (hg : Guard m a) : RowsMove m m' a b := by
  have hretired : ∀ {pk : Nat} {f : DataExportRequest → DataExportRequest}, Settled a pk →
      (∀ r, r.isSettled = true → (f r).isSettled = true ∧ RowLater r (f r)) →
      ∀ r, a.requests.get? pk = some r → RowMove m m' pk r (f r) := by
    intro pk f ⟨r₀, hr₀, hs⟩ hf r hr
    obtain rfl : r₀ = r := Option.some.inj (hr₀.symm.trans hr)
    exact .retired hs (hf r₀ hs).1 (hf r₀ hs).2
  have hopen : ∀ {pk : Nat} {r₀ : DataExportRequest}, a.requests.get? pk = some r₀ →
      r₀.isOpen = true → ∀ r, a.requests.get? pk = some r → r.isOpen = true := by
    intro pk r₀ hr₀ hopen r hr
    obtain rfl : r₀ = r := Option.some.inj (hr₀.symm.trans hr)
    exact hopen
  cases h with
  | stays | partCreated | partSaved | partReady | listed | found | refused | opened | notOpened
  | written | copied | notCopied | judged | zipped | saved | notPublished | cleared | stagedListed
  | gone | bucketDeleted | notDeleted | partPurged | archiveKept => exact .same rfl rfl
  | notified hm => exact .same rfl (by rcases hm with rfl | rfl <;> rfl)
  | exported | archiveDeleted => exact .same (by simp) rfl
  | created => exact .inserted _ rfl ⟨rfl, rfl, rfl, rfl, rfl⟩ rfl
  | @started pk r₀ _ hr₀ ho =>
      exact .modified pk _ rfl (fun r hr => .started (hopen hr₀ ho r hr)) fun i hi => .inl hi
  | @locked pk r₀ _ hr₀ ho =>
      exact .modified pk _ rfl (fun r hr => .locked (hopen hr₀ ho r hr) rfl)
        fun i hi => .inr (Option.some.inj hi).symm
  | @published req =>
      exact .modified req.pk _ rfl (fun r _ => .published rfl) fun i hi =>
        absurd hi (by simp [Phase.builds])
  | @gaveBack _ pk text _ hm =>
      exact .modified pk _ rfl (fun r _ => .gaveBack (Phase.builds_of_drafts hm))
        fun i hi => absurd hi (by simp [Phase.builds])
  | @expired pk _ hs =>
      refine .modified pk _ rfl (hretired hs fun r hr => ?_) fun i hi => .inl hi
      exact ⟨by simp [DataExportRequest.isSettled], rfl, rfl, fun _ => rfl, fun _ => .inr rfl,
        fun _ => .inr rfl, fun _ => .inr rfl⟩
  | @consumed pk now _ hs =>
      refine .modified pk _ rfl (hretired hs fun r hr => ?_) fun i hi => .inl hi
      exact ⟨hr, rfl, rfl, id, .inl, fun _ => .inl rfl, fun _ => .inl rfl⟩
  | @pathNulled pk _ hs =>
      refine .modified pk _ rfl (hretired hs fun r hr => ?_) fun i hi => .inl hi
      exact ⟨hr, rfl, rfl, id, .inl, fun _ => .inl rfl, fun _ => .inr rfl⟩

/-- What one step does to the parts: each stays the part of its request and service, and the
one that is added is the first of its service. -/
structure PartsMove (a b : ExportDb) : Prop where
  evolves : Table.Evolves (fun _ p p' => p'.request = p.request ∧ p'.service = p.service)
    (fun _ p => a.expects p.request p.service ∧
      ∀ i q, a.parts.get? i = some q → q.request = p.request → q.service ≠ p.service)
    a.parts b.parts
  one : b.parts.nextPk ≤ a.parts.nextPk + 1

theorem PartsMove.same (h : b.parts = a.parts) : PartsMove a b := by
  refine ⟨?_, ?_⟩
  · rw [h]
    exact .refl fun _ _ _ => ⟨rfl, rfl⟩
  · rw [h]
    omega

theorem PartsMove.modify {i : Nat} {f : DataExportPart → DataExportPart}
    (hf : ∀ p, (f p).request = p.request ∧ (f p).service = p.service) :
    PartsMove a (a.modifyPart i f) where
  evolves := .modify (fun _ _ _ _ => ⟨rfl, rfl⟩) fun p _ => hf p
  one := by
    change (a.parts.modify i f).nextPk ≤ _
    rw [Table.nextPk_modify]
    omega

/-- Every step, by what it does to the parts. -/
theorem Step.parts (h : Step x m op ok a b m') : PartsMove a b := by
  cases h with
  | @partCreated pk service _ hexp hnew =>
      refine ⟨.insert (fun _ _ _ => ⟨rfl, rfl⟩) ⟨hexp, fun i q hq hreq => hnew i q hq hreq⟩, ?_⟩
      change (a.parts.insert _).nextPk ≤ _
      rw [Table.nextPk_insert]
  | partSaved => exact .modify fun _ => ⟨rfl, rfl⟩
  | partPurged => exact .modify fun _ => ⟨rfl, rfl⟩
  | partReady =>
      refine ⟨.update fun _ p _ => ?_, ?_⟩
      · split <;> exact ⟨rfl, rfl⟩
      · change (a.parts.update _ _).nextPk ≤ _
        rw [Table.nextPk_update]
        omega
  | exported | archiveDeleted => exact .same (by simp)
  | _ => exact .same rfl

/-- Nothing but the publication of an archive announces one. -/
theorem Step.outbox (h : Step x m op ok a b m') (hg : Guard m a) : b.outbox = a.outbox ∨
    ∃ ready, b.outbox = a.outbox ++ [ready] ∧ m.builds = some ready.requestId ∧
      Settled b ready.requestId := by
  cases h with
  | @published req staged missing isPartial archive key =>
      obtain ⟨r, hr, -⟩ := hg.2 req.pk rfl
      refine .inr ⟨_, rfl, rfl, r.publish x key isPartial missing a.tokens, ?_, ?_⟩
      · exact Table.get?_modify_self _ hr
      · simp [DataExportRequest.publish, DataExportRequest.isSettled]
  | exported | archiveDeleted => exact .inl (by simp)
  | _ => exact .inl rfl

/-! ### What every step keeps -/

theorem DataExportRequest.not_settled_of_open (h : r.isOpen = true) : r.isSettled = false := by
  rw [DataExportRequest.isOpen_iff] at h
  rcases h with h | h <;> simp [DataExportRequest.isSettled, h]

theorem DataExportRequest.not_settled_of_assembling (h : r.status = .assembling) :
    r.isSettled = false := by
  simp [DataExportRequest.isSettled, h]

/-- A held request is not published. -/
theorem Assembling.not_settled (h : Assembling db pk) : ¬ Settled db pk := by
  rintro ⟨r, hr, hset⟩
  obtain ⟨r', hr', hs⟩ := h
  obtain rfl : r = r' := Option.some.inj (hr.symm.trans hr')
  rw [DataExportRequest.not_settled_of_assembling hs] at hset
  exact absurd hset (by simp)

/-- The row of a request that is built is not settled. -/
theorem Guard.unsettled (hg : Guard m a) (hm : m.builds = some pk)
    (hr : a.requests.get? pk = some r) : r.isSettled = false := by
  obtain ⟨r₀, hr₀, hs⟩ := hg.2 pk hm
  obtain rfl : r₀ = r := Option.some.inj (hr₀.symm.trans hr)
  exact DataExportRequest.not_settled_of_assembling hs

theorem RowMove.later (h : RowMove m m' pk r r') (hg : Guard m a)
    (hr : a.requests.get? pk = some r) : RowLater r r' := by
  cases h with
  | started ho => exact .of_unsettled (DataExportRequest.not_settled_of_open ho) rfl rfl
  | locked ho => exact .of_unsettled (DataExportRequest.not_settled_of_open ho) rfl rfl
  | published hm => exact .of_unsettled (hg.unsettled hm hr) rfl rfl
  | gaveBack hm => exact .of_unsettled (hg.unsettled hm hr) rfl rfl
  | retired _ _ hrow => exact hrow

/-- A call's own steps are among those every call relies on. -/
theorem Step.later (h : Step x m op ok a b m') (hg : Guard m a) : Later a b where
  rows i r hr := by
    cases h.rows hg with
    | same hrows _ => exact ⟨r, by rw [hrows]; exact hr, .refl r⟩
    | inserted row hrows _ _ =>
        exact ⟨r, by rw [hrows]; exact Table.get?_insert_of_some row hr, .refl r⟩
    | modified pk f hrows hrow _ =>
        rw [hrows]
        by_cases hi : i = pk
        · subst hi
          exact ⟨f r, Table.get?_modify_self f hr, (hrow r hr).later hg hr⟩
        · exact ⟨r, (Table.get?_modify_of_ne f hi).trans hr, .refl r⟩
  parts i p hp := h.parts.evolves.kept hp

theorem ExportDb.expects.later {service : String} (h : a.expects pk service) (hl : Later a b) :
    b.expects pk service := by
  obtain ⟨r, hr, hmem⟩ := h
  obtain ⟨r', hr', hrow⟩ := hl.rows pk r hr
  exact ⟨r', hr', by rw [hrow.expected]; exact hmem⟩

theorem RowMove.blank (h : RowMove m m' pk r r') (hg : Guard m a)
    (hr : a.requests.get? pk = some r) (hs : r'.isSettled = false) : r'.Blank := by
  have hblank := hg.1.blank pk r hr
  cases h with
  | started ho => exact hblank (DataExportRequest.not_settled_of_open ho)
  | locked ho => exact hblank (DataExportRequest.not_settled_of_open ho)
  | published =>
      exact absurd hs (by simp [DataExportRequest.publish, DataExportRequest.isSettled])
  | gaveBack hm => exact hblank (hg.unsettled hm hr)
  | retired _ hset => exact absurd hset (by simp [hs])

/-- A row that is held is let go by its builder only. -/
theorem RowMove.held (h : RowMove m m' pk r r') (hr : r.status = .assembling) :
    m.builds = some pk := by
  cases h with
  | started ho => simp [DataExportRequest.isOpen, hr] at ho
  | locked ho => simp [DataExportRequest.isOpen, hr] at ho
  | published hm => exact hm
  | gaveBack hm => exact hm
  | retired hs => simp [DataExportRequest.isSettled, hr] at hs

theorem Step.blank (h : Step x m op ok a b m') (hg : Guard m a) (hr : b.requests.get? pk = some r)
    (hs : r.isSettled = false) : r.Blank := by
  cases h.rows hg with
  | same hrows _ => exact hg.1.blank pk r (by rw [← hrows]; exact hr) hs
  | inserted row hrows hrow _ =>
      rw [hrows, Table.get?_insert] at hr
      split at hr
      · obtain rfl := Option.some.inj hr
        exact hrow.2
      · exact hg.1.blank pk r hr hs
  | modified i f hrows hrow _ =>
      rw [hrows] at hr
      by_cases hi : pk = i
      · subst hi
        rw [Table.get?_modify, if_pos rfl] at hr
        obtain ⟨r₀, hr₀, rfl⟩ := Option.map_eq_some_iff.mp hr
        exact (hrow r₀ hr₀).blank hg hr₀ hs
      · exact hg.1.blank pk r ((Table.get?_modify_of_ne f hi).symm.trans hr) hs

/-- Every step keeps the store sound. -/
theorem Step.sound (h : Step x m op ok a b m') (hg : Guard m a) : Sound b where
  blank _ _ hr hs := h.blank hg hr hs
  announced := by
    have hold : ∀ ready ∈ a.outbox, Settled b ready.requestId := fun ready hmem =>
      (h.later hg).settled (hg.1.announced ready hmem)
    rcases h.outbox hg with hsame | ⟨new, happ, -, hset⟩
    · rwa [hsame]
    · rw [happ]
      intro ready hmem
      rcases List.mem_append.mp hmem with hmem | hmem
      · exact hold ready hmem
      · rw [List.mem_singleton.mp hmem]
        exact hset
  once := by
    rcases h.outbox hg with hsame | ⟨new, happ, hbuilds, -⟩
    · rw [hsame]
      exact hg.1.once
    · -- what is published now was held, and nothing that was announced is
      rw [happ, List.map_append, List.map_singleton, List.nodup_append]
      refine ⟨hg.1.once, List.nodup_singleton _, ?_⟩
      intro i hi j hj heq
      rw [List.mem_singleton.mp hj] at heq
      obtain ⟨ready, hmem, rfl⟩ := List.mem_map.mp hi
      obtain ⟨r, hr, hset⟩ := hg.1.announced ready hmem
      rw [heq] at hr
      rw [hg.unsettled hbuilds hr] at hset
      exact absurd hset (by simp)
  enrolled i p hp := by
    rcases h.parts.evolves.row hp with ⟨q, hq, hreq, hservice⟩ | ⟨-, hexp, -⟩
    · rw [hreq, hservice]
      exact (hg.1.enrolled i q hq).later (h.later hg)
    · exact hexp.later (h.later hg)
  unique i j p q hp hq hreq hservice := by
    rcases h.parts.evolves.row hp with ⟨p₀, hp₀, hpr, hps⟩ | ⟨hi, -, hpnew⟩
    · rcases h.parts.evolves.row hq with ⟨q₀, hq₀, hqr, hqs⟩ | ⟨-, -, hqnew⟩
      · exact hg.1.unique i j p₀ q₀ hp₀ hq₀ (hpr.symm.trans (hreq.trans hqr))
          (hps.symm.trans (hservice.trans hqs))
      · exact absurd (hps.symm.trans hservice) (hqnew i p₀ hp₀ (hpr.symm.trans hreq))
    · rcases h.parts.evolves.row hq with ⟨q₀, hq₀, hqr, hqs⟩ | ⟨hj, -, -⟩
      · exact absurd (hqs.symm.trans hservice.symm) (hpnew j q₀ hq₀ (hqr.symm.trans hreq.symm))
      · -- both are the row that was added
        have hone := h.parts.one
        have hilt := Table.get?_lt hp
        have hjlt := Table.get?_lt hq
        have hige : a.parts.nextPk ≤ i := List.getElem?_eq_none_iff.mp hi
        have hjge : a.parts.nextPk ≤ j := List.getElem?_eq_none_iff.mp hj
        omega

/-- What a call may count on in its next phase. -/
theorem Step.guard (h : Step x m op ok a b m') (hg : Guard m a) : Guard m' b := by
  refine ⟨h.sound hg, ?_⟩
  cases h with
  | stays | listed | found | refused | opened | notOpened | written | copied | notCopied | judged
  | zipped | saved | notPublished => exact hg.2
  | @locked pk r _ hr ho =>
      intro i hi
      obtain rfl : pk = i := Option.some.inj hi
      exact ⟨_, Table.get?_modify_self _ hr, rfl⟩
  | _ => exact fun i hi => absurd hi (by simp [Phase.builds])

/-- A step lets go of no request but its own call's, and takes none that is held. -/
theorem Step.others (h : Step x m op ok a b m') (hg : Guard m a) (hheld : Assembling a pk)
    (hm : m.builds ≠ some pk) : Assembling b pk ∧ m'.builds ≠ some pk := by
  obtain ⟨r, hr, hs⟩ := hheld
  cases h.rows hg with
  | same hrows hbuilds => exact ⟨⟨r, by rw [hrows]; exact hr, hs⟩, by rwa [hbuilds]⟩
  | inserted row hrows _ hbuilds =>
      exact ⟨⟨r, by rw [hrows]; exact Table.get?_insert_of_some row hr, hs⟩, by rwa [hbuilds]⟩
  | modified i f hrows hrow hbuilds =>
      have hne : pk ≠ i := by
        rintro rfl
        exact hm ((hrow r hr).held hs)
      refine ⟨⟨r, by rw [hrows]; exact (Table.get?_modify_of_ne f hne).trans hr, hs⟩, ?_⟩
      intro hm'
      rcases hbuilds pk hm' with hm₀ | heq
      · exact hm hm₀
      · exact hne heq

/-- A build is worked on by the call that holds the request. -/
theorem Step.builder (h : Step x m op ok a b m') (hop : op.builds = some pk) :
    m.builds = some pk := by
  cases h with
  | stays hm =>
      rcases hm.2 with hm | hm
      · rw [hm] at hop
        exact absurd hop (by simp)
      · exact hm.symm.trans hop
  | listed | found | refused | opened | notOpened | written | copied | judged | zipped | saved
  | published => exact hop
  | notCopied hcopy => rcases hcopy with rfl | rfl <;> exact hop
  | notPublished hlast => rcases hlast with rfl | rfl <;> exact hop
  | notDeleted hdelete =>
      rcases hdelete with rfl | rfl <;> exact absurd hop (by simp [ExportOp.builds])
  | gaveBack hm => exact (Phase.builds_of_drafts hm).trans hop
  | _ => exact absurd hop (by simp [ExportOp.builds])

/-- A call holds a request because it held it, or because the request was free. -/
theorem Step.takes (h : Step x m op ok a b m') (hm : m'.builds = some pk) :
    m.builds = some pk ∨ ¬ Assembling a pk := by
  cases h with
  | stays | listed | found | refused | opened | notOpened | written | copied | notCopied | judged
  | zipped | saved | notPublished => exact .inl hm
  | @locked i r _ hr hopen =>
      obtain rfl : i = pk := Option.some.inj hm
      refine .inr fun ⟨r₀, hr₀, hs⟩ => ?_
      obtain rfl : r = r₀ := Option.some.inj (hr.symm.trans hr₀)
      simp [DataExportRequest.isOpen, hs] at hopen
  | _ => exact absurd hm (by simp [Phase.builds])

end StapelGdpr.Export
