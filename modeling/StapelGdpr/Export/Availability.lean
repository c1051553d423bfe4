import StapelGdpr.Export.Forfeit

/-!
# StapelGdpr.Export.Availability

The status endpoint beside the download. Both read the same row: the one says whether the archive
can be downloaded, the other decides it. They agree except where the download window has closed
and the purge has not passed yet, since only the download looks at `download_expires_at`
(`agree_iff`).
-/

namespace StapelGdpr.Export

open Prog

variable {κ : Type} [DecidableEq κ] {calls : κ → Exporter × Caller} {may : κ → ExportOp → Prop}
  {P : Pool ExportOp ExportDb ExportError Unit κ} {start db a b : ExportDb}
  {tr : List (Pool.Event κ ExportOp ExportDb)} {x : Exporter} {m m' : Phase} {op : ExportOp}
  {ok : Bool} {pk : Nat} {token : TokenHash} {userId : UserId} {req : Stored DataExportRequest}

/-! ### The status endpoint -/

/-- `ExportStatusDTO`. -/
structure ExportStatusReport where
  requestId : Nat
  status : ExportStatus
  partsDone : Nat
  partsTotal : Nat
  downloadAvailable : Bool
  expiresAt : Option Time
  isPartial : Bool := false
  missingServices : List String := []
  deriving DecidableEq, Repr

/-- The request the endpoint speaks about: the newest of the user that is not EXPIRED. -/
def ExportDb.shown (db : ExportDb) (userId : UserId) : Option (Stored DataExportRequest) :=
  (newestFirst (db.requests.select fun r => r.userId = userId && r.status ≠ .expired)).head?

/-- `DataExportStatusView.get`; `none` is the 404. -/
def ExportDb.statusReport (db : ExportDb) (userId : UserId) : Option ExportStatusReport :=
  (db.shown userId).map fun req =>
    { requestId := req.pk
      status := req.row.status
      partsDone := (db.parts.select fun p => p.request = req.pk && p.status = .done).length
      partsTotal := (db.parts.select fun p => p.request = req.pk).length
      downloadAvailable := req.row.status = .ready && req.row.downloadTokenHash.isSome &&
        req.row.downloadConsumedAt.isNone
      expiresAt := req.row.downloadExpiresAt
      isPartial := req.row.isPartial
      missingServices := req.row.missingServices }

/-- What is shown is a row of the user. -/
theorem shown_some (h : db.shown userId = some req) : db.requests.get? req.pk = some req.row ∧
    req.row.userId = userId ∧ req.row.status ≠ .expired := by
  have hmem : req ∈ newestFirst
      (db.requests.select fun r => r.userId = userId && r.status ≠ .expired) :=
    List.mem_of_head? h
  obtain ⟨hget, hrow⟩ := Table.mem_select.mp (mem_newestFirst.mp hmem)
  simp only [Bool.and_eq_true, decide_eq_true_eq] at hrow
  exact ⟨hget, hrow.1, hrow.2⟩

/-! ### Every token is on one row -/

/-- Every token was drawn, and no two rows have the same. -/
structure Coined (db : ExportDb) : Prop where
  below : ∀ pk token, db.token pk = some token → token < db.tokens
  apart : ∀ i j token, db.token i = some token → db.token j = some token → i = j

theorem coined_of_empty (h : db.requests = {}) : Coined db := by
  have hnone : ∀ pk, db.token pk = none := by
    intro pk
    rw [ExportDb.token, h]
    rfl
  exact ⟨fun pk _ ht => by simp [hnone] at ht, fun i _ _ ht => by simp [hnone] at ht⟩

@[simp] theorem stageAll_tokens (db : ExportDb) (request : Nat) (dir : String)
    (files : List (String × Bytes)) : (db.stageAll request dir files).tokens = db.tokens := by
  obtain ⟨staging, heq, -⟩ := ExportDb.stageAll_frame db request dir files
  rw [heq]

@[simp] theorem removeArchive_tokens (db : ExportDb) (stored : String) :
    (db.removeArchive stored).tokens = db.tokens := by
  obtain ⟨archives, legacy, heq, -⟩ := ExportDb.removeArchive_frame db stored
  rw [heq]

/-- A step draws no token, or one for the row it publishes. -/
theorem Step.draws (h : Step x m op ok a b m') :
    b.tokens = a.tokens ∧ (∀ pk token, b.token pk = some token → a.token pk = some token) ∨
      b.tokens = a.tokens + 1 ∧ ∃ i, ∀ pk token, b.token pk = some token →
        pk = i ∧ token = a.tokens ∨ a.token pk = some token := by
  have hsame : b.requests = a.requests → ∀ pk token, b.token pk = some token →
      a.token pk = some token := by
    intro hrows pk token ht
    rw [ExportDb.token, ← hrows]
    exact ht
  cases h with
  | @created userId =>
      refine .inl ⟨rfl, fun pk token ht => ?_⟩
      obtain ⟨r, hr, htoken⟩ := Option.bind_eq_some_iff.mp ht
      rw [Table.get?_insert] at hr
      split at hr
      · obtain rfl := Option.some.inj hr
        exact absurd htoken (by simp [newRequest])
      · exact Option.bind_eq_some_iff.mpr ⟨r, hr, htoken⟩
  | started | locked | gaveBack | consumed | pathNulled =>
      exact .inl ⟨rfl, fun _ _ ht => token_of_modify ht fun _ => .inl rfl⟩
  | expired => exact .inl ⟨rfl, fun _ _ ht => token_of_modify ht fun _ => .inr rfl⟩
  | @published req staged missing isPartial archive key =>
      refine .inr ⟨rfl, req.pk, fun pk token ht => ?_⟩
      obtain ⟨r', hr', htoken⟩ := Option.bind_eq_some_iff.mp ht
      by_cases hpk : pk = req.pk
      · subst hpk
        -- the row has the token that was drawn
        have hget : (a.requests.modify req.pk (·.publish x key isPartial missing a.tokens)).get?
            req.pk = some r' := hr'
        rw [Table.get?_modify, if_pos rfl] at hget
        obtain ⟨r, -, rfl⟩ := Option.map_eq_some_iff.mp hget
        exact .inl ⟨rfl, (Option.some.inj htoken).symm⟩
      · exact .inr (Option.bind_eq_some_iff.mpr
          ⟨r', (Table.get?_modify_of_ne _ hpk).symm.trans hr', htoken⟩)
  | exported | archiveDeleted => exact .inl ⟨by simp, hsame (by simp)⟩
  | _ => exact .inl ⟨rfl, hsame rfl⟩

theorem Step.coined (h : Step x m op ok a b m') (hc : Coined a) : Coined b := by
  rcases h.draws with ⟨htokens, hold⟩ | ⟨htokens, i, hnew⟩
  · constructor
    · intro pk token ht
      rw [htokens]
      exact hc.below pk token (hold pk token ht)
    · intro i j token hi hj
      exact hc.apart i j token (hold i token hi) (hold j token hj)
  · constructor
    · intro pk token ht
      rw [htokens]
      rcases hnew pk token ht with ⟨-, rfl⟩ | hbefore
      · exact Nat.lt_succ_self _
      · exact (hc.below pk token hbefore).trans (Nat.lt_succ_self _)
    · intro j k token hj hk
      rcases hnew j token hj with ⟨rfl, rfl⟩ | hj'
      · rcases hnew k _ hk with ⟨rfl, -⟩ | hk'
        · rfl
        · exact absurd (hc.below k _ hk') (Nat.lt_irrefl _)
      · rcases hnew k token hk with ⟨-, rfl⟩ | hk'
        · exact absurd (hc.below j _ hj') (Nat.lt_irrefl _)
        · exact hc.apart j k token hj' hk'

theorem runs_coined (hs : Sound start) (hc : Coined start)
    (hmay : ∀ k op, may k op → op.outside = true)
    (hrun : Pool.Runs may (callers calls) start tr P db) : Coined db := by
  obtain ⟨-, -, hcoined, -⟩ := runs_invariant hs hmay (J := fun _ _ db => Coined db)
    (H := fun _ _ => True) (fun _ _ _ _ _ h hstep _ => hstep.coined h) hc hrun
    fun _ _ _ _ => trivial
  exact hcoined

/-- The lookup of the user's own token finds the row. -/
theorem redeemable_own (hc : Coined db) (hr : db.requests.get? req.pk = some req.row)
    (huser : req.row.userId = userId) (htoken : req.row.downloadTokenHash = some token) :
    db.redeemable userId token = some req := by
  refine Table.first?_eq_some hr (by simp [huser, htoken]) fun i r hget hrow => ?_
  simp only [Bool.and_eq_true, decide_eq_true_eq] at hrow
  exact hc.apart i req.pk token (Option.bind_eq_some_iff.mpr ⟨r, hget, hrow.2⟩)
    (Option.bind_eq_some_iff.mpr ⟨req.row, hr, htoken⟩)

/-! ### The download at the same time -/

/-- A 404, 410 or 425. -/
def DownloadAnswer.isRefusal : DownloadAnswer → Bool
  | notFound | consumed | notReady | expired => true
  | internal | file _ => false

/-- The request is ready and its token unspent, as the status endpoint reads it. -/
def DataExportRequest.isAvailable (r : DataExportRequest) : Bool :=
  r.status = .ready && r.downloadTokenHash.isSome && r.downloadConsumedAt.isNone

/-- The download window has closed. -/
def DataExportRequest.isClosed (r : DataExportRequest) (now : Time) : Bool :=
  r.downloadExpiresAt.any (· < now)

theorem storedArchiveExists_reading {may : ExportOp → Prop} {stored : Option String}
    {E : ExportError → ExportDb → Prop} (hE : ∀ e, E e db) :
    Does may (fun _ _ _ => True) (fun _ db' => db' = db) E (storedArchiveExists stored) db := by
  unfold storedArchiveExists
  split
  · exact does_ret.mpr rfl
  · exact does_ret.mpr rfl
  · refine Does.tryCatch (X := fun _ db' => db' = db)
      (does_query.mpr ⟨⟨trivial, rfl⟩, fun _ _ => ⟨trivial, rfl⟩⟩) fun e db' hdb => ?_
    subst hdb
    split
    · exact does_ret.mpr rfl
    · exact does_raise.mpr (hE e)

/-- Unless its window has closed on it, the download refuses exactly what is not available,
whatever fails outside the database. -/
theorem serve_open (hfound : db.redeemable userId token = some req)
    (hopen : req.row.isAvailable = true → req.row.isClosed x.env.now = false) :
    Does (fun op => op.outside = true) (fun _ _ _ => True)
      (fun answer _ => answer.isRefusal = !req.row.isAvailable)
      (fun _ _ => req.row.isAvailable = true) (serve x userId (some token)) db := by
  obtain ⟨hget, hrow⟩ := Table.first?_some hfound
  simp only [Bool.and_eq_true, decide_eq_true_eq] at hrow
  unfold serve
  refine does_bind.mpr (does_query.mpr ⟨⟨trivial, ?_⟩, by simp [ExportOp.outside]⟩)
  rw [ExportDb.redeemable] at hfound
  rw [hfound]
  dsimp only
  split
  · rename_i hconsumed
    have hspent : req.row.downloadConsumedAt.isNone = false := by
      rwa [Bool.eq_false_iff, Ne, Option.isNone_iff_eq_none]
    refine does_ret.mpr ?_
    simp [DownloadAnswer.isRefusal, DataExportRequest.isAvailable, hspent]
  rename_i hunspent
  split
  · rename_i hnotReady
    refine does_ret.mpr ?_
    simp [DownloadAnswer.isRefusal, DataExportRequest.isAvailable, hnotReady]
  rename_i hready
  rw [not_not] at hunspent hready
  have havailable : req.row.isAvailable = true := by
    simp [DataExportRequest.isAvailable, hunspent, hready, hrow.2]
  have hintime := hopen havailable
  rw [DataExportRequest.isClosed] at hintime
  rw [havailable, if_neg (by simp [hintime])]
  refine Does.bind (storedArchiveExists_reading fun _ => rfl) fun there db' hdb => ?_
  subst hdb
  split
  · exact does_ret.mpr rfl
  -- nobody else spends the token meanwhile
  have hspendable : ((db'.requests.get? req.pk).any fun r =>
      r.downloadTokenHash = some token && r.downloadConsumedAt = none) = true := by
    simp [hget, hrow.2, hunspent]
  refine does_bind.mpr (does_atomic.mpr ⟨⟨trivial, ?_⟩, by simp [ExportOp.outside]⟩)
  dsimp only
  rw [hspendable, if_neg (by simp)]
  refine Does.bind (P := fun _ _ => True) (does_atomic.mpr ⟨?_, fun _ _ => ⟨trivial, rfl⟩⟩)
    fun archive db'' _ => ?_
  · split
    · exact ⟨trivial, trivial⟩
    · exact ⟨trivial, rfl⟩
  refine Does.bind (P := fun _ _ => True) ?_ fun _ _ _ => ?_
  · exact deleteArchive_purges.does.imp (fun _ _ _ _ => trivial) (fun _ _ _ => trivial)
      fun _ _ _ => rfl
  · exact does_bind.mpr (does_write.mpr
      ⟨⟨trivial, does_ret.mpr rfl⟩, fun _ _ => ⟨trivial, rfl⟩⟩)

/-- Left alone, the expiry of an export comes to its end. -/
theorem expireExport_returns : Ends (fun _ _ => True) (fun _ _ => False) (expireExport req) db := by
  have hdelete : ∀ {stored : String}, Ends (fun _ _ => True) (fun _ _ => False)
      (deleteArchive stored) db := by
    intro stored
    unfold deleteArchive
    split
    · exact does_ret.mpr trivial
    · exact Does.tryCatch (X := fun _ _ => False) (ends_atomic.mpr trivial) fun _ _ h => h.elim
  have hlook : ∀ {db : ExportDb} {stored : Option String}, Ends (fun _ _ => True)
      (fun _ _ => False) (storedArchiveExists stored) db := by
    intro db stored
    unfold storedArchiveExists
    split
    · exact does_ret.mpr trivial
    · exact does_ret.mpr trivial
    · exact Does.tryCatch (X := fun _ _ => False) (ends_query.mpr trivial) fun _ _ h => h.elim
  have hstored : Ends (fun _ _ => True) (fun _ _ => False) (deleteStored req.row.archivePath)
      db := by
    unfold deleteStored
    split
    · exact does_ret.mpr trivial
    · exact does_ret.mpr trivial
    · refine hdelete.bind fun deleted _ _ => ?_
      split
      · exact does_ret.mpr trivial
      · exact hlook.bind fun _ _ _ => does_ret.mpr trivial
  exact hstored.bind fun _ _ _ => does_write.mpr ⟨⟨trivial, trivial⟩, fun h => h.elim⟩

/-- Past the window, a download that would have been served is refused. -/
theorem serve_closed (hfound : db.redeemable userId token = some req)
    (havailable : req.row.isAvailable = true) (hclosed : req.row.isClosed x.env.now = true) :
    Ends (fun answer _ => answer = .expired) (fun _ _ => False) (serve x userId (some token))
      db := by
  simp only [DataExportRequest.isAvailable, Bool.and_eq_true, decide_eq_true_eq,
    Option.isNone_iff_eq_none] at havailable
  rw [DataExportRequest.isClosed] at hclosed
  unfold serve
  refine does_bind.mpr (ends_query.mpr ?_)
  rw [ExportDb.redeemable] at hfound
  rw [hfound]
  dsimp only
  rw [if_neg (by simp [havailable.2]), if_neg (by simp [havailable.1.1]), if_pos hclosed]
  exact expireExport_returns.bind fun _ _ _ => does_ret.mpr rfl

/-! ### Where the two views agree -/

/-- The POST was refused. -/
def Refused (p : ExportProgram DownloadAnswer) : Prop :=
  ∃ answer, p = .ret answer ∧ answer.isRefusal = true

/-- What the endpoint says of a request is what a download with its token comes to, now and
whatever fails outside the database. -/
def Agree (x : Exporter) (db : ExportDb) (userId : UserId) : Prop :=
  ∀ report token ops p db', db.statusReport userId = some report →
    db.token report.requestId = some token →
    Prog.Runs (fun op => op.outside = true) (serve x userId (some token)) db ops p db' → p.Done →
    (report.downloadAvailable = true ↔ ¬ Refused p)

/-- The request that is shown could be downloaded until its window closed. -/
def Lapsed (x : Exporter) (db : ExportDb) (userId : UserId) : Prop :=
  ∃ req, db.shown userId = some req ∧ req.row.isAvailable = true ∧
    req.row.isClosed x.env.now = true

/-- What is shown is found by its token. -/
theorem redeemable_shown (hc : Coined db) (hshown : db.shown userId = some req)
    (htoken : req.row.downloadTokenHash = some token) : db.redeemable userId token = some req := by
  obtain ⟨hget, huser, -⟩ := shown_some hshown
  exact redeemable_own hc hget huser htoken

/-- A closed window is shown as open. -/
theorem Lapsed.disagree (hc : Coined db) (h : Lapsed x db userId) : ¬ Agree x db userId := by
  obtain ⟨req, hshown, havailable, hclosed⟩ := h
  intro hagree
  obtain ⟨token, htoken⟩ : ∃ token, req.row.downloadTokenHash = some token := by
    simp only [DataExportRequest.isAvailable, Bool.and_eq_true] at havailable
    exact Option.isSome_iff_exists.mp havailable.1.2
  have hexpired := serve_closed (redeemable_shown hc hshown htoken) havailable hclosed
  obtain ⟨ops, hops⟩ := runs_run (fun op => op.outside = true) (serve x userId (some token)) db
  rw [ends_iff_run] at hexpired
  cases hres : (serve x userId (some token)).run db with
  | mk out after =>
      rw [hres] at hexpired hops
      cases out with
      | error e => exact hexpired
      | ok answer =>
          obtain rfl : answer = .expired := hexpired
          have hsays := hagree _ token ops _ after (by rw [ExportDb.statusReport, hshown]; rfl)
            (Option.bind_eq_some_iff.mpr ⟨req.row, (shown_some hshown).1, htoken⟩) hops trivial
          exact hsays.mp havailable ⟨_, rfl, rfl⟩

/-- **The status endpoint and the download agree** on every reachable store, unless the window of
the request that is shown has closed and no purge has passed since. -/
theorem agree_iff (hs : Sound start) (hc : Coined start)
    (hmay : ∀ k op, may k op → op.outside = true)
    (hrun : Pool.Runs may (callers calls) start tr P db) :
    Agree x db userId ↔ ¬ Lapsed x db userId := by
  have hcoined := runs_coined hs hc hmay hrun
  constructor
  · exact fun hagree hlapsed => hlapsed.disagree hcoined hagree
  · intro hopen report token ops p after hreport htoken hops hdone
    obtain ⟨req, hshown, rfl⟩ := Option.map_eq_some_iff.mp hreport
    obtain ⟨r, hr, htoken⟩ := Option.bind_eq_some_iff.mp htoken
    obtain rfl : req.row = r := Option.some.inj ((shown_some hshown).1.symm.trans hr)
    change req.row.isAvailable = true ↔ _
    have hintime : req.row.isAvailable = true → req.row.isClosed x.env.now = false := by
      intro havailable
      exact Bool.eq_false_iff.mpr fun hclosed => hopen ⟨req, hshown, havailable, hclosed⟩
    have hdoes := serve_open (redeemable_shown hcoined hshown htoken) hintime
    cases p with
    | ret answer =>
        have hanswer : answer.isRefusal = !req.row.isAvailable := hdoes.returned hops
        simp [Refused, hanswer]
    | raise e =>
        have havailable : req.row.isAvailable = true := hdoes.raised hops
        simp [Refused, havailable]
    | step => exact absurd hdone id

/-- The export of `redemption` is READY, and nobody has come for it. -/
def waiting : List (Pool.Event (Fin 5) ExportOp ExportDb) ×
    Pool ExportOp ExportDb ExportError Unit (Fin 5) × ExportDb :=
  Pool.schedule (List.replicate 5 0 ++ List.replicate 10 1 ++ List.replicate 30 2)
    (callers redemption) uploaded

/-- The second day, when the link has expired. -/
def nextDay : Exporter := { exporter with env := { exporter.env with now := days 1 + 1 } }

theorem agree_iff_waiting : Agree exporter waiting.2.2 "u1" ∧
    (waiting.2.2.statusReport "u1").map (·.downloadAvailable) = some true := by
  refine ⟨(agree_iff (sound_of_empty rfl rfl rfl) (coined_of_empty rfl) (fun _ _ h => h)
    (Pool.runs_schedule (fun _ op => op.outside = true) _ (callers redemption) uploaded)).mpr ?_,
    by decide +kernel⟩
  rintro ⟨req, hshown, -, hclosed⟩
  have hopen : (waiting.2.2.shown "u1").all (fun o => !o.row.isClosed exporter.env.now) = true := by
    decide +kernel
  rw [hshown] at hopen
  simp [hclosed] at hopen

/-- The endpoint offers the download, and the download says that the link has expired. -/
theorem offered_expired : (waiting.2.2.statusReport "u1").map (·.downloadAvailable) = some true ∧
    ((serve nextDay "u1" (some 0)).run waiting.2.2).1 = .ok .expired ∧
    ¬ ∀ (x : Exporter) (start db : ExportDb) (userId : UserId)
      (tr : List (Pool.Event (Fin 5) ExportOp ExportDb))
      (P : Pool ExportOp ExportDb ExportError Unit (Fin 5)),
      Sound start → Coined start →
      Pool.Runs (fun _ op => op.outside = true) (callers redemption) start tr P db →
      Agree x db userId := by
  refine ⟨by decide +kernel, by decide +kernel, fun hclaim => ?_⟩
  have hrun := Pool.runs_schedule (fun _ op => op.outside = true)
    (List.replicate 5 0 ++ List.replicate 10 1 ++ List.replicate 30 2) (callers redemption) uploaded
  have hsound : Sound uploaded := sound_of_empty rfl rfl rfl
  have hcoined : Coined uploaded := coined_of_empty rfl
  have hlapsed : Lapsed nextDay waiting.2.2 "u1" := by
    refine ⟨_, (Option.some_get (by decide +kernel)).symm, ?_, ?_⟩
    · decide +kernel
    · decide +kernel
  exact hlapsed.disagree (runs_coined hsound hcoined (fun _ _ h => h) hrun)
    (hclaim nextDay _ _ "u1" _ _ hsound hcoined hrun)

end StapelGdpr.Export
