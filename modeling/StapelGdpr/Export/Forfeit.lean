import StapelGdpr.Export.Download

/-!
# StapelGdpr.Export.Forfeit

What a failed download costs. The view spends the token before it opens the archive: a download
that fails before that leaves the export as it was, one that fails after it has lost the export,
and so has one whose archive the purge took meanwhile (`presentable_iff`).

The purge can: an export whose window closes this very moment is still served and already stale,
and a download that is spent and not yet served is an orphan.
-/

namespace StapelGdpr.Export

open Prog

variable {κ : Type} [DecidableEq κ] {calls : κ → Exporter × Caller} {may : κ → ExportOp → Prop}
  {P : Pool ExportOp ExportDb ExportError (Option DownloadAnswer) κ} {start db a b c : ExportDb}
  {tr pre post es rest : List (Pool.Event κ ExportOp ExportDb)}
  {e f : Pool.Event κ ExportOp ExportDb} {x : Exporter} {d : κ} {pk : Nat} {stored : String}
  {token : TokenHash} {userId : UserId} {req : Stored DataExportRequest}

/-! ### Archives -/

theorem archive?_removeArchive {db : ExportDb} {stored key : String} :
    (db.removeArchive stored).archive? key = if key = stored then none else db.archive? key := by
  have hfilter : ∀ kept : List (String × Archive),
      (kept.filter (·.1 ≠ stored)).find? (·.1 = key) =
        if key = stored then none else kept.find? (·.1 = key) := by
    intro kept
    rw [List.find?_filter]
    split
    · rename_i hkey
      subst hkey
      simp [List.find?_eq_none]
    · rename_i hkey
      congr 1
      funext entry
      by_cases hentry : entry.1 = key
      · simp [hentry, hkey]
      · simp [hentry]
  unfold ExportDb.removeArchive ExportDb.archive?
  by_cases hkey : key = stored
  · subst hkey
    by_cases hlegacy : ExportDb.isLegacyPath key = true
    · simp only [hlegacy, if_true, hfilter, Option.map_none]
    · simp only [hlegacy, Bool.false_eq_true, if_false, if_true, hfilter, Option.map_none]
  · by_cases hlegacy : ExportDb.isLegacyPath stored = true
    · by_cases hlegacy' : ExportDb.isLegacyPath key = true
      · simp only [hlegacy, hlegacy', if_true, hfilter, hkey, if_false]
      · simp only [hlegacy, hlegacy', if_true, Bool.false_eq_true, if_false, hkey]
    · by_cases hlegacy' : ExportDb.isLegacyPath key = true
      · simp only [hlegacy, hlegacy', if_true, Bool.false_eq_true, if_false, hkey]
      · simp only [hlegacy, hlegacy', Bool.false_eq_true, if_false, hfilter, hkey]

/-! ### What cannot be undone

Neither the purge nor a download makes a request valid again or brings an archive back. -/

/-- `b` comes after `a`: what is spent stays spent, what is expired stays expired, and what is
deleted stays deleted. -/
structure Worn (a b : ExportDb) : Prop where
  rows : ∀ pk r, a.requests.get? pk = some r → ∃ r', b.requests.get? pk = some r' ∧
    (r.downloadConsumedAt ≠ none → r'.downloadConsumedAt ≠ none) ∧
    (r.status = .expired → r'.status = .expired)
  archives : ∀ key, a.archive? key = none → b.archive? key = none

theorem Worn.refl (a : ExportDb) : Worn a a :=
  ⟨fun _ r hr => ⟨r, hr, id, id⟩, fun _ h => h⟩

theorem Worn.trans (h : Worn a b) (h' : Worn b c) : Worn a c where
  rows pk r hr := by
    obtain ⟨r', hr', hspent, hexpired⟩ := h.rows pk r hr
    obtain ⟨r'', hr'', hspent', hexpired'⟩ := h'.rows pk r' hr'
    exact ⟨r'', hr'', fun hs => hspent' (hspent hs), fun hs => hexpired' (hexpired hs)⟩
  archives key hkey := h'.archives key (h.archives key hkey)

theorem Worn.modify {f : DataExportRequest → DataExportRequest}
    (hspent : ∀ r, r.downloadConsumedAt ≠ none → (f r).downloadConsumedAt ≠ none)
    (hexpired : ∀ r, r.status = .expired → (f r).status = .expired) :
    Worn a (a.modifyRequest pk f) where
  rows i r hr := by
    by_cases hi : i = pk
    · subst hi
      exact ⟨f r, Table.get?_modify_self f hr, hspent r, hexpired r⟩
    · exact ⟨r, (Table.get?_modify_of_ne f hi).trans hr, id, id⟩
  archives _ h := h

theorem Worn.remove : Worn a (a.removeArchive stored) where
  rows _ r hr := ⟨r, by simpa using hr, id, id⟩
  archives key hkey := by
    rw [archive?_removeArchive, hkey]
    split <;> rfl

/-- What a purge does: it deletes archives and expires rows. -/
inductive PurgeMove : ExportOp → ExportDb → ExportDb → Prop
  | read (op : ExportOp) (a : ExportDb) : PurgeMove op a a
  | deleted (key : String) (a : ExportDb) :
      PurgeMove (.deleteArchive key) a (a.removeArchive key)
  | expired (pk : Nat) (a : ExportDb) : PurgeMove (.expireRow pk) a (a.modifyRequest pk fun r =>
      { r with status := .expired, archivePath := none, downloadTokenHash := none })

theorem PurgeMove.worn {op : ExportOp} (h : PurgeMove op a b) : Worn a b := by
  cases h with
  | read => exact .refl a
  | deleted => exact .remove
  | expired => exact .modify (fun _ h => h) fun _ _ => rfl

theorem storedArchiveExists_reads {stored : Option String} :
    Always (fun op a b => b = a ∧ ∃ key, op = .archiveExists key) (storedArchiveExists stored) := by
  unfold storedArchiveExists
  split
  · exact always_ret
  · exact always_ret
  · refine Always.tryCatch (Always.query fun _ => ⟨rfl, _, rfl⟩) fun e => ?_
    split
    · exact always_ret
    · exact always_raise

theorem deleteArchive_purges : Always PurgeMove (deleteArchive stored) := by
  unfold deleteArchive
  split
  · exact always_ret
  · refine Always.tryCatch (Always.atomic fun db => ⟨.read _ _, fun deleted db' h => ?_⟩)
      fun e => ?_
    · obtain ⟨-, rfl⟩ := Prod.mk.inj (Except.ok.inj h)
      exact .deleted _ _
    · split
      · exact always_ret
      · exact always_raise

theorem expireExport_purges : Always PurgeMove (expireExport req) := by
  unfold expireExport
  refine Always.bind ?_ fun _ => Always.write fun db => ⟨.read _ _, .expired _ _⟩
  unfold deleteStored
  split
  · exact always_ret
  · exact always_ret
  · refine Always.bind deleteArchive_purges fun deleted => ?_
    split
    · exact always_ret
    · refine Always.bind (storedArchiveExists_reads.mono ?_) fun _ => always_ret
      rintro _ a _ ⟨rfl, -⟩
      exact .read _ _

theorem purgeExpiredExports_purges : Always PurgeMove (purgeExpiredExports x) := by
  unfold purgeExpiredExports
  refine Always.bind (Always.query fun _ => .read _ _) fun stale => ?_
  refine Always.bind (Always.forM fun _ _ => expireExport_purges) fun _ => ?_
  refine Always.bind (Always.query fun _ => .read _ _) fun orphans => ?_
  exact Always.bind (Always.forM fun _ _ => expireExport_purges) fun _ => always_ret

theorem serve_worn {token : Option TokenHash} :
    Always (fun _ a b => Worn a b) (serve x userId token) := by
  have hpurges : ∀ {α : Type} {p : ExportProgram α}, Always PurgeMove p →
      Always (fun _ a b => Worn a b) p := fun h => h.mono fun _ _ _ h => h.worn
  unfold serve
  cases token with
  | none => exact always_ret
  | some token =>
      refine Always.bind (Always.query fun _ => .refl _) fun found => ?_
      cases found with
      | none => exact always_ret
      | some req =>
          dsimp only
          split
          · exact always_ret
          split
          · exact always_ret
          split
          · exact Always.bind (hpurges expireExport_purges) fun _ => always_ret
          refine Always.bind (storedArchiveExists_reads.mono ?_) fun there => ?_
          · rintro _ a _ ⟨rfl, -⟩
            exact .refl _
          split
          · exact always_ret
          refine Always.bind (Always.atomic fun db => ⟨.refl _, fun spent db' h => ?_⟩)
            fun spent => ?_
          · obtain ⟨-, rfl⟩ := Prod.mk.inj (Except.ok.inj h)
            split
            · exact .modify (fun _ _ => by simp) fun _ h => h
            · exact .refl _
          split
          · exact always_ret
          refine Always.bind (Always.atomic fun db => ⟨.refl _, fun archive db' h => ?_⟩)
            fun _ => ?_
          · split at h
            · obtain ⟨-, rfl⟩ := Prod.mk.inj (Except.ok.inj h)
              exact .refl _
            · exact absurd h (by simp)
          refine Always.bind (hpurges deleteArchive_purges) fun _ => ?_
          exact Always.bind (Always.write fun _ => ⟨.refl _, .modify (fun _ h => h) fun _ h => h⟩)
            fun _ => always_ret

/-! ### A download that fails -/

/-- An error answer that does not say the token is spent or expired. -/
def DownloadAnswer.isError : DownloadAnswer → Bool
  | notFound | notReady | internal => true
  | _ => false

/-- The download has ended in an exception or an error answer. -/
def Failed (p : ExportProgram (Option DownloadAnswer)) : Prop :=
  (∃ e, p = .raise e) ∨ ∃ answer, p = .ret (some answer) ∧ answer.isError = true

omit [DecidableEq κ] in
/-- The database answers. -/
theorem select_not_raised {may : ExportOp → Prop} {α : Type} {g : ExportDb → α} {y : ExportError}
    (hmay : ∀ op, may op → op.outside = true) :
    ¬ Pool.Follows may (ExportProgram.select g) es (.raise y) := by
  intro h
  obtain ⟨_, _, _, -, ⟨-, h⟩ | ⟨-, hselect, -⟩⟩ := h.step_done trivial
  · cases h
  · exact absurd (hmay _ hselect) (by simp [ExportOp.outside])

omit [DecidableEq κ] in
/-- **How a valid download fails**: before it has changed anything, or when the token is spent. -/
theorem serve_fails {may : ExportOp → Prop} {p' : ExportProgram DownloadAnswer}
    (hmay : ∀ op, may op → op.outside = true)
    (h : Pool.Follows may (serve x userId (some token)) (e :: rest) p') (hdone : p'.Done)
    (herror : ∀ answer, p' = .ret answer → answer.isError = true)
    (hfound : e.before.redeemable userId token = some req)
    (hvalid : Redeemable x userId token req.row) :
    (∀ f ∈ e :: rest, f.after = f.before ∧ f.label ≠ .consume req.pk) ∨
      ∃ f ∈ rest, f.label = .consume req.pk ∧ Spends req.pk token f := by
  unfold serve at h
  rcases h.bind_done hdone with ⟨y, -, hlookup⟩ | ⟨es₁, found, es₂, hes, hlookup, h⟩
  · exact absurd hlookup (select_not_raised hmay)
  obtain ⟨e', rfl, -, hg⟩ := hlookup.query_ret
  obtain ⟨rfl, rfl⟩ := List.cons.inj hes
  obtain rfl : some req = found := hfound.symm.trans hg
  have hintime : ¬ (req.row.downloadExpiresAt.any (· < x.env.now)) = true := by
    cases hlimit : req.row.downloadExpiresAt with
    | none => simp
    | some limit => simpa using hvalid.inTime limit hlimit
  dsimp only at h
  rw [if_neg (by simp [hvalid.unspent]), if_neg (by simp [hvalid.ready]), if_neg hintime] at h
  -- up to the answer of the store, nothing is changed
  have hfirst : e.after = e.before ∧ e.label ≠ .consume req.pk := by
    have hselect : Always (fun op a b => b = a ∧ op = .select) (ExportProgram.select fun s =>
        s.requests.first? fun r => r.userId = userId && r.downloadTokenHash = some token) :=
      Always.query fun _ => ⟨rfl, rfl⟩
    obtain ⟨hsame, hlabel⟩ := hlookup.always hselect e (by simp)
    exact ⟨hsame, by simp [hlabel]⟩
  have hreads : ∀ {q : ExportProgram Bool} {es : List (Pool.Event κ ExportOp ExportDb)},
      Pool.Follows may (storedArchiveExists req.row.archivePath) es q →
      ∀ f ∈ es, f.after = f.before ∧ f.label ≠ .consume req.pk := by
    intro q es hq f hf
    obtain ⟨hsame, key, hlabel⟩ := hq.always storedArchiveExists_reads f hf
    exact ⟨hsame, by simp [hlabel]⟩
  rcases h.bind_done hdone with ⟨y, -, hthere⟩ | ⟨es₃, there, es₄, rfl, hthere, h₁⟩
  · exact .inl (List.forall_mem_cons.mpr ⟨hfirst, hreads hthere⟩)
  have hsofar := hreads hthere
  split at h₁
  · have hnone : es₄ = [] := by
      cases h₁
      rfl
    subst hnone
    exact .inl (List.forall_mem_cons.mpr ⟨hfirst, by simpa using hsofar⟩)
  -- the token is spent, or the download is refused
  rcases h₁.bind_done hdone with ⟨y, -, hconsume⟩ | ⟨es₅, spent, es₆, rfl, hconsume, h₂⟩
  · obtain ⟨_, _, _, -, ⟨-, hcommitted⟩ | ⟨-, hconsume, -⟩⟩ := hconsume.step_done trivial
    · cases hcommitted
    · exact absurd (hmay _ hconsume) (by simp [ExportOp.outside])
  obtain ⟨c, rfl, hlabel, hc⟩ := hconsume.atomic_ret
  split at h₂
  · cases h₂
    exact absurd (herror _ rfl) (by simp [DownloadAnswer.isError])
  · rename_i hspent
    obtain ⟨hspendable, hafter⟩ := Prod.mk.inj (Except.ok.inj hc)
    obtain rfl : spent = true := by simpa using hspent
    rw [if_pos hspendable] at hafter
    exact .inr ⟨c, by simp, hlabel, .of_modify hspendable hafter.symm⟩

/-! ### Beside the purge -/

/-- A download with a valid token has failed, beside runs of the purge; `e` is its lookup, and
`post` is what came after. -/
structure FailedDownload (may : κ → ExportOp → Prop) (calls : κ → Exporter × Caller) (d : κ)
    (userId : UserId) (token : TokenHash) (req : Stored DataExportRequest) (start : ExportDb)
    (pre : List (Pool.Event κ ExportOp ExportDb)) (e : Pool.Event κ ExportOp ExportDb)
    (post : List (Pool.Event κ ExportOp ExportDb))
    (P : Pool ExportOp ExportDb ExportError (Option DownloadAnswer) κ) (db : ExportDb) :
    Prop where
  /-- Only what lies outside the database fails. -/
  outside : ∀ k op, may k op → op.outside = true
  download : (calls d).2 = .download userId (some token)
  purges : ∀ k, k ≠ d → (calls k).2 = .purge
  run : Pool.Runs may (answers calls) start (pre ++ e :: post) P db
  lookup : e.thread = d
  first : ∀ f ∈ pre, f.thread ≠ d
  found : e.before.redeemable userId token = some req
  valid : Redeemable (calls d).1 userId token req.row
  failed : Failed (P d)

/-- The token can be presented again: the row is as redeemable as it was and names the archive,
which is there if it was. -/
structure Presentable (x : Exporter) (userId : UserId) (token : TokenHash)
    (req : Stored DataExportRequest) (before db : ExportDb) : Prop where
  row : ∃ r, db.requests.get? req.pk = some r ∧ Redeemable x userId token r ∧
    r.archivePath = req.row.archivePath
  archive : ∀ archive, before.archive? (req.row.archivePath.getD "") = some archive →
    db.archive? (req.row.archivePath.getD "") = some archive

/-- The event costs the export: the download spends the token, or a purge expires the row or
deletes the archive that was there. -/
def Costs (d : κ) (req : Stored DataExportRequest) (before : ExportDb)
    (f : Pool.Event κ ExportOp ExportDb) : Prop :=
  if f.thread = d then f.label = .consume req.pk
  else f.after ≠ f.before ∧ (f.label = .expireRow req.pk ∨
    f.label = .deleteArchive (req.row.archivePath.getD "") ∧
      before.archive? (req.row.archivePath.getD "") ≠ none)

omit [DecidableEq κ] in
theorem answers_purges {k : κ} (h : (calls k).2 = .purge) : Always PurgeMove (answers calls k) := by
  unfold answers
  rw [h]
  exact Always.bind (Always.bind purgeExpiredExports_purges fun _ => always_ret) fun _ => always_ret

theorem answers_worn (hcall : (calls d).2 = .download userId (some token))
    (hpurge : ∀ k, k ≠ d → (calls k).2 = .purge) (k : κ) :
    Always (fun _ a b => Worn a b) (answers calls k) := by
  by_cases hk : k = d
  · subst hk
    unfold answers
    rw [hcall]
    exact Always.bind serve_worn fun _ => always_ret
  · exact (answers_purges (hpurge k hk)).mono fun _ _ _ h => h.worn

/-- What was done by an event is not undone by the end of the run. -/
theorem worn_after (hrun : Pool.Runs may (answers calls) start tr P db)
    (hworn : ∀ k, Always (fun _ a b => Worn a b) (answers calls k)) (hf : f ∈ tr) :
    Worn f.after db := by
  have hall := hrun.always hworn
  obtain ⟨pre, post, rfl⟩ := List.append_of_mem hf
  obtain ⟨P₁, s₁, -, hfrom⟩ := hrun.split
  obtain ⟨-, P₂, hafter⟩ := hfrom.head
  exact (hafter.chain (I := Worn f.after) (fun g hg h => h.trans (hall g (by simp [hg])))
    (.refl _)).1

/-- The steps of the download, once it has failed. -/
theorem own_events (h : FailedDownload may calls d userId token req start pre e post P db) :
    (∀ f ∈ e :: post, f.thread = d → f.after = f.before ∧ f.label ≠ .consume req.pk) ∨
      ∃ f ∈ post, f.thread = d ∧ f.label = .consume req.pk ∧ Spends req.pk token f := by
  have hown : (pre ++ e :: post).filter (·.thread = d) = e :: post.filter (·.thread = d) := by
    rw [List.filter_append, List.filter_eq_nil_iff.mpr (by simpa using h.first),
      List.nil_append, List.filter_cons_of_pos (by simp [h.lookup])]
  have hmem : ∀ f, f ∈ e :: post → f.thread = d → f ∈ e :: post.filter (·.thread = d) := by
    intro f hf hthread
    rw [← List.filter_cons_of_pos (by simp [h.lookup])]
    exact List.mem_filter.mpr ⟨hf, by simp [hthread]⟩
  have hfollows := h.run.follows d
  rw [hown] at hfollows
  have hdone : (P d).Done := by
    rcases h.failed with ⟨y, hy⟩ | ⟨answer, hanswer, -⟩
    · rw [hy]
      trivial
    · rw [hanswer]
      trivial
  unfold answers at hfollows
  rw [h.download] at hfollows
  -- the download itself has ended where the thread has
  obtain ⟨p', hserve, hdone', herror⟩ : ∃ p', Pool.Follows (may d)
      (serve (calls d).1 userId (some token)) (e :: post.filter (·.thread = d)) p' ∧ p'.Done ∧
      ∀ answer, p' = .ret answer → answer.isError = true := by
    rcases hfollows.bind_done hdone with ⟨y, -, hraised⟩ | ⟨es₁, answer, es₂, hes, hserve, hret⟩
    · exact ⟨.raise y, hraised, trivial, fun _ hret => absurd hret nofun⟩
    · have hend : es₂ = [] ∧ P d = .ret (some answer) := by
        generalize P d = q at hret hdone
        cases hret
        exact ⟨rfl, rfl⟩
      obtain ⟨rfl, hanswer⟩ := hend
      rw [List.append_nil] at hes
      refine ⟨.ret answer, hes ▸ hserve, trivial, fun a ha => ?_⟩
      obtain rfl := Prog.ret.inj ha
      rcases h.failed with ⟨y, hy⟩ | ⟨a', ha', herror⟩
      · exact absurd (hy.symm.trans hanswer) nofun
      · obtain rfl := Option.some.inj (Prog.ret.inj (ha'.symm.trans hanswer))
        exact herror
  rcases serve_fails (h.outside d) hserve hdone' herror h.found h.valid with
    hown | ⟨f, hf, hlabel, hspends⟩
  · exact .inl fun f hf hthread => hown f (hmem f hf hthread)
  · obtain ⟨hmem, hthread⟩ := List.mem_filter.mp hf
    exact .inr ⟨f, hmem, by simpa using hthread, hlabel, hspends⟩

/-- The row is as it was found, and the archive as it was then. -/
structure Untouched (req : Stored DataExportRequest) (before db : ExportDb) : Prop where
  row : db.requests.get? req.pk = some req.row
  archive : ∀ archive, before.archive? (req.row.archivePath.getD "") = some archive →
    db.archive? (req.row.archivePath.getD "") = some archive

/-- A purge step that costs the export nothing leaves it untouched. -/
theorem PurgeMove.untouched {op : ExportOp} {before : ExportDb} (h : PurgeMove op a b)
    (hfree : ¬ (b ≠ a ∧ (op = .expireRow req.pk ∨
      op = .deleteArchive (req.row.archivePath.getD "") ∧
        before.archive? (req.row.archivePath.getD "") ≠ none)))
    (hkept : Untouched req before a) : Untouched req before b := by
  by_cases hsame : b = a
  · rw [hsame]
    exact hkept
  · have hlabel := fun hop => hfree ⟨hsame, hop⟩
    cases h with
    | read => exact hkept
    | deleted key =>
        refine ⟨by simpa using hkept.row, fun archive harchive => ?_⟩
        rw [archive?_removeArchive, if_neg ?_]
        · exact hkept.archive archive harchive
        · rintro rfl
          exact hlabel (.inr ⟨rfl, by simp [harchive]⟩)
    | expired pk =>
        have hne : req.pk ≠ pk := by
          rintro rfl
          exact hlabel (.inl rfl)
        exact ⟨(Table.get?_modify_of_ne _ hne).trans hkept.row, hkept.archive⟩

/-- The export of `redemption`, when it is READY. -/
def published : ExportDb :=
  (Pool.schedule (List.replicate 5 0 ++ List.replicate 10 1 ++ List.replicate 30 2)
    (answers redemption) uploaded).2.2

/-- Its download, beside a purge. -/
def fetching (k : Fin 2) : Exporter × Caller :=
  (exporter, if k = 0 then .download "u1" (some 0) else .purge)

/-- They step in this order, and the marked steps fail. -/
def fetch (turns : List (Fin 2 × Option ExportError)) :
    List (Pool.Event (Fin 2) ExportOp ExportDb) ×
      Pool ExportOp ExportDb ExportError (Option DownloadAnswer) (Fin 2) × ExportDb :=
  Pool.scheduleFaults turns (answers fetching) published

/-- What has ended without a result has raised. -/
theorem raised_of_done {α : Type} {p : ExportProgram α} (hdone : p.Done)
    (hnone : p.returned?.isNone = true) : ∃ y, p = .raise y := by
  cases p with
  | ret a => exact absurd hnone (by simp [returned?])
  | raise y => exact ⟨y, rfl⟩
  | step => exact absurd hdone id

theorem fetch_failed (turns : List (Fin 2 × Option ExportError))
    (hsteps : ∀ f ∈ (fetch turns).1, f.thread = 0 ∧ (f.ok = false → f.label.outside = true))
    (hne : (fetch turns).1 ≠ []) (hfailed : Failed ((fetch turns).2.1 0)) :
    ∃ req e post, req.pk = 0 ∧ (fetch turns).1 = e :: post ∧
      FailedDownload (fun _ op => op.outside = true) fetching 0 "u1" 0 req published [] e post
        (fetch turns).2.1 (fetch turns).2.2 := by
  obtain ⟨e, post, htrace⟩ := List.exists_cons_of_ne_nil hne
  have hrun : Pool.Runs (fun _ op => op.outside = true) (answers fetching) published
      (fetch turns).1 (fetch turns).2.1 (fetch turns).2.2 :=
    Pool.runs_scheduleFaults fun f hf hok => (hsteps f hf).2 hok
  rw [htrace] at hrun
  obtain ⟨req, hfound, hpk, hready⟩ : ∃ req, published.redeemable "u1" 0 = some req ∧
      req.pk = 0 ∧ (req.row.status = .ready ∧ req.row.downloadConsumedAt = none ∧
        req.row.downloadExpiresAt.all (exporter.env.now ≤ ·) = true) := by
    refine ⟨_, (Option.some_get (by decide +kernel)).symm, ?_, ?_⟩
    · decide +kernel
    · decide +kernel
  obtain ⟨hget, hrow⟩ := Table.first?_some hfound
  simp only [Bool.and_eq_true, decide_eq_true_eq] at hrow
  refine ⟨req, e, post, hpk, htrace, fun _ _ h => h, rfl, ?_, hrun, ?_, by simp, ?_, ?_, hfailed⟩
  · intro k hk
    simp [fetching, hk]
  · exact (hsteps e (by simp [htrace])).1
  · rw [hrun.head.1]
    exact hfound
  · refine ⟨hrow.1, hrow.2, hready.1, hready.2.1, fun t ht => ?_⟩
    have hintime := hready.2.2
    rw [ht] at hintime
    exact of_decide_eq_true hintime

/-- The store does not answer when it is asked for the archive. -/
def unanswered : List (Fin 2 × Option ExportError) :=
  [(0, none), (0, some (.osError "timed out"))]

/-- The store has the archive, and fails when it is read. -/
def unreadable : List (Fin 2 × Option ExportError) :=
  [(0, none), (0, none), (0, none), (0, some (.failure "read timed out"))]

end StapelGdpr.Export
