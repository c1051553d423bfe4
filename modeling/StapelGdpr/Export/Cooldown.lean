import StapelGdpr.Export.Publication

/-!
# StapelGdpr.Export.Cooldown

"Max once per 30 days": `request_export` looks for a recent request of the user before it
creates one. The look and what is created are examined apart.

* What the check does not see is a recent request that is ASSEMBLING or EXPIRED, and a request
  is EXPIRED once its download window is over (`cooldown_iff`, `cooldown_forgotten`).
* What is created is a row, its parts and an announcement, one after the other. When the
  announcement fails the rows stay, and the next call is refused for them (`undone_iff`,
  `announcement_failed`).
-/

namespace StapelGdpr.Export

open Prog

variable {may : ExportOp → Prop} {x : Exporter} {userId : UserId} {s s' start db : ExportDb}
  {tr : List ExportOp} {p : ExportProgram (Stored DataExportRequest)} {e : ExportError}

/-! ### The two halves of a request -/

/-- A request of the user's last 30 days is PENDING, PROCESSING or READY. -/
def ExportDb.coolingDown (db : ExportDb) (userId : UserId) (now : Time) : Bool :=
  db.requests.any fun r => r.userId = userId && now - days 30 ≤ r.createdAt &&
    (r.status = .pending || r.status = .processing || r.status = .ready)

/-- `DataExportRequest.objects.create`. -/
def createRequest (x : Exporter) (userId : UserId) : ExportProgram (Stored DataExportRequest) :=
  Prog.atomic (.createRequest userId) fun db =>
    let row := newRequest x userId db.uuid4
    .ok (⟨db.requests.nextPk, row⟩, { db with requests := db.requests.insert row })

/-- What `request_export` does with the row it created. -/
def enroll (req : Stored DataExportRequest) : ExportProgram (Stored DataExportRequest) := do
  req.row.expectedServices.forM (createPart req.pk)
  Prog.external (.announce req.pk)
  return req

theorem requestExport_eq : requestExport x userId =
    Prog.query .select (·.coolingDown userId x.env.now) >>= fun recent =>
      if recent then Prog.raise (.valueError "export_cooldown")
      else createRequest x userId >>= enroll := rfl

theorem createParts_always (pk : Nat) (services : List String) :
    Always (fun _ a b => b.requests = a.requests) (services.forM (createPart pk)) := by
  refine Always.forM fun service _ => .atomic fun db => ⟨rfl, fun a db' h => ?_⟩
  split at h
  · exact absurd h (by simp)
  · obtain ⟨-, rfl⟩ := Prod.mk.inj (Except.ok.inj h)
    rfl

/-- Enrolling writes parts, not requests. -/
theorem enroll_always (req : Stored DataExportRequest) :
    Always (fun _ a b => b.requests = a.requests) (enroll req) :=
  (createParts_always _ _).bind fun _ => (Always.external fun _ => rfl).bind fun _ => always_ret

/-- It returns the request it was given. -/
theorem enroll_does (req : Stored DataExportRequest) (s : ExportDb) :
    Does may (fun _ a b => b.requests = a.requests)
      (fun req' t => req' = req ∧ t.requests = s.requests) (fun _ _ => True) (enroll req) s := by
  have hreturns : Does may (fun _ a b => b.requests = a.requests) (fun req' _ => req' = req)
      (fun _ _ => True) (enroll req) s := by
    refine (createParts_always _ _).does.bind fun _ t _ => ?_
    have hannounce : Always (fun _ a b => b.requests = a.requests)
        (Prog.external (.announce req.pk) : ExportProgram Unit) := .external fun _ => rfl
    exact hannounce.does.bind fun _ t _ => does_ret.mpr rfl
  have hinv := hreturns.inv (I := fun t => t.requests = s.requests)
    (fun _ _ _ hab ha => hab.trans ha) rfl
  exact hinv.imp (fun _ _ _ h => h.1) (fun _ _ h => h) fun _ _ _ => trivial

/-- There is a step to take before it can fail. -/
theorem enroll_ne_raise (req : Stored DataExportRequest) : enroll req ≠ .raise e := by
  unfold enroll
  cases req.row.expectedServices with
  | nil => exact nofun
  | cons service services => exact nofun

/-- A call that got past the check either failed to create its request, with nothing done, or
created it, and has gone on from there. -/
theorem requestExport_runs (h : Prog.Runs may (requestExport x userId) s tr p s')
    (hfree : s.coolingDown userId x.env.now = false) (hpassed : 2 ≤ tr.length) :
    (tr = [.select, .createRequest userId] ∧ s' = s) ∨
      ∃ rest, tr = .select :: .createRequest userId :: rest ∧
        Prog.Runs may (enroll ⟨s.requests.nextPk, newRequest x userId s.uuid4⟩)
          { s with requests := s.requests.insert (newRequest x userId s.uuid4) } rest p s' := by
  rw [requestExport_eq] at h
  cases h with
  | refl => exact absurd hpassed (by simp)
  | fault e _ h =>
      obtain ⟨rfl, -, -⟩ := Prog.Runs.of_raise h
      exact absurd hpassed (by simp)
  | ok h =>
      dsimp only at h
      rw [hfree] at h
      cases h with
      | refl => exact absurd hpassed (by simp)
      | fault e _ h =>
          obtain ⟨rfl, -, rfl⟩ := Prog.Runs.of_raise h
          exact .inl ⟨rfl, rfl⟩
      | ok h => exact .inr ⟨_, rfl, h⟩

/-! ### All or nothing -/

/-- Nothing is left of the call, and the next one, made at once, is not refused for it. -/
structure Undone (x : Exporter) (userId : UserId) (s s' : ExportDb) : Prop where
  requests : s'.requests = s.requests
  parts : s'.parts = s.parts
  retry : ∀ x' : Exporter, x'.env.now = x.env.now →
    ((requestExport x' userId).run s').1 ≠ .error (.valueError "export_cooldown")

/-- A call that gets past the check is not refused. -/
theorem not_refused (hfree : s.coolingDown userId x.env.now = false) :
    ((requestExport x userId).run s).1 ≠ .error (.valueError "export_cooldown") := by
  have hends : Ends (fun _ _ => True) (fun e _ => e ≠ .valueError "export_cooldown")
      (requestExport x userId) s := by
    rw [requestExport_eq]
    refine does_bind.mpr (ends_query.mpr ?_)
    rw [hfree]
    refine does_bind.mpr (ends_atomic.mpr ?_)
    refine Does.bind (P := fun _ _ => True) ?_ fun _ t _ => ?_
    · refine Does.forM (J := fun _ _ => True) (fun service rest t _ => ends_atomic.mpr ?_) trivial
      split
      · rename_i h
        split at h <;> simp_all
      · rename_i h
        split at h
        · obtain rfl := Except.error.inj h
          simp
        · exact absurd h (by simp)
    · exact does_bind.mpr (ends_query.mpr (does_ret.mpr trivial))
  intro hres
  have hrun := ends_iff_run.mp hends
  rw [show (requestExport x userId).run s = (_, _) from Prod.ext hres rfl] at hrun
  exact hrun rfl

/-- **A request that fails leaves nothing behind exactly when it failed to create its row.** -/
theorem undone_iff (hrun : Prog.Runs may (requestExport x userId) s tr (.raise e) s')
    (hfree : s.coolingDown userId x.env.now = false) (hpassed : 2 ≤ tr.length) :
    Undone x userId s s' ↔ tr = [.select, .createRequest userId] := by
  constructor
  · intro h
    rcases requestExport_runs hrun hfree hpassed with ⟨htr, -⟩ | ⟨rest, -, hrest⟩
    · exact htr
    -- the row that was created is still there
    have hkept := (enroll_always _).keeps hrest (fun _ _ _ h => h) (fun _ => rfl)
      fun h h' => h'.trans h
    have hlen : s'.requests.nextPk = s.requests.nextPk + 1 := by
      rw [hkept, Table.nextPk_insert]
    rw [h.requests] at hlen
    omega
  · intro htr
    rcases requestExport_runs hrun hfree hpassed with ⟨-, rfl⟩ | ⟨rest, hrest, hruns⟩
    · refine ⟨rfl, rfl, fun x' hnow => not_refused ?_⟩
      rw [hnow]
      exact hfree
    · rw [htr] at hrest
      obtain rfl : [] = rest := by simpa using hrest
      exact absurd (Prog.Runs.nil_iff.mp hruns).1.symm (enroll_ne_raise _)

theorem undone_not_created : Undone {} "u1" {} {} := by
  have hrun : Prog.Runs (fun _ => True) (requestExport {} "u1") {} [.select, .createRequest "u1"]
      (.raise (.failure "database is locked")) {} := .ok (.fault _ trivial (.refl _ _))
  exact (undone_iff hrun rfl (by decide)).mpr rfl

/-- The broker is down, and the request stays. -/
theorem announcement_failed : ¬ ∀ (x : Exporter) (userId : UserId) (may : ExportOp → Prop)
    (s s' : ExportDb) (tr : List ExportOp) (e : ExportError),
    Prog.Runs may (requestExport x userId) s tr (.raise e) s' →
    s.coolingDown userId x.env.now = false → 2 ≤ tr.length → Undone x userId s s' := by
  intro hclaim
  have hrun : Prog.Runs (fun _ => True) (requestExport {} "u1") {}
      [.select, .createRequest "u1", .announce 0] (.raise (.failure "broker down"))
      { requests := Table.insert {} (newRequest {} "u1" 0) } :=
    .ok (.ok (.fault (.failure "broker down") trivial (.refl _ _)))
  have h := (hclaim _ _ _ _ _ _ _ hrun rfl (by decide)).requests
  exact absurd h (by decide)

/-! ### The next thirty days -/

/-- A request that `request_export` granted: when, and in which store the call began. -/
structure Grant where
  userId : UserId
  pk : Nat
  time : Time
  before : ExportDb

/-- Calls one after the other, by a clock that does not go back, each of which may fail outside
the database or die on the way; what they were granted is recorded. -/
inductive Diary (may : ExportOp → Prop) (start : ExportDb) :
    Time → List Grant → ExportDb → Prop
  | nil (now : Time) : Diary may start now [] start
  | granted {now : Time} {grants : List Grant} {s s' : ExportDb} {x : Exporter}
      {userId : UserId} {tr : List ExportOp} {req : Stored DataExportRequest}
      (h : Diary may start now grants s) (hclock : now ≤ x.env.now)
      (hrun : Prog.Runs may (requestExport x userId) s tr (.ret req) s') :
      Diary may start x.env.now (grants ++ [⟨userId, req.pk, x.env.now, s⟩]) s'
  | called {now : Time} {grants : List Grant} {s s' : ExportDb} {x : Exporter} {caller : Caller}
      {tr : List ExportOp} {p : ExportProgram Unit} (h : Diary may start now grants s)
      (hclock : now ≤ x.env.now) (hrun : Prog.Runs may (caller.prog x) s tr p s')
      (hother : ∀ userId, caller = .request userId → p ≠ .ret ()) :
      Diary may start x.env.now grants s'

/-- The second grant is thirty days after the first, or the first has FAILED. -/
def Spaced (g g' : Grant) : Prop :=
  g.userId = g'.userId →
    days 30 ≤ g'.time - g.time ∨ g'.before.status g.pk = some .failed

/-- Less than thirty days on, the first request is in sight of the check, or has FAILED: it is
not ASSEMBLING and not EXPIRED. -/
def InSight (g g' : Grant) : Prop :=
  g.userId = g'.userId → g'.time - g.time < days 30 →
    g'.before.status g.pk ≠ some .assembling ∧ g'.before.status g.pk ≠ some .expired

/-- What was asked stays on the row. -/
def KeepsOrigin (a b : ExportDb) : Prop :=
  ∀ pk r, a.requests.get? pk = some r → ∃ r', b.requests.get? pk = some r' ∧
    r'.userId = r.userId ∧ r'.createdAt = r.createdAt

theorem KeepsOrigin.refl (a : ExportDb) : KeepsOrigin a a := fun _ r hr => ⟨r, hr, rfl, rfl⟩

theorem KeepsOrigin.trans {a b c : ExportDb} (h : KeepsOrigin a b) (h' : KeepsOrigin b c) :
    KeepsOrigin a c := by
  intro pk r hr
  obtain ⟨r', hr', huser, htime⟩ := h pk r hr
  obtain ⟨r'', hr'', huser', htime'⟩ := h' pk r' hr'
  exact ⟨r'', hr'', huser'.trans huser, htime'.trans htime⟩

theorem KeepsOrigin.same {a b : ExportDb} (h : b.requests = a.requests) : KeepsOrigin a b :=
  fun _ r hr => ⟨r, by rw [h]; exact hr, rfl, rfl⟩

theorem KeepsOrigin.modify {a : ExportDb} {i : Nat} {f : DataExportRequest → DataExportRequest}
    (hf : ∀ r, (f r).userId = r.userId ∧ (f r).createdAt = r.createdAt) :
    KeepsOrigin a (a.modifyRequest i f) := by
  intro pk r hr
  by_cases hpk : pk = i
  · subst hpk
    exact ⟨f r, Table.get?_modify_self f hr, hf r⟩
  · exact ⟨r, (Table.get?_modify_of_ne f hpk).trans hr, rfl, rfl⟩

theorem Step.keepsOrigin {m m' : Phase} {op : ExportOp} {ok : Bool} {a b : ExportDb}
    (h : Step x m op ok a b m') : KeepsOrigin a b := by
  cases h with
  | created => exact fun _ r hr => ⟨r, Table.get?_insert_of_some _ hr, rfl, rfl⟩
  | started | locked | gaveBack | expired | consumed | pathNulled =>
      exact .modify fun _ => ⟨rfl, rfl⟩
  | published => exact KeepsOrigin.modify (i := _) fun _ => ⟨rfl, rfl⟩
  | exported | archiveDeleted => exact .same (by simp)
  | _ => exact .same rfl

/-- One call, whatever becomes of it. -/
theorem Caller.keepsOrigin {caller : Caller} {p : ExportProgram Unit} (hs : Sound s)
    (hmay : ∀ op, may op → op.outside = true) (hrun : Prog.Runs may (caller.prog x) s tr p s') :
    Sound s' ∧ KeepsOrigin s s' := by
  obtain ⟨tr', hpool⟩ := Pool.Runs.alone hrun
  have hpool : Pool.Runs (fun _ => may) (callers fun _ : Unit => (x, caller)) s tr' _ s' := hpool
  obtain ⟨phases, hexcl, horigin, -⟩ := runs_invariant hs (fun _ => hmay)
    (J := fun _ _ db => KeepsOrigin s db) (H := fun _ _ => True)
    (fun _ _ _ _ _ h hstep _ => h.trans hstep.keepsOrigin) (.refl s) hpool fun _ _ _ _ => trivial
  exact ⟨hexcl.sound, horigin⟩

/-- The check of the second grant finds nothing, and the first request is there. -/
def Overlooked (g g' : Grant) : Prop :=
  g'.before.coolingDown g'.userId g'.time = false ∧
    ∃ r, g'.before.requests.get? g.pk = some r ∧ r.userId = g.userId ∧ r.createdAt = g.time

/-- A granted request is there, and the check did not see an earlier one. -/
theorem granted_row {req : Stored DataExportRequest}
    (hrun : Prog.Runs may (requestExport x userId) s tr (.ret req) s') :
    s.coolingDown userId x.env.now = false ∧
      s'.requests.get? req.pk = some (newRequest x userId s.uuid4) := by
  have hdoes : Does may (fun _ _ _ => True) (fun req t =>
      s.coolingDown userId x.env.now = false ∧
        t.requests.get? req.pk = some (newRequest x userId s.uuid4)) (fun _ _ => True)
      (requestExport x userId) s := by
    rw [requestExport_eq]
    refine does_bind.mpr (does_query.mpr ⟨⟨trivial, ?_⟩, fun _ _ => ⟨trivial, trivial⟩⟩)
    cases hfree : s.coolingDown userId x.env.now with
    | true => exact does_raise.mpr trivial
    | false =>
        refine does_bind.mpr (does_atomic.mpr ⟨⟨trivial, ?_⟩, fun _ _ => ⟨trivial, trivial⟩⟩)
        refine (enroll_does _ _).imp (fun _ _ _ _ => trivial) ?_ fun _ _ h => h
        rintro req t ⟨rfl, hkept⟩
        refine ⟨rfl, ?_⟩
        rw [hkept]
        exact Table.get?_insert_nextPk _ _
  exact hdoes.returned hrun

/-- Every grant is remembered by its row, and was granted out of sight of the earlier ones. -/
theorem Diary.overlooked {now : Time} {grants : List Grant} (hs : Sound start)
    (hmay : ∀ op, may op → op.outside = true) (h : Diary may start now grants db) :
    Sound db ∧ grants.Pairwise Overlooked ∧ ∀ g ∈ grants, ∃ r, db.requests.get? g.pk = some r ∧
      r.userId = g.userId ∧ r.createdAt = g.time := by
  induction h with
  | nil => exact ⟨hs, List.Pairwise.nil, by simp⟩
  | @granted now grants s s' x userId tr req h _ hrun ih =>
      obtain ⟨hsound, hpairs, hrows⟩ := ih
      obtain ⟨hfree, hrow⟩ := granted_row hrun
      have hcall : Prog.Runs may ((Caller.request userId).prog x) s tr (.ret ()) s' :=
        hrun.bind fun _ => pure ()
      obtain ⟨hsound', hkept⟩ := Caller.keepsOrigin hsound hmay hcall
      refine ⟨hsound', ?_, ?_⟩
      · refine List.pairwise_append.mpr ⟨hpairs, List.pairwise_singleton _ _, ?_⟩
        intro g hg g' hg'
        rw [List.mem_singleton.mp hg']
        exact ⟨hfree, hrows g hg⟩
      · intro g hg
        rcases List.mem_append.mp hg with hg | hg
        · obtain ⟨r, hr, huser, htime⟩ := hrows g hg
          obtain ⟨r', hr', huser', htime'⟩ := hkept g.pk r hr
          exact ⟨r', hr', huser'.trans huser, htime'.trans htime⟩
        · rw [List.mem_singleton.mp hg]
          exact ⟨_, hrow, rfl, rfl⟩
  | @called now grants s s' x caller tr p h _ hrun _ ih =>
      obtain ⟨hsound, hpairs, hrows⟩ := ih
      obtain ⟨hsound', hkept⟩ := Caller.keepsOrigin hsound hmay hrun
      refine ⟨hsound', hpairs, fun g hg => ?_⟩
      obtain ⟨r, hr, huser, htime⟩ := hrows g hg
      obtain ⟨r', hr', huser', htime'⟩ := hkept g.pk r hr
      exact ⟨r', hr', huser'.trans huser, htime'.trans htime⟩

theorem elapsed_iff {now created span : Int} : now - span ≤ created ↔ now - created ≤ span := by
  omega

/-- A request the check overlooks within its thirty days has one of the other statuses. -/
theorem Overlooked.status {g g' : Grant} (h : Overlooked g g') (huser : g.userId = g'.userId)
    (hrecent : g'.time - g.time ≤ days 30) :
    ∃ status, g'.before.status g.pk = some status ∧
      (status = .assembling ∨ status = .failed ∨ status = .expired) := by
  obtain ⟨hfree, r, hr, hruser, hrtime⟩ := h
  refine ⟨r.status, by rw [ExportDb.status, hr]; rfl, ?_⟩
  have hout : ¬ (r.status = .pending ∨ r.status = .processing ∨ r.status = .ready) := by
    intro hin
    have hseen : g'.before.coolingDown g'.userId g'.time = true := by
      refine Table.any_eq_true.mpr ⟨g.pk, r, hr, ?_⟩
      have htime : g'.time - days 30 ≤ r.createdAt := by
        rw [hrtime]
        exact elapsed_iff.mpr hrecent
      simpa [hruser, huser, htime, or_assoc] using hin
    rw [hfree] at hseen
    exact absurd hseen (by simp)
  cases hstatus : r.status <;> simp_all

theorem Overlooked.spaced_iff {g g' : Grant} (h : Overlooked g g') :
    Spaced g g' ↔ InSight g g' := by
  constructor
  · intro hspaced huser hrecent
    rcases hspaced huser with hapart | hfailed
    · exact absurd hrecent (Int.not_lt.mpr hapart)
    · rw [hfailed]
      exact ⟨by simp, by simp⟩
  · intro hsight huser
    by_cases hrecent : g'.time - g.time < days 30
    · obtain ⟨status, hstatus, hcases⟩ := h.status huser (Int.le_of_lt hrecent)
      obtain ⟨hassembling, hexpired⟩ := hsight huser hrecent
      rcases hcases with rfl | rfl | rfl
      · exact absurd hstatus hassembling
      · exact .inr hstatus
      · exact absurd hstatus hexpired
    · exact .inl (Int.not_lt.mp hrecent)

/-- **The cooldown holds exactly while the earlier requests are in sight.** -/
theorem cooldown_iff {now : Time} {grants : List Grant} (hs : Sound start)
    (hmay : ∀ op, may op → op.outside = true) (h : Diary may start now grants db) :
    grants.Pairwise Spaced ↔ grants.Pairwise InSight := by
  obtain ⟨-, hpairs, -⟩ := h.overlooked hs hmay
  constructor
  · intro hspaced
    exact (hpairs.and hspaced).imp fun h => h.1.spaced_iff.mp h.2
  · intro hsight
    exact (hpairs.and hsight).imp fun h => h.1.spaced_iff.mpr h.2

/-! ### Two archives in a month -/

/-- One owner, in process. -/
def soloExporter (now : Time) : Exporter :=
  { exporter with env := { settings := { dataOwners := .list [.bare "profiles"] }
                           sections := ["profiles"], now := now } }

/-- Requested and exported on the first day. -/
def soloReady : ExportDb :=
  ((runExport (soloExporter 0) 0).run ((requestExport (soloExporter 0) "u1").run {}).2).2

/-- Two days later nobody has downloaded it, and the purge has passed. -/
def soloPurged : ExportDb := ((Caller.purge.prog (soloExporter (days 2))).run soloReady).2

theorem diary_ready : ∃ pk, Diary (·.outside = true) {} 0 [⟨"u1", pk, 0, {}⟩] soloReady := by
  obtain ⟨req, tr, hreq⟩ := runs_of_isOk (·.outside = true)
    (p := requestExport (soloExporter 0) "u1") (s := {}) (by decide +kernel)
  obtain ⟨tr', hrun⟩ := runs_run (·.outside = true) ((Caller.run 0).prog (soloExporter 0))
    ((requestExport (soloExporter 0) "u1").run {}).2
  exact ⟨req.pk, ((Diary.nil 0).granted le_rfl hreq).called le_rfl hrun nofun⟩

theorem diary_purged : ∃ pk, Diary (·.outside = true) {} (days 2) [⟨"u1", pk, 0, {}⟩] soloPurged := by
  obtain ⟨pk, hready⟩ := diary_ready
  obtain ⟨tr, hpurge⟩ := runs_run (·.outside = true) (Caller.purge.prog (soloExporter (days 2)))
    soloReady
  exact ⟨pk, hready.called (by decide +kernel) hpurge nofun⟩

/-- What a store with one row says of any request. -/
theorem status_solo {db : ExportDb} {status : ExportStatus} (pk : Nat)
    (h : db.requests.rows.map (·.status) = [status]) (hne : status ≠ .failed) :
    db.status pk ≠ some .failed := by
  intro hfailed
  obtain ⟨r, hr, hstatus⟩ := Option.map_eq_some_iff.mp hfailed
  have hmem : r.status ∈ db.requests.rows.map (·.status) :=
    List.mem_map_of_mem (List.mem_of_getElem? hr)
  rw [h, List.mem_singleton] at hmem
  exact hne (hmem.symm.trans hstatus)

/-- The request is EXPIRED, and the next one is granted on the third day. -/
theorem cooldown_forgotten : ¬ ∀ (may : ExportOp → Prop) (start db : ExportDb) (now : Time)
    (grants : List Grant), Sound start → (∀ op, may op → op.outside = true) →
    Diary may start now grants db → grants.Pairwise Spaced := by
  intro hclaim
  obtain ⟨pk, hpurged⟩ := diary_purged
  obtain ⟨req, tr, hreq⟩ := runs_of_isOk (·.outside = true)
    (p := requestExport (soloExporter (days 3)) "u1") (s := soloPurged) (by decide +kernel)
  have hspaced := hclaim _ _ _ _ _ (sound_of_empty rfl rfl rfl) (fun _ h => h)
    (hpurged.granted (by decide +kernel) hreq)
  rcases (List.pairwise_pair.mp hspaced) rfl with hapart | hfailed
  · exact absurd hapart (show ¬ days 30 ≤ days 3 - 0 by decide)
  · have hexpired : soloPurged.requests.rows.map (·.status) = [.expired] := by decide +kernel
    exact status_solo pk hexpired (by decide) hfailed

/-- A month later the same request is granted as it should be. -/
theorem cooldown_iff_solo : ∃ grants db, Diary (·.outside = true) {} (days 31) grants db ∧
    grants.length = 2 ∧ grants.Pairwise Spaced := by
  obtain ⟨pk, hready⟩ := diary_ready
  obtain ⟨req, tr, hreq⟩ := runs_of_isOk (·.outside = true)
    (p := requestExport (soloExporter (days 31)) "u1") (s := soloReady) (by decide +kernel)
  have hdiary := hready.granted (by decide +kernel) hreq
  refine ⟨_, _, hdiary, rfl, (cooldown_iff (sound_of_empty rfl rfl rfl) (fun _ h => h)
    hdiary).mpr ?_⟩
  refine List.pairwise_pair.mpr fun _ hrecent => ?_
  exact absurd hrecent (show ¬ days 31 - 0 < days 30 by decide)

end StapelGdpr.Export
