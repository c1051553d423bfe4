import StapelGdpr.Export.Publication

/-!
# StapelGdpr.Export.Download

A download token is spent once. Whoever calls and in whatever order, beside the purge and every
other call of the export side, at most one archive is served for a request; it goes to the
request's own user, who presented the token of the request's READY flip while the request was
READY, unspent and in time (`single_use`).

All of this is read from a row at the lookup and may be stale by the time it is acted upon. What
carries the argument is the conditional update of `consume_download_token`: a row that is spent
stays spent, and an update that goes through found it unspent.
-/

namespace StapelGdpr.Export

open Prog

/-! ### What a download answers -/

/-- The call, with the answer of a download. -/
def Caller.answer (x : Exporter) : Caller → ExportProgram (Option DownloadAnswer)
  | download userId token => serve x userId token >>= fun answer => pure (some answer)
  | caller => caller.prog x >>= fun _ => pure none

/-- One thread for each call, with its answer. -/
def answers {κ : Type} (calls : κ → Exporter × Caller) (k : κ) :
    ExportProgram (Option DownloadAnswer) :=
  (calls k).2.answer (calls k).1

variable {κ : Type} [DecidableEq κ] {calls : κ → Exporter × Caller} {may : κ → ExportOp → Prop}
  {P : Pool ExportOp ExportDb ExportError (Option DownloadAnswer) κ} {start db a b : ExportDb}
  {tr past : List (Pool.Event κ ExportOp ExportDb)} {es : List (Pool.Event κ ExportOp ExportDb)}
  {x : Exporter} {m m' : Phase} {op : ExportOp} {ok : Bool} {k : κ} {pk : Nat}
  {token : TokenHash} {userId : UserId}

/-- The row a download finds. -/
def ExportDb.redeemable (db : ExportDb) (userId : UserId) (token : TokenHash) :
    Option (Stored DataExportRequest) :=
  db.requests.first? fun r => r.userId = userId && r.downloadTokenHash = some token

/-- The row, as found at the lookup, may be redeemed with the token. -/
structure Redeemable (x : Exporter) (userId : UserId) (token : TokenHash)
    (row : DataExportRequest) : Prop where
  owner : row.userId = userId
  token : row.downloadTokenHash = some token
  ready : row.status = .ready
  unspent : row.downloadConsumedAt = none
  inTime : ∀ t, row.downloadExpiresAt = some t → x.env.now ≤ t

/-- The download of a request has been spent. -/
def Spent (db : ExportDb) (pk : Nat) : Prop :=
  ∃ r, db.requests.get? pk = some r ∧ r.isSettled = true ∧ r.downloadConsumedAt ≠ none

/-- The event spends the download of a request with a token. -/
def Spends (pk : Nat) (token : TokenHash) (e : Pool.Event κ ExportOp ExportDb) : Prop :=
  ∃ r now, e.before.requests.get? pk = some r ∧ r.downloadTokenHash = some token ∧
    r.downloadConsumedAt = none ∧
    e.after.requests.get? pk = some { r with downloadConsumedAt := some now }

omit [DecidableEq κ] in
/-- `consume_download_token`, when it updates a row. -/
theorem Spends.of_modify {e : Pool.Event κ ExportOp ExportDb} {now : Time}
    (hspendable : ((e.before.requests.get? pk).any fun r =>
      r.downloadTokenHash = some token && r.downloadConsumedAt = none) = true)
    (hafter : e.after = e.before.modifyRequest pk fun r =>
      { r with downloadConsumedAt := some now }) : Spends pk token e := by
  obtain ⟨r, hr, hspendable⟩ := (Option.any_eq_true ..).mp hspendable
  simp only [Bool.and_eq_true, decide_eq_true_eq] at hspendable
  refine ⟨r, now, hr, hspendable.1, hspendable.2, ?_⟩
  rw [hafter]
  exact Table.get?_modify_self _ hr

omit [DecidableEq κ] in
/-- **What a served download has done**: its lookup found a row to redeem, it spent it, and it
opened the archive the row named. -/
theorem serve_served {may : ExportOp → Prop} {token : Option TokenHash} {archive : Archive}
    (h : Pool.Follows may (serve x userId token) es (.ret (.file archive))) :
    ∃ t req e rest, token = some t ∧ es = e :: rest ∧ e.before.redeemable userId t = some req ∧
      Redeemable x userId t req.row ∧ (∃ f ∈ rest, Spends req.pk t f) ∧
      ∃ f ∈ rest, f.before.archive? (req.row.archivePath.getD "") = some archive := by
  have hrefused : ∀ {es : List (Pool.Event κ ExportOp ExportDb)} {answer : DownloadAnswer},
      Pool.Follows may (.ret answer : ExportProgram DownloadAnswer) es (.ret (.file archive)) →
      answer = .file archive :=
    fun h => ((Pool.Follows.ret_iff.mp h).2).symm
  unfold serve at h
  cases token with
  | none => exact absurd (hrefused h) nofun
  | some t =>
      obtain ⟨_, found, es₁, rfl, hlookup, h⟩ := h.bind_ret
      obtain ⟨e, rfl, -, hfound⟩ := hlookup.query_ret
      cases found with
      | none => exact absurd (hrefused h) nofun
      | some req =>
          obtain ⟨-, hrow⟩ := Table.first?_some hfound
          simp only [Bool.and_eq_true, decide_eq_true_eq] at hrow
          dsimp only at h
          split at h
          · exact absurd (hrefused h) nofun
          rename_i hunspent
          split at h
          · exact absurd (hrefused h) nofun
          rename_i hready
          split at h
          · obtain ⟨_, _, _, -, -, h⟩ := h.bind_ret
            exact absurd (hrefused h) nofun
          rename_i hintime
          obtain ⟨es₂, there, es₃, rfl, -, h₁⟩ := h.bind_ret
          split at h₁
          · exact absurd (hrefused h₁) nofun
          obtain ⟨_, spent, es₄, rfl, hconsume, h₂⟩ := h₁.bind_ret
          obtain ⟨c, rfl, -, hc⟩ := hconsume.atomic_ret
          split at h₂
          · exact absurd (hrefused h₂) nofun
          rename_i hspent
          obtain ⟨_, opened, es₅, rfl, hopen, h₃⟩ := h₂.bind_ret
          obtain ⟨o, rfl, -, ho⟩ := hopen.atomic_ret
          obtain ⟨_, _, es₆, -, -, h₄⟩ := h₃.bind_ret
          obtain ⟨_, _, es₇, -, -, h₅⟩ := h₄.bind_ret
          obtain rfl : opened = archive := DownloadAnswer.file.inj (hrefused h₅)
          refine ⟨t, req, e, _, rfl, rfl, hfound, ⟨hrow.1, hrow.2, by simpa using hready,
            by simpa using hunspent, ?_⟩, ⟨c, by simp, ?_⟩, ⟨o, by simp, ?_⟩⟩
          · intro limit hlimit
            rw [hlimit] at hintime
            simpa using hintime
          · obtain ⟨hspendable, hafter⟩ := Prod.mk.inj (Except.ok.inj hc)
            obtain rfl : spent = true := by simpa using hspent
            rw [if_pos hspendable] at hafter
            exact .of_modify hspendable hafter.symm
          · split at ho
            · rename_i harchive
              rw [harchive, (Prod.mk.inj (Except.ok.inj ho)).1]
            · exact absurd ho (by simp)

/-! ### A spent row stays spent -/

/-- No step makes a download unspent. -/
theorem Step.keepsSpent (h : Step x m op ok a b m') (hg : Guard m a) (hs : Spent a pk) :
    Spent b pk := by
  obtain ⟨r, hr, hset, hspent⟩ := hs
  have hchanged : ∀ {i : Nat} {f : DataExportRequest → DataExportRequest},
      (∀ r, r.isSettled = true → (f r).isSettled = true) →
      (∀ r, r.downloadConsumedAt ≠ none → (f r).downloadConsumedAt ≠ none) →
      Spent (a.modifyRequest i f) pk := by
    intro i f hsettled hkept
    by_cases hi : pk = i
    · subst hi
      exact ⟨f r, Table.get?_modify_self f hr, hsettled r hset, hkept r hspent⟩
    · exact ⟨r, (Table.get?_modify_of_ne f hi).trans hr, hset, hspent⟩
  -- a row that is built is not settled
  have hbuilt : ∀ {i : Nat} {f : DataExportRequest → DataExportRequest},
      (∀ r, a.requests.get? i = some r → r.isSettled = false) → Spent (a.modifyRequest i f) pk := by
    intro i f hunsettled
    have hi : pk ≠ i := by
      rintro rfl
      rw [hunsettled r hr] at hset
      exact absurd hset (by simp)
    exact ⟨r, (Table.get?_modify_of_ne f hi).trans hr, hset, hspent⟩
  cases h with
  | created => exact ⟨r, Table.get?_insert_of_some _ hr, hset, hspent⟩
  | @started i r₀ _ hr₀ ho | @locked i r₀ _ hr₀ ho =>
      refine hbuilt fun r₁ hr₁ => ?_
      obtain rfl : r₀ = r₁ := Option.some.inj (hr₀.symm.trans hr₁)
      exact DataExportRequest.not_settled_of_open ho
  | published => exact hbuilt fun r₁ hr₁ => hg.unsettled rfl hr₁
  | gaveBack hm => exact hbuilt fun r₁ hr₁ => hg.unsettled (Phase.builds_of_drafts hm) hr₁
  | expired => exact hchanged (fun _ _ => rfl) fun _ h => h
  | consumed => exact hchanged (fun _ h => h) fun _ _ => by simp
  | pathNulled => exact hchanged (fun _ h => h) fun _ h => h
  | exported | archiveDeleted => exact ⟨r, by simpa using hr, hset, hspent⟩
  | _ => exact ⟨r, hr, hset, hspent⟩

/-- A write that keeps or clears the tokens brings none. -/
theorem token_of_modify {i : Nat} {f : DataExportRequest → DataExportRequest}
    (ht : (a.modifyRequest i f).token pk = some token)
    (hf : ∀ r, (f r).downloadTokenHash = r.downloadTokenHash ∨ (f r).downloadTokenHash = none) :
    a.token pk = some token := by
  obtain ⟨r', hr', htoken⟩ := Option.bind_eq_some_iff.mp ht
  by_cases hi : pk = i
  · subst hi
    rw [ExportDb.modifyRequest, Table.get?_modify, if_pos rfl] at hr'
    obtain ⟨r, hr, rfl⟩ := Option.map_eq_some_iff.mp hr'
    rcases hf r with hsame | hnone
    · exact Option.bind_eq_some_iff.mpr ⟨r, hr, hsame.symm.trans htoken⟩
    · rw [hnone] at htoken
      exact absurd htoken (by simp)
  · exact Option.bind_eq_some_iff.mpr ⟨r', (Table.get?_modify_of_ne f hi).symm.trans hr', htoken⟩

/-- A token is on a row that had it, or comes with the READY flip. -/
theorem Step.mints (h : Step x m op ok a b m') (hg : Guard m a) (ht : b.token pk = some token) :
    a.token pk = some token ∨ op = .publish pk ∧ a.status pk = some .assembling ∧
      b.status pk = some .ready := by
  have hsame : b.requests = a.requests → a.token pk = some token := by
    intro hrows
    rw [ExportDb.token, ← hrows]
    exact ht
  cases h with
  | @created userId =>
      obtain ⟨r, hr, htoken⟩ := Option.bind_eq_some_iff.mp ht
      rw [Table.get?_insert] at hr
      split at hr
      · obtain rfl := Option.some.inj hr
        exact absurd htoken (by simp [newRequest])
      · exact .inl (Option.bind_eq_some_iff.mpr ⟨r, hr, htoken⟩)
  | started | locked | gaveBack | consumed | pathNulled =>
      exact .inl (token_of_modify ht fun _ => .inl rfl)
  | expired => exact .inl (token_of_modify ht fun _ => .inr rfl)
  | @published req staged missing isPartial archive key =>
      by_cases hpk : pk = req.pk
      · subst hpk
        obtain ⟨r, hr, hassembling⟩ := hg.2 req.pk rfl
        refine .inr ⟨rfl, by rw [ExportDb.status, hr, ← hassembling]; rfl, ?_⟩
        have hget := Table.get?_modify_self
          (·.publish x key isPartial missing a.tokens : DataExportRequest → DataExportRequest) hr
        exact Option.map_eq_some_iff.mpr ⟨_, hget, rfl⟩
      · obtain ⟨r, hr, htoken⟩ := Option.bind_eq_some_iff.mp ht
        exact .inl (Option.bind_eq_some_iff.mpr
          ⟨r, (Table.get?_modify_of_ne _ hpk).symm.trans hr, htoken⟩)
  | exported | archiveDeleted => exact .inl (hsame (by simp))
  | _ => exact .inl (hsame rfl)

/-! ### Every run -/

/-- The token is the one minted when the request became READY, before or in this run. -/
def Minted (start : ExportDb) (past : List (Pool.Event κ ExportOp ExportDb)) (pk : Nat)
    (token : TokenHash) : Prop :=
  start.token pk = some token ∨ ∃ e ∈ past, e.label = .publish pk ∧
    e.before.status pk = some .assembling ∧ e.after.status pk = some .ready ∧
    e.after.token pk = some token

/-- What a run so far says of the tokens. -/
structure Tendered (start : ExportDb) (past : List (Pool.Event κ ExportOp ExportDb))
    (db : ExportDb) : Prop where
  sound : ∀ e ∈ past, Sound e.before
  spent : ∀ e ∈ past, ∀ pk, Spent e.before pk → Spent e.after pk
  minted : ∀ pk token, db.token pk = some token → Minted start past pk token
  presented : ∀ pre e post, past = pre ++ e :: post → ∀ pk token,
    e.before.token pk = some token → Minted start pre pk token

omit [DecidableEq κ] in
theorem Minted.mono {e : Pool.Event κ ExportOp ExportDb} (h : Minted start past pk token) :
    Minted start (past ++ [e]) pk token := by
  rcases h with h | ⟨f, hf, hflip⟩
  · exact .inl h
  · exact .inr ⟨f, List.mem_append_left _ hf, hflip⟩

omit [DecidableEq κ] in
theorem Tendered.step {e : Pool.Event κ ExportOp ExportDb} (h : Tendered start past e.before)
    (hg : Guard m e.before) (hstep : Step x m e.label e.ok e.before e.after m') :
    Tendered start (past ++ [e]) e.after := by
  constructor
  · intro f hf
    rcases List.mem_append.mp hf with hf | hf
    · exact h.sound f hf
    · rw [List.mem_singleton.mp hf]
      exact hg.1
  · intro f hf pk hspent
    rcases List.mem_append.mp hf with hf | hf
    · exact h.spent f hf pk hspent
    · rw [List.mem_singleton.mp hf] at hspent ⊢
      exact hstep.keepsSpent hg hspent
  · intro pk token ht
    rcases hstep.mints hg ht with hbefore | ⟨hop, hassembling, hready⟩
    · exact (h.minted pk token hbefore).mono
    · exact .inr ⟨e, by simp, hop, hassembling, hready, ht⟩
  · intro pre f post hcut pk token ht
    rcases cut_snoc hcut with ⟨rfl, rfl⟩ | ⟨post', hcut'⟩
    · exact h.minted pk token ht
    · exact h.presented pre f post' hcut' pk token ht

/-- The store in which a call began. -/
def began (tr : List (Pool.Event κ ExportOp ExportDb)) (k : κ) : Option ExportDb :=
  (tr.find? (·.thread = k)).map (·.before)

/-- Call `k` has been served the archive of request `pk`. -/
def Served (calls : κ → Exporter × Caller) (tr : List (Pool.Event κ ExportOp ExportDb))
    (P : Pool ExportOp ExportDb ExportError (Option DownloadAnswer) κ) (k : κ) (pk : Nat)
    (archive : Archive) : Prop :=
  P k = .ret (some (.file archive)) ∧ ∃ db userId token row,
    (calls k).2 = .download userId (some token) ∧ began tr k = some db ∧
      db.redeemable userId token = some ⟨pk, row⟩ ∧
      ∃ e ∈ tr, e.thread = k ∧ e.before.archive? (row.archivePath.getD "") = some archive

/-- Downloads are single-use. -/
structure SingleUse (calls : κ → Exporter × Caller) (start : ExportDb)
    (tr : List (Pool.Event κ ExportOp ExportDb))
    (P : Pool ExportOp ExportDb ExportError (Option DownloadAnswer) κ) : Prop where
  /-- What is served is the archive of a request. -/
  named : ∀ k archive, P k = .ret (some (.file archive)) → ∃ pk, Served calls tr P k pk archive
  /-- One archive at most is served for a request. -/
  once : ∀ j k pk archive archive', Served calls tr P j pk archive →
    Served calls tr P k pk archive' → j = k
  /-- It goes to the user of the request with the token of its READY flip, while the request is
  READY, unspent and in time. -/
  entitled : ∀ k pk archive, Served calls tr P k pk archive → ∃ pre e post userId token row,
    tr = pre ++ e :: post ∧ e.thread = k ∧ (∀ f ∈ pre, f.thread ≠ k) ∧
    (calls k).2 = .download userId (some token) ∧ e.before.requests.get? pk = some row ∧
    Redeemable (calls k).1 userId token row ∧ Minted start pre pk token

omit [DecidableEq κ] in
/-- The calls with their answers are the calls. -/
theorem callers_eq (calls : κ → Exporter × Caller) :
    (fun k => answers calls k >>= fun _ => pure ()) = callers calls := by
  have hdropped : ∀ p : ExportProgram Unit,
      ((p >>= fun _ => pure none) >>= fun (_ : Option DownloadAnswer) => pure ()) = p := by
    intro p
    rw [Prog.bind_assoc]
    exact Prog.bind_ret p
  funext k
  unfold answers callers
  cases (calls k).2 with
  | download userId token => exact Prog.bind_assoc _ _ _
  | request | run | partReady | sweep | purge => exact hdropped _

/-- What a call that was served has done, by its own events. -/
theorem answered (hrun : Pool.Runs may (answers calls) start tr P db) {archive : Archive}
    (hk : P k = .ret (some (.file archive))) : ∃ userId token req e,
      (calls k).2 = .download userId (some token) ∧ tr.find? (·.thread = k) = some e ∧
      e.before.redeemable userId token = some req ∧
      Redeemable (calls k).1 userId token req.row ∧
      (∃ f ∈ tr, f.thread = k ∧ Spends req.pk token f) ∧
      ∃ f ∈ tr, f.thread = k ∧ f.before.archive? (req.row.archivePath.getD "") = some archive := by
  have hfollows := hrun.follows k
  rw [hk] at hfollows
  unfold answers at hfollows
  generalize hcall : (calls k).2 = caller at hfollows
  have hother : ∀ {p : ExportProgram Unit}, ¬ Pool.Follows (may k)
      (p >>= fun _ => (pure none : ExportProgram (Option DownloadAnswer)))
      (tr.filter (·.thread = k)) (.ret (some (.file archive))) := by
    intro p h
    obtain ⟨_, _, _, -, -, h⟩ := h.bind_ret
    exact absurd (Pool.Follows.ret_iff.mp h).2 nofun
  cases caller with
  | request | run | partReady | sweep | purge => exact absurd hfollows hother
  | download userId token =>
      obtain ⟨es, answer, _, hes, hserve, h⟩ := hfollows.bind_ret
      obtain ⟨rfl, hanswer⟩ := Pool.Follows.ret_iff.mp h
      obtain rfl : DownloadAnswer.file archive = answer := Option.some.inj hanswer
      obtain ⟨t, req, e, rest, rfl, rfl, hfound, hredeemable, ⟨f, hf, hspends⟩, g, hg, harchive⟩ :=
        serve_served hserve
      rw [List.append_nil] at hes
      have hmem : ∀ d ∈ e :: rest, d ∈ tr ∧ d.thread = k := by
        intro d hd
        rw [← hes] at hd
        simpa using List.mem_filter.mp hd
      refine ⟨userId, t, req, e, rfl, ?_, hfound, hredeemable, ?_, ?_⟩
      · rw [← List.head?_filter, hes, List.head?_cons]
      · obtain ⟨hmem, hthread⟩ := hmem f (List.mem_cons_of_mem _ hf)
        exact ⟨f, hmem, hthread, hspends⟩
      · obtain ⟨hmem, hthread⟩ := hmem g (List.mem_cons_of_mem _ hg)
        exact ⟨g, hmem, hthread, harchive⟩

/-- A download that is spent is not spent again. -/
theorem not_spent_again (hrun : Pool.Runs may (answers calls) start tr P db)
    (h : Tendered start tr db) {pre mid post : List (Pool.Event κ ExportOp ExportDb)}
    {d e : Pool.Event κ ExportOp ExportDb} {token' : TokenHash}
    (hcut : tr = pre ++ d :: (mid ++ e :: post)) (hd : Spends pk token d) :
    ¬ Spends pk token' e := by
  rintro ⟨r', -, hr', -, hunspent, -⟩
  obtain ⟨r, now, hr, htoken, -, hafter⟩ := hd
  have hset : r.isSettled = true := by
    obtain ⟨r₀, hr₀, hset⟩ := (h.sound d (by simp [hcut])).settled hr fun hblank => by
      rw [hblank.2.1] at htoken
      exact absurd htoken (by simp)
    obtain rfl := Option.some.inj (hr₀.symm.trans hr)
    exact hset
  subst hcut
  obtain ⟨r'', hr'', -, hspent⟩ : Spent e.before pk :=
    hrun.between (I := (Spent · pk)) (fun x hx => h.spent x (by simp [hx]) pk)
      ⟨_, hafter, hset, by simp⟩
  obtain rfl := Option.some.inj (hr'.symm.trans hr'')
  exact hspent hunspent

/-- **Downloads are single-use**, beside any other calls of the export side, whatever fails of
`ExportOp.outside`. -/
theorem single_use (hs : Sound start) (hmay : ∀ k op, may k op → op.outside = true)
    (hrun : Pool.Runs may (answers calls) start tr P db) : SingleUse calls start tr P := by
  have hcalls := hrun.bind fun _ _ => (pure () : ExportProgram Unit)
  rw [callers_eq] at hcalls
  obtain ⟨-, -, htendered, -⟩ :=
    runs_invariant hs hmay (J := fun past _ db => Tendered start past db)
    (H := fun _ _ => True) (fun _ _ e _ hexcl h hstep _ => h.step (hexcl.guard e.thread) hstep)
    ⟨by simp, by simp, fun _ _ h => .inl h, fun pre e post h => absurd h (by simp)⟩ hcalls
    fun _ _ _ _ => trivial
  -- the row a served call found is the one its events are about
  have hown : ∀ {k pk archive}, Served calls tr P k pk archive → ∃ userId token row e,
      (calls k).2 = .download userId (some token) ∧ tr.find? (·.thread = k) = some e ∧
      e.before.redeemable userId token = some ⟨pk, row⟩ ∧
      Redeemable (calls k).1 userId token row ∧ ∃ f ∈ tr, f.thread = k ∧ Spends pk token f := by
    rintro k pk archive ⟨hk, s, userId, token, row, hcall, hbegan, hfound, -⟩
    obtain ⟨userId', token', req, e, hcall', hfirst, hfound', hredeemable, hspends, -⟩ :=
      answered hrun hk
    obtain ⟨rfl, rfl⟩ : userId = userId' ∧ token = token' := by simpa using hcall.symm.trans hcall'
    rw [began, hfirst] at hbegan
    obtain rfl : e.before = s := Option.some.inj hbegan
    obtain rfl : req = ⟨pk, row⟩ := Option.some.inj (hfound'.symm.trans hfound)
    exact ⟨userId, token, row, e, hcall, hfirst, hfound, hredeemable, hspends⟩
  constructor
  · intro k archive hk
    obtain ⟨userId, token, req, e, hcall, hfirst, hfound, -, -, harchive⟩ := answered hrun hk
    exact ⟨req.pk, hk, e.before, userId, token, req.row, hcall, by rw [began, hfirst]; rfl,
      hfound, harchive⟩
  · intro j k pk archive archive' hj hk
    obtain ⟨_, _, _, _, -, -, -, -, d, hd, hdj, hdspends⟩ := hown hj
    obtain ⟨_, _, _, _, -, -, -, -, e, he, hek, hespends⟩ := hown hk
    by_contra hne
    have hde : d ≠ e := by
      rintro rfl
      exact hne (hdj.symm.trans hek)
    obtain ⟨pre, post, hcut⟩ := List.append_of_mem hd
    rw [hcut, List.mem_append, List.mem_cons] at he
    rcases he with he | rfl | he
    · obtain ⟨pre', mid, rfl⟩ := List.append_of_mem he
      exact not_spent_again hrun htendered (by simpa using hcut) hespends hdspends
    · exact hde rfl
    · obtain ⟨mid, post', rfl⟩ := List.append_of_mem he
      exact not_spent_again hrun htendered hcut hdspends hespends
  · intro k pk archive hk
    obtain ⟨userId, token, row, e, hcall, hfirst, hfound, hredeemable, -⟩ := hown hk
    obtain ⟨hthread, pre, post, hcut, hpre⟩ := List.find?_eq_some_iff_append.mp hfirst
    refine ⟨pre, e, post, userId, token, row, hcut, by simpa using hthread, by simpa using hpre,
      hcall, (Table.first?_some hfound).1, hredeemable, ?_⟩
    refine htendered.presented pre e post hcut pk token ?_
    exact Option.bind_eq_some_iff.mpr ⟨row, (Table.first?_some hfound).1, hredeemable.token⟩

/-- A request, its export, and two downloads with its token. -/
def redemption : Fin 5 → Exporter × Caller := fun k => match k with
  | 0 => (exporter, .request "u1")
  | 1 => (exporter, .run 0)
  | 2 => (exporter, .partReady 0 "media" (some mediaKey))
  | _ => (exporter, .download "u1" (some 0))

/-- The archive is published, and then the downloads go step by step. -/
def redemptionOrder : List (Fin 5) :=
  List.replicate 5 0 ++ List.replicate 10 1 ++ List.replicate 30 2 ++
    (List.replicate 10 [3, 4]).flatten

def redemptionRun : List (Pool.Event (Fin 5) ExportOp ExportDb) ×
    Pool ExportOp ExportDb ExportError (Option DownloadAnswer) (Fin 5) × ExportDb :=
  Pool.schedule redemptionOrder (answers redemption) uploaded

theorem single_use_raced : SingleUse redemption uploaded redemptionRun.1 redemptionRun.2.1 ∧
    ((redemptionRun.2.1 3).returned?, (redemptionRun.2.1 4).returned?) =
      (some (some (.file ⟨"export_", ["Your personal data export", "Requested: ", "",
        "Included sections:", "  - profiles", "  - media"],
        [("media/export.json", [7]), ("profiles/profile.json", [1])]⟩)), some (some .consumed)) :=
  ⟨single_use (sound_of_empty rfl rfl rfl) (fun _ _ h => h)
    (Pool.runs_schedule (fun _ op => op.outside = true) redemptionOrder (answers redemption)
      uploaded), by decide +kernel⟩

end StapelGdpr.Export
