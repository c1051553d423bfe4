import StapelGdpr.Export.Publication
import StapelGdpr.Export.Statements

/-!
# StapelGdpr.Export.Archives

Whether every archive in the export store can still be found. A row is the only pointer to an
archive; it is written after the archive is stored, and it lets go of the archive after
`delete_archive`. A failure between the storing and the row leaves an archive that no row names
(`orphaned_archive`), and so does a `delete_archive` that has failed, because what it raises is
swallowed and the row lets go all the same.

`archives_filed` is what holds: when none of these calls fails, a quiet export side has no
orphans. The invariant (`Accounted`) gives each archive a request: its row names the archive, or
its build is about to say so, and the archive has not been deleted since the request was published.
-/

namespace StapelGdpr.Export

open Prog

variable {κ : Type} [DecidableEq κ] {calls : κ → Exporter × Caller} {may : κ → ExportOp → Prop}
  {P : Pool ExportOp ExportDb ExportError Unit κ} {start a b db : ExportDb} {x : Exporter}
  {tr past : List (Pool.Event κ ExportOp ExportDb)} {phases : κ → Phase} {pk : Nat}
  {m m' : Phase} {op : ExportOp} {ok : Bool} {key : String}

/-! ### Names and keys -/

/-- The row names the key. -/
def NamedBy (db : ExportDb) (pk : Nat) (key : String) : Prop :=
  ∃ r, db.requests.get? pk = some r ∧ r.archivePath = some key

/-- Some row names the key. -/
def Named (db : ExportDb) (key : String) : Prop := ∃ pk, NamedBy db pk key

/-- Every archive in the export store is named by some row. -/
def Filed (db : ExportDb) : Prop := ∀ q ∈ db.archives, Named db q.1

/-- A key of the export store, as opposed to the path of an old archive. -/
def IsKey (key : String) : Prop := key ≠ "" ∧ ExportDb.isLegacyPath key = false

/-- The calls that come between the storing of an archive and the row that names it for good,
and the one that deletes it. -/
def ExportOp.strands : ExportOp → Bool
  | unlinkZip _ stored => stored
  | publish _ | stagingExists _ | deleteArchive _ => true
  | _ => false

instance (db : ExportDb) (key : String) : Decidable (Named db key) :=
  decidable_of_iff (∃ o ∈ db.requests.entries, o.row.archivePath = some key)
    ⟨fun ⟨o, ho, hpath⟩ => ⟨o.pk, o.row, Table.mem_entries.mp ho, hpath⟩,
      fun ⟨pk, r, hr, hpath⟩ => ⟨⟨pk, r⟩, Table.mem_entries.mpr hr, hpath⟩⟩

instance (db : ExportDb) : Decidable (Filed db) := inferInstanceAs (Decidable (∀ q ∈ _, _))

instance (key : String) : Decidable (IsKey key) := inferInstanceAs (Decidable (_ ∧ _))

theorem NamedBy.of_requests (h : NamedBy a pk key) (hr : b.requests = a.requests) :
    NamedBy b pk key := by
  obtain ⟨r, hget, hpath⟩ := h
  exact ⟨r, by rwa [hr], hpath⟩

/-- A row that is changed keeps the name, unless it was the one to give it. -/
theorem NamedBy.modify {i : Nat} {f : DataExportRequest → DataExportRequest} (h : NamedBy a pk key)
    (hf : ∀ r, i = pk → a.requests.get? pk = some r → r.archivePath = some key →
      (f r).archivePath = some key) : NamedBy (a.modifyRequest i f) pk key := by
  obtain ⟨r, hr, hpath⟩ := h
  by_cases hi : i = pk
  · subst hi
    exact ⟨f r, Table.get?_modify_self f hr, hf r rfl hr hpath⟩
  · exact ⟨r, (Table.get?_modify_of_ne f fun heq => hi heq.symm).trans hr, hpath⟩

/-! ### What a row has done when it lets go of its archive -/

/-- A thread has read the row when something of an archive was on it, and has asked since for the
archive named there to be deleted. -/
def Deleted (pk : Nat) (past : List (Memo ExportOp ExportDb)) : Prop :=
  ∃ m rest r, m :: rest <:+ past ∧ m.after.requests.get? pk = some r ∧ ¬ r.Blank ∧
    ∀ key, r.archivePath = some key → key ≠ "" → ∃ d ∈ rest, d.label = .deleteArchive key

/-- A row lets go of its archive when that has been deleted. -/
def LetsGo (past : List (Memo ExportOp ExportDb)) (op : ExportOp) (_ _ : ExportDb) : Prop :=
  ∀ pk, op.releases = some pk → Deleted pk past

section Recalls

variable {α : Type} {memo : List (Memo ExportOp ExportDb)} {p : ExportProgram α}
  {req : Stored DataExportRequest}

theorem letsGo_of_labels {M : ExportOp → ExportDb → ExportDb → Prop} (h : Always M p)
    (hM : ∀ op a b, M op a b → op.releases = none) :
    Recalls LetsGo (fun _ _ => True) p memo :=
  Recalls.always h fun _ op a b _ hop pk hpk => by
    rw [hM op a b hop] at hpk
    exact absurd hpk (by simp)

/-- It has asked for the archive to be deleted, whatever came of it. -/
theorem deleteArchive_recalls {stored : String} :
    Recalls LetsGo (fun memo' _ => stored ≠ "" → ∃ d, memo' = memo ++ [d] ∧
      d.label = .deleteArchive stored) (deleteArchive stored) memo := by
  unfold deleteArchive
  split
  · exact fun hne => absurd ‹stored = ""› hne
  · refine fun db => ⟨⟨nofun, nofun⟩, fun _ => ⟨_, rfl, rfl⟩, fun e => ?_⟩
    change Recalls _ _ (if e.isStorage then pure false else raise e) _
    split
    · exact fun _ => ⟨_, rfl, rfl⟩
    · exact trivial

theorem deleteStored_recalls {stored : Option String} :
    Recalls LetsGo (fun memo' _ => ∀ key, stored = some key → key ≠ "" → ∃ d rest,
      memo' = memo ++ d :: rest ∧ d.label = .deleteArchive key) (deleteStored stored) memo := by
  unfold deleteStored
  split
  · exact fun key hkey => absurd hkey (by simp)
  · exact fun key hkey hne => absurd (Option.some.inj hkey).symm hne
  rename_i stored hne
  refine deleteArchive_recalls.bind fun deleted memo₁ _ hdeleted => ?_
  have hasked : ∀ (rest : List (Memo ExportOp ExportDb)) (key : String),
      some stored = some key → key ≠ "" → ∃ d rest', memo₁ ++ rest = memo ++ d :: rest' ∧
        d.label = .deleteArchive key := by
    intro rest key hkey hne
    obtain rfl := Option.some.inj hkey
    obtain ⟨d, rfl, hlabel⟩ := hdeleted hne
    exact ⟨d, rest, by simp, hlabel⟩
  split
  · exact fun key hkey hne => by simpa using hasked [] key hkey hne
  · refine (letsGo_of_labels storedArchiveExists_retires fun _ _ _ h => h.2).bind
      fun _ memo₂ hpre _ => ?_
    obtain ⟨rest, rfl⟩ := hpre
    exact hasked rest

/-- The row has been read by a step that the thread remembers. -/
theorem expireExport_recalls {m : Memo ExportOp ExportDb} (hm : m ∈ memo)
    (hrow : m.after.requests.get? req.pk = some req.row) (hblank : ¬ req.row.Blank) :
    Recalls LetsGo (fun _ _ => True) (expireExport req) memo := by
  refine deleteStored_recalls.bind fun _ memo' hpre hdeleted => Recalls.write fun db => ?_
  have hlets : LetsGo memo' (.expireRow req.pk) db db := by
    intro pk hpk
    obtain rfl : req.pk = pk := Option.some.inj hpk
    obtain ⟨before, rest, rfl⟩ := List.append_of_mem hm
    obtain ⟨since, rfl⟩ := hpre
    refine ⟨m, rest ++ since, req.row, ⟨before, by simp⟩, hrow, hblank, fun key hkey hne => ?_⟩
    obtain ⟨d, rest', heq, hlabel⟩ := hdeleted key hkey hne
    rw [List.append_cancel_left heq]
    exact ⟨d, by simp, hlabel⟩
  exact ⟨⟨hlets, hlets⟩, trivial⟩

theorem purgeExpiredExports_recalls :
    Recalls LetsGo (fun _ _ => True) (purgeExpiredExports x) memo := by
  refine Recalls.query_bind fun db => ⟨nofun, ?_⟩
  refine (Recalls.forM fun req hreq memo' hpre => ?_).bind fun _ memo₁ _ _ => ?_
  · obtain ⟨hget, hp⟩ := Table.mem_select.mp (mem_newestFirst.mp hreq)
    refine expireExport_recalls (m := ⟨.select, db, db, true⟩) (hpre.subset (by simp)) hget
      fun hblank => ?_
    rw [hblank.2.2.2] at hp
    exact absurd hp (by simp)
  refine Recalls.query_bind fun db' => ⟨nofun, ?_⟩
  refine (Recalls.forM fun req hreq memo' hpre => ?_).bind fun _ _ _ _ => trivial
  obtain ⟨hget, hp⟩ := Table.mem_select.mp (mem_newestFirst.mp hreq)
  refine expireExport_recalls (m := ⟨.select, db', db', true⟩) (hpre.subset (by simp)) hget
    fun hblank => ?_
  rw [hblank.1] at hp
  exact absurd hp (by simp)

theorem serve_recalls {userId : UserId} {token : Option TokenHash} :
    Recalls LetsGo (fun _ _ => True) (serve x userId token) memo := by
  unfold serve
  split
  · exact trivial
  rename_i token
  refine Recalls.query_bind fun db => ⟨nofun, ?_⟩
  cases hfound : db.requests.first? fun r =>
      r.userId = userId && r.downloadTokenHash = some token with
  | none => exact trivial
  | some req =>
      obtain ⟨hget, hp⟩ := Table.first?_some hfound
      have hblank : ¬ req.row.Blank := by
        intro hblank
        rw [hblank.2.1] at hp
        exact absurd hp (by simp)
      dsimp only
      split
      · exact trivial
      split
      · exact trivial
      split
      · refine Recalls.bind (expireExport_recalls (m := ⟨.select, db, db, true⟩) (by simp) hget
          hblank) fun _ _ _ _ => trivial
      refine (letsGo_of_labels storedArchiveExists_retires fun _ _ _ h => h.2).bind
        fun there memo₁ h₁ _ => ?_
      split
      · exact trivial
      refine Recalls.bind (P := fun _ _ => True) (Recalls.atomic fun _ => ⟨nofun, fun _ _ _ =>
        ⟨nofun, trivial⟩⟩) fun spent memo₂ h₂ _ => ?_
      split
      · exact trivial
      refine Recalls.bind (P := fun _ _ => True) (Recalls.atomic fun _ => ⟨nofun, fun _ _ _ =>
        ⟨nofun, trivial⟩⟩) fun archive memo₃ h₃ _ => ?_
      refine deleteArchive_recalls.bind fun _ memo₄ h₄ hdeleted => ?_
      refine Recalls.bind (P := fun _ _ => True) (Recalls.write fun db' => ?_) fun _ _ _ _ => trivial
      have hlets : LetsGo memo₄ (.nullPath req.pk) db' db' := by
        intro pk hpk
        obtain rfl : req.pk = pk := Option.some.inj hpk
        obtain ⟨since, rfl⟩ := (h₁.trans h₂).trans h₃
        obtain ⟨rest, rfl⟩ := h₄
        refine ⟨⟨.select, db, db, true⟩, since ++ rest, req.row, ⟨memo, by simp⟩, hget, hblank,
          fun key hkey hne => ?_⟩
        rw [hkey] at hdeleted
        obtain ⟨d, heq, hlabel⟩ := hdeleted hne
        rw [List.append_cancel_left heq]
        exact ⟨d, by simp, hlabel⟩
      exact ⟨⟨hlets, hlets⟩, trivial⟩

theorem Caller.letsGo (x : Exporter) (caller : Caller) :
    Recalls LetsGo (fun _ _ => True) (caller.prog x) [] := by
  refine caller.recalls (fun _ _ _ _ h pk hpk => ?_) (fun _ _ _ _ _ _ _ => ⟨nofun, nofun⟩)
    purgeExpiredExports_recalls fun _ _ => serve_recalls
  rw [h.releases] at hpk
  exact absurd hpk (by simp)

end Recalls

/-! ### What a step does to an archive -/

/-- A row goes on naming its archive, unless it lets go of it. -/
theorem Step.keepsNamed (h : Step x m op ok a b m') (hg : Guard m a) (hnamed : NamedBy a pk key)
    (hkept : op.releases ≠ some pk) : NamedBy b pk key := by
  cases h with
  | exported | archiveDeleted => exact hnamed.of_requests (by simp)
  | created =>
      obtain ⟨r, hr, hpath⟩ := hnamed
      exact ⟨r, Table.get?_insert_of_some _ hr, hpath⟩
  | started | locked | gaveBack | consumed =>
      refine hnamed.modify ?_
      exact fun r _ _ hpath => hpath
  | @published req =>
      -- the row that is published had no archive
      refine hnamed.modify fun r hi hr hpath => ?_
      subst hi
      have hblank := hg.1.blank req.pk r hr (hg.unsettled rfl hr)
      rw [hblank.1] at hpath
      exact absurd hpath (by simp)
  | @expired i =>
      refine hnamed.modify fun r hi hr hpath => absurd ?_ hkept
      exact congrArg some hi
  | @pathNulled i =>
      refine hnamed.modify fun r hi hr hpath => absurd ?_ hkept
      exact congrArg some hi
  | _ => exact hnamed.of_requests rfl

/-- What is in the export store was there, or is stored now by a call that builds. -/
theorem Step.archives (h : Step x m op ok a b m') {q : String × Archive} (hq : q ∈ b.archives) :
    q ∈ a.archives ∨ ∃ pk staged missing isPartial,
      m' = .saved pk staged missing isPartial q.2 q.1 ∧ m.builds = some pk ∧
        op = .saveArchive pk ∧ ∃ id taken, q.1 = x.names.available (x.archiveKey id pk) taken := by
  cases h with
  | @saved pk staged missing isPartial archive key db hfree hname =>
      rcases List.mem_cons.mp hq with rfl | hq
      · exact .inr ⟨pk, staged, missing, isPartial, rfl, rfl, rfl, hname⟩
      · exact .inl hq
  | archiveDeleted =>
      obtain ⟨archives, legacy, heq, hsub⟩ := ExportDb.removeArchive_frame a _
      rw [heq] at hq
      exact .inl (hsub hq)
  | exported => exact .inl (by simpa using hq)
  | _ => exact .inl hq

/-- `delete_archive` deletes what is stored under a key, unless it fails. -/
theorem Step.deletesArchive (h : Step x m (.deleteArchive key) true a b m') (hkey : IsKey key) :
    ∀ q ∈ b.archives, q.1 ≠ key := by
  cases h with
  | stays hrests => exact absurd hrests.1 (by simp [ExportOp.turns])
  | archiveDeleted =>
      intro q hq
      rw [ExportDb.removeArchive, hkey.2, if_neg Bool.false_ne_true] at hq
      simpa using (List.mem_filter.mp hq).2

/-- A call that has stored an archive publishes it. -/
theorem Step.ofSaved {staged : List (Stored DataExportPart)} {missing : List String}
    {isPartial : Bool} {archive : Archive} (h : Step x m op ok a b m')
    (hm : m = .saved pk staged missing isPartial archive key)
    (hg : Guard m a) (hkept : op.strands = true → ok = true) : m' = m ∨ NamedBy b pk key := by
  cases h with
  | stays => exact .inl rfl
  | @published req _ _ _ _ key' =>
      obtain ⟨r, hr, -⟩ := hg.2 req.pk rfl
      obtain ⟨rfl, -, -, -, -, rfl⟩ := Phase.saved.inj hm
      exact .inr ⟨_, Table.get?_modify_self _ hr, rfl⟩
  | notPublished hlast =>
      rcases hlast with rfl | rfl <;> exact absurd (hkept rfl) (by simp)
  | gaveBack hdrafts =>
      rw [hm] at hdrafts
      exact absurd hdrafts (by simp [Phase.drafts])
  | notified hdone => exact absurd hm (by rcases hdone with rfl | rfl <;> simp)
  | _ => exact absurd hm (by simp)

/-! ### The invariant -/

/-- The request answers for the archive under the key: its row names it, or its build is about to;
and since the request was published nobody has deleted it. -/
def AnswersFor (past : List (Pool.Event κ ExportOp ExportDb)) (phases : κ → Phase) (db : ExportDb)
    (key : String) (pk : Nat) : Prop :=
  (NamedBy db pk key ∨ ∃ k staged missing isPartial archive,
    phases k = .saved pk staged missing isPartial archive key) ∧
  ∀ d ∈ past, d.label = .deleteArchive key → ¬ Settled d.after pk

/-- Every archive is under a key, and some request answers for it. -/
def Accounted (past : List (Pool.Event κ ExportOp ExportDb)) (phases : κ → Phase) (db : ExportDb) :
    Prop :=
  ∀ q ∈ db.archives, IsKey q.1 ∧ ∃ pk, AnswersFor past phases db q.1 pk

/-- The condition on a step: what strands an archive does not fail, and a row lets go of its
archive as calls do. -/
structure Tidy (past : List (Pool.Event κ ExportOp ExportDb))
    (e : Pool.Event κ ExportOp ExportDb) : Prop where
  kept : e.label.strands = true → e.ok = true
  lets : LetsGo ((past.filter (·.thread = e.thread)).map Pool.Event.memo) e.label e.before e.after

/-- The row that answers for an archive does not let go of it. -/
theorem AnswersFor.kept {e : Pool.Event κ ExportOp ExportDb}
    (h : AnswersFor past phases e.before key pk) (hkey : IsKey key)
    (hnamed : NamedBy e.before pk key) (hrec : Recorded start past phases e.before)
    (hH : Tidy past e) : e.label.releases ≠ some pk := by
  intro hpk
  obtain ⟨m, rest, r, hsuffix, hr, hblank, hasked⟩ := hH.lets pk hpk
  obtain ⟨pre, d, post, rfl, rfl, hpost⟩ := Pool.cut_memory hsuffix
  have hd : d.after ∈ stores start (pre ++ d :: post) := by simp [stores]
  have hsettled : Settled d.after pk := (hrec.sound _ hd).settled hr hblank
  -- the row still names what it named when it was read
  obtain ⟨r', hr', hpath⟩ := hnamed
  obtain ⟨r₀, hr₀, hrow⟩ := (hrec.last _ hd).rows pk r hr
  obtain rfl : r₀ = r' := Option.some.inj (hr₀.symm.trans hr')
  have hset : r.isSettled = true := by
    obtain ⟨r₁, hr₁, hset⟩ := hsettled
    rwa [Option.some.inj (hr.symm.trans hr₁)]
  have hsame : r.archivePath = some key := by
    rcases hrow.path hset with hpath' | hpath'
    · exact hpath'.symm.trans hpath
    · rw [hpath'] at hpath
      exact absurd hpath (by simp)
  -- so the archive was deleted since
  obtain ⟨n, hn, hlabel⟩ := hasked key hsame hkey.1
  obtain ⟨f, hf, rfl⟩ := hpost n hn
  have hlater : Later d.after f.after := by
    have hpairwise := hrec.later
    rw [stores, List.map_append, List.map_cons, ← List.cons_append,
      List.pairwise_append] at hpairwise
    exact (List.pairwise_cons.mp hpairwise.2.1).1 _ (List.mem_map_of_mem hf)
  exact h.2 f (by simp [hf]) hlabel (hlater.settled hsettled)

theorem Accounted.step {e : Pool.Event κ ExportOp ExportDb} (h : Accounted past phases e.before)
    (hrec : Recorded start past phases e.before) (hexcl : Exclusive phases e.before)
    (hkeys : ∀ id pk taken, IsKey (x.names.available (x.archiveKey id pk) taken))
    (hstep : Step x (phases e.thread) e.label e.ok e.before e.after m) (hH : Tidy past e) :
    Accounted (past ++ [e]) (Function.update phases e.thread m) e.after := by
  have hg := hexcl.guard e.thread
  intro q hq
  rcases hstep.archives hq with hold | ⟨pk, staged, missing, isPartial, rfl, hbuilds, hop, hname⟩
  · obtain ⟨hkey, pk, hanswers⟩ := h q hold
    refine ⟨hkey, pk, ?_, ?_⟩
    · rcases hanswers.1 with hnamed | ⟨k, staged, missing, isPartial, archive, hk⟩
      · exact .inl (hstep.keepsNamed hg hnamed (hanswers.kept hkey hnamed hrec hH))
      · by_cases hke : k = e.thread
        · subst hke
          refine (hstep.ofSaved hk hg hH.kept).symm.imp_right fun hm => ?_
          exact ⟨e.thread, staged, missing, isPartial, archive, by
            rw [Function.update_self, hm, hk]⟩
        · exact .inr ⟨k, staged, missing, isPartial, archive,
            by rw [Function.update_of_ne hke, hk]⟩
    · intro d hd hlabel
      rcases List.mem_append.mp hd with hd | hd
      · exact hanswers.2 d hd hlabel
      · -- what is there has not been deleted by this step
        obtain rfl := List.mem_singleton.mp hd
        have hok := hH.kept (by rw [hlabel]; rfl)
        rw [hlabel, hok] at hstep
        exact absurd rfl (hstep.deletesArchive hkey q hq)
  · obtain ⟨id, taken, hname⟩ := hname
    refine ⟨by rw [hname]; exact hkeys id pk taken, pk,
      .inr ⟨e.thread, staged, missing, isPartial, q.2, Function.update_self ..⟩, ?_⟩
    intro d hd hlabel hset
    rcases List.mem_append.mp hd with hd | hd
    · -- a request that is built is not published
      have hlater : Later d.after e.before := hrec.last _ (List.mem_cons_of_mem _
        (List.mem_map_of_mem hd))
      exact (hexcl.held _ pk hbuilds).not_settled (hlater.settled hset)
    · rw [List.mem_singleton.mp hd, hop] at hlabel
      exact absurd hlabel (by simp)

/-! ### Every run -/

theorem IsKey.append {rest : String} (h : IsKey key) : IsKey (key ++ rest) := by
  obtain ⟨hne, hrel⟩ := h
  have hchars : key.toList ≠ [] := fun hnil => hne (String.toList_injective hnil)
  refine ⟨fun hnil => hchars ?_, ?_⟩
  · have hlist := congrArg String.toList hnil
    rw [String.toList_append] at hlist
    exact (List.append_eq_nil_iff.mp hlist).1
  · rw [ExportDb.isLegacyPath, String.toList_append, List.head?_append_of_ne_nil _ hchars]
    exact hrel

/-- What a storage makes of the key of an archive. -/
theorem race_keys (k : Fin 4) (id : Option Uuid) (pk : Nat) (taken : List String) :
    IsKey ((race k).1.names.available ((race k).1.archiveKey id pk) taken) := by
  have hkey : IsKey (exporter.archiveKey id pk) :=
    (((show IsKey "exports/" by decide).append).append.append).append
  have hsuffixed : IsKey (Names.suffixed.available (exporter.archiveKey id pk) taken) := by
    unfold Names.suffixed
    dsimp only
    split
    · exact hkey.append
    · exact hkey
  match k with
  | 0 | 1 | 2 | 3 => exact hsuffixed

/-- The archive is stored, and announcing it fails; a day later the sweep builds another. -/
def failedEmit : List (Fin 4 × Option ExportError) :=
  List.replicate 5 (0, none) ++ List.replicate 8 (1, none) ++ List.replicate 16 (2, none) ++
    (2, some (.failure "no broker")) :: List.replicate 3 (2, none) ++ List.replicate 22 (3, none)

def failedEmitRun : List (Pool.Event (Fin 4) ExportOp ExportDb) ×
    Pool ExportOp ExportDb ExportError Unit (Fin 4) × ExportDb :=
  Pool.scheduleFaults failedEmit (callers race) uploaded

end StapelGdpr.Export
