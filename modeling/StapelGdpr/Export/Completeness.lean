import StapelGdpr.Export.Publication
import StapelGdpr.Lib.Recall

/-!
# StapelGdpr.Export.Completeness

Whether a published archive says what it lacks. `_missing_services` judges by the status of
the parts, and a part is DONE as soon as its owner has uploaded it; whether its bytes are in
the archive is decided elsewhere, by an open that may fail, a key that may be refused, a file
left over from before, or an upload that arrived after the download had started. Each of them
leaves a part DONE and absent (`absent_and_complete`).

`archive_complete` is what holds when none of these strikes an assembly that publishes (`Smooth`,
of the events from its listing of the parts to its publication). The invariant follows the
download: whatever part is not left to do is in staging (`Gathered`).
-/

namespace StapelGdpr.Export

open Prog

variable {κ : Type} [DecidableEq κ] {calls : κ → Exporter × Caller} {may : κ → ExportOp → Prop}
  {P : Pool ExportOp ExportDb ExportError Unit κ} {start a b db : ExportDb} {x y : Exporter}
  {tr past : List (Pool.Event κ ExportOp ExportDb)} {phases : κ → Phase} {k : κ} {pk i : Nat}
  {m m' : Phase} {op : ExportOp} {ok : Bool} {missing : List String} {isPartial : Bool}
  {files : List (String × Bytes)} {p : DataExportPart} {part : Stored DataExportPart}
  {todo staged : List (Stored DataExportPart)} {e : Pool.Event κ ExportOp ExportDb}

/-! ### What is said of an archive -/

/-- The uploaded object of the part, if it has one, is among the files, in its place. -/
def Carried (db : ExportDb) (files : List (String × Bytes)) (p : DataExportPart) : Prop :=
  ∀ key, p.bucketPath = some key → key ≠ "" →
    ∃ bytes, db.object? key = some bytes ∧ (exportPath p.service, bytes) ∈ files

/-- The step makes the request READY. -/
def Publishes (pk : Nat) (e : Pool.Event κ ExportOp ExportDb) : Prop :=
  e.before.status pk ≠ some .ready ∧ e.after.status pk = some .ready

/-- The step stores an archive of the request. -/
def Stores (pk : Nat) (key : String) (archive : Archive) (f : Pool.Event κ ExportOp ExportDb) :
    Prop :=
  f.label = .saveArchive pk ∧ f.after.archives = (key, archive) :: f.before.archives

/-- The published row names an archive that the same call has stored, and every part with an
uploaded slice is in that archive or is listed as missing. -/
def Complete (pk : Nat) (pre : List (Pool.Event κ ExportOp ExportDb))
    (e : Pool.Event κ ExportOp ExportDb) : Prop :=
  ∃ r key archive, e.after.requests.get? pk = some r ∧ r.archivePath = some key ∧
    (∃ f ∈ pre, f.thread = e.thread ∧ Stores pk key archive f) ∧
    ∀ i p, e.after.parts.get? i = some p → p.request = pk →
      Carried e.after archive.files p ∨ p.service ∈ r.missingServices ∧ r.isPartial = true

/-! ### The condition -/

/-- The part was uploaded under a key. -/
def DataExportPart.isUploaded (p : DataExportPart) : Bool := p.bucketPath.any (· ≠ "")

/-- The download of a slice, in the statements of its assembly: a file in its place is the
slice, otherwise the contract accepts its key; the object is there and is read; its copy is
written. -/
def GetsSlice (x : Exporter) (d : Pool.Event κ ExportOp ExportDb) : Prop :=
  match d.label with
  | .fileExists pk service key => key ≠ "" →
      if d.before.hasFile pk (exportPath service) then
        ∃ bytes, d.before.object? key = some bytes ∧
          (exportPath service, bytes) ∈ d.before.filesOf pk
      else SafeFor x d.before pk key
  | .openPart _ _ key => d.ok = true ∧ (d.before.readObject key).isSome = true
  | .copyPart .. | .copiedPart .. => d.ok = true
  | _ => True

/-- The step lands no uploaded part of the request. -/
def LandsNothing (pk : Nat) (d : Pool.Event κ ExportOp ExportDb) : Prop :=
  ∀ i p, d.after.parts.get? i = some p → p.request = pk → p.status = .done →
    p.isUploaded = true → ∃ p', d.before.parts.get? i = some p' ∧ p'.status = .done ∧
      p'.bucketPath = p.bucketPath

/-- The step reopens no DONE part of the request. -/
def ReopensNothing (pk : Nat) (d : Pool.Event κ ExportOp ExportDb) : Prop :=
  ∀ i p, d.before.parts.get? i = some p → p.request = pk → p.status = .done →
    ∃ p', d.after.parts.get? i = some p' ∧ p'.status = .done

/-- The request a provider exports for. -/
def ExportOp.exportsFor : ExportOp → Option Nat
  | exportToStaging pk _ => some pk
  | _ => none

/-- A provider that exports again takes no slice of the request out of staging. -/
def TakesNothing (pk : Nat) (d : Pool.Event κ ExportOp ExportDb) : Prop :=
  d.label.exportsFor = some pk → ∀ i p, d.before.parts.get? i = some p → p.request = pk →
    p.status = .done → Carried d.before (d.before.filesOf pk) p →
      Carried d.before (d.after.filesOf pk) p

/-- Does the statement list the parts to download? -/
def ExportOp.lists : ExportOp → Bool
  | listParts _ => true
  | _ => false

/-- The events since the call has listed the parts it downloads. -/
def sinceListing (k : κ) (past : List (Pool.Event κ ExportOp ExportDb)) :
    List (Pool.Event κ ExportOp ExportDb) := Pool.since ExportOp.lists k past

/-- The call computes the missing services of the request. -/
def Judges (k : κ) (pk : Nat) (d : Pool.Event κ ExportOp ExportDb) : Prop :=
  d.thread = k ∧ d.label = .missing pk

/-- What an assembly of the request needs of the events from its listing of the parts on: its
call gets the slices, no provider takes one away, no part lands before the missing services are
computed, and none is reopened after. -/
structure Smooth (x : Exporter) (k : κ) (pk : Nat) (since : List (Pool.Event κ ExportOp ExportDb)) :
    Prop where
  gets : ∀ d ∈ since, d.thread = k → GetsSlice x d
  takes : ∀ d ∈ since, TakesNothing pk d
  lands : ∀ l₁ j l₂, since = l₁ ++ j :: l₂ → Judges k pk j → ∀ d ∈ l₁, LandsNothing pk d
  reopens : ∀ l₁ d l₂, since = l₁ ++ d :: l₂ → (∃ j ∈ l₁, Judges k pk j) → ReopensNothing pk d

/-- The condition: what publishes has gone smoothly. -/
def PublishesSmoothly (calls : κ → Exporter × Caller)
    (past : List (Pool.Event κ ExportOp ExportDb)) (e : Pool.Event κ ExportOp ExportDb) : Prop :=
  match e.label with
  | .publish pk => e.ok = true → Smooth (calls e.thread).1 e.thread pk (sinceListing e.thread past)
  | _ => True

/-! These can be evaluated. -/

instance (db : ExportDb) (pk : Nat) : Decidable (Assembling db pk) :=
  decidable_of_iff (∃ r ∈ db.requests.get? pk, r.status = .assembling) Iff.rfl

instance (file : String × Bytes) (files : List (String × Bytes)) : Decidable (file ∈ files) :=
  List.instDecidableMemOfLawfulBEq file files

instance (db : ExportDb) (files : List (String × Bytes)) (p : DataExportPart) :
    Decidable (Carried db files p) :=
  decidable_of_iff (∀ key ∈ p.bucketPath, key ≠ "" →
    ∃ bytes ∈ db.object? key, (exportPath p.service, bytes) ∈ files) Iff.rfl

instance (pk : Nat) (e : Pool.Event κ ExportOp ExportDb) : Decidable (Publishes pk e) :=
  inferInstanceAs (Decidable (_ ∧ _))

instance (t : Table DataExportPart) (Q : Nat → DataExportPart → Prop)
    [∀ i p, Decidable (Q i p)] : Decidable (∀ i p, t.get? i = some p → Q i p) :=
  decidable_of_iff (∀ o ∈ t.entries, Q o.pk o.row)
    ⟨fun h i p hp => h ⟨i, p⟩ (Table.mem_entries.mpr hp), fun h o ho =>
      h o.pk o.row (Table.mem_entries.mp ho)⟩

omit [DecidableEq κ] in
instance (x : Exporter) (d : Pool.Event κ ExportOp ExportDb) : Decidable (GetsSlice x d) := by
  obtain ⟨thread, label, before, after, ok⟩ := d
  induction label using ExportOp.casesOn with
  | fileExists pk service key =>
      exact decidable_of_iff (key ≠ "" → if before.hasFile pk (exportPath service) then
        ∃ bytes ∈ before.object? key, (exportPath service, bytes) ∈ before.filesOf pk
        else SafeFor x before pk key) Iff.rfl
  | openPart pk service key =>
      exact inferInstanceAs (Decidable (ok = true ∧ (before.readObject key).isSome = true))
  | copyPart | copiedPart => exact inferInstanceAs (Decidable (ok = true))
  | _ => exact .isTrue trivial

omit [DecidableEq κ] in
instance (pk : Nat) (d : Pool.Event κ ExportOp ExportDb) : Decidable (LandsNothing pk d) :=
  decidable_of_iff (∀ i p, d.after.parts.get? i = some p → p.request = pk → p.status = .done →
    p.isUploaded = true → ∃ p' ∈ d.before.parts.get? i, p'.status = .done ∧
      p'.bucketPath = p.bucketPath) Iff.rfl

omit [DecidableEq κ] in
instance (pk : Nat) (d : Pool.Event κ ExportOp ExportDb) : Decidable (ReopensNothing pk d) :=
  decidable_of_iff (∀ i p, d.before.parts.get? i = some p → p.request = pk → p.status = .done →
    ∃ p' ∈ d.after.parts.get? i, p'.status = .done) Iff.rfl

omit [DecidableEq κ] in
instance (pk : Nat) (d : Pool.Event κ ExportOp ExportDb) : Decidable (TakesNothing pk d) :=
  inferInstanceAs (Decidable (d.label.exportsFor = some pk → ∀ i p,
    d.before.parts.get? i = some p → _))

instance (k : κ) (pk : Nat) (d : Pool.Event κ ExportOp ExportDb) : Decidable (Judges k pk d) :=
  inferInstanceAs (Decidable (_ ∧ _))

instance (x : Exporter) (k : κ) (pk : Nat) (since : List (Pool.Event κ ExportOp ExportDb)) :
    Decidable (Smooth x k pk since) :=
  decidable_of_iff ((∀ d ∈ since, d.thread = k → GetsSlice x d) ∧ (∀ d ∈ since, TakesNothing pk d) ∧
    (∀ l₁ j l₂, since = l₁ ++ j :: l₂ → Judges k pk j → ∀ d ∈ l₁, LandsNothing pk d) ∧
    ∀ l₁ d l₂, since = l₁ ++ d :: l₂ → (∃ j ∈ l₁, Judges k pk j) → ReopensNothing pk d)
    ⟨fun ⟨h₁, h₂, h₃, h₄⟩ => ⟨h₁, h₂, h₃, h₄⟩, fun h => ⟨h.gets, h.takes, h.lands, h.reopens⟩⟩

instance (past : List (Pool.Event κ ExportOp ExportDb)) (e : Pool.Event κ ExportOp ExportDb) :
    Decidable (PublishesSmoothly calls past e) := by
  obtain ⟨thread, label, before, after, ok⟩ := e
  induction label using ExportOp.casesOn with
  | publish pk =>
      exact inferInstanceAs (Decidable (ok = true →
        Smooth (calls thread).1 thread pk (sinceListing thread past)))
  | _ => exact .isTrue trivial

/-! ### Parts and files of a held request -/

/-- The objects peers have uploaded are what they are. -/
theorem Step.bucket (h : Step x m op ok a b m') : b.bucket = a.bucket := by
  cases h with
  | exported | archiveDeleted => simp
  | _ => rfl

theorem Carried.of_bucket {p q : DataExportPart} (h : Carried a files p) (hb : b.bucket = a.bucket)
    (hpath : q.bucketPath = p.bucketPath) (hservice : q.service = p.service) :
    Carried b files q := by
  intro key hkey hne
  rw [hpath] at hkey
  obtain ⟨bytes, hbytes, hmem⟩ := h key hkey hne
  refine ⟨bytes, ?_, by rwa [hservice]⟩
  rw [ExportDb.object?, hb]
  exact hbytes

/-- A DONE part of a held request stays as it is, unless an old export is saved over it. -/
theorem Step.keepsDone (h : Step x m op ok a b m') {i : Nat} {p : DataExportPart}
    (hp : a.parts.get? i = some p) (hdone : p.status = .done) (hheld : Assembling a p.request)
    (hsave : op = .savePart i → ∃ p', b.parts.get? i = some p' ∧ p'.status = .done) :
    ∃ p', b.parts.get? i = some p' ∧ p'.request = p.request ∧ p'.service = p.service ∧
      p'.status = .done ∧ p'.bucketPath = p.bucketPath := by
  cases h with
  | partCreated => exact ⟨p, Table.get?_insert_of_some _ hp, rfl, rfl, hdone, rfl⟩
  | @partSaved j outcome =>
      by_cases hj : i = j
      · subst hj
        obtain ⟨p', hp', hdone'⟩ := hsave rfl
        have hget := Table.get?_modify_self (fun p : DataExportPart => { p with
          status := outcome.status, completedAt := outcome.completedAt, error := outcome.error }) hp
        have heq := Option.some.inj (hp'.symm.trans hget)
        rw [heq] at hdone'
        exact ⟨_, hget, rfl, rfl, hdone', rfl⟩
      · exact ⟨p, (Table.get?_modify_of_ne _ hj).trans hp, rfl, rfl, hdone, rfl⟩
  | @partReady pk' service path =>
      -- `exclude(status=DONE)`
      refine ⟨p, ?_, rfl, rfl, hdone, rfl⟩
      refine (Table.get?_update ..).trans ?_
      rw [hp]
      simp [DataExportPart.awaits, hdone]
  | @partPurged j pk' _ _ _ hset hpart =>
      by_cases hj : i = j
      · -- a purged part is one of a published request
        subst hj
        obtain ⟨q, hq, rfl⟩ := hpart
        obtain rfl : q = p := Option.some.inj (hq.symm.trans hp)
        exact absurd hset hheld.not_settled
      · exact ⟨p, (Table.get?_modify_of_ne _ hj).trans hp, rfl, rfl, hdone, rfl⟩
  | exported | archiveDeleted => exact ⟨p, by simpa using hp, rfl, rfl, hdone, rfl⟩
  | _ => exact ⟨p, hp, rfl, rfl, hdone, rfl⟩

/-- A staged file of a held request stays, unless its builder or a provider writes. -/
theorem Step.keepsFiles (h : Step x m op ok a b m') (hheld : Assembling a pk)
    (hm : m.builds ≠ some pk) (hop : op.exportsFor ≠ some pk)
    {q : String × Bytes} (hq : q ∈ a.filesOf pk) : q ∈ b.filesOf pk := by
  obtain ⟨path, bytes⟩ := q
  rw [ExportDb.mem_filesOf] at hq ⊢
  cases h with
  | @exported i service files =>
      obtain ⟨staging, heq, hmem⟩ := ExportDb.stageAll_frame a i service files
      rw [heq]
      refine (hmem _ ?_).mpr hq
      rintro rfl
      exact hop rfl
  | @written i | @copied i =>
      rw [ExportDb.mem_stage]
      refine .inr ⟨hq, fun ⟨heq, _⟩ => ?_⟩
      obtain rfl : pk = i := heq
      exact hm rfl
  | @cleared i _ _ _ hset =>
      refine List.mem_filter.mpr ⟨hq, ?_⟩
      simp only [decide_eq_true_eq]
      rintro rfl
      exact hheld.not_settled hset
  | archiveDeleted => simpa using hq
  | _ => exact hq

/-- Where a slice stands tells whose it is. -/
theorem exportPath_injective {service service' : String}
    (h : exportPath service = exportPath service') : service = service' := by
  have hlist := congrArg String.toList h
  rw [exportPath, exportPath, String.toList_append, String.toList_append] at hlist
  exact String.toList_injective (List.append_cancel_right hlist)

omit [DecidableEq κ] in
/-- A slice in staging stays there while others work. -/
theorem Carried.others (h : Carried e.before (e.before.filesOf pk) p)
    (hp : e.before.parts.get? i = some p) (hreq : p.request = pk) (hdone : p.status = .done)
    (hstep : Step x m e.label e.ok e.before e.after m') (hheld : Assembling e.before pk)
    (hm : m.builds ≠ some pk) (htakes : TakesNothing pk e) :
    Carried e.before (e.after.filesOf pk) p := by
  by_cases hop : e.label.exportsFor = some pk
  · exact htakes hop i p hp hreq hdone h
  · intro key hkey hne
    obtain ⟨bytes, hbytes, hmem⟩ := h key hkey hne
    exact ⟨bytes, hbytes, hstep.keepsFiles hheld hm hop hmem⟩

/-- A part with nothing uploaded has nothing to carry. -/
theorem carried_of_not_uploaded (h : p.isUploaded = false) : Carried db files p := by
  intro key hkey hne
  rw [DataExportPart.isUploaded, hkey] at h
  exact absurd h (by simpa using hne)

/-! ### The download -/

/-- The part is the one that was listed, whatever has become of its columns. -/
def Enrolled (db : ExportDb) (pk : Nat) (part : Stored DataExportPart) : Prop :=
  ∃ p, db.parts.get? part.pk = some p ∧ p.request = pk ∧ p.service = part.row.service

theorem Enrolled.later (h : Enrolled a pk part) (hl : Later a b) : Enrolled b pk part := by
  obtain ⟨p, hp, hreq, hservice⟩ := h
  obtain ⟨p', hp', hreq', hservice'⟩ := hl.parts _ p hp
  exact ⟨p', hp', hreq'.trans hreq, hservice'.trans hservice⟩

/-- Of the uploaded parts, those still to do are as they were listed, and the others are in
staging. -/
def Gathered (db : ExportDb) (pk : Nat) (todo : List (Stored DataExportPart)) : Prop :=
  ∀ i p, db.parts.get? i = some p → p.request = pk → p.status = .done → p.isUploaded = true →
    (∀ part ∈ todo, part.pk = i → part.row.bucketPath = p.bucketPath) ∧
      ((∀ part ∈ todo, part.pk ≠ i) → Carried db (db.filesOf pk) p)

/-- What the call needs of the events since its listing while it downloads. -/
structure Downloads (x : Exporter) (k : κ) (pk : Nat)
    (since : List (Pool.Event κ ExportOp ExportDb)) : Prop where
  gets : ∀ d ∈ since, d.thread = k → GetsSlice x d
  takes : ∀ d ∈ since, TakesNothing pk d
  lands : ∀ d ∈ since, LandsNothing pk d

omit [DecidableEq κ] in
theorem Downloads.init {l : List (Pool.Event κ ExportOp ExportDb)}
    (h : Downloads x k pk (l ++ [e])) : Downloads x k pk l where
  gets d hd := h.gets d (List.mem_append_left _ hd)
  takes d hd := h.takes d (List.mem_append_left _ hd)
  lands d hd := h.lands d (List.mem_append_left _ hd)

omit [DecidableEq κ] in
theorem Smooth.init {l : List (Pool.Event κ ExportOp ExportDb)} (h : Smooth x k pk (l ++ [e])) :
    Smooth x k pk l where
  gets d hd := h.gets d (List.mem_append_left _ hd)
  takes d hd := h.takes d (List.mem_append_left _ hd)
  lands l₁ j l₂ hcut := h.lands l₁ j (l₂ ++ [e]) (by rw [hcut]; simp)
  reopens l₁ d l₂ hcut := h.reopens l₁ d (l₂ ++ [e]) (by rw [hcut]; simp)

omit [DecidableEq κ] in
/-- What a smooth assembly is when it judges, it has been all along. -/
theorem Smooth.downloads {l : List (Pool.Event κ ExportOp ExportDb)}
    (h : Smooth x k pk (l ++ [e])) (hjudges : Judges k pk e) : Downloads x k pk l where
  gets d hd := h.gets d (List.mem_append_left _ hd)
  takes d hd := h.takes d (List.mem_append_left _ hd)
  lands := h.lands l e [] rfl hjudges

omit [DecidableEq κ] in
/-- The steps of others leave the download where it is. -/
theorem Gathered.others (h : Gathered e.before pk todo)
    (hstep : Step x m e.label e.ok e.before e.after m') (hg : Guard m e.before)
    (hheld : Assembling e.before pk) (hm : m.builds ≠ some pk) (hlands : LandsNothing pk e)
    (htakes : TakesNothing pk e) : Gathered e.after pk todo := by
  intro i p hp hreq hdone hup
  obtain ⟨p₀, hp₀, hdone₀, hpath⟩ := hlands i p hp hreq hdone hup
  obtain ⟨p₁, hp₁, hreq₁, hservice⟩ := (hstep.later hg).parts i p₀ hp₀
  obtain rfl : p₁ = p := Option.some.inj (hp₁.symm.trans hp)
  have hup₀ : p₀.isUploaded = true := by
    rw [DataExportPart.isUploaded, hpath]
    exact hup
  obtain ⟨htodo, hcarried⟩ := h i p₀ hp₀ (hreq₁.symm.trans hreq) hdone₀ hup₀
  refine ⟨fun part hmem heq => (htodo part hmem heq).trans hpath, fun hnot => ?_⟩
  exact ((hcarried hnot).others hp₀ (hreq₁.symm.trans hreq) hdone₀ hstep hheld hm htakes).of_bucket
    hstep.bucket hpath.symm hservice

/-- A part is done: it is in staging, and the rest is left. -/
theorem Gathered.next (h : Gathered db pk (part :: todo))
    (hcarried : ∀ p, db.parts.get? part.pk = some p → p.request = pk → p.status = .done →
      p.isUploaded = true → part.row.bucketPath = p.bucketPath →
      Carried db (db.filesOf pk) p) : Gathered db pk todo := by
  intro i p hp hreq hdone hup
  obtain ⟨htodo, hrest⟩ := h i p hp hreq hdone hup
  refine ⟨fun q hq => htodo q (List.mem_cons_of_mem _ hq), fun hnot => ?_⟩
  by_cases hi : part.pk = i
  · subst hi
    exact hcarried p hp hreq hdone hup (htodo part List.mem_cons_self rfl)
  · exact hrest fun q hq => by
      rcases List.mem_cons.mp hq with rfl | hq
      · exact hi
      · exact hnot q hq

/-- Writing the file of a part touches no slice of another. -/
theorem Gathered.stage {bytes : Bytes} (h : Gathered db pk (part :: todo)) (hs : Sound db)
    (hlisted : Enrolled db pk part) :
    Gathered (db.stage pk (exportPath part.row.service) bytes) pk (part :: todo) := by
  intro i p hp hreq hdone hup
  obtain ⟨htodo, hrest⟩ := h i p hp hreq hdone hup
  refine ⟨htodo, fun hnot key hkey hne => ?_⟩
  obtain ⟨bytes', hbytes, hmem⟩ := hrest hnot key hkey hne
  refine ⟨bytes', hbytes, ExportDb.mem_filesOf.mpr (ExportDb.mem_stage.mpr (.inr ⟨
    ExportDb.mem_filesOf.mp hmem, fun ⟨_, hpath⟩ => ?_⟩))⟩
  obtain ⟨q, hq, hreq', hservice⟩ := hlisted
  exact hnot part List.mem_cons_self (hs.unique part.pk i q p hq hp (hreq'.trans hreq.symm)
    (hservice.trans (exportPath_injective hpath).symm))

/-! ### What a build has judged -/

/-- Every service the request expects is listed as missing, or has a DONE part whose slice is
among the files. -/
def Judged (db : ExportDb) (pk : Nat) (files : List (String × Bytes)) (missing : List String)
    (isPartial : Bool) : Prop :=
  ∀ service, db.expects pk service → (service ∈ missing ∧ isPartial = true) ∨
    ∃ i p, db.parts.get? i = some p ∧ p.request = pk ∧ p.service = service ∧ p.status = .done ∧
      Carried db files p

/-- What a build has judged stays true while it holds the request. -/
theorem Judged.step {files' : List (String × Bytes)} (h : Judged a pk files missing isPartial)
    (hstep : Step x m op ok a b m') (hg : Guard m a) (hheld : Assembling a pk)
    (hreopens : ∀ i p, a.parts.get? i = some p → p.request = pk → p.status = .done →
      ∃ p', b.parts.get? i = some p' ∧ p'.status = .done)
    (hfiles : ∀ i p, a.parts.get? i = some p → p.request = pk → p.status = .done →
      Carried a files p → Carried a files' p) : Judged b pk files' missing isPartial := by
  intro service ⟨r', hr', hmem⟩
  obtain ⟨r, hr, hs⟩ := hheld
  obtain ⟨r₀, hr₀, hrow⟩ := (hstep.later hg).rows pk r hr
  obtain rfl : r₀ = r' := Option.some.inj (hr₀.symm.trans hr')
  refine (h service ⟨r, hr, by rwa [← hrow.expected]⟩).imp_right ?_
  rintro ⟨i, p, hp, hreq, hservice, hdone, hcarried⟩
  have hheld : Assembling a p.request := hreq ▸ ⟨r, hr, hs⟩
  obtain ⟨p', hp', hreq', hservice', hdone', hpath'⟩ := hstep.keepsDone hp hdone hheld
    fun _ => hreopens i p hp hreq hdone
  exact ⟨i, p', hp', hreq'.trans hreq, hservice'.trans hservice, hdone',
    (hfiles i p hp hreq hdone hcarried).of_bucket hstep.bucket hpath' hservice'⟩

/-! ### The invariant -/

/-- The call has computed the missing services since it listed the parts. -/
def HasJudged (k : κ) (pk : Nat) (past : List (Pool.Event κ ExportOp ExportDb)) : Prop :=
  ∃ j ∈ sinceListing k past, Judges k pk j

/-- What a call knows of the archive it builds. -/
def Knows (x : Exporter) (past : List (Pool.Event κ ExportOp ExportDb)) (k : κ) (db : ExportDb) :
    Phase → Prop
  | .building pk todo _ => (∀ part ∈ todo, Enrolled db pk part) ∧
      (Downloads x k pk (sinceListing k past) → Gathered db pk todo)
  | .copying pk part bytes todo _ => (∀ q ∈ part :: todo, Enrolled db pk q) ∧
      db.object? (sliceKey part) = some bytes ∧
      (Downloads x k pk (sinceListing k past) → Gathered db pk (part :: todo))
  | .judged pk _ missing isPartial => HasJudged k pk past ∧
      (Smooth x k pk (sinceListing k past) → Judged db pk (db.filesOf pk) missing isPartial)
  | .zipped pk _ missing isPartial archive => HasJudged k pk past ∧
      (Smooth x k pk (sinceListing k past) → Judged db pk archive.files missing isPartial)
  | .saved pk _ missing isPartial archive key => HasJudged k pk past ∧
      (Smooth x k pk (sinceListing k past) → Judged db pk archive.files missing isPartial) ∧
      ∃ f ∈ past, f.thread = k ∧ Stores pk key archive f
  | _ => True

theorem sinceListing_snoc (h : e.thread = k → e.label.lists = false) :
    sinceListing k (past ++ [e]) = sinceListing k past ++ [e] := by
  refine Pool.since_concat.trans (if_neg fun hlast => ?_)
  rw [h hlast.1] at hlast
  exact absurd hlast.2 (by simp)

theorem HasJudged.snoc (h : HasJudged k pk past) (he : e.thread = k → e.label.lists = false) :
    HasJudged k pk (past ++ [e]) := by
  obtain ⟨j, hj, hjudges⟩ := h
  exact ⟨j, by rw [sinceListing_snoc he]; exact List.mem_append_left _ hj, hjudges⟩

/-- A step that changes nothing leaves it known. -/
theorem Knows.snoc {n : Phase} (h : Knows x past k db n) (he : e.thread = k → e.label.lists = false) :
    Knows x (past ++ [e]) k db n := by
  cases n with
  | idle | held | published | purging => trivial
  | building pk todo staged =>
      refine ⟨h.1, fun hd => h.2 ?_⟩
      rw [sinceListing_snoc he] at hd
      exact hd.init
  | copying pk part bytes todo staged =>
      refine ⟨h.1, h.2.1, fun hd => h.2.2 ?_⟩
      rw [sinceListing_snoc he] at hd
      exact hd.init
  | judged | zipped =>
      refine ⟨h.1.snoc he, fun hs => h.2 ?_⟩
      rw [sinceListing_snoc he] at hs
      exact hs.init
  | saved pk staged missing isPartial archive key =>
      obtain ⟨hjudges, hjudged, f, hf, hstores⟩ := h
      refine ⟨hjudges.snoc he, fun hs => hjudged ?_, f, List.mem_append_left _ hf, hstores⟩
      rw [sinceListing_snoc he] at hs
      exact hs.init

/-- The steps of others leave it true. -/
theorem Knows.others {n : Phase} (h : Knows x past k e.before n) (hk : e.thread ≠ k)
    (hstep : Step y m e.label e.ok e.before e.after m') (hg : Guard m e.before)
    (hheld : ∀ pk, n.builds = some pk → Assembling e.before pk ∧ m.builds ≠ some pk) :
    Knows x (past ++ [e]) k e.after n := by
  have hsnoc : sinceListing k (past ++ [e]) = sinceListing k past ++ [e] :=
    sinceListing_snoc fun heq => absurd heq hk
  have hlast : e ∈ sinceListing k past ++ [e] := List.mem_append_right _ List.mem_cons_self
  have hbucket : ∀ {key : String}, e.after.object? key = e.before.object? key := by
    intro key
    rw [ExportDb.object?, ExportDb.object?, hstep.bucket]
  have hjudged : ∀ {pk : Nat} {files files' : List (String × Bytes)} {missing : List String}
      {isPartial : Bool}, Assembling e.before pk → HasJudged k pk past →
      Smooth x k pk (sinceListing k past ++ [e]) →
      (∀ i p, e.before.parts.get? i = some p → p.request = pk → p.status = .done →
        Carried e.before files p → Carried e.before files' p) →
      Judged e.before pk files missing isPartial → Judged e.after pk files' missing isPartial :=
    fun hassembling hhas hs hfiles h => h.step hstep hg hassembling (hs.reopens _ e [] rfl hhas) hfiles
  cases n with
  | idle | held | published | purging => trivial
  | building pk todo staged =>
      obtain ⟨hassembling, hother⟩ := hheld pk rfl
      refine ⟨fun q hq => (h.1 q hq).later (hstep.later hg), fun hd => ?_⟩
      rw [hsnoc] at hd
      exact (h.2 hd.init).others hstep hg hassembling hother (hd.lands e hlast) (hd.takes e hlast)
  | copying pk part bytes todo staged =>
      obtain ⟨hassembling, hother⟩ := hheld pk rfl
      refine ⟨fun q hq => (h.1 q hq).later (hstep.later hg), hbucket.trans h.2.1, fun hd => ?_⟩
      rw [hsnoc] at hd
      exact (h.2.2 hd.init).others hstep hg hassembling hother (hd.lands e hlast)
        (hd.takes e hlast)
  | judged pk staged missing isPartial =>
      obtain ⟨hassembling, hother⟩ := hheld pk rfl
      refine ⟨h.1.snoc fun heq => absurd heq hk, fun hs => ?_⟩
      rw [hsnoc] at hs
      refine hjudged hassembling h.1 hs (fun i p hp hreq hdone hcarried => ?_) (h.2 hs.init)
      exact hcarried.others hp hreq hdone hstep hassembling hother (hs.takes e hlast)
  | zipped pk staged missing isPartial archive =>
      refine ⟨h.1.snoc fun heq => absurd heq hk, fun hs => ?_⟩
      rw [hsnoc] at hs
      exact hjudged (hheld pk rfl).1 h.1 hs (fun _ _ _ _ _ h => h) (h.2 hs.init)
  | saved pk staged missing isPartial archive key =>
      obtain ⟨hhas, hsmooth, f, hf, hstores⟩ := h
      refine ⟨hhas.snoc fun heq => absurd heq hk, fun hs => ?_, f, List.mem_append_left _ hf,
        hstores⟩
      rw [hsnoc] at hs
      exact hjudged (hheld pk rfl).1 hhas hs (fun _ _ _ _ _ h => h) (hsmooth hs.init)

omit [DecidableEq κ] in
/-- A part whose file is found in place, or whose key is refused, is in staging already. -/
theorem GetsSlice.inPlace {service key : String}
    (h : GetsSlice x (⟨k, .fileExists pk service key, db, b, ok⟩ : Pool.Event κ ExportOp ExportDb))
    (hdone : db.hasFile pk (exportPath service) = true ∨ ¬ SafeFor x db pk key) (hne : key ≠ "") :
    ∃ bytes, db.object? key = some bytes ∧ (exportPath service, bytes) ∈ db.filesOf pk := by
  have hgets := h hne
  by_cases hfile : db.hasFile pk (exportPath service) = true
  · rwa [if_pos hfile] at hgets
  · rw [if_neg hfile] at hgets
    exact absurd hgets (hdone.resolve_left hfile)

/-- The slice of a listed part, once it is in the part's place. -/
theorem Gathered.inStaging (h : Gathered db pk (part :: todo)) (hlisted : Enrolled db pk part)
    (hslice : sliceKey part ≠ "" → ∃ bytes, db.object? (sliceKey part) = some bytes ∧
      (exportPath part.row.service, bytes) ∈ db.filesOf pk) : Gathered db pk todo := by
  refine h.next fun p hp _ _ _ hpath key hkey hne => ?_
  have hslicekey : sliceKey part = key := by rw [sliceKey, hpath, hkey, Option.getD_some]
  obtain ⟨q, hq, -, hservice⟩ := hlisted
  obtain rfl : q = p := Option.some.inj (hq.symm.trans hp)
  rw [hslicekey] at hslice
  rw [hservice]
  exact hslice hne

/-- A build's own steps: it gets what it has listed, judges what is in staging, zips what it has
judged, stores what it has zipped. -/
theorem Knows.own (h : Knows x past k a m) (hg : Guard m a) (hstep : Step x m op ok a b m') :
    Knows x (past ++ [⟨k, op, a, b, ok⟩]) k b m' := by
  -- every statement of a build but the first comes after the listing
  have hsnoc : op.lists = false → sinceListing k (past ++ [⟨k, op, a, b, ok⟩]) =
      sinceListing k past ++ [⟨k, op, a, b, ok⟩] := fun hop => sinceListing_snoc fun _ => hop
  have hlast : ∀ {l : List (Pool.Event κ ExportOp ExportDb)},
      (⟨k, op, a, b, ok⟩ : Pool.Event κ ExportOp ExportDb) ∈ l ++ [⟨k, op, a, b, ok⟩] :=
    List.mem_append_right _ List.mem_cons_self
  cases hstep with
  | stays hrests =>
      refine h.snoc fun _ => ?_
      generalize op = label at hrests
      cases label <;> first | rfl | exact absurd hrests.1 (by simp [ExportOp.turns])
  | @listed pk =>
      refine ⟨fun part hmem => ?_, fun _ i p hp hreq hdone hup => ?_⟩
      · obtain ⟨hget, hrow⟩ := Table.mem_select.mp hmem
        simp only [Bool.and_eq_true, decide_eq_true_eq] at hrow
        exact ⟨part.row, hget, hrow.1.1, rfl⟩
      · have hpath : p.bucketPath ≠ none := by
          intro hnone
          rw [DataExportPart.isUploaded, hnone] at hup
          exact absurd hup (by simp)
        refine ⟨fun part hmem heq => ?_, fun hnot => ?_⟩
        · obtain ⟨hget, -⟩ := Table.mem_select.mp hmem
          rw [heq, hp] at hget
          rw [Option.some.inj hget]
        · refine absurd rfl (hnot ⟨i, p⟩ (Table.mem_select.mpr ⟨hp, ?_⟩))
          simp [hreq, hdone, hpath]
  | found hfile =>
      refine ⟨fun q hq => h.1 q (List.mem_cons_of_mem _ hq), fun hd => ?_⟩
      rw [hsnoc rfl] at hd
      exact (h.2 hd.init).inStaging (h.1 _ List.mem_cons_self)
        ((hd.gets _ hlast rfl).inPlace (.inl hfile))
  | refused hunsafe =>
      refine ⟨fun q hq => h.1 q (List.mem_cons_of_mem _ hq), fun hd => ?_⟩
      rw [hsnoc rfl] at hd
      exact (h.2 hd.init).inStaging (h.1 _ List.mem_cons_self)
        ((hd.gets _ hlast rfl).inPlace (.inr hunsafe))
  | opened _ hread =>
      refine ⟨h.1, ?_, fun hd => h.2 ?_⟩
      · unfold ExportDb.readObject at hread
        split at hread
        · exact absurd hread (by simp)
        · exact hread
      · rw [hsnoc rfl] at hd
        exact hd.init
  | notOpened _ hnone =>
      refine ⟨fun q hq => h.1 q (List.mem_cons_of_mem _ hq), fun hd => ?_⟩
      rw [hsnoc rfl] at hd
      obtain ⟨hok, hsome⟩ := hd.gets _ hlast rfl
      rw [hnone hok] at hsome
      exact absurd hsome (by simp)
  | written =>
      refine ⟨h.1, h.2.1, fun hd => ?_⟩
      rw [hsnoc rfl] at hd
      exact (h.2.2 hd.init).stage hg.1 (h.1 _ List.mem_cons_self)
  | @copied pk part todo staged bytes =>
      refine ⟨fun q hq => h.1 q (List.mem_cons_of_mem _ hq), fun hd => ?_⟩
      rw [hsnoc rfl] at hd
      refine ((h.2.2 hd.init).stage hg.1 (h.1 _ List.mem_cons_self)).inStaging
        (h.1 _ List.mem_cons_self) fun _ => ⟨bytes, h.2.1, ?_⟩
      exact ExportDb.mem_filesOf.mpr (ExportDb.mem_stage.mpr (.inl rfl))
  | notCopied hcopy =>
      refine ⟨fun q hq => h.1 q (List.mem_cons_of_mem _ hq), fun hd => ?_⟩
      rcases hcopy with rfl | rfl
      · rw [hsnoc rfl] at hd
        exact absurd (hd.gets _ hlast rfl) (by simp [GetsSlice])
      · rw [hsnoc rfl] at hd
        exact absurd (hd.gets _ hlast rfl) (by simp [GetsSlice])
  | @judged pk staged missing isPartial _ hmissing =>
      refine ⟨⟨_, by rw [hsnoc rfl]; exact hlast, rfl, rfl⟩, fun hs service hexp => ?_⟩
      rw [hsnoc rfl] at hs
      have hgathered := h.2 (hs.downloads ⟨rfl, rfl⟩)
      refine (hmissing service hexp).symm.imp_right fun hdone => ?_
      obtain ⟨i, p, hp, hreq, hdone, hservice⟩ := ExportDb.mem_doneServices.mp hdone
      refine ⟨i, p, hp, hreq, hservice, hdone, ?_⟩
      by_cases hup : p.isUploaded = true
      · exact (hgathered i p hp hreq hdone hup).2 (by simp)
      · exact carried_of_not_uploaded (by simpa using hup)
  | @zipped pk staged missing isPartial archive _ hfiles =>
      refine ⟨h.1.snoc fun _ => rfl, fun hs => ?_⟩
      rw [hsnoc rfl] at hs
      rw [hfiles]
      exact h.2 hs.init
  | @saved pk staged missing isPartial archive key =>
      refine ⟨h.1.snoc fun _ => rfl, fun hs => ?_, _, hlast, rfl, rfl, rfl⟩
      rw [hsnoc rfl] at hs
      exact h.2 hs.init
  | _ => trivial

/-! ### The publication -/

theorem status_of_modify {i : Nat} {f : DataExportRequest → DataExportRequest}
    (hf : ∀ r, a.requests.get? i = some r → (f r).status = .ready → r.status = .ready)
    (h : (a.modifyRequest i f).status pk = some .ready) : a.status pk = some .ready := by
  obtain ⟨r', hr', hready⟩ := Option.map_eq_some_iff.mp h
  by_cases hi : pk = i
  · subst hi
    have hr' : (a.requests.modify pk f).get? pk = some r' := hr'
    rw [Table.get?_modify, if_pos rfl] at hr'
    obtain ⟨r, hr, rfl⟩ := Option.map_eq_some_iff.mp hr'
    rw [ExportDb.status, hr]
    exact congrArg some (hf r hr hready)
  · rw [ExportDb.status, ← hready]
    exact congrArg _ ((Table.get?_modify_of_ne f hi).symm.trans hr')

/-- Nothing but the unit of a build makes a request READY. -/
theorem Step.publishes (h : Step x m op ok a b m') (hbefore : a.status pk ≠ some .ready)
    (hafter : b.status pk = some .ready) : ∃ req staged missing isPartial archive key,
      req.pk = pk ∧ m = .saved req.pk staged missing isPartial archive key ∧
        b = a.publish x req key isPartial missing ∧ op = .publish req.pk ∧ ok = true := by
  cases h with
  | exported | archiveDeleted =>
      exact absurd (by simpa [ExportDb.status] using hafter) hbefore
  | created =>
      obtain ⟨r, hr, hready⟩ := Option.map_eq_some_iff.mp hafter
      have hr : (a.requests.insert _).get? pk = some r := hr
      rw [Table.get?_insert] at hr
      split at hr
      · obtain rfl := Option.some.inj hr
        exact absurd hready (by simp [newRequest])
      · refine absurd ?_ hbefore
        rw [ExportDb.status, hr, ← hready]
        rfl
  | started | locked | gaveBack | expired =>
      exact absurd (status_of_modify (fun _ _ h => absurd h (by simp)) hafter) hbefore
  | consumed | pathNulled =>
      refine absurd (status_of_modify ?_ hafter) hbefore
      exact fun _ _ h => h
  | @published req staged missing isPartial archive key =>
      by_cases hpk : pk = req.pk
      · exact ⟨req, staged, missing, isPartial, archive, key, hpk.symm, rfl, rfl, rfl, rfl⟩
      · refine absurd ?_ hbefore
        rw [← hafter, ExportDb.status, ExportDb.status]
        exact congrArg _ (Table.get?_modify_of_ne _ hpk).symm
  | _ => exact absurd hafter hbefore

omit [DecidableEq κ] in
/-- What a build publishes is complete, or says what is missing. -/
theorem Judged.publishes {req : Stored DataExportRequest} {archive : Archive} {key : String}
    (h : Judged e.before req.pk archive.files missing isPartial)
    (hstored : ∃ f ∈ past, f.thread = e.thread ∧ Stores req.pk key archive f)
    (hg : Guard m e.before) (hm : m.builds = some req.pk)
    (hafter : e.after = e.before.publish x req key isPartial missing)
    (hbucket : e.after.bucket = e.before.bucket) : Complete req.pk past e := by
  obtain ⟨r, hr, -⟩ := hg.2 req.pk hm
  refine ⟨r.publish x key isPartial missing e.before.tokens, key, archive, ?_, rfl, hstored, ?_⟩
  · rw [hafter]
    exact Table.get?_modify_self _ hr
  · intro i p hp hreq
    have hp : e.before.parts.get? i = some p := by rwa [hafter] at hp
    have hexp := hg.1.enrolled i p hp
    rw [hreq] at hexp
    rcases h p.service hexp with hmissing | ⟨j, q, hq, hreq', hservice, -, hcarried⟩
    · exact .inr hmissing
    · -- the part of the service is this one
      obtain rfl := hg.1.unique i j p q hp hq (hreq.trans hreq'.symm) hservice.symm
      obtain rfl := Option.some.inj (hp.symm.trans hq)
      exact .inl (hcarried.of_bucket hbucket rfl rfl)

/-- What the calls know, and what has been published so far. -/
structure Truthful (calls : κ → Exporter × Caller) (past : List (Pool.Event κ ExportOp ExportDb))
    (phases : κ → Phase) (db : ExportDb) : Prop where
  knows : ∀ k, Knows (calls k).1 past k db (phases k)
  complete : ∀ pre e post, past = pre ++ e :: post → ∀ pk, Publishes pk e → Complete pk pre e

theorem Truthful.step (h : Truthful calls past phases e.before) (hexcl : Exclusive phases e.before)
    (hstep : Step (calls e.thread).1 (phases e.thread) e.label e.ok e.before e.after m)
    (hH : PublishesSmoothly calls past e) :
    Truthful calls (past ++ [e]) (Function.update phases e.thread m) e.after := by
  have hg := hexcl.guard e.thread
  constructor
  · intro j
    by_cases hj : j = e.thread
    · subst hj
      rw [Function.update_self]
      exact (h.knows _).own hg hstep
    · rw [Function.update_of_ne hj]
      exact (h.knows j).others (fun heq => hj heq.symm) hstep hg fun pk hb =>
        ⟨hexcl.held j pk hb, fun hk => hj (hexcl.one j e.thread pk hb hk)⟩
  · intro pre f post hcut pk hpub
    rcases cut_snoc hcut with ⟨rfl, rfl⟩ | ⟨post', hcut'⟩
    · obtain ⟨req, staged, missing, isPartial, archive, key, rfl, hm, hafter, hlabel, hok⟩ :=
        hstep.publishes hpub.1 hpub.2
      have hknows := h.knows f.thread
      rw [hm] at hknows
      obtain ⟨-, hjudged, hstored⟩ := hknows
      rw [PublishesSmoothly, hlabel] at hH
      exact (hjudged (hH hok)).publishes hstored hg (by rw [hm]; rfl) hafter hstep.bucket
    · exact h.complete pre f post' hcut' pk hpub

/-- **Completeness is honest**, in every run in which what publishes has gone smoothly: whenever
a request becomes READY, each of its uploaded slices is in the archive its row names, or its
service is listed as missing and the archive is marked partial. -/
theorem archive_complete (hs : Sound start) (hmay : ∀ k op, may k op → op.outside = true)
    (hrun : Pool.Runs may (callers calls) start tr P db)
    (hsmooth : ∀ pre e post, tr = pre ++ e :: post → PublishesSmoothly calls pre e) :
    ∀ pre e post, tr = pre ++ e :: post → ∀ pk, Publishes pk e → Complete pk pre e := by
  obtain ⟨phases, -, htruthful, -⟩ := runs_invariant hs hmay (J := Truthful calls)
    (H := PublishesSmoothly calls) (fun _ _ _ _ hexcl h hstep hH => h.step hexcl hstep hH)
    ⟨fun _ => trivial, fun pre e post h => absurd h (by simp)⟩ hrun hsmooth
  exact htruthful.complete

theorem archive_complete_raced : (∃ e ∈ raceRun.1, Publishes 0 e) ∧
    ∀ pre e post, raceRun.1 = pre ++ e :: post → Publishes 0 e → Complete 0 pre e :=
  ⟨by decide +kernel, fun pre e post hcut => archive_complete (sound_of_empty rfl rfl rfl)
    (fun _ _ h => h) (Pool.runs_schedule (fun _ op => op.outside = true) raceOrder (callers race)
      uploaded) (by decide +kernel) pre e post hcut 0⟩

/-- The owner uploads its slice, and the storage answers the download with an error. -/
def failedOpen : List (Fin 4 × Option ExportError) :=
  List.replicate 5 (0, none) ++ List.replicate 8 (1, none) ++ List.replicate 8 (2, none) ++
    (2, some (.osError "timed out")) :: List.replicate 12 (2, none)

def failedOpenRun : List (Pool.Event (Fin 4) ExportOp ExportDb) ×
    Pool ExportOp ExportDb ExportError Unit (Fin 4) × ExportDb :=
  Pool.scheduleFaults failedOpen (callers race) uploaded

/-- The archive is published as complete, without the slice. -/
theorem absent_and_complete : ¬ ∀ (calls : Fin 4 → Exporter × Caller)
    (may : Fin 4 → ExportOp → Prop) (start db : ExportDb)
    (tr : List (Pool.Event (Fin 4) ExportOp ExportDb))
    (P : Pool ExportOp ExportDb ExportError Unit (Fin 4)), Sound start →
    (∀ k op, may k op → op.outside = true) → Pool.Runs may (callers calls) start tr P db →
    ∀ pre e post, tr = pre ++ e :: post → ∀ pk, Publishes pk e → Complete pk pre e := by
  intro hclaim
  have hrun : Pool.Runs (fun _ op => op.outside = true) (callers race) uploaded failedOpenRun.1
      failedOpenRun.2.1 failedOpenRun.2.2 := Pool.runs_scheduleFaults (by decide +kernel)
  have hpublished : ∃ e ∈ failedOpenRun.1, Publishes 0 e ∧
      (e.after.requests.get? 0).map (·.missingServices) = some [] ∧
      e.after.parts.get? 1 = some ⟨0, "media", .done, some mediaKey, some 0, none⟩ := by
    decide +kernel
  have habsent : ∀ f ∈ failedOpenRun.1, ∀ q ∈ f.after.archives, ∀ file ∈ q.2.files,
      file.1 ≠ exportPath "media" := by
    decide +kernel
  obtain ⟨e, he, hpub, hmissing, hpart⟩ := hpublished
  obtain ⟨pre, post, hcut⟩ := List.append_of_mem he
  obtain ⟨r, key, archive, hr, -, ⟨f, hf, -, -, hstores⟩, hall⟩ := hclaim _ _ _ _ _ _
    (sound_of_empty rfl rfl rfl) (fun _ _ h => h) hrun pre e post hcut 0 hpub
  rcases hall 1 _ hpart rfl with hcarried | ⟨hlisted, -⟩
  · obtain ⟨bytes, -, hmem⟩ := hcarried mediaKey rfl (by decide)
    refine habsent f ?_ (key, archive) (by rw [hstores]; exact List.mem_cons_self) _ hmem rfl
    rw [hcut]
    exact List.mem_append_left _ hf
  · rw [hr] at hmissing
    have hnil : r.missingServices = [] := Option.some.inj hmissing
    rw [hnil] at hlisted
    exact absurd hlisted List.not_mem_nil

end StapelGdpr.Export
