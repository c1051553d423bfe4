import StapelGdpr.Export.Completeness

/-!
# StapelGdpr.Export.Slices

When the upload of a peer may be deleted. `_purge_bucket_parts` deletes the slices "now that
they are inside the archive", but what counts as inside is decided by `dest_file.exists()`: a
file cut short by a failed copy, or one a provider wrote under the same name, passes for the
slice, and the next attempt deletes the only copy (`truncated_and_deleted`).

`slices_archived` is what holds: when the files found in place are the slices, they are still
there as the archive is zipped, and the purge reads the paths the download has read, every
object that disappears is in the archive of the call that deleted it.
-/

namespace StapelGdpr.Export

open Prog

variable {κ : Type} [DecidableEq κ] {calls : κ → Exporter × Caller} {may : κ → ExportOp → Prop}
  {P : Pool ExportOp ExportDb ExportError Unit κ} {start a b db : ExportDb} {x : Exporter}
  {tr past : List (Pool.Event κ ExportOp ExportDb)} {phases : κ → Phase} {k : κ} {pk : Nat}
  {m m' : Phase} {op : ExportOp} {ok : Bool} {key : String} {bytes : Bytes}
  {files : List (String × Bytes)} {archive : Archive} {part : Stored DataExportPart}
  {parts : List (Stored DataExportPart)} {e : Pool.Event κ ExportOp ExportDb}

/-! ### What a call has listed -/

/-- The call lists the parts of the request, to download them. -/
def lists (k : κ) (pk : Nat) (e : Pool.Event κ ExportOp ExportDb) : Bool :=
  e.thread = k && e.label = .listParts pk

/-- The last time it did. -/
def listing (k : κ) (pk : Nat) (past : List (Pool.Event κ ExportOp ExportDb)) :
    Option (Pool.Event κ ExportOp ExportDb) :=
  past.reverse.find? (lists k pk)

theorem listing_snoc : listing k pk (past ++ [e]) =
    if lists k pk e then some e else listing k pk past := by
  rw [listing, List.reverse_append, List.reverse_singleton, List.singleton_append,
    List.find?_cons]
  cases lists k pk e <;> rfl

/-- What has happened since, latest first. -/
def since (k : κ) (pk : Nat) (past : List (Pool.Event κ ExportOp ExportDb)) :
    List (Pool.Event κ ExportOp ExportDb) :=
  past.reverse.takeWhile (!lists k pk ·)

theorem since_snoc : since k pk (past ++ [e]) =
    if lists k pk e then [] else e :: since k pk past := by
  rw [since, List.reverse_append, List.reverse_singleton, List.singleton_append,
    List.takeWhile_cons]
  cases lists k pk e <;> rfl

theorem lists_of_thread_ne (h : k ≠ e.thread) : lists k pk e = false := by
  simp [lists, Ne.symm h]

/-! ### What is said of a deletion -/

/-- The call has stored the slice in an archive of the request of the part, in its place. -/
def Preserved (past : List (Pool.Event κ ExportOp ExportDb))
    (e : Pool.Event κ ExportOp ExportDb) (key : String) (bytes : Bytes) : Prop :=
  ∃ i p, e.label = .bucketDelete i key ∧ e.before.parts.get? i = some p ∧
    ∃ f ∈ past, f.thread = e.thread ∧ ∃ stored archive, Stores p.request stored archive f ∧
      (exportPath p.service, bytes) ∈ archive.files

/-- The service whose slice a statement finds in place, or has copied there. -/
def ExportOp.stages (pk : Nat) : ExportOp → Option String
  | fileExists pk' service _ | copiedPart pk' service => if pk' = pk then some service else none
  | _ => none

/-- The condition on a step, by its label:
* a file that is already in the place of a slice is the slice, if that is still uploaded;
* as the archive is zipped, the files the call has found in place or copied are still there;
* the parts that are read for the purge have the paths this call has read for the download,
  or none. -/
def Careful (past : List (Pool.Event κ ExportOp ExportDb))
    (e : Pool.Event κ ExportOp ExportDb) : Prop :=
  match e.label with
  | .fileExists pk service key => e.before.hasFile pk (exportPath service) = true →
      ∀ bytes, e.before.readObject key = some bytes →
        (exportPath service, bytes) ∈ e.before.filesOf pk
  | .zip pk => ∀ f ∈ since e.thread pk past, f.ok = true → ∀ service,
      f.label.stages pk = some service → ∀ q ∈ f.after.filesOf pk, q.1 = exportPath service →
        q ∈ e.before.filesOf pk
  | .listStaged pk => ∀ d, listing e.thread pk past = some d →
      ∀ part ∈ d.before.uploadedParts pk, ∀ p, e.before.parts.get? part.pk = some p →
        p.bucketPath = part.row.bucketPath ∨ p.bucketPath = none
  | _ => True

/-! This can be evaluated. -/

instance (past : List (Pool.Event κ ExportOp ExportDb)) (e : Pool.Event κ ExportOp ExportDb) :
    Decidable (Careful past e) := by
  obtain ⟨thread, label, before, after, ok⟩ := e
  induction label using ExportOp.casesOn with
  | fileExists pk service key =>
      exact decidable_of_iff (before.hasFile pk (exportPath service) = true →
        ∀ bytes ∈ before.readObject key, (exportPath service, bytes) ∈ before.filesOf pk) Iff.rfl
  | zip pk =>
      refine decidable_of_iff (∀ f ∈ since thread pk past, f.ok = false ∨
        ∀ service ∈ f.label.stages pk, ∀ q ∈ f.after.filesOf pk,
          q.1 ≠ exportPath service ∨ q ∈ before.filesOf pk) ⟨fun h f hf hok service hs q hq hpath =>
        (((h f hf).resolve_left (by simp [hok])) service hs q hq).resolve_left (not_not.mpr hpath),
        fun h f hf => ?_⟩
      cases hok : f.ok with
      | false => exact .inl rfl
      | true =>
          exact .inr fun service hs q hq => Decidable.or_iff_not_imp_left.mpr fun hpath =>
            h f hf hok service hs q hq (not_not.mp hpath)
  | listStaged pk =>
      exact decidable_of_iff (∀ d ∈ listing thread pk past, ∀ part ∈ d.before.uploadedParts pk,
        ∀ p ∈ before.parts.get? part.pk,
          p.bucketPath = part.row.bucketPath ∨ p.bucketPath = none) Iff.rfl
  | _ => exact .isTrue trivial

/-! ### The bucket -/

/-- An object is read as it was uploaded. -/
theorem ExportDb.mem_bucket (h : db.readObject key = some bytes) : (key, bytes) ∈ db.bucket := by
  unfold ExportDb.readObject at h
  split at h
  · exact absurd h (by simp)
  · obtain ⟨o, ho, rfl⟩ := Option.map_eq_some_iff.mp h
    have hkey : o.1 = key := by simpa using List.find?_some ho
    rw [← hkey]
    exact List.mem_of_find?_eq_some ho

/-- What can be read was there before. -/
theorem Step.readObject (h : Step x m op ok a b m') (hb : b.readObject key = some bytes) :
    a.readObject key = some bytes := by
  cases h with
  | exported | archiveDeleted => simpa [ExportDb.readObject, ExportDb.object?] using hb
  | bucketDeleted =>
      unfold ExportDb.readObject at hb ⊢
      split at hb
      · exact absurd hb (by simp)
      · rename_i hkey
        rw [if_neg fun hmem => hkey (List.mem_cons_of_mem _ hmem)]
        exact hb
  | _ => exact hb

/-- Nothing but the purge of a build makes an object disappear. -/
theorem Step.deletes (h : Step x m op ok a b m') (hbefore : a.readObject key = some bytes)
    (hafter : b.readObject key = none) : ∃ pk part todo archive,
      m = .purging pk (part :: todo) archive ∧ op = .bucketDelete part.pk key ∧
        sliceKey part = key := by
  cases h with
  | exported | archiveDeleted =>
      have hafter : a.readObject key = none := by
        simpa [ExportDb.readObject, ExportDb.object?] using hafter
      exact absurd (hbefore.symm.trans hafter) (by simp)
  | @bucketDeleted pk part todo archive =>
      have hkey : sliceKey part = key := by
        unfold ExportDb.readObject at hbefore hafter
        split at hbefore
        · exact absurd hbefore (by simp)
        rename_i hold
        split at hafter
        · rename_i hmem
          exact ((List.mem_cons.mp hmem).resolve_right hold).symm
        · have hbytes : a.object? key = none := hafter
          rw [hbytes] at hbefore
          exact absurd hbefore (by simp)
      exact ⟨pk, part, todo, archive, rfl, by rw [hkey], hkey⟩
  | _ => exact absurd (hbefore.symm.trans hafter) (by simp)

/-! ### What a build has secured -/

/-- The parts are among those the call has listed. -/
structure Listed (past : List (Pool.Event κ ExportOp ExportDb)) (k : κ) (db : ExportDb) (pk : Nat)
    (parts : List (Stored DataExportPart)) : Prop where
  listing : ∃ d, listing k pk past = some d ∧ ∀ part ∈ parts, part ∈ d.before.uploadedParts pk
  enrolled : ∀ part ∈ parts, Enrolled db pk part

theorem Listed.mono {parts' : List (Stored DataExportPart)} (h : Listed past k db pk parts)
    (hsub : ∀ part ∈ parts', part ∈ parts) : Listed past k db pk parts' := by
  obtain ⟨⟨d, hd, hmem⟩, henrolled⟩ := h
  exact ⟨⟨d, hd, fun part hpart => hmem part (hsub part hpart)⟩,
    fun part hpart => henrolled part (hsub part hpart)⟩

theorem Listed.step (h : Listed past k e.before pk parts) (hl : Later e.before e.after)
    (hlists : lists k pk e = false) : Listed (past ++ [e]) k e.after pk parts := by
  obtain ⟨⟨d, hd, hmem⟩, henrolled⟩ := h
  refine ⟨⟨d, ?_, hmem⟩, fun part hpart => (henrolled part hpart).later hl⟩
  rw [listing_snoc, hlists]
  exact hd

/-- The slice of the part is among the files, in its place, as long as it is uploaded. -/
def Kept (db : ExportDb) (files : List (String × Bytes)) (part : Stored DataExportPart) : Prop :=
  ∀ bytes, db.readObject (sliceKey part) = some bytes →
    (exportPath part.row.service, bytes) ∈ files

theorem Kept.step (h : Kept a files part) (hstep : Step x m op ok a b m') : Kept b files part :=
  fun bytes hb => h bytes (hstep.readObject hb)

/-- Since it listed the parts, the call has found or copied the slice of the part. -/
def Seen (past : List (Pool.Event κ ExportOp ExportDb)) (k : κ) (db : ExportDb) (pk : Nat)
    (part : Stored DataExportPart) : Prop :=
  ∃ f ∈ since k pk past, f.ok = true ∧ f.label.stages pk = some part.row.service ∧
    Kept db (f.after.filesOf pk) part

theorem Seen.step (h : Seen past k e.before pk part)
    (hstep : Step x m e.label e.ok e.before e.after m') (hlists : lists k pk e = false) :
    Seen (past ++ [e]) k e.after pk part := by
  obtain ⟨f, hf, hok, hstages, hkept⟩ := h
  refine ⟨f, ?_, hok, hstages, hkept.step hstep⟩
  rw [since_snoc, hlists]
  exact List.mem_cons_of_mem _ hf

/-- A step of the call itself that finds or copies the slice. -/
theorem Seen.now (hlists : lists k pk e = false) (hok : e.ok = true)
    (hstages : e.label.stages pk = some part.row.service)
    (hkept : Kept e.after (e.after.filesOf pk) part) : Seen (past ++ [e]) k e.after pk part := by
  refine ⟨e, ?_, hok, hstages, hkept⟩
  rw [since_snoc, hlists]
  exact List.mem_cons_self

/-- The call has stored the archive. -/
def Archived (past : List (Pool.Event κ ExportOp ExportDb)) (k : κ) (pk : Nat)
    (archive : Archive) : Prop :=
  ∃ f ∈ past, f.thread = k ∧ ∃ stored, Stores pk stored archive f

omit [DecidableEq κ] in
theorem Archived.step (h : Archived past k pk archive) : Archived (past ++ [e]) k pk archive := by
  obtain ⟨f, hf, hstores⟩ := h
  exact ⟨f, List.mem_append_left _ hf, hstores⟩

/-- What a call has secured of the slices it is going to delete. -/
def Secure (past : List (Pool.Event κ ExportOp ExportDb)) (k : κ) (db : ExportDb) : Phase → Prop
  | .idle | .held _ => True
  | .building pk todo staged => Listed past k db pk (staged ++ todo) ∧
      ∀ part ∈ staged, Seen past k db pk part
  | .copying pk part bytes todo staged => Listed past k db pk (staged ++ part :: todo) ∧
      (∀ part ∈ staged, Seen past k db pk part) ∧
      ∀ bytes', db.readObject (sliceKey part) = some bytes' → bytes' = bytes
  | .judged pk staged _ _ => Listed past k db pk staged ∧ ∀ part ∈ staged, Seen past k db pk part
  | .zipped pk staged _ _ archive => Listed past k db pk staged ∧
      ∀ part ∈ staged, Kept db archive.files part
  | .saved pk staged _ _ archive _ | .published pk staged archive => Listed past k db pk staged ∧
      (∀ part ∈ staged, Kept db archive.files part) ∧ Archived past k pk archive
  | .purging pk todo archive => (∀ part ∈ todo, Enrolled db pk part ∧ Kept db archive.files part) ∧
      Archived past k pk archive

/-- A call that lists no parts loses nothing by a step, its own or another's. -/
theorem Secure.keep {n : Phase} (h : Secure past k e.before n)
    (hstep : Step x m e.label e.ok e.before e.after m') (hg : Guard m e.before)
    (hlists : ∀ pk, lists k pk e = false) : Secure (past ++ [e]) k e.after n := by
  have hl := hstep.later hg
  cases n with
  | idle | held => trivial
  | building pk todo staged =>
      exact ⟨h.1.step hl (hlists pk), fun part hpart => (h.2 part hpart).step hstep (hlists pk)⟩
  | copying pk part bytes todo staged =>
      obtain ⟨hlisted, hseen, hbytes⟩ := h
      exact ⟨hlisted.step hl (hlists pk), fun part hpart => (hseen part hpart).step hstep (hlists pk),
        fun bytes' hb => hbytes bytes' (hstep.readObject hb)⟩
  | judged pk staged missing isPartial =>
      exact ⟨h.1.step hl (hlists pk), fun part hpart => (h.2 part hpart).step hstep (hlists pk)⟩
  | zipped pk staged missing isPartial archive =>
      exact ⟨h.1.step hl (hlists pk), fun part hpart => (h.2 part hpart).step hstep⟩
  | saved pk staged missing isPartial archive key | published pk staged archive =>
      obtain ⟨hlisted, hkept, harchived⟩ := h
      exact ⟨hlisted.step hl (hlists pk), fun part hpart => (hkept part hpart).step hstep,
        harchived.step⟩
  | purging pk todo archive =>
      obtain ⟨hkept, harchived⟩ := h
      refine ⟨fun part hpart => ?_, harchived.step⟩
      exact ⟨(hkept part hpart).1.later hl, (hkept part hpart).2.step hstep⟩

/-! ### What a build does -/

omit [DecidableEq κ] in
theorem ExportDb.mem_uploadedParts : part ∈ db.uploadedParts pk ↔
    db.parts.get? part.pk = some part.row ∧ part.row.request = pk ∧ part.row.status = .done ∧
      part.row.bucketPath ≠ none := by
  rw [ExportDb.uploadedParts, Table.mem_select]
  simp [and_assoc]

/-- The archive has every slice the call has found or copied, as long as they are still there. -/
theorem Seen.zipped (h : Seen past k e.before pk part) (hlabel : e.label = .zip pk)
    (hthread : e.thread = k) (hH : Careful past e) : Kept e.before (e.before.filesOf pk) part := by
  obtain ⟨f, hf, hok, hstages, hkept⟩ := h
  rw [Careful, hlabel, hthread] at hH
  exact fun bytes hb => hH f hf hok _ hstages _ (hkept bytes hb) rfl

/-- The parts that are purged are those that were staged, under the paths that were read. -/
theorem Listed.purged {staged : List (Stored DataExportPart)}
    (hlisted : Listed past k e.before pk staged) (hlabel : e.label = .listStaged pk)
    (hthread : e.thread = k) (hkept : ∀ part ∈ staged, Kept e.before files part)
    (hH : Careful past e) (hpart : part ∈ e.before.stagedParts pk (staged.map (·.pk))) :
    Enrolled e.before pk part ∧ Kept e.before files part := by
  obtain ⟨hselect, hmem⟩ := List.mem_filter.mp hpart
  obtain ⟨hget, hp⟩ := Table.mem_select.mp hselect
  simp only [Bool.and_eq_true, decide_eq_true_eq] at hp
  obtain ⟨other, hother, heq⟩ := List.mem_map.mp (of_decide_eq_true hmem)
  obtain ⟨d, hd, huploaded⟩ := hlisted.listing
  rw [Careful, hlabel, hthread] at hH
  refine ⟨⟨part.row, hget, hp.1, rfl⟩, fun bytes hb => ?_⟩
  -- the row is the one of the listed part, and names what it named then
  have hpath : part.row.bucketPath = other.row.bucketPath :=
    (hH d hd other (huploaded other hother) part.row (by rwa [heq])).resolve_right hp.2
  obtain ⟨p, hget', -, hservice⟩ := hlisted.enrolled other hother
  rw [heq, hget] at hget'
  obtain rfl := Option.some.inj hget'
  rw [hservice]
  exact hkept other hother bytes (by rwa [sliceKey, ← hpath])

/-- A build's own steps: it stages what it has found or copied, zips what is staged, stores
the ZIP, and purges what it has stored. -/
theorem Secure.own (h : Secure past k a m) (hstep : Step x m op ok a b m') (hg : Guard m a)
    (hH : Careful past ⟨k, op, a, b, ok⟩) : Secure (past ++ [⟨k, op, a, b, ok⟩]) k b m' := by
  have hkeep : (∀ pk, op ≠ .listParts pk) → Secure (past ++ [⟨k, op, a, b, ok⟩]) k b m :=
    fun hop => Secure.keep (e := ⟨k, op, a, b, ok⟩) h hstep hg fun pk => by simp [lists, hop pk]
  -- a part that is not staged drops out of the list
  have hdrop : ∀ (staged todo : List (Stored DataExportPart)) (part : Stored DataExportPart),
      staged ++ todo ⊆ staged ++ part :: todo := fun staged todo part =>
    ((List.sublist_cons_self part todo).append_left staged).subset
  cases hstep with
  | stays hrest =>
      refine hkeep fun pk hop => ?_
      rw [hop] at hrest
      exact absurd hrest.1 (by simp [ExportOp.turns])
  | @listed pk =>
      refine ⟨⟨⟨⟨k, .listParts pk, a, a, true⟩, ?_, fun part hpart => hpart⟩, fun part hpart => ?_⟩,
        fun part hpart => absurd hpart List.not_mem_nil⟩
      · rw [listing_snoc, if_pos (by simp [lists])]
      · obtain ⟨hp, hreq, -⟩ := ExportDb.mem_uploadedParts.mp hpart
        exact ⟨part.row, hp, hreq, rfl⟩
  | @found pk part todo staged _ hfile =>
      obtain ⟨hlisted, hseen⟩ := hkeep (by simp)
      refine ⟨by simpa using hlisted, fun other hother => ?_⟩
      rcases List.mem_append.mp hother with hother | hother
      · exact hseen other hother
      · rw [List.mem_singleton.mp hother]
        exact Seen.now (e := ⟨k, _, _, _, _⟩) (by simp [lists]) rfl (by simp [ExportOp.stages])
          (hH hfile)
  | @refused pk part todo staged | @notOpened pk part todo staged =>
      obtain ⟨hlisted, hseen⟩ := hkeep (by simp)
      exact ⟨hlisted.mono (hdrop staged todo part), hseen⟩
  | opened hsafe hread =>
      obtain ⟨hlisted, hseen⟩ := hkeep (by simp)
      exact ⟨hlisted, hseen, fun bytes' hb => Option.some.inj (hb.symm.trans hread)⟩
  | written => exact hkeep (by simp)
  | @copied pk part todo staged bytes =>
      obtain ⟨hlisted, hseen, hbytes⟩ := hkeep (by simp)
      refine ⟨by simpa using hlisted, fun other hother => ?_⟩
      rcases List.mem_append.mp hother with hother | hother
      · exact hseen other hother
      · rw [List.mem_singleton.mp hother]
        refine Seen.now (e := ⟨k, _, _, _, _⟩) (by simp [lists]) rfl (by simp [ExportOp.stages])
          fun bytes' hb => ?_
        obtain rfl := hbytes bytes' hb
        rw [ExportDb.mem_filesOf, ExportDb.mem_stage]
        exact .inl rfl
  | @notCopied pk part todo staged bytes _ _ hop =>
      obtain ⟨hlisted, hseen, -⟩ := hkeep (by rcases hop with rfl | rfl <;> simp)
      exact ⟨hlisted.mono (hdrop staged todo part), hseen⟩
  | judged =>
      obtain ⟨hlisted, hseen⟩ := hkeep (by simp)
      exact ⟨by simpa using hlisted, hseen⟩
  | zipped hfiles =>
      obtain ⟨hlisted, -⟩ := hkeep (by simp)
      refine ⟨hlisted, fun part hpart => ?_⟩
      rw [hfiles]
      exact (h.2 part hpart).zipped (e := ⟨k, _, _, _, _⟩) rfl rfl hH
  | saved =>
      obtain ⟨hlisted, hkept⟩ := hkeep (by simp)
      exact ⟨hlisted, hkept, _, List.mem_append_right _ (List.mem_singleton_self _), rfl, _, rfl, rfl⟩
  | published => exact hkeep (by simp)
  | cleared | partPurged => exact hkeep (by simp)
  | stagedListed =>
      obtain ⟨hlisted, hkept, harchived⟩ := h
      exact ⟨fun part hpart => hlisted.purged (e := ⟨k, _, _, _, _⟩) rfl rfl hkept hH hpart,
        harchived.step⟩
  | gone | bucketDeleted =>
      obtain ⟨hkept, harchived⟩ := hkeep (by simp)
      exact ⟨fun other hother => hkept other (List.mem_cons_of_mem _ hother), harchived⟩
  | notDeleted hop =>
      obtain ⟨hkept, harchived⟩ := hkeep (by rcases hop with rfl | rfl <;> simp)
      exact ⟨fun other hother => hkept other (List.mem_cons_of_mem _ hother), harchived⟩
  | _ => trivial

/-! ### Every run -/

/-- What the calls have secured, and what has disappeared so far. -/
structure Guarded (past : List (Pool.Event κ ExportOp ExportDb)) (phases : κ → Phase)
    (db : ExportDb) : Prop where
  secure : ∀ k, Secure past k db (phases k)
  preserved : ∀ pre e post, past = pre ++ e :: post → ∀ key bytes,
    e.before.readObject key = some bytes → e.after.readObject key = none →
      Preserved pre e key bytes

theorem Guarded.step (h : Guarded past phases e.before) (hexcl : Exclusive phases e.before)
    (hstep : Step x (phases e.thread) e.label e.ok e.before e.after m) (hH : Careful past e) :
    Guarded (past ++ [e]) (Function.update phases e.thread m) e.after := by
  have hg := hexcl.guard e.thread
  constructor
  · intro j
    by_cases hj : j = e.thread
    · subst hj
      rw [Function.update_self]
      exact Secure.own (h.secure _) hstep hg hH
    · rw [Function.update_of_ne hj]
      exact (h.secure j).keep hstep hg fun _ => lists_of_thread_ne hj
  · intro pre f post hcut key bytes hbefore hafter
    rcases cut_snoc hcut with ⟨rfl, rfl⟩ | ⟨post', hcut'⟩
    · obtain ⟨pk, part, todo, archive, hphase, hlabel, rfl⟩ := hstep.deletes hbefore hafter
      have hsecure := h.secure f.thread
      rw [hphase] at hsecure
      obtain ⟨hkept, g, hg', hthread, stored, hstores⟩ := hsecure
      obtain ⟨⟨p, hp, hreq, hservice⟩, hslice⟩ := hkept part List.mem_cons_self
      refine ⟨part.pk, p, hlabel, hp, g, hg', hthread, stored, archive, by rwa [hreq], ?_⟩
      rw [hservice]
      exact hslice bytes hbefore
    · exact h.preserved pre f post' hcut' key bytes hbefore hafter

/-- **A slice is deleted once it is archived**, in every run whose steps are careful: whenever
an object disappears from the bucket, the call that deletes it has stored, for the request of
the part, an archive with exactly its bytes in the place of the part's service. -/
theorem slices_archived (hs : Sound start) (hmay : ∀ k op, may k op → op.outside = true)
    (hrun : Pool.Runs may (callers calls) start tr P db)
    (hcareful : ∀ pre e post, tr = pre ++ e :: post → Careful pre e) :
    ∀ pre e post, tr = pre ++ e :: post → ∀ key bytes, e.before.readObject key = some bytes →
      e.after.readObject key = none → Preserved pre e key bytes := by
  obtain ⟨phases, -, hguarded, -⟩ := runs_invariant hs hmay
    (J := fun past phases db => Guarded past phases db)
    (fun _ _ _ _ hexcl h hstep hH => h.step hexcl hstep hH)
    ⟨fun _ => trivial, fun pre e post h => absurd h (by simp)⟩ hrun hcareful
  exact hguarded.preserved

theorem slices_archived_raced : (∃ e ∈ raceRun.1, e.before.readObject mediaKey = some [7] ∧
      e.after.readObject mediaKey = none) ∧
    ∀ pre e post, raceRun.1 = pre ++ e :: post → ∀ key bytes,
      e.before.readObject key = some bytes → e.after.readObject key = none →
        Preserved pre e key bytes :=
  ⟨by decide +kernel, slices_archived (sound_of_empty rfl rfl rfl) (fun _ _ h => h)
    (Pool.runs_schedule (fun _ op => op.outside = true) raceOrder (callers race) uploaded)
    (by decide +kernel)⟩

/-- The copy of the slice is cut short, and then the archive cannot be stored; a day later the
sweep finds a file in place. -/
def cutCopy : List (Fin 4 × Option ExportError) :=
  List.replicate 5 (0, none) ++ List.replicate 8 (1, none) ++ List.replicate 10 (2, none) ++
    (2, some (.osError "disk full")) :: List.replicate 3 (2, none) ++
    (2, some (.osError "disk full")) :: List.replicate 2 (2, none) ++ List.replicate 22 (3, none)

def cutCopyRun : List (Pool.Event (Fin 4) ExportOp ExportDb) ×
    Pool ExportOp ExportDb ExportError Unit (Fin 4) × ExportDb :=
  Pool.scheduleFaults cutCopy (callers race) uploaded

/-- The only copy of the slice is deleted, and no archive has its bytes. -/
theorem truncated_and_deleted : ¬ ∀ (calls : Fin 4 → Exporter × Caller)
    (may : Fin 4 → ExportOp → Prop) (start db : ExportDb)
    (tr : List (Pool.Event (Fin 4) ExportOp ExportDb))
    (P : Pool ExportOp ExportDb ExportError Unit (Fin 4)), Sound start →
    (∀ k op, may k op → op.outside = true) → Pool.Runs may (callers calls) start tr P db →
    ∀ pre e post, tr = pre ++ e :: post → ∀ key bytes, e.before.readObject key = some bytes →
      e.after.readObject key = none → Preserved pre e key bytes := by
  intro hclaim
  have hrun : Pool.Runs (fun _ op => op.outside = true) (callers race) uploaded cutCopyRun.1
      cutCopyRun.2.1 cutCopyRun.2.2 := Pool.runs_scheduleFaults (by decide +kernel)
  have hdeleted : ∃ e ∈ cutCopyRun.1, e.before.readObject mediaKey = some [7] ∧
      e.after.readObject mediaKey = none := by decide +kernel
  have hlost : ∀ f ∈ cutCopyRun.1, ∀ q ∈ f.after.archives, ∀ file ∈ q.2.files,
      file.2 ≠ [7] := by
    decide +kernel
  obtain ⟨e, he, hbefore, hafter⟩ := hdeleted
  obtain ⟨pre, post, hcut⟩ := List.append_of_mem he
  obtain ⟨i, p, -, -, f, hf, -, stored, archive, ⟨-, hstores⟩, hmem⟩ := hclaim _ _ _ _ _ _
    (sound_of_empty rfl rfl rfl) (fun _ _ h => h) hrun pre e post hcut mediaKey [7] hbefore hafter
  refine hlost f ?_ (stored, archive) (by rw [hstores]; exact List.mem_cons_self) _ hmem rfl
  rw [hcut]
  exact List.mem_append_left _ hf

end StapelGdpr.Export
