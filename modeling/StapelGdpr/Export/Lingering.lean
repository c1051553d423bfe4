import StapelGdpr.Export.Keys

/-!
# StapelGdpr.Export.Lingering

Which uploaded slices stay in the bucket for good. They are purged by the one call that
publishes the archive, and it purges what it has staged: a part that is completed after the
parts were listed, or after the archive was published, or whose copy has failed, is purged by
nobody (`late_completion_lingers`).

`slices_purged` is what holds: when every slice that is in the bucket as the archive is
published was among the listed ones and was copied, and a completion for a published request
names no object, nothing lingers. A lingering slice is always **accounted for** by a call that
is still about to delete it.
-/

namespace StapelGdpr.Export

open Prog

variable {κ : Type} [DecidableEq κ] {calls : κ → Exporter × Caller} {may : κ → ExportOp → Prop}
  {P : Pool ExportOp ExportDb ExportError Unit κ} {start a b db : ExportDb} {x y : Exporter}
  {tr past : List (Pool.Event κ ExportOp ExportDb)} {phases : κ → Phase} {k : κ} {pk i : Nat}
  {m m' : Phase} {op : ExportOp} {ok : Bool} {key : String} {p : DataExportPart}
  {part : Stored DataExportPart} {e : Pool.Event κ ExportOp ExportDb}

/-! ### What lingers -/

/-- The part has a safe path, and its object is still in the bucket. -/
def Exposed (x : Exporter) (db : ExportDb) (p : DataExportPart) (key : String) : Prop :=
  p.bucketPath = some key ∧ SafeFor x db p.request key ∧ db.readObject key ≠ none

/-- No slice of a published request lingers in the bucket. -/
def Purged (x : Exporter) (db : ExportDb) : Prop :=
  ∀ i p, db.parts.get? i = some p → Settled db p.request → ∀ key, ¬ Exposed x db p key

/-- Every call has ended or has not begun. -/
def Quiescent (P : Pool ExportOp ExportDb ExportError Unit κ)
    (tr : List (Pool.Event κ ExportOp ExportDb)) : Prop :=
  ∀ k, (P k).Done ∨ ∀ e ∈ tr, e.thread ≠ k

/-- `default_storage.open`, `exists` and `delete`. -/
def ExportOp.storage : ExportOp → Bool
  | openPart .. | bucketExists .. | bucketDelete .. => true
  | _ => false

/-- The copy of a slice of the service. -/
def ExportOp.copies (pk : Nat) (service : String) (op : ExportOp) : Bool :=
  op = .copyPart pk service || op = .copiedPart pk service

/-- When the call last listed the parts, this one was DONE, under a safe path whose object is
there now, and no copy of it has failed since. -/
def Collected (x : Exporter) (past : List (Pool.Event κ ExportOp ExportDb)) (k : κ)
    (db : ExportDb) (pk i : Nat) : Prop :=
  ∃ d, listing k pk past = some d ∧ ∃ p, d.before.parts.get? i = some p ∧ p.request = pk ∧
    p.status = .done ∧ (∃ key, Exposed x db p key) ∧
    ∀ f ∈ since k pk past, f.label.copies pk p.service = true → f.ok = true

/-- The condition on a step, by its label:
* when an archive is published, each slice that is in the bucket was collected by this call;
* a completion that is taken for a published request names no object. -/
def Timely (x : Exporter) (past : List (Pool.Event κ ExportOp ExportDb))
    (e : Pool.Event κ ExportOp ExportDb) : Prop :=
  match e.label with
  | .publish pk => e.ok = true → ∀ i p, e.before.parts.get? i = some p → p.request = pk →
      ∀ key, Exposed x e.before p key → Collected x past e.thread e.before pk i
  | .partReady pk _ => Settled e.before pk → ∀ i p', e.after.parts.get? i = some p' →
      p'.request = pk → ∀ key, Exposed x e.after p' key →
        ∃ p, e.before.parts.get? i = some p ∧ p.bucketPath = some key
  | _ => True

/-! These can be evaluated. -/

instance (db : ExportDb) (pk : Nat) : Decidable (Settled db pk) :=
  decidable_of_iff (∃ r ∈ db.requests.get? pk, r.isSettled = true) Iff.rfl

instance (x : Exporter) (db : ExportDb) (p : DataExportPart) (key : String) :
    Decidable (Exposed x db p key) := inferInstanceAs (Decidable (_ ∧ _))

/-- Only the path of the part can be exposed. -/
instance (x : Exporter) (db : ExportDb) (p : DataExportPart) (Q : String → Prop)
    [DecidablePred Q] : Decidable (∀ key, Exposed x db p key → Q key) :=
  decidable_of_iff (∀ key ∈ p.bucketPath, Exposed x db p key → Q key)
    ⟨fun h key hkey => h key hkey.1 hkey, fun h key _ => h key⟩

instance (x : Exporter) (db : ExportDb) (p : DataExportPart) : Decidable (∃ key, Exposed x db p key) :=
  decidable_of_iff (∃ key ∈ p.bucketPath, Exposed x db p key)
    ⟨fun ⟨key, _, h⟩ => ⟨key, h⟩, fun ⟨key, h⟩ => ⟨key, h.1, h⟩⟩

instance (x : Exporter) (past : List (Pool.Event κ ExportOp ExportDb)) (k : κ) (db : ExportDb)
    (pk i : Nat) : Decidable (Collected x past k db pk i) :=
  decidable_of_iff (∃ d ∈ listing k pk past, ∃ p ∈ d.before.parts.get? i, p.request = pk ∧
    p.status = .done ∧ (∃ key, Exposed x db p key) ∧
    ∀ f ∈ since k pk past, f.label.copies pk p.service = true → f.ok = true) Iff.rfl

instance (x : Exporter) (past : List (Pool.Event κ ExportOp ExportDb))
    (e : Pool.Event κ ExportOp ExportDb) : Decidable (Timely x past e) := by
  obtain ⟨thread, label, before, after, ok⟩ := e
  induction label using ExportOp.casesOn with
  | publish pk =>
      exact inferInstanceAs (Decidable (ok = true → ∀ i p, before.parts.get? i = some p →
        p.request = pk → ∀ key, Exposed x before p key → Collected x past thread before pk i))
  | partReady pk service =>
      exact decidable_of_iff (Settled before pk → ∀ i p', after.parts.get? i = some p' →
        p'.request = pk → ∀ key, Exposed x after p' key →
          ∃ p ∈ before.parts.get? i, p.bucketPath = some key) Iff.rfl
  | _ => exact .isTrue trivial

/-! ### Where exposed slices come from -/

theorem SafeFor.earlier (h : SafeFor x b pk key) (hl : Later a b)
    (hrow : ∃ r, a.requests.get? pk = some r) : SafeFor x a pk key := by
  obtain ⟨r, hr⟩ := hrow
  obtain ⟨r', hr', hlater⟩ := hl.rows pk r hr
  obtain ⟨r₀, hr₀, hsafe⟩ := h
  obtain rfl : r₀ = r' := Option.some.inj (hr₀.symm.trans hr')
  exact ⟨r, hr, by rwa [← hlater.correlation]⟩

/-- A step exposes a slice by a completion only. -/
theorem Step.exposed (h : Step y m op ok a b m') (hp : b.parts.get? i = some p)
    (hpath : p.bucketPath = some key) : (∃ p₀, a.parts.get? i = some p₀ ∧
      p₀.request = p.request ∧ p₀.bucketPath = some key) ∨
      ∃ service, op = .partReady p.request service := by
  cases h with
  | partCreated =>
      have hp : (a.parts.insert _).get? i = some p := hp
      rw [Table.get?_insert] at hp
      split at hp
      · obtain rfl := Option.some.inj hp
        exact absurd hpath (by simp)
      · exact .inl ⟨p, hp, rfl, hpath⟩
  | @partSaved j =>
      have hp : (a.parts.modify j _).get? i = some p := hp
      rw [Table.get?_modify] at hp
      split at hp
      · obtain ⟨p₀, hp₀, rfl⟩ := Option.map_eq_some_iff.mp hp
        exact .inl ⟨p₀, hp₀, rfl, hpath⟩
      · exact .inl ⟨p, hp, rfl, hpath⟩
  | @partReady pk' service path _ hfine =>
      have hp := (Table.get?_update a.parts (·.awaits pk' service) (fun p : DataExportPart =>
        { p with status := .done, bucketPath := path, completedAt := some y.env.now }) i).symm.trans
        hp
      obtain ⟨p₀, hp₀, heq⟩ := Option.map_eq_some_iff.mp hp
      by_cases hawaits : p₀.awaits pk' service = true
      · refine .inr ⟨service, ?_⟩
        have hreq : p₀.request = pk' := by
          simp only [DataExportPart.awaits, Bool.and_eq_true, decide_eq_true_eq] at hawaits
          exact hawaits.1.1
        rw [← heq]
        simp [hawaits, hreq]
      · rw [if_neg hawaits] at heq
        exact .inl ⟨p₀, hp₀, by rw [heq], by rwa [heq]⟩
  | @partPurged j =>
      have hp : (a.parts.modify j _).get? i = some p := hp
      rw [Table.get?_modify] at hp
      split at hp
      · obtain ⟨p₀, hp₀, rfl⟩ := Option.map_eq_some_iff.mp hp
        exact absurd hpath (by simp)
      · exact .inl ⟨p, hp, rfl, hpath⟩
  | exported | archiveDeleted => exact .inl ⟨p, by simpa using hp, rfl, hpath⟩
  | _ => exact .inl ⟨p, hp, rfl, hpath⟩

/-- Nothing but the publication of a build settles a request. -/
theorem Step.settles (h : Step y m op ok a b m') (hg : Guard m a) (hs : Settled b pk) :
    Settled a pk ∨ ∃ staged missing isPartial archive key, op = .publish pk ∧ ok = true ∧
      m = .saved pk staged missing isPartial archive key ∧ m' = .published pk staged archive := by
  obtain ⟨r', hr', hset⟩ := hs
  cases h with
  | created =>
      have hr' : (a.requests.insert _).get? pk = some r' := hr'
      rw [Table.get?_insert] at hr'
      split at hr'
      · obtain rfl := Option.some.inj hr'
        exact absurd hset (by simp [newRequest, DataExportRequest.isSettled])
      · exact .inl ⟨r', hr', hset⟩
  | @started j r _ hr hopen | @locked j r _ hr hopen | @gaveBack _ j _ _ _ =>
      have hr' : (a.requests.modify j _).get? pk = some r' := hr'
      rw [Table.get?_modify] at hr'
      split at hr'
      · obtain ⟨r₀, hr₀, rfl⟩ := Option.map_eq_some_iff.mp hr'
        exact absurd hset (by simp [DataExportRequest.isSettled])
      · exact .inl ⟨r', hr', hset⟩
  | @published req staged missing isPartial archive key =>
      by_cases hpk : pk = req.pk
      · exact .inr ⟨staged, missing, isPartial, archive, key, by rw [hpk], rfl, by rw [hpk],
          by rw [hpk]⟩
      · exact .inl ⟨r', (Table.get?_modify_of_ne _ hpk).symm.trans hr', hset⟩
  | @expired j _ hs | @consumed j _ _ hs | @pathNulled j _ hs =>
      by_cases hj : pk = j
      · exact .inl (hj ▸ hs)
      · exact .inl ⟨r', (Table.get?_modify_of_ne _ hj).symm.trans hr', hset⟩
  | exported | archiveDeleted => exact .inl ⟨r', by simpa using hr', hset⟩
  | _ => exact .inl ⟨r', hr', hset⟩

/-! ### What a build has collected -/

/-- The part will not be staged, for a reason. -/
def LeftOut (x : Exporter) (past : List (Pool.Event κ ExportOp ExportDb)) (k : κ) (db : ExportDb)
    (pk : Nat) (part : Stored DataExportPart) : Prop :=
  ¬ SafeFor x db pk (sliceKey part) ∨ db.readObject (sliceKey part) = none ∨
    ∃ f ∈ since k pk past, f.label.copies pk part.row.service = true ∧ f.ok = false

/-- Each of the parts the call has listed is still to come, is staged, or is left out. -/
def Tracks (x : Exporter) (past : List (Pool.Event κ ExportOp ExportDb)) (k : κ) (db : ExportDb)
    (pk : Nat) (todo staged : List (Stored DataExportPart)) : Prop :=
  ∃ d, listing k pk past = some d ∧ ∀ part ∈ d.before.uploadedParts pk,
    part ∈ todo ∨ part ∈ staged ∨ LeftOut x past k db pk part

variable {todo staged todo' staged' : List (Stored DataExportPart)}

theorem LeftOut.step (h : LeftOut x past k e.before pk part)
    (hstep : Step y m e.label e.ok e.before e.after m') (hl : Later e.before e.after)
    (hheld : Assembling e.before pk) (hlists : lists k pk e = false) :
    LeftOut x (past ++ [e]) k e.after pk part := by
  rcases h with hunsafe | hgone | ⟨f, hf, hcopies, hfailed⟩
  · obtain ⟨r, hr, -⟩ := hheld
    exact .inl fun hsafe => hunsafe (hsafe.earlier hl ⟨r, hr⟩)
  · refine .inr (.inl (Option.eq_none_iff_forall_ne_some.mpr fun bytes hb => ?_))
    rw [hstep.readObject hb] at hgone
    exact absurd hgone (by simp)
  · refine .inr (.inr ⟨f, ?_, hcopies, hfailed⟩)
    rw [since_snoc, hlists]
    exact List.mem_cons_of_mem _ hf

theorem Tracks.step (h : Tracks x past k e.before pk todo staged)
    (hstep : Step y m e.label e.ok e.before e.after m') (hl : Later e.before e.after)
    (hheld : Assembling e.before pk) (hlists : lists k pk e = false) :
    Tracks x (past ++ [e]) k e.after pk todo staged := by
  obtain ⟨d, hd, hparts⟩ := h
  refine ⟨d, ?_, fun part hpart => ?_⟩
  · rw [listing_snoc, hlists]
    exact hd
  · exact (hparts part hpart).imp_right fun h => h.imp_right fun hleft =>
      hleft.step hstep hl hheld hlists

/-- A part that was to come is staged now, or left out. -/
theorem Tracks.move (h : Tracks x past k db pk todo staged)
    (htodo : ∀ part ∈ todo, part ∈ todo' ∨ part ∈ staged' ∨ LeftOut x past k db pk part)
    (hstaged : ∀ part ∈ staged, part ∈ staged') : Tracks x past k db pk todo' staged' := by
  obtain ⟨d, hd, hparts⟩ := h
  refine ⟨d, hd, fun part hpart => ?_⟩
  rcases hparts part hpart with hmem | hmem | hleft
  · exact htodo part hmem
  · exact .inr (.inl (hstaged part hmem))
  · exact .inr (.inr hleft)

/-- What a call knows of the parts it has listed. -/
def Tracked (x : Exporter) (past : List (Pool.Event κ ExportOp ExportDb)) (k : κ)
    (db : ExportDb) : Phase → Prop
  | .building pk todo staged => Tracks x past k db pk todo staged
  | .copying pk part _ todo staged => Tracks x past k db pk (part :: todo) staged
  | .judged pk staged .. | .zipped pk staged .. | .saved pk staged .. =>
      Tracks x past k db pk [] staged
  | _ => True

theorem Tracked.keep {n : Phase} (h : Tracked x past k e.before n)
    (hstep : Step y m e.label e.ok e.before e.after m') (hl : Later e.before e.after)
    (hheld : ∀ pk, n.builds = some pk → Assembling e.before pk)
    (hlists : ∀ pk, lists k pk e = false) : Tracked x (past ++ [e]) k e.after n := by
  cases n with
  | building pk | copying pk | judged pk | zipped pk | saved pk =>
      exact Tracks.step h hstep hl (hheld pk rfl) (hlists pk)
  | _ => trivial

/-- A build's own steps, when the storage answers. -/
theorem Tracked.own (h : Tracked x past k a m) (hstep : Step y m op ok a b m') (hg : Guard m a)
    (hx : y.bucketPrefix = x.bucketPrefix) (hstorage : op.storage = true → ok = true) :
    Tracked x (past ++ [⟨k, op, a, b, ok⟩]) k b m' := by
  have hkept : (∀ pk, op ≠ .listParts pk) → Tracked x (past ++ [⟨k, op, a, b, ok⟩]) k b m :=
    fun hop => Tracked.keep (e := ⟨k, op, a, b, ok⟩) h hstep (hstep.later hg) hg.2 fun pk => by
      simp [lists, hop pk]
  cases hstep with
  | stays hrest =>
      refine hkept fun pk hop => ?_
      rw [hop] at hrest
      exact absurd hrest.1 (by simp [ExportOp.turns])
  | @listed pk =>
      refine ⟨⟨k, .listParts pk, a, a, true⟩, ?_, fun part hpart => .inl hpart⟩
      rw [listing_snoc, if_pos (by simp [lists])]
  | found =>
      refine Tracks.move (hkept (by simp)) (fun part hpart => ?_) fun part hpart =>
        List.mem_append_left _ hpart
      rcases List.mem_cons.mp hpart with rfl | hpart
      · exact .inr (.inl (List.mem_append_right _ (List.mem_singleton_self _)))
      · exact .inl hpart
  | refused hunsafe =>
      refine Tracks.move (hkept (by simp)) (fun part hpart => ?_) fun part hpart => hpart
      rcases List.mem_cons.mp hpart with rfl | hpart
      · exact .inr (.inr (.inl fun hsafe => hunsafe (hsafe.congr hx.symm)))
      · exact .inl hpart
  | opened | written => exact hkept (by simp)
  | notOpened hsafe hnone =>
      refine Tracks.move (hkept (by simp)) (fun part hpart => ?_) fun part hpart => hpart
      rcases List.mem_cons.mp hpart with rfl | hpart
      · exact .inr (.inr (.inr (.inl (hnone (hstorage rfl)))))
      · exact .inl hpart
  | copied =>
      refine Tracks.move (hkept (by simp)) (fun part hpart => ?_) fun part hpart =>
        List.mem_append_left _ hpart
      rcases List.mem_cons.mp hpart with rfl | hpart
      · exact .inr (.inl (List.mem_append_right _ (List.mem_singleton_self _)))
      · exact .inl hpart
  | @notCopied pk part todo staged bytes _ _ hop =>
      have hlists : ∀ pk, op ≠ .listParts pk := by rcases hop with rfl | rfl <;> simp
      refine Tracks.move (hkept hlists) (fun other hother => ?_) fun other hother => hother
      rcases List.mem_cons.mp hother with rfl | hother
      · refine .inr (.inr (.inr (.inr ⟨⟨k, op, a, a, false⟩, ?_, ?_, rfl⟩)))
        · rw [since_snoc, if_neg (by rcases hop with rfl | rfl <;> simp [lists])]
          exact List.mem_cons_self
        · rcases hop with rfl | rfl <;> simp [ExportOp.copies]
      · exact .inl hother
  | judged | zipped | saved => exact hkept (by simp)
  | _ => trivial

/-! ### What is owed -/

/-- The call is going to delete the object of the part. -/
def Phase.owes (m : Phase) (pk i : Nat) (key : String) : Prop :=
  match m with
  | .published pk' staged _ => pk' = pk ∧ i ∈ staged.map (·.pk)
  | .purging pk' todo _ => pk' = pk ∧ ∃ part ∈ todo, part.pk = i ∧ part.row.bucketPath = some key
  | _ => False

/-- It pays, when the storage answers. -/
theorem Phase.owes_step {p₀ : DataExportPart} (howes : m.owes pk i key)
    (hstep : Step y m op ok a b m') (hstorage : op.storage = true → ok = true)
    (hp₀ : a.parts.get? i = some p₀) (hreq : p₀.request = pk) (hpath : p₀.bucketPath = some key)
    (hthere : b.readObject key ≠ none) : m'.owes pk i key := by
  have hslice : ∀ part : Stored DataExportPart, part.row.bucketPath = some key →
      sliceKey part = key := fun part hpart => by rw [sliceKey, hpart]; rfl
  cases hstep with
  | stays | cleared | partPurged => exact howes
  | stagedListed =>
      obtain ⟨rfl, hstaged⟩ := howes
      refine ⟨rfl, ⟨i, p₀⟩, List.mem_filter.mpr ⟨Table.mem_select.mpr ⟨hp₀, ?_⟩, ?_⟩, rfl, hpath⟩
      · simp [hreq, hpath]
      · exact decide_eq_true hstaged
  | gone hnone =>
      obtain ⟨rfl, part, hpart, hpk, hkey⟩ := howes
      rcases List.mem_cons.mp hpart with rfl | hpart
      · rw [hslice part hkey] at hnone
        exact absurd hnone hthere
      · exact ⟨rfl, part, hpart, hpk, hkey⟩
  | bucketDeleted =>
      obtain ⟨rfl, part, hpart, hpk, hkey⟩ := howes
      rcases List.mem_cons.mp hpart with rfl | hpart
      · refine absurd ?_ hthere
        rw [ExportDb.readObject, hslice part hkey]
        exact if_pos List.mem_cons_self
      · exact ⟨rfl, part, hpart, hpk, hkey⟩
  | notDeleted hop =>
      exact absurd (hstorage (by rcases hop with rfl | rfl <;> rfl)) (by simp)
  | notified hdone =>
      rcases hdone with rfl | rfl
      · exact absurd howes.2 (by simp)
      · obtain ⟨-, part, hpart, -⟩ := howes
        exact absurd hpart List.not_mem_nil
  | gaveBack hdrafts => cases m <;> simp_all [Phase.drafts, Phase.owes]
  | _ => exact howes.elim

/-- Every exposed slice of a published request is owed by some call. -/
def Covered (x : Exporter) (phases : κ → Phase) (db : ExportDb) : Prop :=
  ∀ i p, db.parts.get? i = some p → Settled db p.request → ∀ key, Exposed x db p key →
    ∃ k, (phases k).owes p.request i key

/-- What the calls have collected, what they owe, and which of them have begun. -/
structure Paying (x : Exporter) (past : List (Pool.Event κ ExportOp ExportDb))
    (phases : κ → Phase) (db : ExportDb) : Prop where
  tracked : ∀ k, Tracked x past k db (phases k)
  covered : Covered x phases db
  resting : ∀ k, (∀ e ∈ past, e.thread ≠ k) → phases k = .idle

/-- A call that publishes takes over what it has collected. -/
theorem Tracks.owes {archive : Archive} (h : Tracks x past k db pk [] staged)
    (hcollected : Collected x past k db pk i) : (Phase.published pk staged archive).owes pk i key := by
  obtain ⟨d, hd, hparts⟩ := h
  obtain ⟨d', hd', p, hp, rfl, hdone, ⟨key', hpath, hsafe, hthere⟩, hcopies⟩ := hcollected
  obtain rfl : d = d' := Option.some.inj (hd.symm.trans hd')
  have hslice : sliceKey ⟨i, p⟩ = key' := by rw [sliceKey, hpath]; rfl
  have hlisted : (⟨i, p⟩ : Stored DataExportPart) ∈ d.before.uploadedParts p.request :=
    ExportDb.mem_uploadedParts.mpr ⟨hp, rfl, hdone, by simp [hpath]⟩
  refine ⟨rfl, ?_⟩
  rcases hparts _ hlisted with hmem | hmem | hunsafe | hgone | ⟨f, hf, hcopy, hfailed⟩
  · exact absurd hmem List.not_mem_nil
  · exact List.mem_map_of_mem hmem
  · rw [hslice] at hunsafe
    exact absurd hsafe hunsafe
  · rw [hslice] at hgone
    exact absurd hgone hthere
  · rw [hcopies f hf hcopy] at hfailed
    exact absurd hfailed (by simp)

/-- What is exposed after a step was exposed before, unless a completion has named it. -/
theorem Exposed.before {p₀ : DataExportPart} (h : Exposed x b p key)
    (hstep : Step y m op ok a b m') (hg : Guard m a) (hp₀ : a.parts.get? i = some p₀)
    (hreq : p₀.request = p.request) (hpath : p₀.bucketPath = some key) : Exposed x a p₀ key := by
  refine ⟨hpath, ?_, fun hnone => h.2.2 (Option.eq_none_iff_forall_ne_some.mpr fun bytes hb => ?_)⟩
  · obtain ⟨r, hr, -⟩ := hg.1.enrolled i p₀ hp₀
    rw [hreq] at hr ⊢
    exact h.2.1.earlier (hstep.later hg) ⟨r, hr⟩
  · rw [hstep.readObject hb] at hnone
    exact absurd hnone (by simp)

theorem Paying.step (h : Paying x past phases e.before) (hexcl : Exclusive phases e.before)
    (hstep : Step y (phases e.thread) e.label e.ok e.before e.after m)
    (hx : y.bucketPrefix = x.bucketPrefix) (hstorage : e.label.storage = true → e.ok = true)
    (hH : Timely x past e) :
    Paying x (past ++ [e]) (Function.update phases e.thread m) e.after := by
  have hg := hexcl.guard e.thread
  have hl := hstep.later hg
  constructor
  · intro j
    by_cases hj : j = e.thread
    · subst hj
      rw [Function.update_self]
      exact Tracked.own (h.tracked _) hstep hg hx hstorage
    · rw [Function.update_of_ne hj]
      exact (h.tracked j).keep hstep hl (fun pk hb => hexcl.held j pk hb)
        fun _ => lists_of_thread_ne hj
  · intro i p hp hset key hexp
    -- the part named the object before the step
    have hnamed : ∃ p₀, e.before.parts.get? i = some p₀ ∧ p₀.request = p.request ∧
        p₀.bucketPath = some key := by
      rcases hstep.exposed hp hexp.1 with hbefore | ⟨service, hlabel⟩
      · exact hbefore
      have hset₀ : Settled e.before p.request := by
        rcases hstep.settles hg hset with hset₀ | ⟨_, _, _, _, _, hpublish, -⟩
        · exact hset₀
        · rw [hlabel] at hpublish
          exact absurd hpublish (by simp)
      rw [Timely, hlabel] at hH
      obtain ⟨p₀, hp₀, hpath⟩ := hH hset₀ i p hp rfl key hexp
      obtain ⟨p', hp', hreq, -⟩ := hl.parts i p₀ hp₀
      obtain rfl : p = p' := Option.some.inj (hp.symm.trans hp')
      exact ⟨p₀, hp₀, hreq.symm, hpath⟩
    obtain ⟨p₀, hp₀, hreq, hpath⟩ := hnamed
    have hexp₀ : Exposed x e.before p₀ key := hexp.before hstep hg hp₀ hreq hpath
    rcases hstep.settles hg hset with hset₀ | ⟨staged, missing, isPartial, archive, stored, hlabel,
      hok, hphase, rfl⟩
    · obtain ⟨k, howes⟩ := h.covered i p₀ hp₀ (hreq ▸ hset₀) key hexp₀
      rw [hreq] at howes
      refine ⟨k, ?_⟩
      by_cases hk : k = e.thread
      · subst hk
        rw [Function.update_self]
        exact Phase.owes_step howes hstep hstorage hp₀ hreq hpath hexp.2.2
      · rw [Function.update_of_ne hk]
        exact howes
    · -- the call that publishes takes it over
      refine ⟨e.thread, ?_⟩
      rw [Function.update_self]
      have htracked := h.tracked e.thread
      rw [hphase] at htracked
      rw [Timely, hlabel] at hH
      exact Tracks.owes htracked (hH hok i p₀ hp₀ hreq key hexp₀)
  · intro j hj
    have hne : j ≠ e.thread := fun heq => hj e (by simp) heq.symm
    rw [Function.update_of_ne hne]
    exact h.resting j fun f hf => hj f (List.mem_append_left _ hf)

/-! ### Every run -/

/-- **No slice lingers**, in every run of a deployment with one prefix setting whose storage
answers and whose completions are timely: whenever no call is in flight, no part of a published
request has a safe path whose object is still in the bucket. -/
theorem slices_purged (hs : Sound start) (hpurged : Purged x start)
    (hmay : ∀ k op, may k op → op.outside = true)
    (hx : ∀ k, (calls k).1.bucketPrefix = x.bucketPrefix)
    (hrun : Pool.Runs may (callers calls) start tr P db)
    (hstorage : ∀ e ∈ tr, e.label.storage = true → e.ok = true)
    (htimely : ∀ pre e post, tr = pre ++ e :: post → Timely x pre e)
    (hquiescent : Quiescent P tr) : Purged x db := by
  obtain ⟨phases, -, hpaying, hidle⟩ := runs_invariant hs hmay
    (J := fun past phases db => Paying x past phases db)
    (H := fun past e => (e.label.storage = true → e.ok = true) ∧ Timely x past e)
    (fun _ _ _ _ hexcl h hstep hH => h.step hexcl hstep (hx _) hH.1 hH.2)
    ⟨fun _ => trivial, fun i p hp hset key hexp => absurd hexp (hpurged i p hp hset key),
      fun _ _ => rfl⟩ hrun
    fun pre e post hcut => ⟨hstorage e (by simp [hcut]), htimely pre e post hcut⟩
  intro i p hp hset key hexp
  obtain ⟨k, howes⟩ := hpaying.covered i p hp hset key hexp
  have hrest : phases k = .idle := by
    rcases hquiescent k with hdone | hunused
    · exact hidle k hdone
    · exact hpaying.resting k hunused
  rw [hrest] at howes
  exact howes

theorem slices_purged_raced : Purged exporter raceRun.2.2 ∧ raceRun.2.2.status 0 = some .ready ∧
    raceRun.2.2.readObject mediaKey = none :=
  ⟨slices_purged (sound_of_empty rfl rfl rfl) (fun i p hp => absurd hp (by simp [uploaded, Table.get?]))
    (fun _ _ h => h) race_bucketPrefix
    (Pool.runs_schedule (fun _ op => op.outside = true) raceOrder (callers race) uploaded)
    (by decide +kernel) (by decide +kernel)
    (fun k => .inl (show Done _ by revert k; decide +kernel)),
    by decide +kernel, by decide +kernel⟩

/-- The archive is built without the slice at the deadline, and the completion comes later. -/
def lateOrder : List (Fin 4) :=
  List.replicate 5 0 ++ List.replicate 8 1 ++ List.replicate 22 3 ++ List.replicate 5 2

def lateRun : List (Pool.Event (Fin 4) ExportOp ExportDb) × Pool ExportOp ExportDb ExportError Unit
    (Fin 4) × ExportDb :=
  Pool.schedule lateOrder (callers race) uploaded

/-- The slice stays in the bucket, with no call left to delete it. -/
theorem late_completion_lingers : ¬ ∀ (calls : Fin 4 → Exporter × Caller)
    (may : Fin 4 → ExportOp → Prop) (start db : ExportDb)
    (tr : List (Pool.Event (Fin 4) ExportOp ExportDb))
    (P : Pool ExportOp ExportDb ExportError Unit (Fin 4)) (x : Exporter), Sound start →
    Purged x start → (∀ k op, may k op → op.outside = true) →
    (∀ k, (calls k).1.bucketPrefix = x.bucketPrefix) →
    Pool.Runs may (callers calls) start tr P db →
    (∀ e ∈ tr, e.label.storage = true → e.ok = true) → Quiescent P tr → Purged x db := by
  intro hclaim
  have hrun := Pool.runs_schedule (fun _ op => op.outside = true) lateOrder (callers race) uploaded
  have hdone : ∀ k, (lateRun.2.1 k).Done := by decide +kernel
  have hpart : lateRun.2.2.parts.get? 1 = some ⟨0, "media", .done, some mediaKey, some 0, none⟩ := by
    decide +kernel
  have hset : Settled lateRun.2.2 0 := by decide +kernel
  have hexposed : Exposed exporter lateRun.2.2 ⟨0, "media", .done, some mediaKey, some 0, none⟩
      mediaKey := by decide +kernel
  exact hclaim _ _ _ _ _ _ exporter (sound_of_empty rfl rfl rfl)
    (fun i p hp => absurd hp (by simp [uploaded, Table.get?])) (fun _ _ h => h)
    race_bucketPrefix hrun (by decide +kernel)
    (fun k => .inl (hdone k)) 1 _ hpart hset mediaKey hexposed

end StapelGdpr.Export
