import StapelGdpr.Export.Protocol

/-!
# StapelGdpr.Export.Publication

An archive is published once. Any number of workers, completions, sweeps, purges and downloads
may race for a request, with failures at all the calls of `ExportOp.outside`, and still it is
announced at most once, its row carries at most one token over its whole life, two builds never
run at the same time, and once READY it can only become EXPIRED (`published_once`).

The invariant is exclusion, recorded in the events: whoever builds put the request into
ASSEMBLING, and it has stayed there since.
-/

namespace StapelGdpr.Export

open Prog

variable {κ : Type} [DecidableEq κ] {calls : κ → Exporter × Caller} {may : κ → ExportOp → Prop}
  {P : Pool ExportOp ExportDb ExportError Unit κ} {start db s s' : ExportDb}
  {tr past : List (Pool.Event κ ExportOp ExportDb)} {phases : κ → Phase} {k : κ} {pk : Nat}

/-! ### Moments and holders -/

/-- The status of a request. -/
def ExportDb.status (db : ExportDb) (pk : Nat) : Option ExportStatus :=
  (db.requests.get? pk).map (·.status)

/-- The token a request can be downloaded with. -/
def ExportDb.token (db : ExportDb) (pk : Nat) : Option TokenHash :=
  (db.requests.get? pk).bind (·.downloadTokenHash)

/-- Every store of a run, in order. -/
def stores (start : ExportDb) (tr : List (Pool.Event κ ExportOp ExportDb)) : List ExportDb :=
  start :: tr.map (·.after)

/-- The call has put the request into ASSEMBLING, and it has stayed there since. -/
def Holding (pk : Nat) (past : List (Pool.Event κ ExportOp ExportDb)) (k : κ) : Prop :=
  ∃ pre e since, past = pre ++ e :: since ∧ e.thread = k ∧ ¬ Assembling e.before pk ∧
    Assembling e.after pk ∧ ∀ f ∈ since, Assembling f.before pk ∧ Assembling f.after pk

omit [DecidableEq κ] in
theorem Holding.since {e : Pool.Event κ ExportOp ExportDb} (h : Holding pk past k)
    (hb : Assembling e.before pk) (ha : Assembling e.after pk) : Holding pk (past ++ [e]) k := by
  obtain ⟨pre, f, since, rfl, hk, hbefore, hafter, hsince⟩ := h
  refine ⟨pre, f, since ++ [e], by simp, hk, hbefore, hafter, fun g hg => ?_⟩
  rcases List.mem_append.mp hg with hg | hg
  · exact hsince g hg
  · rw [List.mem_singleton.mp hg]
    exact ⟨hb, ha⟩

omit [DecidableEq κ] in
/-- No two calls hold a request at the same time. -/
theorem Holding.unique {j : κ} (hj : Holding pk past j) (hk : Holding pk past k) : j = k := by
  obtain ⟨pre, e, since, rfl, rfl, hbefore, -, hsince⟩ := hj
  obtain ⟨pre', e', since', heq, rfl, hbefore', -, hsince'⟩ := hk
  -- the later of the two would have found the request assembling
  rcases List.append_eq_append_iff.mp heq with ⟨mid, rfl, hmid⟩ | ⟨mid, rfl, hmid⟩
  · cases mid with
    | nil => rw [List.nil_append] at hmid; rw [(List.cons.inj hmid).1]
    | cons f mid =>
        obtain ⟨rfl, rfl⟩ := List.cons.inj hmid
        exact absurd (hsince e' (by simp)).1 hbefore'
  · cases mid with
    | nil => rw [List.nil_append] at hmid; rw [(List.cons.inj hmid).1]
    | cons f mid =>
        obtain ⟨rfl, rfl⟩ := List.cons.inj hmid
        exact absurd (hsince' e (by simp)).1 hbefore

/-! ### The invariant -/

/-- What the past says of the phases, and of the store. -/
structure Recorded (start : ExportDb) (past : List (Pool.Event κ ExportOp ExportDb))
    (phases : κ → Phase) (db : ExportDb) : Prop where
  /-- Whoever builds holds the request. -/
  holding : ∀ k pk, (phases k).builds = some pk → Holding pk past k
  /-- And every statement of a build so far was taken by the one who held it. -/
  builders : ∀ pre e post, past = pre ++ e :: post → ∀ pk, e.label.builds = some pk →
    Holding pk pre e.thread
  sound : ∀ s ∈ stores start past, Sound s
  later : (stores start past).Pairwise Later
  last : ∀ s ∈ stores start past, Later s db

omit [DecidableEq κ] in
theorem recorded_start (h : Sound start) : Recorded start [] (fun _ : κ => .idle) start where
  holding _ _ hb := absurd hb (by simp [Phase.builds])
  builders pre e post h := absurd h (by simp)
  sound s hs := by rwa [List.mem_singleton.mp hs]
  later := List.pairwise_singleton _ _
  last s hs := by rw [List.mem_singleton.mp hs]; exact .refl _

/-- One more protocol step is recorded. -/
theorem Recorded.step {x : Exporter} {m : Phase} {e : Pool.Event κ ExportOp ExportDb}
    (hexcl : Exclusive phases e.before) (h : Recorded start past phases e.before)
    (hstep : Step x (phases e.thread) e.label e.ok e.before e.after m) :
    Recorded start (past ++ [e]) (Function.update phases e.thread m) e.after := by
  have hg := hexcl.guard e.thread
  have hstores : stores start (past ++ [e]) = stores start past ++ [e.after] := by
    simp [stores]
  have hlast : ∀ s ∈ stores start past, Later s e.after := fun s hs =>
    (h.last s hs).trans (hstep.later hg)
  constructor
  · intro j pk hb
    by_cases hj : j = e.thread
    · subst hj
      rw [Function.update_self] at hb
      have hafter := (hstep.guard hg).2 pk hb
      by_cases hheld : Assembling e.before pk
      · rcases hstep.takes hb with hm | hfree
        · exact (h.holding _ pk hm).since hheld hafter
        · exact absurd hheld hfree
      · exact ⟨past, e, [], rfl, rfl, hheld, hafter, by simp⟩
    · rw [Function.update_of_ne hj] at hb
      have hheld := hexcl.held j pk hb
      have hother := hstep.others hg hheld fun hk => hj (hexcl.one j e.thread pk hb hk)
      exact (h.holding j pk hb).since hheld hother.1
  · intro pre f post hcut pk hop
    rcases cut_snoc hcut with ⟨rfl, rfl⟩ | ⟨post', hcut'⟩
    · exact h.holding _ pk (hstep.builder hop)
    · exact h.builders pre f post' hcut' pk hop
  · rw [hstores]
    intro s hs
    rcases List.mem_append.mp hs with hs | hs
    · exact h.sound s hs
    · rw [List.mem_singleton.mp hs]
      exact hstep.sound hg
  · rw [hstores, List.pairwise_append]
    refine ⟨h.later, List.pairwise_singleton _ _, fun s hs t ht => ?_⟩
    rw [List.mem_singleton.mp ht]
    exact hlast s hs
  · rw [hstores]
    intro s hs
    rcases List.mem_append.mp hs with hs | hs
    · exact hlast s hs
    · rw [List.mem_singleton.mp hs]
      exact .refl _

/-! ### Publication -/

/-- A token is on published rows only, and a later store has the same one or none. -/
theorem Later.same_token {t t' : TokenHash} (h : Later s s') (hs : Sound s)
    (ht : s.token pk = some t) (ht' : s'.token pk = some t') : t = t' := by
  obtain ⟨r, hr, htok⟩ := Option.bind_eq_some_iff.mp ht
  obtain ⟨r', hr', hrow⟩ := h.rows pk r hr
  rw [ExportDb.token, hr'] at ht'
  have ht' : r'.downloadTokenHash = some t' := ht'
  have hset : r.isSettled = true := by
    by_contra hno
    have hblank := hs.blank pk r hr (by simpa using hno)
    rw [hblank.2.1] at htok
    exact absurd htok (by simp)
  rcases hrow.token hset with hsame | hnone
  · exact Option.some.inj (htok.symm.trans (hsame.symm.trans ht'))
  · rw [hnone] at ht'
    exact absurd ht' (by simp)

/-- A READY request stays READY or becomes EXPIRED. -/
theorem Later.ready_or_expired (h : Later s s') (hs : s.status pk = some .ready) :
    s'.status pk = some .ready ∨ s'.status pk = some .expired := by
  obtain ⟨r, hr, hready⟩ := Option.map_eq_some_iff.mp hs
  obtain ⟨r', hr', hrow⟩ := h.rows pk r hr
  rw [ExportDb.status, hr']
  exact (hrow.ready hready).imp (congrArg some) (congrArg some)

/-- What publishing once means for a request. -/
structure PublishedOnce (pk : Nat) (start : ExportDb)
    (tr : List (Pool.Event κ ExportOp ExportDb)) (db : ExportDb) : Prop where
  /-- At most one `user.export_ready` is committed. -/
  event : (db.outbox.map (·.requestId)).count pk ≤ 1
  /-- One token at most, over the whole run. -/
  token : ∀ s ∈ stores start tr, ∀ s' ∈ stores start tr, ∀ t t', s.token pk = some t →
    s'.token pk = some t' → t = t'
  /-- Every statement of a build is the holder's, and there is one holder. -/
  build : ∀ pre e post, tr = pre ++ e :: post → e.label.builds = some pk →
    Holding pk pre e.thread ∧ ∀ k, Holding pk pre k → k = e.thread
  /-- Once READY, the status changes to EXPIRED only. -/
  final : (stores start tr).Pairwise fun s s' => s.status pk = some .ready →
    s'.status pk = some .ready ∨ s'.status pk = some .expired

/-- **The archive is published once**, in every interleaving of any calls of the export side,
whichever of the providers, the bus, the file system, the two object stores and the emit fail; of
the file system, all but the look at the staging directory after a publication, which nothing
catches and which sends a READY request back (`ExportOp.outside`). -/
theorem published_once (hs : Sound start) (hmay : ∀ k op, may k op → op.outside = true)
    (hrun : Pool.Runs may (callers calls) start tr P db) (pk : Nat) :
    PublishedOnce pk start tr db := by
  obtain ⟨phases, hexcl, hrec, -⟩ := runs_invariant hs hmay (J := Recorded start)
    (H := fun _ _ => True) (fun _ _ _ _ hexcl h hstep _ => h.step hexcl hstep) (recorded_start hs)
    hrun fun _ _ _ _ => trivial
  constructor
  · exact List.nodup_iff_count_le_one.mp hexcl.sound.once pk
  · have hagree : (stores start tr).Pairwise fun s s' => ∀ t t', s.token pk = some t →
        s'.token pk = some t' → t = t' :=
      hrec.later.imp_of_mem fun hmem _ hl _ _ => hl.same_token (hrec.sound _ hmem)
    intro s hs s' hs'
    exact List.Pairwise.forall_of_forall_of_flip (fun s _ t t' ht ht' => Option.some.inj
      (ht.symm.trans ht')) hagree (hagree.imp fun h t t' ht ht' => (h t' t ht' ht).symm) hs hs'
  · intro pre e post hcut hop
    have hheld := hrec.builders pre e post hcut pk hop
    exact ⟨hheld, fun k hk => hk.unique hheld⟩
  · exact hrec.later.imp fun hl => hl.ready_or_expired

/-- A worker, a completion and a sweep a day later, for a request of the same run. -/
def race : Fin 4 → Exporter × Caller := fun k => match k with
  | 0 => (exporter, .request "u1")
  | 1 => (exporter, .run 0)
  | 2 => (exporter, .partReady 0 "media" (some mediaKey))
  | 3 => ({ exporter with env := { exporter.env with now := days 1 } }, .sweep)

theorem race_bucketPrefix (k : Fin 4) : (race k).1.bucketPrefix = exporter.bucketPrefix := by
  match k with
  | 0 | 1 | 2 | 3 => rfl

/-- The request first; then the worker exports, the completion lands in the middle of it, and
the sweep comes while both of them are at the assembly. -/
def raceOrder : List (Fin 4) :=
  List.replicate 5 0 ++ List.replicate 4 1 ++ [2, 2, 1, 1, 1, 3, 2, 3, 1, 2, 3] ++
    (List.replicate 20 [3, 1, 2]).flatten

def raceRun : List (Pool.Event (Fin 4) ExportOp ExportDb) × Pool ExportOp ExportDb ExportError Unit
    (Fin 4) × ExportDb :=
  Pool.schedule raceOrder (callers race) uploaded

theorem published_once_raced : PublishedOnce 0 uploaded raceRun.1 raceRun.2.2 ∧
    raceRun.2.2.status 0 = some .ready :=
  ⟨published_once (sound_of_empty rfl rfl rfl) (fun _ _ h => h)
    (Pool.runs_schedule (fun _ op => op.outside = true) raceOrder (callers race) uploaded) 0,
    by decide +kernel⟩

end StapelGdpr.Export
