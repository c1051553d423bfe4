import StapelGdpr.Receipts

/-!
# StapelGdpr.SweepRace

What a sweep of the deadlines announces, when receipts arrive while it runs. It lists the
overdue parts, times them out, reads their requests and writes TIMEOUT on each, from the list
and the requests it has read. A TIMEOUT is earned, and never replaces DELETED, as long as
between the listing and the unit of a request no receipt for a part that was listed for it and
no certification of it gets in (`timeouts_earned`).
-/

namespace StapelGdpr

open Prog

variable {κ : Type} {env : Env} {op : Op} {a b db start : Db} {i pk : Nat} {owner : String}
  {now : Time} {may : Op → Prop}

/-! ### One sweep -/

/-- What a sweep lists: request and owner of each overdue part. -/
def Db.overdueParts (db : Db) (now : Time) : List (Nat × String) :=
  (db.parts.select (·.overdue now)).map fun p => (p.row.request, p.row.owner)

theorem mem_overdueParts : (pk, owner) ∈ db.overdueParts now ↔ ∃ i p,
    db.parts.get? i = some p ∧ p.request = pk ∧ p.owner = owner ∧ p.overdue now = true := by
  rw [Db.overdueParts, List.mem_map]
  constructor
  · rintro ⟨o, ho, heq⟩
    obtain ⟨hrequest, howner⟩ := Prod.mk.inj heq
    obtain ⟨hget, hdue⟩ := Table.mem_select.mp ho
    exact ⟨o.pk, o.row, hget, hrequest, howner, hdue⟩
  · rintro ⟨i, p, hget, rfl, rfl, hdue⟩
    exact ⟨⟨i, p⟩, Table.mem_select.mpr ⟨hget, hdue⟩, rfl⟩

/-- The units of a sweep that has read the list and the requests. -/
def announceTimeouts (affected : List (Nat × String)) (requests : List (Stored ErasureRequest))
    (count : Nat) : Program Unit :=
  (requests.forM (announceTimeout affected) >>= fun _ => (return count : Program Nat)) >>= fun _ =>
    pure ()

/-- A sweep, its result dropped. -/
theorem sweep_prog : Call.sweepDeletionDeadlines.prog env =
    Program.select (·.overdueParts env.now) >>= fun affected =>
      Prog.atomic .sweepParts (fun db => .ok ((db.parts.select (·.overdue env.now)).length,
        { db with parts := db.parts.update (·.overdue env.now) (·.timeOut) })) >>= fun count =>
      (if count = 0 then (return 0 : Program Nat)
      else Program.select (·.announced affected) >>= fun requests =>
        requests.forM (announceTimeout affected) >>= fun _ => return count) >>= fun _ =>
          pure () := rfl

/-- What a unit does, if it does anything: it writes TIMEOUT on a request of the list and
announces it. -/
def UnitOf (affected : List (Nat × String)) (requests : List (Stored ErasureRequest)) (op : Op)
    (a b : Db) : Prop :=
  ∃ request ∈ requests, op = .timeoutUnit request.pk ∧ (b = a ∨ ∃ id st sk due,
    b.outbox = a.outbox ++
    [.erasureTimeout request.pk id st sk (silentOwners affected request.pk) due])

theorem announceTimeouts_units {affected : List (Nat × String)}
    {requests : List (Stored ErasureRequest)} {count : Nat} :
    Always (UnitOf affected requests) (announceTimeouts affected requests count) := by
  refine Always.bind (Always.bind (Always.forM fun request hmem => .write fun db => ⟨?_, ?_⟩)
    fun _ => always_ret) fun _ => always_ret
  · exact ⟨request, hmem, rfl, .inl rfl⟩
  · exact ⟨request, hmem, rfl, .inr ⟨_, _, _, _, rfl⟩⟩

theorem announced_open {affected : List (Nat × String)} {request : Stored ErasureRequest}
    (h : request ∈ db.announced affected) :
    (∃ owner, (request.pk, owner) ∈ affected) ∧
      ∃ row, db.requests.get? request.pk = some row ∧ row.state.isOpen = true := by
  rw [Ledger.announced, List.mem_insertionSort, List.mem_filter, Table.mem_entries] at h
  obtain ⟨hget, hlisted⟩ := h
  simp only [Bool.and_eq_true, decide_eq_true_eq, List.mem_map] at hlisted
  obtain ⟨⟨⟨pk, owner⟩, hmem, rfl⟩, hopen⟩ := hlisted
  exact ⟨⟨owner, hmem⟩, request.row, hget, hopen⟩

/-- The last of these steps is not the first. -/
theorem last_later {α : Type} {es rest : List α} {e x : α} (h : es ++ [e] = x :: rest)
    (hne : e ≠ x) : ∃ es', es = x :: es' ∧ es' ++ [e] = rest := by
  cases es with
  | nil => exact absurd (List.cons.inj h).1 hne
  | cons y es => exact ⟨es, by rw [(List.cons.inj h).1], (List.cons.inj h).2⟩

/-- Where the unit of a request comes from: the read of the list, the update of the parts, the
read of the requests, and the units before it. -/
theorem sweep_unit {es : List (Pool.Event κ Op Db)} {e : Pool.Event κ Op Db} {p' : Program Unit}
    (h : Pool.Follows may (Call.sweepDeletionDeadlines.prog env) (es ++ [e]) p')
    (hunit : e.label = .timeoutUnit pk) : ∃ r s q us, es = r :: s :: q :: us ∧
      r.label = .select ∧ q.label = .select ∧
      s.after.parts = s.before.parts.update (·.overdue env.now) (·.timeOut) ∧
      (∃ owner, (pk, owner) ∈ r.before.overdueParts env.now) ∧
      (∃ row, q.before.requests.get? pk = some row ∧ row.state.isOpen = true) ∧
      (e.after = e.before ∨ ∃ id st sk due, e.after.outbox = e.before.outbox ++
        [.erasureTimeout pk id st sk (silentOwners (r.before.overdueParts env.now) pk) due]) := by
  have hother : ∀ {d : Pool.Event κ Op Db} {op : Op}, d.label = op → op ≠ .timeoutUnit pk →
      e ≠ d := by
    rintro d op hd hne rfl
    exact hne (hd.symm.trans hunit)
  have hend : ∀ {es' : List (Pool.Event κ Op Db)}, es' ++ [e] ≠ [] := by simp
  rw [sweep_prog] at h
  -- the list
  rcases h.query_bind with hnil | ⟨r, rest₁, heq₁, hr, hlist⟩
  · exact absurd hnil hend
  obtain ⟨es₁, rfl, hes₁⟩ := last_later heq₁ (hother hr (by simp))
  rcases hlist with hnil | hparts
  · exact absurd (hes₁.trans hnil) hend
  -- the parts
  rcases hparts.atomic_bind with hnil | ⟨s, rest₂, heq₂, hs, hcount⟩
  · exact absurd (hes₁.trans hnil) hend
  obtain ⟨es₂, rfl, rfl⟩ := last_later (hes₁.trans heq₂) (hother hs (by simp))
  rcases hcount with hnil | ⟨count, hcommit, hrest⟩
  · exact absurd hnil hend
  have htimedOut : s.after.parts = s.before.parts.update (·.overdue env.now) (·.timeOut) := by
    rw [← (Prod.mk.inj (Except.ok.inj hcommit)).2]
  split at hrest
  · -- nothing timed out: the sweep is over
    generalize hes : es₂ ++ [e] = es' at hrest
    cases hrest
    exact absurd hes hend
  -- the requests
  rw [Prog.bind_assoc] at hrest
  rcases hrest.query_bind with hnil | ⟨q, rest₃, heq₃, hq, hrequests⟩
  · exact absurd hnil hend
  obtain ⟨es₃, rfl, rfl⟩ := last_later heq₃ (hother hq (by simp))
  rcases hrequests with hnil | hunits
  · exact absurd hnil hend
  obtain ⟨request, hmem, hlabel, heffect⟩ :=
    hunits.always announceTimeouts_units e (List.mem_append_right _ (List.mem_singleton.mpr rfl))
  obtain rfl : request.pk = pk := by
    rw [hunit] at hlabel
    exact (Op.timeoutUnit.inj hlabel).symm
  obtain ⟨hlisted, hopen⟩ := announced_open hmem
  exact ⟨r, s, q, es₃, rfl, hr, hq, htimedOut, hlisted, hopen, heffect⟩

/-- Only sweeps time a request out. -/
theorem timeoutUnit_sweep {call : Call} (haccounts : call.accounts = true)
    (hmay : call.may (.timeoutUnit pk)) : call = .sweepDeletionDeadlines := by
  cases call with
  | sweepDeletionDeadlines => rfl
  | executeDeletion closure => exact (hmay.elim id id).elim
  | processExpiredGracePeriods =>
      obtain ⟨_, _, h⟩ := hmay
      exact (h.elim id id).elim
  | markSectionErased => exact hmay.elim
  | sectionErased => exact hmay.elim
  | _ => exact absurd haccounts (by simp [Call.accounts])

/-! ### Beside a sweep -/

/-- The statement takes something off the list a sweep has read for a request: a receipt for
one of its overdue parts, or its certification. -/
def Meddles (now : Time) (pk : Nat) (read : Db) : Op → Prop
  | .certify request => request = pk
  | .receipt request service => request = pk ∧ (pk, service) ∈ read.overdueParts now
  | .localReceipt i => ∃ p, read.parts.get? i = some p ∧ p.request = pk ∧ p.overdue now = true
  | _ => False

/-- The part is one of the request, of this owner, and overdue or timed out. -/
def Waits (now : Time) (pk : Nat) (owner : String) (i : Nat) (db : Db) : Prop :=
  ∃ p, db.parts.get? i = some p ∧ p.request = pk ∧ p.owner = owner ∧
    (p.overdue now = true ∨ p.state = .timeout)

/-- The part is one of the request, of this owner, and timed out. -/
def Expired (pk : Nat) (owner : String) (i : Nat) (db : Db) : Prop :=
  ∃ p, db.parts.get? i = some p ∧ p.request = pk ∧ p.owner = owner ∧ p.state = .timeout

/-- The request is not DELETED. -/
def Undeleted (pk : Nat) (db : Db) : Prop :=
  ∀ r, db.requests.get? pk = some r → r.state ≠ .deleted

/-- A part that gets no receipt stays as it is, or is timed out. -/
theorem Receives.kept {t t' : Table ErasurePart} {p : ErasurePart} (h : Receives op t t')
    (hp : t.get? i = some p) (hlocal : op ≠ .localReceipt i)
    (hremote : op ≠ .receipt p.request p.owner) :
    t'.get? i = some p ∨ t'.get? i = some p.timeOut := by
  cases h with
  | same => exact .inl hp
  | slots => exact .inl (Table.get?_insertAll_of_some _ hp)
  | @saved j =>
      have hne : i ≠ j := fun heq => hlocal (heq ▸ rfl)
      exact .inl (by rw [Table.get?_modify_of_ne _ hne, hp])
  | @delivered request service =>
      have hskip : ¬ p.awaits request service = true := by
        intro hawaits
        obtain ⟨rfl, rfl, -⟩ := ErasurePart.awaits_iff.mp hawaits
        exact hremote rfl
      exact .inl (by rw [Table.get?_update, hp, Option.map_some, if_neg hskip])
  | @timedOut _ now =>
      rw [Table.get?_update, hp, Option.map_some]
      split
      · exact .inr rfl
      · exact .inl rfl

/-- A part that was listed gets no receipt while nobody meddles. -/
theorem Books.kept {read : Db} {p p₀ : ErasurePart} (h : Books op a b)
    (hquiet : ¬ Meddles now pk read op) (hlisted : read.parts.get? i = some p₀)
    (hrequest : p₀.request = pk) (howner : p₀.owner = owner) (hdue : p₀.overdue now = true)
    (hp : a.parts.get? i = some p) (hpk : p.request = pk) (hname : p.owner = owner) :
    b.parts.get? i = some p ∨ b.parts.get? i = some p.timeOut := by
  refine h.parts.kept hp ?_ ?_
  · rintro rfl
    exact hquiet ⟨p₀, hlisted, hrequest, hdue⟩
  · rintro rfl
    refine hquiet ⟨hpk, ?_⟩
    rw [hname]
    exact mem_overdueParts.mpr ⟨i, p₀, hlisted, hrequest, howner, hdue⟩

theorem Waits.kept (hw : Waits now pk owner i a)
    (h : ∀ p, a.parts.get? i = some p → p.request = pk → p.owner = owner →
      b.parts.get? i = some p ∨ b.parts.get? i = some p.timeOut) : Waits now pk owner i b := by
  obtain ⟨p, hp, hpk, hname, hwait⟩ := hw
  rcases h p hp hpk hname with hsame | hout
  · exact ⟨p, hsame, hpk, hname, hwait⟩
  · exact ⟨p.timeOut, hout, hpk, hname, .inr rfl⟩

theorem Expired.kept (hw : Expired pk owner i a)
    (h : ∀ p, a.parts.get? i = some p → p.request = pk → p.owner = owner →
      b.parts.get? i = some p ∨ b.parts.get? i = some p.timeOut) : Expired pk owner i b := by
  obtain ⟨p, hp, hpk, hname, hout⟩ := hw
  rcases h p hp hpk hname with hsame | htimedOut
  · exact ⟨p, hsame, hpk, hname, hout⟩
  · exact ⟨p.timeOut, htimedOut, hpk, hname, rfl⟩

/-- The update of the sweep times out what waits. -/
theorem Waits.timedOut (hw : Waits now pk owner i a)
    (h : b.parts = a.parts.update (·.overdue now) (·.timeOut)) : Expired pk owner i b := by
  obtain ⟨p, hp, hpk, hname, hwait⟩ := hw
  have hget : b.parts.get? i = some (if p.overdue now = true then p.timeOut else p) := by
    rw [h, Table.get?_update, hp, Option.map_some]
  by_cases hdue : p.overdue now = true
  · rw [if_pos hdue] at hget
    exact ⟨p.timeOut, hget, hpk, hname, rfl⟩
  · rw [if_neg hdue] at hget
    exact ⟨p, hget, hpk, hname, hwait.resolve_left hdue⟩

/-- A request that is not certified is not DELETED by a statement. -/
theorem Books.undeleted (h : Books op a b) (hquiet : op ≠ .certify pk) (hopen : Undeleted pk a)
    (hthere : (a.requests.get? pk).isSome = true) :
    Undeleted pk b ∧ (b.requests.get? pk).isSome = true := by
  obtain ⟨r, hr⟩ := Option.isSome_iff_exists.mp hthere
  have hstate := hopen r hr
  have hrow : ∃ r', b.requests.get? pk = some r' ∧ r'.state ≠ .deleted := by
    have hd := h.requests
    generalize b.requests = t at hd
    generalize hs : a.requests = s at hd hr
    cases hd with
    | same => exact ⟨r, hr, hstate⟩
    | opened => exact ⟨r, Table.get?_insert_of_some _ hr, hstate⟩
    | @certified j =>
        have hne : pk ≠ j := fun heq => hquiet (heq ▸ rfl)
        exact ⟨r, by rw [Table.get?_modify_of_ne _ hne, hr], hstate⟩
    | @timedOut j =>
        by_cases heq : pk = j
        · subst heq
          exact ⟨r.timeOut, Table.get?_modify_self _ hr, by simp [ErasureRequest.timeOut]⟩
        · exact ⟨r, by rw [Table.get?_modify_of_ne _ heq, hr], hstate⟩
  obtain ⟨r', hr', hne⟩ := hrow
  refine ⟨fun r'' h'' => ?_, by rw [hr']; rfl⟩
  rw [hr'] at h''
  exact Option.some.inj h'' ▸ hne

/-! ### Sweeps, receipts and executions side by side -/

variable [DecidableEq κ] {calls : κ → Env × Call} {may : κ → Op → Prop}
  {tr : List (Pool.Event κ Op Db)} {P : Pool Op Db Error Unit κ}

/-- Between the list a sweep reads, which is its first statement, and its unit for a request,
nothing is taken off the list for that request. -/
def Undisturbed (calls : κ → Env × Call) (tr : List (Pool.Event κ Op Db)) : Prop :=
  ∀ pre r mid e post pk, tr = pre ++ r :: (mid ++ e :: post) → (∀ d ∈ pre, d.thread ≠ e.thread) →
    r.thread = e.thread → e.label = .timeoutUnit pk → e.ok = true →
    ∀ d ∈ mid, d.ok = true → ¬ Meddles (calls e.thread).1.now pk r.before d.label

/-- What a TIMEOUT should say: some part of the request is timed out, and every owner that is
named has a part that is not DONE. -/
structure Earned (pk : Nat) (e : Pool.Event κ Op Db) : Prop where
  expired : ∃ i p, e.before.parts.get? i = some p ∧ p.request = pk ∧ p.state = .timeout
  owners : ∀ id st sk owners due, e.after.outbox = e.before.outbox ++
    [.erasureTimeout pk id st sk owners due] → ∀ owner ∈ owners, ∃ i p,
      e.before.parts.get? i = some p ∧ p.request = pk ∧ p.owner = owner ∧ p.state ≠ .done

/-- A part that is overdue when the list is read is timed out from the sweep's update on, as long
as nobody meddles. -/
theorem listed_expired {A M N B : List (Pool.Event κ Op Db)} {r s e : Pool.Event κ Op Db}
    (hcalls : ∀ k, (calls k).2.accounts = true)
    (hrun : Pool.Runs may (accounting calls) start (A ++ r :: (M ++ s :: (N ++ e :: B))) P db)
    (hr : r.label = .select)
    (hparts : s.after.parts = s.before.parts.update (·.overdue now) (·.timeOut))
    (hquiet : ∀ d ∈ M ++ N, d.ok = true → ¬ Meddles now pk r.before d.label) {p₀ : ErasurePart}
    (hget : r.before.parts.get? i = some p₀) (hrequest : p₀.request = pk)
    (howner : p₀.owner = owner) (hdue : p₀.overdue now = true) : Expired pk owner i e.before := by
  have hbooks := accounting_books hcalls hrun
  have hkept : ∀ d ∈ M ++ N, ∀ p, d.before.parts.get? i = some p →
      p.request = pk → p.owner = owner →
      d.after.parts.get? i = some p ∨ d.after.parts.get? i = some p.timeOut := by
    intro d hd p hp hpk hname
    have hmem : d ∈ A ++ r :: (M ++ s :: (N ++ e :: B)) := by
      rcases List.mem_append.mp hd with hd | hd <;> simp [hd]
    cases hok : d.ok with
    | true => exact (hbooks d hmem).kept (hquiet d hd hok) hget hrequest howner hdue hp hpk hname
    | false =>
        rw [(hrun.failed d hmem hok).1]
        exact .inl hp
  have hread : Waits now pk owner i r.after := by
    have hstart : Waits now pk owner i r.before := ⟨p₀, hget, hrequest, howner, .inl hdue⟩
    refine hstart.kept fun p hp hpk hname => ?_
    exact (hbooks r (by simp)).kept (by rw [hr]; exact id) hget hrequest howner hdue hp hpk hname
  have hwaits := hrun.between (fun d hd hw =>
    Waits.kept hw (hkept d (List.mem_append_left _ hd))) hread
  have hlater : Pool.Runs may (accounting calls) start
      ((A ++ r :: M) ++ s :: (N ++ e :: B)) P db := by simpa using hrun
  exact hlater.between (fun d hd hw =>
    Expired.kept hw (hkept d (List.mem_append_right _ hd))) (hwaits.timedOut hparts)

/-- A request that is open when it is read is not DELETED until it is certified. -/
theorem read_undeleted {A N B : List (Pool.Event κ Op Db)} {q e : Pool.Event κ Op Db}
    {row : ErasureRequest} (hcalls : ∀ k, (calls k).2.accounts = true)
    (hrun : Pool.Runs may (accounting calls) start (A ++ q :: (N ++ e :: B)) P db)
    (hq : q.label = .select) (hrow : q.before.requests.get? pk = some row)
    (hopen : row.state.isOpen = true)
    (hquiet : ∀ d ∈ N, d.ok = true → d.label ≠ .certify pk) : Undeleted pk e.before := by
  have hbooks := accounting_books hcalls hrun
  have hbefore : Undeleted pk q.before := by
    intro r' hr'
    obtain rfl := Option.some.inj (hrow.symm.trans hr')
    exact ErasureState.ne_deleted hopen
  have hread := (hbooks q (by simp)).undeleted (show q.label ≠ .certify pk by rw [hq]; simp)
    hbefore (by rw [hrow]; rfl)
  have hlast := hrun.between (I := fun db => Undeleted pk db ∧
    (db.requests.get? pk).isSome = true) (fun d hd h => ?_) hread
  · exact hlast.1
  · cases hok : d.ok with
    | true => exact (hbooks d (by simp [hd])).undeleted (hquiet d hd hok) h.1 h.2
    | false =>
        rw [(hrun.failed d (by simp [hd]) hok).1]
        exact h

/-- The unit of a request is earned, and finds it not DELETED. -/
theorem unit_earned {A B : List (Pool.Event κ Op Db)} {e : Pool.Event κ Op Db}
    (hcalls : ∀ k, (calls k).2.accounts = true)
    (hrun : Pool.Runs may (accounting calls) start (A ++ e :: B) P db)
    (hundisturbed : Undisturbed calls (A ++ e :: B)) (hunit : e.label = .timeoutUnit pk)
    (hok : e.ok = true) : Undeleted pk e.before ∧ Earned pk e := by
  have hmay := hrun.always (M := fun k op _ _ => (calls k).2.may op)
    (fun k => Call.labels (calls k).1 (calls k).2) e (by simp)
  rw [hunit] at hmay
  have hsweep := timeoutUnit_sweep (hcalls e.thread) hmay
  -- the thread of the unit, up to the unit
  obtain ⟨r, s, q, us, hfilter, hr, hq, hparts, ⟨owner₀, hlisted₀⟩, ⟨row, hrow, hopen⟩, heffect⟩ :
      ∃ r s q us, A.filter (·.thread = e.thread) = r :: s :: q :: us ∧ r.label = .select ∧
        q.label = .select ∧ _ := by
    rw [List.append_cons] at hrun
    obtain ⟨P₁, s₁, hpre, -⟩ := hrun.split
    have hfollows := hpre.follows e.thread
    rw [List.filter_append, List.filter_cons_of_pos (by simp), List.filter_nil] at hfollows
    unfold accounting at hfollows
    rw [hsweep] at hfollows
    exact sweep_unit hfollows hunit
  obtain ⟨A₁, A₂, rfl, hfirst, hthread, hfilter₂⟩ := List.filter_eq_cons_iff.mp hfilter
  obtain ⟨A₃, A₄, rfl, -, -, hfilter₄⟩ := List.filter_eq_cons_iff.mp hfilter₂
  obtain ⟨A₅, A₆, rfl, -, -, -⟩ := List.filter_eq_cons_iff.mp hfilter₄
  have hquiet : ∀ d ∈ A₃ ++ s :: (A₅ ++ q :: A₆), d.ok = true →
      ¬ Meddles (calls e.thread).1.now pk r.before d.label := by
    refine hundisturbed A₁ r _ e B pk (by simp) (fun d hd heq => hfirst d hd ?_) ?_ hunit hok
    · simp [heq]
    · simpa using hthread
  have hundeleted : Undeleted pk e.before := by
    have hrun' : Pool.Runs may (accounting calls) start
        ((A₁ ++ r :: (A₃ ++ s :: A₅)) ++ q :: (A₆ ++ e :: B)) P db := by simpa using hrun
    refine read_undeleted hcalls hrun' hq hrow hopen fun d hd hdok hcertify => ?_
    refine hquiet d (by simp [hd]) hdok ?_
    rw [hcertify]
    rfl
  have hexpired : ∀ owner, (pk, owner) ∈ r.before.overdueParts (calls e.thread).1.now →
      ∃ i p, e.before.parts.get? i = some p ∧ p.request = pk ∧ p.owner = owner ∧
        p.state = .timeout := by
    intro owner hlisted
    obtain ⟨i, p₀, hget, hrequest, howner, hdue⟩ := mem_overdueParts.mp hlisted
    have hrun' : Pool.Runs may (accounting calls) start
        (A₁ ++ r :: (A₃ ++ s :: ((A₅ ++ q :: A₆) ++ e :: B))) P db := by simpa using hrun
    refine ⟨i, listed_expired hcalls hrun' hr hparts (fun d hd => hquiet d ?_) hget hrequest
      howner hdue⟩
    rcases List.mem_append.mp hd with hd | hd
    · exact List.mem_append_left _ hd
    · exact List.mem_append_right _ (List.mem_cons_of_mem _ hd)
  obtain ⟨i₀, p₀, hget₀, hpk₀, -, hout₀⟩ := hexpired owner₀ hlisted₀
  refine ⟨hundeleted, ⟨i₀, p₀, hget₀, hpk₀, hout₀⟩, fun id st sk owners due hemit owner hmem => ?_⟩
  rcases heffect with hsame | ⟨id', st', sk', due', heffect⟩
  · rw [hsame] at hemit
    exact absurd hemit (by simp)
  · rw [heffect] at hemit
    have haction := List.append_cancel_left hemit
    simp only [List.cons.injEq, Action.erasureTimeout.injEq, and_true, true_and] at haction
    obtain ⟨-, -, -, howners, -⟩ := haction
    rw [← howners] at hmem
    obtain ⟨i, p, hp, hpk, hname, hout⟩ := hexpired owner (mem_silentOwners.mp hmem)
    exact ⟨i, p, hp, hpk, hname, by rw [hout]; decide⟩

/-- DELETED stays DELETED. -/
def KeepsDeleted (a b : Db) : Prop :=
  ∀ pk r, a.requests.get? pk = some r → r.state = .deleted →
    ∃ r', b.requests.get? pk = some r' ∧ r'.state = .deleted

theorem KeepsDeleted.trans {c : Db} (h : KeepsDeleted a b) (h' : KeepsDeleted b c) :
    KeepsDeleted a c := by
  intro pk r hr hdeleted
  obtain ⟨r₁, hr₁, hdeleted₁⟩ := h pk r hr hdeleted
  exact h' pk r₁ hr₁ hdeleted₁

/-- A statement that times out no DELETED request keeps DELETED. -/
theorem Books.keepsDeleted (h : Books op a b) (hout : ∀ pk, op = .timeoutUnit pk → Undeleted pk a) :
    KeepsDeleted a b := by
  intro pk r hr hdeleted
  have hd := h.requests
  generalize b.requests = t at hd
  generalize hs : a.requests = s at hd hr
  cases hd with
  | same => exact ⟨r, hr, hdeleted⟩
  | opened => exact ⟨r, Table.get?_insert_of_some _ hr, hdeleted⟩
  | @certified j _ now waived =>
      by_cases heq : pk = j
      · subst heq
        exact ⟨r.certify now waived, Table.get?_modify_self _ hr, rfl⟩
      · exact ⟨r, by rw [Table.get?_modify_of_ne _ heq, hr], hdeleted⟩
  | @timedOut j =>
      have hne : pk ≠ j := by
        rintro rfl
        exact hout pk rfl r (by rw [hs]; exact hr) hdeleted
      exact ⟨r, by rw [Table.get?_modify_of_ne _ hne, hr], hdeleted⟩

/-- **DELETED is terminal and TIMEOUT is earned.** In every run of sweeps, receipts and
executions in which nothing is taken off a sweep's list while it runs, a request that is
DELETED stays DELETED, and every TIMEOUT that is written says what is so. -/
theorem timeouts_earned (hcalls : ∀ k, (calls k).2.accounts = true)
    (hrun : Pool.Runs may (accounting calls) start tr P db)
    (hundisturbed : Undisturbed calls tr) :
    (Pool.stores start tr).Pairwise KeepsDeleted ∧
      ∀ e ∈ tr, ∀ pk, e.label = .timeoutUnit pk → e.ok = true → Earned pk e := by
  have hunit : ∀ e ∈ tr, ∀ pk, e.label = .timeoutUnit pk → e.ok = true →
      Undeleted pk e.before ∧ Earned pk e := by
    intro e he pk hlabel hok
    obtain ⟨A, B, rfl⟩ := List.append_of_mem he
    exact unit_earned hcalls hrun hundisturbed hlabel hok
  refine ⟨hrun.pairwise (fun e he => ?_) KeepsDeleted.trans,
    fun e he pk hlabel hok => (hunit e he pk hlabel hok).2⟩
  cases hok : e.ok with
  | true =>
      exact (accounting_books hcalls hrun e he).keepsDeleted fun pk hlabel =>
        (hunit e he pk hlabel hok).1
  | false =>
      rw [(hrun.failed e he hok).1]
      exact fun pk r hr hdeleted => ⟨r, hr, hdeleted⟩

/-- Two sweeps, long after the remote owner should have answered. -/
def silence : Bool → Env × Call
  | false => (deploymentOn 100, .sweepDeletionDeadlines)
  | true => (deploymentOn 101, .sweepDeletionDeadlines)

def silenceRun : List (Pool.Event Bool Op Db) × Pool Op Db Error Unit Bool × Db :=
  Pool.schedule [false, true, false, true, false, true, false] (accounting silence) erasing

theorem timeouts_earned_silence : (Pool.stores erasing silenceRun.1).Pairwise KeepsDeleted ∧
    ∀ e ∈ silenceRun.1, ∀ pk, e.label = .timeoutUnit pk → e.ok = true → Earned pk e := by
  have hrun : Pool.Runs (fun _ _ => False) (accounting silence) erasing silenceRun.1
      silenceRun.2.1 silenceRun.2.2 := Pool.runs_schedule _ _ _ _
  refine timeouts_earned (by decide) hrun fun pre r mid e post pk hlist _ _ _ _ d hd _ => ?_
  -- there is nobody to meddle
  have hlabels : ∀ d ∈ silenceRun.1, d.label ∈ [Op.select, .sweepParts, .timeoutUnit 0] := by
    decide +kernel
  have hlabel := hlabels d (by rw [hlist]; simp [hd])
  intro hmeddles
  generalize d.label = op at hlabel hmeddles
  simp only [List.mem_cons, List.not_mem_nil, or_false] at hlabel
  rcases hlabel with rfl | rfl | rfl <;> exact hmeddles

/-- A sweep, and the answer of the remote owner. -/
def answer : Bool → Env × Call
  | false => (deploymentOn 100, .sweepDeletionDeadlines)
  | true => (deploymentOn 100, .markSectionErased 0 "media" "job-7" [])

/-- The answer arrives between the read of the requests and the unit of the request. -/
def answered : List (Pool.Event Bool Op Db) × Pool Op Db Error Unit Bool × Db :=
  Pool.schedule (List.replicate 3 false ++ List.replicate 9 true ++ [false]) (accounting answer)
    erasing

/-- Its stores. -/
def answeredStore (n : Nat) : Db := (Pool.stores erasing answered.1).getD n erasing

/-- The erasure is complete, and certified, and says that it timed out. -/
theorem deleted_timed_out : ¬ ∀ (calls : Bool → Env × Call) (start db : Db)
    (tr : List (Pool.Event Bool Op Db)) (P : Pool Op Db Error Unit Bool),
    (∀ k, (calls k).2.accounts = true) →
    Pool.Runs (fun _ _ => True) (accounting calls) start tr P db →
    (Pool.stores start tr).Pairwise KeepsDeleted ∧
      ∀ e ∈ tr, ∀ pk, e.label = .timeoutUnit pk → e.ok = true → Earned pk e := by
  intro hclaim
  have hrun : Pool.Runs (fun _ _ => True) (accounting answer) erasing answered.1 answered.2.1
      answered.2.2 := Pool.runs_schedule _ _ _ _
  have hall := (hclaim answer erasing _ _ _ (by decide) hrun).1
  have hkeeps : KeepsDeleted (answeredStore 12) (answeredStore 13) :=
    Pool.getD_stores hall erasing (by decide) (by decide +kernel)
  have hbefore : ((answeredStore 12).requests.get? 0).map (·.state) = some .deleted := by
    decide +kernel
  have hafter : ((answeredStore 13).requests.get? 0).map (·.state) = some .timeout := by
    decide +kernel
  obtain ⟨r, hr, hdeleted⟩ := Option.map_eq_some_iff.mp hbefore
  obtain ⟨r', hr', hstill⟩ := hkeeps 0 r hr hdeleted
  rw [hr', Option.map_some, hstill] at hafter
  exact absurd hafter (by decide)

end StapelGdpr
