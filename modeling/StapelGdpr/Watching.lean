import StapelGdpr.ClosureToken
import StapelGdpr.Concurrent

/-!
# StapelGdpr.Watching

Who may open an erasure and who may watch one (`guards.py`), and the three endpoints that ask
(`views.py`).

Whether a caller may see a row is decided by columns nobody writes again, so it is settled the
moment the row is opened (`opener_watches`), and the answers depend on nothing but the rows a
caller may see (`erasures_noninterference`).
-/

namespace StapelGdpr

open Prog

/-! ### The guards -/

/-- `request.user` of an authenticated request. -/
structure Caller where
  pk : UserId
  isStaff : Bool := false
  deriving DecidableEq, Repr

/-- What `ERASURE_AUTHORIZER` names: nothing, something that cannot be imported, or the
predicate of the host, which may raise. -/
inductive ErasureAuthorizer
  | unset
  | unimportable (dotted : String)
  | callable (dotted : String) (owns : Option Caller → String → String → Option Bool)

variable {authorizer : ErasureAuthorizer} {user : Option Caller} {caller other : Caller}

/-- `erasure_authorized`. -/
def erasureAuthorized (authorizer : ErasureAuthorizer) (user : Option Caller)
    (subjectType subjectKey : String) : Bool :=
  match authorizer with
  | .unset => user.any (·.isStaff)
  | .unimportable _ => false
  | .callable _ owns => (owns user subjectType subjectKey).getD false

/-- `erasure_visible`. -/
def erasureVisible (authorizer : ErasureAuthorizer) (user : Option Caller)
    (erasure : ErasureRequest) : Bool :=
  match user with
  | none => false
  | some caller => erasure.requestedBy = some caller.pk ||
      erasureAuthorized authorizer user erasure.subjectType erasure.subjectKey

/-- The default order of `ErasureRequest`: `-requested_at`. -/
def laterFirst (r r' : Stored ErasureRequest) : Prop := r'.row.requestedAt ≤ r.row.requestedAt

instance : DecidableRel laterFirst := fun _ _ => inferInstanceAs (Decidable (_ ≤ _))

/-- `own_erasures`. -/
def ownErasures (l : Ledger) (user : Option Caller) : List (Stored ErasureRequest) :=
  match user with
  | none => []
  | some caller =>
      (l.requests.select fun r => r.requestedBy = some caller.pk).insertionSort laterFirst

/-! ### What an answer shows -/

/-- `ErasurePartDTO`. -/
structure ErasurePartDto where
  owner : String
  state : PartState
  receiptAt : Option Time
  receiptId : String
  counts : Counts
  unanswered : Bool
  deriving DecidableEq, Repr

/-- `SubprocessorObligationDTO`. -/
structure SubprocessorObligationDto where
  provider : String
  windowDays : Int
  dueAt : Time
  state : ObligationState
  deriving DecidableEq, Repr

/-- `ErasureStatusDTO`. -/
structure ErasureStatusDto where
  requestId : Nat
  subjectType : String
  subjectKey : String
  workspaceId : Option String
  state : ErasureState
  outcome : Outcome
  origin : ErasureOrigin
  requestedAt : Time
  dueAt : Time
  fullyErasedBy : Time
  completedAt : Option Time
  graceEndsAt : Option Time
  parts : List ErasurePartDto
  obligations : List SubprocessorObligationDto
  unreceiptedOwners : List String
  unansweredOwners : List String
  deriving DecidableEq, Repr

/-- `ErasurePart.unanswered`. -/
def ErasurePart.unanswered (part : ErasurePart) : Bool :=
  part.receiptAt = none && (part.state = .pending || part.state = .timeout)

def erasurePartDto (part : ErasurePart) : ErasurePartDto where
  owner := part.owner
  state := part.state
  receiptAt := part.receiptAt
  receiptId := part.receiptId
  counts := part.counts
  unanswered := part.unanswered

def obligationDto (obligation : SubprocessorObligation) : SubprocessorObligationDto where
  provider := obligation.provider
  windowDays := obligation.windowDays
  dueAt := obligation.dueAt
  state := obligation.state

/-- `request.parts.all()`. -/
def Ledger.partRows (l : Ledger) (request : Nat) : List ErasurePart :=
  (l.parts.select (·.request = request)).map (·.row)

/-- `request.obligations.all()`, in key order. -/
def Ledger.obligationRows (l : Ledger) (request : Nat) : List SubprocessorObligation :=
  (l.obligations.select (·.request = request)).map (·.row)

/-- The default order of `SubprocessorObligation`: `provider`. -/
def byProvider (o o' : SubprocessorObligation) : Prop := o.provider ≤ o'.provider

instance : DecidableRel byProvider := fun _ _ => inferInstanceAs (Decidable (_ ≤ _))

/-- `_erasure_dto`. -/
def erasureDto (l : Ledger) (request : Stored ErasureRequest) : ErasureStatusDto where
  requestId := request.pk
  subjectType := request.row.subjectType
  subjectKey := request.row.subjectKey
  workspaceId := request.row.workspaceId
  state := request.row.state
  outcome := l.outcome request
  origin := request.row.origin
  requestedAt := request.row.requestedAt
  dueAt := request.row.dueAt
  fullyErasedBy := l.fullyErasedBy request
  completedAt := request.row.completedAt
  graceEndsAt := request.row.graceEndsAt
  parts := (l.partRows request.pk).map erasurePartDto
  obligations := ((l.obligationRows request.pk).insertionSort byProvider).map obligationDto
  unreceiptedOwners := l.unreceiptedOwners request.pk
  unansweredOwners := l.unansweredOwners request.pk

/-! ### The endpoints -/

/-- The answers of a view behind `IsAuthenticated` and `AccountNotClosed`. -/
inductive ReadAnswer (β : Type)
  | unauthorized
  | accountClosed
  | notFound
  | ok (body : β)
  deriving DecidableEq, Repr

/-- `AccountNotClosed.has_permission`. -/
def accountNotClosed (l : Ledger) (user : Option Caller) : Bool :=
  match user with
  | none => true
  | some caller => !l.isAccessDenied caller.pk

/-- `permission_classes = [IsAuthenticated, AccountNotClosed]`, in front of a view. -/
def guarded {β : Type} (l : Ledger) (user : Option Caller) (view : ReadAnswer β) : ReadAnswer β :=
  if user = none then .unauthorized
  else if accountNotClosed l user then view
  else .accountClosed

/-- `ErasureStatusView.get`. -/
def erasureStatus (authorizer : ErasureAuthorizer) (user : Option Caller) (l : Ledger)
    (requestId : Nat) : ReadAnswer ErasureStatusDto :=
  guarded l user <|
    match l.requests.get? requestId with
    | none => .notFound
    | some erasure =>
        if erasureVisible authorizer user erasure then .ok (erasureDto l ⟨requestId, erasure⟩)
        else .notFound

/-- `MyErasuresView.get`. -/
def myErasures (user : Option Caller) (l : Ledger) : ReadAnswer (List ErasureStatusDto) :=
  guarded l user (.ok ((ownErasures l user).map (erasureDto l)))

/-- `ErasureRequestView`: its permission classes, and `post` behind them. -/
def erasureRequestView (env : Env) (authorizer : ErasureAuthorizer) (user : Option Caller)
    (post : ErasurePost) : Program (ReadAnswer ErasureAnswer) :=
  match user with
  | none => return .unauthorized
  | some caller => do
      let letIn ← Program.select fun db => accountNotClosed db.toLedger (some caller)
      if letIn then
        let answer ← postErasure env caller.pk (erasureAuthorized authorizer (some caller)) post
        return .ok answer
      else return .accountClosed

/-! ### Visibility is decided at the opening -/

theorem visible_of_own {r : ErasureRequest} (h : r.requestedBy = some caller.pk) :
    erasureVisible authorizer (some caller) r = true := by
  simp [erasureVisible, h]

theorem guarded_open {β : Type} {l : Ledger} {view : ReadAnswer β}
    (h : l.isAccessDenied caller.pk = false) : guarded l (some caller) view = view := by
  simp [guarded, accountNotClosed, h]

/-- The row under a number, as far as the caller may see it. -/
def Ledger.visibleRow (l : Ledger) (authorizer : ErasureAuthorizer) (user : Option Caller)
    (pk : Nat) : Option ErasureRequest :=
  (l.requests.get? pk).filter (erasureVisible authorizer user)

/-- A row the caller may not see is answered like one that is not there. -/
theorem erasureStatus_eq (authorizer : ErasureAuthorizer) (user : Option Caller) (l : Ledger)
    (pk : Nat) : erasureStatus authorizer user l pk =
    guarded l user ((l.visibleRow authorizer user pk).elim .notFound fun r =>
      .ok (erasureDto l ⟨pk, r⟩)) := by
  unfold erasureStatus Ledger.visibleRow
  cases l.requests.get? pk with
  | none => rfl
  | some r =>
      by_cases hv : erasureVisible authorizer user r = true
      · simp [Option.filter, hv]
      · simp [Option.filter, hv]

theorem visibleRow_some {l : Ledger} {pk : Nat} {r : ErasureRequest}
    (hr : l.requests.get? pk = some r) (hv : erasureVisible authorizer user r = true) :
    l.visibleRow authorizer user pk = some r :=
  Option.filter_eq_some_iff.mpr ⟨hr, hv⟩

theorem visibleRow_none {l : Ledger} {pk : Nat} {r : ErasureRequest}
    (hr : l.requests.get? pk = some r) (hv : erasureVisible authorizer user r = false) :
    l.visibleRow authorizer user pk = none := by
  simp [Ledger.visibleRow, hr, hv]

theorem mem_ownErasures {l : Ledger} {o : Stored ErasureRequest} :
    o ∈ ownErasures l (some caller) ↔
      l.requests.get? o.pk = some o.row ∧ o.row.requestedBy = some caller.pk := by
  show o ∈ List.insertionSort laterFirst _ ↔ _
  rw [List.mem_insertionSort, Table.mem_select, decide_eq_true_eq]

/-- The erasure a POST of `owner` was accepted with: who asked, for what, and when. -/
structure Accepted (env : Env) (owner : UserId) (post : ErasurePost) (s s' : Db)
    (e : Stored ErasureRequest) : Prop where
  fresh : e.pk = s.requests.nextPk
  row : s'.requests.get? e.pk = some e.row
  subjectType : e.row.subjectType = strip post.subjectType
  subjectKey : e.row.subjectKey = strip post.subjectKey
  requestedBy : e.row.requestedBy = some owner
  requestedAt : e.row.requestedAt = env.now
  dueAt : e.row.dueAt = env.now + days env.settings.slaDays

section Post

variable {env : Env} {owner : UserId} {authorized : String → String → Bool} {post : ErasurePost}
  {s s' : Db} {e : Stored ErasureRequest}

/-- What a POST returns as accepted it has opened, and it was authorized. -/
theorem postErasure_ends (env : Env) (owner : UserId) (authorized : String → String → Bool)
    (post : ErasurePost) (s : Db) : Ends
    (fun answer s' => ∀ e, answer = .accepted e → Accepted env owner post s s' e ∧
      authorized (strip post.subjectType) (strip post.subjectKey) = true)
    (fun _ _ => True) (postErasure env owner authorized post) s := by
  unfold postErasure
  dsimp only
  split
  · exact does_ret.mpr fun e h => nomatch h
  · split
    · exact does_ret.mpr fun e h => nomatch h
    · rename_i hauth
      refine Does.tryCatch (X := fun _ _ => True) (Does.bind (P := fun e s' =>
        Accepted env owner post s s' e) ?_ fun e s' h => ?_) fun error s' _ => ?_
      · unfold requestErasure
        split
        · exact does_raise.mpr trivial
        · rw [if_pos rfl]
          refine Does.tryCatch (X := fun _ _ => True) (ends_atomic.mpr ?_) fun error s' _ => ?_
          · cases hopen : s.openErasure env (strip post.subjectType) (strip post.subjectKey) _ with
            | error error => exact trivial
            | ok out =>
                obtain ⟨by', hby, hout, -, -, hdb⟩ := openErasure_ok hopen
                have hrow : out.1.row = _ := congrArg Stored.row hout
                have hpk : out.1.pk = _ := congrArg Stored.pk hout
                dsimp only
                refine ⟨hpk, ?_, by rw [hrow]; rfl, by rw [hrow]; rfl, ?_, by rw [hrow]; rfl,
                  by rw [hrow]; rfl⟩
                · rw [hdb, hpk]
                  exact Table.get?_insert_nextPk _ _
                · rw [hrow]
                  exact (Option.some.inj hby).symm
          · rw [if_neg fun h => h.2 rfl]
            exact does_raise.mpr trivial
      · refine does_ret.mpr fun e' h' => ?_
        obtain rfl := ErasureAnswer.accepted.inj h'
        exact ⟨h, by simpa using hauth⟩
      · split
        · refine does_ret.mpr fun e h => ?_
          split at h <;> cases h
        · exact does_raise.mpr trivial

theorem postErasure_accepted
    (h : (postErasure env owner authorized post).run s = (.ok (.accepted e), s')) :
    Accepted env owner post s s' e ∧
      authorized (strip post.subjectType) (strip post.subjectKey) = true := by
  have hends := ends_iff_run.mp (postErasure_ends env owner authorized post s)
  rw [h] at hends
  exact hends e rfl

end Post

variable {s s' t : Db} {pk : Nat} {e : Stored ErasureRequest}

/-- **Who opened it can watch it, and nobody else without authority.** A POST that is accepted
opens a row under a fresh number. From then on, whatever jobs run beside each other, fail and
die, its opener is answered with the erasure it asked for, by its number and in its own list,
unless the account itself is being erased; and a caller whom the host would not have let open it
is answered as if there were no such number, and does not find it in its list. -/
theorem opener_watches {env : Env} {post : ErasurePost}
    (h : (postErasure env caller.pk (erasureAuthorized authorizer (some caller)) post).run s =
      (.ok (.accepted e), s')) (ht : Concurrently s' t) :
    s.requests.get? e.pk = none ∧
    (t.isAccessDenied caller.pk = false → ∃ dto,
      erasureStatus authorizer (some caller) t.toLedger e.pk = .ok dto ∧
      dto.requestId = e.pk ∧ dto.subjectType = strip post.subjectType ∧
      dto.subjectKey = strip post.subjectKey ∧ dto.requestedAt = env.now ∧
      dto.dueAt = env.now + days env.settings.slaDays ∧
      ∃ own, myErasures (some caller) t.toLedger = .ok own ∧ dto ∈ own) ∧
    ∀ other : Caller, other.pk ≠ caller.pk →
      erasureAuthorized authorizer (some other) (strip post.subjectType)
        (strip post.subjectKey) = false →
      t.isAccessDenied other.pk = false →
        erasureStatus authorizer (some other) t.toLedger e.pk = .notFound ∧
        ∃ own, myErasures (some other) t.toLedger = .ok own ∧
          ∀ dto ∈ own, dto.requestId ≠ e.pk := by
  obtain ⟨hnew, -⟩ := postErasure_accepted h
  obtain ⟨r, hr, hkept⟩ := ht.persists.requests.kept hnew.row
  have hby : r.requestedBy = some caller.pk := by rw [hkept.columns, ← hnew.requestedBy]
  have htype : r.subjectType = strip post.subjectType := hkept.subjectType.trans hnew.subjectType
  have hkey : r.subjectKey = strip post.subjectKey := by rw [hkept.columns, ← hnew.subjectKey]
  refine ⟨hnew.fresh ▸ Table.get?_nextPk _, fun hin => ?_, fun other hne hauth hin => ?_⟩
  · have hstatus := erasureStatus_eq authorizer (some caller) t.toLedger e.pk
    rw [guarded_open hin, visibleRow_some hr (visible_of_own hby), Option.elim_some] at hstatus
    refine ⟨_, hstatus, rfl, htype, hkey, ?_, ?_, _, guarded_open hin,
      List.mem_map_of_mem (mem_ownErasures.mpr ⟨hr, hby⟩)⟩
    · show r.requestedAt = _
      rw [hkept.columns, ← hnew.requestedAt]
    · show r.dueAt = _
      rw [hkept.columns, ← hnew.dueAt]
  · have hother : r.requestedBy ≠ some other.pk := fun h =>
      hne (Option.some.inj (h.symm.trans hby))
    have hhidden : erasureVisible authorizer (some other) r = false := by
      rw [← htype, ← hkey] at hauth
      simp [erasureVisible, hother, hauth]
    refine ⟨?_, _, guarded_open hin, fun dto hdto heq => ?_⟩
    · rw [erasureStatus_eq, guarded_open hin, visibleRow_none hr hhidden]
      rfl
    · obtain ⟨o, ho, rfl⟩ := List.mem_map.mp hdto
      obtain ⟨hget, hown⟩ := mem_ownErasures.mp ho
      rw [show o.pk = e.pk from heq, hr] at hget
      exact hother (Option.some.inj hget ▸ hown)

/-- A host that lets one user erase documents. -/
def owning : ErasureAuthorizer :=
  .callable "app.owns" fun user subjectType _ =>
    some (user.any (·.pk = "u1") && subjectType = "document")

/-- That user asked. -/
def askedFor : Except Error ErasureAnswer × Db :=
  (postErasure documents "u1" (erasureAuthorized owning (some { pk := "u1" }))
    { subjectType := " document", subjectKey := "d1" }).run {}

/-- Another one is told of no such erasure after the sweep of day 30. -/
theorem opener_watches_asked : ∃ e, askedFor.1 = .ok (.accepted e) ∧
    erasureStatus owning (some { pk := "u2" })
      (((Job.call .sweepDeletionDeadlines).prog (deploymentOn 30)).run askedFor.2).2.toLedger e.pk =
        .notFound := by
  have hok : askedFor.1 = .ok (.accepted ⟨0, {
      subjectType := "document", subjectKey := "d1", requestedBy := some "u1", requestedAt := 0
      dueAt := days 30, state := .erasing, correlationId := some 0 }⟩) := by decide +kernel
  have hrun : (postErasure documents (Caller.mk "u1" false).pk
      (erasureAuthorized owning (some (Caller.mk "u1" false)))
      { subjectType := " document", subjectKey := "d1" }).run {} = (.ok (.accepted _), askedFor.2) :=
    Prod.ext hok rfl
  have hwatch := opener_watches hrun
    (.single (.run (.call .sweepDeletionDeadlines) (deploymentOn 30) trivial))
  exact ⟨_, hok, (hwatch.2.2 { pk := "u2" } (by decide) (by decide +kernel)
    (by decide +kernel)).1⟩

/-! ### Nothing else shows -/

/-- Two ledgers that differ in nothing the caller may see: not in whether its account is being
erased, nor in the rows it may see, their receipts and their obligations. -/
structure SameFor (authorizer : ErasureAuthorizer) (user : Option Caller) (l l' : Ledger) :
    Prop where
  denied : ∀ caller, user = some caller →
    l.isAccessDenied caller.pk = l'.isAccessDenied caller.pk
  rows : ∀ pk, l.visibleRow authorizer user pk = l'.visibleRow authorizer user pk
  parts : ∀ pk r, l.visibleRow authorizer user pk = some r → l.partRows pk = l'.partRows pk
  obligations : ∀ pk r, l.visibleRow authorizer user pk = some r →
    l.obligationRows pk = l'.obligationRows pk

/-- The owners of the parts of a request that satisfy a condition. -/
theorem owners_partRows (l : Ledger) (request : Nat) (p : ErasurePart → Bool) :
    (l.parts.select fun part => part.request = request && p part).map (·.row.owner) =
      ((l.partRows request).filter p).map (·.owner) := by
  have hmap : ∀ q : ErasurePart → Bool, (l.parts.select q).map (·.row.owner) =
      ((l.parts.select q).map (·.row)).map (·.owner) := by
    intro q
    rw [List.map_map]
    rfl
  rw [hmap, Ledger.partRows, Table.map_row_select, Table.map_row_select, List.filter_filter]
  congr 2
  funext part
  rw [Bool.and_comm]

theorem erasureDto_congr {l l' : Ledger} (request : Stored ErasureRequest)
    (hparts : l.partRows request.pk = l'.partRows request.pk)
    (hobligations : l.obligationRows request.pk = l'.obligationRows request.pk) :
    erasureDto l request = erasureDto l' request := by
  have hunreceipted : l.unreceiptedOwners request.pk = l'.unreceiptedOwners request.pk := by
    unfold Ledger.unreceiptedOwners Ledger.openParts
    rw [owners_partRows, owners_partRows, hparts]
  have hunanswered : l.unansweredOwners request.pk = l'.unansweredOwners request.pk := by
    unfold Ledger.unansweredOwners
    simp only [Bool.and_assoc]
    rw [owners_partRows, owners_partRows, hparts]
  have hdue : l.fullyErasedBy request = l'.fullyErasedBy request := by
    have hfold : ∀ l : Ledger, l.fullyErasedBy request = (l.obligationRows request.pk).foldl
        (fun latest o => max latest o.dueAt) request.row.dueAt := by
      intro l
      rw [Ledger.obligationRows, List.foldl_map]
      rfl
    rw [hfold, hfold, hobligations]
  have houtcome : l.outcome request = l'.outcome request := by
    unfold Ledger.outcome
    rw [hunreceipted]
  unfold erasureDto
  rw [hparts, hobligations, hunreceipted, hunanswered, hdue, houtcome]

theorem SameFor.own {l l' : Ledger} (h : SameFor authorizer (some caller) l l') :
    ownErasures l (some caller) = ownErasures l' (some caller) := by
  have hsame : (l.requests.select fun r => r.requestedBy = some caller.pk) =
      l'.requests.select fun r => r.requestedBy = some caller.pk := by
    refine Table.select_congr fun pk => ?_
    -- what the caller opened it may see
    have hfilter : ∀ l : Ledger,
        (l.requests.get? pk).filter (fun r => r.requestedBy = some caller.pk) =
          (l.visibleRow authorizer (some caller) pk).filter
            fun r => r.requestedBy = some caller.pk := by
      intro l
      rw [Ledger.visibleRow, Option.filter_filter]
      congr 1
      funext r
      by_cases hown : r.requestedBy = some caller.pk
      · simp [hown, visible_of_own hown]
      · simp [hown]
    rw [hfilter, hfilter, h.rows]
  exact congrArg (List.insertionSort laterFirst) hsame

/-- **The endpoints show nothing else.** Two stores that agree on what a caller may see (on
whether its account is being erased, on the visible rows, their receipts and obligations) give it
the same answers, for every number it asks for and for its own list, however much they differ
otherwise: so no answer tells an erasure of somebody else from a number that was never given
out. -/
theorem erasures_noninterference {l l' : Ledger} (h : SameFor authorizer user l l') :
    (∀ pk, erasureStatus authorizer user l pk = erasureStatus authorizer user l' pk) ∧
      myErasures user l = myErasures user l' := by
  cases user with
  | none => exact ⟨fun _ => rfl, rfl⟩
  | some caller =>
      -- behind the gate both stores are read; in front of it neither is
      have hguard : ∀ {β : Type} {view view' : ReadAnswer β}, view = view' →
          guarded l (some caller) view = guarded l' (some caller) view' := by
        intro β view view' hview
        have hgate : accountNotClosed l (some caller) = accountNotClosed l' (some caller) :=
          congrArg (!·) (h.denied caller rfl)
        rw [guarded, guarded, hgate, hview]
      constructor
      · intro pk
        rw [erasureStatus_eq, erasureStatus_eq, ← h.rows]
        refine hguard ?_
        cases hrow : l.visibleRow authorizer (some caller) pk with
        | none => rfl
        | some r =>
            rw [Option.elim_some, Option.elim_some,
              erasureDto_congr ⟨pk, r⟩ (h.parts pk r hrow) (h.obligations pk r hrow)]
      · refine hguard (congrArg ReadAnswer.ok ?_)
        rw [← h.own]
        refine List.map_congr_left fun o ho => ?_
        obtain ⟨hget, hown⟩ := mem_ownErasures.mp ho
        have hvisible : erasureVisible authorizer (some caller) o.row = true := visible_of_own hown
        have hrow := visibleRow_some hget hvisible
        exact erasureDto_congr o (h.parts o.pk o.row hrow) (h.obligations o.pk o.row hrow)

/-- For that user a store with somebody else's erasure in it is the empty one. -/
theorem erasures_noninterference_asked :
    erasureStatus owning (some { pk := "u2" }) askedFor.2.toLedger 0 =
      erasureStatus owning (some { pk := "u2" }) {} 0 := by
  have hno : ∀ pk, askedFor.2.toLedger.visibleRow owning (some { pk := "u2" }) pk = none := by
    intro pk
    have hone : askedFor.2.requests.nextPk = 1 := by decide +kernel
    rcases Nat.eq_zero_or_pos pk with hzero | hpos
    · rw [hzero]
      decide +kernel
    · rw [Ledger.visibleRow, Table.get?_eq_none (hone ▸ hpos)]
      rfl
  have hsame : SameFor owning (some { pk := "u2" }) askedFor.2.toLedger {} := by
    refine ⟨fun other hother => ?_, fun pk => by rw [hno]; rfl, fun pk r hrow => ?_,
      fun pk r hrow => ?_⟩
    · obtain rfl := Option.some.inj hother
      decide +kernel
    · exact absurd hrow (by simp [hno])
    · exact absurd hrow (by simp [hno])
  exact (erasures_noninterference hsame).1 0

end StapelGdpr
