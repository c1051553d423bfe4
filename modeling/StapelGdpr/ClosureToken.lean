import StapelGdpr.Tasks

/-!
# StapelGdpr.ClosureToken

The capability the 202 of a closure hands back (`closure_token.py`), and the one endpoint
that changes something with it: `POST user/account/cancel-close` (`views.py`).

`django.core.signing` and the text form of a moment are taken as they are documented: `Wire`
has their functions, and what the module relies on is said of them where it is used.
-/

namespace StapelGdpr

/-! ### The token -/

/-- The dict `make_closure_token` signs. -/
structure ClosureClaims where
  cid : Nat
  sub : String
  exp : String
  deriving DecidableEq, Repr

/-- What a signed text can carry: that dict, or a value without the three keys. -/
inductive Signed
  | claims (claims : ClosureClaims)
  | other (text : String)
  deriving DecidableEq, Repr

/-- A `datetime` as `fromisoformat` reads it. -/
inductive Stamp
  | aware (moment : Time)
  | naive (clock : Int)
  deriving DecidableEq, Repr

/-- `signing.dumps` and `signing.loads` under the salt of this module, `isoformat` and
`fromisoformat`, and `make_aware` in the default zone. -/
structure Wire where
  dumps : Signed → String
  loads : String → Option Signed
  isoformat : Time → String
  fromisoformat : String → Option Stamp
  makeAware : Int → Time

/-- `make_closure_token`. -/
def makeClosureToken (wire : Wire) (closure : Stored AccountClosureRequest) : String :=
  wire.dumps (.claims {
    cid := closure.pk, sub := closure.row.userId, exp := wire.isoformat closure.row.graceEndsAt })

inductive TokenError
  | expired
  | invalid
  deriving DecidableEq, Repr

/-- `read_closure_token`. -/
def readClosureToken (wire : Wire) (now : Time) (raw : String) :
    Except TokenError ClosureClaims :=
  if raw = "" then .error .invalid
  else match wire.loads raw with
    | none => .error .invalid
    | some (.other _) => .error .invalid
    | some (.claims claims) =>
        match wire.fromisoformat claims.exp with
        | none => .error .invalid
        | some stamp =>
            let expiresAt := match stamp with
              | .aware moment => moment
              | .naive clock => wire.makeAware clock
            if now > expiresAt then .error .expired else .ok claims

/-! ### Who may enter without one -/

/-- `access_state`: what the closures say of an account. -/
inductive AccessState
  | active
  | closing
  | deleting
  | deleted
  deriving DecidableEq, Repr

/-- Has the user a closure in this status? -/
def Ledger.hasClosure (l : Ledger) (userId : UserId) (status : ClosureStatus) : Bool :=
  l.closures.any fun c => c.userId = userId && c.status = status

/-- `access_state`. -/
def Ledger.accessState (l : Ledger) (userId : UserId) : AccessState :=
  if l.hasClosure userId .deleted then .deleted
  else if l.hasClosure userId .deleting then .deleting
  else if l.hasClosure userId .grace then .closing
  else .active

/-- `is_access_denied`. -/
def Ledger.isAccessDenied (l : Ledger) (userId : UserId) : Bool :=
  l.accessState userId = .deleting || l.accessState userId = .deleted

/-! ### `POST user/account/cancel-close` -/

/-- What the view answers. -/
inductive CancelAnswer
  | ok (closure : Stored AccountClosureRequest)
  | closureTokenExpired
  | closureTokenInvalid
  | closureTokenScope
  | unauthorized
  | accountClosed
  | noActiveClosure
  deriving DecidableEq, Repr

/-- A request: the `X-Closure-Token` header (empty when absent) and the session. -/
structure CancelPost where
  token : String := ""
  user : Option UserId := none
  deriving DecidableEq, Repr

/-- `order_by("-initiated_at", "-pk")`. -/
def newerFirst (c c' : Stored AccountClosureRequest) : Prop :=
  c'.row.initiatedAt < c.row.initiatedAt ∨
    (c'.row.initiatedAt = c.row.initiatedAt ∧ c'.pk ≤ c.pk)

instance : DecidableRel newerFirst := fun _ _ => inferInstanceAs (Decidable (_ ∨ _))

/-- The closures of a user, newest first. -/
def Ledger.closuresOf (l : Ledger) (userId : UserId) : List (Stored AccountClosureRequest) :=
  (l.closures.select (·.userId = userId)).insertionSort newerFirst

/-- `_closure_from_token` from the lookup on: the closure the claims name, unless a newer one
of the same user has superseded it. -/
def namedClosure (cid : Nat) (subject : UserId) :
    Program (Except CancelAnswer (Option (Stored AccountClosureRequest))) := do
  let found ← Program.select fun db => (db.closures.get? cid).filter fun c => c.userId = subject
  match found with
  | none => return .error .closureTokenScope
  | some row => do
      let newest ← Program.select fun db => (db.closuresOf row.userId).head?
      if newest.any (·.pk ≠ cid) = true then return .error .closureTokenScope
      else return .ok (some ⟨cid, row⟩)

/-- `_closure_from_token`: a closure, nothing, or the answer that refuses the token. -/
def closureFromToken (env : Env) (wire : Wire) (raw : String) :
    Program (Except CancelAnswer (Option (Stored AccountClosureRequest))) :=
  if raw = "" then return .ok none
  else match readClosureToken wire env.now raw with
    | .error .expired => return .error .closureTokenExpired
    | .error .invalid => return .error .closureTokenInvalid
    | .ok claims =>
        match env.host.parseUuid claims.sub with
        | none => Prog.raise .validationError
        | some subject => namedClosure claims.cid subject

/-- `_closure_subject`. -/
def closureSubject (user : Option UserId) : Program (Except CancelAnswer UserId) :=
  match user with
  | none => return .error .unauthorized
  | some userId => do
      let denied ← Program.select (·.isAccessDenied userId)
      if denied then return .error .accountClosed else return .ok userId

/-- The cancellation of the view: a `ValueError` is its 404. -/
def answerCancel (env : Env) (userId : UserId) : Program CancelAnswer :=
  let body : Program CancelAnswer := do
    let closure ← cancelClosure env userId
    return .ok closure
  body.tryCatch fun e =>
    match e with
    | .valueError _ => return .noActiveClosure
    | e => Prog.raise e

/-- `AccountCancelCloseView.post`. -/
def postCancelClose (env : Env) (wire : Wire) (post : CancelPost) : Program CancelAnswer := do
  let presented ← closureFromToken env wire post.token
  match presented with
  | .error answer => return answer
  | .ok (some closure) => answerCancel env closure.row.userId
  | .ok none => do
      let subject ← closureSubject post.user
      match subject with
      | .error answer => return answer
      | .ok userId => answerCancel env userId

end StapelGdpr
