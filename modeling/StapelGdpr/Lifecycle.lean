import StapelGdpr.Store

/-!
# StapelGdpr.Lifecycle

The account lifecycle seam (`lifecycle.py`) and the re-registration memory
(`reregistration.py`): what a closure does to the user row.

`setActive` and `revokeSessions` are parts of the orchestrator's own units, so they act on
a `Db`; `eraseIdentity` and `storeHashes` are sequences of statements, so they are
programs.
-/

namespace StapelGdpr

/-! ### Activation and sessions -/

/-- `set_active`: through the row, and `false` when nothing changed. -/
def Db.setActive (db : Db) (userId : UserId) (active : Bool) : Bool × Db :=
  match db.user userId with
  | none => (false, db)
  | some user =>
      if user.isActive = active then (false, db)
      else (true, { db with
        users := db.users.map fun u => if u.id = userId then { u with isActive := active } else u })

/-- `revoke_sessions` inside a unit. The revoker itself works on rows of another module;
what is left here is its refusal and its announcement. -/
def Db.revokeSessions (db : Db) (env : Env) (userId : UserId) :
    Except Error (RevocationSeam × Db) :=
  if env.revocation = .none ∧ env.settings.allowClosureWithoutSessionRevocation = false then
    .error .sessionRevocationUnavailable
  else .ok (env.revocation, db.emit [.sessionsRevoked userId "gdpr_closure"])

/-- `setActive` writes user rows and nothing else. -/
theorem setActive_eq (db : Db) (userId : UserId) (active : Bool) :
    (db.setActive userId active).2 =
      { db with users := (db.setActive userId active).2.users } := by
  unfold Db.setActive
  cases db.user userId with
  | none => rfl
  | some user =>
      dsimp only
      split <;> rfl

theorem revokeSessions_ok {db db' : Db} {env : Env} {userId : UserId} {seam : RevocationSeam}
    (h : db.revokeSessions env userId = .ok (seam, db')) :
    db' = db.emit [.sessionsRevoked userId "gdpr_closure"] := by
  unfold Db.revokeSessions at h
  split at h
  · exact absurd h (by simp)
  · exact (Prod.mk.inj (Except.ok.inj h)).2.symm

/-! ### Erasing the primary identity -/

/-- The setting, as it is printed. -/
def IdentityErasure.strategy : IdentityErasure → String
  | .anonymize => "anonymize"
  | .delete => "delete"
  | .custom dotted _ => dotted

/-- What the strategy leaves of the row. -/
def IdentityErasure.leaves (host : Host) : IdentityErasure → User → Option User
  | .anonymize, user => some (host.anonymizeIdentity user)
  | .delete, _ => none
  | .custom _ erase, user => erase user

/-- `_identity_snapshot`: the identifying fields with a truthy value. -/
def identitySnapshot (env : Env) (user : User) : List (String × String) :=
  env.host.identifyingFields.filterMap fun name =>
    match user.attr name with
    | some value => if value = "" then none else some (name, value)
    | none => none

/-- The names of `before` whose value is still on the row. -/
def survivedFields (before : List (String × String)) (after : User) : List String :=
  (before.filter fun f => after.attr f.1 = some f.2).map Prod.fst

/-- `erase_identity`: run the strategy and verify it by reading the row again. -/
def eraseIdentity (env : Env) (userId : UserId) : Program String := do
  let found ← Program.select (·.user userId)
  match found with
  | none => return "already_erased"
  | some user =>
      let before := identitySnapshot env user
      Prog.write (.eraseIdentity userId) fun db => { db with
        users := db.users.filterMap fun u =>
          if u.id = userId then env.identityErasure.leaves env.host u else some u }
      let after ← Program.select (·.user userId)
      let survived := (after.map (survivedFields before)).getD []
      if survived ≠ [] then
        Prog.raise (.runtimeError (s!"primary identity of user {userId} still carries " ++
          s!"{commaJoin survived} after PRIMARY_IDENTITY_ERASURE=" ++
          s!"'{env.identityErasure.strategy}': the account was not erased"))
      else return env.identityErasure.strategy

/-! ### Re-registration memory -/

/-- `RETENTION`: 24 months. -/
def retention : Delta := days 730

def HashType.text : HashType → String
  | .email => "email"
  | .phone => "phone"

/-- `_normalize`. -/
def normalize (host : Host) (hashType : HashType) (value : String) : String :=
  let value := strip value
  match hashType with
  | .email => host.lower value
  | .phone =>
      (if value.startsWith "+" then "+" else "") ++
        String.ofList (value.toList.filter host.isDigit)

/-- `compute_hash`: keyed, purpose-bound, versioned. -/
def computeHash (host : Host) (hashType : HashType) (value : String) : String :=
  host.hmac s!"stapel-gdpr:rereg:v1:{hashType.text}:{normalize host hashType value}"

/-- `_is_tombstone`. -/
def isTombstone (host : Host) (value : String) : Bool :=
  (host.lower (strip value)).endsWith host.tombstoneEmailSuffix

def Db.hasHash (db : Db) (hashType : HashType) (hashValue : String) : Bool :=
  db.hashes.any fun h => h.hashType = hashType && h.hashValue = hashValue

/-- `ReRegistrationHash.objects.get_or_create`: was a row written? -/
def getOrCreateHash (env : Env) (userId : UserId) (hashType : HashType) (value : String) :
    Program Bool := do
  let hashValue := computeHash env.host hashType value
  let existing ← Program.select (·.hasHash hashType hashValue)
  if existing then return false
  else
    let create : Program Bool := Prog.atomic (.storeHash userId) fun db =>
      if db.hasHash hashType hashValue then .error .integrityError
      else .ok (true, { db with hashes := db.hashes ++ [{
        hashType := hashType, hashValue := hashValue, scheme := .hmacV1, userIdWas := userId
        createdAt := env.now, expiresAt := env.now + retention }] })
    create.tryCatch fun e =>
      if e = .integrityError then do
        let raced ← Program.select (·.hasHash hashType hashValue)
        if raced then return false else Prog.raise .integrityError
      else Prog.raise e

/-- `store_hashes`: how many rows were written. -/
def storeHashes (env : Env) (userId : UserId) (email phone : Option String) : Program Nat :=
  [(HashType.email, email), (HashType.phone, phone)].foldlM (fun written f =>
    match f.2 with
    | none => pure written
    | some value =>
        if value = "" ∨ isTombstone env.host value = true then pure written
        else do
          let created ← getOrCreateHash env userId f.1 value
          return written + created.toNat) 0

/-- `_legacy_digest`: what rows from before the scheme column carry. -/
def legacyDigest (host : Host) (hashType : HashType) (value : String) : String :=
  host.saltedSha256 s!"{hashType.text}:{normalize host hashType value}"

/-- A row of the lookup, expired or not: each scheme with its own digest. -/
def ReRegistrationHash.isOf (h : ReRegistrationHash) (host : Host) (hashType : HashType)
    (value : String) : Bool :=
  h.hashType = hashType &&
    (h.hashValue = computeHash host hashType value && h.scheme = .hmacV1 ||
      h.hashValue = legacyDigest host hashType value && h.scheme = .legacy)

/-- The loop of `is_reregistration`. -/
def askHashes (env : Env) : List (HashType × Option String) → Program Bool
  | [] => return false
  | (hashType, value) :: rest =>
      match value with
      | none | some "" => askHashes env rest
      | some value => do
          let known ← Program.select
            (·.hashes.any fun h => h.isOf env.host hashType value && env.now < h.expiresAt)
          if known then return true else askHashes env rest

/-- `is_reregistration`. -/
def isReregistration (env : Env) (email phone : Option String) : Program Bool :=
  askHashes env [(.email, email), (.phone, phone)]

/-- The schemes `purge_unverified_hashes` keeps. -/
def keptSchemes (includeLegacy : Bool) : List HashScheme :=
  if includeLegacy then [.hmacV1] else [.hmacV1, .legacy]

/-- `purge_unverified_hashes`: how many rows were deleted. -/
def purgeUnverifiedHashes (includeLegacy : Bool) : Program Nat := do
  let count ← Program.select fun db =>
    (db.hashes.filter fun h => h.scheme ∉ keptSchemes includeLegacy).length
  Prog.write .purgeUnverified fun db =>
    { db with hashes := db.hashes.filter fun h => h.scheme ∈ keptSchemes includeLegacy }
  return count

end StapelGdpr
