import StapelGdpr.Statements

/-!
# StapelGdpr.Reregistration

How long an erased identifier is remembered. `store_hashes` keeps one row for each digest and
gives it its expiry when it is written; a later erasure of the same identifier finds the row
and leaves the expiry alone. So a call gives the full term exactly when the table holds no row
of the digest that is of another scheme or expires sooner (`full_term_iff`): in particular an
expired row that no cleanup has met yet, or that belongs to a user on hold, takes the whole
term away.
-/

namespace StapelGdpr

open Prog

variable {env : Env} {db db' : Db} {userId : UserId} {hashType : HashType} {value e : String}
  {email phone : Option String}

/-! ### Asking -/

/-- The keyword argument of a type. -/
def identifier (hashType : HashType) (email phone : Option String) : Option String :=
  match hashType with
  | .email => email
  | .phone => phone

/-- `is_reregistration(email=e)`, or `is_reregistration(phone=e)`, is True. -/
def Reregisters (env : Env) (hashType : HashType) (e : String) (db : Db) : Prop :=
  let call := match hashType with
    | .email => isReregistration env (some e) none
    | .phone => isReregistration env none (some e)
  (call.run db).1 = .ok true

theorem askHashes_congr {q : HashType × Option String}
    {rest rest' : List (HashType × Option String)}
    (h : askHashes env rest = askHashes env rest') :
    askHashes env (q :: rest) = askHashes env (q :: rest') := by
  obtain ⟨t, v⟩ := q
  simp only [askHashes]
  rw [h]

theorem run_askHashes_one (he : e ≠ "") :
    ((askHashes env [(hashType, some e)]).run db).1 = .ok (db.hashes.any fun h =>
      h.isOf env.host hashType e && env.now < h.expiresAt) := by
  simp only [askHashes]
  let known := db.hashes.any fun h => h.isOf env.host hashType e && env.now < h.expiresAt
  change (Prog.run (if known = true then ret true else ret false) db).1 = .ok known
  cases known with
  | true => rfl
  | false => rfl

/-- An identifier is known while a row of it has not expired. -/
theorem reregisters_iff (he : e ≠ "") : Reregisters env hashType e db ↔
    ∃ h ∈ db.hashes, h.isOf env.host hashType e = true ∧ env.now < h.expiresAt := by
  have hone : Reregisters env hashType e db ↔
      ((askHashes env [(hashType, some e)]).run db).1 = .ok true := by
    cases hashType with
    | email =>
        have hphone : askHashes env [(.phone, none)] = askHashes env [] := rfl
        change ((askHashes env [(.email, some e), (.phone, none)]).run db).1 = _ ↔ _
        rw [askHashes_congr hphone]
    | phone => exact Iff.rfl
  rw [hone, run_askHashes_one he, Except.ok.injEq, List.any_eq_true]
  simp

/-! ### Storing -/

/-- The row `store_hashes` writes. -/
def newHash (env : Env) (userId : UserId) (hashType : HashType) (value : String) :
    ReRegistrationHash where
  hashType := hashType
  hashValue := computeHash env.host hashType value
  scheme := .hmacV1
  userIdWas := userId
  createdAt := env.now
  expiresAt := env.now + retention

/-- What `get_or_create` leaves. -/
def Db.remember (db : Db) (env : Env) (userId : UserId) (hashType : HashType) (value : String) :
    Db :=
  if db.hasHash hashType (computeHash env.host hashType value) then db
  else { db with hashes := db.hashes ++ [newHash env userId hashType value] }

/-- What `store_hashes` leaves, by identifier. -/
def Db.rememberOne (db : Db) (env : Env) (userId : UserId) (hashType : HashType)
    (value : Option String) : Db :=
  match value with
  | none => db
  | some e =>
      if e = "" ∨ isTombstone env.host e = true then db else db.remember env userId hashType e

/-- What `store_hashes` leaves. -/
def Db.rememberBoth (db : Db) (env : Env) (userId : UserId) (email phone : Option String) : Db :=
  (db.rememberOne env userId .email email).rememberOne env userId .phone phone

/-- Whatever fails, a hash is stored or the call raises; and it raises only when something
failed. -/
theorem getOrCreateHash_stores {may : Op → Prop} :
    Does may (fun _ _ _ => True) (fun _ db' => db' = db.remember env userId hashType value)
      (fun _ _ => may .select ∨ may (.storeHash userId))
      (getOrCreateHash env userId hashType value) db := by
  refine does_bind.mpr (does_query.mpr ⟨⟨trivial, ?_⟩, fun hl _ => ⟨trivial, .inl hl⟩⟩)
  by_cases hex : db.hasHash hashType (computeHash env.host hashType value) = true
  · rw [if_pos hex]
    exact does_ret.mpr (by rw [Db.remember, if_pos hex])
  · rw [if_neg hex]
    refine Does.tryCatch (X := fun _ db' => db' = db ∧ may (.storeHash userId))
      (does_atomic.mpr ⟨?_, fun hl _ => ⟨trivial, rfl, hl⟩⟩) fun e db' ⟨hdb, hl⟩ => ?_
    · simp only [hex, Bool.false_eq_true, if_false]
      exact ⟨trivial, by rw [Db.remember, if_neg hex]; rfl⟩
    · subst hdb
      split
      · -- the row that is said to be in the way is not there
        refine does_bind.mpr (does_query.mpr ⟨⟨trivial, ?_⟩, fun _ _ => ⟨trivial, .inr hl⟩⟩)
        rw [if_neg hex]
        exact does_raise.mpr (.inr hl)
      · exact does_raise.mpr (.inr hl)

theorem storeHashes_stores {may : Op → Prop} :
    Does may (fun _ _ _ => True) (fun _ db' => db' = db.rememberBoth env userId email phone)
      (fun _ _ => may .select ∨ may (.storeHash userId)) (storeHashes env userId email phone) db := by
  have hone : ∀ (db : Db) (written : Nat) (hashType : HashType) (value : Option String),
      Does may (fun _ _ _ => True) (fun _ db' => db' = db.rememberOne env userId hashType value)
        (fun _ _ => may .select ∨ may (.storeHash userId)) (match value with
          | none => (pure written : Program Nat)
          | some value =>
              if value = "" ∨ isTombstone env.host value = true then pure written
              else do
                let created ← getOrCreateHash env userId hashType value
                return written + created.toNat) db := by
    intro db written hashType value
    cases value with
    | none => exact does_ret.mpr rfl
    | some e =>
        dsimp only [Db.rememberOne]
        split
        · exact does_ret.mpr rfl
        · exact getOrCreateHash_stores.bind fun _ _ h => does_ret.mpr h
  refine (hone db 0 .email email).bind fun written db₁ h₁ => ?_
  subst h₁
  exact (hone _ written .phone phone).bind fun _ _ h => does_ret.mpr h

/-! ### The rows of a digest -/

/-- The rows of an identifier: one at most, by the unique constraint. -/
def Db.hashRows (db : Db) (hashType : HashType) (digest : String) : List ReRegistrationHash :=
  db.hashes.filter fun h => h.hashType = hashType && h.hashValue = digest

theorem mem_hashRows {digest : String} {h : ReRegistrationHash} :
    h ∈ db.hashRows hashType digest ↔
      h ∈ db.hashes ∧ h.hashType = hashType ∧ h.hashValue = digest := by
  simp [Db.hashRows, List.mem_filter]

theorem hasHash_iff {digest : String} :
    db.hasHash hashType digest = true ↔ db.hashRows hashType digest ≠ [] := by
  rw [Db.hasHash, List.any_eq_true, Ne, List.eq_nil_iff_forall_not_mem, not_forall]
  simp only [not_not, mem_hashRows, Bool.and_eq_true, decide_eq_true_eq]

/-- Another type's rows are left alone. -/
theorem hashRows_rememberOne_of_ne {t : HashType} {digest : String} {value : Option String}
    (h : t ≠ hashType) :
    (db.rememberOne env userId t value).hashRows hashType digest =
      db.hashRows hashType digest := by
  unfold Db.rememberOne
  cases value with
  | none => rfl
  | some e =>
      dsimp only
      split
      · rfl
      unfold Db.remember
      split
      · rfl
      · simp [Db.hashRows, List.filter_append, newHash, h]

/-- A row there stays, and is the only one; a row not there is written. -/
theorem hashRows_remember : (db.remember env userId hashType e).hashRows hashType
    (computeHash env.host hashType e) =
      if db.hashRows hashType (computeHash env.host hashType e) = [] then
        [newHash env userId hashType e]
      else db.hashRows hashType (computeHash env.host hashType e) := by
  by_cases hrows : db.hashRows hashType (computeHash env.host hashType e) = []
  · have hno : ¬ db.hasHash hashType (computeHash env.host hashType e) = true := fun h =>
      hasHash_iff.mp h hrows
    rw [if_pos hrows, Db.remember, if_neg hno, Db.hashRows, List.filter_append]
    change db.hashRows hashType (computeHash env.host hashType e) ++ _ = _
    rw [hrows, List.nil_append]
    simp [newHash]
  · rw [if_neg hrows, Db.remember, if_pos (hasHash_iff.mpr hrows)]

/-- The rows after `store_hashes`: those from before, and one for each identifier that had
none. -/
theorem mem_rememberOne {h : ReRegistrationHash} {value : Option String} :
    h ∈ (db.rememberOne env userId hashType value).hashes ↔ h ∈ db.hashes ∨ ∃ v, value = some v ∧
      v ≠ "" ∧ isTombstone env.host v = false ∧
      db.hashRows hashType (computeHash env.host hashType v) = [] ∧
      h = newHash env userId hashType v := by
  unfold Db.rememberOne
  cases value with
  | none => simp
  | some v =>
      dsimp only
      split
      · rename_i hskip
        constructor
        · exact .inl
        · rintro (hold | ⟨v', heq, hne, hlive, -⟩)
          · exact hold
          · obtain rfl := Option.some.inj heq
            rcases hskip with hempty | htomb
            · exact absurd hempty hne
            · exact absurd htomb (by simp [hlive])
      rename_i hstored
      obtain ⟨hne, hlive⟩ := not_or.mp hstored
      unfold Db.remember
      split
      · rename_i hex
        have hrows := hasHash_iff.mp hex
        constructor
        · exact .inl
        · rintro (hold | ⟨v', heq, -, -, hnone, -⟩)
          · exact hold
          · obtain rfl := Option.some.inj heq
            exact absurd hnone hrows
      · rename_i hno
        have hrows := Classical.not_not.mp (mt hasHash_iff.mpr hno)
        simp only [List.mem_append, List.mem_singleton]
        refine or_congr_right ⟨fun h => ⟨v, rfl, hne, by simpa using hlive, hrows, h⟩, ?_⟩
        rintro ⟨v', heq, -, -, -, rfl⟩
        rw [← Option.some.inj heq]

theorem mem_rememberBoth {h : ReRegistrationHash} :
    h ∈ (db.rememberBoth env userId email phone).hashes ↔ h ∈ db.hashes ∨ ∃ t v,
      identifier t email phone = some v ∧ v ≠ "" ∧ isTombstone env.host v = false ∧
      db.hashRows t (computeHash env.host t v) = [] ∧ h = newHash env userId t v := by
  unfold Db.rememberBoth
  rw [mem_rememberOne, mem_rememberOne, or_assoc]
  refine or_congr_right ⟨?_, ?_⟩
  · rintro (⟨v, hv⟩ | ⟨v, heq, hne, hlive, hnone, rfl⟩)
    · exact ⟨.email, v, hv⟩
    · rw [hashRows_rememberOne_of_ne (by decide)] at hnone
      exact ⟨.phone, v, heq, hne, hlive, hnone, rfl⟩
  · rintro ⟨t, v, heq, hne, hlive, hnone, rfl⟩
    cases t with
    | email => exact .inl ⟨v, heq, hne, hlive, hnone, rfl⟩
    | phone =>
        refine .inr ⟨v, heq, hne, hlive, ?_, rfl⟩
        rwa [hashRows_rememberOne_of_ne (by decide)]

/-- What `store_hashes` leaves of the rows of an identifier it is given. -/
theorem hashRows_rememberBoth (hid : identifier hashType email phone = some e) (he : e ≠ "")
    (hlive : isTombstone env.host e = false) :
    (db.rememberBoth env userId email phone).hashRows hashType
      (computeHash env.host hashType e) =
      if db.hashRows hashType (computeHash env.host hashType e) = [] then
        [newHash env userId hashType e]
      else db.hashRows hashType (computeHash env.host hashType e) := by
  have hself : ∀ db : Db, db.rememberOne env userId hashType (some e) =
      db.remember env userId hashType e := fun db => by
    simp [Db.rememberOne, he, hlive]
  unfold Db.rememberBoth
  cases hashType with
  | email =>
      obtain rfl : email = some e := hid
      rw [hashRows_rememberOne_of_ne (by decide), hself, hashRows_remember]
  | phone =>
      obtain rfl : phone = some e := hid
      rw [hself, hashRows_remember, hashRows_rememberOne_of_ne (by decide)]

/-! ### Over time -/

/-- The calls that write the memory. -/
inductive MemoryCall
  | store (userId : UserId) (email phone : Option String)
  | cleanup
  | purge (includeLegacy : Bool)

/-- The code of a call, its result dropped. -/
def MemoryCall.prog (env : Env) : MemoryCall → Program Unit
  | store userId email phone => discard (storeHashes env userId email phone)
  | cleanup => runRetentionCleanup env
  | purge includeLegacy => discard (purgeUnverifiedHashes includeLegacy)

/-- One stage in the life of the memory, as clock and store: time passes, a call is made (it
may fail or die anywhere), or something else happens to the rest of the store. -/
inductive MemoryStep (host : Host) : Time × Db → Time × Db → Prop
  | tick {now now' : Time} {db : Db} (h : now ≤ now') : MemoryStep host (now, db) (now', db)
  | call {env : Env} {call : MemoryCall} {tr : List Op} {p : Program Unit} {db db' : Db}
      (hhost : env.host = host) (h : Runs (fun _ => True) (call.prog env) db tr p db') :
      MemoryStep host (env.now, db) (env.now, db')
  | elsewhere {now : Time} {db db' : Db} (h : db'.hashes = db.hashes) :
      MemoryStep host (now, db) (now, db')

/-- The identifier is known at every moment of the term, whatever calls are made meanwhile. -/
def Lasting (env : Env) (hashType : HashType) (e : String) (db : Db) : Prop :=
  ∀ now later, Relation.ReflTransGen (MemoryStep env.host) (env.now, db) (now, later) →
    now < env.now + retention → Reregisters { env with now := now } hashType e later

/-- The identifier, in any spelling, is known at every moment of the term, whatever calls are
made meanwhile. -/
def FullTerm (env : Env) (hashType : HashType) (e : String) (db : Db) : Prop :=
  ∀ now later, Relation.ReflTransGen (MemoryStep env.host) (env.now, db) (now, later) →
    now < env.now + retention → ∀ e', normalize env.host hashType e' = normalize env.host hashType e →
      Reregisters { env with now := now } hashType e' later

/-- No row of the identifier is in the way of a full term. -/
def Renewable (env : Env) (hashType : HashType) (e : String) (db : Db) : Prop :=
  ∀ h ∈ db.hashRows hashType (computeHash env.host hashType e),
    h.scheme = .hmacV1 ∧ env.now + retention ≤ h.expiresAt

/-- `unique_together = [('hash_type', 'hash_value')]`. -/
def UniqueHashes (db : Db) : Prop :=
  ∀ h ∈ db.hashes, ∀ h' ∈ db.hashes, h.hashType = h'.hashType → h.hashValue = h'.hashValue →
    h = h'

/-- The rows a call keeps: those of the current scheme that have not expired. -/
def KeepsRows (now : Time) (a b : Db) : Prop :=
  ∀ h ∈ a.hashes, h.scheme = .hmacV1 → now < h.expiresAt → h ∈ b.hashes

theorem KeepsRows.refl (now : Time) (a : Db) : KeepsRows now a a := fun _ h _ _ => h

theorem KeepsRows.trans {now : Time} {a b c : Db} (h : KeepsRows now a b) (h' : KeepsRows now b c) :
    KeepsRows now a c := fun r hr hs ht => h' r (h r hr hs ht) hs ht

theorem memoryCall_keeps (call : MemoryCall) :
    Always (fun _ a b => KeepsRows env.now a b) (call.prog env) := by
  have hsel : ∀ db : Db, KeepsRows env.now db db := .refl _
  cases call with
  | store userId email phone =>
      exact (storeHashes_always hsel fun _ _ h hr _ _ => List.mem_append_left _ hr).bind
        fun _ => always_ret
  | cleanup =>
      refine (always_select hsel).bind fun held => (always_select hsel).bind fun _ => ?_
      refine .write fun db => ⟨hsel db, fun h hr _ ht => List.mem_filter.mpr ⟨hr, ?_⟩⟩
      have hlive : ¬ h.expiresAt ≤ env.now := Int.not_le.mpr ht
      simp [ReRegistrationHash.isExpired, hlive]
  | purge includeLegacy =>
      refine Always.bind (Always.bind (always_select hsel) fun _ => ?_) fun _ => always_ret
      refine Always.bind (.write fun db => ⟨hsel db, fun h hr hs _ => ?_⟩) fun _ => always_ret
      refine List.mem_filter.mpr ⟨hr, ?_⟩
      rw [hs]
      cases includeLegacy <;> rfl

/-- A call keeps them, wherever it ends. -/
theorem MemoryCall.keeps {call : MemoryCall} {tr : List Op} {p : Program Unit}
    (h : Runs (fun _ => True) (call.prog env) db tr p db') : KeepsRows env.now db db' :=
  (memoryCall_keeps call).keeps h (fun _ _ _ h => h) (.refl _) .trans

/-- A row of the current scheme lasts until it expires. -/
theorem lasts {host : Host} {now : Time} {later : Db} {h : ReRegistrationHash} {start : Time}
    (hrun : Relation.ReflTransGen (MemoryStep host) (start, db) (now, later))
    (hmem : h ∈ db.hashes) (hscheme : h.scheme = .hmacV1) (hnow : now < h.expiresAt) :
    h ∈ later.hashes := by
  have hall : ∀ c : Time × Db, Relation.ReflTransGen (MemoryStep host) (start, db) c →
      c.1 < h.expiresAt → h ∈ c.2.hashes := by
    intro c hc
    induction hc with
    | refl => exact fun _ => hmem
    | tail _ hstep ih =>
        intro hlt
        cases hstep with
        | tick hle => exact ih (lt_of_le_of_lt hle hlt)
        | call hhost hcall => exact MemoryCall.keeps hcall h (ih hlt) hscheme hlt
        | elsewhere heq =>
            rw [heq]
            exact ih hlt
  exact hall (now, later) hrun hnow

/-! ### The full term -/

theorem normalize_empty {host : Host} (hlower : host.lower "" = "") :
    normalize host hashType "" = "" := by
  cases hashType with
  | email => exact hlower
  | phone => rfl

theorem ne_empty_of_normalize {host : Host} (hlower : host.lower "" = "")
    (h : normalize host hashType e ≠ "") : e ≠ "" := by
  rintro rfl
  exact h (normalize_empty hlower)

/-- A row of the current scheme matches by the digest of the current scheme. -/
theorem isOf_hmac {host : Host} {h : ReRegistrationHash} (hscheme : h.scheme = .hmacV1) :
    h.isOf host hashType e = true ↔ h.hashType = hashType ∧
      h.hashValue = computeHash host hashType e := by
  simp [ReRegistrationHash.isOf, hscheme]

theorem computeHash_congr {host : Host} {e' : String}
    (h : normalize host hashType e' = normalize host hashType e) :
    computeHash host hashType e' = computeHash host hashType e := by
  unfold computeHash
  rw [h]

/-- **What lasts.** An identifier is known for a whole term, whatever is stored, cleaned up and
purged meanwhile, if and only if the table holds a row of it under the current scheme that
expires no sooner. -/
theorem lasting_iff (he : e ≠ "") : Lasting env hashType e db ↔
    ∃ h ∈ db.hashRows hashType (computeHash env.host hashType e),
      h.scheme = .hmacV1 ∧ env.now + retention ≤ h.expiresAt := by
  constructor
  · intro hlasting
    -- a purge now, and nothing else until the last moment of the term
    let purged := (((MemoryCall.purge true).prog env).run db).2
    obtain ⟨tr, hpurge⟩ := runs_run (fun _ => True) ((MemoryCall.purge true).prog env) db
    have hstep : MemoryStep env.host (env.now, db) (env.now, purged) := .call rfl hpurge
    have hterm : env.now < env.now + retention := Int.lt_add_of_pos_right _ (by decide)
    have htick : MemoryStep env.host (env.now, purged) (env.now + retention - 1, purged) :=
      .tick (Int.le_sub_one_of_lt hterm)
    have hknown := hlasting (env.now + retention - 1) purged (.tail (.single hstep) htick)
      (Int.sub_one_lt_of_le le_rfl)
    obtain ⟨h, hmem, hof, hexpiry⟩ := (reregisters_iff he).mp hknown
    obtain ⟨hin, hkept⟩ := List.mem_filter.mp hmem
    have hscheme : h.scheme = .hmacV1 := by simpa [keptSchemes] using hkept
    exact ⟨h, mem_hashRows.mpr ⟨hin, (isOf_hmac hscheme).mp hof⟩, hscheme,
      Int.le_of_sub_one_lt hexpiry⟩
  · rintro ⟨h, hmem, hscheme, hexpiry⟩ now later hchain hnow
    obtain ⟨hin, hdigest⟩ := mem_hashRows.mp hmem
    have hlive := lt_of_lt_of_le hnow hexpiry
    exact (reregisters_iff he).mpr
      ⟨h, lasts hchain hin hscheme hlive, (isOf_hmac hscheme).mpr hdigest, hlive⟩

/-- **The full term.** A call of `store_hashes` that has returned makes the identifier known
for the whole retention, whatever is stored, cleaned up and purged meanwhile, if and only if
its table held no row of the digest under another scheme or with an earlier expiry. -/
theorem full_term_iff {tr : List Op} {n : Nat} (hlower : env.host.lower "" = "")
    (hid : identifier hashType email phone = some e) (hne : normalize env.host hashType e ≠ "")
    (hlive : isTombstone env.host e = false) (hunique : UniqueHashes db)
    (hrun : Runs (fun _ => True) (storeHashes env userId email phone) db tr (.ret n) db') :
    FullTerm env hashType e db' ↔ Renewable env hashType e db := by
  have he := ne_empty_of_normalize hlower hne
  have hstored : db' = db.rememberBoth env userId email phone := storeHashes_stores.returned hrun
  have hrows : db'.hashRows hashType (computeHash env.host hashType e) = _ :=
    hstored ▸ hashRows_rememberBoth hid he hlive
  constructor
  · intro hfull h hmem
    obtain ⟨h', hmem', hscheme, hexpiry⟩ := (lasting_iff he).mp fun now later hchain hnow =>
      hfull now later hchain hnow e rfl
    -- a row was there, so nothing was written, and it is the only one
    rw [hrows, if_neg (List.ne_nil_of_mem hmem)] at hmem'
    obtain ⟨hin, htype, hvalue⟩ := mem_hashRows.mp hmem
    obtain ⟨hin', htype', hvalue'⟩ := mem_hashRows.mp hmem'
    have hsame : h' = h :=
      hunique h' hin' h hin (htype'.trans htype.symm) (hvalue'.trans hvalue.symm)
    exact hsame ▸ ⟨hscheme, hexpiry⟩
  · intro hrenew now later hchain hnow e' he'
    have hrow : ∃ h ∈ db'.hashRows hashType (computeHash env.host hashType e'),
        h.scheme = .hmacV1 ∧ env.now + retention ≤ h.expiresAt := by
      rw [computeHash_congr he', hrows]
      split
      · exact ⟨_, List.mem_singleton.mpr rfl, rfl, le_rfl⟩
      · rename_i hsome
        obtain ⟨h, hmem⟩ := List.exists_mem_of_ne_nil _ hsome
        exact ⟨h, hmem, hrenew h hmem⟩
    have he'ne : e' ≠ "" := ne_empty_of_normalize hlower (he' ▸ hne)
    exact (lasting_iff he'ne).mpr hrow now later hchain hnow

/-- The account was erased on day 0. -/
def rememberedOnce : Db :=
  ((storeHashes deployment "u1" (some "u1@example.org") none).run {}).2

/-- Its address came back, and was erased again with another account on day 700. -/
def rememberedAgain : Db :=
  ((storeHashes (deploymentOn 700) "u2" (some "U1@example.org") none).run rememberedOnce).2

theorem full_term_iff_once : FullTerm deployment .email "u1@example.org" rememberedOnce := by
  obtain ⟨n, tr, hrun⟩ := runs_of_isOk (fun _ => True)
    (show ((storeHashes deployment "u1" (some "u1@example.org") none).run {}).1.isOk = true by
      decide +kernel)
  refine (full_term_iff rfl rfl (by decide +kernel) (by decide +kernel)
    (fun h hh => absurd hh (by simp)) hrun).mpr fun h hh => absurd hh (by simp [Db.hashRows])

/-- On day 731 it is forgotten. -/
theorem forgotten_early : ¬ ∀ (env : Env) (userId : UserId) (hashType : HashType) (e : String)
    (email phone : Option String) (db db' : Db) (tr : List Op) (n : Nat),
    env.host.lower "" = "" → identifier hashType email phone = some e →
    normalize env.host hashType e ≠ "" → isTombstone env.host e = false → UniqueHashes db →
    Runs (fun _ => True) (storeHashes env userId email phone) db tr (.ret n) db' →
    FullTerm env hashType e db' := by
  intro hclaim
  obtain ⟨n, tr, hrun⟩ := runs_of_isOk (fun _ => True)
    (show ((storeHashes (deploymentOn 700) "u2" (some "U1@example.org") none).run
      rememberedOnce).1.isOk = true by decide +kernel)
  have hfull : FullTerm (deploymentOn 700) .email "U1@example.org" rememberedAgain :=
    hclaim (deploymentOn 700) "u2" .email "U1@example.org" _ _ rememberedOnce _ tr n rfl rfl
      (by decide +kernel) (by decide +kernel) (by unfold UniqueHashes; decide +kernel) hrun
  have hknown := hfull (days 731) rememberedAgain (.single (.tick (by decide))) (by decide)
    "U1@example.org" rfl
  obtain ⟨h, hmem, -, hlive⟩ := (reregisters_iff (by decide)).mp hknown
  have hold : ∀ h ∈ rememberedAgain.hashes, h.expiresAt = days 730 := by decide +kernel
  rw [hold h hmem] at hlive
  exact absurd hlive (by decide)

end StapelGdpr
