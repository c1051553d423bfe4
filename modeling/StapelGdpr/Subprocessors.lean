import StapelGdpr.Store

/-!
# StapelGdpr.Subprocessors

The subprocessor ledger (`subprocessors.py`): one obligation row per declared processor
per erasure. Reading the setting can raise, and so can the date of a window; the setting is
read again at every erasure.
-/

namespace StapelGdpr

/-- What `int(None)` or `int("soon")` comes down to for a caller: a `ValueError` (or the
`TypeError` beside it, which nobody handles apart). -/
def malformedWindow : Error := .valueError "invalid literal for int() with base 10"

/-- Name and window of one entry. -/
def SubprocessorEntry.pair : SubprocessorEntry → Except Error (String × Int)
  | .bare name => .ok (strip name, 0)
  | .dict name .absent => .ok (strip (name.getD ""), 0)
  | .dict name (.int n) => .ok (strip (name.getD ""), n)
  | .dict _ .malformed => .error malformedWindow

/-- The loop of `declared_subprocessors`. -/
def collectSubprocessors (only : List String) :
    List SubprocessorEntry → List (String × Int) → Except Error (List (String × Int))
  | [], pairs => .ok pairs
  | entry :: rest, pairs => do
      let (name, window) ← entry.pair
      if name = "" ∨ name ∈ pairs.map Prod.fst then collectSubprocessors only rest pairs
      else if only ≠ [] ∧ name ∉ only then collectSubprocessors only rest pairs
      else collectSubprocessors only rest (pairs ++ [(name, window)])

/-- `declared_subprocessors`. -/
def declaredSubprocessors (settings : Settings) (only : List String) :
    Except Error (List (String × Int)) :=
  collectSubprocessors only settings.subprocessors []

/-- Does the ledger hold a row for this processor? -/
def Ledger.hasObligation (l : Ledger) (request : Nat) (provider : String) : Bool :=
  l.obligations.any fun o => o.request = request && o.provider = provider

/-- The insert of `get_or_create`: `(request, provider)` is unique and the window column
holds no negative number. -/
def Db.createObligation (db : Db) (o : SubprocessorObligation) : Except Error (Bool × Db) :=
  if db.hasObligation o.request o.provider = true ∨ o.windowDays < 0 then .error .integrityError
  else .ok (true, { db with obligations := db.obligations.insert o })

/-- `SubprocessorObligation.objects.get_or_create`: was a row written? Its defaults are built
before the lookup, so a date that a `datetime` does not hold raises even where there is a row. -/
def getOrCreateObligation (env : Env) (request : Nat) (anchor : Time) (name : String)
    (windowDays : Int) : Program Bool :=
  if ¬ Representable (anchor + days windowDays) then Prog.raise .overflowError
  else do
    let existing ← Prog.query (.obligationQuery request name) (·.hasObligation request name)
    if existing then return false
    else
      let create : Program Bool := Prog.atomic (.obligation request name) fun db =>
        db.createObligation {
          request := request, provider := name, windowDays := windowDays
          recordedAt := env.now, dueAt := anchor + days windowDays }
      create.tryCatch fun e =>
        if e = .integrityError then do
          let raced ← Prog.query (.obligationQuery request name) (·.hasObligation request name)
          if raced then return false else Prog.raise .integrityError
        else Prog.raise e

/-- `record_subprocessor_obligations`: how many rows were written. -/
def recordSubprocessorObligations (env : Env) (request : Stored ErasureRequest)
    (providers : List String := []) : Program Nat :=
  match declaredSubprocessors env.settings providers with
  | .error e => Prog.raise e
  | .ok declared =>
      declared.foldlM (fun written p => do
        let created ← getOrCreateObligation env request.pk
          (request.row.completedAt.getD env.now) p.1 p.2
        return written + created.toNat) 0

/-! ### The declaration -/

/-- A declared processor is named once. -/
theorem collectSubprocessors_nodup {only : List String} {entries : List SubprocessorEntry}
    {pairs declared : List (String × Int)} (hnd : (pairs.map Prod.fst).Nodup)
    (h : collectSubprocessors only entries pairs = .ok declared) :
    (declared.map Prod.fst).Nodup := by
  induction entries generalizing pairs with
  | nil => cases h; exact hnd
  | cons entry rest ih =>
      unfold collectSubprocessors at h
      cases hp : entry.pair with
      | error e => rw [hp] at h; cases h
      | ok q =>
          obtain ⟨name, window⟩ := q
          simp only [hp, bind, Except.bind] at h
          split_ifs at h with hskip honly
          · exact ih hnd h
          · exact ih hnd h
          · refine ih ?_ h
            rw [List.map_append, List.map_singleton, List.nodup_append_comm,
              List.singleton_append, List.nodup_cons]
            exact ⟨fun hmem => hskip (Or.inr hmem), hnd⟩

theorem declaredSubprocessors_nodup {settings : Settings} {only : List String}
    {declared : List (String × Int)} (h : declaredSubprocessors settings only = .ok declared) :
    (declared.map Prod.fst).Nodup :=
  collectSubprocessors_nodup (by simp) h

end StapelGdpr
