import Mathlib.Data.List.DropRight
import StapelGdpr.Run

/-!
# StapelGdpr.OwnerClient

`CommErasureClient`, the object an owner library asks for an erasure with (`client.py`), in one
process with the orchestrator.

Its two methods mean different things by "already asked": `has_open_erasure` looks for an open
request of the subject, `request_erasure` for any request that carries the subject's key, which a
request keeps for good. So an owner whose erasure has timed out is told that none is open, asks,
and is given the dead one again (`live_iff`).
-/

namespace StapelGdpr

open Prog

variable {env : Env} {db db' : Db} {st sk text key : String} {workspaceId : Option String}
  {pk : Nat} {args : ErasureArgs}

/-! ### Trimmed texts -/

theorem strip_eq (s : String) :
    strip s = String.ofList ((s.toList.dropWhile isSpace).rdropWhile isSpace) := rfl

/-- A text is trimmed if it neither starts nor ends with whitespace. -/
theorem strip_eq_self {s : String} (hstart : s.toList.dropWhile isSpace = s.toList)
    (hend : s.toList.rdropWhile isSpace = s.toList) : strip s = s := by
  rw [strip_eq, hstart, hend, String.ofList_toList]

theorem rdropWhile_strip {s : String} : (strip s).toList.rdropWhile isSpace = (strip s).toList := by
  rw [strip_eq, String.toList_ofList, List.rdropWhile_idempotent]

theorem dropWhile_strip {s : String} : (strip s).toList.dropWhile isSpace = (strip s).toList := by
  rw [strip_eq, String.toList_ofList, List.dropWhile_eq_self_iff]
  intro hlen
  -- trimming the end leaves the first character
  have hstarts : (s.toList.dropWhile isSpace).rdropWhile isSpace <+: s.toList.dropWhile isSpace :=
    List.rdropWhile_prefix isSpace _
  rw [hstarts.getElem hlen]
  exact List.dropWhile_get_zero_not isSpace _ (hlen.trans_le hstarts.length_le)

theorem strip_strip (s : String) : strip (strip s) = strip s :=
  strip_eq_self dropWhile_strip rdropWhile_strip

theorem mem_of_mem_fromKeys {name : String} {names : List String} (h : name ∈ fromKeys names) :
    name ∈ names := by
  have hloop : ∀ {names seen : List String}, name ∈ names.foldl
      (fun seen n => if n ∈ seen then seen else seen ++ [n]) seen → name ∈ names ∨ name ∈ seen := by
    intro names
    induction names with
    | nil => exact fun h => .inr h
    | cons n names ih =>
        intro seen h
        rcases ih h with h | h
        · exact .inl (List.mem_cons_of_mem _ h)
        · dsimp only at h
          split at h
          · exact .inr h
          · rcases List.mem_append.mp h with h | h
            · exact .inr h
            · exact .inl (List.mem_cons.mpr (.inl (List.mem_singleton.mp h)))
  exact (hloop h).resolve_right (by simp)

/-- A declared subject type is trimmed. -/
theorem strip_declared (h : st ∈ env.subjectTypes) : strip st = st ∧ st ≠ "" := by
  obtain ⟨hstripped, hne⟩ := List.mem_filter.mp (mem_of_mem_fromKeys h)
  obtain ⟨written, -, rfl⟩ := List.mem_map.mp hstripped
  exact ⟨strip_strip written, by simpa using hne⟩

/-! ### The client -/

/-- `idempotency_key`. -/
def ownerKey (subjectType subjectKey : String) : String :=
  "owner:" ++ subjectType ++ ":" ++ subjectKey

/-- `has_open_erasure`, in process. -/
def hasOpenErasure (subjectType subjectKey : String) : Program Bool :=
  Program.select fun db => db.requests.any fun r =>
    r.subjectType = subjectType && r.subjectKey = subjectKey &&
      (r.state = .queued || r.state = .erasing)

/-- The payload of `client.request_erasure`, as the owner client calls it. -/
def ownerPayload (subjectType subjectKey : String) (workspaceId : Option String) :
    ErasurePayload where
  subjectType := some subjectType
  subjectKey := some subjectKey
  workspaceId := some (workspaceId.getD "")
  requestedBy := some ""
  origin := some "user"
  idempotencyKey := some (ownerKey subjectType subjectKey)

/-- `CommErasureClient.request_erasure`, in process: the id of the request. -/
def clientRequestErasure (env : Env) (subjectType subjectKey : String)
    (workspaceId : Option String) : Program Nat := do
  let (requestId, _, _) ← erasureRequest env (ownerPayload subjectType subjectKey workspaceId)
  return requestId

/-- An owner's sweep at one subject: it asks for an erasure if none is open. -/
def askErasure (env : Env) (subjectType subjectKey : String) (workspaceId : Option String) :
    Program (Option Nat) := do
  let isOpen ← hasOpenErasure subjectType subjectKey
  if isOpen then return none
  else do
    let requestId ← clientRequestErasure env subjectType subjectKey workspaceId
    return some requestId

/-- The key of a trimmed subject is trimmed. -/
theorem strip_ownerKey (hsk : strip sk = sk) (hne : sk ≠ "") :
    strip (ownerKey st sk) = ownerKey st sk := by
  have hlist : (ownerKey st sk).toList =
      "owner:".toList ++ st.toList ++ ":".toList ++ sk.toList := by
    simp only [ownerKey, String.toList_append]
  have hnil : sk.toList ≠ [] := by
    simpa using hne
  apply strip_eq_self
  · rw [hlist]
    rfl
  · have hlast : sk.toList.rdropWhile isSpace = sk.toList := by
      rw [← hsk]
      exact rdropWhile_strip
    rw [List.rdropWhile_eq_self_iff] at hlast ⊢
    intro hall
    have hsame : (ownerKey st sk).toList.getLast hall = sk.toList.getLast hnil := by
      rw [List.getLast_congr _ (by simp) hlist, List.getLast_append_of_ne_nil _ hnil]
    rw [hsame]
    exact hlast hnil

/-! ### What the owner is given -/

/-- The request carries the key, or it is new. -/
def KeyedOrNew (st sk key : String) (db : Db) (request : Stored ErasureRequest) (db' : Db) : Prop :=
  db.keyed key = some request ∧ db' = db ∨
    db.keyed key = none ∧ db'.requests.get? request.pk = some request.row ∧
      request.row.subjectType = st ∧ request.row.subjectKey = sk ∧ request.row.state = .erasing

/-- A call with a key that returns, whatever failed on its way. -/
theorem requestErasure_keyedOrNew (hkey : args.idempotencyKey ≠ "") :
    Does (fun _ => True) (fun _ _ _ => True) (KeyedOrNew st sk args.idempotencyKey db)
      (fun _ _ => True) (requestErasure env st sk args) db := by
  unfold requestErasure
  rw [if_neg hkey]
  split
  · exact does_raise.mpr trivial
  refine does_bind.mpr (does_query.mpr ⟨⟨trivial, ?_⟩, fun _ _ => ⟨trivial, trivial⟩⟩)
  cases hfound : db.keyed args.idempotencyKey with
  | some existing => exact does_ret.mpr (.inl ⟨hfound, rfl⟩)
  | none =>
      unfold insertErasure
      refine Does.tryCatch (X := fun _ db' => db' = db) (does_atomic.mpr ⟨?_, ?_⟩) ?_
      · cases hopen : db.openErasure env st sk args with
        | error e => exact ⟨trivial, rfl⟩
        | ok out =>
            obtain ⟨request, db'⟩ := out
            obtain ⟨requestedBy, -, hrow, -, -, hdb⟩ := openErasure_ok hopen
            refine ⟨trivial, .inr ⟨hfound, ?_, ?_⟩⟩
            · rw [hdb, show request.pk = db.requests.nextPk from congrArg Stored.pk hrow]
              exact Table.get?_insert_nextPk _ _
            · rw [hrow]
              exact ⟨rfl, rfl, rfl⟩
      · exact fun _ _ => ⟨trivial, rfl⟩
      · rintro e db' rfl
        split
        · -- nobody has taken the key meanwhile
          refine does_bind.mpr (does_query.mpr ⟨⟨trivial, ?_⟩, fun _ _ => ⟨trivial, trivial⟩⟩)
          rw [hfound]
          exact does_raise.mpr trivial
        · exact does_raise.mpr trivial

/-- The request of this id is about the subject, and it is open or certified. -/
def Live (db : Db) (st sk : String) (pk : Nat) : Prop :=
  ∃ r, db.requests.get? pk = some r ∧ r.subjectType = st ∧ r.subjectKey = sk ∧
    (r.state = .queued ∨ r.state = .erasing ∨ r.state = .deleted)

/-- If the key of the subject is taken, then by a request of the subject that has not timed
out. -/
def KeyAlive (db : Db) (st sk : String) : Prop :=
  ∀ request, db.keyed (ownerKey st sk) = some request → request.row.subjectType = st ∧
    request.row.subjectKey = sk ∧ request.row.state ≠ .timeout

/-- What the client's payload comes down to. -/
theorem openFromPayload_owner (hst : strip st = st ∧ st ≠ "") (hsk : strip sk = sk)
    (hne : sk ≠ "") : ∃ args, args.idempotencyKey = ownerKey st sk ∧
      openFromPayload env (ownerPayload st sk workspaceId) = requestErasure env st sk args := by
  refine ⟨(ownerPayload st sk workspaceId).args, strip_ownerKey hsk hne, ?_⟩
  have htype : payloadText (ownerPayload st sk workspaceId).subjectType = st := hst.1
  have hkey : payloadText (ownerPayload st sk workspaceId).subjectKey = sk := hsk
  unfold openFromPayload
  rw [htype, hkey, if_neg (not_or.mpr ⟨hst.2, hne⟩)]

/-- How an owner's question ends when it is given an id. -/
theorem askErasure_keyed (hdeclared : st ∈ env.subjectTypes) (hsk : strip sk = sk)
    (hne : sk ≠ "") :
    Does (fun _ => True) (fun _ _ _ => True)
      (fun out db' => ∀ pk, out = some pk → ∃ request, request.pk = pk ∧
        KeyedOrNew st sk (ownerKey st sk) db request db')
      (fun _ _ => True) (askErasure env st sk workspaceId) db := by
  unfold askErasure
  refine does_bind.mpr (does_query.mpr ⟨⟨trivial, ?_⟩, fun _ _ => ⟨trivial, trivial⟩⟩)
  split
  · exact does_ret.mpr nofun
  obtain ⟨args, hkey, hopen⟩ : ∃ args, args.idempotencyKey = ownerKey st sk ∧
      openFromPayload env (ownerPayload st sk workspaceId) = requestErasure env st sk args :=
    openFromPayload_owner (strip_declared hdeclared) hsk hne
  have htaken : args.idempotencyKey ≠ "" := by
    rw [hkey]
    simp [ownerKey]
  unfold clientRequestErasure erasureRequest
  rw [hopen]
  have hkeyed : Does (fun _ => True) (fun _ _ _ => True)
      (KeyedOrNew st sk args.idempotencyKey db) (fun _ _ => True)
      (requestErasure env st sk args) db := requestErasure_keyedOrNew htaken
  rw [hkey] at hkeyed
  refine does_bind.mpr (does_bind.mpr (does_bind.mpr (hkeyed.post ?_ fun _ _ _ => trivial)))
  intro request db' hrequest
  exact does_ret.mpr (does_ret.mpr (does_ret.mpr fun pk hpk =>
    ⟨request, Option.some.inj hpk, hrequest⟩))

/-- **Asking leads to a live erasure** if and only if the subject's key does not lie with a dead
request, or with another subject's. -/
theorem live_iff {ops : List Op} (hdeclared : st ∈ env.subjectTypes) (hsk : strip sk = sk)
    (hne : sk ≠ "")
    (hrun : Prog.Runs (fun _ => True) (askErasure env st sk workspaceId) db ops (.ret (some pk))
      db') :
    Live db' st sk pk ↔ KeyAlive db st sk := by
  obtain ⟨request, rfl, hkeyed | ⟨hnone, hrow, hst, hsk, hstate⟩⟩ :=
    (askErasure_keyed hdeclared hsk hne).returned hrun pk rfl
  · obtain ⟨hfound, rfl⟩ := hkeyed
    obtain ⟨hrow, -⟩ := Table.first?_some hfound
    constructor
    · rintro ⟨r, hr, hst, hsk, hstate⟩ found hfound'
      obtain rfl := Option.some.inj (hfound.symm.trans hfound')
      obtain rfl := Option.some.inj (hrow.symm.trans hr)
      refine ⟨hst, hsk, fun htimeout => ?_⟩
      rw [htimeout] at hstate
      simp at hstate
    · intro halive
      obtain ⟨hst, hsk, hstate⟩ := halive request hfound
      refine ⟨request.row, hrow, hst, hsk, ?_⟩
      cases hcase : request.row.state with
      | queued => exact .inl rfl
      | erasing => exact .inr (.inl rfl)
      | deleted => exact .inr (.inr rfl)
      | timeout => exact absurd hcase hstate
  · constructor
    · intro _ found hfound
      exact absurd (hnone.symm.trans hfound) nofun
    · exact fun _ => ⟨request.row, hrow, hst, hsk, .inr (.inl hstate)⟩

/-- The owner of the documents asks for the erasure of one. -/
def documentAsked : Db :=
  (Call.erasureRequest (ownerPayload "document" "doc-1" none)).after documents {}

/-- Its confirmation does not come in time. -/
def documentLost : Db :=
  Call.sweepDeletionDeadlines.after { documents with now := days 2 } documentAsked

theorem reachable_documentLost : Reachable documentLost := by
  have hstart : Reachable {} := .refl
  exact (hstart.run (.erasureRequest _) documents trivial).run .sweepDeletionDeadlines _ trivial

/-- A sweep that asks for the same document on the third day. -/
def thirdDay : Env := { documents with now := days 3 }

/-- Its confirmation comes in time. -/
def documentConfirmed : Db :=
  (Call.markSectionErased 0 "media" "job-1" []).after { documents with now := days 1 } documentAsked

/-- The first question opens a request; one that comes after the confirmation is answered with the
certified one. -/
theorem live_iff_first :
    (∃ pk, Live ((askErasure documents "document" "doc-1" none).run {}).2 "document" "doc-1" pk) ∧
    Live ((askErasure thirdDay "document" "doc-1" none).run documentConfirmed).2
      "document" "doc-1" 0 := by
  constructor
  · obtain ⟨tr, hrun⟩ := runs_run (fun _ => True) (askErasure documents "document" "doc-1" none) {}
    have hanswer : ((askErasure documents "document" "doc-1" none).run {}).1 = .ok (some 0) := by
      decide +kernel
    rw [hanswer] at hrun
    refine ⟨0, (live_iff (by decide +kernel) (by decide +kernel) (by decide) hrun).mpr ?_⟩
    intro request hfound
    exact absurd (Table.first?_some hfound).1 (by simp [Table.get?])
  · obtain ⟨tr, hrun⟩ := runs_run (fun _ => True) (askErasure thirdDay "document" "doc-1" none)
      documentConfirmed
    have hanswer : ((askErasure thirdDay "document" "doc-1" none).run documentConfirmed).1 =
        .ok (some 0) := by decide +kernel
    rw [hanswer] at hrun
    refine (live_iff (by decide +kernel) (by decide +kernel) (by decide) hrun).mpr ?_
    intro request hfound
    have hrow : (documentConfirmed.keyed (ownerKey "document" "doc-1")).map
        (fun r => (r.row.subjectType, r.row.subjectKey, r.row.state)) =
          some ("document", "doc-1", .deleted) := by decide +kernel
    rw [hfound] at hrow
    obtain ⟨htype, hrest⟩ := Prod.mk.inj (Option.some.inj hrow)
    obtain ⟨hkey, hstate⟩ := Prod.mk.inj hrest
    exact ⟨htype, hkey, by rw [hstate]; decide⟩

/-- None is open, and the one that has timed out is given as the answer. -/
theorem dead_request : Reachable documentLost ∧
    ((askErasure thirdDay "document" "doc-1" none).run documentLost).1 = .ok (some 0) ∧
    ¬ ∀ (env : Env) (db db' : Db) (st sk : String) (workspaceId : Option String) (pk : Nat)
      (ops : List Op), Reachable db → st ∈ env.subjectTypes → strip sk = sk → sk ≠ "" →
      Prog.Runs (fun _ => True) (askErasure env st sk workspaceId) db ops (.ret (some pk)) db' →
      Live db' st sk pk := by
  have hanswer : ((askErasure thirdDay "document" "doc-1" none).run documentLost).1 =
      .ok (some 0) := by decide +kernel
  refine ⟨reachable_documentLost, hanswer, fun hclaim => ?_⟩
  obtain ⟨tr, hrun⟩ := runs_run (fun _ => True) (askErasure thirdDay "document" "doc-1" none)
    documentLost
  rw [hanswer] at hrun
  obtain ⟨r, hr, -, -, hstate⟩ := hclaim thirdDay documentLost _ "document" "doc-1" none 0 tr
    reachable_documentLost (by decide +kernel) (by decide +kernel) (by decide) hrun
  have htimeout : ((((askErasure thirdDay "document" "doc-1" none).run documentLost).2.requests.get?
      0).map (·.state)) = some .timeout := by decide +kernel
  rw [hr] at htimeout
  have hdead : r.state = .timeout := Option.some.inj htimeout
  rw [hdead] at hstate
  simp at hstate

end StapelGdpr
