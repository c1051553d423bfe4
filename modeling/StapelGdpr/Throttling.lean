import StapelGdpr.Conf
import StapelGdpr.Lib.Prog
import StapelGdpr.Lib.Rolling

/-!
# StapelGdpr.Throttling

The budget of the intake (`throttling.py`): one cache entry for each door and caller, which every
admitted call rewrites with an hour's TTL.

The entry counts a burst (`Rolling.burst`): the admitted calls that follow one another within an
hour. It never admits too many in any hour (`never_over_admits`), and it refuses a caller who kept
to the limit when the burst is stretched (`refused_iff`).
-/

namespace StapelGdpr.Throttling

open Prog Rolling

/-! ### The cache -/

/-- One entry: the value last set, and when its TTL ends. -/
structure CacheEntry where
  value : Int
  expires : Time

/-- The shared cache. -/
abbrev Cache := String → Option CacheEntry

/-- `cache.get(key)`: the value last set, within its TTL. -/
def Cache.get (cache : Cache) (now : Time) (key : String) : Option Int :=
  (cache key).bind fun entry => if now < entry.expires then some entry.value else none

/-- `cache.set(key, value, ttl)`. -/
def Cache.set (cache : Cache) (key : String) (value : Int) (expires : Time) : Cache :=
  fun other => if other = key then some ⟨value, expires⟩ else cache other

inductive CacheOp
  | get (key : String)
  | ttl (key : String)
  | set (key : String)

/-- The cache cannot be reached. -/
inductive CacheError
  | unavailable

/-! ### The budget -/

/-- `WINDOW_SECONDS`, in microseconds. -/
def windowSeconds : Delta := 3600000000

/-- The budgeted doors: `SCOPE_DSAR`, `SCOPE_ACCOUNT_CLOSE`, `SCOPE_DATA_EXPORT`. -/
inductive Scope
  | dsar
  | accountClose
  | dataExport
  deriving DecidableEq

def Scope.text : Scope → String
  | dsar => "dsar"
  | accountClose => "account_close"
  | dataExport => "data_export"

/-- What `_caller_key` reads of a request. -/
structure Request where
  /-- `request.user`: is it authenticated, and its primary key. -/
  user : Option (Bool × String) := none
  /-- What `client_ip` returns; `none` when it raises or is not installed. -/
  clientIp : Option (Option String) := none
  remoteAddr : Option String := none

/-- `address or 'unknown'`. -/
def orUnknown (address : Option String) : String :=
  match address with
  | some address => if address = "" then "unknown" else address
  | none => "unknown"

/-- `_caller_key`: the account when there is one, else the address. -/
def callerKey (request : Request) : String :=
  match request.user with
  | some (true, pk) => "user:" ++ pk
  | _ => "ip:" ++ orUnknown (request.clientIp.getD request.remoteAddr)

/-- What one deployment's budget rests on. -/
structure Budget where
  /-- `int(INTAKE_RATE_LIMIT_PER_HOUR or 0)`; `none` when `int()` refuses the setting. -/
  setting : Option Int := some 10
  /-- `cache.ttl`, by what is left of the TTL; `none` when the cache has no such method. -/
  ttl : Option (Delta → Int) := none

/-- `rate_limit`. -/
def Budget.rateLimit (budget : Budget) : Int := budget.setting.getD 0

/-- The key the counter of a caller is kept under. -/
def budgetKey (scope : Scope) (caller : String) : String :=
  "gdpr_intake_rate:" ++ scope.text ++ ":" ++ caller

/-- `spend`: 0 when the slot is consumed, otherwise the seconds to wait. -/
def spend (budget : Budget) (now : Time) (request : Request) (scope : Scope) :
    Prog CacheOp Cache CacheError Int :=
  let limit := budget.rateLimit
  if limit ≤ 0 then return 0
  else
    let key := budgetKey scope (callerKey request)
    let body : Prog CacheOp Cache CacheError Int := do
      let count ← Prog.query (.get key) fun cache => (cache.get now key).getD 0
      if limit ≤ count then
        match budget.ttl with
        | none => return 1
        | some ttl => do
            let left ← Prog.query (.ttl key) fun cache =>
              ((cache key).map fun entry => ttl (entry.expires - now)).getD 0
            return max left 1
      else do
        Prog.write (.set key) (·.set key (count + 1) (now + windowSeconds))
        return 0
    -- a broken cache admits
    body.tryCatch fun _ => return 0

/-! ### Runs of calls -/

/-- One call of `spend`. -/
structure Spending where
  request : Request
  scope : Scope
  now : Time

/-- Whose budget it is spent from. -/
def Spending.key (call : Spending) : Scope × String := (call.scope, callerKey call.request)

/-- What a call answers with a cache that works: never an error. -/
def Spending.answer (budget : Budget) (call : Spending) (cache : Cache) : Int :=
  match ((spend budget call.now call.request call.scope).run cache).1 with
  | .ok seconds => seconds
  | .error _ => 0

/-- What it leaves in the cache. -/
def Spending.after (budget : Budget) (call : Spending) (cache : Cache) : Cache :=
  ((spend budget call.now call.request call.scope).run cache).2

/-- The cache after some calls. -/
def cacheAfter (budget : Budget) (calls : List Spending) (cache : Cache) : Cache :=
  calls.foldl (fun cache call => call.after budget cache) cache

/-- The answers the calls get, one after the other. -/
def answers (budget : Budget) : List Spending → Cache → List (Spending × Int)
  | [], _ => []
  | call :: calls, cache =>
      (call, call.answer budget cache) :: answers budget calls (call.after budget cache)

/-- The times at which a caller was admitted at a door, latest first. -/
def admitted (budget : Budget) (key : Scope × String) (calls : List Spending) (cache : Cache) :
    List Time :=
  (((answers budget calls cache).filter fun a => a.1.key = key && a.2 = 0).map
    (·.1.now)).reverse

/-! ### One call -/

variable {budget : Budget} {cache cache' : Cache} {call : Spending} {calls : List Spending}
  {key : Scope × String}

/-- Doors and callers do not share a key. -/
theorem budgetKey_injective {scope scope' : Scope} {caller caller' : String}
    (h : budgetKey scope caller = budgetKey scope' caller') :
    (scope, caller) = (scope', caller') := by
  unfold budgetKey at h
  have hchars := congrArg String.toList h
  simp only [String.toList_append, List.append_assoc] at hchars
  have hrest := List.append_cancel_left hchars
  cases scope <;> cases scope' <;> simp_all [Scope.text, String.ext_iff]

/-- The key a call's counter is kept under. -/
def Spending.entry (call : Spending) : String := budgetKey call.scope (callerKey call.request)

/-- The slots of the call's caller that count at its time. -/
def Spending.count (call : Spending) (cache : Cache) : Int :=
  (cache.get call.now call.entry).getD 0

/-- What a refused caller is told to wait, before it is made at least a second. -/
def Spending.wait (budget : Budget) (call : Spending) (cache : Cache) : Int :=
  match budget.ttl with
  | none => 1
  | some ttl => ((cache call.entry).map fun entry => ttl (entry.expires - call.now)).getD 0

/-- With a cache that works: refused at the limit, and counted below it. -/
theorem spend_run (hlimit : 0 < budget.rateLimit) :
    (spend budget call.now call.request call.scope).run cache =
      if budget.rateLimit ≤ call.count cache then (.ok (max (call.wait budget cache) 1), cache)
      else (.ok 0, cache.set call.entry (call.count cache + 1) (call.now + windowSeconds)) := by
  unfold spend Spending.wait Spending.count Spending.entry
  simp only [if_neg (not_le.mpr hlimit)]
  by_cases hfull : budget.rateLimit ≤
      (cache.get call.now (budgetKey call.scope (callerKey call.request))).getD 0
  · rw [if_pos hfull]
    cases httl : budget.ttl with
    | none => simp [Prog.query, Prog.tryCatch, Prog.run, hfull]
    | some ttl => simp [Prog.query, Prog.tryCatch, Prog.run, hfull]
  · rw [if_neg hfull]
    simp [Prog.query, Prog.write, Prog.tryCatch, Prog.run, hfull]

theorem spend_off (hlimit : budget.rateLimit ≤ 0) :
    (spend budget call.now call.request call.scope).run cache = (.ok 0, cache) := by
  unfold spend
  simp only [if_pos hlimit]
  rfl

/-- A call is refused at the limit. -/
theorem answer_eq_zero_iff : call.answer budget cache = 0 ↔
    (0 < budget.rateLimit → call.count cache < budget.rateLimit) := by
  unfold Spending.answer
  by_cases hlimit : 0 < budget.rateLimit
  · rw [spend_run hlimit]
    by_cases hfull : budget.rateLimit ≤ call.count cache
    · rw [if_pos hfull]
      have hwait : max (call.wait budget cache) 1 ≠ 0 := by omega
      simpa [hwait, hlimit] using hfull
    · rw [if_neg hfull]
      simpa [hlimit] using hfull
  · rw [spend_off (not_lt.mp hlimit)]
    simp [hlimit]

/-- An admitted call counts itself and renews the entry; a refused one leaves it alone. -/
theorem after_eq (hlimit : 0 < budget.rateLimit) : call.after budget cache =
    if call.answer budget cache = 0 then
      cache.set call.entry (call.count cache + 1) (call.now + windowSeconds)
    else cache := by
  have hzero : call.answer budget cache = 0 ↔ _ := answer_eq_zero_iff
  unfold Spending.after
  rw [spend_run hlimit]
  by_cases hfull : budget.rateLimit ≤ call.count cache
  · rw [if_pos hfull, if_neg fun h => absurd (hzero.mp h hlimit) (not_lt.mpr hfull)]
  · rw [if_neg hfull, if_pos (hzero.mpr fun _ => not_le.mp hfull)]

/-! ### Runs -/

/-- Nothing is budgeted yet. -/
def empty : Cache := fun _ => none

theorem answers_append {more : List Spending} : answers budget (calls ++ more) cache =
    answers budget calls cache ++ answers budget more (cacheAfter budget calls cache) := by
  induction calls generalizing cache with
  | nil => rfl
  | cons call calls ih =>
      rw [List.cons_append, answers, ih, answers, List.cons_append]
      rfl

theorem cacheAfter_append {more : List Spending} : cacheAfter budget (calls ++ more) cache =
    cacheAfter budget more (cacheAfter budget calls cache) := List.foldl_append ..

/-- One more call is admitted, or it is not. -/
theorem admitted_snoc : admitted budget key (calls ++ [call]) cache =
    if call.key = key ∧ call.answer budget (cacheAfter budget calls cache) = 0 then
      call.now :: admitted budget key calls cache
    else admitted budget key calls cache := by
  unfold admitted
  rw [answers_append, List.filter_append, List.map_append, List.reverse_append]
  simp only [answers]
  split
  · rename_i h
    simp [h]
  · rename_i h
    simp [h]

/-- The entry of a caller who was admitted at these times. -/
def entryOf : List Time → Option CacheEntry
  | [] => none
  | t :: past => some ⟨burst windowSeconds t past + 1, t + windowSeconds⟩

/-- What it counts at a later time is the burst. -/
theorem count_entryOf {past : List Time} (h : cache call.entry = entryOf past) :
    call.count cache = burst windowSeconds call.now past := by
  unfold Spending.count Cache.get
  rw [h]
  cases past with
  | nil => rfl
  | cons t past =>
      rw [entryOf, Option.bind_some, burst]
      split
      · simp
      · rfl

/-- **The counter is the burst of the admitted calls**, with every caller's calls apart. -/
theorem entry_cacheAfter (hlimit : 0 < budget.rateLimit) : ∀ key : Scope × String,
    cacheAfter budget calls empty (budgetKey key.1 key.2) =
      entryOf (admitted budget key calls empty) := by
  induction calls using List.reverseRecOn with
  | nil => exact fun key => rfl
  | append_singleton calls call ih =>
      intro key
      rw [cacheAfter_append, admitted_snoc]
      change call.after budget (cacheAfter budget calls empty) _ = _
      rw [after_eq hlimit]
      by_cases hzero : call.answer budget (cacheAfter budget calls empty) = 0
      · rw [if_pos hzero, Cache.set]
        by_cases hkey : call.key = key
        · subst hkey
          rw [if_pos (show budgetKey call.key.1 call.key.2 = call.entry from rfl),
            if_pos ⟨rfl, hzero⟩, entryOf, count_entryOf (ih call.key)]
        · have hother : budgetKey key.1 key.2 ≠ call.entry :=
            fun h => hkey (budgetKey_injective h).symm
          rw [if_neg hother, if_neg (fun h => hkey h.1)]
          exact ih key
      · rw [if_neg hzero, if_neg (fun h => hzero h.2)]
        exact ih key

/-- A call of a run is admitted when fewer than the limit lead up to it. -/
theorem answer_run : call.answer budget (cacheAfter budget calls empty) = 0 ↔
    (0 < budget.rateLimit →
      burst windowSeconds call.now (admitted budget call.key calls empty) <
        budget.rateLimit.toNat) := by
  rw [answer_eq_zero_iff]
  by_cases hlimit : 0 < budget.rateLimit
  · have hcount : call.count (cacheAfter budget calls empty) = _ :=
      count_entryOf (entry_cacheAfter hlimit call.key)
    simp only [hlimit, true_implies]
    rw [hcount]
    omega
  · simp [hlimit]

/-- The admitted calls keep below the limit, and their times are in order. -/
theorem admitted_limited (hlimit : 0 < budget.rateLimit) :
    Limited windowSeconds budget.rateLimit.toNat (admitted budget key calls empty) := by
  induction calls using List.reverseRecOn with
  | nil => exact trivial
  | append_singleton calls call ih =>
      rw [admitted_snoc]
      split
      · rename_i h
        obtain ⟨rfl, hzero⟩ := h
        exact ⟨answer_run.mp hzero hlimit, ih⟩
      · exact ih

theorem mem_admitted {t : Time} (h : t ∈ admitted budget key calls cache) :
    t ∈ calls.map (·.now) := by
  induction calls using List.reverseRecOn with
  | nil => exact h
  | append_singleton calls call ih =>
      rw [admitted_snoc] at h
      rw [List.map_append, List.mem_append]
      split at h
      · rcases List.mem_cons.mp h with rfl | h
        · exact .inr (by simp)
        · exact .inl (ih h)
      · exact .inl (ih h)

theorem admitted_sorted (hsorted : (calls.map (·.now)).Pairwise (· ≤ ·)) :
    (admitted budget key calls cache).Pairwise (· ≥ ·) := by
  induction calls using List.reverseRecOn with
  | nil => exact .nil
  | append_singleton calls call ih =>
      rw [List.map_append, List.pairwise_append] at hsorted
      obtain ⟨hcalls, -, hlast⟩ := hsorted
      rw [admitted_snoc]
      split
      · refine List.pairwise_cons.mpr ⟨fun t ht => ?_, ih hcalls⟩
        exact hlast t (mem_admitted ht) call.now (by simp)
      · exact ih hcalls

/-! ### What the budget promises -/

/-- **The refusals.** In every run, a call is refused only after as many admitted calls of the
last hour as the limit says, if and only if its caller's burst is not stretched: the last
admitted calls, as many as the limit, do not reach back further than an hour with less than an
hour from each to the next and to this call. -/
theorem refused_iff (hsorted : (calls.map (·.now)).Pairwise (· ≤ ·)) :
    (call.answer budget (cacheAfter budget calls empty) ≠ 0 → budget.rateLimit ≤
        (recent windowSeconds call.now (admitted budget call.key calls empty)).length) ↔
      ¬ Stretched windowSeconds budget.rateLimit.toNat call.now
        (admitted budget call.key calls empty) := by
  rw [← recent_of_burst_iff (admitted_sorted hsorted), Ne, answer_run]
  by_cases hlimit : 0 < budget.rateLimit
  · simp only [hlimit, true_implies, not_lt]
    omega
  · have hoff : budget.rateLimit.toNat = 0 := by omega
    simp [hlimit, hoff]

/-- A call of one address at the door of the data-subject requests. -/
def knock (minutes : Int) : Spending :=
  ⟨{ clientIp := some (some "203.0.113.9") }, .dsar, minutes * 60000000⟩

/-- Two an hour. -/
def twoAnHour : Budget := { setting := some 2 }

theorem refused_iff_third : (knock 50).answer twoAnHour
      (cacheAfter twoAnHour [knock 0, knock 20] empty) ≠ 0 ∧
    twoAnHour.rateLimit ≤ (recent windowSeconds (knock 50).now
      (admitted twoAnHour (knock 50).key [knock 0, knock 20] empty)).length := by
  have hsorted : ([knock 0, knock 20].map (·.now)).Pairwise (· ≤ ·) := by decide
  have hrefused : (knock 50).answer twoAnHour
      (cacheAfter twoAnHour [knock 0, knock 20] empty) ≠ 0 := by decide +kernel
  refine ⟨hrefused, (refused_iff hsorted).mpr ?_ hrefused⟩
  rintro ⟨-, -, first, hfirst, hold⟩
  obtain rfl : (knock 0).now = first := by
    refine Option.some.inj (Eq.trans ?_ hfirst)
    decide +kernel
  exact absurd hold (by decide)

/-- One call every forty minutes, of two an hour: the third is refused. -/
theorem refused_within_budget : ¬ ∀ (budget : Budget) (calls : List Spending) (call : Spending),
    ((calls ++ [call]).map (·.now)).Pairwise (· ≤ ·) →
    call.answer budget (cacheAfter budget calls empty) ≠ 0 → budget.rateLimit ≤
      (recent windowSeconds call.now (admitted budget call.key calls empty)).length := by
  intro hclaim
  exact absurd (hclaim twoAnHour [knock 0, knock 40] (knock 80) (by decide) (by decide +kernel))
    (by decide +kernel)

/-- What a call is answered depends on its own entry alone, and so does what it leaves there. -/
theorem spend_congr (h : cache call.entry = cache' call.entry) :
    call.answer budget cache = call.answer budget cache' ∧
      call.after budget cache call.entry = call.after budget cache' call.entry := by
  have hcount : call.count cache = call.count cache' := by
    unfold Spending.count Cache.get
    rw [h]
  have hwait : call.wait budget cache = call.wait budget cache' := by
    unfold Spending.wait
    rw [h]
  unfold Spending.answer Spending.after
  by_cases hlimit : 0 < budget.rateLimit
  · rw [spend_run hlimit, spend_run hlimit, hcount, hwait]
    by_cases hfull : budget.rateLimit ≤ call.count cache'
    · simp only [if_pos hfull]
      exact ⟨trivial, h⟩
    · simp [if_neg hfull, Cache.set]
  · rw [spend_off (not_lt.mp hlimit), spend_off (not_lt.mp hlimit)]
    exact ⟨rfl, h⟩

/-- A call leaves the other entries alone. -/
theorem after_other {k : String} (h : k ≠ call.entry) : call.after budget cache k = cache k := by
  unfold Spending.after
  by_cases hlimit : 0 < budget.rateLimit
  · rw [spend_run hlimit]
    split
    · rfl
    · exact if_neg h
  · rw [spend_off (not_lt.mp hlimit)]

/-- The others' calls can be left out. -/
theorem answers_filter (h : cache (budgetKey key.1 key.2) = cache' (budgetKey key.1 key.2)) :
    (answers budget calls cache).filter (·.1.key = key) =
      answers budget (calls.filter (·.key = key)) cache' := by
  induction calls generalizing cache cache' with
  | nil => rfl
  | cons call calls ih =>
      rw [answers]
      by_cases hkey : call.key = key
      · subst hkey
        have hanswer : call.answer budget cache = call.answer budget cache' := (spend_congr h).1
        have hafter : call.after budget cache call.entry = call.after budget cache' call.entry :=
          (spend_congr h).2
        rw [List.filter_cons_of_pos (by simp), List.filter_cons_of_pos (by simp), answers, hanswer]
        exact congrArg _ (ih hafter)
      · rw [List.filter_cons_of_neg (by simpa using hkey),
          List.filter_cons_of_neg (by simpa using hkey)]
        have hother : budgetKey key.1 key.2 ≠ call.entry :=
          fun h => hkey (budgetKey_injective h).symm
        exact ih ((after_other hother).trans h)

/-- **The admissions.** In every run no window of an hour admits more calls of a caller at a door
than the limit, and what the caller is answered there does not depend on anybody else's calls. -/
theorem never_over_admits (hlimit : 0 < budget.rateLimit)
    (hsorted : (calls.map (·.now)).Pairwise (· ≤ ·)) :
    (∀ key lo, (window windowSeconds lo (admitted budget key calls empty)).length ≤
      budget.rateLimit) ∧
    ∀ key, (answers budget calls empty).filter (·.1.key = key) =
      answers budget (calls.filter (·.key = key)) empty := by
  refine ⟨fun key lo => ?_, fun key => answers_filter rfl⟩
  have hwindow : (window windowSeconds lo (admitted budget key calls empty)).length ≤
      budget.rateLimit.toNat := window_le (admitted_sorted hsorted) (admitted_limited hlimit)
  omega

theorem never_over_admits_spaced :
    (window windowSeconds 0 (admitted twoAnHour (knock 0).key
      [knock 0, knock 20, knock 40, knock 100] empty)).length ≤ twoAnHour.rateLimit :=
  (never_over_admits (by decide) (by decide)).1 _ _

end StapelGdpr.Throttling
