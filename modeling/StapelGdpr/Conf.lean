import Mathlib.Data.Rat.Floor
import Mathlib.Data.String.Basic
import Mathlib.Data.List.Sort

/-!
# StapelGdpr.Conf

The `STAPEL_GDPR` settings namespace (`conf.py`), restricted to the keys the erasure side
of the module reads, and the pieces of Python's standard library those readers rely on.

A setting keeps every shape the source accepts: `DATA_OWNERS` is a map or a list, an
entry a bare name or a spec, a processor's `window_days` something `int()` may refuse.
-/

namespace StapelGdpr

/-! ### Python strings and dates -/

/-- `str.isspace` on one character (the Unicode whitespace Python strips). -/
def isSpace (c : Char) : Bool :=
  let n := c.toNat
  (9 ≤ n && n ≤ 13) || (28 ≤ n && n ≤ 32) || n == 0x85 || n == 0xA0 || n == 0x1680 ||
    (0x2000 ≤ n && n ≤ 0x200A) || n == 0x2028 || n == 0x2029 || n == 0x202F || n == 0x205F ||
    n == 0x3000

/-- `str.strip()`. -/
def strip (s : String) : String :=
  String.ofList ((s.toList.dropWhile isSpace).reverse.dropWhile isSpace).reverse

/-- `", ".join(names)`. -/
def commaJoin (names : List String) : String := String.intercalate ", " names

/-- `sorted(names)`: by code points. -/
def sorted (names : List String) : List String := names.insertionSort (· ≤ ·)

/-- `tuple(dict.fromkeys(names))`: first occurrences, in order. -/
def fromKeys (names : List String) : List String :=
  names.foldl (fun seen n => if n ∈ seen then seen else seen ++ [n]) []

/-- A moment, in microseconds since the epoch (aware datetimes, one zone). -/
abbrev Time := Int

/-- A `timedelta`, in microseconds. -/
abbrev Delta := Int

/-- `timedelta(days=n)`. -/
def days (n : Int) : Delta := n * 86400000000

theorem days_mono {v w : Int} (h : v ≤ w) : days v ≤ days w :=
  Int.mul_le_mul_of_nonneg_right h (by decide)

theorem days_add (m n : Int) : days (m + n) = days m + days n := Int.add_mul ..

/-- `datetime.min`. -/
def datetimeMin : Time := -62135596800000000

/-- `datetime.max`: 9999-12-31 23:59:59.999999. -/
def datetimeMax : Time := 253402300799999999

/-- Does a `datetime` hold this moment? Arithmetic that leaves the range raises. -/
def Representable (moment : Time) : Prop := datetimeMin ≤ moment ∧ moment ≤ datetimeMax
  deriving Decidable

/-- `timedelta(hours=h)`: to the nearest microsecond, ties to even. -/
def hours (h : ℚ) : Delta :=
  let exact := h * 3600000000
  let below := exact.floor
  let rest := exact - below
  if rest < 1 / 2 then below
  else if 1 / 2 < rest then below + 1
  else if below % 2 = 0 then below else below + 1

/-! ### Shapes of the settings -/

/-- What a declaration wrote under `subject_types`. -/
inductive SubjectTypes
  | one (name : String)
  | many (names : List String)
  deriving DecidableEq, Repr

/-- A spec dict of `DATA_OWNERS`; every key may be absent. -/
structure OwnerSpec where
  name : Option String := none
  kind : Option String := none
  timeoutHours : Option ℚ := none
  subjectTypes : Option SubjectTypes := none
  deriving DecidableEq

/-- One entry of the list form. -/
inductive OwnerEntry
  | bare (name : String)
  | dict (spec : OwnerSpec)
  deriving DecidableEq

/-- One value of the map form: subject types, or a full spec dict. -/
inductive OwnerValue
  | subjects (types : Option SubjectTypes)
  | dict (spec : OwnerSpec)
  deriving DecidableEq

/-- `DATA_OWNERS`. A map's keys are distinct, as a dict's are. -/
inductive DataOwners
  | map (entries : List (String × OwnerValue))
  | list (entries : List OwnerEntry)
  deriving DecidableEq

/-- What stands under `window_days`: absent, a value `int()` reads, or one it refuses. -/
inductive WindowDays
  | absent
  | int (n : Int)
  | malformed
  deriving DecidableEq, Repr

/-- One entry of `SUBPROCESSORS`. -/
inductive SubprocessorEntry
  | bare (name : String)
  | dict (name : Option String) (windowDays : WindowDays)
  deriving DecidableEq, Repr

/-- The settings, with the defaults of `conf.py`. -/
structure Settings where
  dataOwners : DataOwners := .list []
  dataOwnersVersion : String := ""
  subjectTypes : List String :=
    ["account", "workspace", "meeting", "recording", "document", "file"]
  erasureSlaDays : Int := 30
  ownerTimeoutHours : ℚ := 24
  subprocessors : List SubprocessorEntry := []
  remoteDeletionServices : List String := []
  allowErasureWithoutReceipts : Bool := false
  allowClosureWithoutSessionRevocation : Bool := false
  deriving DecidableEq

/-- `int(gdpr_settings.ERASURE_SLA_DAYS or 30)`. -/
def Settings.slaDays (settings : Settings) : Int :=
  if settings.erasureSlaDays = 0 then 30 else settings.erasureSlaDays

end StapelGdpr
