import HelmAddon.Api

/-! The library primitives the controller calls: cluster-api's condition helpers, apimachinery's label
    selectors and intstr's step scaling. None of them is in src/. The condition merge follows
    cluster-api's: groups ranked by mergePriority, sources without the condition skipped, and nothing
    set when none is left. The selector validation follows the rules apimachinery documents, on
    character lists so that it evaluates. The step scaling computes as intstr does, in float64 with
    amd64's conversion back to int, and Go's int sums wrap at 64 bits. -/

namespace HelmAddon

/-! ### Conditions -/

/-- cluster-api's mergePriority of the group of a condition, its status and severity: False by
    severity (Error, Warning, Info), then True, then Unknown. A False condition without a severity
    matches no case of the switch and comes last. --/
def Condition.mergePriority (c : Condition) : Nat :=
  match c.status, c.severity with
  | .conditionFalse, .error => 0
  | .conditionFalse, .warning => 1
  | .conditionFalse, .info => 2
  | .conditionFalse, .none => 99
  | .conditionTrue, _ => 3
  | .conditionUnknown, _ => 4

namespace Conditions

/-- conditions.Get. --/
def get (cs : Conditions) : ConditionType → Option Condition
  | .ready => cs.ready
  | .helmReleaseReady => cs.helmReleaseReady
  | .helmReleaseProxySpecsUpToDate => cs.helmReleaseProxySpecsUpToDate
  | .helmReleaseProxiesReady => cs.helmReleaseProxiesReady
  | .helmReleaseProxiesRolloutCompleted => cs.helmReleaseProxiesRolloutCompleted

/-- conditions.Set: the condition replaces the one of its type. --/
def set (cs : Conditions) (c : Condition) (t : ConditionType) : Conditions :=
  match cs, t with
  | ⟨_, h, s, p, o⟩, .ready => ⟨some c, h, s, p, o⟩
  | ⟨r, _, s, p, o⟩, .helmReleaseReady => ⟨r, some c, s, p, o⟩
  | ⟨r, h, _, p, o⟩, .helmReleaseProxySpecsUpToDate => ⟨r, h, some c, p, o⟩
  | ⟨r, h, s, _, o⟩, .helmReleaseProxiesReady => ⟨r, h, s, some c, o⟩
  | ⟨r, h, s, p, _⟩, .helmReleaseProxiesRolloutCompleted => ⟨r, h, s, p, some c⟩

@[simp] theorem get_set_self (cs : Conditions) (c : Condition) (t : ConditionType) :
    (cs.set c t).get t = some c := by
  cases t <;> rfl

@[simp] theorem get_set_of_ne (cs : Conditions) (c : Condition) {t u : ConditionType} (h : t ≠ u) :
    (cs.set c t).get u = cs.get u := by
  cases t <;> cases u <;> first | rfl | exact absurd rfl h

/-- conditions.IsTrue. --/
def isTrue (cs : Conditions) (t : ConditionType) : Bool :=
  match cs.get t with
  | some c => c.status == .conditionTrue
  | none => false

/-- conditions.IsFalse. --/
def isFalse (cs : Conditions) (t : ConditionType) : Bool :=
  match cs.get t with
  | some c => c.status == .conditionFalse
  | none => false

/-- conditions.IsUnknown: an absent condition is Unknown. --/
def isUnknown (cs : Conditions) (t : ConditionType) : Bool :=
  match cs.get t with
  | some c => c.status == .conditionUnknown
  | none => true

def trueCondition : Condition := ⟨.conditionTrue, "", .none, ""⟩

def unknownCondition : Condition := ⟨.conditionUnknown, "", .none, ""⟩

/-- conditions.MarkTrue. --/
def markTrue (cs : Conditions) (t : ConditionType) : Conditions :=
  cs.set trueCondition t

/-- conditions.MarkFalse. --/
def markFalse (cs : Conditions) (t : ConditionType) (reason : String) (severity : ConditionSeverity)
    (message : String) : Conditions :=
  cs.set ⟨.conditionFalse, reason, severity, message⟩ t

/-- conditions.MarkTrueWithNegativePolarity: a True condition that still carries a reason. --/
def markTrueWithNegativePolarity (cs : Conditions) (t : ConditionType) (reason : String)
    (severity : ConditionSeverity) (message : String) : Conditions :=
  cs.set ⟨.conditionTrue, reason, severity, message⟩ t

/-- A source's condition is True. An absent condition is not. --/
def holdsTrue (c : Option Condition) : Bool :=
  c.any (·.status == .conditionTrue)

/-- The condition that decides a merge: one of least merge priority, the first such in the list
    (getConditionGroups sorts the groups by priority, and the merge reads the top one). Groups of
    equal priority share a status, and False ones a severity, which is all the merge reads of them. --/
def topCondition : List Condition → Option Condition
  | [] => none
  | c :: cs =>
    match topCondition cs with
    | some d => if d.mergePriority < c.mergePriority then some d else some c
    | none => some c

/-- cluster-api's merge, as SetAggregate and SetSummary call it: sources without the condition are
    skipped, and with none left there is no condition. Otherwise the top group gives TrueCondition
    when it is True, a False condition of its severity when False, and an Unknown condition
    otherwise. The reason and message, which cluster-api takes from the first condition of the top
    group by source name (with AddSourceRef followed by the source's kind and name), are left out. --/
def merge (sources : List (Option Condition)) : Option Condition :=
  (topCondition (sources.filterMap id)).map fun top =>
    match top.status with
    | .conditionTrue => trueCondition
    | .conditionFalse => ⟨.conditionFalse, "", top.severity, ""⟩
    | .conditionUnknown => unknownCondition

/-- conditions.SetAggregate: the merge of the sources' Ready conditions; nothing is set when the
    merge gives no condition. --/
def setAggregate (cs : Conditions) (t : ConditionType) (sources : List (Option Condition)) :
    Conditions :=
  match merge sources with
  | some c => cs.set c t
  | none => cs

/-- conditions.SetSummary with `WithConditions`: Ready becomes the merge of those of the listed
    conditions the object has. --/
def setSummary (cs : Conditions) (ts : List ConditionType) : Conditions :=
  cs.setAggregate .ready ((ts.map cs.get).filter Option.isSome)

theorem topCondition_eq_none {cs : List Condition} : topCondition cs = none ↔ cs = [] := by
  cases cs with
  | nil => simp [topCondition]
  | cons c cs =>
    simp only [topCondition, reduceCtorEq, iff_false]
    split
    · split <;> simp
    · simp

/-- The top condition is one of the list, of least merge priority. --/
theorem topCondition_spec {cs : List Condition} {c : Condition} (h : topCondition cs = some c) :
    c ∈ cs ∧ ∀ d ∈ cs, c.mergePriority ≤ d.mergePriority := by
  induction cs generalizing c with
  | nil => cases h
  | cons x xs ih =>
    simp only [topCondition] at h
    cases hd : topCondition xs with
    | none =>
      rw [hd] at h
      cases h
      simp [topCondition_eq_none.mp hd]
    | some d =>
      rw [hd] at h
      obtain ⟨mem, least⟩ := ih hd
      by_cases hlt : d.mergePriority < x.mergePriority
      · simp only [hlt, ↓reduceIte, Option.some.injEq] at h
        subst h
        exact ⟨List.mem_cons_of_mem x mem, List.forall_mem_cons.mpr ⟨by omega, least⟩⟩
      · simp only [hlt, ↓reduceIte, Option.some.injEq] at h
        subst h
        exact ⟨List.mem_cons_self _ xs,
          List.forall_mem_cons.mpr ⟨le_rfl, fun e he => by have := least e he; omega⟩⟩

/-- A True merge: some source holds True, and none holds False with a severity, which would rank
    above it. --/
theorem merge_eq_true {sources : List (Option Condition)} {c : Condition} (h : merge sources = some c)
    (ht : c.status = .conditionTrue) :
    (∃ s ∈ sources, holdsTrue s = true) ∧
      ∀ d, some d ∈ sources → d.status = .conditionFalse → d.severity = .none := by
  obtain ⟨top, htop, rfl⟩ := Option.map_eq_some'.mp h
  obtain ⟨mem, least⟩ := topCondition_spec htop
  have top_true : top.status = .conditionTrue := by
    cases hs : top.status <;> simp_all [trueCondition, unknownCondition]
  refine ⟨⟨some top, by simpa using mem, by simp [holdsTrue, top_true]⟩, fun d hd hf => ?_⟩
  have := least d (by simpa using hd)
  revert this
  cases hsev : d.severity <;> simp [Condition.mergePriority, hf, hsev, top_true]

/-- The merge gives no condition exactly when no source has one. --/
theorem merge_eq_none {sources : List (Option Condition)} : merge sources = none ↔ ∀ s ∈ sources, s = none := by
  simp [merge, topCondition_eq_none, List.filterMap_eq_nil_iff]

/-- A target that SetAggregate leaves True: either the merge set it True, or no source has the
    condition and it was True before. --/
theorem isTrue_setAggregate {cs : Conditions} {t : ConditionType} {sources : List (Option Condition)}
    (h : (cs.setAggregate t sources).isTrue t = true) :
    ((∃ s ∈ sources, holdsTrue s = true) ∧
        ∀ d, some d ∈ sources → d.status = .conditionFalse → d.severity = .none) ∨
      ((∀ s ∈ sources, s = none) ∧ cs.isTrue t = true) := by
  unfold setAggregate at h
  cases hm : merge sources with
  | none => exact .inr ⟨merge_eq_none.mp hm, by simpa [hm] using h⟩
  | some c => exact .inl (merge_eq_true hm (by simpa [hm, isTrue] using h))

/-- Sources that all hold True merge to TrueCondition. --/
theorem merge_of_holdsTrue {sources : List (Option Condition)} (hne : sources ≠ [])
    (hs : ∀ c ∈ sources, holdsTrue c = true) : merge sources = some trueCondition := by
  have some_true : ∀ c ∈ sources.filterMap id, c.status = .conditionTrue := fun c mem => by
    have := hs (some c) (by simpa using mem)
    simpa [holdsTrue] using this
  obtain ⟨x, hx⟩ := List.exists_mem_of_ne_nil sources hne
  cases htop : topCondition (sources.filterMap id) with
  | none =>
    cases x with
    | none => simp [holdsTrue] at hs; exact absurd (hs none hx) (by decide)
    | some d =>
      have : d ∈ sources.filterMap id := by simpa using hx
      simp [topCondition_eq_none.mp htop] at this
  | some top => simp [merge, htop, some_true top (topCondition_spec htop).1]

end Conditions

/-! ### Label selectors -/

/-- selection.Operator, for the operators a LabelSelector converts to. --/
inductive SelectionOperator
  | opEquals
  | opIn
  | opNotIn
  | opExists
  | opDoesNotExist
  deriving DecidableEq, Repr

/-- labels.Requirement. --/
structure Requirement where
  key : String
  operator : SelectionOperator
  strValues : List String
  deriving DecidableEq, Repr

/-- labels.Selector: the conjunction of its requirements. --/
abbrev Selector := List Requirement

/-- A character of a label name: alphanumeric, `-`, `_` or `.`. --/
def isNameChar (c : Char) : Bool :=
  c.isAlphanum || c == '-' || c == '_' || c == '.'

/-- The name part of a qualified name: at most 63 characters, alphanumeric at both ends. --/
def isQualifiedNamePart (s : List Char) : Bool :=
  0 < s.length && s.length ≤ 63 && s.all isNameChar && s.head?.all Char.isAlphanum &&
    s.getLast?.all Char.isAlphanum

/-- A DNS-1123 label: lower-case alphanumerics and `-`, alphanumeric at both ends. --/
def isDNS1123Label (s : List Char) : Bool :=
  0 < s.length && s.all (fun c => c.isLower || c.isDigit || c == '-') &&
    s.head?.all (fun c => c.isLower || c.isDigit) && s.getLast?.all (fun c => c.isLower || c.isDigit)

/-- The parts of a list between the occurrences of a separator. --/
def splitOnChar (sep : Char) : List Char → List (List Char)
  | [] => [[]]
  | c :: cs =>
    match splitOnChar sep cs with
    | p :: ps => if c = sep then [] :: p :: ps else (c :: p) :: ps
    | [] => [[c]]

/-- validation.IsDNS1123Subdomain: dot-separated labels, at most 253 characters. --/
def isDNS1123Subdomain (s : List Char) : Bool :=
  s.length ≤ 253 && (splitOnChar '.' s).all isDNS1123Label

/-- validation.IsQualifiedName: a name part, optionally after a DNS subdomain prefix and `/`. --/
def isQualifiedName (s : String) : Bool :=
  match splitOnChar '/' s.toList with
  | [name] => isQualifiedNamePart name
  | [pre, name] => isDNS1123Subdomain pre && isQualifiedNamePart name
  | _ => false

/-- validation.IsValidLabelValue: empty, or a name part. --/
def isValidLabelValue (s : String) : Bool :=
  s.isEmpty || isQualifiedNamePart s.toList

/-- The number of values each operator admits. --/
def SelectionOperator.admits : SelectionOperator → List String → Bool
  | .opIn, vals | .opNotIn, vals => !vals.isEmpty
  | .opEquals, vals => vals.length == 1
  | .opExists, vals | .opDoesNotExist, vals => vals.isEmpty

/-- labels.NewRequirement: the key, the number of values and each value are validated. --/
def newRequirement (key : String) (op : SelectionOperator) (vals : List String) :
    Except String Requirement :=
  if !isQualifiedName key then .error s!"key: Invalid value: \"{key}\""
  else if !op.admits vals then .error s!"values: Invalid value: wrong number of values for \"{key}\""
  else if !vals.all isValidLabelValue then .error s!"values: Invalid value: a value of \"{key}\""
  else .ok ⟨key, op, vals⟩

/-- The operators a LabelSelectorRequirement may name. --/
def labelSelectorOperator (op : String) : Except String SelectionOperator :=
  if op = "In" then .ok .opIn
  else if op = "NotIn" then .ok .opNotIn
  else if op = "Exists" then .ok .opExists
  else if op = "DoesNotExist" then .ok .opDoesNotExist
  else .error s!"\"{op}\" is not a valid label selector operator"

/-- metav1.LabelSelectorAsSelector: an empty selector selects everything; otherwise each label and
    each expression becomes a validated requirement. --/
def labelSelectorAsSelector (ps : LabelSelector) : Except String Selector :=
  if ps.matchLabels.length + ps.matchExpressions.length = 0 then .ok []
  else do
    let fromLabels ← ps.matchLabels.mapM fun kv => newRequirement kv.1 .opEquals [kv.2]
    let fromExpressions ← ps.matchExpressions.mapM fun expr => do
      let op ← labelSelectorOperator expr.operator
      newRequirement expr.key op expr.values
    return fromLabels ++ fromExpressions

/-- labels.Requirement.Matches. --/
def Requirement.matches (r : Requirement) (ls : Labels) : Bool :=
  match r.operator, ls.lookup r.key with
  | .opEquals, some v | .opIn, some v => r.strValues.contains v
  | .opEquals, none | .opIn, none => false
  | .opNotIn, some v => !r.strValues.contains v
  | .opNotIn, none => true
  | .opExists, v => v.isSome
  | .opDoesNotExist, v => v.isNone

/-- labels.Selector.Matches. --/
def Selector.matches (sel : Selector) (ls : Labels) : Bool :=
  sel.all (·.matches ls)

/-! ### Step scaling -/

/-- strconv.Atoi: an optional sign and at least one decimal digit, within the int64 range (from -2^63
    to 2^63 - 1). --/
def atoi (s : List Char) : Option Int :=
  let (neg, digits) : Bool × List Char :=
    match s with
    | '-' :: ds => (true, ds)
    | '+' :: ds => (false, ds)
    | ds => (false, ds)
  if digits.isEmpty || !digits.all Char.isDigit then none
  else
    let n : Nat := digits.foldl (fun n c => 10 * n + (c.toNat - '0'.toNat)) 0
    let v : Int := if neg then -n else n
    if v < -9223372036854775808 ∨ 9223372036854775808 ≤ v then none else some v

/-- intstr.getIntOrPercentValueSafely: an int, or a string with a `%` suffix and an integer before. --/
def getIntOrPercentValueSafely : IntOrString → Except String (Int × Bool)
  | .int v => .ok (v, false)
  | .string s =>
    if s.toList.getLast? = some '%' then
      match atoi s.toList.dropLast with
      | some v => .ok (v, true)
      | none => .error s!"invalid value \"{s}\": strconv.Atoi: invalid syntax"
    else .error "invalid type: string is not a percentage"

/-! ### Go's int and float64 -/

/-- Go's `int` on a 64-bit platform keeps an integer modulo 2^64 in [-2^63, 2^63): a sum that leaves
    that range wraps around. --/
def wrapInt64 (x : Int) : Int :=
  (x + 9223372036854775808) % 18446744073709551616 - 9223372036854775808

/-- A value inside the int64 range does not wrap. --/
theorem wrapInt64_of_lt {x : Int} (h0 : -9223372036854775808 ≤ x) (h1 : x < 9223372036854775808) :
    wrapInt64 x = x := by
  unfold wrapInt64
  omega

/-- The number of binary digits of `n`, 0 for 0. The recursion runs on a fuel of `n` itself, so that
    the function evaluates. --/
def bitLength (n : Nat) : Nat :=
  go n n
where
  /-- The halvings of `m`, at most `fuel` of them. --/
  go : Nat → Nat → Nat
    | 0, _ => 0
    | fuel + 1, m => if m = 0 then 0 else go fuel (m / 2) + 1

/-- `a / b` rounded to the nearest natural number, ties to even. --/
def divRoundEven (a b : Nat) : Nat :=
  let q := a / b
  let r := a % b
  if 2 * r < b then q else if b < 2 * r then q + 1 else if q % 2 = 0 then q else q + 1

/-- The binary64 nearest to `a / b`, for `b > 0`, ties to even, as a significand `m` and an exponent
    `e` of the value `m * 2^e`. The exponent puts `a / (b * 2^e)` in [2^52, 2^53), so that `m` has 53
    bits (or is 2^53 after a carry). The exponent range of binary64 is left out: the values intstr
    rounds are int64 values, their product and that product divided by 100, all between 2^-7 and
    2^127 in magnitude, inside the normal range. --/
def roundBinary64 (a b : Nat) : Nat × Int :=
  if a = 0 then (0, 0) else
  let scaled (e : Int) : Nat × Nat := if 0 ≤ e then (a, b <<< e.toNat) else (a <<< (-e).toNat, b)
  let e₀ : Int := (bitLength a : Int) - bitLength b - 53
  let e := if (scaled e₀).2 <<< 53 ≤ (scaled e₀).1 then e₀ + 1 else e₀
  (divRoundEven (scaled e).1 (scaled e).2, e)

/-- math.Floor and math.Ceil of the binary64 nearest to `p / q`, for an integer `p` and `q > 0`.
    Rounding to nearest is symmetric in the sign. --/
def binary64FloorCeil (p : Int) (q : Nat) : Int × Int :=
  let r := roundBinary64 p.natAbs q
  let k := (-r.2).toNat
  let down : Nat := if 0 ≤ r.2 then r.1 <<< r.2.toNat else r.1 >>> k
  let up : Nat := if 0 ≤ r.2 then down else (r.1 + (1 <<< k) - 1) >>> k
  if 0 ≤ p then (down, up) else (-(up : Int), -(down : Int))

/-- float64(n) of an integer: the nearest binary64, ties to even, which is again an integer. --/
def float64OfInt (n : Int) : Int :=
  (binary64FloorCeil n 1).1

example : float64OfInt 9007199254740993 = 9007199254740992 ∧ float64OfInt 9007199254740995 = 9007199254740996 ∧
    float64OfInt (-9007199254740993) = -9007199254740992 := by
  decide

/-- Go's conversion of an integral float64 to int on amd64 (CVTTSD2SQ): a value outside the int64
    range gives -2^63. --/
def float64ToInt (x : Int) : Int :=
  if -9223372036854775808 ≤ x ∧ x < 9223372036854775808 then x else -9223372036854775808

/-- intstr.GetScaledValueFromIntOrPercent. A percentage `p` of `total` is Go's
    `int(math.Ceil(float64(p) * float64(total) / 100))`, or math.Floor when not rounding up: each
    float64 operation rounds to the nearest binary64, and the conversion to int is amd64's. --/
def getScaledValueFromIntOrPercent (intOrPercent : Option IntOrString) (total : Nat) (roundUp : Bool) :
    Except String Int :=
  match intOrPercent with
  | none => .error "nil value for IntOrString"
  | some v =>
    match getIntOrPercentValueSafely v with
    | .error e => .error s!"invalid value for IntOrString: {e}"
    | .ok (value, isPercent) =>
      if isPercent then
        let scaled := binary64FloorCeil (float64OfInt (float64OfInt value * float64OfInt total)) 100
        .ok (float64ToInt (if roundUp then scaled.2 else scaled.1))
      else .ok value

/-- Past 2^53 float64 rounds the percentage: 9007199254741001 becomes 9007199254741000. --/
example : getScaledValueFromIntOrPercent (some (.string "9007199254741001%")) 1 true = .ok 90071992547410 := by
  rfl

/-- 2^63 - 1 rounds up to 2^63, which amd64 converts to -2^63. --/
example : getScaledValueFromIntOrPercent (some (.string "9223372036854775807%")) 100 true =
    .ok (-9223372036854775808) := by
  rfl

example : getScaledValueFromIntOrPercent (some (.string "25%")) 10 true = .ok 3 := by rfl

example : getScaledValueFromIntOrPercent (some (.string "-25%")) 10 true = .ok (-2) := by rfl

end HelmAddon
