import MoDb.Lib.Meter
import MoDb.Proxy.Policy
import Mathlib.Data.Rat.Cast.Order
import Mathlib.Algebra.Order.Ring.Rat

/-!
# The limit of calls

Each account of a `RateLimitPolicy` has a bucket of tokens, and a principal has one more for all of its
delegates together. A call that is allowed took a token of each bucket that it is charged to. Tokens are
rationals here, and the clock counts nanoseconds.
-/

namespace MoDb.Proxy.RateLimit

open Storage (Bytes)
open Net

/-! ### The policy and its clock -/

/-- A reading of the clock, in nanoseconds from its origin. -/
abbrev TimePoint := Int

def seconds (time : TimePoint) : ℚ := time / 1000000000

structure Account where
  tokens : ℚ := 0
  refilled : TimePoint := 0
  streams : Nat := 0

/-- The account of each key; one that was never named is new. -/
abbrev Ledger := Bytes → Account

def take (account : Account) (perSecond : Nat) (now : TimePoint) : Bool × Account :=
  let tokens : ℚ :=
    if account.refilled = 0 then perSecond
    else min (perSecond : ℚ) (account.tokens + seconds (now - account.refilled) * perSecond)
  if tokens < 1 then (false, { account with tokens := tokens, refilled := now })
  else (true, { account with tokens := tokens - 1, refilled := now })

def charge (ledger : Ledger) (key : Bytes) (perSecond : Nat) (now : TimePoint) : Bool × Ledger :=
  if 0 < perSecond then
    ((take (ledger key) perSecond now).1, Function.update ledger key (take (ledger key) perSecond now).2)
  else (true, ledger)

def delegatesKey (principal : Bytes) : Bytes := text "delegates:" ++ principal

/-- `authorize` of a call. -/
def authorizeCall (limits : RateLimit) (ledger : Ledger) (caller : Caller) (now : TimePoint) :
    Decision × Ledger :=
  match charge ledger (keyOf caller) limits.callsPerSecond now with
  | (false, ledger) =>
    ({ allowed := false,
       message := text s!"rate limit: more than {limits.callsPerSecond} calls per second" }, ledger)
  | (true, ledger) =>
    if caller.delegated then
      match charge ledger (delegatesKey caller.principal) limits.delegatedCallsPerSecond now with
      | (false, ledger) =>
        ({ allowed := false,
           message := text s!"rate limit: more than {limits.delegatedCallsPerSecond} delegated calls per second for "
             ++ caller.principal }, ledger)
      | (true, ledger) => ({}, ledger)
    else ({}, ledger)

/-- `authorize` of a query. -/
def authorizeQuery (limits : RateLimit) (ledger : Ledger) (caller : Caller) : Decision × Ledger :=
  if limits.streamsPerPrincipal = 0 then ({}, ledger)
  else if limits.streamsPerPrincipal ≤ (ledger (keyOf caller)).streams then
    ({ allowed := false, message := text s!"limit: {limits.streamsPerPrincipal} open streams" }, ledger)
  else
    ({}, Function.update ledger (keyOf caller)
      { ledger (keyOf caller) with streams := (ledger (keyOf caller)).streams + 1 })

/-- `RateLimitPolicy::authorize`, with the clock. -/
def authorizeAt (limits : RateLimit) (ledger : Ledger) (caller : Caller) (request : Message)
    (now : TimePoint) : Decision × Ledger :=
  match request with
  | .opCall _ => authorizeCall limits ledger caller now
  | .query _ => authorizeQuery limits ledger caller
  | _ => ({}, ledger)

/-- `RateLimitPolicy::audit`. -/
def auditAt (limits : RateLimit) (ledger : Ledger) (record : AuditRecord) : Ledger :=
  if record.kind ≠ .query ∨ record.denied ∨ limits.streamsPerPrincipal = 0 then ledger
  else
    Function.update ledger (keyOf record.caller)
      { ledger (keyOf record.caller) with streams := (ledger (keyOf record.caller)).streams - 1 }

def tokensAt (limits : RateLimit) (ledger : Ledger) (caller : Caller) (now : TimePoint) : Tokens :=
  let own := charge ledger (keyOf caller) limits.callsPerSecond now
  { call := own.1
    delegated := (charge own.2 (delegatesKey caller.principal) limits.delegatedCallsPerSecond now).1 }

def openStreams (ledger : Ledger) : Accounts := fun key => (ledger key).streams

theorem streams_take (account : Account) (perSecond : Nat) (now : TimePoint) :
    (take account perSecond now).2.streams = account.streams := by
  rw [take]
  by_cases hfresh : account.refilled = 0
  · rw [if_pos hfresh]
    split <;> rfl
  · rw [if_neg hfresh]
    split <;> rfl

theorem openStreams_charge (ledger : Ledger) (key : Bytes) (perSecond : Nat) (now : TimePoint) :
    openStreams (charge ledger key perSecond now).2 = openStreams ledger := by
  rw [charge]
  split
  · funext other
    rw [openStreams, openStreams]
    by_cases hother : other = key
    · subst hother
      dsimp only
      rw [Function.update_self, streams_take]
    · dsimp only
      rw [Function.update_of_ne hother]
  · rfl

theorem openStreams_update (ledger : Ledger) (key : Bytes) (streams : Nat) :
    openStreams (Function.update ledger key { ledger key with streams := streams }) =
      Function.update (openStreams ledger) key streams := by
  funext other
  rw [openStreams]
  by_cases hother : other = key
  · subst hother
    rw [Function.update_self, Function.update_self]
  · rw [Function.update_of_ne hother, Function.update_of_ne hother]
    rfl

theorem pos_of_charge {ledger : Ledger} {key : Bytes} {perSecond : Nat} {now : TimePoint}
    (h : (charge ledger key perSecond now).1 = false) : 0 < perSecond := by
  rw [charge] at h
  split at h
  · assumption
  · cases h

theorem authorizeAt_refines (limits : RateLimit) (ledger : Ledger) (caller : Caller) (request : Message)
    (now : TimePoint) :
    authorize limits (openStreams ledger) (tokensAt limits ledger caller now) caller request =
      ((authorizeAt limits ledger caller request now).1, request,
        openStreams (authorizeAt limits ledger caller request now).2) := by
  cases request with
  | opCall call =>
    have hown := openStreams_charge ledger (keyOf caller) limits.callsPerSecond now
    have hpos := @pos_of_charge ledger (keyOf caller) limits.callsPerSecond now
    rw [authorize, tokensAt, authorizeAt, authorizeCall]
    revert hown hpos
    rcases charge ledger (keyOf caller) limits.callsPerSecond now with ⟨ok, ledger'⟩
    intro hown hpos
    dsimp only at hown hpos ⊢
    cases ok with
    | false => rw [if_pos ⟨hpos rfl, rfl⟩, ← hown]
    | true =>
      dsimp only
      rw [if_neg fun h => Bool.false_ne_true h.2.symm]
      by_cases hdelegated : caller.delegated = true
      · rw [if_pos hdelegated]
        have hown' := openStreams_charge ledger' (delegatesKey caller.principal) limits.delegatedCallsPerSecond now
        have hpos' := @pos_of_charge ledger' (delegatesKey caller.principal) limits.delegatedCallsPerSecond now
        revert hown' hpos'
        rcases charge ledger' (delegatesKey caller.principal) limits.delegatedCallsPerSecond now with ⟨ok, ledger''⟩
        intro hown' hpos'
        dsimp only at hown' hpos' ⊢
        cases ok with
        | false => rw [if_pos ⟨hdelegated, hpos' rfl, rfl⟩, hown', hown]
        | true => rw [if_neg fun h => Bool.false_ne_true h.2.2.symm, hown', hown]
      · rw [if_neg hdelegated, if_neg fun h => hdelegated h.1, hown]
  | query query =>
    rw [authorize, authorizeAt, authorizeQuery]
    by_cases hoff : limits.streamsPerPrincipal = 0
    · rw [if_pos hoff, if_pos hoff]
    · rw [if_neg hoff, if_neg hoff]
      by_cases hfull : limits.streamsPerPrincipal ≤ (ledger (keyOf caller)).streams
      · rw [if_pos hfull]
        exact if_pos hfull
      · rw [if_neg hfull, openStreams_update]
        exact if_neg hfull
  | _ => rfl

theorem auditAt_refines (limits : RateLimit) (ledger : Ledger) (record : AuditRecord) :
    openStreams (auditAt limits ledger record) = audit limits (openStreams ledger) record := by
  rw [auditAt, audit]
  split
  · rfl
  · exact openStreams_update _ _ _

/-! ### Runs -/

inductive Action where
  | authorize (caller : Caller) (request : Message)
  | audit (record : AuditRecord)

/-- Something that happens to the policy, and when. -/
structure Event where
  now : TimePoint
  action : Action

def step (limits : RateLimit) (ledger : Ledger) (event : Event) : Ledger :=
  match event.action with
  | .authorize caller request => (authorizeAt limits ledger caller request event.now).2
  | .audit record => auditAt limits ledger record

/-- Whether an event is a call that the policy allows, of a caller that is asked for, in a window. -/
def counts (limits : RateLimit) (counted : Caller → Bool) (start d : ℚ) (ledger : Ledger) (event : Event) :
    Bool :=
  match event.action with
  | .authorize caller (.opCall call) =>
    (authorizeAt limits ledger caller (.opCall call) event.now).1.allowed && counted caller &&
      decide (start ≤ seconds event.now ∧ seconds event.now ≤ start + d)
  | _ => false

def allowedCalls (limits : RateLimit) (counted : Caller → Bool) (start d : ℚ) (events : List Event) : Nat :=
  Meter.tally (step limits) (counts limits counted start d) (fun _ => {}) events

/-! ### Keys -/

theorem keyOf_ne_delegatesKey (caller : Caller) (principal : Bytes) : keyOf caller ≠ delegatesKey principal := by
  have huser : text "user:" = 117 :: text "ser:" := by decide +kernel
  have hhost : text "host:" = 104 :: text "ost:" := by decide +kernel
  have hdelegates : text "delegates:" = 100 :: text "elegates:" := by decide +kernel
  intro h
  rw [keyOf, delegatesKey, huser, hhost, hdelegates] at h
  split at h
  · exact absurd (List.cons.inj h).1 (by decide)
  · split at h
    · exact absurd (List.cons.inj h).1 (by decide)
    · exact absurd (List.cons.inj h).1 (by decide)

/-! ### Accounts as buckets -/

def Account.bucket (account : Account) : Meter.Bucket ℚ :=
  ⟨account.tokens, if account.refilled = 0 then none else some (seconds account.refilled)⟩

theorem seconds_mono {time later : TimePoint} (h : time ≤ later) : seconds time ≤ seconds later :=
  div_le_div_of_nonneg_right (Int.cast_le.2 h) (by norm_num)

theorem seconds_pos {time : TimePoint} : 0 < seconds time ↔ 0 < time := by
  rw [seconds, div_pos_iff_of_pos_right (by norm_num), Int.cast_pos]

theorem seconds_sub (time last : TimePoint) : seconds (time - last) = seconds time - seconds last := by
  rw [seconds, Int.cast_sub, sub_div]
  rfl

theorem level_bucket (account : Account) (perSecond : Nat) (now : TimePoint) :
    account.bucket.level (perSecond : ℚ) perSecond (seconds now) =
      if account.refilled = 0 then (perSecond : ℚ)
      else min (perSecond : ℚ) (account.tokens + seconds (now - account.refilled) * perSecond) := by
  rw [Meter.Bucket.level, Account.bucket]
  by_cases hfresh : account.refilled = 0
  · rw [if_pos hfresh, if_pos hfresh]
  · rw [if_neg hfresh, if_neg hfresh, seconds_sub]

theorem take_bucket (account : Account) (perSecond : Nat) {now : TimePoint} (hnow : now ≠ 0) :
    (take account perSecond now).1 = (account.bucket.take (perSecond : ℚ) perSecond (seconds now)).1 ∧
      (take account perSecond now).2.bucket = (account.bucket.take (perSecond : ℚ) perSecond (seconds now)).2 := by
  rw [take, Meter.Bucket.take, level_bucket]
  generalize (if account.refilled = 0 then (perSecond : ℚ)
    else min (perSecond : ℚ) (account.tokens + seconds (now - account.refilled) * perSecond)) = tokens
  split
  · exact ⟨rfl, congrArg (Meter.Bucket.mk _) (if_neg hnow)⟩
  · exact ⟨rfl, congrArg (Meter.Bucket.mk _) (if_neg hnow)⟩

/-! ### What a step pays -/

section Paid

variable {key : Bytes} {rate : Nat} {ledger : Ledger} {now : TimePoint}

def level (key : Bytes) (rate : Nat) (ledger : Ledger) (now : ℚ) : ℚ :=
  (ledger key).bucket.level (rate : ℚ) rate now

/-- The clock is past its origin, and the account was not refilled later. -/
def Valid (key : Bytes) (ledger : Ledger) (now : ℚ) : Prop :=
  0 < now ∧ (ledger key).bucket.Valid now

theorem charge_spec (hrate : 0 < rate) (hvalid : Valid key ledger (seconds now)) {charged : Bytes} {perSecond : Nat}
    (hsame : charged = key → perSecond = rate) :
    Valid key (charge ledger charged perSecond now).2 (seconds now) ∧
      level key rate (charge ledger charged perSecond now).2 (seconds now) +
          (if charged = key ∧ (charge ledger charged perSecond now).1 then 1 else 0) =
        level key rate ledger (seconds now) := by
  have hnow : now ≠ 0 := (seconds_pos.1 hvalid.1).ne'
  have hrate' : (0 : ℚ) ≤ rate := Nat.cast_nonneg rate
  rw [charge]
  by_cases hkey : charged = key
  · subst hkey
    obtain rfl := hsame rfl
    rw [if_pos hrate]
    obtain ⟨hfirst, hsecond⟩ := take_bucket (ledger charged) perSecond hnow
    have htake := @Meter.Bucket.level_take ℚ _ _ perSecond perSecond (seconds now) (ledger charged).bucket _
    dsimp only
    rw [Valid, level, level, Function.update_self, hfirst, hsecond]
    refine ⟨⟨hvalid.1, hvalid.2.take hrate' hrate'⟩, ?_⟩
    rw [← htake]
    congr 1
    exact if_congr (and_iff_right rfl) rfl rfl
  · have hother : (if 0 < perSecond then
        ((take (ledger charged) perSecond now).1,
          Function.update ledger charged (take (ledger charged) perSecond now).2)
        else (true, ledger)).2 key = ledger key := by
      split
      · exact Function.update_of_ne (Ne.symm hkey) _ _
      · rfl
    rw [Valid, level, level, hother, if_neg fun h => hkey h.1, add_zero]
    exact ⟨hvalid, rfl⟩

def Pays (key : Bytes) (caller : Caller) : Prop :=
  keyOf caller = key ∨ caller.delegated = true ∧ delegatesKey caller.principal = key

/-- The limit that is set on an account. -/
structure Limits (limits : RateLimit) (key : Bytes) (rate : Nat) : Prop where
  positive : 0 < rate
  own : ∀ caller, keyOf caller = key → limits.callsPerSecond = rate
  delegates : ∀ principal, delegatesKey principal = key → limits.delegatedCallsPerSecond = rate

variable {limits : RateLimit}

theorem authorizeCall_spec (hlimits : Limits limits key rate) (hvalid : Valid key ledger (seconds now))
    (caller : Caller) :
    Valid key (authorizeCall limits ledger caller now).2 (seconds now) ∧
      (level key rate (authorizeCall limits ledger caller now).2 (seconds now) ≤ level key rate ledger (seconds now) ∧
      ((authorizeCall limits ledger caller now).1.allowed = true → Pays key caller →
        level key rate (authorizeCall limits ledger caller now).2 (seconds now) + 1 ≤
          level key rate ledger (seconds now))) := by
  obtain ⟨hfirst, hpaid⟩ := charge_spec hlimits.positive hvalid (hlimits.own caller)
  rw [authorizeCall]
  revert hfirst hpaid
  rcases charge ledger (keyOf caller) limits.callsPerSecond now with ⟨ok, ledger'⟩
  intro hfirst hpaid
  dsimp only at hfirst hpaid
  cases ok with
  | false =>
    rw [if_neg fun h => Bool.false_ne_true h.2, add_zero] at hpaid
    exact ⟨hfirst, hpaid.le, fun hallowed => absurd hallowed Bool.false_ne_true⟩
  | true =>
    dsimp only
    by_cases hdelegated : caller.delegated = true
    · rw [if_pos hdelegated]
      obtain ⟨hsecond, hpaid'⟩ := charge_spec hlimits.positive hfirst (hlimits.delegates caller.principal)
      revert hsecond hpaid'
      rcases charge ledger' (delegatesKey caller.principal) limits.delegatedCallsPerSecond now with ⟨ok, ledger''⟩
      intro hsecond hpaid'
      dsimp only at hsecond hpaid'
      have hcost (p : Prop) [Decidable p] : (0 : ℚ) ≤ if p then 1 else 0 := by
        split
        · exact zero_le_one
        · exact le_refl 0
      have hle := hcost (keyOf caller = key ∧ true = true)
      have hle' := hcost (delegatesKey caller.principal = key ∧ ok = true)
      cases ok with
      | false => exact ⟨hsecond, by linarith, fun hallowed => absurd hallowed Bool.false_ne_true⟩
      | true =>
        refine ⟨hsecond, by linarith, fun _ hpays => ?_⟩
        dsimp only
        rcases hpays with hkey | ⟨_, hkey⟩
        · rw [if_pos ⟨hkey, rfl⟩] at hpaid
          linarith
        · rw [if_pos ⟨hkey, rfl⟩] at hpaid'
          linarith
    · rw [if_neg hdelegated]
      refine ⟨hfirst, ?_, fun _ hpays => ?_⟩
      · dsimp only
        rw [← hpaid]
        apply le_add_of_nonneg_right
        split
        · exact zero_le_one
        · exact le_refl 0
      · have hkey := hpays.resolve_right fun h => hdelegated h.1
        rw [if_pos ⟨hkey, rfl⟩] at hpaid
        exact hpaid.le

end Paid

theorem bucket_streams (ledger : Ledger) (changed key : Bytes) (streams : Nat) :
    (Function.update ledger changed { ledger changed with streams := streams } key).bucket =
      (ledger key).bucket := by
  by_cases hkey : key = changed
  · subst hkey
    rw [Function.update_self]
    rfl
  · rw [Function.update_of_ne hkey]

theorem bucket_authorizeQuery (limits : RateLimit) (ledger : Ledger) (caller : Caller) (key : Bytes) :
    ((authorizeQuery limits ledger caller).2 key).bucket = (ledger key).bucket := by
  rw [authorizeQuery]
  split
  · rfl
  · split
    · rfl
    · exact bucket_streams _ _ _ _

theorem bucket_auditAt (limits : RateLimit) (ledger : Ledger) (record : AuditRecord) (key : Bytes) :
    (auditAt limits ledger record key).bucket = (ledger key).bucket := by
  rw [auditAt]
  split
  · rfl
  · exact bucket_streams _ _ _ _

section Step

variable {limits : RateLimit} {key : Bytes} {rate : Nat} {counted : Caller → Bool}

theorem step_spec (hlimits : Limits limits key rate) (hpays : ∀ caller, counted caller = true → Pays key caller)
    (start d : ℚ) {ledger : Ledger} {event : Event} (hvalid : Valid key ledger (seconds event.now)) :
    Valid key (step limits ledger event) (seconds event.now) ∧
      level key rate (step limits ledger event) (seconds event.now) +
          (if counts limits counted start d ledger event then 1 else 0) ≤
        level key rate ledger (seconds event.now) := by
  have hidle {ledger' : Ledger} (hsame : (ledger' key).bucket = (ledger key).bucket) :
      Valid key ledger' (seconds event.now) ∧
        level key rate ledger' (seconds event.now) + (if false = true then 1 else 0) ≤
          level key rate ledger (seconds event.now) := by
    rw [Valid, level, level, hsame, if_neg Bool.false_ne_true, add_zero]
    exact ⟨hvalid, le_refl _⟩
  obtain ⟨now, action⟩ := event
  cases action with
  | audit record => exact hidle (bucket_auditAt limits ledger record key)
  | authorize caller request =>
    cases request with
    | query query => exact hidle (bucket_authorizeQuery limits ledger caller key)
    | opCall call =>
      obtain ⟨hnext, hle, hpaid⟩ := authorizeCall_spec hlimits hvalid caller
      refine ⟨hnext, ?_⟩
      by_cases hcounts : counts limits counted start d ledger ⟨now, .authorize caller (.opCall call)⟩ = true
      · rw [if_pos hcounts]
        rw [counts, Bool.and_eq_true, Bool.and_eq_true] at hcounts
        exact hpaid hcounts.1.1 (hpays caller hcounts.1.2)
      · rw [if_neg hcounts, add_zero]
        exact hle
    | _ => exact hidle rfl

theorem metered (hlimits : Limits limits key rate) (hpays : ∀ caller, counted caller = true → Pays key caller)
    (start d : ℚ) :
    Meter.Metered (step limits) (counts limits counted start d) (fun event => seconds event.now)
      (rate : ℚ) rate (Valid key) (level key rate) := by
  have hrate : (0 : ℚ) ≤ rate := Nat.cast_nonneg rate
  exact ⟨fun ledger now => Meter.Bucket.level_le_burst,
    fun ledger now later hle => Meter.Bucket.level_mono hrate hle,
    fun ledger now hvalid => hvalid.2.level_nonneg hrate hrate,
    fun ledger now later hvalid hle => ⟨hvalid.1.trans_le hle, hvalid.2.mono hle⟩,
    fun ledger event hvalid => (step_spec hlimits hpays start d hvalid).1,
    fun ledger event hvalid => (step_spec hlimits hpays start d hvalid).2⟩

theorem allowedCalls_le (hlimits : Limits limits key rate)
    (hpays : ∀ caller, counted caller = true → Pays key caller) {events : List Event}
    (hclock : ∀ event ∈ events, 0 < event.now)
    (hsorted : events.Pairwise fun event next => event.now ≤ next.now) {start d : ℚ} (hd : 0 ≤ d) :
    (allowedCalls limits counted start d events : ℚ) ≤ rate * d + rate := by
  have hrate : (0 : ℚ) ≤ rate := Nat.cast_nonneg rate
  apply (metered hlimits hpays start d).tally_le hrate hd (hsorted.imp seconds_mono)
  · intro ledger event _ hcounts
    rw [counts] at hcounts
    split at hcounts
    · rw [Bool.and_eq_true, decide_eq_true_iff] at hcounts
      exact hcounts.2
    · cases hcounts
  · intro event hevent
    have hnow := seconds_pos.2 (hclock event hevent)
    exact ⟨hnow, le_refl 0, fun last hlast => by cases hlast⟩
  · exact hrate

end Step

/-- In every window of `d` seconds an account is allowed at most `rate * d + rate` calls, where its rate is
set, and so are the delegates of a principal together. -/
theorem allowedCalls_within_rate (limits : RateLimit) (events : List Event)
    (hclock : ∀ event ∈ events, 0 < event.now)
    (hsorted : events.Pairwise fun event next => event.now ≤ next.now) (start d : ℚ) (hd : 0 ≤ d) :
    (0 < limits.callsPerSecond → ∀ caller,
      (allowedCalls limits (fun other => keyOf other = keyOf caller) start d events : ℚ) ≤
        limits.callsPerSecond * d + limits.callsPerSecond) ∧
    (0 < limits.delegatedCallsPerSecond → ∀ principal,
      (allowedCalls limits (fun other => other.delegated && decide (other.principal = principal)) start d events : ℚ) ≤
        limits.delegatedCallsPerSecond * d + limits.delegatedCallsPerSecond) := by
  constructor
  · intro hpositive caller
    have hlimits : Limits limits (keyOf caller) limits.callsPerSecond :=
      ⟨hpositive, fun _ _ => rfl, fun principal hkey => absurd hkey.symm (keyOf_ne_delegatesKey caller principal)⟩
    exact allowedCalls_le hlimits (fun other hother => .inl (of_decide_eq_true hother)) hclock hsorted hd
  · intro hpositive principal
    have hlimits : Limits limits (delegatesKey principal) limits.delegatedCallsPerSecond :=
      ⟨hpositive, fun caller hkey => absurd hkey (keyOf_ne_delegatesKey caller principal), fun _ _ => rfl⟩
    refine allowedCalls_le hlimits (fun other hother => .inr ?_) hclock hsorted hd
    rw [Bool.and_eq_true, decide_eq_true_iff] at hother
    exact ⟨hother.1, congrArg delegatesKey hother.2⟩

/-- With two calls in a second an account is not allowed a third one at once. -/
theorem allowedCalls_within_rate_two :
    let call : Message := .opCall {}
    let events : List Event := [⟨1, .authorize {} call⟩, ⟨1, .authorize {} call⟩, ⟨2, .authorize {} call⟩]
    (allowedCalls ⟨2, 0, 1⟩ (fun other => keyOf other = keyOf {}) 0 1 events : ℚ) ≤ (2 : Nat) * 1 + (2 : Nat) :=
  (allowedCalls_within_rate ⟨2, 0, 1⟩ _ (by decide) (by decide) 0 1 zero_le_one).1 (by decide) {}

/-- A rate of zero is no limit. -/
theorem allowedCalls_without_rate :
    let call : Message := .opCall {}
    let events : List Event := [⟨1, .authorize {} call⟩]
    ((0 : Nat) : ℚ) * 1 + (0 : Nat) < allowedCalls ⟨0, 0, 0⟩ (fun other => keyOf other = keyOf {}) 0 1 events := by
  decide +kernel

end MoDb.Proxy.RateLimit
