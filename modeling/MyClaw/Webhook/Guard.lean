import MyClaw.Lib.Keyed
import MyClaw.Lib.Run
import MyClaw.Lib.SlidingWindow
import Mathlib.Logic.Function.Basic

set_option autoImplicit false

/-!
# The guard of the webhook routes

`WebhookGuard` (`scheduling_runtime/webhook/types.rs`) has a limit of requests for each route and
address, a limit of requests in flight for each route, and a table of the deliveries of the last hour.
The first two maps are by route; the third one is by delivery id alone.

## Main definitions

* `WebhookGuard` — the three maps, with `checkRate`, `acquire`, `release`, `checkDelivery`.
* `GuardRun`, `guardStep` — the guard with the requests in flight and what it let in.
* `PerRoute`, `RateBounded` — what the guard is for.
* `Apart` — the delivery ids of the last hour belong to the route that is asked for.

## Main results

* `DeliveriesInv.isDuplicate_iff` — an id is a duplicate exactly when some route has accepted it
  less than an hour ago.
* `guard_perRoute_iff` — a run is idempotent by route exactly when the ids are kept apart; the
  rates are bounded in any run.

## Implementation notes

Time is in nanoseconds.  An absent entry of a map is one with no times, or with no requests.  The locks
are never poisoned: nothing panics while it holds one.
-/

namespace MyClaw

/-! ## The guard -/

/-- `WEBHOOK_RATE_MAX`. -/
def rateMax : ℕ := 120

/-- `WEBHOOK_RATE_WINDOW_SECS`. -/
def rateWindowSecs : ℕ := 60

/-- `WEBHOOK_CONCURRENCY_MAX`. -/
def concurrencyMax : ℕ := 8

/-- `WEBHOOK_DELIVERY_TTL_SECS`. -/
def deliveryTtlSecs : ℕ := 3600

/-- The nanoseconds of a second. -/
def nanosPerSec : ℕ := 1000000000

/-- `WebhookGuard`. -/
structure WebhookGuard where
  /-- The times of the requests of a route and an address. -/
  rate : String × String → List ℕ
  /-- The number of requests in flight on a route. -/
  inflight : String → ℕ
  /-- When a delivery id was first seen. -/
  deliveries : String → Option ℕ

/-- `WebhookGuard::default`. -/
def WebhookGuard.default : WebhookGuard where
  rate _ := []
  inflight _ := 0
  deliveries _ := none

/-- `check_rate`. -/
def WebhookGuard.checkRate (g : WebhookGuard) (now : ℕ) (route ip : String) : Bool × WebhookGuard :=
  let r := SlidingWindow.check rateMax (rateWindowSecs * nanosPerSec) now (g.rate (route, ip))
  (r.1, { g with rate := Function.update g.rate (route, ip) r.2 })

/-- `acquire`, if the route is below its cap. -/
def WebhookGuard.acquire (g : WebhookGuard) (route : String) : Option WebhookGuard :=
  if concurrencyMax ≤ g.inflight route then none
  else some { g with inflight := Function.update g.inflight route (g.inflight route + 1) }

/-- The drop of an `InflightGuard`. -/
def WebhookGuard.release (g : WebhookGuard) (route : String) : WebhookGuard :=
  { g with inflight := Function.update g.inflight route (g.inflight route - 1) }

/-- The deliveries that `check_delivery` retains. -/
def retainDeliveries (now : ℕ) (deliveries : String → Option ℕ) : String → Option ℕ :=
  fun id => (deliveries id).filter fun t => (now - t) / nanosPerSec < deliveryTtlSecs

/-- `check_delivery`: the id is new, and the table after it. -/
def WebhookGuard.checkDelivery (g : WebhookGuard) (now : ℕ) (id : String) : Bool × WebhookGuard :=
  let kept := retainDeliveries now g.deliveries
  match kept id with
  | some _ => (false, { g with deliveries := kept })
  | none => (true, { g with deliveries := Function.update kept id (some now) })

/-! ## The machine -/

/-- A request that has a slot of its route; `passed` after the check of its delivery id. -/
structure GuardedRequest where
  route : String
  deliveryId : Option String
  passed : Bool

/-- A request that the rate limit let in. -/
structure RateAdmission where
  key : String × String
  time : ℕ

/-- A delivery that a route accepted. -/
structure AcceptedDelivery where
  route : String
  id : String
  time : ℕ

/-- The guard, the clock, the requests that have a slot, and what has been let in. -/
structure GuardRun where
  guard : WebhookGuard
  now : ℕ
  requests : List GuardedRequest
  admitted : List RateAdmission
  accepted : List AcceptedDelivery

/-- What happens after some time: a request arrives at a route; the request of an index has been read
and authenticated; or it gives its slot back, being turned away or finished. -/
inductive GuardEvent
  | arrive (elapsed : ℕ) (route ip : String) (deliveryId : Option String)
  | authenticated (elapsed i : ℕ)
  | leave (elapsed i : ℕ)

/-- The state before the first request. -/
def GuardRun.start : GuardRun where
  guard := .default
  now := 0
  requests := []
  admitted := []
  accepted := []

/-- The request of an index, if its delivery id is still to be checked. -/
def GuardRun.waiting (s : GuardRun) (i : ℕ) : Option GuardedRequest :=
  s.requests[i]?.filter fun req => !req.passed

/-- The first two checks of `handle_request` on a custom route. -/
def GuardRun.arrive (s : GuardRun) (route ip : String) (deliveryId : Option String) : GuardRun :=
  match s.guard.checkRate s.now route ip with
  | (false, guard) => { s with guard := guard }
  | (true, guard) =>
    let admitted := s.admitted ++ [⟨(route, ip), s.now⟩]
    match guard.acquire route with
    | none => { s with guard := guard, admitted := admitted }
    | some guard =>
      { s with
        guard := guard
        requests := s.requests ++ [⟨route, deliveryId, false⟩]
        admitted := admitted }

/-- The request of an index goes, with its slot. -/
def GuardRun.leave (s : GuardRun) (i : ℕ) : GuardRun :=
  match s.requests[i]? with
  | none => s
  | some req => { s with guard := s.guard.release req.route, requests := s.requests.eraseIdx i }

/-- The idempotency check of `handle_request`; the response to a duplicate ends the request. -/
def GuardRun.checkRequest (s : GuardRun) (i : ℕ) : GuardRun :=
  match s.waiting i with
  | none => s
  | some req =>
    let requests := s.requests.set i { req with passed := true }
    match req.deliveryId with
    | none => { s with requests := requests }
    | some id =>
      match s.guard.checkDelivery s.now id with
      | (false, guard) => { s with guard := guard }.leave i
      | (true, guard) =>
        { s with
          guard := guard
          requests := requests
          accepted := s.accepted ++ [⟨req.route, id, s.now⟩] }

/-- Time passes. -/
def GuardRun.wait (s : GuardRun) (elapsed : ℕ) : GuardRun := { s with now := s.now + elapsed }

/-- What an event does. -/
def guardStep (s : GuardRun) : GuardEvent → GuardRun
  | .arrive elapsed route ip deliveryId => (s.wait elapsed).arrive route ip deliveryId
  | .authenticated elapsed i => (s.wait elapsed).checkRequest i
  | .leave elapsed i => (s.wait elapsed).leave i

/-! ## The property -/

/-- The nanoseconds of an hour. -/
def hour : ℕ := deliveryTtlSecs * nanosPerSec

/-- A delivery was accepted less than an hour ago. -/
def AcceptedDelivery.isRecent (d : AcceptedDelivery) (now : ℕ) : Bool := now < d.time + hour

/-- The request of an index is checked: its delivery id is answered as a duplicate exactly when its
route has accepted it less than an hour ago. -/
def PerRoute (s : GuardRun) : GuardEvent → Prop
  | .authenticated elapsed i =>
    let now := s.now + elapsed
    ∀ req ∈ s.waiting i, ∀ id ∈ req.deliveryId,
      ((s.guard.checkDelivery now id).1 = false ↔
        ∃ d ∈ s.accepted, d.route = req.route ∧ d.id = id ∧ d.isRecent now = true)
  | _ => True

/-- The times at which the rate limit let in a request of a route and an address. -/
def GuardRun.admittedTimes (s : GuardRun) (key : String × String) : List ℕ :=
  (s.admitted.filter (·.key = key)).map (·.time)

/-- No window of 60 seconds has more than 120 requests of one route and one address. -/
def RateBounded (s : GuardRun) : Prop :=
  ∀ key a, (s.admittedTimes key).countP
    (fun t => decide (a ≤ t ∧ t ≤ a + rateWindowSecs * nanosPerSec)) ≤ rateMax

/-- What a route has accepted in the last hour under the id of the request is not of another route. -/
def Apart (s : GuardRun) : GuardEvent → Prop
  | .authenticated elapsed i =>
    ∀ req ∈ s.waiting i, ∀ id ∈ req.deliveryId, ∀ d ∈ s.accepted, d.id = id →
      d.isRecent (s.now + elapsed) = true → d.route = req.route
  | _ => True

instance (s : GuardRun) (e : GuardEvent) : Decidable (PerRoute s e) := by
  cases e <;> unfold PerRoute <;> infer_instance

/-! ## The table of deliveries -/

/-- The table of deliveries has the ids that were accepted in the last hour, each once. -/
structure DeliveriesInv (deliveries : String → Option ℕ) (accepted : List AcceptedDelivery)
    (now : ℕ) : Prop where
  recorded : ∀ id t, deliveries id = some t → ∃ d ∈ accepted, d.id = id ∧ d.time = t
  recent : ∀ d ∈ accepted, d.isRecent now = true → deliveries d.id = some d.time
  unique : ∀ d ∈ accepted, ∀ d' ∈ accepted, d.id = d'.id →
    d.isRecent now = true → d'.isRecent now = true → d = d'

namespace DeliveriesInv

variable {deliveries : String → Option ℕ} {accepted : List AcceptedDelivery} {now now' : ℕ}

lemma isRecent_mono {d : AcceptedDelivery} (hnow : now ≤ now') (h : d.isRecent now' = true) :
    d.isRecent now = true := by
  simp only [AcceptedDelivery.isRecent, decide_eq_true_eq] at h ⊢
  omega

/-- The whole seconds are fewer than 3600 exactly when it is less than an hour. -/
lemma secs_lt_iff {t : ℕ} : (now - t) / nanosPerSec < deliveryTtlSecs ↔ now < t + hour := by
  rw [Nat.div_lt_iff_lt_mul (by decide)]
  have hhour : deliveryTtlSecs * nanosPerSec = hour := rfl
  have hpos : 0 < hour := by decide
  omega

lemma retainDeliveries_eq_some_iff {id : String} {t : ℕ} :
    retainDeliveries now deliveries id = some t ↔ deliveries id = some t ∧ now < t + hour := by
  rw [retainDeliveries, Option.filter_eq_some_iff, decide_eq_true_eq, secs_lt_iff]

/-- Time passes. -/
lemma later (h : DeliveriesInv deliveries accepted now) (hnow : now ≤ now') :
    DeliveriesInv deliveries accepted now' where
  recorded := h.recorded
  recent d hd hrecent := h.recent d hd (isRecent_mono hnow hrecent)
  unique d hd d' hd' hid hrecent hrecent' :=
    h.unique d hd d' hd' hid (isRecent_mono hnow hrecent) (isRecent_mono hnow hrecent')

lemma checkDelivery_of_some {g : WebhookGuard} {id : String} {t : ℕ}
    (h : retainDeliveries now g.deliveries id = some t) : g.checkDelivery now id =
      (false, { g with deliveries := retainDeliveries now g.deliveries }) := by
  rw [WebhookGuard.checkDelivery, h]

lemma checkDelivery_of_none {g : WebhookGuard} {id : String}
    (h : retainDeliveries now g.deliveries id = none) : g.checkDelivery now id =
      (true, { g with
        deliveries := Function.update (retainDeliveries now g.deliveries) id (some now) }) := by
  rw [WebhookGuard.checkDelivery, h]

/-- What is older than an hour goes. -/
lemma retain (h : DeliveriesInv deliveries accepted now) :
    DeliveriesInv (retainDeliveries now deliveries) accepted now where
  recorded id t ht := h.recorded id t (retainDeliveries_eq_some_iff.1 ht).1
  recent d hd hrecent :=
    retainDeliveries_eq_some_iff.2 ⟨h.recent d hd hrecent, of_decide_eq_true hrecent⟩
  unique := h.unique

/-- What `check_delivery` retains under an id. -/
lemma retain_eq_none_iff (h : DeliveriesInv deliveries accepted now) (id : String) :
    retainDeliveries now deliveries id = none ↔
      ∀ d ∈ accepted, d.id = id → d.isRecent now = false := by
  constructor
  · rintro hnone d hd rfl
    by_contra hrecent
    rw [Bool.not_eq_false] at hrecent
    rw [h.retain.recent d hd hrecent] at hnone
    cases hnone
  · intro hold
    rw [Option.eq_none_iff_forall_ne_some]
    intro t ht
    obtain ⟨hsome, hlt⟩ := retainDeliveries_eq_some_iff.1 ht
    obtain ⟨d, hd, hid, rfl⟩ := h.recorded id t hsome
    have hrecent : d.isRecent now = true := decide_eq_true hlt
    rw [hold d hd hid] at hrecent
    cases hrecent

/-- **A duplicate** is an id that some route has accepted less than an hour ago. -/
theorem isDuplicate_iff {g : WebhookGuard} (h : DeliveriesInv g.deliveries accepted now)
    (id : String) : (g.checkDelivery now id).1 = false ↔
      ∃ d ∈ accepted, d.id = id ∧ d.isRecent now = true := by
  have hnone := h.retain_eq_none_iff id
  cases ht : retainDeliveries now g.deliveries id with
  | some t =>
    rw [ht] at hnone
    rw [checkDelivery_of_some ht]
    simpa using hnone
  | none =>
    rw [ht] at hnone
    rw [checkDelivery_of_none ht]
    simpa using hnone

/-- A duplicate leaves the table as it is, but for the old deliveries. -/
lemma duplicate {g : WebhookGuard} (h : DeliveriesInv g.deliveries accepted now) {id : String}
    (hdup : (g.checkDelivery now id).1 = false) :
    DeliveriesInv (g.checkDelivery now id).2.deliveries accepted now := by
  cases ht : retainDeliveries now g.deliveries id with
  | some t =>
    rw [checkDelivery_of_some ht]
    exact h.retain
  | none =>
    rw [checkDelivery_of_none ht] at hdup
    cases hdup

/-- A new id is accepted. -/
lemma accept {g : WebhookGuard} (h : DeliveriesInv g.deliveries accepted now) {id : String}
    (hnew : (g.checkDelivery now id).1 = true) (route : String) :
    DeliveriesInv (g.checkDelivery now id).2.deliveries (accepted ++ [⟨route, id, now⟩]) now := by
  cases ht : retainDeliveries now g.deliveries id with
  | some t =>
    rw [checkDelivery_of_some ht] at hnew
    cases hnew
  | none =>
    rw [checkDelivery_of_none ht]
    -- nothing recent has this id
    have hold := (h.retain_eq_none_iff id).1 ht
    have hne : ∀ d ∈ accepted, d.isRecent now = true → d.id ≠ id := by
      intro d hd hrecent hid
      rw [hold d hd hid] at hrecent
      cases hrecent
    have hretain := h.retain
    refine ⟨?_, ?_, ?_⟩
    · intro id' t hsome
      simp only [Function.update_apply] at hsome
      split at hsome
      · rename_i hid
        exact ⟨_, List.mem_append_right _ List.mem_cons_self, hid.symm, Option.some.inj hsome⟩
      · obtain ⟨d, hd, hdid⟩ := hretain.recorded id' t hsome
        exact ⟨d, List.mem_append_left _ hd, hdid⟩
    · intro d hd hrecent
      rcases List.mem_append.1 hd with hd | hd
      · simp only [Function.update_of_ne (hne d hd hrecent)]
        exact hretain.recent d hd hrecent
      · simp only [List.mem_singleton.1 hd, Function.update_self]
    · intro d hd d' hd' hid hrecent hrecent'
      rcases List.mem_append.1 hd with hd | hd <;> rcases List.mem_append.1 hd' with hd' | hd'
      · exact h.unique d hd d' hd' hid hrecent hrecent'
      · rw [List.mem_singleton.1 hd'] at hid
        exact absurd hid (hne d hd hrecent)
      · rw [List.mem_singleton.1 hd] at hid
        exact absurd hid.symm (hne d' hd' hrecent')
      · rw [List.mem_singleton.1 hd, List.mem_singleton.1 hd']

end DeliveriesInv

/-! ## The invariant of a run -/

/-- The three maps agree with what happened. -/
structure GuardInv (s : GuardRun) : Prop where
  rate : ∀ key, SlidingWindow.Inv rateMax (rateWindowSecs * nanosPerSec) (s.admittedTimes key)
    (s.guard.rate key) s.now
  slots : ∀ route, s.guard.inflight route = s.requests.countP (·.route = route)
  capped : ∀ route, s.guard.inflight route ≤ concurrencyMax
  deliveries : DeliveriesInv s.guard.deliveries s.accepted s.now

namespace GuardInv

variable {s : GuardRun}

lemma start : GuardInv .start where
  rate _ := .start _ _ _
  slots _ := rfl
  capped _ := Nat.zero_le _
  deliveries := ⟨nofun, nofun, nofun⟩

lemma wait (h : GuardInv s) (elapsed : ℕ) : GuardInv (s.wait elapsed) where
  rate key := (h.rate key).later (Nat.le_add_right _ _)
  slots := h.slots
  capped := h.capped
  deliveries := h.deliveries.later (Nat.le_add_right _ _)

lemma admittedTimes_ite (b : Bool) (g : WebhookGuard) (key' key : String × String) :
    GuardRun.admittedTimes { s with
      guard := g, admitted := if b = true then s.admitted ++ [⟨key', s.now⟩] else s.admitted } key =
      if b = true ∧ key' = key then s.admittedTimes key ++ [s.now] else s.admittedTimes key := by
  unfold GuardRun.admittedTimes
  cases b <;> by_cases hkey : key' = key <;> simp [hkey]

/-- The guard after the check of a rate, whose verdict the run keeps. -/
lemma checkRate (h : GuardInv s) (route ip : String) :
    GuardInv { s with
      guard := (s.guard.checkRate s.now route ip).2
      admitted := if (s.guard.checkRate s.now route ip).1 = true then
        s.admitted ++ [⟨(route, ip), s.now⟩] else s.admitted } where
  rate key := by
    rw [admittedTimes_ite]
    unfold WebhookGuard.checkRate
    by_cases hkey : (route, ip) = key
    · subst hkey
      simpa only [Function.update_self, and_true] using (h.rate (route, ip)).check
    · simpa only [Function.update_of_ne (Ne.symm hkey), hkey, and_false, if_false] using h.rate key
  slots := h.slots
  capped := h.capped
  deliveries := h.deliveries

/-- A request takes a slot. -/
lemma acquire (h : GuardInv s) {route : String} {g : WebhookGuard}
    (hg : s.guard.acquire route = some g) (deliveryId : Option String) :
    GuardInv { s with guard := g, requests := s.requests ++ [⟨route, deliveryId, false⟩] } := by
  unfold WebhookGuard.acquire at hg
  split at hg
  · cases hg
  · rename_i hbelow
    obtain rfl := Option.some.inj hg
    refine ⟨h.rate, fun r => ?_, fun r => ?_, h.deliveries⟩
    · have hslots := h.slots r
      simp only [Function.update_apply, List.countP_append, List.countP_singleton,
        decide_eq_true_eq]
      by_cases hr : r = route
      · subst hr
        rw [if_pos rfl, if_pos rfl, hslots]
      · rw [if_neg hr, if_neg (Ne.symm hr), hslots, Nat.add_zero]
    · simp only [Function.update_apply]
      split
      · omega
      · exact h.capped r

lemma arrive (h : GuardInv s) (route ip : String) (deliveryId : Option String) :
    GuardInv (s.arrive route ip deliveryId) := by
  have hrate := h.checkRate route ip
  unfold GuardRun.arrive
  split
  · rename_i g hcheck
    rw [hcheck] at hrate
    exact hrate
  · rename_i g hcheck
    rw [hcheck] at hrate
    simp only
    split
    · exact hrate
    · rename_i g' hg'
      exact hrate.acquire hg' deliveryId

/-- A request goes, with its slot. -/
lemma leave (h : GuardInv s) (i : ℕ) : GuardInv (s.leave i) := by
  unfold GuardRun.leave
  split
  · exact h
  · rename_i req hreq
    have hperm := Keyed.perm_of_getElem? hreq
    refine ⟨h.rate, fun r => ?_, fun r => ?_, h.deliveries⟩
    · have hslots := h.slots r
      rw [hperm.countP_eq, List.countP_cons] at hslots
      simp only [WebhookGuard.release, Function.update_apply, decide_eq_true_eq] at hslots ⊢
      by_cases hr : r = req.route
      · subst hr
        rw [if_pos rfl] at hslots
        rw [if_pos rfl, hslots, Nat.add_sub_cancel]
      · rw [if_neg (Ne.symm hr)] at hslots
        rw [if_neg hr, hslots, Nat.add_zero]
    · have hcapped := h.capped r
      simp only [WebhookGuard.release, Function.update_apply]
      split
      · rename_i hr
        subst hr
        omega
      · exact hcapped

/-- The check of a delivery id changes only the table of deliveries. -/
lemma checkDelivery_snd (g : WebhookGuard) (now : ℕ) (id : String) :
    (g.checkDelivery now id).2 = { g with deliveries := (g.checkDelivery now id).2.deliveries } := by
  unfold WebhookGuard.checkDelivery
  simp only
  split <;> rfl

/-- The check of a delivery keeps the invariant. -/
lemma checkRequest (h : GuardInv s) (i : ℕ) : GuardInv (s.checkRequest i) := by
  unfold GuardRun.checkRequest
  split
  · exact h
  · rename_i req hreq
    have hget : s.requests[i]? = some req := (Option.filter_eq_some_iff.1 hreq).1
    -- the request keeps its route, hence its slot
    have hslots : ∀ r, s.guard.inflight r =
        (s.requests.set i { req with passed := true }).countP (·.route = r) := by
      intro r
      rw [h.slots r, (Keyed.perm_of_getElem? hget).countP_eq, (Keyed.set_perm hget _).countP_eq,
        List.countP_cons, List.countP_cons]
    simp only
    split
    · exact ⟨h.rate, hslots, h.capped, h.deliveries⟩
    · rename_i id _
      have hsnd := checkDelivery_snd s.guard s.now id
      cases hcheck : s.guard.checkDelivery s.now id with
      | mk new g =>
        rw [hcheck] at hsnd
        cases new with
        | false =>
          have hdup := h.deliveries.duplicate (by rw [hcheck])
          rw [hcheck] at hdup
          refine GuardInv.leave ?_ i
          simp only at hsnd ⊢
          rw [hsnd]
          exact ⟨h.rate, h.slots, h.capped, hdup⟩
        | true =>
          have hnew := h.deliveries.accept (by rw [hcheck]) req.route
          rw [hcheck] at hnew
          simp only at hsnd ⊢
          rw [hsnd]
          exact ⟨h.rate, hslots, h.capped, hnew⟩

/-- **An event** keeps the maps in agreement with what happened. -/
theorem step (h : GuardInv s) (e : GuardEvent) : GuardInv (guardStep s e) := by
  cases e with
  | arrive elapsed route ip deliveryId => exact (h.wait elapsed).arrive route ip deliveryId
  | authenticated elapsed i => exact (h.wait elapsed).checkRequest i
  | leave elapsed i => exact (h.wait elapsed).leave i

/-- A request is answered as its route wants it exactly when the id it carries is its route's. -/
lemma perRoute_iff (h : GuardInv s) (e : GuardEvent) : PerRoute s e ↔ Apart s e := by
  cases e with
  | arrive => exact Iff.rfl
  | leave => exact Iff.rfl
  | authenticated elapsed i =>
    have hdeliveries := (h.wait elapsed).deliveries
    have hdup : ∀ id, (s.guard.checkDelivery (s.now + elapsed) id).1 = false ↔
        ∃ d ∈ s.accepted, d.id = id ∧ d.isRecent (s.now + elapsed) = true :=
      hdeliveries.isDuplicate_iff
    refine forall₂_congr fun req _ => forall₂_congr fun id _ => ?_
    rw [hdup id]
    constructor
    · intro hiff d hd hid hrecent
      obtain ⟨d', hd', hroute, hid', hrecent'⟩ := hiff.1 ⟨d, hd, hid, hrecent⟩
      rw [hdeliveries.unique d hd d' hd' (hid.trans hid'.symm) hrecent hrecent']
      exact hroute
    · intro hroute
      constructor
      · rintro ⟨d, hd, hid, hrecent⟩
        exact ⟨d, hd, hroute d hd hid hrecent, hid, hrecent⟩
      · rintro ⟨d, hd, -, hid, hrecent⟩
        exact ⟨d, hd, hid, hrecent⟩

end GuardInv

/-! ## Runs -/

/-- **Idempotency by route**: in a run, every request is answered as a duplicate exactly when its route
has accepted its delivery id less than an hour before, if and only if no request carries an id that
another route has accepted in that hour.  The rate of a route and an address is bounded in any run. -/
theorem guard_perRoute_iff (events : List GuardEvent) :
    Run.Always guardStep RateBounded .start events ∧ Run.EachStep guardStep PerRoute .start events ↔
      Run.EachStep guardStep Apart .start events := by
  have hrate : Run.Always guardStep RateBounded .start events :=
    (Run.always_of_forall_step (fun _ e h => h.step e) GuardInv.start events).imp
      fun _ h key a => (h.rate key).window a
  rw [and_iff_right hrate]
  exact Run.eachStep_iff (fun s e (h : GuardInv s) => h.perRoute_iff e) (fun _ e h _ => h.step e) .start

/-- Two routes are sent the same delivery id; the second one has never seen it. -/
theorem not_guard_perRoute : ¬ ∀ events : List GuardEvent,
    Run.Always guardStep RateBounded .start events ∧
      Run.EachStep guardStep PerRoute .start events := by
  intro h
  have hstep := (h [.arrive 0 "deploy" "10.0.0.1" (some "1"), .authenticated 0 0,
    .arrive 1 "review" "10.0.0.1" (some "1"), .authenticated 0 1]).2
  revert hstep
  decide

end MyClaw
