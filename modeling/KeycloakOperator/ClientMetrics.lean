import Mathlib.Algebra.BigOperators.Group.Finset.Piecewise
import Mathlib.Data.Fintype.Card
import KeycloakOperator.AdminClient

/-!
# What the client counts, and how often it asks for a token

Calls of `Do` run at the same time and share a token and a counter (`internal/keycloak/client.go`).

* The counter of the Admin requests counts calls, not requests: a call that has returned is counted
  once, under the class of what it has returned, however many requests it has sent, and a call that
  is still running is not counted at all.
* The token endpoint is asked again only when the token has been dropped or has at most 30 seconds
  left, however many calls are waiting for a token.
-/

namespace KeycloakOperator

open Prog

/-! ### Counting -/

/-- The labels under which a request is counted. -/
structure RequestLabels where
  connection : String
  method : String
  code : String
deriving DecidableEq, Repr

namespace ClientExchange

def counted : ClientExchange V → Option RequestLabels
  | ⟨.observe connection method code, _⟩ => some ⟨connection, method, code⟩
  | _ => none

end ClientExchange

/-- The requests that were counted, in this order. -/
def countedRequests (log : List (Step (clientOperations V) σ)) : List RequestLabels :=
  log.filterMap fun step => (clientExchange step).counted

/-- What is counted for a call that has returned. -/
def Config.counts (cfg : Config) (call : AdminCall) (result : Except RequestError (Option V)) :
    List RequestLabels :=
  if cfg.connectionName = "" then []
  else [⟨cfg.connectionName, call.method, statusClass result⟩]

section Counting

variable {V σ : Type} {env : Env (clientOperations V) σ} {cfg : Config} {call : AdminCall}
  {s : σ × List (Step (clientOperations V) σ)}

theorem countedRequests_logged {op : ClientOp} {answer : op.Answer V}
    {t : σ × List (Step (clientOperations V) σ)} (h : env.logged op s answer t) :
    countedRequests t.2 = countedRequests s.2 ++ (ClientExchange.counted ⟨op, answer⟩).toList := by
  rw [h.2, countedRequests, List.filterMap_append, ← countedRequests]
  congr 1

def ClientOp.Counts : ClientOp → Prop
  | .observe _ _ _ => True
  | _ => False

/-- An attempt counts nothing. -/
theorem only_doOnce (cfg : Config) (call : AdminCall) :
    Only (S := clientOperations V) (fun op => ¬ op.Counts) (doOnce cfg call) := by
  refine ⟨id, fun outcome => ?_⟩
  simp only [Prog.bind]
  split
  · trivial
  split
  · trivial
  · exact ⟨id, fun _ => trivial⟩

theorem wp_doOnce_uncounted (hs : countedRequests s.2 = []) :
    wp env.logged (fun _ s => countedRequests s.2 = []) (doOnce cfg call)
      (fun _ s => countedRequests s.2 = []) s := by
  refine wp_guard_mono (fun _ _ h => h.2) (wp_of_only _ ?_ (only_doOnce cfg call) hs)
  intro op s answer t hop hs hstep
  rw [countedRequests_logged hstep, hs]
  cases op with
  | observe connection method code => exact absurd trivial hop
  | _ => rfl

theorem wp_observeRequest_counts {result : Except RequestError (Option V)}
    (hs : countedRequests s.2 = []) :
    wp env.logged (fun _ s => countedRequests s.2 = []) (observeRequest cfg call result)
      (fun _ s => countedRequests s.2 = cfg.counts call result) s := by
  unfold observeRequest Config.counts
  split
  · exact hs
  · refine ⟨hs, fun _ t hstep => ?_⟩
    rw [wp_ret, countedRequests_logged hstep, hs]
    rfl

/-- Until a call returns it has counted nothing. -/
theorem wp_doRequest_counts (hs : countedRequests s.2 = []) :
    wp env.logged (fun _ s => countedRequests s.2 = []) (doRequest cfg call)
      (fun result s => countedRequests s.2 = cfg.counts call result) s := by
  rw [doRequest, wp_bind]
  refine wp_mono (fun first t ht => ?_) (wp_doOnce_uncounted hs)
  split
  · rw [wp_bind]
    exact wp_mono (fun _ _ h => h) (wp_observeRequest_counts ht)
  · refine ⟨ht, fun _ u hstep => ?_⟩
    have hu : countedRequests u.2 = [] := by
      rw [countedRequests_logged hstep, ht]
      rfl
    refine (wp_bind (p := doOnce cfg call)).mpr (wp_mono (fun second v hv => ?_)
      (wp_doOnce_uncounted hu))
    rw [wp_bind]
    exact wp_mono (fun _ _ h => h) (wp_observeRequest_counts hv)

end Counting

section Interleaved

variable {V ι : Type} [DecidableEq ι] {cfg : Config} {calls : ι → AdminCall}
  {left : ι → ClientCall V (Except RequestError (Option V))} {c c' : TokenCache}
  {events : List (Event ι (clientOperations V) TokenCache)}

/-- What is counted for a call of which `p` is left. -/
def countsOf (cfg : Config) (call : AdminCall) :
    ClientCall V (Except RequestError (Option V)) → List RequestLabels
  | .ret result => cfg.counts call result
  | .call _ _ => []

theorem countedRequests_own (h : Calls (fun i => doRequest cfg (calls i)) c events left c') (i : ι) :
    countedRequests (own i events) = countsOf cfg (calls i) (left i) := by
  obtain ⟨steps, u, hleaves, -, hsame⟩ :=
    h.leaves (fun _ _ => True) (fun _ _ _ => trivial) (fun _ _ => trivial) i
  have hlog : countedRequests (own i events) = countedRequests steps := by
    have hmap : ∀ log : List (Step (clientOperations V) TokenCache),
        countedRequests log = (log.map Step.exchange).filterMap ClientExchange.counted := by
      intro log
      rw [List.filterMap_map]
      rfl
    rw [hmap, hmap, hsame]
  obtain ⟨more, hlogged⟩ := hleaves.logged []
  have hwp := hlogged.wp (wp_doRequest_counts rfl)
  rw [hlog]
  cases hleft : left i with
  | ret result =>
    rw [hleft] at hwp
    exact hwp
  | call op next =>
    rw [hleft] at hwp
    exact hwp.1

/-- The operations of a run are those of its programs. -/
theorem count_countedRequests [Fintype ι] (events : List (Event ι (clientOperations V) TokenCache))
    (label : RequestLabels) :
    (countedRequests (events.map Event.step)).count label =
      ∑ i, (countedRequests (own i events)).count label := by
  induction events with
  | nil => simp [countedRequests]
  | cons event events ih =>
    have hcons : ∀ (step : Step (clientOperations V) TokenCache) log,
        (countedRequests (step :: log)).count label =
          (countedRequests [step]).count label + (countedRequests log).count label := by
      intro step log
      rw [← List.count_append, countedRequests, countedRequests, countedRequests,
        ← List.filterMap_append]
      rfl
    rw [List.map_cons, hcons, ih]
    have hown : ∀ i, (countedRequests (own i (event :: events))).count label =
        (if i = event.thread then (countedRequests [event.step]).count label else 0) +
          (countedRequests (own i events)).count label := by
      intro i
      by_cases hi : i = event.thread
      · subst hi
        rw [own_cons_self, hcons, if_pos rfl]
      · rw [own_cons_of_ne (Ne.symm hi), if_neg hi, Nat.zero_add]
    rw [Finset.sum_congr rfl fun i _ => hown i, Finset.sum_add_distrib, Finset.sum_ite_eq']
    simp

open Classical in
/-- **The counter of the Admin requests.**  In every interleaving of calls, the counter of a method
    and a class is the number of the calls with that method that have returned a result of that
    class.  A call that was sent twice counts once, one without a token counts too, and one that is
    still running does not. -/
theorem admin_requests_counted [Fintype ι]
    (h : Calls (fun i => doRequest cfg (calls i)) c events left c') (hname : cfg.connectionName ≠ "")
    (method code : String) :
    (countedRequests (events.map Event.step)).count ⟨cfg.connectionName, method, code⟩ =
      Fintype.card {i // ∃ result, left i = .ret result ∧ (calls i).method = method ∧
        statusClass result = code} := by
  rw [count_countedRequests, Fintype.card_subtype, Finset.card_filter]
  refine Finset.sum_congr rfl fun i _ => ?_
  rw [countedRequests_own h i]
  cases hleft : left i with
  | call op next => simp [countsOf]
  | ret result => simp [countsOf, Config.counts, hname, List.count_singleton]

end Interleaved

open Classical in
/-- The token of a call is rejected, and the repeated request is answered. -/
theorem retried_call_counted_once :
    ∃ events left c', Calls (V := Unit)
      (fun _ : Bool => doRequest { demoConfig with connectionName := "default/main" } readDemo) {}
      events left c' ∧
      (countedRequests (events.map Event.step)).count ⟨"default/main", "GET", "2xx"⟩ =
        Fintype.card {i // ∃ result, left i = .ret result ∧ readDemo.method = "GET" ∧
          statusClass result = "2xx"} := by
  have h₀ : Calls (V := Unit)
      (fun _ : Bool => doRequest { demoConfig with connectionName := "default/main" } readDemo)
      {} [] _ {} := .start
  have h₁ := h₀.next false (.token _) (tokenAnswer "old") ⟨"old", 300 * second⟩ rfl
    ⟨0, 0, .inr ⟨by decide, by simp [tokenAnswer], rfl⟩⟩
  have h₂ := h₁.next false (.send ⟨"old", "GET", _, none⟩) (.answered 401 "" (.error ""))
    ⟨"old", 300 * second⟩ rfl rfl
  have h₃ := h₂.next false .invalidate () .invalidated rfl rfl
  have h₄ := h₃.next false (.token _) (tokenAnswer "new") ⟨"new", 300 * second⟩ rfl
    ⟨0, 0, .inr ⟨by decide, by simp [tokenAnswer], rfl⟩⟩
  have h₅ := h₄.next false (.send ⟨"new", "GET", _, none⟩) (.answered 200 "" (.ok ()))
    ⟨"new", 300 * second⟩ rfl rfl
  have h₆ := h₅.next false (.observe "default/main" "GET" "2xx") () ⟨"new", 300 * second⟩ rfl rfl
  exact ⟨_, _, _, h₆, admin_requests_counted h₆ (by decide) _ _⟩

/-! ### Asking for a token -/

/-- A client at a time. -/
structure TimedCache where
  cache : TokenCache
  now : Int
  /-- when `Token` last compared the expiry of its token with the clock -/
  judged : Int

/-- The critical sections of a client with the time that they take: a token is judged after they
    have begun and before a token request is sent, and a token response counts from their end. -/
def TimedClient (V : Type) : Env (clientOperations V) TimedCache := fun op s answer s' =>
  s.now ≤ s'.now ∧
    match op, answer with
    | .token _, outcome => s.now ≤ s'.judged ∧ s'.judged ≤ s'.now ∧
        ((s.cache.good s'.judged ∧ outcome = .cached s.cache.accessToken ∧ s'.cache = s.cache) ∨
          (¬ s.cache.good s'.judged ∧ (∀ token, outcome ≠ .cached token) ∧
            s'.cache = s.cache.receive s'.now outcome))
    | .invalidate, _ => s'.cache = .invalidated ∧ s'.judged = s.judged
    | .send _, _ => s'.cache = s.cache ∧ s'.judged = s.judged
    | .observe _ _ _, _ => s'.cache = s.cache ∧ s'.judged = s.judged

/-- Without the time it is the client of `SharedClient`. -/
theorem sharedClient_of_timed {op : ClientOp} {answer : op.Answer V} {s s' : TimedCache}
    (h : TimedClient V op s answer s') : SharedClient V op s.cache answer s'.cache := by
  obtain ⟨-, h⟩ := h
  cases op with
  | token request =>
    obtain ⟨-, -, h⟩ := h
    exact ⟨s'.judged, s'.now, h⟩
  | _ => exact h.1

/-- The lifetime of a token as a `time.Duration`. -/
def lifetime (expiresIn : Int) : Int := (expiresIn * second).bmod (2 ^ 64)

/-- The operation has sent a token request. -/
def ClientExchange.asksForToken : ClientExchange V → Bool
  | ⟨.token _, .cached _⟩ => false
  | ⟨.token _, _⟩ => true
  | _ => false

section Asking

variable {V ι : Type} [DecidableEq ι]
  {programs left : ι → ClientCall V (Except RequestError (Option V))} {s t : TimedCache}
  {events : List (Event ι (clientOperations V) TimedCache)}

/-- The cached token expires at `expiry`, or it is almost that time. -/
def Lasts (expiry : Int) (s : TimedCache) : Prop :=
  (s.cache.accessToken ≠ "" ∧ s.cache.tokenExpiry = expiry) ∨ expiry ≤ s.now + 30 * second

theorem lasts_step {expiry : Int} {op : ClientOp} {answer : op.Answer V} (hop : op ≠ .invalidate)
    (hs : Lasts expiry s) (h : TimedClient V op s answer t) : Lasts expiry t := by
  obtain ⟨htime, h⟩ := h
  rcases hs with ⟨htoken, hexpiry⟩ | hlate
  · cases op with
    | invalidate => exact absurd rfl hop
    | send request | observe connection method code =>
      exact .inl (by rw [show t.cache = s.cache from h.1]; exact ⟨htoken, hexpiry⟩)
    | token request =>
      obtain ⟨-, hend, ⟨-, -, hsame⟩ | ⟨hbad, -, -⟩⟩ := h
      · exact .inl (by rw [hsame]; exact ⟨htoken, hexpiry⟩)
      · -- a token request is made only for a token that is about to expire
        right
        have hsoon : ¬ s.cache.tokenExpiry - t.judged > 30 * second :=
          fun hleft => hbad ⟨htoken, hleft⟩
        omega
  · exact .inr (by omega)

theorem TokenOutcome.token_ne_empty {outcome : TokenOutcome} {token : String} {expiresIn : Int}
    (h : outcome.granted = some (token, expiresIn)) : token ≠ "" := by
  unfold granted at h
  split at h
  · split at h
    · next hne =>
      cases h
      exact hne
    · cases h
  · cases h

theorem lasts_of_granted {request : TokenRequest} {outcome : TokenOutcome} {token : String}
    {expiresIn : Int} (h : TimedClient V (.token request) s outcome t)
    (hgranted : outcome.granted = some (token, expiresIn)) :
    Lasts (t.now + lifetime expiresIn) t := by
  obtain ⟨-, -, -, ⟨-, rfl, -⟩ | ⟨-, -, hreceived⟩⟩ := h
  · cases hgranted
  · left
    rw [hreceived, TokenCache.receive, hgranted]
    exact ⟨TokenOutcome.token_ne_empty hgranted, rfl⟩

/-- A token request is decided on late. -/
theorem late_of_asks {expiry : Int} {op : ClientOp} {answer : op.Answer V}
    (hasks : ClientExchange.asksForToken (V := V) ⟨op, answer⟩ = true) (hs : Lasts expiry s)
    (h : TimedClient V op s answer t) : expiry ≤ t.judged + 30 * second := by
  obtain ⟨-, h⟩ := h
  cases op with
  | token request =>
    obtain ⟨hbegun, -, ⟨-, rfl, -⟩ | ⟨hbad, -, -⟩⟩ := h
    · cases hasks
    rcases hs with ⟨htoken, hexpiry⟩ | hlate
    · have hsoon : ¬ s.cache.tokenExpiry - t.judged > 30 * second := fun hleft => hbad ⟨htoken, hleft⟩
      omega
    · omega
  | _ => cases hasks

/-- **The token endpoint is not asked early.**  Let a token response have brought a token, and let
    nobody have dropped a token since then.  However many calls share the client, the next token
    request is decided on at the earliest 30 seconds before the token expires. -/
theorem token_asked_late
    (h : Interleaving (TimedClient V) (fun _ _ => False) programs s events left t)
    {first middle rest : List (Event ι (clientOperations V) TimedCache)}
    {a b : Event ι (clientOperations V) TimedCache} {request : TokenRequest} {outcome : TokenOutcome}
    {token : String} {expiresIn : Int} (hevents : events = first ++ a :: (middle ++ b :: rest))
    (ha : clientExchange a.step = ⟨.token request, outcome⟩)
    (hgranted : outcome.granted = some (token, expiresIn))
    (hkept : ∀ event ∈ middle, event.step.op ≠ .invalidate)
    (hasks : (clientExchange b.step).asksForToken = true) :
    a.step.after.now + lifetime expiresIn ≤ b.step.after.judged + 30 * second := by
  subst hevents
  have hgrant := h.env_of_mem a (by simp)
  have hask := h.env_of_mem b (by simp)
  obtain ⟨-, after, -, hrest⟩ := h.split
  obtain ⟨waiting, -, hmiddle, -⟩ := hrest.split
  obtain ⟨i, ⟨before, op, answer, later⟩⟩ := a
  cases ha
  have hstart : Lasts (later.now + lifetime expiresIn) later := lasts_of_granted hgrant hgranted
  have hend : Lasts (later.now + lifetime expiresIn) b.step.before := by
    refine hmiddle.kept _ (fun _ _ hmove => hmove.elim) (fun event hevent hs => ?_) hstart
    exact lasts_step (hkept event hevent) hs (hmiddle.env_of_mem event hevent)
  exact late_of_asks hasks hend hask

end Asking

/-- A second call needs a token 280 seconds after a token with a lifetime of 300 seconds came.  Its
    request fails only after the token has expired. -/
theorem token_asked_after_280_seconds :
    ∃ events left t, Interleaving (TimedClient Unit) (fun _ _ => False)
      (fun _ : Bool => doRequest demoConfig readDemo) ⟨{}, 0, 0⟩ events left t ∧
      ∃ first a middle b rest, events = first ++ a :: (middle ++ b :: rest) ∧
        (clientExchange b.step).asksForToken = true ∧
        b.step.after.judged = (280 * second : Int) ∧
        a.step.after.now + lifetime 300 ≤ b.step.after.judged + 30 * second := by
  have h₀ : Interleaving (TimedClient Unit) (fun _ _ => False)
      (fun _ : Bool => doRequest demoConfig readDemo) ⟨{}, 0, 0⟩ [] _ ⟨{}, 0, 0⟩ := .start
  have h₁ := h₀.next false (.token _) (tokenAnswer "old") ⟨⟨"old", 300 * second⟩, 0, 0⟩ rfl
    ⟨by decide, by decide, by decide, .inr ⟨by decide, by simp [tokenAnswer], rfl⟩⟩
  have h₂ := h₁.next true (.token _) (.unanswered "EOF")
    ⟨⟨"old", 300 * second⟩, 310 * second, 280 * second⟩ rfl
    ⟨by decide, by decide, by decide, .inr ⟨by decide, by simp, rfl⟩⟩
  refine ⟨_, _, _, h₂, [], _, [], _, [], rfl, rfl, rfl, ?_⟩
  exact token_asked_late h₂ (show _ = [] ++ _ :: ([] ++ _ :: []) from rfl) rfl rfl
    (List.forall_mem_nil _) rfl

end KeycloakOperator
