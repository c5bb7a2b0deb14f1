import Wfe.Host.WorkflowHost
import Wfe.Server.Auth

/-!
# The webhook for events

`POST /webhooks/events` publishes an event for waiting workflows. It decides on its own whom it
admits: it compares the bearer token with the static tokens wherever there are any, takes a missing
token for the empty one, and does not know the issuer. It is compared here with the interceptor of
the calls, which reads the same header under the same configuration.

## Main definitions

* `handleGenericEvent`: the handler, a program over the providers
* `Publishes`: some run of the handler publishes an event

## Main results

* `publishes_iff`: whom the handler admits
* `AuthState.webhook_admits_iff`: when the interceptor admits whom the handler does
* `AuthState.webhook_admits_all_iff`: the configurations under which it does for every header
-/

namespace Wfe.Server

open Program Provider

/-! ## The handler -/

inductive StatusCode
  | ok
  | unauthorized
  | internalServerError
deriving DecidableEq, Repr

structure GenericEventPayload where
  eventName : String
  eventKey : String
  data : Option Json

/-- The token the handler compares, empty where there is none. -/
def webhookToken (headers : Headers) : String :=
  (stripBearer ((authorization headers).getD "")).getD ""

/-- Publishes the event of an admitted request. -/
def publishGenericEvent (payload : GenericEventPayload) : Action (StatusCode × String) := do
  match ← (publishEvent payload.eventName payload.eventKey
      (payload.data.getD (.object []))).run with
  | .ok () => return (.ok, "event published")
  | .error _ => return (.internalServerError, "failed to publish event")

/-- `handle_generic_event`. -/
def handleGenericEvent (config : AuthConfig) (headers : Headers) (payload : GenericEventPayload) :
    Action (StatusCode × String) :=
  if config.tokens ≠ [] then
    if checkStaticTokens config.tokens (webhookToken headers) then publishGenericEvent payload
    else return (.unauthorized, "invalid token")
  else publishGenericEvent payload

/-! ## Whom it admits -/

/-- An event is stored in these exchanges. -/
def Published (tr : List (Exchange Provider)) : Prop :=
  ∃ event id, (⟨.request (.createEvent event), .ok id⟩ : Exchange Provider) ∈ tr

/-- Some request with these headers publishes an event. -/
def Publishes (config : AuthConfig) (headers : Headers) : Prop :=
  ∃ payload tr response, Path (handleGenericEvent config headers payload) tr response ∧ Published tr

/-- Where every call succeeds, an admitted request publishes. -/
theorem publishGenericEvent_published (payload : GenericEventPayload) :
    ∃ tr response, Path (publishGenericEvent payload) tr response ∧ Published tr := by
  let env : Ambient := ⟨0, fun _ => "e"⟩
  let event := Event.new env payload.eventName payload.eventKey (payload.data.getD (.object []))
  refine ⟨[⟨.ambient, env⟩, ⟨.request (.createEvent event), .ok "e"⟩,
    ⟨.request (.queueWork "e" .event), .ok ()⟩], (.ok, "event published"), ?_, event, "e", by simp⟩
  exact .call _ _ _ _ _ (.call _ _ _ _ _ (.call _ _ _ _ _ (.ret _)))

/-- Whom the handler admits. -/
theorem publishes_iff {config : AuthConfig} {headers : Headers} :
    Publishes config headers ↔
      config.tokens = [] ∨ checkStaticTokens config.tokens (webhookToken headers) = true := by
  constructor
  · rintro ⟨payload, tr, response, hpath, event, id, hmem⟩
    by_contra hrefused
    push Not at hrefused
    rw [handleGenericEvent, if_pos hrefused.1, if_neg hrefused.2] at hpath
    obtain ⟨rfl, -⟩ := path_ret.1 hpath
    cases hmem
  · intro h
    obtain ⟨tr, response, hpath, hpublished⟩ := publishGenericEvent_published ⟨"", "", none⟩
    refine ⟨⟨"", "", none⟩, tr, response, ?_, hpublished⟩
    rw [handleGenericEvent]
    split_ifs with htokens hstatic
    · exact hpath
    · exact absurd h (not_or.2 ⟨htokens, hstatic⟩)
    · exact hpath

/-- The handler and the interceptor read the same token, except that the handler takes the empty one
where the interceptor finds none. -/
theorem webhookToken_eq (headers : Headers) :
    webhookToken headers = ((extractBearerToken ⟨headers⟩).toOption).getD "" := by
  unfold webhookToken extractBearerToken
  cases authorization headers with
  | none => rfl
  | some value =>
    simp only [Option.getD_some]
    cases stripBearer value <;> rfl

variable {M K : Type}

/-- The interceptor accepts what a handler accepts. -/
theorem AuthState.interceptor_eq_ok_iff {J : Jwt M K} {auth : AuthState M} {request : Request} :
    auth.interceptor J request = .ok request ↔ auth.check J request = .ok () := by
  rw [interceptor_eq]
  cases auth.check J request with
  | error e => exact ⟨nofun, nofun⟩
  | ok _ => exact ⟨fun _ => rfl, fun _ => rfl⟩

/-- When the check lets through whom the handler admits. -/
theorem AuthState.check_of_admitted_iff (J : Jwt M K) (auth : AuthState M) (headers : Headers) :
    (auth.config.tokens = [] ∨
        checkStaticTokens auth.config.tokens (webhookToken headers) = true →
      auth.check J ⟨headers⟩ = .ok ()) ↔
      (auth.config.tokens = [] → auth.config.oidcIssuer ≠ none →
        ∃ token, extractBearerToken ⟨headers⟩ = .ok token ∧
          auth.validateJwtCached J token = .ok ()) ∧
      ("" ∈ auth.config.tokens → ∃ token, extractBearerToken ⟨headers⟩ = .ok token) := by
  rw [check_eq_ok_iff, webhookToken_eq]
  by_cases hopen : auth.config.tokens = []
  · -- Nothing is compared, and only the issuer matters.
    have hempty (token : String) : checkStaticTokens [] token = false := rfl
    by_cases hissuer : auth.config.oidcIssuer = none
    · simp [hopen, hissuer]
    · have hsome := Option.isSome_iff_ne_none.2 hissuer
      simp [hopen, hissuer, hempty, hsome]
  · rw [or_iff_right hopen, or_iff_right fun h => hopen h.1]
    cases hextract : extractBearerToken ⟨headers⟩ with
    | error e =>
      simp [hopen, checkStaticTokens_iff_mem, Except.toOption]
    | ok token =>
      simp +contextual [hopen, Except.toOption]

/-- **When the interceptor admits whom the webhook admits**: without static tokens, if there is no
issuer or the header has a token of it; and with an empty token among them, if the header has a
token at all. -/
theorem AuthState.webhook_admits_iff (J : Jwt M K) (auth : AuthState M) (headers : Headers) :
    (Publishes auth.config headers → auth.interceptor J ⟨headers⟩ = .ok ⟨headers⟩) ↔
      (auth.config.tokens = [] → auth.config.oidcIssuer ≠ none →
        ∃ token, extractBearerToken ⟨headers⟩ = .ok token ∧
          auth.validateJwtCached J token = .ok ()) ∧
      ("" ∈ auth.config.tokens → ∃ token, extractBearerToken ⟨headers⟩ = .ok token) := by
  rw [publishes_iff, interceptor_eq_ok_iff]
  exact auth.check_of_admitted_iff J headers

/-- The configurations under which the interceptor admits whom the webhook admits, whatever the
header is. -/
theorem AuthState.webhook_admits_all_iff (J : Jwt M K) (auth : AuthState M) :
    (∀ headers, Publishes auth.config headers →
      auth.interceptor J ⟨headers⟩ = .ok ⟨headers⟩) ↔
      (auth.config.tokens = [] → auth.config.oidcIssuer = none) ∧ "" ∉ auth.config.tokens := by
  simp only [publishes_iff, interceptor_eq_ok_iff, check_of_admitted_iff]
  constructor
  · intro h
    -- No header is enough to tell.
    obtain ⟨hissuer, hempty⟩ := h []
    refine ⟨fun htokens => ?_, fun hmem => ?_⟩
    · by_contra hne
      obtain ⟨token, htoken, -⟩ := hissuer htokens hne
      cases htoken
    · obtain ⟨token, htoken⟩ := hempty hmem
      cases htoken
  · rintro ⟨hissuer, hempty⟩ headers
    exact ⟨fun htokens hne => absurd (hissuer htokens) hne, fun hmem => absurd hmem hempty⟩

/-- Without a token, the webhook publishes and the calls are refused, where an issuer is the only
thing that is configured. -/
theorem AuthState.webhook_admits_unauthenticated :
    Publishes oneKey.config [] ∧
      oneKey.interceptor oneToken ⟨[]⟩ =
        .error (.unauthenticated "missing authorization header") :=
  ⟨publishes_iff.2 (.inl rfl), rfl⟩

end Wfe.Server
