import CairnObs.DeliveryWorker
import CairnObs.GoHttp

/-! Where the POST of a notification goes: the check of `notifystore/ssrf.go` and the requests
of `Worker.attempt`. -/
namespace CairnObs.Delivery

open GoText GoHttp

def isDisallowedWebhookTarget (ip : IP) : Bool :=
  isLoopback ip || isLinkLocalUnicast ip || isLinkLocalMulticast ip || isPrivate ip ||
    isUnspecified ip || isMulticast ip

/-! ### The check -/

def disallowedMessage (P : Platform) (host : Text) (ip : IP) : String :=
  "host " ++ P.quote host ++ " resolves to " ++ P.showIP ip ++
    ", a disallowed address -- internal, loopback, link-local, and cloud-metadata addresses " ++
    "are not allowed as notification target URLs"

/-- `ValidateWebhookURL` after `url.Parse`; `none` is no error. -/
def validateUrl (P : Platform) (answer : Except String (List IP)) (u : Url) : Option String :=
  if ! isHttp u.scheme then
    some ("URL scheme must be http or https, got " ++ P.quote u.scheme)
  else if u.hostname = [] then some "URL must have a host"
  else
    match lookupIP P answer u.hostname with
    | .error err => some ("resolving host " ++ P.quote u.hostname ++ ": " ++ err)
    | .ok [] => some ("host " ++ P.quote u.hostname ++ " did not resolve to any address")
    | .ok (ip :: ips) =>
      ((ip :: ips).find? isDisallowedWebhookTarget).map (disallowedMessage P u.hostname)

def validateWebhookURL (P : Platform) (answer : Except String (List IP)) (raw : Text) :
    Option String :=
  match P.parse raw with
  | .error err => some ("invalid URL: " ++ err)
  | .ok u => validateUrl P answer u

/-- For a URL that can be dialled the check is about the addresses alone. -/
theorem validateUrl_eq_none_iff {P : Platform} {answer : Except String (List IP)} {u : Url}
    {ips : List IP} (h : dial P answer u = .ok ips) :
    validateUrl P answer u = none ↔ ∀ ip ∈ ips, isDisallowedWebhookTarget ip = false := by
  obtain ⟨hscheme, hhost, hlookup, hips⟩ := dial_ok h
  unfold validateUrl
  rw [hscheme, if_neg (by simp), if_neg hhost, hlookup]
  cases ips with
  | nil => exact absurd rfl hips
  | cons ip rest => simp

/-! ### The attempt -/

/-- The defaults of `http.Client`: ten requests and no more. -/
def maxRequests : ℕ := 10

/-- `attempt`, where `target` is what the store returns and `check` answers the lookup of the
check. With the result it gives the requests that were dialled. -/
def attempt (P : Platform) (N : Network) (target : Except String Text)
    (check : Except String (List IP)) : List Request × AttemptResult :=
  match target with
  | .error err => ([], .targetLookup err)
  | .ok raw =>
    match validateWebhookURL P check raw with
    | some err => ([], .invalidURL err)
    | none =>
      match P.parse raw with
      | .error err => ([], .badRequest err)
      | .ok u =>
        let sent := doRequest P N maxRequests 0 u
        match sent.2 with
        | .error err => (sent.1, .transport err)
        | .ok reply => (sent.1, .response reply.status)

/-- An attempt dials what `Do` dials, if there is a target and it passes the check. -/
theorem mem_attempt_iff {P : Platform} {N : Network} {target : Except String Text}
    {check : Except String (List IP)} {r : Request} :
    r ∈ (attempt P N target check).1 ↔ ∃ raw u, target = .ok raw ∧ P.parse raw = .ok u ∧
      validateUrl P check u = none ∧ r ∈ (doRequest P N maxRequests 0 u).1 := by
  unfold attempt validateWebhookURL
  cases target with
  | error err => simp
  | ok raw =>
    cases hparse : P.parse raw with
    | error err => simp [hparse]
    | ok u =>
      cases hvalid : validateUrl P check u with
      | some err => simp [hparse, hvalid]
      | none =>
        simp only [hparse, hvalid, Except.ok.injEq, exists_and_left, exists_eq_left', true_and]
        split <;> rfl

/-- The connections of an attempt avoid the disallowed addresses, whichever of the answered ones
the transport tries, exactly if the URL does not pass the check, or every lookup is answered
without such an address: that for the URL itself, and that for each URL to which the replies
lead within the ten requests. -/
theorem attempt_never_internal_iff (P : Platform) (N : Network) (target : Except String Text)
    (check : Except String (List IP)) :
    (∀ dials, ∀ ip ∈ connections dials (attempt P N target check).1,
        isDisallowedWebhookTarget ip = false) ↔
      ∀ raw u, target = .ok raw → P.parse raw = .ok u → validateUrl P check u = none →
        ∀ k < maxRequests, ∀ v ips, Leads P N 0 u k v → dial P (N.answer k) v = .ok ips →
          ∀ ip ∈ ips, isDisallowedWebhookTarget ip = false := by
  rw [forall_connections_iff]
  constructor
  · intro h raw u htarget hparse hvalid k hk v ips hleads hdial
    have hr : (⟨v, ips⟩ : Request) ∈ (doRequest P N maxRequests 0 u).1 :=
      mem_doRequest_iff.mpr ⟨k, by omega, hleads, hdial⟩
    exact h ⟨v, ips⟩ (mem_attempt_iff.mpr ⟨raw, u, htarget, hparse, hvalid, hr⟩)
  · intro h r hr
    obtain ⟨raw, u, htarget, hparse, hvalid, hr⟩ := mem_attempt_iff.mp hr
    obtain ⟨k, hk, hleads, hdial⟩ := mem_doRequest_iff.mp hr
    exact h raw u htarget hparse hvalid k (by omega) r.url r.addresses hleads hdial

/-- The name service answers the dial as it has answered the check, and the target does not
redirect: then the check is enough. -/
theorem attempt_never_internal_of_steady {P : Platform} {N : Network}
    {target : Except String Text} {check : Except String (List IP)} (hanswer : N.answer 0 = check)
    (hreply : ∀ reply, N.reply 0 = .ok reply → redirects reply.status = false)
    (dials : ℕ → IP → Bool) :
    ∀ ip ∈ connections dials (attempt P N target check).1,
      isDisallowedWebhookTarget ip = false := by
  refine forall_connections_iff.mpr (fun r hr => ?_) dials
  obtain ⟨raw, u, -, -, hvalid, hr⟩ := mem_attempt_iff.mp hr
  obtain ⟨-, hdial⟩ := doRequest_of_no_redirect hreply hr
  rw [hanswer] at hdial
  exact (validateUrl_eq_none_iff hdial).mp hvalid

/-! ### Two ways past the check -/

/-- The address of a cloud's instance metadata. -/
def metadataIP : IP := .v4 169 254 169 254

def hookUrl : Url := ⟨"https".toList, "hook.example".toList, "/alert".toList⟩

def metadataUrl : Url := ⟨"http".toList, "169.254.169.254".toList, "/latest/meta-data/".toList⟩

/-- The values of Go for two URLs. -/
def twoUrls : Platform where
  parse raw :=
    if raw = "https://hook.example/alert".toList then .ok hookUrl else .error "not in use"
  resolve _ ref :=
    if ref = "http://169.254.169.254/latest/meta-data/".toList then .ok metadataUrl
    else .error "not in use"
  parseIP host := if host = "169.254.169.254".toList then some metadataIP else none
  quote host := "\"" ++ String.ofList host ++ "\""
  showIP _ := "169.254.169.254"

/-- The name service and the target are what they seem. -/
def steady : Network where
  answer _ := .ok [.v4 203 0 113 7]
  reply _ := .ok ⟨200, []⟩

theorem attempt_never_internal_steady :
    .v4 203 0 113 7 ∈ connections (fun _ _ => true) (attempt twoUrls steady
        (.ok "https://hook.example/alert".toList) (.ok [.v4 203 0 113 7])).1 ∧
      isDisallowedWebhookTarget (.v4 203 0 113 7) = false := by
  have hip : .v4 203 0 113 7 ∈ connections (fun _ _ => true) (attempt twoUrls steady
      (.ok "https://hook.example/alert".toList) (.ok [.v4 203 0 113 7])).1 := by decide +kernel
  exact ⟨hip, attempt_never_internal_of_steady rfl (by rintro _ ⟨⟩; rfl) _ _ hip⟩

/-- The name service answers the check with a public address and the dial with an internal one. -/
def rebinding : Network where
  answer _ := .ok [metadataIP]
  reply _ := .ok ⟨200, []⟩

/-- The name has one public address, and the server there redirects the first request. -/
def redirecting : Network where
  answer _ := .ok [.v4 203 0 113 7]
  reply n :=
    .ok (if n = 0 then ⟨307, "http://169.254.169.254/latest/meta-data/".toList⟩ else ⟨200, []⟩)

/-- Both deliveries reach the metadata service. -/
theorem attempt_reaches_metadata :
    metadataIP ∈ connections (fun _ _ => true)
        (attempt twoUrls rebinding (.ok "https://hook.example/alert".toList)
          (.ok [.v4 203 0 113 7])).1 ∧
      metadataIP ∈ connections (fun _ _ => true)
        (attempt twoUrls redirecting (.ok "https://hook.example/alert".toList)
          (.ok [.v4 203 0 113 7])).1 ∧
      isDisallowedWebhookTarget metadataIP = true := by
  decide +kernel

end CairnObs.Delivery
