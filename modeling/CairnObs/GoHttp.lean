import CairnObs.GoText

/-! IP addresses with the predicates of Go's `net`, and the requests that the default
`http.Client` sends for one call of `Do`: the first one and those to which replies redirect. -/
namespace GoHttp

open GoText

/-! ### Addresses -/

/-- A `net.IP` of 4 or of 16 bytes. -/
inductive IP
  | v4 (a b c d : UInt8)
  | v6 (bytes : Vector UInt8 16)
  deriving DecidableEq, Repr

/-- The predicates below read a mapped address as the IPv4 address in it. -/
def IP.to4 : IP → Option (UInt8 × UInt8 × UInt8 × UInt8)
  | .v4 a b c d => some (a, b, c, d)
  | .v6 x =>
    if (x.toList.take 10).all (· == 0) && x[10] == 0xff && x[11] == 0xff then
      some (x[12], x[13], x[14], x[15])
    else none

def IP.to16 : IP → Vector UInt8 16
  | .v4 a b c d => #v[0, 0, 0, 0, 0, 0, 0, 0, 0, 0, 0xff, 0xff, a, b, c, d]
  | .v6 x => x

/-- A predicate is one test on the four bytes and one on the sixteen. -/
def IP.test (four : UInt8 → UInt8 → UInt8 → UInt8 → Bool) (sixteen : Vector UInt8 16 → Bool)
    (ip : IP) : Bool :=
  match ip.to4 with
  | some (a, b, c, d) => four a b c d
  | none => sixteen ip.to16

def isLoopback : IP → Bool :=
  IP.test (fun a _ _ _ => a == 127)
    (fun x => x == #v[0, 0, 0, 0, 0, 0, 0, 0, 0, 0, 0, 0, 0, 0, 0, 1])

def isLinkLocalUnicast : IP → Bool :=
  IP.test (fun a b _ _ => a == 169 && b == 254) (fun x => x[0] == 0xfe && x[1] &&& 0xc0 == 0x80)

def isLinkLocalMulticast : IP → Bool :=
  IP.test (fun a b c _ => a == 224 && b == 0 && c == 0)
    (fun x => x[0] == 0xff && x[1] &&& 0x0f == 0x02)

def isPrivate : IP → Bool :=
  IP.test (fun a b _ _ => a == 10 || (a == 172 && b &&& 0xf0 == 16) || (a == 192 && b == 168))
    (fun x => x[0] &&& 0xfe == 0xfc)

def isUnspecified : IP → Bool :=
  IP.test (fun a b c d => a == 0 && b == 0 && c == 0 && d == 0)
    (fun x => x == #v[0, 0, 0, 0, 0, 0, 0, 0, 0, 0, 0, 0, 0, 0, 0, 0])

def isMulticast : IP → Bool :=
  IP.test (fun a _ _ _ => a &&& 0xf0 == 0xe0) (fun x => x[0] == 0xff)

/-! ### Requests -/

structure Url where
  scheme : Text
  hostname : Text
  rest : Text
  deriving DecidableEq

/-- `url.Parse`, `URL.Parse` of a reference, and the literal addresses that a lookup returns
without asking anyone; `quote` is `%q` and `showIP` is `IP.String`. -/
structure Platform where
  parse : Text → Except String Url
  resolve : Url → Text → Except String Url
  parseIP : Text → Option IP
  quote : Text → String
  showIP : IP → String

/-- `net.LookupIP`, where the name service answers `answer`. -/
def lookupIP (P : Platform) (answer : Except String (List IP)) (host : Text) :
    Except String (List IP) :=
  match P.parseIP host with
  | some ip => .ok [ip]
  | none => answer

def isHttp (scheme : Text) : Bool := scheme = "http".toList || scheme = "https".toList

/-- `status` and the `Location` header, empty if there is none. -/
structure Reply where
  status : ℕ
  location : Text

/-- What comes from outside, for the requests of one call in their order: the answer to the
lookup when the request is dialled, and the reply. -/
structure Network where
  answer : ℕ → Except String (List IP)
  reply : ℕ → Except String Reply

/-- The addresses among which the transport chooses. -/
def dial (P : Platform) (answer : Except String (List IP)) (u : Url) : Except String (List IP) :=
  if ! isHttp u.scheme then .error "unsupported protocol scheme"
  else if u.hostname = [] then .error "http: no Host in request URL"
  else
    match lookupIP P answer u.hostname with
    | .error err => .error err
    | .ok [] => .error "missing address"
    | .ok (ip :: ips) => .ok (ip :: ips)

variable {P : Platform} {u : Url} {N : Network} {n : ℕ}

theorem dial_ok {answer : Except String (List IP)} {ips : List IP} (h : dial P answer u = .ok ips) :
    isHttp u.scheme = true ∧ u.hostname ≠ [] ∧
      lookupIP P answer u.hostname = .ok ips ∧ ips ≠ [] := by
  unfold dial at h
  split_ifs at h with hscheme hhost
  refine ⟨by simpa using hscheme, hhost, ?_⟩
  cases hl : lookupIP P answer u.hostname with
  | error err =>
    rw [hl] at h
    cases h
  | ok found =>
    cases found with
    | nil =>
      rw [hl] at h
      cases h
    | cons ip rest =>
      rw [hl] at h
      cases h
      exact ⟨rfl, List.cons_ne_nil ip rest⟩

def redirects (status : ℕ) : Bool := [301, 302, 303, 307, 308].contains status

/-- A redirection without a `Location` is a reply like any other. -/
def nextUrl (P : Platform) (u : Url) (reply : Reply) : Except String (Option Url) :=
  if redirects reply.status && reply.location ≠ [] then
    match P.resolve u reply.location with
    | .error err => .error ("failed to parse Location header: " ++ err)
    | .ok next => .ok (some next)
  else .ok none

/-- A request that has been dialled, with the addresses it was dialled from. -/
structure Request where
  url : Url
  addresses : List IP

/-- `Do`: at most `fuel` requests, of which the first one is the `n`-th of the call. -/
def doRequest (P : Platform) (N : Network) : ℕ → ℕ → Url → List Request × Except String Reply
  | 0, _, _ => ([], .error "stopped after 10 redirects")
  | fuel + 1, n, u =>
    match dial P (N.answer n) u with
    | .error err => ([], .error err)
    | .ok ips =>
      match N.reply n with
      | .error err => ([⟨u, ips⟩], .error err)
      | .ok reply =>
        match nextUrl P u reply with
        | .error err => ([⟨u, ips⟩], .error err)
        | .ok none => ([⟨u, ips⟩], .ok reply)
        | .ok (some next) =>
          let rest := doRequest P N fuel (n + 1) next
          (⟨u, ips⟩ :: rest.1, rest.2)

variable {r : Request} {fuel : ℕ}

/-- One turn of `Do`: the request itself, and those after a redirection. -/
theorem mem_doRequest_succ :
    r ∈ (doRequest P N (fuel + 1) n u).1 ↔
      (r.url = u ∧ dial P (N.answer n) u = .ok r.addresses) ∨
        ∃ ips reply next, dial P (N.answer n) u = .ok ips ∧ N.reply n = .ok reply ∧
          nextUrl P u reply = .ok (some next) ∧ r ∈ (doRequest P N fuel (n + 1) next).1 := by
  obtain ⟨url, addresses⟩ := r
  cases hdial : dial P (N.answer n) u with
  | error err => simp [doRequest, hdial]
  | ok ips =>
    cases hreply : N.reply n with
    | error err => simp [doRequest, hdial, hreply, eq_comm]
    | ok reply =>
      cases hnext : nextUrl P u reply with
      | error err => simp [doRequest, hdial, hreply, hnext, eq_comm]
      | ok next =>
        cases next with
        | none => simp [doRequest, hdial, hreply, hnext, eq_comm]
        | some next => simp [doRequest, hdial, hreply, hnext, eq_comm]

/-- From its `n`-th request, to `u`, the call is led to its `k`-th one, to `v`: each request on
the way can be dialled, and the reply to it names the next URL. -/
inductive Leads (P : Platform) (N : Network) : ℕ → Url → ℕ → Url → Prop
  | here (n : ℕ) (u : Url) : Leads P N n u n u
  | redirected {n k : ℕ} {u v next : Url} {ips : List IP} {reply : Reply}
    (hdial : dial P (N.answer n) u = .ok ips) (hreply : N.reply n = .ok reply)
    (hnext : nextUrl P u reply = .ok (some next)) (hleads : Leads P N (n + 1) next k v) :
    Leads P N n u k v

theorem Leads.le {k : ℕ} {v : Url} (h : Leads P N n u k v) : n ≤ k := by
  induction h with
  | here => exact le_rfl
  | redirected _ _ _ _ ih => exact (Nat.le_succ _).trans ih

/-- The requests of a call are those to which the replies lead, up to the limit. -/
theorem mem_doRequest_iff :
    r ∈ (doRequest P N fuel n u).1 ↔
      ∃ k < n + fuel, Leads P N n u k r.url ∧ dial P (N.answer k) r.url = .ok r.addresses := by
  induction fuel generalizing n u with
  | zero =>
    refine iff_of_false List.not_mem_nil ?_
    rintro ⟨k, hk, hleads, -⟩
    exact absurd hleads.le (by omega)
  | succ fuel ih =>
    rw [mem_doRequest_succ]
    constructor
    · rintro (⟨rfl, hdial⟩ | ⟨ips, reply, next, hdial, hreply, hnext, hr⟩)
      · exact ⟨n, by omega, .here n _, hdial⟩
      · obtain ⟨k, hk, hleads, hdialled⟩ := ih.mp hr
        exact ⟨k, by omega, .redirected hdial hreply hnext hleads, hdialled⟩
    · rintro ⟨k, hk, hleads, hdialled⟩
      cases hleads with
      | here => exact .inl ⟨rfl, hdialled⟩
      | redirected hdial hreply hnext hleads =>
        exact .inr ⟨_, _, _, hdial, hreply, hnext, ih.mpr ⟨k, by omega, hleads, hdialled⟩⟩

/-- Without a redirection there is one request at most. -/
theorem doRequest_of_no_redirect
    (hreply : ∀ reply, N.reply n = .ok reply → redirects reply.status = false)
    (h : r ∈ (doRequest P N (fuel + 1) n u).1) :
    r.url = u ∧ dial P (N.answer n) u = .ok r.addresses := by
  rcases mem_doRequest_succ.mp h with h | ⟨ips, reply, next, -, hr, hnext, -⟩
  · exact h
  · simp [nextUrl, hreply reply hr] at hnext

/-- The addresses to which connections go: `dials` says which of the addresses of a request the
transport tries. -/
def connections (dials : ℕ → IP → Bool) (requests : List Request) : List IP :=
  requests.zipIdx.flatMap (fun x => x.1.addresses.filter (dials x.2))

theorem forall_connections_iff {Q : IP → Prop} {requests : List Request} :
    (∀ dials, ∀ ip ∈ connections dials requests, Q ip) ↔
      ∀ r ∈ requests, ∀ ip ∈ r.addresses, Q ip := by
  constructor
  · intro h r hr ip hip
    obtain ⟨n, hn⟩ := List.mem_iff_getElem?.mp hr
    refine h (fun _ _ => true) ip (List.mem_flatMap.mpr ⟨(r, n), ?_, ?_⟩)
    · exact List.mem_zipIdx_iff_getElem?.mpr hn
    · exact List.mem_filter.mpr ⟨hip, rfl⟩
  · intro h dials ip hip
    obtain ⟨⟨r, n⟩, hr, hdialled⟩ := List.mem_flatMap.mp hip
    have hmem : r ∈ requests := List.mem_of_getElem? (List.mem_zipIdx_iff_getElem?.mp hr)
    exact h r hmem ip (List.mem_filter.mp hdialled).1

end GoHttp
