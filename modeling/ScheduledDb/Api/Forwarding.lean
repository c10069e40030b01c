import ScheduledDb.Api.Sanitize
import ScheduledDb.Api.Service

/-!
# Requests on their way to the leader

A node that does not lead passes requests to create, delete or cancel jobs on to the node it takes for
the leader (`proxyToLeader`).  That node does the same, so that a request may go through several
nodes, and the answer comes back the same way.  Whatever the nodes believe, and whatever becomes of
their connections, at most one node executes a request, the last on its way; a client that is told
`502` cannot know whether one did (**`forwarded_once`**).
-/

namespace ScheduledDb

open Program

/-- What a node has for its requests. -/
structure Site where
  handlers : Handlers
  /-- HTTP addresses by Raft addresses. -/
  addressMap : Finmap fun _ : String => String
  /-- The variable `HTTP_PORT`, empty if it is not set. -/
  httpPort : String

namespace Site

/-- An address that is not in the table keeps its host and gets the port that the node has itself. -/
def calculateHTTPAddress (site : Site) (raftAddr : String) : Except String String :=
  match raftAddr.toList.splitOn ':' with
  | [host, _] =>
    if clusterDomain <:+: host then .ok ("http://" ++ String.ofList host ++ ":8080")
    else
      let host := if host = "localhost".toList then "127.0.0.1" else String.ofList host
      let port := if site.httpPort = "" then 8080 else (parseInt64 site.httpPort).getD 8080
      .ok ("http://" ++ host ++ ":" ++ toString port)
  | _ => .error ("invalid Raft address format: " ++ raftAddr)

/-- The table's entry for an address under the other name of its host. -/
def aliased (site : Site) (host other raftAddr : String) : Option String :=
  if host.toList <+: raftAddr.toList then
    site.addressMap.lookup (String.ofList (other.toList ++ raftAddr.toList.drop host.length))
  else none

def getHTTPAddressForRaft (site : Site) (raftAddr : String) : Except String String :=
  match (site.addressMap.lookup raftAddr).or ((site.aliased "localhost:" "127.0.0.1:" raftAddr).or
      (site.aliased "127.0.0.1:" "localhost:" raftAddr)) with
  | some httpAddr => .ok httpAddr
  | none => site.calculateHTTPAddress raftAddr

end Site

/-! ## Replies -/

/-- A reply, without the header fields that the library adds. -/
structure HttpReply where
  header : List (String × String)
  answer : ApiResponse

/-- What `corsMiddleware` sets before a handler runs. -/
def corsHeader : List (String × String) :=
  [("Access-Control-Allow-Origin", "*"),
    ("Access-Control-Allow-Methods", "GET, POST, DELETE, OPTIONS"),
    ("Access-Control-Allow-Headers", "Content-Type, Authorization")]

namespace HttpReply

def own (answer : ApiResponse) : HttpReply where
  header := corsHeader ++
    if answer = .plain .noContent then [] else [("Content-Type", "application/json")]
  answer := answer

/-- The fields of the reply come after those that are set already. -/
def passedBack (reply : HttpReply) : HttpReply := ⟨corsHeader ++ reply.header, reply.answer⟩

end HttpReply

def unreachable : ApiResponse := .error 502 "Unable to reach leader"

/-- The answers that `proxyToLeader` gives itself. -/
def proxyErrors : List ApiResponse :=
  [.error 503 "No leader available", .error 503 "Leader unavailable", .error 500 "Internal error",
    unreachable]

/-! ## The way of a request -/

/-- What becomes of the request that a node makes: it is answered, it does not arrive, or it arrives
and the answer does not come in time. -/
inductive Link where
  | answered | refused | lost

/-- What a request finds at a node. -/
structure Arrival where
  node : Node
  env : ℕ → Env
  /-- The Raft address of the leader, as far as it is known. -/
  leader : String
  link : Link

/-- The handlers that ask first whether the node leads. -/
def ApiRequest.needsLeader : ApiRequest → Bool
  | createJob _ | deleteJob _ | cancelJob _ _ => true
  | _ => false

namespace Arrival

def passesOn (a : Arrival) (req : ApiRequest) : Bool := req.needsLeader && !(a.env 0).leader

/-- The node after the handler, and its answer. -/
def serve (a : Arrival) (req : ApiRequest) (site : Site) : Node × ApiResponse :=
  let result := run (handle 0) (req.program site.handlers) a.env a.node
  (result.1, result.2.1)

/-- A handler that passes a request on does nothing else. -/
lemma serve_of_passesOn {a : Arrival} {req : ApiRequest} (h : a.passesOn req) (site : Site) :
    a.serve req site = (a.node, .plain .proxied) := by
  obtain ⟨hneeds, hleads⟩ := Bool.and_eq_true_iff.mp h
  have hleads : (a.env 0).leader = false := by simpa using hleads
  cases req with
  | createJob body =>
    simp [serve, ApiRequest.program, Handlers.createJob, handle, hleads]
  | deleteJob id =>
    simp [serve, ApiRequest.program, Handlers.deleteJob, handle, hleads]
  | cancelJob id reason =>
    simp [serve, ApiRequest.program, Handlers.cancelJob, handle, hleads]
  | _ => cases hneeds

end Arrival

/-- Which URLs can be parsed, and who listens there. -/
structure Network where
  parses : String → Bool
  listening : String → Option Site

/-- The reply, unless the request is still on its way, and where it has been, with the nodes as they
are afterwards. -/
structure Journey where
  reply : Option HttpReply
  stops : List (Site × Node)

namespace Network

/-- `proxyToLeader` as far as its request. -/
def leaderURL (net : Network) (site : Site) (leader : String) : Except ApiResponse String :=
  if leader = "" then .error (.error 503 "No leader available")
  else
    match site.getHTTPAddressForRaft leader with
    | .error _ => .error (.error 503 "Leader unavailable")
    | .ok httpAddr =>
      if net.parses httpAddr then .ok httpAddr else .error (.error 500 "Internal error")

/-- A request comes to a site, and to others from there. -/
def receive (net : Network) (req : ApiRequest) : Site → List Arrival → Journey
  | _, [] => ⟨none, []⟩
  | site, a :: rest =>
    let (node, answer) := a.serve req site
    if a.passesOn req then
      match net.leaderURL site a.leader with
      | .error answer => ⟨some (.own answer), [(site, node)]⟩
      | .ok url =>
        match a.link, net.listening url with
        | .answered, some next =>
          let journey := net.receive req next rest
          ⟨journey.reply.map HttpReply.passedBack, (site, node) :: journey.stops⟩
        | .lost, some next =>
          ⟨some (.own unreachable), (site, node) :: (net.receive req next rest).stops⟩
        | _, _ => ⟨some (.own unreachable), [(site, node)]⟩
    else ⟨some (.own answer), [(site, node)]⟩

lemma mem_proxyErrors {net : Network} {site : Site} {leader : String} {answer : ApiResponse}
    (h : net.leaderURL site leader = .error answer) : answer ∈ proxyErrors := by
  unfold leaderURL at h
  split_ifs at h
  · simp [← Except.error.inj h, proxyErrors]
  · split at h
    · simp [← Except.error.inj h, proxyErrors]
    · split_ifs at h
      simp [← Except.error.inj h, proxyErrors]

/-- What a node that passes a request on does: it gives up, or hands the request over and waits for
the reply. -/
lemma receive_of_passesOn (net : Network) {req : ApiRequest} {a : Arrival} (h : a.passesOn req)
    (site : Site) (rest : List Arrival) :
    (∃ answer ∈ proxyErrors,
        net.receive req site (a :: rest) = ⟨some (.own answer), [(site, a.node)]⟩) ∨
      ∃ next, (net.receive req site (a :: rest)).stops
          = (site, a.node) :: (net.receive req next rest).stops ∧
        ((net.receive req site (a :: rest)).reply
            = (net.receive req next rest).reply.map HttpReply.passedBack ∨
          a.link = .lost ∧ (net.receive req site (a :: rest)).reply = some (.own unreachable)) := by
  have hserve := Arrival.serve_of_passesOn h site
  have hunreachable : unreachable ∈ proxyErrors := by simp [proxyErrors]
  cases hurl : net.leaderURL site a.leader with
  | error answer =>
    exact Or.inl ⟨answer, mem_proxyErrors hurl, by simp [receive, hserve, h, hurl]⟩
  | ok url =>
    cases hnext : net.listening url with
    | none =>
      refine Or.inl ⟨_, hunreachable, ?_⟩
      cases hlink : a.link <;> simp [receive, hserve, h, hurl, hnext, hlink]
    | some next =>
      cases hlink : a.link with
      | answered => exact Or.inr ⟨next, by simp [receive, hserve, h, hurl, hnext, hlink]⟩
      | refused =>
        exact Or.inl ⟨_, hunreachable, by simp [receive, hserve, h, hurl, hlink]⟩
      | lost => exact Or.inr ⟨next, by simp [receive, hserve, h, hurl, hnext, hlink]⟩

/-- **At most once.**  All nodes that a request comes to are left as they were, and there is no answer
but an error of `proxyToLeader`; or all but the last are, and the reply is what the handler there
answered, with the fields of `corsMiddleware` once more for every node on the way back, or `502` of
one that lost the answer. -/
theorem forwarded_once (net : Network) (req : ApiRequest) (site : Site) (arrivals : List Arrival) :
    let journey := net.receive req site arrivals
    ∃ k, (∀ a ∈ arrivals.take k, a.passesOn req) ∧
      ((journey.stops.map Prod.snd = (arrivals.take k).map Arrival.node ∧
          ∀ reply ∈ journey.reply, reply.answer ∈ proxyErrors) ∨
        ∃ a last way, arrivals[k]? = some a ∧ a.passesOn req = false ∧
          journey.stops = way ++ [(last, (a.serve req last).1)] ∧
          way.map Prod.snd = (arrivals.take k).map Arrival.node ∧
          (journey.reply = some (HttpReply.passedBack^[k] (.own (a.serve req last).2)) ∨
            ∃ j < k, ∃ a', arrivals[j]? = some a' ∧ a'.link = .lost ∧
              journey.reply = some (HttpReply.passedBack^[j] (.own unreachable)))) := by
  intro journey
  induction arrivals generalizing site with
  | nil => exact ⟨0, by simp, Or.inl ⟨rfl, by simp [journey, receive]⟩⟩
  | cons a rest ih =>
    by_cases hpass : a.passesOn req
    swap
    · refine ⟨0, by simp, Or.inr ⟨a, site, [], rfl, by simpa using hpass, ?_⟩⟩
      simp [journey, receive, hpass]
    rcases net.receive_of_passesOn hpass site rest with
      ⟨answer, hanswer, hjourney⟩ | ⟨next, hstops, hreply⟩
    · refine ⟨1, by simpa using hpass, Or.inl ?_⟩
      simpa [journey, hjourney, HttpReply.own] using hanswer
    · obtain ⟨k, hpasses, hcase⟩ := ih next
      refine ⟨k + 1, by simpa using ⟨hpass, hpasses⟩, ?_⟩
      rcases hcase with ⟨hnodes, hall⟩ | ⟨b, last, way, hb, hstays, hway, hnodes, hanswer⟩
      · refine Or.inl ⟨by simp [journey, hstops, hnodes], fun reply hmem => ?_⟩
        rcases hreply with hback | ⟨-, hlost⟩
        · obtain ⟨reply', hreply', rfl⟩ := Option.map_eq_some_iff.mp (hback.symm.trans hmem)
          exact hall reply' hreply'
        · rw [← Option.some.inj (hlost.symm.trans hmem)]
          simp [HttpReply.own, proxyErrors]
      · refine Or.inr ⟨b, last, (site, a.node) :: way, by simpa using hb, hstays,
          by simp [journey, hstops, hway], by simp [hnodes], ?_⟩
        rcases hreply with hback | ⟨hlink, hlost⟩
        · rcases hanswer with hanswer | ⟨j, hj, a', ha', hlink, hanswer⟩
          · left
            rw [hback, hanswer, Function.iterate_succ_apply']
            rfl
          · refine Or.inr ⟨j + 1, by omega, a', by simpa using ha', hlink, ?_⟩
            rw [hback, hanswer, Function.iterate_succ_apply']
            rfl
        · exact Or.inr ⟨0, by omega, a, rfl, hlink, hlost⟩

end Network

end ScheduledDb
