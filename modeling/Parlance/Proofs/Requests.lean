import Parlance.Proofs.Operation

/-!
# One Response for a Request

A request leads to the first route with its method and its address. The body of the route runs in the
session itself, with a flag that says so and with no response yet. The first response that is given
counts: later ones do nothing, and no other statement touches the response. The flag and the response
from before are put back however the body ends.

## Main definitions

* `Response.ofFailure`: The response to a request that failed.
* `Run.responseTo`: What a request comes to, given the session before and the outcome of the body
  of its route.

## Theorems

* `Run.one_response`: A request that no route serves is answered so, and nothing changes.
* `Run.one_response_twice`: Two routes serve the same request, and the body of the first one
  answers twice.
-/

namespace Parlance
open Run

def Route.Serves (r : Route) (method path : String) : Prop := r.method = method ∧ r.path = path

namespace Session

def requestPart (s : Session) (request : Value) (name : String) : Except Defect String :=
  s.heap.text (match request with
    | .object r => ((s.heap.fields r).get? name).getD .null
    | _ => .null)

def enterRequest (s : Session) (route : Route) (request : Value) : Session :=
  { s with inRequest := true, response := none, bag := s.bag.insert route.request request }

def exitRequest (before s : Session) : Session :=
  { s with inRequest := before.inRequest, response := before.response }

end Session

/-- The response to a request that failed. It carries the message of the failure. -/
def Response.ofFailure (f : Failure) : Response :=
  ⟨500, "application/json", (Json.object [("error", .text f.message)]).compact.toUTF8⟩

namespace Run
variable {method path : String} (L : Linker) (request : Value) (s : Session)

/-- What a request comes to, given the session before and the outcome of the body of its
    route. -/
def responseTo (before : Session) : Except Signal Flow × Session → Except Signal Response × Session
  | (.ok _, s) => (.ok (s.response.getD .noContent), before.exitRequest s)
  | (.error (.failure f), s) =>
    (.ok (s.response.getD (.ofFailure f)), before.exitRequest ((report f).run s).2)
  | (.error signal, s) => (.error signal, before.exitRequest s)

theorem run_body (stmts : List Stmt) (s : Session) :
    (body L stmts).run s = match (L.block stmts).run s with
      | (.ok _, s') => (.ok none, s')
      | (.error (.failure f), s') => (.ok (some f), ((report f).run s').2)
      | (.error signal, s') => (.error signal, s') := by
  rw [body, run_bind, run_attempt]
  rcases (L.block stmts).run s with ⟨(f | n | d | _) | a, s'⟩ <;> rfl

theorem run_chosen (given : Option Response) (failure : Option Failure) (s : Session) :
    (match given, failure with
      | some r, _ => return r
      | none, some f => return .ofFailure f
      | none, none => return .noContent : Run Response).run s =
      (.ok (given.getD ((failure.map .ofFailure).getD .noContent)), s) := by
  cases given <;> cases failure <;> rfl

theorem run_follow (route : Route) (request : Value) (s : Session) :
    (follow L route request).run s =
      responseTo s ((L.block route.body).run (s.enterRequest route request)) := by
  have hset : (setVar route.request request).run { s with inRequest := true, response := none } =
      (.ok (), s.enterRequest route request) := rfl
  rw [follow, bind_ok (run_get s), bind_ok (run_modify _ s), run_bind, run_ensure, bind_ok hset,
    run_bind, run_body]
  rcases (L.block route.body).run (s.enterRequest route request) with ⟨(f | n | d | _) | a, s'⟩
  -- Reporting a failure keeps the response that the body has left.
  case error.failure => exact run_chosen s'.response (some f) _
  case ok => exact run_chosen s'.response none _
  all_goals rfl

theorem run_requestPart (name : String) (s : Session) :
    (match request with
      | .object r => do text (((← fields r).get? name).getD .null)
      | _ => text .null : Run String).run s =
      (match s.requestPart request name with
        | .ok t => .ok t | .error d => .error (.defect d), s) := by
  have htext (v : Value) : (text v).run s = (match s.heap.text v with
      | .ok t => .ok t
      | .error d => .error (.defect d), s) := by
    rw [text, bind_ok (run_get s)]
    cases s.heap.text v <;> rfl
  cases request with
  | object r =>
    have hfields : (fields r).run s = (.ok (s.heap.fields r), s) := rfl
    exact (bind_ok hfields).trans (htext _)
  | _ => exact htext _

theorem run_handleRequest :
    (handleRequest L request).run s =
      match s.requestPart request "method", s.requestPart request "url" with
      | .error d, _ => (.error (.defect d), s)
      | .ok _, .error d => (.error (.defect d), s)
      | .ok method, .ok url =>
        match routeFor? s (Text.upper method) url with
        | none => (.ok .notFound, s) | some route => (follow L route request).run s := by
  have hmethod := run_requestPart request "method" s
  have hurl := run_requestPart request "url" s
  simp only [handleRequest]
  rcases hm : s.requestPart request "method" with d | method <;> rw [hm] at hmethod
  · exact bind_error hmethod
  · refine (bind_ok hmethod).trans ?_
    rcases hu : s.requestPart request "url" with d | url <;> rw [hu] at hurl
    · exact bind_error hurl
    · refine (bind_ok hurl).trans ?_
      rw [bind_ok (run_get s)]
      dsimp only
      rcases routeFor? s (Text.upper method) url with _ | route <;> rfl

theorem routeFor?_eq_some {s : Session} {earlier later : List Route}
    {route : Route} (hroutes : s.routes = earlier ++ route :: later)
    (hearlier : ∀ r ∈ earlier, ¬ r.Serves method path) (hroute : route.Serves method path) :
    routeFor? s method path = some route := by
  have hnone : earlier.find? (fun r => r.method == method && r.path == path) = none := by
    rw [List.find?_eq_none]
    intro r hr hfits
    exact hearlier r hr (by simpa [Route.Serves] using hfits)
  have hfits : (route.method == method && route.path == path) = true := by
    simpa [Route.Serves] using hroute
  rw [routeFor?, hroutes, List.find?_append, hnone, Option.none_or]
  exact List.find?_cons_of_pos hfits

theorem routeFor?_eq_none {s : Session}
    (h : ∀ r ∈ s.routes, ¬ r.Serves method path) : routeFor? s method path = none := by
  rw [routeFor?, List.find?_eq_none]
  intro r hr hfits
  exact h r hr (by simpa [Route.Serves] using hfits)

theorem responseTo_restores (before : Session) (outcome : Except Signal Flow × Session) :
    (responseTo before outcome).2.inRequest = before.inRequest
      ∧ (responseTo before outcome).2.response = before.response := by
  rcases outcome with ⟨(f | n | d | _) | a, s⟩ <;> exact ⟨rfl, rfl⟩

theorem handleRequest_restores : ((handleRequest L request).run s).2.inRequest = s.inRequest
      ∧ ((handleRequest L request).run s).2.response = s.response := by
  rw [run_handleRequest]
  rcases s.requestPart request "method" with d | method
  · exact ⟨rfl, rfl⟩
  rcases s.requestPart request "url" with d | url
  · exact ⟨rfl, rfl⟩
  dsimp only
  cases routeFor? s (Text.upper method) url with
  | none => exact ⟨rfl, rfl⟩
  | some route =>
    dsimp only
    rw [run_follow]
    exact responseTo_restores s _

end Run

theorem Linker.response_exec (n : Nat) (st : Stmt) {s : Session} (hs : s.response.isSome) :
    ((exec (.ofDepth n) st).run s).2.response = s.response := by
  have hexec : Run.Alike (.watching fun _ => True) false (exec (.ofDepth n) st)
      (exec (.ofDepth n) st) := alike_exec st fun _ _ => trivial
  exact (hexec.run s trivial (.of_forall (fun _ => trivial) _)).kept.response hs

namespace Run

/-- A request that no route serves is answered so, and nothing changes. Otherwise the first
    route that serves it decides: its body runs with the request in its variable, and the
    request gets the response that was given, or the one to the failure of the body, or one
    without content. Once there is a response, no statement changes it. The flag and the
    response from before are there again after every request, whatever it comes to. -/
theorem one_response (L : Linker) (n : Nat) :
    (∀ (request : Value) (s : Session) (method url : String),
      s.requestPart request "method" = .ok method → s.requestPart request "url" = .ok url →
      ((∀ r ∈ s.routes, ¬ r.Serves (Text.upper method) url) →
        (handleRequest L request).run s = (.ok .notFound, s)) ∧
      ∀ earlier route later, s.routes = earlier ++ route :: later →
        (∀ r ∈ earlier, ¬ r.Serves (Text.upper method) url) →
        route.Serves (Text.upper method) url →
        (handleRequest L request).run s =
          responseTo s ((L.block route.body).run (s.enterRequest route request))) ∧
    (∀ (st : Stmt) (s : Session), s.response.isSome →
      ((exec (.ofDepth n) st).run s).2.response = s.response) ∧
    ∀ (request : Value) (s : Session),
      ((handleRequest L request).run s).2.inRequest = s.inRequest ∧
        ((handleRequest L request).run s).2.response = s.response := by
  refine ⟨fun request s method url hmethod hurl => ⟨fun hnone => ?_, ?_⟩,
    fun st s hs => Linker.response_exec n st hs, handleRequest_restores L⟩
  · rw [run_handleRequest, hmethod, hurl]
    dsimp only
    rw [routeFor?_eq_none hnone]
  · intro earlier route later hroutes hearlier hroute
    rw [run_handleRequest, hmethod, hurl]
    dsimp only
    rw [routeFor?_eq_some hroutes hearlier hroute]
    exact run_follow L route request s

/-- Two routes serve the same request, and the body of the first one answers twice. -/
theorem one_response_twice :
    let answer (t : String) : Stmt := .command ⟨1, 1⟩
      (.service (.respond (.number ⟨1, 1⟩ (.int 200)) (.text ⟨1, 1⟩ t) none))
    let first : Route := ⟨"GET", "/", "request", [answer "one", answer "two"]⟩
    let second : Route := ⟨"GET", "/", "request", [answer "three"]⟩
    let request : Value := .object ⟨0⟩
    let s : Session :=
      { heap := ⟨#[.object (.ofList [("method", .text "get"), ("url", .text "/")])]⟩
        routes := [first, second] }
    ((s.requestPart request "method" = .ok "get" ∧ s.requestPart request "url" = .ok "/" ∧
        first.Serves (Text.upper "get") "/") ∧
      (handleRequest .full request).run s =
        responseTo s ((Linker.full.block first.body).run (s.enterRequest first request))) ∧
    (handleRequest .full request).run { s with routes := [] } =
      (.ok .notFound, { s with routes := [] }) ∧
    ((exec .full (answer "two")).run { s with response := some .noContent }).2.response =
      some .noContent := by
  intro answer first second request s
  have hserves : first.Serves (Text.upper "get") "/" := ⟨by decide, rfl⟩
  obtain ⟨hroute, hkept, -⟩ := one_response .full Linker.maxDepth
  refine ⟨⟨⟨rfl, rfl, hserves⟩, ?_⟩, ?_, hkept _ _ rfl⟩
  · exact (hroute request s "get" "/" rfl rfl).2 [] first [second] rfl nofun hserves
  · exact (hroute request { s with routes := [] } "get" "/" rfl rfl).1 nofun

end Run
end Parlance
