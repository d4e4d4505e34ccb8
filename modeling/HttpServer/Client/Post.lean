import HttpServer.Client
import HttpServer.Request.Parse

/-! What the client posts.

`post` and `put` put a request with its body together and then have `sendRequest` write
one of its own, which has neither the body nor its length (`exchange_written`). So the
server is never told of a body (`body_never_posted`). -/
namespace HttpServer.BaseClient
open Lib Utils

/-- A host as it stands in a header. -/
def hostField (host : Token) : FieldValue :=
  ⟨host.val, fun c hc => (host.property c hc).2,
    fun h => (host.property _ (List.mem_of_mem_head? h)).1 rfl⟩

/-- The server reads from what was written: this method, this path, this body, and a
`Content-Length` that says how long it is. -/
def Posted (method path body written : Bytes) : Prop :=
  ∃ req, Request.ofRaw written = .ok req ∧ req.method = method ∧ req.path = path ∧
    req.body = body ∧
    req.headers.lookup (text "Content-Length") = some (toDecimal body.length)

/-- What any call with this method and path writes, and what the server reads there: no
body, and no length of one. -/
theorem exchange_written (host : Token) (port : Int) (keepAlive : Bool) {net : Network}
    (hnet : net.refused = none) (unset : ContentType) (unsetFd : Int) (method path : Token) :
    ∃ req, Request.ofRaw
        (exchange ⟨host.val, port, keepAlive⟩ net unset unsetFd method.val path.val).written =
          .ok req ∧
      req.method = method.val ∧ req.path = path.val ∧ req.body = [] ∧
      req.headers.lookup (text "Content-Length") = none := by
  obtain ⟨req, hreq, hmethod, hpath, _, hbody, hheaders, _⟩ :=
    Request.ofRaw_wire (Request.sentRequest (hostField host) keepAlive method path)
  refine ⟨req, ?_, hmethod, hpath, hbody, ?_⟩
  · rw [Request.sentRequest_bytes] at hreq
    unfold exchange sendRequest
    rw [hnet]
    exact hreq
  · rw [hheaders, Map.lookup_ofList]
    rfl

/-- Without a connection nothing is written, and nothing is read there. -/
theorem not_posted (host : Token) (port : Int) (keepAlive : Bool) (net : Network)
    (unset : ContentType) (unsetFd : Int) (method path : Token) (body : Bytes) :
    ¬ Posted method.val path.val body
      (exchange ⟨host.val, port, keepAlive⟩ net unset unsetFd method.val path.val).written := by
  intro hposted
  obtain ⟨req, hreq, _, _, _, hlength⟩ := hposted
  cases hnet : net.refused with
  | none =>
    obtain ⟨req', hreq', _, _, _, hnone⟩ :=
      exchange_written host port keepAlive hnet unset unsetFd method path
    rw [hreq] at hreq'
    rw [Except.ok.inj hreq', hnone] at hlength
    cases hlength
  | some message =>
    unfold exchange sendRequest at hreq
    rw [hnet] at hreq
    have hempty : req = {} := (Except.ok.inj hreq).symm
    rw [hempty] at hlength
    cases hlength

/-- **No body is ever posted**: whatever the body, the bytes of `post` and of `put` are
not read as what was asked for. -/
theorem body_never_posted (host path : Token) (port : Int) (keepAlive : Bool) (net : Network)
    (unset : ContentType) (unsetFd : Int) (body : Bytes) :
    ¬ Posted (text "POST") path.val body
      (post ⟨host.val, port, keepAlive⟩ net unset unsetFd path.val body).written ∧
    ¬ Posted (text "PUT") path.val body
      (put ⟨host.val, port, keepAlive⟩ net unset unsetFd path.val body).written :=
  ⟨not_posted host port keepAlive net unset unsetFd ⟨text "POST", every_char (by decide)⟩ path body,
    not_posted host port keepAlive net unset unsetFd ⟨text "PUT", every_char (by decide)⟩ path body⟩

/-- A posted `ping` is read as a request without it. -/
theorem ping_not_posted :
    let written := (post ⟨text "localhost", 8080, true⟩ {refused := none, answer := .ok}
      .plainText 0 (text "/a") (text "ping")).written
    ¬ Posted (text "POST") (text "/a") (text "ping") written ∧
      ∃ req, Request.ofRaw written = .ok req ∧ req.method = text "POST" ∧
        req.path = text "/a" ∧ req.body = [] ∧
        req.headers.lookup (text "Content-Length") = none := by
  have hnet : Network.refused {refused := none, answer := .ok} = none := rfl
  exact ⟨not_posted ⟨text "localhost", every_char (by decide)⟩ 8080 true
      {refused := none, answer := .ok} .plainText 0 ⟨text "POST", every_char (by decide)⟩
      ⟨text "/a", every_char (by decide)⟩ (text "ping"),
    exchange_written ⟨text "localhost", every_char (by decide)⟩ 8080 true hnet .plainText 0
      ⟨text "POST", every_char (by decide)⟩ ⟨text "/a", every_char (by decide)⟩⟩

end HttpServer.BaseClient
