import Vaultex.AuthBinding

/-!
# What the headers of a request are good for

The server keeps no record of what it has accepted, so the three headers of
an accepted request can be sent again. How long, and with which requests, is
settled by the signed message: the time in it and what it leaves out.
-/

set_option autoImplicit false

namespace Vaultex.AuthMiddleware
open Text Auth

variable {Uuid : Type}

/-- `extract_account_id`, for handlers that read the header themselves. -/
def extractAccountId (S : Server Uuid) (request : Request) : Except StatusCode Uuid := do
  let value ← header request "x-account-id"
  okOr (S.parseUuid value) .badRequest

def SameHeaders (request request' : Request) : Prop :=
  ∀ name ∈ ["x-account-id", "x-timestamp", "x-signature"],
    request'.headers.lookup name = request.headers.lookup name

/-- The time a request bears. -/
def Stamped (request : Request) (timestamp : UInt64) : Prop :=
  ∃ text, header request "x-timestamp" = .ok text ∧ parseU64 text = some timestamp

/-- A signature verifies for one message. -/
def SignsOnce (S : Server Uuid) : Prop :=
  ∀ key signature message message', S.verifySignature key message signature = true →
    S.verifySignature key message' signature = true → message = message'

variable {S : Server Uuid} {now now' : UInt64} {request request' r : Request}

theorem SameHeaders.header_eq (h : SameHeaders request request') {name : String}
    (hname : name ∈ ["x-account-id", "x-timestamp", "x-signature"]) :
    header request' name = header request name := by
  rw [header, header, h name hname]

/-- Old handlers see the account that the middleware has authenticated. -/
theorem extractAccountId_accepted {user : AuthenticatedUser Uuid}
    (h : authMiddleware S now request = .ok (r,some user)) :
    extractAccountId S r = .ok user.accountId := by
  by_cases hopen : isUnauthenticatedRoute (toUppercase request.method.name) request.uri.path = true
  · rw [authMiddleware_open hopen] at h
    cases h
  · rw [Bool.not_eq_true] at hopen
    obtain ⟨c,hc,rfl,huser⟩ := (authMiddleware_ok hopen).mp h
    obtain rfl := Option.some.inj huser
    rw [extractAccountId, hc.account_id_header]
    exact okOr_ok.mpr hc.account_id

/-- The headers and the path fix all of the credentials but the body. -/
theorem Credentials.Accepted.same_headers {c c' : Credentials Uuid} (hc : c.Accepted S now request)
    (hc' : c'.Accepted S now' request') (h : SameHeaders request request') :
    c' = {c with bodyBytes := c'.bodyBytes} := by
  obtain ⟨idStr,id,timeStr,time,sigHex,sig,account,key,body⟩ := c
  obtain ⟨idStr',id',timeStr',time',sigHex',sig',account',key',body'⟩ := c'
  obtain rfl : idStr' = idStr := Except.ok.inj
    (hc'.account_id_header.symm.trans ((h.header_eq (by simp)).trans hc.account_id_header))
  obtain rfl : timeStr' = timeStr := Except.ok.inj
    (hc'.timestamp_header.symm.trans ((h.header_eq (by simp)).trans hc.timestamp_header))
  obtain rfl : sigHex' = sigHex := Except.ok.inj
    (hc'.signature_header.symm.trans ((h.header_eq (by simp)).trans hc.signature_header))
  obtain rfl : id' = id := Option.some.inj (hc'.account_id.symm.trans hc.account_id)
  obtain rfl : time' = time := Option.some.inj (hc'.timestamp_value.symm.trans hc.timestamp_value)
  obtain rfl : sig' = sig := Option.some.inj (hc'.signature_bytes.symm.trans hc.signature_bytes)
  obtain rfl : account' = account :=
    Option.some.inj (Except.ok.inj (hc'.found.symm.trans hc.found))
  obtain rfl : key' = key := Option.some.inj (hc'.identity_key.symm.trans hc.identity_key)
  rfl

/-- What an accepted request has left of itself in another one: the path, the method but for its
letter case, and the body as far as its digest tells. -/
structure Covers (S : Server Uuid) (request request' : Request) : Prop where
  path : request'.uri.path = request.uri.path
  method : toUppercase request'.method.name = toUppercase request.method.name
  body : ∃ bytes bytes', request.body = some bytes ∧ request'.body = some bytes' ∧
    S.sha256 bytes' = S.sha256 bytes ∧ bytes'.length ≤ bodyLimit request.uri.path

theorem covers_of_accepted {c c' : Credentials Uuid} (hS : SignsOnce S)
    (hc : c.Accepted S now request) (hc' : c'.Accepted S now' request')
    (h : SameHeaders request request') : Covers S request request' := by
  have hverified := hc'.verified
  rw [hc.same_headers hc' h] at hverified
  have hmessage := hS _ _ _ _ hverified hc.verified
  obtain ⟨hmethod,hpath,-,hbody⟩ := buildSignedMessage_inj (colon_notMem_toUppercase _)
    (colon_notMem_toUppercase _) hmessage
  exact ⟨hpath,hmethod,_,_,hc.body,hc'.body,hbody,hpath ▸ hc'.body_within⟩

theorem accepted_of_covers {c : Credentials Uuid} (hc : c.Accepted S now request)
    (h : SameHeaders request request') (hcovers : Covers S request request')
    (hfresh : Fresh now' c.timestamp) :
    ∃ bytes', ({c with bodyBytes := bytes'} : Credentials Uuid).Accepted S now' request' := by
  obtain ⟨hpath,hmethod,bytes,bytes',hbody,hbody',hhash,hwithin⟩ := hcovers
  obtain rfl : c.bodyBytes = bytes := Option.some.inj (hc.body.symm.trans hbody)
  have hverified := hc.verified
  rw [signedMessage, ← hhash] at hverified
  refine ⟨bytes',?_⟩
  constructor
  · exact (h.header_eq (by simp)).trans hc.account_id_header
  · exact hc.account_id
  · exact (h.header_eq (by simp)).trans hc.timestamp_header
  · exact hc.timestamp_value
  · exact (h.header_eq (by simp)).trans hc.signature_header
  · exact hc.signature_bytes
  · exact fresh_iff.mpr hfresh
  · exact hc.found
  · exact hc.identity_key
  · exact hbody'
  · rw [hpath]
    exact hwithin
  · rw [hpath, hmethod]
    exact hverified

/-- The headers of one accepted request open the door to exactly these: any number of requests
on the same path, with the same method and digest, as long as the time in them is at most 300 s
away. The query and all other headers are free. -/
theorem captured_headers_iff (hS : SignsOnce S) {user : AuthenticatedUser Uuid}
    (h : authMiddleware S now request = .ok (r,some user)) :
    ∃ timestamp, Stamped request timestamp ∧ ∀ now' request' user', SameHeaders request request' →
      isUnauthenticatedRoute (toUppercase request'.method.name) request'.uri.path = false →
      (authMiddleware S now' request' = .ok (request',some user') ↔
        user' = user ∧ Covers S request request' ∧ Fresh now' timestamp) := by
  by_cases hopen : isUnauthenticatedRoute (toUppercase request.method.name) request.uri.path = true
  · rw [authMiddleware_open hopen] at h
    cases h
  · rw [Bool.not_eq_true] at hopen
    obtain ⟨c,hc,rfl,huser⟩ := (authMiddleware_ok hopen).mp h
    obtain rfl := Option.some.inj huser
    refine ⟨c.timestamp,⟨_,hc.timestamp_header,hc.timestamp_value⟩,
      fun now' request' user' hsame hclosed => ?_⟩
    rw [authMiddleware_ok hclosed]
    constructor
    · rintro ⟨c',hc',-,huser'⟩
      have hfields := hc.same_headers hc' hsame
      obtain rfl := Option.some.inj huser'
      refine ⟨?_,covers_of_accepted hS hc hc' hsame,?_⟩
      · rw [hfields]
        rfl
      · have hfresh := fresh_iff.mp hc'.fresh
        rw [hfields] at hfresh
        exact hfresh
    · rintro ⟨rfl,hcovers,hfresh⟩
      obtain ⟨bytes',hc'⟩ := accepted_of_covers hc hsame hcovers hfresh
      exact ⟨_,hc',rfl,rfl⟩

theorem sample_signs_once : SignsOnce sampleServer := by
  intro key signature message message' h h'
  obtain ⟨-,hmessage,-⟩ := of_decide_eq_true h
  obtain ⟨-,hmessage',-⟩ := of_decide_eq_true h'
  exact hmessage.trans hmessage'.symm

/-- The sample request, sent again 200 s later with a query. -/
theorem captured_headers_iff_query :
    authMiddleware sampleServer 1700000300 (sampleRequest sampleGet (some "all=1")) =
      .ok (sampleRequest sampleGet (some "all=1"),some sampleUser) := by
  obtain ⟨timestamp,⟨text,htext,htime⟩,hiff⟩ := captured_headers_iff sample_signs_once
    (@sample_accepted sampleGet none (by decide))
  have hstamp : header (sampleRequest sampleGet none) "x-timestamp" = .ok (u64Text 1700000000) :=
    header_text rfl fun c hc => digit_visible (u64Text_digits hc)
  have htext' : u64Text 1700000000 = text := Except.ok.inj (hstamp.symm.trans htext)
  rw [← htext', parseU64_u64Text] at htime
  have hsame : SameHeaders (sampleRequest sampleGet none)
      (sampleRequest sampleGet (some "all=1")) := fun _ _ => rfl
  have hclosed : isUnauthenticatedRoute (toUppercase sampleGet.name) "/api/v1/messages/inbox" =
      false := by decide
  have hcovers : Covers sampleServer (sampleRequest sampleGet none)
      (sampleRequest sampleGet (some "all=1")) :=
    ⟨rfl,rfl,[],[],rfl,rfl,rfl,Nat.zero_le _⟩
  exact (hiff 1700000300 _ _ hsame hclosed).mpr ⟨rfl,hcovers,Option.some.inj htime ▸ by decide⟩

end Vaultex.AuthMiddleware
