import Vaultex.Auth
import Vaultex.Errors

/-!
# Signed requests, server side

The authentication middleware in `server-middleware/auth.rs`. What it calls
outside that file is a parameter: the account store, UUID parsing, SHA-256
and `verify_signature`; the clock it reads is an argument. A method is an HTTP
token, so `to_uppercase` only meets ASCII letters. Header names are kept in
lower case, as a `HeaderMap` keeps them, and a body is `none` where reading
the stream fails.
-/

set_option autoImplicit false

namespace Vaultex
open Text

namespace AuthMiddleware

def isTokenChar (c : Char) : Bool := c.isAlphanum || "!#$%&'*+-.^_`|~".toList.contains c

structure Method where
  name : String
  name_ne : name ≠ ""
  token : name.toList.all isTokenChar

structure Uri where
  path : String
  query : Option String

structure Request where
  method : Method
  uri : Uri
  headers : List (String × List UInt8)
  body : Option (List UInt8)

inductive StatusCode where
  | badRequest
  | unauthorized
  | internalServerError
  deriving DecidableEq

structure Account where
  identityKeyHex : String

structure AuthenticatedUser (Uuid : Type) where
  accountId : Uuid
  identityKeyHex : String

structure Server (Uuid : Type) where
  sha256 : Sha256
  parseUuid : String → Option Uuid
  getAccountById : Uuid → Except Unit (Option Account)
  verifySignature (key message signature : List UInt8) : Bool

def MAX_TIMESTAMP_DRIFT_SECS : UInt64 := 300

def isUnauthenticatedRoute (method path : String) : Bool :=
  (method = "POST" && path = "/api/v1/accounts/register")
  || (method = "GET" && path = "/api/v1/health")
  || (method = "GET" && path = "/api/v1/ping")
  || path = "/ws"
  || (method = "GET" && startsWith path "/api/v1/accounts/by-key/")
  || (method = "GET" && contains path "/prekey_bundle")
  || (method = "POST" && path = "/api/v1/messages/send")
  || (method = "POST" && path = "/api/v1/messages/sealed")
  || (path = "/api/v1/stats/visits" && (method = "GET" || method = "POST"))

def toUppercase (s : String) : String := String.ofList (s.toList.map Char.toUpper)

def isVisibleAscii (b : UInt8) : Bool := (32 ≤ b && b < 127) || b == 9

/-- `HeaderValue::to_str`. -/
def toStr (value : List UInt8) : Option String :=
  if value.all isVisibleAscii then fromUtf8 value else none

def okOr {α ε : Type} (o : Option α) (e : ε) : Except ε α :=
  match o with
  | some a => .ok a
  | none => .error e

def ensure {ε : Type} (p : Prop) [Decidable p] (e : ε) : Except ε Unit :=
  if p then .ok () else .error e

/-- A header the middleware insists on. -/
def header (request : Request) (name : String) : Except StatusCode String := do
  let value ← okOr (request.headers.lookup name) .unauthorized
  okOr (toStr value) .badRequest

variable {Uuid : Type}

def findAccount (S : Server Uuid) (accountId : Uuid) : Except StatusCode Account :=
  match S.getAccountById accountId with
  | .error _ => .error .internalServerError
  | .ok none => .error .unauthorized
  | .ok (some account) => .ok account

def absDiff (a b : UInt64) : UInt64 := if a ≤ b then b-a else a-b

def bodyLimit (path : String) : ℕ :=
  if startsWith path "/api/v1/media/" then 100*1024*1024 else 1024*1024

def toBytes (body : Option (List UInt8)) (limit : ℕ) : Option (List UInt8) :=
  body.filter fun bytes => bytes.length ≤ limit

/-- The string the middleware puts together, as bytes. -/
def signedMessage (sha256 : Sha256) (method path : String) (timestamp : UInt64)
    (bodyBytes : List UInt8) : List UInt8 :=
  let bodyHash := Hex.encode (sha256 bodyBytes).toList
  utf8 (method++":"++path++":"++u64Text timestamp++":"++bodyHash)

/-- The request handed to the next handler, with the user in its extensions,
or the status that is returned instead. -/
def authMiddleware (S : Server Uuid) (now : UInt64) (request : Request) :
    Except StatusCode (Request × Option (AuthenticatedUser Uuid)) :=
  let method := toUppercase request.method.name
  let path := request.uri.path
  if isUnauthenticatedRoute method path then .ok (request, none)
  else do
    let accountIdStr ← header request "x-account-id"
    let accountId ← okOr (S.parseUuid accountIdStr) .badRequest
    let timestampStr ← header request "x-timestamp"
    let timestamp ← okOr (parseU64 timestampStr) .badRequest
    let signatureHex ← header request "x-signature"
    let signatureBytes ← okOr (Hex.decode signatureHex) .badRequest
    ensure (absDiff now timestamp ≤ MAX_TIMESTAMP_DRIFT_SECS) .unauthorized
    let account ← findAccount S accountId
    let identityKeyBytes ← okOr (Hex.decode (trim account.identityKeyHex)) .internalServerError
    let bodyBytes ← okOr (toBytes request.body (bodyLimit path)) .badRequest
    let message := signedMessage S.sha256 method path timestamp bodyBytes
    ensure (S.verifySignature identityKeyBytes message signatureBytes) .unauthorized
    let user := { accountId, identityKeyHex := trim account.identityKeyHex }
    .ok ({request with body := some bodyBytes}, some user)

/-- What the middleware reads on its way to an accepted request. -/
structure Credentials (Uuid : Type) where
  accountIdStr : String
  accountId : Uuid
  timestampStr : String
  timestamp : UInt64
  signatureHex : String
  signatureBytes : List UInt8
  account : Account
  identityKeyBytes : List UInt8
  bodyBytes : List UInt8

structure Credentials.Accepted (c : Credentials Uuid) (S : Server Uuid) (now : UInt64)
    (request : Request) : Prop where
  account_id_header : header request "x-account-id" = .ok c.accountIdStr
  account_id : S.parseUuid c.accountIdStr = some c.accountId
  timestamp_header : header request "x-timestamp" = .ok c.timestampStr
  timestamp_value : parseU64 c.timestampStr = some c.timestamp
  signature_header : header request "x-signature" = .ok c.signatureHex
  signature_bytes : Hex.decode c.signatureHex = some c.signatureBytes
  fresh : absDiff now c.timestamp ≤ MAX_TIMESTAMP_DRIFT_SECS
  found : S.getAccountById c.accountId = .ok (some c.account)
  identity_key : Hex.decode (trim c.account.identityKeyHex) = some c.identityKeyBytes
  body : request.body = some c.bodyBytes
  body_within : c.bodyBytes.length ≤ bodyLimit request.uri.path
  verified : S.verifySignature c.identityKeyBytes (signedMessage S.sha256
    (toUppercase request.method.name) request.uri.path c.timestamp c.bodyBytes)
    c.signatureBytes = true

def Credentials.user (c : Credentials Uuid) : AuthenticatedUser Uuid where
  accountId := c.accountId
  identityKeyHex := trim c.account.identityKeyHex

theorem okOr_ok {α ε : Type} {o : Option α} {e : ε} {a : α} : okOr o e = .ok a ↔ o = some a := by
  cases o <;> simp [okOr]

theorem ensure_ok {ε : Type} {p : Prop} [Decidable p] {e : ε} {u : Unit} :
    ensure p e = .ok u ↔ p := by
  by_cases hp : p <;> simp [ensure, hp]

theorem toBytes_some {body : Option (List UInt8)} {limit : ℕ} {bytes : List UInt8} :
    toBytes body limit = some bytes ↔ body = some bytes ∧ bytes.length ≤ limit := by
  simp [toBytes, Option.filter_eq_some_iff]

theorem findAccount_ok {S : Server Uuid} {accountId : Uuid} {account : Account} :
    findAccount S accountId = .ok account ↔ S.getAccountById accountId = .ok (some account) := by
  rw [findAccount]
  split <;> simp [*]

variable {S : Server Uuid} {now : UInt64} {request r : Request}

theorem authMiddleware_open
    (h : isUnauthenticatedRoute (toUppercase request.method.name) request.uri.path = true) :
    authMiddleware S now request = .ok (request,none) := if_pos h

/-- Outside the open routes a request is passed on as it came, and exactly
when some credentials in it are accepted. -/
theorem authMiddleware_ok {user : Option (AuthenticatedUser Uuid)}
    (h : isUnauthenticatedRoute (toUppercase request.method.name) request.uri.path = false) :
    authMiddleware S now request = .ok (r,user) ↔
      ∃ c : Credentials Uuid, c.Accepted S now request ∧ r = request ∧ user = some c.user := by
  simp only [authMiddleware, h, Bool.false_eq_true, if_false, bind_eq_ok, okOr_ok, ensure_ok,
    toBytes_some, findAccount_ok]
  constructor
  · rintro ⟨idStr,hidStr,id,hid,timeStr,htimeStr,time,htime,sigHex,hsigHex,sig,hsig,-,hfresh,
      account,hfound,key,hkey,body,⟨hbody,hwithin⟩,-,hverified,hok⟩
    obtain ⟨rfl,rfl⟩ := Prod.mk.inj (Except.ok.inj hok)
    have hsame : {request with body := some body} = request := by rw [← hbody]
    exact ⟨⟨idStr,id,timeStr,time,sigHex,sig,account,key,body⟩,
      ⟨hidStr,hid,htimeStr,htime,hsigHex,hsig,hfresh,hfound,hkey,hbody,hwithin,hverified⟩,
      hsame,rfl⟩
  · rintro ⟨c,hc,rfl,rfl⟩
    have hsame : {r with body := some c.bodyBytes} = r := by rw [← hc.body]
    exact ⟨_,hc.account_id_header,_,hc.account_id,_,hc.timestamp_header,_,hc.timestamp_value,_,
      hc.signature_header,_,hc.signature_bytes,(),hc.fresh,_,hc.found,_,hc.identity_key,_,
      ⟨hc.body,hc.body_within⟩,(),hc.verified,by rw [hsame]; rfl⟩

end AuthMiddleware
end Vaultex
