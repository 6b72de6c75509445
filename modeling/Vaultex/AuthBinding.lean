import Vaultex.AuthMiddleware

/-!
# What an accepted request proves

Both ends of the signed message: what the holder of an account's key must
have signed when a request is accepted for that account, and which of the
client's own requests the server accepts.
-/

set_option autoImplicit false

namespace Vaultex.AuthMiddleware
open Text Auth

variable {Uuid : Type}

/-- One request that the holder of a key has signed with `build_signed_message`. -/
structure SignedRequest where
  key : List UInt8
  method : Method
  path : String
  timestamp : UInt64
  body : List UInt8

def SignedRequest.message (s : SignedRequest) (sha256 : Sha256) : List UInt8 :=
  buildSignedMessage sha256 s.method.name s.path s.timestamp s.body

/-- What verifies is a signed request or a signed prekey, accounts are found
under their registered key, and no body signed collides with the body received. -/
structure Trusted (S : Server Uuid) (registeredKey : Uuid → List UInt8)
    (log : List SignedRequest) (request : Request) : Prop where
  unforgeable {key message signature : List UInt8} :
    S.verifySignature key message signature = true →
    (∃ s ∈ log, s.key = key ∧ s.message S.sha256 = message) ∨
      ∃ prekey : Bytes32, prekey.toList = message
  registered {accountId : Uuid} {account : Account} {key : List UInt8} :
    S.getAccountById accountId = .ok (some account) →
    Hex.decode (trim account.identityKeyHex) = some key → key = registeredKey accountId
  collision_free {s : SignedRequest} {body : List UInt8} : s ∈ log → request.body = some body →
    S.sha256 s.body = S.sha256 body → s.body = body

theorem colon_notMem_method (m : Method) : ':' ∉ m.name.toList :=
  fun h => absurd (List.all_eq_true.mp m.token _ h) (by decide)

theorem eq_colon_of_toUpper {c : Char} (h : c.toUpper = ':') : c = ':' := by
  delta Char.toUpper at h
  split at h
  · rename_i hlower
    have hval := congrArg UInt32.toNat (congrArg Char.val h)
    have hge : 97 ≤ c.val.toNat := UInt32.le_iff_toNat_le.mp hlower.1
    have hle : c.val.toNat ≤ 122 := UInt32.le_iff_toNat_le.mp hlower.2
    simp [UInt32.toNat_add] at hval
    rw [Char.toNat_val] at hge hle
    omega
  · exact h

theorem colon_notMem_toUppercase (m : Method) : ':' ∉ (toUppercase m.name).toList := by
  rw [toUppercase, String.toList_ofList]
  intro h
  obtain ⟨c,hc,hupper⟩ := List.mem_map.mp h
  rw [eq_colon_of_toUpper hupper] at hc
  exact colon_notMem_method m hc

/-- The 64 digits of the body hash alone make a request longer than a prekey. -/
theorem not_prekey (sha256 : Sha256) (method path : String) (timestamp : UInt64)
    (body : List UInt8) :
    ¬∃ prekey : Bytes32, prekey.toList = signedMessage sha256 method path timestamp body := by
  rintro ⟨prekey,h⟩
  have hlen := congrArg List.length h
  have hhash : (utf8 (Hex.encode (sha256 body).toList)).length = 64 := by
    rw [utf8_length_hexdigits (Hex.encode_hexdigits _), Hex.encode_length, Vector.length_toList]
  rw [Vector.length_toList, signedMessage, utf8_append, List.length_append, hhash] at hlen
  omega

theorem absDiff_toNat (a b : UInt64) :
    (absDiff a b).toNat = max a.toNat b.toNat-min a.toNat b.toNat := by
  by_cases h : a ≤ b
  · have hnat := UInt64.le_iff_toNat_le.mp h
    rw [absDiff, if_pos h, UInt64.toNat_sub_of_le _ _ h]
    omega
  · have hle : b ≤ a := by
      rw [UInt64.le_iff_toNat_le] at h ⊢
      omega
    have hnat := UInt64.le_iff_toNat_le.mp hle
    rw [absDiff, if_neg h, UInt64.toNat_sub_of_le _ _ hle]
    omega

def Fresh (now timestamp : UInt64) : Prop :=
  now.toNat ≤ timestamp.toNat+300 ∧ timestamp.toNat ≤ now.toNat+300

instance (now timestamp : UInt64) : Decidable (Fresh now timestamp) :=
  inferInstanceAs (Decidable (_ ∧ _))

theorem fresh_iff {now timestamp : UInt64} :
    absDiff now timestamp ≤ MAX_TIMESTAMP_DRIFT_SECS ↔ Fresh now timestamp := by
  rw [UInt64.le_iff_toNat_le, absDiff_toNat, show MAX_TIMESTAMP_DRIFT_SECS.toNat = 300 from rfl,
    Fresh]
  omega

variable {S : Server Uuid} {now : UInt64} {request r : Request}

def Visible (c : Char) : Prop := 32 ≤ c.toNat ∧ c.toNat < 127

instance (c : Char) : Decidable (Visible c) := inferInstanceAs (Decidable (_ ∧ _))

theorem visible_bytes {c : Char} (h : Visible c) :
    (String.utf8EncodeChar c).all isVisibleAscii := by
  have hsize : c.utf8Size = 1 := by
    rw [Char.utf8Size_eq_one_iff, UInt32.le_iff_toNat_le]
    exact Nat.le_of_lt h.2
  have hbyte : c.val.toUInt8.toNat = c.toNat := by
    have hlt := h.2
    rw [UInt32.toNat_toUInt8, Char.toNat_val]
    omega
  rw [String.utf8EncodeChar_eq_singleton hsize, List.all_cons, List.all_nil, Bool.and_true,
    isVisibleAscii, Bool.or_eq_true, Bool.and_eq_true, decide_eq_true_eq, decide_eq_true_eq,
    UInt8.le_iff_toNat_le, UInt8.lt_iff_toNat_lt, hbyte]
  exact .inl h

/-- A header value that is a text of visible ASCII is read back. -/
theorem toStr_utf8 {s : String} (h : ∀ c ∈ s.toList, Visible c) :
    toStr (utf8 s) = some s := by
  have hvisible : (utf8 s).all isVisibleAscii := by
    rw [utf8, List.all_eq_true]
    intro b hb
    obtain ⟨c,hc,hb⟩ := List.mem_flatMap.mp hb
    exact List.all_eq_true.mp (visible_bytes (h c hc)) b hb
  rw [toStr, if_pos hvisible, fromUtf8_utf8]

theorem hexdigit_visible {c : Char} (h : isAsciiHexdigit c) : Visible c := by
  simp only [isAsciiHexdigit, Bool.or_eq_true, Bool.and_eq_true, decide_eq_true_eq,
    Char.le_def] at h
  rcases h with (⟨hge,hle⟩ | ⟨hge,hle⟩) | ⟨hge,hle⟩
  · exact ⟨Nat.le_trans (by decide) hge,Nat.lt_of_le_of_lt hle (by decide)⟩
  · exact ⟨Nat.le_trans (by decide) hge,Nat.lt_of_le_of_lt hle (by decide)⟩
  · exact ⟨Nat.le_trans (by decide) hge,Nat.lt_of_le_of_lt hle (by decide)⟩

theorem digit_visible {c : Char} (h : c.isDigit) : Visible c := by
  rw [Char.isDigit, Bool.and_eq_true, decide_eq_true_eq, decide_eq_true_eq] at h
  exact ⟨Nat.le_trans (by decide) h.1,Nat.lt_of_le_of_lt h.2 (by decide)⟩

variable {SignPublicKey SignSecretKey Signature PublicKey SecretKey : Type}

/-- The client's headers, as texts. -/
structure Carries (request : Request) (h : AuthHeader) : Prop where
  account_id : request.headers.lookup "x-account-id" = some (utf8 h.accountId)
  timestamp : request.headers.lookup "x-timestamp" = some (utf8 (u64Text h.timestamp))
  signature : request.headers.lookup "x-signature" = some (utf8 h.signatureHex)

/-- A request to an authenticated route with the headers of a client that signed
`method`, for an account registered with its identity key, and received in time. -/
structure ClientSends (L : Sodium SignPublicKey SignSecretKey Signature PublicKey SecretKey)
    (S : Server Uuid) (identity : IdentityKeyPair SignPublicKey SignSecretKey) (now : UInt64)
    (method : String) (request : Request) (accountIdStr : String) (accountId : Uuid)
    (account : Account) (timestamp : UInt64) (body : List UInt8) : Prop where
  carries : Carries request (signRequestWithTimestamp L S.sha256 identity accountIdStr
    method request.uri.path body timestamp)
  body_sent : request.body = some body
  within_limit : body.length ≤ bodyLimit request.uri.path
  authenticated : isUnauthenticatedRoute (toUppercase request.method.name) request.uri.path = false
  in_time : Fresh now timestamp
  account_text : ∀ c ∈ accountIdStr.toList, Visible c
  account_id : S.parseUuid accountIdStr = some accountId
  found : S.getAccountById accountId = .ok (some account)
  registered : Hex.decode (trim account.identityKeyHex) =
    some (L.signPublicKeyBytes identity.publicKey)
  verifies : S.verifySignature (L.signPublicKeyBytes identity.publicKey)
    (buildSignedMessage S.sha256 method request.uri.path timestamp body)
    (L.signatureBytes (identity.sign L
      (buildSignedMessage S.sha256 method request.uri.path timestamp body))) = true

theorem header_text {name text : String} (hlookup : request.headers.lookup name = some (utf8 text))
    (htext : ∀ c ∈ text.toList, Visible c) : header request name = .ok text := by
  rw [header, hlookup]
  exact okOr_ok.mpr (toStr_utf8 htext)

variable {L : Sodium SignPublicKey SignSecretKey Signature PublicKey SecretKey}
  {identity : IdentityKeyPair SignPublicKey SignSecretKey} {accountIdStr : String}
  {accountId : Uuid} {account : Account} {timestamp : UInt64} {body : List UInt8} {method : String}

/-- With the two messages the same, the client's request is accepted. -/
theorem ClientSends.accepted
    (h : ClientSends L S identity now method request accountIdStr accountId account timestamp body)
    (hmessage : buildSignedMessage S.sha256 method request.uri.path timestamp body =
      signedMessage S.sha256 (toUppercase request.method.name) request.uri.path timestamp body) :
    authMiddleware S now request =
      .ok (request,some ⟨accountId,trim account.identityKeyHex⟩) := by
  have htime : ∀ c ∈ (u64Text timestamp).toList, Visible c := fun c hc =>
    digit_visible (u64Text_digits hc)
  have hsignature : ∀ bytes, ∀ c ∈ (Hex.encode bytes).toList, Visible c := fun bytes c hc =>
    hexdigit_visible (List.all_eq_true.mp (Hex.encode_hexdigits bytes) c hc)
  have haccepted : Credentials.Accepted {
      accountIdStr, accountId, timestampStr := u64Text timestamp, timestamp
      signatureHex := Hex.encode (L.signatureBytes (identity.sign L
        (buildSignedMessage S.sha256 method request.uri.path timestamp body)))
      signatureBytes := L.signatureBytes (identity.sign L
        (buildSignedMessage S.sha256 method request.uri.path timestamp body))
      account, identityKeyBytes := L.signPublicKeyBytes identity.publicKey
      bodyBytes := body } S now request := {
    account_id_header := header_text h.carries.account_id h.account_text
    account_id := h.account_id
    timestamp_header := header_text h.carries.timestamp htime
    timestamp_value := parseU64_u64Text timestamp
    signature_header := header_text h.carries.signature (hsignature _)
    signature_bytes := Hex.decode_encode _
    fresh := fresh_iff.mpr h.in_time
    found := h.found
    identity_key := h.registered
    body := h.body_sent
    body_within := h.within_limit
    verified := by
      rw [← hmessage]
      exact h.verifies }
  exact (authMiddleware_ok h.authenticated).mpr ⟨_,haccepted,rfl,rfl⟩

def sampleGet : Method := ⟨"GET",by decide,by decide⟩

def sampleLowerGet : Method := ⟨"get",by decide,by decide⟩

/-- The digest of the empty body, the only one there is here. -/
def sampleSha256 : Sha256 := fun _ => ⟨#[
  0xe3, 0xb0, 0xc4, 0x42, 0x98, 0xfc, 0x1c, 0x14, 0x9a, 0xfb, 0xf4, 0xc8, 0x99, 0x6f, 0xb9, 0x24,
  0x27, 0xae, 0x41, 0xe4, 0x64, 0x9b, 0x93, 0x4c, 0xa4, 0x95, 0x99, 0x1b, 0x78, 0x52, 0xb8, 0x55],
  rfl⟩

def sampleSigned : SignedRequest where
  key := List.replicate 32 2
  method := sampleGet
  path := "/api/v1/messages/inbox"
  timestamp := 1700000000
  body := []

/-- A server with one account, that has seen one signature. -/
def sampleServer : Server UInt8 where
  sha256 := sampleSha256
  parseUuid s := if s = "550e8400-e29b-41d4-a716-446655440000" then some 1 else none
  getAccountById a := if a = 1 then .ok (some ⟨Hex.encode (List.replicate 32 2)⟩) else .ok none
  verifySignature key message signature := key = List.replicate 32 2 ∧
    message = sampleSigned.message sampleSha256 ∧ signature = 2::message

def sampleHeader : AuthHeader :=
  signRequestWithTimestamp Sodium.sample sampleSha256 ⟨2,2⟩
    "550e8400-e29b-41d4-a716-446655440000" "GET" "/api/v1/messages/inbox" [] 1700000000

def sampleRequest (method : Method) (query : Option String) : Request where
  method := method
  uri := ⟨"/api/v1/messages/inbox",query⟩
  headers := [("x-account-id",utf8 sampleHeader.accountId),
    ("x-timestamp",utf8 (u64Text sampleHeader.timestamp)),
    ("x-signature",utf8 sampleHeader.signatureHex)]
  body := some []

def sampleUser : AuthenticatedUser UInt8 := ⟨1,trim (Hex.encode (List.replicate 32 2))⟩

theorem sample_registered : Hex.decode (trim (Hex.encode (List.replicate 32 2))) =
    some (List.replicate 32 2) := by
  rw [Hex.trim_encode, Hex.decode_encode]

theorem sample_account_text : ∀ c ∈ "550e8400-e29b-41d4-a716-446655440000".toList, Visible c := by
  have hall : "550e8400-e29b-41d4-a716-446655440000".toList.all (fun c => decide (Visible c)) := by
    decide
  exact fun c hc => of_decide_eq_true (List.all_eq_true.mp hall c hc)

theorem sample_verifies {message : List UInt8} (h : message = sampleSigned.message sampleSha256) :
    sampleServer.verifySignature (Sodium.sample.signPublicKeyBytes 2) message
      (Sodium.sample.signatureBytes (IdentityKeyPair.sign Sodium.sample ⟨2,2⟩ message)) = true :=
  decide_eq_true ⟨rfl,h,rfl⟩

theorem sample_sends {m : Method} {query : Option String} (hupper : toUppercase m.name = "GET") :
    ClientSends Sodium.sample sampleServer ⟨2,2⟩ 1700000100 "GET" (sampleRequest m query)
      "550e8400-e29b-41d4-a716-446655440000" 1 ⟨Hex.encode (List.replicate 32 2)⟩ 1700000000 [] where
  carries := ⟨rfl,rfl,rfl⟩
  body_sent := rfl
  within_limit := Nat.zero_le _
  authenticated := by
    show isUnauthenticatedRoute (toUppercase m.name) "/api/v1/messages/inbox" = false
    rw [hupper]
    decide
  in_time := by decide
  account_text := sample_account_text
  account_id := rfl
  found := rfl
  registered := sample_registered
  verifies := sample_verifies rfl

theorem sample_message {m : Method} (hupper : toUppercase m.name = "GET") :
    signedMessage sampleSha256 (toUppercase m.name) "/api/v1/messages/inbox" 1700000000 [] =
      sampleSigned.message sampleSha256 := by
  rw [hupper]
  rfl

/-- The signed headers also carry a query, and the method in lower case. -/
theorem sample_accepted {m : Method} {query : Option String} (hupper : toUppercase m.name = "GET") :
    authMiddleware sampleServer 1700000100 (sampleRequest m query) =
      .ok (sampleRequest m query,some sampleUser) :=
  (sample_sends hupper).accepted (sample_message hupper).symm

theorem sample_trusted (m : Method) (query : Option String) :
    Trusted sampleServer (fun _ => List.replicate 32 2) [sampleSigned] (sampleRequest m query) where
  unforgeable h := by
    obtain ⟨hkey,hmessage,-⟩ := of_decide_eq_true h
    exact .inl ⟨sampleSigned,by simp,hkey.symm,hmessage.symm⟩
  registered {a account key} hfound hkey := by
    simp only [sampleServer] at hfound
    split at hfound
    · obtain rfl := Option.some.inj (Except.ok.inj hfound)
      exact Option.some.inj (hkey.symm.trans sample_registered)
    · cases hfound
  collision_free {s body} hs hbody _ := by
    rw [List.mem_singleton.mp hs]
    exact Option.some.inj hbody

/-- An accepted request was signed by the account's key: the path without the
query, the method in upper case, the body, and a time at most 300 s away. -/
theorem accepted_request_signed {registeredKey : Uuid → List UInt8} {log : List SignedRequest}
    (hS : Trusted S registeredKey log request) {user : AuthenticatedUser Uuid}
    (h : authMiddleware S now request = .ok (r,some user)) :
    r = request ∧ ∃ s ∈ log, s.key = registeredKey user.accountId ∧
      s.method.name = toUppercase request.method.name ∧ s.path = request.uri.path ∧
      request.body = some s.body ∧ Fresh now s.timestamp := by
  by_cases hopen : isUnauthenticatedRoute (toUppercase request.method.name) request.uri.path = true
  · rw [authMiddleware_open hopen] at h
    cases h
  · rw [Bool.not_eq_true] at hopen
    obtain ⟨c,hc,rfl,huser⟩ := (authMiddleware_ok hopen).mp h
    obtain rfl := Option.some.inj huser
    obtain ⟨s,hs,hkey,hmessage⟩ := (hS.unforgeable hc.verified).resolve_right
      (not_prekey _ _ _ _ _)
    obtain ⟨hmethod,hpath,htime,hhash⟩ := buildSignedMessage_inj (colon_notMem_method _)
      (colon_notMem_toUppercase _) hmessage
    have hbody := hS.collision_free hs hc.body hhash
    refine ⟨rfl,s,hs,?_,hmethod,hpath,?_,?_⟩
    · rw [hkey, hS.registered hc.found hc.identity_key, Credentials.user]
    · rw [hc.body, hbody]
    · rw [htime]
      exact fresh_iff.mp hc.fresh

theorem accepted_request_signed_get :
    ∃ s ∈ [sampleSigned], s.key = List.replicate 32 2 ∧ s.method.name = toUppercase sampleGet.name ∧
      s.path = (sampleRequest sampleGet none).uri.path ∧
      (sampleRequest sampleGet none).body = some s.body ∧ Fresh 1700000100 s.timestamp :=
  (accepted_request_signed (sample_trusted sampleGet none) (sample_accepted (by decide))).2

/-- With one request signed, the same path is also accepted with a query that
nobody signed, and so is the method in lower case. -/
theorem accepted_request_differs :
    (∀ m query, Trusted sampleServer (fun _ => List.replicate 32 2) [sampleSigned]
      (sampleRequest m query)) ∧
    (authMiddleware sampleServer 1700000100 (sampleRequest sampleGet (some "limit=0")) =
        .ok (sampleRequest sampleGet (some "limit=0"),some sampleUser) ∧
      ¬∃ s ∈ [sampleSigned], s.path = "/api/v1/messages/inbox?limit=0") ∧
    authMiddleware sampleServer 1700000100 (sampleRequest sampleLowerGet none) =
        .ok (sampleRequest sampleLowerGet none,some sampleUser) ∧
      ¬∃ s ∈ [sampleSigned], s.method.name = sampleLowerGet.name :=
  ⟨sample_trusted,⟨sample_accepted (by decide),by decide⟩,sample_accepted (by decide),by decide⟩

/-- A signature verifies for no message but the one it was made on. -/
def SignsOneMessage (L : Sodium SignPublicKey SignSecretKey Signature PublicKey SecretKey) : Prop :=
  ∀ message message' sk, L.verifyDetached (L.signDetached message sk) message'
    (L.signPublicOf sk) = true → message = message'

/-- The signed bytes of two requests are the same only for the same method, path,
time and body digest, so the server takes no signature for another request. -/
theorem signed_request_unambiguous
    (L : Sodium SignPublicKey SignSecretKey Signature PublicKey SecretKey)
    (identity : IdentityKeyPair SignPublicKey SignSecretKey) (sha256 : Sha256)
    {method method' : String} (hm : ':' ∉ method.toList) (hm' : ':' ∉ method'.toList)
    (path path' : String) (timestamp timestamp' : UInt64) (body body' : List UInt8) :
    (buildSignedMessage sha256 method path timestamp body =
        buildSignedMessage sha256 method' path' timestamp' body' ↔
      method = method' ∧ path = path' ∧ timestamp = timestamp' ∧ sha256 body = sha256 body') ∧
    (SignsOneMessage L → identity.Matched L → IdentityKeyPair.verify L identity.publicKey
        (signedMessage sha256 method' path' timestamp' body')
        (identity.sign L (buildSignedMessage sha256 method path timestamp body)) = true →
      method = method' ∧ path = path' ∧ timestamp = timestamp' ∧ sha256 body = sha256 body') := by
  constructor
  · constructor
    · exact buildSignedMessage_inj hm hm'
    · rintro ⟨rfl,rfl,rfl,hbody⟩
      rw [buildSignedMessage, hbody, buildSignedMessage]
  · intro hL hmatched hverify
    rw [IdentityKeyPair.verify, hmatched] at hverify
    exact buildSignedMessage_inj hm hm' (hL _ _ _ hverify)

/-- A path that ends like the field after it is still told from a shorter one. -/
theorem signed_request_unambiguous_colons :
    buildSignedMessage sampleSha256 "GET" "/a:1" 2 [] ≠
      buildSignedMessage sampleSha256 "GET" "/a" 1 [] := by
  have hget : ':' ∉ "GET".toList := by decide
  have h := signed_request_unambiguous Sodium.sample ⟨2,2⟩ sampleSha256 hget hget "/a:1" "/a" 2 1
    [] []
  intro heq
  exact absurd (h.1.mp heq).2.1 (by decide)

/-- The client signs the bytes that the server puts together, and then every
such request is accepted, exactly for the methods without a lower-case letter. -/
theorem client_server_agree_iff
    (L : Sodium SignPublicKey SignSecretKey Signature PublicKey SecretKey) (S : Server Uuid)
    (identity : IdentityKeyPair SignPublicKey SignSecretKey) (method : Method) (path : String)
    (timestamp : UInt64) (body : List UInt8) :
    (buildSignedMessage S.sha256 method.name path timestamp body =
        signedMessage S.sha256 (toUppercase method.name) path timestamp body ∧
      ∀ now request accountIdStr accountId account, request.method = method →
        request.uri.path = path →
        ClientSends L S identity now method.name request accountIdStr accountId account timestamp
          body →
        authMiddleware S now request =
          .ok (request,some ⟨accountId,trim account.identityKeyHex⟩)) ↔
    toUppercase method.name = method.name := by
  constructor
  · rintro ⟨hmessage,-⟩
    exact (buildSignedMessage_inj (colon_notMem_method _) (colon_notMem_toUppercase _)
      hmessage).1.symm
  · intro hupper
    have hmessage : buildSignedMessage S.sha256 method.name path timestamp body =
        signedMessage S.sha256 (toUppercase method.name) path timestamp body := by
      rw [hupper]
      rfl
    refine ⟨hmessage,?_⟩
    rintro now request accountIdStr accountId account rfl rfl h
    exact h.accepted hmessage

theorem client_server_agree_get :
    authMiddleware sampleServer 1700000100 (sampleRequest sampleGet none) =
      .ok (sampleRequest sampleGet none,some sampleUser) :=
  ((client_server_agree_iff Sodium.sample sampleServer ⟨2,2⟩ sampleGet "/api/v1/messages/inbox"
    1700000000 []).mpr (by decide)).2 _ _ _ _ _ rfl rfl (sample_sends (by decide))

/-- A client that names its method in lower case signs other bytes. -/
theorem client_server_differ_get :
    buildSignedMessage sampleSha256 sampleLowerGet.name "/api/v1/messages/inbox" 1700000000 [] ≠
      signedMessage sampleSha256 (toUppercase sampleLowerGet.name) "/api/v1/messages/inbox"
        1700000000 [] := by
  intro h
  exact absurd (buildSignedMessage_inj (colon_notMem_method _) (colon_notMem_toUppercase _) h).1
    (by decide)

end Vaultex.AuthMiddleware
