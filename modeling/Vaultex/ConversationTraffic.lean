import Vaultex.ConversationDelivery
import Vaultex.Padding

/-!
# What the network learns from a conversation

Beside the bytes of the ciphertexts the network sees headers and lengths. The
headers are a matter of the schedule alone, and a length is that of the
plaintext up to a constant: of padded messages it tells the buckets, and two
conversations on one schedule with the same buckets cannot be told apart by it.
-/

set_option autoImplicit false

namespace Vaultex.Conversation
open DoubleRatchet Padding
variable {PublicKey SecretKey Key : Type}

def ABYTES : ℕ := 16

/-- XChaCha20-Poly1305 adds a tag to the length and nothing else. -/
def AddsTag (A : Aead Key) : Prop :=
  ∀ plaintext ad nonce key, (A.aeadSeal plaintext ad nonce key).length = plaintext.length+ABYTES

/-- Headers and lengths, oldest first. -/
def traffic (net : Net PublicKey SecretKey Key) (p : Party) : List (MessageHeader PublicKey × ℕ) :=
  (net.sent p).map fun packet => (packet.header,packet.ciphertext.length)

/-- The buckets of the messages inside the padding, oldest first. -/
def bucketsOf (net : Net PublicKey SecretKey Key) (p : Party) : List (Result ℕ) :=
  (net.sent p).map fun packet => (unpadMessage packet.plaintext).map fun m => bucketSize m.length

def IsPadded (plaintext : List UInt8) : Prop := ∃ fill m, padMessage fill m = .ok plaintext

/-- Two steps of one schedule, each with a padded message if it is a send. -/
inductive Alike : Action → Action → Prop
  | send (p : Party) {plaintext plaintext' : List UInt8} (ad ad' : List UInt8)
      (nonce nonce' : Nonce) (h : IsPadded plaintext) (h' : IsPadded plaintext') :
      Alike (.send p plaintext ad nonce) (.send p plaintext' ad' nonce')
  | deliver (p : Party) (number : ℕ) : Alike (.deliver p number) (.deliver p number)

def headers (net : Net PublicKey SecretKey Key) (p : Party) : List (MessageHeader PublicKey) :=
  (net.sent p).map (·.header)

/-- Two networks that differ in what the messages say at most. -/
structure Similar (net net' : Net PublicKey SecretKey Key) : Prop where
  state : net.state = net'.state
  headers : headers net = headers net'
  drawn : net.drawn = net'.drawn

/-- What is on the network is a padded message with nonce and tag. -/
def Sealed (net : Net PublicKey SecretKey Key) : Prop :=
  ∀ p, ∀ packet ∈ net.sent p, IsPadded packet.plaintext ∧
    packet.ciphertext.length = packet.plaintext.length+(NONCEBYTES+ABYTES)

section Send
variable {S : Suite PublicKey SecretKey Key}

variable (S) in
/-- The plaintext has no part in an encryption's state and header. -/
theorem encrypt_alike (s : RatchetState PublicKey SecretKey Key)
    (plaintext plaintext' ad ad' : List UInt8) (nonce nonce' : Nonce) :
    (encrypt S s plaintext ad nonce).1 = (encrypt S s plaintext' ad' nonce').1 ∧
    (encrypt S s plaintext ad nonce).2.map Prod.fst =
      (encrypt S s plaintext' ad' nonce').2.map Prod.fst := by
  cases chain : s.sendingChainKey with
  | none => simp only [encrypt_no_chain S chain, true_and, Except.map]
  | some ck =>
    cases pair : s.sendingKeypair with
    | none => simp only [encrypt, chain, pair, true_and, Except.map]
    | some kp =>
      cases hinit : S.init with
      | false => simp [encrypt, chain, pair, AesGcm.encrypt, hinit, Except.map]
      | true =>
        obtain ⟨pk,sk⟩ := kp
        rw [encrypt_eq S chain pair hinit, encrypt_eq S chain pair hinit]
        exact ⟨rfl,rfl⟩

theorem encrypt_length (hA : AddsTag S.toAead) {s : RatchetState PublicKey SecretKey Key}
    {plaintext ad ciphertext : List UInt8} {nonce : Nonce} {header : MessageHeader PublicKey}
    (h : (encrypt S s plaintext ad nonce).2 = .ok (header,ciphertext)) :
    ciphertext.length = plaintext.length+(NONCEBYTES+ABYTES) := by
  obtain ⟨ck,sk,-,-,-,rfl⟩ := encrypt_ok S h
  rw [List.length_append, nonce.length_eq, hA]
  omega

theorem send_similar {net net' : Net PublicKey SecretKey Key} (hs : Similar net net') (p : Party)
    (plaintext plaintext' ad ad' : List UInt8) (nonce nonce' : Nonce) :
    Similar (send S net p plaintext ad nonce) (send S net' p plaintext' ad' nonce') := by
  obtain ⟨hstate,hheader⟩ := encrypt_alike S (net.state p) plaintext plaintext' ad ad' nonce nonce'
  have hupdate : Function.update net.state p (encrypt S (net.state p) plaintext ad nonce).1 =
      Function.update net'.state p (encrypt S (net'.state p) plaintext' ad' nonce').1 := by
    rw [hstate, hs.state]
  rw [hs.state] at hheader
  obtain ⟨e,he,hsend⟩ | ⟨header,ciphertext,hok,hsend⟩ := send_cases S net p plaintext ad nonce <;>
    obtain ⟨e',he',hsend'⟩ | ⟨header',ciphertext',hok',hsend'⟩ :=
      send_cases S net' p plaintext' ad' nonce' <;> rw [hsend, hsend']
  · exact ⟨hupdate,hs.headers,hs.drawn⟩
  · rw [hs.state] at he
    rw [he, hok'] at hheader
    cases hheader
  · rw [hs.state] at hok
    rw [hok, he'] at hheader
    cases hheader
  · refine ⟨hupdate,?_,hs.drawn⟩
    rw [hs.state] at hok
    rw [hok, hok'] at hheader
    obtain rfl : header = header' := Except.ok.inj hheader
    funext q
    have hq := congrFun hs.headers q
    simp only [headers] at hq ⊢
    by_cases hqp : q = p
    · subst hqp
      simp only [Function.update_self, List.map_append, List.map_cons, List.map_nil, hq]
    · simpa only [Function.update_of_ne hqp] using hq

theorem send_sealed (hA : AddsTag S.toAead) {net : Net PublicKey SecretKey Key} (h : Sealed net)
    (p : Party) {plaintext : List UInt8} (hpad : IsPadded plaintext) (ad : List UInt8)
    (nonce : Nonce) : Sealed (send S net p plaintext ad nonce) := by
  obtain ⟨e,he,hsend⟩ | ⟨header,ciphertext,hok,hsend⟩ := send_cases S net p plaintext ad nonce
  · rw [hsend]
    exact h
  · rw [hsend]
    intro q packet hmem
    by_cases hqp : q = p
    · subst hqp
      simp only [Function.update_self, List.mem_append, List.mem_singleton] at hmem
      rcases hmem with hmem | rfl
      · exact h q packet hmem
      · exact ⟨hpad,encrypt_length hA hok⟩
    · simp only [Function.update_of_ne hqp] at hmem
      exact h q packet hmem

end Send

section Runs
variable [DecidableEq PublicKey] {S : Suite PublicKey SecretKey Key}
variable {tape : ℕ → PublicKey × SecretKey} {net net' : Net PublicKey SecretKey Key}

/-- A delivery reads of a packet its header, and the rest only for the outcome. -/
theorem deliver_similar (hs : Similar net net') (p : Party) (number : ℕ) :
    Similar (deliver S tape net p number) (deliver S tape net' p number) := by
  have hheader : ((net.sent p.peer)[number]?).map (·.header) =
      ((net'.sent p.peer)[number]?).map (·.header) := by
    rw [← List.getElem?_map, ← List.getElem?_map]
    exact congrArg (·[number]?) (congrFun hs.headers p.peer)
  simp only [deliver]
  cases hk : (net.sent p.peer)[number]? with
  | none =>
    rw [hk, Option.map_none] at hheader
    rw [Option.map_eq_none_iff.mp hheader.symm]
    exact hs
  | some packet =>
    rw [hk, Option.map_some] at hheader
    obtain ⟨packet',hk',heq⟩ := Option.map_eq_some_iff.mp hheader.symm
    rw [hk']
    constructor
    · simp only [handOver, decrypt_state, hs.state, hs.drawn, heq]
    · exact hs.headers
    · simp only [handOver, hs.state, hs.drawn, heq]

/-- Two networks that a schedule's steps may leave. -/
structure Matched (net net' : Net PublicKey SecretKey Key) : Prop where
  similar : Similar net net'
  left : Sealed net
  right : Sealed net'

theorem step_matched (hA : AddsTag S.toAead) (h : Matched net net') {a a' : Action}
    (ha : Alike a a') : Matched (step S tape net a) (step S tape net' a') := by
  cases ha with
  | send p ad ad' nonce nonce' hpad hpad' =>
    exact ⟨send_similar h.similar p _ _ ad ad' nonce nonce',send_sealed hA h.left p hpad ad nonce,
      send_sealed hA h.right p hpad' ad' nonce'⟩
  | deliver p number =>
    refine ⟨deliver_similar h.similar p number,?_,?_⟩
    · intro q packet hmem
      exact h.left q packet (deliver_sent S tape net p number ▸ hmem)
    · intro q packet hmem
      exact h.right q packet (deliver_sent S tape net' p number ▸ hmem)

theorem run_matched (hA : AddsTag S.toAead) (h : Matched net net') {as as' : List Action}
    (has : List.Forall₂ Alike as as') :
    Matched (Runs.run (step S tape) net as) (Runs.run (step S tape) net' as') := by
  have hstep (s t : Net PublicKey SecretKey Key) (a b : Action) (hst : Matched s t)
      (hab : Alike a b) : Matched (step S tape s a) (step S tape t b) := step_matched hA hst hab
  exact Runs.run_related (step S tape) hstep h has

omit [DecidableEq PublicKey] in
theorem Sealed.bucket (h : Sealed net) {p : Party} {packet : Packet PublicKey}
    (hmem : packet ∈ net.sent p) :
    (unpadMessage packet.plaintext).map (fun m => bucketSize m.length) =
      .ok packet.plaintext.length := by
  obtain ⟨⟨fill,m,hpad⟩,-⟩ := h p packet hmem
  rw [unpadMessage_padMessage hpad, padMessage_length hpad]
  rfl

omit [DecidableEq PublicKey] in
/-- The lengths tell the buckets. -/
theorem Sealed.bucketsOf_eq (h : Sealed net) (p : Party) :
    bucketsOf net p = (traffic net p).map fun t => .ok (t.2-(NONCEBYTES+ABYTES)) := by
  rw [bucketsOf, traffic, List.map_map]
  apply List.map_congr_left
  intro packet hmem
  rw [h.bucket hmem, Function.comp_apply, (h p packet hmem).2, Nat.add_sub_cancel]

omit [DecidableEq PublicKey] in
/-- The headers and the buckets tell the traffic. -/
theorem Sealed.traffic_eq (h : Sealed net) (p : Party) :
    traffic net p = List.zipWith
      (fun header r => (header,r.toOption.getD 0+(NONCEBYTES+ABYTES)))
      (headers net p) (bucketsOf net p) := by
  rw [traffic, headers, bucketsOf, List.zipWith_map, List.zipWith_self]
  apply List.map_congr_left
  intro packet hmem
  rw [h.bucket hmem, (h p packet hmem).2]
  rfl

/-- Two runs of one schedule, with any padded messages, leave the parties in the
same states, and the traffic is the same exactly if the buckets are. -/
theorem traffic_tells_buckets (hA : AddsTag S.toAead)
    (alice bob : RatchetState PublicKey SecretKey Key) {as as' : List Action}
    (has : List.Forall₂ Alike as as') :
    let net := Runs.run (step S tape) (opening alice bob) as
    let net' := Runs.run (step S tape) (opening alice bob) as'
    net.state = net'.state ∧
    ∀ p, traffic net p = traffic net' p ↔ bucketsOf net p = bucketsOf net' p := by
  have hopening : Sealed (opening alice bob) := by
    intro p packet hmem
    cases hmem
  have h : Matched (Runs.run (step S tape) (opening alice bob) as)
      (Runs.run (step S tape) (opening alice bob) as') :=
    run_matched hA ⟨⟨rfl,rfl,rfl⟩,hopening,hopening⟩ has
  refine ⟨h.similar.state,fun p => ⟨fun heq => ?_,fun heq => ?_⟩⟩
  · rw [h.left.bucketsOf_eq, h.right.bucketsOf_eq, heq]
  · rw [h.left.traffic_eq, h.right.traffic_eq, heq, h.similar.headers]

end Runs

section Sample
open Symbolic

/-- Sixteen zeros for a tag. -/
def tagged : Aead Term where
  init := true
  aeadSeal p _ _ _ := p++List.replicate ABYTES 0
  aeadOpen c _ _ _ := some (c.take (c.length-ABYTES))

theorem tagged_addsTag : AddsTag tagged := by
  intro plaintext ad nonce key
  simp [tagged]

def paddedSample (m : List UInt8) : List UInt8 :=
  m++(List.replicate (bucketSize m.length-m.length-PAD_LEN_BYTES) 0)
    ++u32ToLeBytes (UInt32.ofNat (bucketSize m.length-m.length))

theorem paddedSample_isPadded (m : List UInt8) : IsPadded (paddedSample m) := by
  refine ⟨fun n => Vector.replicate n 0,m,?_⟩
  rw [padMessage_eq, Vector.toList_replicate]
  rfl

/-- Alice says one thing or another, and Bob receives it. -/
theorem traffic_tells_buckets_sample :
    let net (m : List UInt8) := Runs.run (step (suite (fun _ b => b == 0) tagged) sampleTape)
      (opening sampleAlice (initReceiver (.secret 0) (1,1)))
      [.send .alice (paddedSample m) [] zeroNonce, .deliver .bob 0]
    (net [104, 105]).state = (net []).state ∧
    ∀ p, traffic (net [104, 105]) p = traffic (net []) p ↔
      bucketsOf (net [104, 105]) p = bucketsOf (net []) p :=
  traffic_tells_buckets tagged_addsTag _ _
    (.cons (.send .alice [] [] zeroNonce zeroNonce (paddedSample_isPadded _)
      (paddedSample_isPadded _)) (.cons (.deliver .bob 0) .nil))

end Sample

end Vaultex.Conversation
