import Vaultex.Conversation
import Vaultex.Symbolic

/-!
# Messages in a row

What a party that sends and sends leaves on the network: the numbers count on
from wherever its counter stands, and begin again after 2^32.
-/

set_option autoImplicit false

namespace Vaultex.Conversation
open DoubleRatchet Symbolic
variable {PublicKey SecretKey Key : Type} [DecidableEq PublicKey]
  {S : Suite PublicKey SecretKey Key} {tape : ℕ → PublicKey × SecretKey}
  {generated : PublicKey × SecretKey → Prop}

/-- So many messages in a row. -/
def burst (p : Party) (n : ℕ) : List Action := List.replicate n (.send p [] [] zeroNonce)

/-- The message `i` of a burst, its number taken modulo 2^32. -/
def burstPacket (S : Suite PublicKey SecretKey Key) (s : RatchetState PublicKey SecretKey Key)
    (pk : PublicKey) (ck : Key) (i : ℕ) : Packet PublicKey where
  header := ⟨pk,s.previousChainLength,s.sendMessageNumber+UInt32.ofNat i⟩
  ciphertext := zeroNonce.bytes++S.aeadSeal [] (some []) zeroNonce (messageKey S ck i)
  associatedData := []
  plaintext := []

omit [DecidableEq PublicKey] in
theorem send_next (hinit : S.init = true) (net : Net PublicKey SecretKey Key) {p : Party}
    {ck : Key} {pk : PublicKey} {sk : SecretKey} (chain : (net.state p).sendingChainKey = some ck)
    (pair : (net.state p).sendingKeypair = some (pk,sk)) :
    send S net p [] [] zeroNonce =
      { net with
        state := Function.update net.state p
          { net.state p with
            sendingChainKey := some (chainKey S ck 1)
            sendMessageNumber := (net.state p).sendMessageNumber+1 }
        sent := Function.update net.sent p
          (net.sent p++[burstPacket S (net.state p) pk ck 0]) } := by
  have hfirst : (net.state p).sendMessageNumber+UInt32.ofNat 0 = (net.state p).sendMessageNumber :=
    UInt32.add_zero _
  rw [send, encrypt_eq S chain pair hinit, burstPacket, hfirst]

variable (tape generated) in
/-- A burst counts on from wherever the counter stands. -/
theorem run_burst_from (hinit : S.init = true) (net : Net PublicKey SecretKey Key) {p : Party}
    {ck : Key} {pk : PublicKey} {sk : SecretKey}
    (chain : (net.state p).sendingChainKey = some ck)
    (pair : (net.state p).sendingKeypair = some (pk,sk)) (n : ℕ) :
    Runs.Guarded (step S tape) (honest S tape generated) net (burst p n) ∧
    Runs.run (step S tape) net (burst p n) =
      { net with
        state := Function.update net.state p
          { net.state p with
            sendingChainKey := some (chainKey S ck n)
            sendMessageNumber := (net.state p).sendMessageNumber+UInt32.ofNat n }
        sent := Function.update net.sent p
          (net.sent p++(List.range n).map (burstPacket S (net.state p) pk ck)) } := by
  induction n generalizing net ck with
  | zero =>
    refine ⟨trivial,?_⟩
    simp [burst, Runs.run, chainKey, ← chain]
  | succ n ih =>
    have hsend := send_next hinit net chain pair
    obtain ⟨hg,hrun⟩ := @ih (send S net p [] [] zeroNonce) (chainKey S ck 1)
      (by rw [hsend]; simp) (by rw [hsend]; simpa using pair)
    have hnumber (i : ℕ) : (net.state p).sendMessageNumber+1+UInt32.ofNat i =
        (net.state p).sendMessageNumber+UInt32.ofNat (i+1) := by
      rw [UInt32.add_assoc, Nat.add_comm, UInt32.ofNat_add]
      rfl
    refine ⟨⟨trivial,hg⟩,hrun.trans ?_⟩
    rw [hsend, List.range_succ_eq_map, List.map_cons, List.map_map]
    have hpackets : burstPacket S
        { net.state p with
          sendingChainKey := some (chainKey S ck 1)
          sendMessageNumber := (net.state p).sendMessageNumber+1 } pk (chainKey S ck 1) =
        burstPacket S (net.state p) pk ck ∘ Nat.succ := by
      funext i
      simp only [burstPacket, Function.comp, hnumber, messageKey_add, Nat.add_comm 1]
    simp only [Function.update_self, Function.update_idem, hnumber, chainKey_add, hpackets,
      Nat.add_comm 1, List.append_assoc, List.singleton_append]

omit [DecidableEq PublicKey] in
/-- Any message of a burst opens under the key of its place. -/
theorem burst_opens (hS : HonestLibrary S generated) (s : RatchetState PublicKey SecretKey Key)
    (pk : PublicKey) (ck : Key) (i : ℕ) :
    let packet := burstPacket S s pk ck i
    decryptWithKey S (messageKey S ck i) packet.ciphertext packet.associatedData = .ok [] :=
  (decryptWithKey_ok S).mpr ⟨zeroNonce,_,rfl,hS.open_seal _ _ _ _⟩

end Vaultex.Conversation
