import Vaultex.ConversationDelivery
import Vaultex.RatchetSecrecy

/-!
# Recovery from a copied state

An attacker copies a party's whole state and then only listens. From the next
chain the party starts, every key is out of reach again: it was computed with
the exchange of two keypairs neither of which the copy holds. A sender whose
counter wraps undoes that: it says of a chain of 2^32 messages that it is empty,
and its peer takes one of them for the start of a new chain.
-/

set_option autoImplicit false

namespace Vaultex.Conversation
open DoubleRatchet Symbolic Deduction

section Created
variable {PublicKey SecretKey Key : Type} [DecidableEq PublicKey]
  {S : Suite PublicKey SecretKey Key} {generated : PublicKey × SecretKey → Prop}
  {sharedSecret : Key} {tape : ℕ → PublicKey × SecretKey} {net : Net PublicKey SecretKey Key}
  {tr : Transcript} {p : Party} {k : ℕ} {l : Label} {packet : Packet PublicKey}

/-- The chains after a ratchet step of `p`, as the transcript numbers them. -/
def nextChains (S : Suite PublicKey SecretKey Key) (sharedSecret : Key)
    (tape : ℕ → PublicKey × SecretKey) (tr : Transcript) (p : Party) : List (Created Key) :=
  [⟨p,.receiving,chainAt S sharedSecret tape (tr.epoch p+1)⟩,
    ⟨p,.sending,chainAt S sharedSecret tape (tr.epoch p+2)⟩]

/-- A ratchet step starts the next two chains, also where its message is refused after it. -/
theorem created_by_step (hS : HonestLibrary S generated)
    (h : Tracks S generated sharedSecret tape net tr)
    (hpacket : (net.sent p.peer)[k]? = some packet)
    (hfirst : handsFirst S tape generated net p k (some packet))
    (hlog : (tr.log p.peer)[k]? = some l)
    (hdraws : drawsKeypair S (net.state p) packet.header = true) :
    l.chain = tr.epoch p+1 ∧ createdChains S (net.state p) p packet.header (tape net.drawn) =
      nextChains S sharedSecret tape tr p := by
  obtain ⟨hl,hat⟩ := packet_at h hpacket hlog
  have hc := draws_next h.valid (h.shows p) hl hat.heads h.dealt (h.below p) hdraws
    fun hmem => hfirst.2 (h.handed p k l hlog hmem)
  have hmax := h.drawn p
  have hcases := Transcript.sent_by_peer h.valid hl
  have htop : net.drawn = tr.epoch p+2 := by omega
  obtain ⟨hgen,hne⟩ := hfirst.1 hdraws
  have hd := h.dealt.succ hgen hne
  obtain ⟨d,hdh,-,hrung⟩ := exchange hS sharedSecret (hd.honest (tr.epoch p) (by omega))
    (hd.honest (tr.epoch p+1) (by omega))
  obtain ⟨d',-,hdh',hrung'⟩ := exchange hS sharedSecret (hd.honest (tr.epoch p+1) (by omega))
    (hd.honest (tr.epoch p+2) (by omega))
  have hkey := hat.heads.key
  rw [hc] at hkey
  rw [← hkey] at hdh hdh'
  refine ⟨hc,?_⟩
  rw [createdChains, if_pos hdraws, htop]
  obtain ⟨s1,hs1,heq⟩ := skipped_of_takes S (takes_of_draws S hdraws)
  obtain ⟨hroot,-,hpair,-⟩ := hs1.frame
  have hroot' := hroot.trans (h.shows p).root
  have hstep := dh_ratchet_step_done S (hpair.trans (h.shows p).pair) hdh hdh'
  rw [heq]
  simp only [hstep, sendStep, recvStep, relabel, hroot', hrung, hrung', nextChains,
    Option.toList_some, List.map_cons, List.map_nil, List.singleton_append]

/-- What is created before the first sending chain of `p`. -/
def beforeSending (p : Party) (c : Created Key) : Bool :=
  !(decide (c.party = p) && decide (c.role = .sending))

/-- The chains created after `before`, from the next sending chain of `p` on. -/
def chainsFromNextStep (p : Party) (before after : Net PublicKey SecretKey Key) :
    List (Created Key) :=
  (after.created.drop before.created.length).dropWhile (beforeSending p)

/-- The new chains from the next step of `p` on are numbered `e+2` at least. -/
structure Recovering (S : Suite PublicKey SecretKey Key) (sharedSecret : Key)
    (tape : ℕ → PublicKey × SecretKey) (p : Party) (e : ℕ) (news : List (Created Key))
    (drawn : ℕ) (tr : Transcript) : Prop where
  onward : e ≤ tr.epoch p
  stepped : news.dropWhile (beforeSending p) ≠ [] → e+2 ≤ tr.epoch p
  numbered : ∀ c ∈ news.dropWhile (beforeSending p), ∃ i, e+2 ≤ i ∧ i < drawn ∧
    c.chainKey = chainAt S sharedSecret tape i

variable {e : ℕ} {news : List (Created Key)}

omit [DecidableEq PublicKey] in
theorem Recovering.later {drawn : ℕ} {tr' : Transcript}
    (hr : Recovering S sharedSecret tape p e news drawn tr) (hle : tr.epoch p ≤ tr'.epoch p) :
    Recovering S sharedSecret tape p e news drawn tr' :=
  ⟨hr.onward.trans hle,fun hne => (hr.stepped hne).trans hle,hr.numbered⟩

/-- Either party's next chains lie as far up as the one of `p`. -/
theorem next_chains_numbered (h : Tracks S generated sharedSecret tape net tr) {q : Party}
    (hl : tr.Sent q.peer l) (hc : l.chain = tr.epoch q+1) (hfar : e+2 ≤ tr.epoch p) :
    ∀ c ∈ nextChains S sharedSecret tape tr q, ∃ i, e+2 ≤ i ∧ i < net.drawn+1 ∧
      c.chainKey = chainAt S sharedSecret tape i := by
  have hmax := h.drawn q
  have hnear := h.valid.near p
  have hcases := Transcript.sent_by_peer h.valid hl
  have hlow : e+1 ≤ tr.epoch q := by
    rcases Party.eq_or_eq_peer p q with rfl | rfl <;> omega
  intro c hmem
  simp only [nextChains, List.mem_cons, List.not_mem_nil, or_false] at hmem
  rcases hmem with rfl | rfl
  · exact ⟨tr.epoch q+1,by omega,by omega,rfl⟩
  · exact ⟨tr.epoch q+2,by omega,by omega,rfl⟩

omit [DecidableEq PublicKey] in
/-- What a step of `p` itself leaves out is its receiving chain. -/
theorem own_next_chains : (nextChains S sharedSecret tape tr p).dropWhile (beforeSending p) =
    [⟨p,.sending,chainAt S sharedSecret tape (tr.epoch p+2)⟩] := by
  simp [nextChains, beforeSending]

omit [DecidableEq PublicKey] in
theorem peer_next_chains :
    (nextChains S sharedSecret tape tr p.peer).dropWhile (beforeSending p) = [] := by
  simp [nextChains, beforeSending]

/-- One ratchet step, of either party. -/
theorem recovering_step (h : Tracks S generated sharedSecret tape net tr)
    (hr : Recovering S sharedSecret tape p e news net.drawn tr) {q : Party}
    (hl : tr.Sent q.peer l) (hc : l.chain = tr.epoch q+1) {tr' : Transcript}
    (hmoved : tr'.epoch q = tr.epoch q+2) (hepoch : tr.epoch p ≤ tr'.epoch p) :
    Recovering S sharedSecret tape p e (news++nextChains S sharedSecret tape tr q) (net.drawn+1)
      tr' := by
  obtain ⟨honward,hstepped,hnumbered⟩ := hr
  have hmax := h.drawn q
  have hcases := Transcript.sent_by_peer h.valid hl
  have hold : ∀ c ∈ news.dropWhile (beforeSending p), ∃ i, e+2 ≤ i ∧ i < net.drawn+1 ∧
      c.chainKey = chainAt S sharedSecret tape i := by
    intro c hmem
    obtain ⟨i,hlow,hhigh,hkey⟩ := hnumbered c hmem
    exact ⟨i,hlow,by omega,hkey⟩
  cases hsome : (news.dropWhile (beforeSending p)).isEmpty with
  | false =>
    have hfar := hstepped (by simpa using hsome)
    refine ⟨honward.trans hepoch,fun _ => hfar.trans hepoch,?_⟩
    rw [List.dropWhile_append, hsome, if_neg Bool.false_ne_true]
    intro c hmem
    rcases List.mem_append.mp hmem with hmem | hmem
    · exact hold c hmem
    · exact next_chains_numbered h hl hc hfar c hmem
  | true =>
    have hnews : (news++nextChains S sharedSecret tape tr q).dropWhile (beforeSending p) =
        (nextChains S sharedSecret tape tr q).dropWhile (beforeSending p) := by
      rw [List.dropWhile_append, hsome, if_pos rfl]
    -- Only a step of `p` starts the chains that count.
    rcases Party.eq_or_eq_peer p q with rfl | rfl
    · rw [own_next_chains] at hnews
      refine ⟨honward.trans hepoch,fun _ => by omega,?_⟩
      rw [hnews]
      intro c hmem
      obtain rfl := List.mem_singleton.mp hmem
      exact ⟨tr.epoch q+2,by omega,by omega,rfl⟩
    · rw [peer_next_chains] at hnews
      refine ⟨honward.trans hepoch,fun hne => absurd hnews hne,?_⟩
      rw [hnews]
      exact fun c hmem => absurd hmem List.not_mem_nil

/-- What any step of an honest run adds to the chains. -/
theorem step_recovering (hS : HonestLibrary S generated)
    (h : Tracks S generated sharedSecret tape net tr)
    (hr : Recovering S sharedSecret tape p e news net.drawn tr) {a : Action}
    (ha : honestInRange S tape generated net a) :
    ∃ tr' more, Tracks S generated sharedSecret tape (step S tape net a) tr' ∧
      (step S tape net a).created = net.created++more ∧
      Recovering S sharedSecret tape p e (news++more) (step S tape net a).drawn tr' := by
  obtain ⟨ha,hroom⟩ := ha
  cases a with
  | send q plaintext ad nonce =>
    refine ⟨tr.send q,[],tracks_send h hS hroom plaintext ad nonce,?_,?_⟩
    · rw [step, send, List.append_nil]
      split <;> rfl
    · have hdrawn : (step S tape net (.send q plaintext ad nonce)).drawn = net.drawn := by
        rw [step, send]
        split <;> rfl
      have hepoch := congrFun (Transcript.send_epoch tr q) p
      rw [hdrawn, List.append_nil]
      exact hr.later hepoch.ge
  | deliver q k =>
    obtain ⟨packet,hpacket,hfirst⟩ := sent_of_honest ha
    obtain ⟨l,hlog,hl,-⟩ := label_of_packet h hpacket
    obtain ⟨tr',harr,htracks⟩ := tracks_first hS h hpacket hlog hfirst
    have hdrawn' := htracks.drawn q
    rw [step, deliver, hpacket]
    refine ⟨tr',createdChains S (net.state q) q packet.header (tape net.drawn),htracks,rfl,?_⟩
    change (if drawsKeypair S (net.state q) packet.header then net.drawn+1 else net.drawn) = _
      at hdrawn'
    show Recovering S sharedSecret tape p e _
      (if drawsKeypair S (net.state q) packet.header then net.drawn+1 else net.drawn) tr'
    by_cases hdraws : drawsKeypair S (net.state q) packet.header = true
    · obtain ⟨hc,hcreated⟩ := created_by_step hS h hpacket hfirst hlog hdraws
      have hmax := h.drawn q
      have hmoved := harr.epoch_cases h.valid hl
      have hpeer := harr.frame.2.2.1
      rw [if_pos hdraws] at hdrawn' ⊢
      rw [hcreated]
      exact recovering_step h hr hl hc (by omega) (harr.epoch_le p)
    · rw [createdChains, if_neg hdraws, if_neg hdraws, List.append_nil]
      exact hr.later (harr.epoch_le p)

theorem run_recovering (hS : HonestLibrary S generated)
    (h : Tracks S generated sharedSecret tape net tr)
    (hr : Recovering S sharedSecret tape p e news net.drawn tr) {as : List Action}
    (hg : Runs.Guarded (step S tape) (honestInRange S tape generated) net as) :
    ∃ tr' more, Tracks S generated sharedSecret tape (Runs.run (step S tape) net as) tr' ∧
      (Runs.run (step S tape) net as).created = net.created++more ∧
      Recovering S sharedSecret tape p e (news++more) (Runs.run (step S tape) net as).drawn
        tr' := by
  induction as generalizing net tr news with
  | nil =>
    refine ⟨tr,[],h,(List.append_nil _).symm,?_⟩
    rwa [List.append_nil]
  | cons a as ih =>
    obtain ⟨tr',more,htracks,hcreated,hr'⟩ := step_recovering hS h hr hg.1
    obtain ⟨tr'',more',htracks',hcreated',hr''⟩ := ih htracks hr' hg.2
    refine ⟨tr'',more++more',htracks',?_,?_⟩
    · rw [Runs.run, hcreated', hcreated, List.append_assoc]
    · rwa [← List.append_assoc]

/-- The chains from the next step of `p` on come at least two rungs after the
one it stands on. -/
theorem chains_ahead (hS : HonestLibrary S generated)
    (h : Tracks S generated sharedSecret tape net tr) {as : List Action}
    (hg : Runs.Guarded (step S tape) (honestInRange S tape generated) net as) :
    let after := Runs.run (step S tape) net as
    Dealt generated tape after.drawn ∧ ∀ c ∈ chainsFromNextStep p net after,
      ∃ i, tr.epoch p+2 ≤ i ∧ i < after.drawn ∧ c.chainKey = chainAt S sharedSecret tape i := by
  have hstart : Recovering S sharedSecret tape p (tr.epoch p) [] net.drawn tr :=
    ⟨le_rfl,fun hne => absurd rfl hne,fun c hmem => absurd hmem List.not_mem_nil⟩
  obtain ⟨tr',more,htracks,hcreated,hr⟩ := run_recovering hS h hstart hg
  refine ⟨htracks.dealt,?_⟩
  rw [chainsFromNextStep, hcreated, List.drop_left]
  exact hr.numbered

end Created

section Secrecy
variable {fails : ℕ → ℕ → Bool} {A : Aead Term} {generated : ℕ × ℕ → Prop} {m n e : ℕ}
  {tape : ℕ → ℕ × ℕ} {tr : Transcript} {p : Party} {s : RatchetState ℕ ℕ Term}

/-- The exchange between the keypairs `i` and `i+1`. -/
def exchanged (tape : ℕ → ℕ × ℕ) (i : ℕ) : Term := shared (tape i).1 (tape (i+1)).1

section Ladder
variable (hS : HonestLibrary (suite fails A) generated)
  (hname : ∀ pair, generated pair → pair.1 = pair.2) (hd : Dealt generated tape n)
include hS hname hd

theorem rung_succ {i : ℕ} (hi : i+1 < n) :
    rootAt (suite fails A) (.secret m) tape (i+1) =
      .root (rootAt (suite fails A) (.secret m) tape i) (exchanged tape i) RATCHET_INFO ∧
    chainAt (suite fails A) (.secret m) tape (i+1) =
      .chain (rootAt (suite fails A) (.secret m) tape i) (exchanged tape i) RATCHET_INFO := by
  have hgen := hd.honest i (by omega)
  obtain ⟨d,hdh,-,hrung⟩ := exchange hS (.secret m) hgen (hd.honest (i+1) hi)
  have hd' : d = exchanged tape i := by
    rw [exchanged, hname _ hgen]
    exact scalarmult_some hdh
  obtain ⟨hroot,hchain⟩ := Prod.mk.inj hrung
  rw [← hroot, ← hchain, hd']
  exact ⟨rfl,rfl⟩

omit hS hname in
theorem exchanged_inj {i : ℕ} (hi : i+1 < n) (he : e+1 < n)
    (h : exchanged tape i = exchanged tape e) : i = e := by
  rcases shared_inj h with ⟨h1,-⟩ | ⟨h1,h2⟩
  · exact hd.distinct i e (by omega) (by omega) h1
  · have hi' := hd.distinct i (e+1) (by omega) he h1
    have he' := hd.distinct (i+1) e hi (by omega) h2
    omega

theorem root_uses_iff (he : e+1 < n) {i : ℕ} (hi : i < n) :
    Uses (exchanged tape e) (rootAt (suite fails A) (.secret m) tape i) ↔ e+1 ≤ i := by
  induction i with
  | zero => exact iff_of_false id (by omega)
  | succ i ih =>
    rw [(rung_succ hS hname hd hi).1]
    show exchanged tape i = exchanged tape e ∨ _ ↔ _
    rw [ih (by omega)]
    constructor
    · rintro (h | h)
      · have hie := exchanged_inj hd hi he h
        omega
      · omega
    · intro h
      by_cases hie : i = e
      · exact Or.inl (by rw [hie])
      · exact Or.inr (by omega)

theorem chain_uses_iff (he : e+1 < n) {i : ℕ} (hi : i < n) :
    Uses (exchanged tape e) (chainAt (suite fails A) (.secret m) tape i) ↔ e+1 ≤ i := by
  cases i with
  | zero => exact iff_of_false id (by omega)
  | succ i =>
    have hroot := root_uses_iff (m := m) hS hname hd he hi
    rw [(rung_succ hS hname hd hi).1] at hroot
    rw [(rung_succ hS hname hd hi).2]
    exact hroot

theorem isKey_rung {i : ℕ} (hi : i < n) :
    isKey (rootAt (suite fails A) (.secret m) tape i) = true ∧
      isKey (chainAt (suite fails A) (.secret m) tape i) = true := by
  cases i with
  | zero => exact ⟨rfl,rfl⟩
  | succ i =>
    obtain ⟨hroot,hchain⟩ := rung_succ (m := m) hS hname hd hi
    rw [hroot, hchain]
    exact ⟨rfl,rfl⟩

/-- The keys of a state were all computed before the exchange after next. -/
theorem slot_before (hv : tr.Valid) (hs : Shows (suite fails A) (.secret m) tape tr p s)
    (hn : tr.epoch p+2 < n) {t : Term} {i : RatchetSecrecy.Slot}
    (ht : RatchetSecrecy.slots s.rootKey s.sendingChainKey s.receivingChainKey s.skippedKeys i =
      some t) : isKey t = true ∧ ¬Uses (exchanged tape (tr.epoch p+1)) t := by
  have hchain : ∀ j, j ≤ tr.epoch p → ∀ c,
      isKey (chainKey (suite fails A) (chainAt (suite fails A) (.secret m) tape j) c) = true ∧
      ¬Uses (exchanged tape (tr.epoch p+1))
        (chainKey (suite fails A) (chainAt (suite fails A) (.secret m) tape j) c) := by
    intro j hj c
    rw [uses_chainKey, chain_uses_iff hS hname hd hn (by omega)]
    exact ⟨isKey_chainKey (isKey_rung hS hname hd (by omega)).2 c,by omega⟩
  cases i with
  | root =>
    obtain rfl := Option.some.inj ht
    rw [hs.root, root_uses_iff hS hname hd hn (by omega)]
    exact ⟨(isKey_rung hS hname hd (by omega)).1,by omega⟩
  | sending =>
    have hsome : s.sendingChainKey = some t := ht
    rw [hs.sending] at hsome
    split at hsome
    · contradiction
    · obtain rfl := Option.some.inj hsome
      exact hchain _ le_rfl _
  | receiving =>
    have hsome : s.receivingChainKey = some t := ht
    rw [hs.receiving] at hsome
    split at hsome
    · contradiction
    · obtain rfl := Option.some.inj hsome
      exact hchain _ (Nat.sub_le _ _) _
  | cached id =>
    obtain ⟨j,-,hawaited,rfl⟩ := (hs.cache id.1 id.2 t).mp ht
    have hj := Transcript.passed_chain hv hawaited.2.1
    have huses := (hchain j (by simp only at hj; omega) id.2.toNat).2
    exact ⟨rfl,huses⟩

end Ladder

/-- What the attacker has after copying the state: all of it, and any secret not
drawn in the run. Public keys are names, which anyone may exchange with. -/
def copied (tape : ℕ → ℕ × ℕ) (drawn : ℕ) (s : RatchetState ℕ ℕ Term) : Set Term :=
  RatchetSecrecy.knowledge s ∪ {t | ∃ a, (∀ i < drawn, a ≠ (tape i).2) ∧ t = .scalar a}

/-- The copy holds keys from before the exchange and no scalar of it. -/
theorem copied_cases (hS : HonestLibrary (suite fails A) generated)
    (hname : ∀ pair, generated pair → pair.1 = pair.2) (hd : Dealt generated tape n)
    (hv : tr.Valid) (hs : Shows (suite fails A) (.secret m) tape tr p s)
    (hn : tr.epoch p+2 < n) {t : Term} (ht : t ∈ copied tape n s) :
    (isKey t = true ∧ ¬Uses (exchanged tape (tr.epoch p+1)) t) ∨
      ∃ a, t = .scalar a ∧ a ≠ (tape (tr.epoch p+1)).1 ∧ a ≠ (tape (tr.epoch p+2)).1 := by
  have hname' : ∀ i, i < n → (tape i).1 = (tape i).2 := fun i hi => hname _ (hd.honest i hi)
  rcases ht with (⟨i,hi⟩ | ⟨pk,sk,hpair,rfl⟩) | ⟨a,ha,rfl⟩
  · exact Or.inl (slot_before hS hname hd hv hs hn hi)
  · have hsk := hs.secret hpair
    rw [← hname' _ (by omega)] at hsk
    refine Or.inr ⟨sk,rfl,?_,?_⟩ <;> rw [← hsk] <;> intro heq
    · have hi := hd.distinct _ _ (by omega) (by omega) heq
      omega
    · have hi := hd.distinct _ _ (by omega) (by omega) heq
      omega
  · refine Or.inr ⟨a,rfl,?_,?_⟩
    · rw [hname' _ (by omega)]
      exact ha _ (by omega)
    · rw [hname' _ hn]
      exact ha _ hn

/-- No message key of a chain from the next step of `p` on can be computed from
the copy of its state. -/
def Recovers (fails : ℕ → ℕ → Bool) (A : Aead Term) (tape : ℕ → ℕ × ℕ) (p : Party)
    (before after : Net ℕ ℕ Term) : Prop :=
  ∀ c ∈ chainsFromNextStep p before after, ∀ i, ¬Derivable Rule
    (copied tape after.drawn (before.state p)) (messageKey (suite fails A) c.chainKey i)

/-- In every honest run that wraps no counter of a sender, however its messages are
reordered, lost or refused. -/
theorem chains_recover (hS : HonestLibrary (suite fails A) generated)
    (hname : ∀ pair, generated pair → pair.1 = pair.2) (hd : Dealt generated tape 2)
    {alice : RatchetState ℕ ℕ Term}
    (halice : initSender (suite fails A) (.secret m) (tape 0).1 (tape 1) = .ok alice)
    {as as' : List Action} :
    let start := opening alice (initReceiver (.secret m) (tape 0))
    let before := Runs.run (step (suite fails A) tape) start as
    let after := Runs.run (step (suite fails A) tape) before as'
    Runs.Guarded (step (suite fails A) tape) (honestInRange (suite fails A) tape generated)
      start as →
    Runs.Guarded (step (suite fails A) tape) (honestInRange (suite fails A) tape generated)
      before as' →
    Recovers fails A tape p before after := by
  intro start before after hg hg' c hc i
  obtain ⟨tr,hbefore⟩ := run_tracks hS (opening_tracks halice hS hd) hg
  obtain ⟨hdealt,hahead⟩ := chains_ahead hS hbefore hg'
  obtain ⟨j,hlow,hhigh,hkey⟩ := hahead c hc
  have hn : tr.epoch p+2 < after.drawn := hlow.trans_lt hhigh
  have hcases := fun t (ht : t ∈ copied tape after.drawn (before.state p)) =>
    copied_cases hS hname hdealt hbefore.valid (hbefore.shows p) hn ht
  have huses := (chain_uses_iff (m := m) hS hname hdealt hn hhigh).mpr (by omega)
  rw [hkey]
  apply underivable_of_uses _ _ _ _ ((uses_messageKey _ i).mpr huses)
  · intro hmem
    rcases hcases _ hmem with ⟨hk,-⟩ | ⟨a,heq,hne,-⟩
    · contradiction
    · exact hne (Term.scalar.inj heq).symm
  · intro hmem
    rcases hcases _ hmem with ⟨hk,-⟩ | ⟨a,heq,-,hne⟩
    · contradiction
    · exact hne (Term.scalar.inj heq).symm
  · intro hmem
    rcases hcases _ hmem with ⟨hk,-⟩ | ⟨a,heq,-⟩
    · contradiction
    · contradiction
  · intro t hmem
    rcases hcases t hmem with ⟨-,hnot⟩ | ⟨a,rfl,-⟩
    · exact hnot
    · exact id

/-- Bob's state is copied after his first message; his next step makes it useless. -/
theorem chains_recover_copied :
    let before := Runs.run (step sample sampleTape)
      (opening sampleAlice (initReceiver (.secret 0) (1,1)))
      [.send .alice [7] [] zeroNonce, .deliver .bob 0]
    Recovers (fun _ b => b == 0) aead sampleTape .bob before
      (Runs.run (step sample sampleTape) before
        [.send .bob [8] [] zeroNonce, .deliver .alice 0, .send .alice [9] [] zeroNonce,
          .deliver .bob 1, .send .bob [10] [] zeroNonce, .deliver .alice 1]) :=
  chains_recover (m := 0) sample_honest (fun _ h => h.1) (sample_dealt 2) rfl (by decide)
    (by decide)

end Secrecy

section Wrapped

/-- Recovery in every honest run, however many messages a sender puts into one chain. -/
def RecoversUnbounded (fails : ℕ → ℕ → Bool) (A : Aead Term) (generated : ℕ × ℕ → Prop) : Prop :=
  ∀ (m : ℕ) (tape : ℕ → ℕ × ℕ) (alice : RatchetState ℕ ℕ Term) (p : Party) (as as' : List Action),
    Dealt generated tape 2 →
    initSender (suite fails A) (.secret m) (tape 0).1 (tape 1) = .ok alice →
    let start := opening alice (initReceiver (.secret m) (tape 0))
    let before := Runs.run (step (suite fails A) tape) start as
    Runs.Guarded (step (suite fails A) tape) (honest (suite fails A) tape generated) start as →
    Runs.Guarded (step (suite fails A) tape) (honest (suite fails A) tape generated) before as' →
    Recovers fails A tape p before (Runs.run (step (suite fails A) tape) before as')

theorem honest_sample {net : Net ℕ ℕ Term} {p : Party} {k : ℕ} {packet : Packet ℕ}
    (hpacket : (net.sent p.peer)[k]? = some packet) (hnew : k ∉ net.delivered p) :
    honest sample sampleTape namedPair net (.deliver p k) := by
  rw [honest, hpacket]
  exact ⟨drawsNew_sample _ _ _,hnew⟩

/-- The network once Alice has sent so much that her counter is back at zero. -/
def wrapped (chain : Term) (packets : List (Packet ℕ)) : Net ℕ ℕ Term :=
  let start := opening sampleAlice (initReceiver (.secret 0) (1,1))
  { start with
    state := Function.update start.state .alice { sampleAlice with sendingChainKey := some chain }
    sent := Function.update start.sent .alice packets }

/-- Bob answers her first message, and she goes on under a new key. -/
def answeredLate : List Action :=
  [.deliver .bob 0, .send .bob [] [] zeroNonce, .deliver .alice 0, .send .alice [] [] zeroNonce]

/-- Alice's second message comes after all, and then Bob's next one. -/
def overdue : List Action := [.deliver .bob 1, .deliver .alice 1]

/-- Bob once he has answered, and Alice on her second chain. -/
def bobAnswered : RatchetState ℕ ℕ Term :=
  Runs.run (call sample) (initReceiver (.secret 0) (1,1))
    [.decrypt ⟨2,0,0⟩ [] [] (3,3), .encrypt [] [] zeroNonce]

def aliceOnward : RatchetState ℕ ℕ Term :=
  Runs.run (call sample) sampleAlice [.decrypt ⟨3,0,0⟩ [] [] (4,4), .encrypt [] [] zeroNonce]

/-- Bob after his step to that chain. -/
def bobCopied : RatchetState ℕ ℕ Term :=
  call sample bobAnswered (.decrypt ⟨4,0,0⟩ [] [] (5,5))

def bobSent : RatchetState ℕ ℕ Term := call sample bobCopied (.encrypt [] [] zeroNonce)

/-- In the second chain that Alice sends on she says that the first was empty. -/
theorem answered_late (chain : Term) {first : Packet ℕ} (rest : List (Packet ℕ))
    (hfirst : first.header = ⟨2,0,0⟩) :
    let start := wrapped chain (first::rest)
    let net := Runs.run (step sample sampleTape) start answeredLate
    Runs.Guarded (step sample sampleTape) (honest sample sampleTape namedPair) start
      answeredLate ∧
    net.state .alice = aliceOnward ∧ net.state .bob = bobAnswered ∧
    net.delivered .alice = [0] ∧ net.delivered .bob = [0] ∧ net.drawn = 4 ∧
    (∃ answer, net.sent .bob = [answer]) ∧
    ∃ onward, net.sent .alice = first::rest++[onward] ∧ onward.header = ⟨4,0,0⟩ := by
  obtain ⟨header,c,ad,t⟩ := first
  obtain rfl := hfirst
  refine ⟨⟨honest_sample (by rfl) List.not_mem_nil,trivial,
    honest_sample (by with_unfolding_all rfl) (by with_unfolding_all exact List.not_mem_nil),
    trivial,trivial⟩,by with_unfolding_all rfl,by with_unfolding_all rfl,
    by with_unfolding_all rfl,by with_unfolding_all rfl,by with_unfolding_all rfl,
    ⟨_,by with_unfolding_all rfl⟩,_,by with_unfolding_all rfl,by with_unfolding_all rfl⟩

theorem copied_sends {net : Net ℕ ℕ Term} {answer : Packet ℕ} (hbob : net.state .bob = bobCopied)
    (hanswer : net.sent .bob = [answer]) :
    ∃ packet : Packet ℕ, packet.header = ⟨5,1,0⟩ ∧ send sample net .bob [] [] zeroNonce =
      { net with
        state := Function.update net.state .bob bobSent
        sent := Function.update net.sent .bob [answer,packet] } := by
  have hchain : (net.state .bob).sendingChainKey =
      some (chainAt sample (.secret 0) sampleTape 4) := by
    rw [hbob]
    with_unfolding_all rfl
  have hpair : (net.state .bob).sendingKeypair = some (5,5) := by
    rw [hbob]
    with_unfolding_all rfl
  have hsend := send_next (S := sample) rfl net hchain hpair
  refine ⟨burstPacket sample bobCopied 5 (chainAt sample (.secret 0) sampleTape 4) 0,
    by with_unfolding_all rfl,hsend.trans ?_⟩
  rw [hbob, hanswer]
  with_unfolding_all rfl

/-- Bob's next step is on the key of Alice's first chain, and hers is to the chain he was
sending on. -/
theorem overdue_chains :
    (∃ x y, createdChains sample bobSent .bob ⟨2,0,1⟩ (6,6) =
      [⟨.bob,.receiving,x⟩,⟨.bob,.sending,y⟩]) ∧
    ∃ ck z, bobCopied.sendingChainKey = some ck ∧
      createdChains sample aliceOnward .alice ⟨5,1,0⟩ (7,7) =
        [⟨.alice,.receiving,ck⟩,⟨.alice,.sending,z⟩] :=
  ⟨⟨_,_,by with_unfolding_all rfl⟩,_,_,by with_unfolding_all rfl,by with_unfolding_all rfl⟩

/-- Bob, who has missed none of an empty chain, takes the second message of it for the start
of a new one and steps. Alice then creates the chain whose key was copied. -/
theorem overdue_steps (net : Net ℕ ℕ Term) {second packet : Packet ℕ}
    (halice : net.state .alice = aliceOnward) (hbob : net.state .bob = bobSent)
    (hdrawn : net.drawn = 5) (hsecond : (net.sent .alice)[1]? = some second)
    (hheader : second.header = ⟨2,0,1⟩) (hpacket : (net.sent .bob)[1]? = some packet)
    (hheader' : packet.header = ⟨5,1,0⟩) (hgot : 1 ∉ net.delivered .alice)
    (hgot' : 1 ∉ net.delivered .bob) :
    Runs.Guarded (step sample sampleTape) (honest sample sampleTape namedPair) net overdue ∧
    ∃ ck x y z, bobCopied.sendingChainKey = some ck ∧
      (Runs.run (step sample sampleTape) net overdue).created = net.created++
        [⟨.bob,.receiving,x⟩,⟨.bob,.sending,y⟩,⟨.alice,.receiving,ck⟩,⟨.alice,.sending,z⟩] := by
  obtain ⟨⟨x,y,hown⟩,ck,z,hck,hpeer⟩ := overdue_chains
  have hdraws : drawsKeypair sample (net.state .bob) second.header = true := by
    rw [hbob, hheader]
    with_unfolding_all rfl
  have hfirst : deliver sample sampleTape net .bob 1 =
      handOver sample sampleTape net .bob 1 second := deliver_packet hsecond
  set next := handOver sample sampleTape net .bob 1 second with hnext
  have hpacket' : (next.sent .bob)[1]? = some packet := hpacket
  have hstate : next.state .alice = aliceOnward :=
    (handOver_state_peer (p := .bob) 1 second).trans halice
  have hcreated : next.created = net.created++[⟨.bob,.receiving,x⟩,⟨.bob,.sending,y⟩] := by
    rw [hnext, handOver_created, hbob, hheader, hdrawn, show sampleTape 5 = (6,6) from rfl, hown]
  have hdrawn' : next.drawn = 6 := by
    rw [hnext, handOver_drawn, if_pos hdraws, hdrawn]
  refine ⟨⟨honest_sample hsecond hgot',?_,trivial⟩,ck,x,y,z,hck,?_⟩
  · show honest sample sampleTape namedPair (deliver sample sampleTape net .bob 1) _
    rw [hfirst]
    apply honest_sample hpacket'
    rw [hnext, handOver_delivered]
    rintro (h | ⟨h,-⟩)
    · exact hgot h
    · contradiction
  · show (deliver sample sampleTape (deliver sample sampleTape net .bob 1) .alice 1).created = _
    rw [hfirst, deliver_packet hpacket', handOver_created, hstate, hheader', hdrawn', show sampleTape 6 = (7,7) from rfl, hpeer,
      hcreated, List.append_assoc]
    rfl

/-- Bob's state is copied on the last of his chains, with Alice's second message still to come. -/
structure CopiedLate (net : Net ℕ ℕ Term) : Prop where
  alice : net.state .alice = aliceOnward
  bob : net.state .bob = bobCopied
  drawn : net.drawn = 5
  second : ∃ second, (net.sent .alice)[1]? = some second ∧ second.header = ⟨2,0,1⟩
  answer : ∃ answer, net.sent .bob = [answer]
  new (p : Party) : 1 ∉ net.delivered p

/-- The run up to the copy: `n` messages, two answers, and the first of Alice's second chain. -/
def lateRun (n : ℕ) : List Action := burst .alice n++(answeredLate++[.deliver .bob n])

theorem run_wraps {n : ℕ} (hn : UInt32.ofNat (n+2) = 0) :
    let start := opening sampleAlice (initReceiver (.secret 0) (1,1))
    Runs.Guarded (step sample sampleTape) (honest sample sampleTape namedPair) start
      (burst .alice (n+2)) ∧
    ∃ chain rest, rest.length = n ∧ Runs.run (step sample sampleTape) start (burst .alice (n+2)) =
      wrapped chain (sampleBurst 0::sampleBurst 1::rest) := by
  intro start
  obtain ⟨hg,hrun⟩ := run_burst_from (S := sample) sampleTape namedPair rfl start
    (p := .alice) rfl rfl (n+2)
  refine ⟨hg,chainKey sample (chainAt sample (.secret 0) sampleTape 1) (n+2),
    (List.range n).map (sampleBurst ∘ Nat.succ ∘ Nat.succ),by simp,hrun.trans ?_⟩
  rw [hn, List.range_succ_eq_map, List.range_succ_eq_map]
  simp only [List.map_cons, List.map_map]
  rfl

theorem run_late {n : ℕ} (hn : UInt32.ofNat (n+2) = 0) :
    let start := opening sampleAlice (initReceiver (.secret 0) (1,1))
    Runs.Guarded (step sample sampleTape) (honest sample sampleTape namedPair) start
      (lateRun (n+2)) ∧ CopiedLate (Runs.run (step sample sampleTape) start (lateRun (n+2))) := by
  intro start
  obtain ⟨hburst,chain,rest,hlength,hrun⟩ := run_wraps hn
  obtain ⟨hanswered,halice,hbob,hgot,hgot',hdrawn,⟨answer,hanswer⟩,onward,hsent,honward⟩ :=
    answered_late chain (sampleBurst 1::rest) (rfl : (sampleBurst 0).header = ⟨2,0,0⟩)
  set late := Runs.run (step sample sampleTape)
    (wrapped chain (sampleBurst 0::sampleBurst 1::rest)) answeredLate with hlate
  have hpacket : (late.sent .alice)[n+2]? = some onward := by
    rw [hsent, show n+2 = (sampleBurst 0::sampleBurst 1::rest).length by simp [hlength],
      List.getElem?_concat_length]
  have hdeliver : step sample sampleTape late (.deliver .bob (n+2)) =
      handOver sample sampleTape late .bob (n+2) onward := deliver_packet hpacket
  rw [lateRun, Runs.guarded_append, Runs.run_append, hrun, Runs.guarded_append, Runs.run_append,
    ← hlate, Runs.run, hdeliver]
  refine ⟨⟨hburst,hanswered,honest_sample hpacket ?_,trivial⟩,?_,?_,?_,?_,?_,?_⟩
  · rw [hgot', List.mem_singleton]
    omega
  · exact (handOver_state_peer (p := .bob) (n+2) onward).trans halice
  · rw [Runs.run, handOver_state, decrypt_state, hbob, honward, hdrawn]
    with_unfolding_all rfl
  · rw [Runs.run, handOver_drawn, hbob, honward, hdrawn]
    with_unfolding_all rfl
  · refine ⟨sampleBurst 1,?_,rfl⟩
    show (late.sent .alice)[1]? = _
    rw [hsent]
    rfl
  · exact ⟨answer,hanswer⟩
  · intro p
    rw [Runs.run, handOver_delivered]
    cases p <;> simp [hgot, hgot']

/-- Bob sends one more, and the overdue message comes. -/
def afterCopy : List Action := .send .bob [] [] zeroNonce::overdue

theorem copied_exposes {net : Net ℕ ℕ Term} (h : CopiedLate net) :
    Runs.Guarded (step sample sampleTape) (honest sample sampleTape namedPair) net afterCopy ∧
      ¬Recovers (fun _ b => b == 0) aead sampleTape .bob net
        (Runs.run (step sample sampleTape) net afterCopy) := by
  obtain ⟨answer,hanswer⟩ := h.answer
  obtain ⟨second,hsecond,hheader⟩ := h.second
  obtain ⟨packet,hheader',hsend⟩ := copied_sends h.bob hanswer
  obtain ⟨hg,ck,x,y,z,hck,hcreated⟩ := overdue_steps
    { net with
      state := Function.update net.state .bob bobSent
      sent := Function.update net.sent .bob [answer,packet] }
    h.alice rfl h.drawn hsecond hheader rfl hheader' (h.new .alice) (h.new .bob)
  rw [← hsend] at hg
  refine ⟨⟨trivial,hg⟩,fun hrecovers => ?_⟩
  have hafter : (Runs.run (step sample sampleTape) net afterCopy).created = net.created++
      [⟨.bob,.receiving,x⟩,⟨.bob,.sending,y⟩,⟨.alice,.receiving,ck⟩,⟨.alice,.sending,z⟩] := by
    rw [afterCopy, Runs.run, step, hsend]
    exact hcreated
  have hmem : ⟨.alice,.receiving,ck⟩ ∈ chainsFromNextStep .bob net
      (Runs.run (step sample sampleTape) net afterCopy) := by
    rw [chainsFromNextStep, hafter, List.drop_left]
    simp [beforeSending]
  -- The copy holds the key the chain begins with.
  have hknown : ck ∈ copied sampleTape (Runs.run (step sample sampleTape) net afterCopy).drawn
      (net.state .bob) := by
    rw [h.bob]
    exact Or.inl (Or.inl ⟨.sending,hck⟩)
  apply hrecovers _ hmem 0
  apply Derivable.rule (.mac ck MSG_KEY_SEED)
  intro premise hpremise
  obtain rfl := List.mem_singleton.mp hpremise
  exact .known hknown

theorem late_not_recovering {n : ℕ} (hn : UInt32.ofNat (n+2) = 0) :
    ¬RecoversUnbounded (fun _ b => b == 0) aead namedPair := by
  intro h
  obtain ⟨hlate,hcopied⟩ := run_late hn
  obtain ⟨hafter,hnot⟩ := copied_exposes hcopied
  exact hnot (h 0 sampleTape sampleAlice .bob _ _ (sample_dealt 2) rfl hlate hafter)

/-- A sender whose counter wraps gives away a chain that its peer starts later. -/
theorem wrapped_not_recovering : HonestLibrary sample namedPair ∧
    (∀ pair, namedPair pair → pair.1 = pair.2) ∧
    ¬RecoversUnbounded (fun _ b => b == 0) aead namedPair :=
  ⟨sample_honest,fun _ h => h.1,late_not_recovering (n := 4294967294) rfl⟩

end Wrapped
end Vaultex.Conversation
