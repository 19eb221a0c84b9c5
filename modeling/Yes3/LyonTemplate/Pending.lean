import Yes3.LyonPrompt.Exec
import Yes3.LyonTemplate.Exec

/-!
# Yes3.LyonTemplate.Pending — worlds in which a mint is pending

A world in which outside code runs may have a mint pending, half of which is
still to come.

* `Good` is what holds in every observed world: at most one mint is pending, its
  token exists, and its record has no owner yet.
* `Good.completed_step` is the simulation: what a call does there is a step of
  the world in which the pending mint is finished.
* `Observed.invariant` is the rule for the invariants of the contract: what every
  step keeps holds in every observed world, once the pending mint is finished.
  In a world between two calls nothing is pending.
-/

namespace Yes3.LyonTemplate

open CallTree
open LyonPrompt (Receiver Received alice bob)
open ERC721 (Result)

/-- The mints on the stack of the pending calls. -/
def pendingMints (st : List (Call × Receiver)) : List (Call × Receiver) :=
  st.filter fun ik => ik.1.mints

/-- What holds where outside code runs, with `st` the stack of the pending calls. -/
structure Good (st : List (Call × Receiver)) (w : World) : Prop where
  /-- Mints do not nest. -/
  once : (pendingMints st).length ≤ 1
  senders : ∀ ik ∈ pendingMints st, ik.1.msg.sender ≠ zeroAddress
  /-- Only tokens that exist have a record. -/
  owned : ∀ id, (w.ownershipRecord id).ownerAddress ≠ zeroAddress → w.owners id ≠ zeroAddress
  /-- The token of a pending mint exists, and its record is still to be written. -/
  pending : pendingMints st ≠ [] → w.owners w.templateId ≠ zeroAddress ∧
    (w.ownershipRecord w.templateId).ownerAddress = zeroAddress

section Good

variable {st : List (Call × Receiver)} {c : Call} {recv : Receiver} {w w' : World}

theorem good_init : Good [] World.init where
  once := Nat.zero_le 1
  senders := fun _ h => absurd h List.not_mem_nil
  owned := fun _ h => absurd rfl h
  pending := fun h => absurd rfl h

theorem pendingMints_cons_of_mints (hc : c.mints = true) :
    pendingMints ((c, recv) :: st) = (c, recv) :: pendingMints st := by
  simp [pendingMints, hc]

theorem pendingMints_cons_of_not_mints (hc : c.mints = false) :
    pendingMints ((c, recv) :: st) = pendingMints st := by
  simp [pendingMints, hc]

/-- A call that is not a mint keeps `Good`, whether it is pending or over. -/
theorem Good.of_quiet {st' : List (Call × Receiver)} (hgood : Good st w)
    (hstep : Step w c w') (hc : c.mints = false) (hst : pendingMints st' = pendingMints st) :
    Good st' w' where
  once := hst ▸ hgood.once
  senders := hst ▸ hgood.senders
  owned := by
    intro id hid
    rw [hstep.recordOwner_eq hc] at hid
    rw [Ne, hstep.owners_zero_iff hc]
    exact hgood.owned id hid
  pending := by
    intro h
    rw [hstep.templateId_eq hc, hstep.recordOwner_eq hc, Ne, hstep.owners_zero_iff hc]
    exact hgood.pending (hst ▸ h)

/-- No mint gets through while one is pending: its token exists already. -/
theorem Good.no_pending (hgood : Good st w) (hfree : w.owners w.templateId = zeroAddress) :
    pendingMints st = [] := by
  by_contra hpending
  exact (hgood.pending hpending).1 hfree

/-- The first half of a mint keeps `Good`, with the mint pending. -/
theorem Good.halfMinted (hgood : Good st w) (hc : c.mints = true)
    (hzero : c.msg.sender ≠ zeroAddress) (hfree : w.owners w.templateId = zeroAddress)
    (rs : List Received) : Good ((c, recv) :: st) (w.halfMinted c rs) := by
  have hnone := hgood.no_pending hfree
  -- a record with an owner would be that of a token which exists
  have howner : (w.ownershipRecord w.templateId).ownerAddress = zeroAddress := by
    by_contra hne
    exact hgood.owned _ hne hfree
  constructor
  case once => simp [pendingMints_cons_of_mints hc, hnone]
  case senders =>
    intro ik hik
    rw [pendingMints_cons_of_mints hc, hnone, List.mem_singleton] at hik
    rw [hik]
    exact hzero
  case owned =>
    intro id hid
    by_cases hidt : id = w.templateId
    · simp [World.halfMinted, hidt, hzero]
    · simpa [World.halfMinted, hidt] using hgood.owned id hid
  case pending =>
    intro _
    simpa [World.halfMinted, hzero] using howner

/-- The second half of a mint keeps `Good`, and the mint is over. -/
theorem Good.finished (hgood : Good ((c, recv) :: st) w) : Good st (tail c recv w) := by
  rcases c with ⟨msg, op⟩
  cases op with
  | mintTemplate question context uri =>
      have hmints : Call.mints ⟨msg, .mintTemplate question context uri⟩ = true := rfl
      have hpending := hgood.pending (by simp [pendingMints_cons_of_mints hmints])
      have hnone : pendingMints st = [] := by
        have honce := hgood.once
        rw [pendingMints_cons_of_mints hmints, List.length_cons] at honce
        exact List.length_eq_zero_iff.mp (by omega)
      constructor
      case once => simp [hnone]
      case senders => simp [hnone]
      case owned =>
        intro id hid
        by_cases hidt : id = w.templateId
        · exact hidt ▸ hpending.1
        · exact hgood.owned id (by simpa [tail, World.logged, hidt] using hid)
      case pending =>
        intro h
        exact absurd hnone h
  | _ => exact ⟨hgood.once, hgood.senders, hgood.owned, hgood.pending⟩

/-- A call without callback keeps `Good`. -/
theorem Good.done (hgood : Good st w) (h : beforeCallback c recv w = .ok (.done w')) :
    Good st w' := by
  by_cases hc : c.mints = true
  · rcases of_beforeCallback_mints hc h with ⟨hzero, hfree, rs, hout | hdone⟩
    · cases hout
    · obtain rfl := Stage.done.inj hdone
      exact (hgood.halfMinted hc hzero hfree rs).finished
  · rw [Bool.not_eq_true] at hc
    exact hgood.of_quiet (beforeCallback_step h) hc rfl

/-- A call that calls out keeps `Good`, and is pending from then on. -/
theorem Good.enter (hgood : Good st w) (h : beforeCallback c recv w = .ok (.out w')) :
    Good ((c, recv) :: st) w' := by
  by_cases hc : c.mints = true
  · rcases of_beforeCallback_mints hc h with ⟨hzero, hfree, rs, hout | hdone⟩
    · obtain rfl := Stage.out.inj hout
      exact hgood.halfMinted hc hzero hfree rs
    · cases hdone
  · rw [Bool.not_eq_true] at hc
    have hstep := beforeCallback_step h
    have htail : tail c recv w' = w' := tail_of_not_mints hc w'
    rw [completed, htail] at hstep
    exact hgood.of_quiet hstep hc (pendingMints_cons_of_not_mints hc)

end Good

/-! ## Calls made while a mint is pending -/

section Pending

variable {st : List (Call × Receiver)} {c : Call} {recv : Receiver} {w : World} {p : Stage World}

/-- Without a mint on the stack there is nothing to finish. -/
theorem unwind_of_no_pending (h : pendingMints st = []) (w : World) : unwind tail st w = w := by
  induction st generalizing w with
  | nil => rfl
  | cons ik st ih =>
      rcases ik with ⟨⟨msg, op⟩, recv⟩
      cases op with
      | mintTemplate question context uri => simp [pendingMints, Call.mints] at h
      | _ => exact ih h w

/-- With one mint on the stack, what is to be finished is this mint. -/
theorem Good.unwind_of_pending {v : World} (hgood : Good st v) (h : pendingMints st ≠ []) :
    ∃ (msg : Msg) (question context uri : String), msg.sender ≠ zeroAddress ∧
      ∀ w, unwind tail st w = w.logged msg question context uri := by
  have honce := hgood.once
  have hsenders := hgood.senders
  clear hgood
  induction st with
  | nil => exact absurd rfl h
  | cons ik st ih =>
      rcases ik with ⟨⟨msg, op⟩, recv⟩
      cases op with
      | mintTemplate question context uri =>
          have hmints : Call.mints ⟨msg, .mintTemplate question context uri⟩ = true := rfl
          rw [pendingMints_cons_of_mints hmints] at honce hsenders
          have hnone : pendingMints st = [] := by
            rw [List.length_cons] at honce
            exact List.length_eq_zero_iff.mp (by omega)
          refine ⟨msg, question, context, uri, hsenders _ List.mem_cons_self, ?_⟩
          intro w
          exact unwind_of_no_pending hnone _
      | _ => exact ih h honce hsenders

/-- No mint gets through where the next token exists already. -/
theorem not_mints_of_pending (hexists : w.owners w.templateId ≠ zeroAddress)
    (h : beforeCallback c recv w = .ok p) : c.mints = false := by
  by_contra hc
  rw [Bool.not_eq_false] at hc
  exact hexists (of_beforeCallback_mints hc h).2.1

/-- The token contract does not see whether a mint is pending. -/
theorem onToken_logged {f : ERC721.State → Result ERC721.State} {w' : World} (msg : Msg)
    (question context uri : String) (h : onToken f (w.record c) = .ok w') :
    onToken f ((w.logged msg question context uri).record c) =
      .ok (w'.logged msg question context uri) := by
  rcases onToken_ok_iff.mp h with ⟨s, hs, rfl⟩
  exact onToken_ok_iff.mpr ⟨s, hs, rfl⟩

/-- The second half of a pending mint commutes with what a call does, unless the
call sets the URI of the pending token, which only the zero address can. -/
theorem beforeCallback_logged (hexists : w.owners w.templateId ≠ zeroAddress)
    (hrecord : (w.ownershipRecord w.templateId).ownerAddress = zeroAddress)
    (h : beforeCallback c recv w = .ok p) (msg : Msg) (question context uri : String) :
    beforeCallback c recv (w.logged msg question context uri) =
      .ok (p.map (World.logged msg question context uri)) ∨
    ∃ u, c.op = .setTokenURI w.templateId u ∧ c.msg.sender = zeroAddress ∧
      p = .done ((w.record c).uriSet w.templateId u) := by
  rcases c with ⟨msg', op⟩
  cases op with
  | mintTemplate question' context' uri' =>
      exact absurd (of_beforeCallback_mints rfl h).2.1 hexists
  | newPrompMinted promptId =>
      rcases of_done_ok h with ⟨w', hw, rfl⟩
      obtain rfl := Except.ok.inj hw
      exact Or.inl rfl
  | setTokenURI id u =>
      rcases of_done_ok h with ⟨w', hw, rfl⟩
      rcases setTokenURI_ok_iff.mp hw with ⟨howner, rfl⟩
      by_cases hid : id = w.templateId
      · subst hid
        exact Or.inr ⟨u, rfl, howner.symm.trans hrecord, rfl⟩
      · -- the two writes go to different records
        have hset : setTokenURI msg' id u
            ((w.logged msg question context uri).record ⟨msg', .setTokenURI id u⟩) =
            .ok (((w.record ⟨msg', .setTokenURI id u⟩).uriSet id u).logged
              msg question context uri) := by
          refine setTokenURI_ok_iff.mpr ⟨by simpa [World.logged, hid] using howner, ?_⟩
          simp [World.logged, World.uriSet, hid, Function.update_comm hid]
        exact Or.inl (done_ok hset)
  | approve b tokenId =>
      rcases of_done_ok h with ⟨w', hw, rfl⟩
      have hw' := onToken_logged msg question context uri hw
      exact Or.inl (done_ok hw')
  | setApprovalForAll operator approved =>
      rcases of_done_ok h with ⟨w', hw, rfl⟩
      have hw' := onToken_logged msg question context uri hw
      exact Or.inl (done_ok hw')
  | transferFrom a b tokenId =>
      rcases of_done_ok h with ⟨w', hw, rfl⟩
      have hw' := onToken_logged msg question context uri hw
      exact Or.inl (done_ok hw')
  | safeTransferFrom a b tokenId data =>
      rcases of_bind_ok h with ⟨w₁, hw, h⟩
      have hw' := onToken_logged msg question context uri hw
      refine Or.inl ?_
      dsimp only [beforeCallback]
      rw [bind_of_ok hw']
      by_cases hc : isContract recv = true
      · rw [if_pos hc] at h ⊢
        obtain rfl := Except.ok.inj h
        rfl
      · rw [if_neg hc] at h ⊢
        obtain rfl := Except.ok.inj h
        rfl

/-- **Simulation**: what a call does where outside code runs is a step of the
world in which the pending mint is finished. -/
theorem Good.completed_step (hgood : Good st w) (h : beforeCallback c recv w = .ok p) :
    Step (unwind tail st w) c (unwind tail st (completed c recv p)) := by
  by_cases hpending : pendingMints st = []
  · rw [unwind_of_no_pending hpending, unwind_of_no_pending hpending]
    exact beforeCallback_step h
  · rcases hgood.pending hpending with ⟨hexists, hrecord⟩
    rcases hgood.unwind_of_pending hpending with ⟨msg, question, context, uri, hmsg, hunwind⟩
    rw [hunwind, hunwind]
    rcases beforeCallback_logged hexists hrecord h msg question context uri with
      hcommutes | ⟨u, hop, hsender, rfl⟩
    · -- the call is no mint, so it has no second half of its own
      have hc : c.mints = false := not_mints_of_pending hexists h
      have hstep := beforeCallback_step hcommutes
      cases p with
      | done w' => exact hstep
      | out w' => simpa [completed, Stage.map, tail_of_not_mints hc] using hstep
    · rcases c with ⟨msg', op⟩
      obtain rfl : op = .setTokenURI w.templateId u := hop
      -- the zero address writes a URI that the second half writes over
      have hother : ((w.logged msg question context uri).ownershipRecord
          w.templateId).ownerAddress ≠ msg'.sender := by
        rw [show msg'.sender = zeroAddress from hsender]
        simpa [World.logged] using hmsg
      have hstep : Step _ ⟨msg', .setTokenURI w.templateId u⟩ _ := Step.overwritten hother
      simpa [completed, World.logged, World.uriSet] using hstep

end Pending

/-! ## Observed worlds -/

/-- The worlds in which outside code runs, in runs from `w₀` whose calls meet the
guard, with the stack of the pending calls. -/
abbrev ObservedFrom (guard : Call → World → Prop) (w₀ : World) (st : List (Call × Receiver))
    (w : World) : Prop :=
  phases.Observed guard w₀ st w

/-- The worlds between two calls. -/
abbrev ReachableFrom (guard : Call → World → Prop) (w₀ w : World) : Prop :=
  ObservedFrom guard w₀ [] w

/-- The worlds between two calls after deployment, when the calls made meet the
guard. -/
abbrev ReachableVia (guard : Call → World → Prop) (w : World) : Prop :=
  ReachableFrom guard World.init w

/-- The worlds between two calls after deployment: any calls, by any senders,
with any arguments, nested in any way. -/
abbrev Reachable (w : World) : Prop :=
  ReachableVia (fun _ _ => True) w

section Observed

variable {guard : Call → World → Prop} {w₀ w : World} {st : List (Call × Receiver)}

theorem afterCallback_ok_iff {c : Call} {recv : Receiver} {w w' : World} :
    afterCallback c recv w = .ok w' ↔ answered recv = .ok () ∧ w' = tail c recv w := by
  constructor
  · intro h
    rcases of_bind_ok h with ⟨_, hanswer, h⟩
    exact ⟨hanswer, (Except.ok.inj h).symm⟩
  · rintro ⟨hanswer, rfl⟩
    exact bind_of_ok hanswer _

/-- **Invariant induction**: what every step keeps holds in every observed world,
once the pending mint is finished. -/
theorem preserved {X : World → Prop}
    (hguard : ∀ c w msg question context uri, c.mints = false → guard c w →
      guard c (w.logged msg question context uri))
    (hstep : ∀ w c w', X w → guard c w → Step w c w' → X w') :
    Preserved phases guard tail (fun st w => Good st w ∧ X (unwind tail st w)) := by
  -- the guard also holds in the world in which the pending mint is finished
  have hguard' : ∀ st w c recv p, Good st w → guard c w → beforeCallback c recv w = .ok p →
      guard c (unwind tail st w) := by
    intro st w c recv p hgood hg h
    by_cases hpending : pendingMints st = []
    · rw [unwind_of_no_pending hpending]
      exact hg
    · rcases hgood.unwind_of_pending hpending with ⟨msg, question, context, uri, _, hunwind⟩
      rw [hunwind]
      exact hguard c w msg question context uri
        (not_mints_of_pending (hgood.pending hpending).1 h) hg
  constructor
  case after_eq =>
    intro c recv w w' h
    exact (afterCallback_ok_iff.mp h).2
  case done =>
    rintro st w c recv w' ⟨hgood, hX⟩ hg h
    exact ⟨hgood.done h, hstep _ _ _ hX (hguard' st w c recv _ hgood hg h) (hgood.completed_step h)⟩
  case enter =>
    rintro st w c recv w' ⟨hgood, hX⟩ hg h
    exact ⟨hgood.enter h, hstep _ _ _ hX (hguard' st w c recv _ hgood hg h)
      (hgood.completed_step h)⟩
  case leave =>
    rintro st w c recv ⟨hgood, hX⟩
    exact ⟨hgood.finished, hX⟩

/-- What holds in an observed world, and in the world in which its pending mint
is finished. -/
theorem Observed.invariant {X : World → Prop}
    (hguard : ∀ c w msg question context uri, c.mints = false → guard c w →
      guard c (w.logged msg question context uri))
    (hstep : ∀ w c w', X w → guard c w → Step w c w' → X w')
    (hgood : Good [] w₀) (hX : X w₀) (h : ObservedFrom guard w₀ st w) :
    Good st w ∧ X (unwind tail st w) :=
  TwoPhase.Observed.invariant (preserved hguard hstep) ⟨hgood, hX⟩ h

/-- The worlds between two calls are good. -/
theorem ReachableFrom.good (hgood : Good [] w₀) (h : ReachableFrom guard w₀ w) : Good [] w := by
  have hpreserved : Preserved phases guard tail Good :=
    { after_eq := fun _ _ _ _ h => (afterCallback_ok_iff.mp h).2
      done := fun _ _ _ _ _ hgood _ h => hgood.done h
      enter := fun _ _ _ _ _ hgood _ h => hgood.enter h
      leave := fun _ _ _ _ hgood => hgood.finished }
  exact TwoPhase.Observed.invariant hpreserved hgood h

end Observed

/-! ## Concrete runs -/

/-- A call in which no other contract takes part. -/
def callTx (sender : Address) (timestamp : ℕ) (op : Op) : Tx :=
  .call ⟨⟨sender, timestamp⟩, op⟩ ⟨0, .undecodable⟩ []

/-- A call whose receiver is a contract that makes the calls `body` and accepts. -/
def acceptTx (sender : Address) (timestamp : ℕ) (op : Op) (body : List Tx) : Tx :=
  .call ⟨⟨sender, timestamp⟩, op⟩ ⟨1, .returned onERC721ReceivedSelector⟩ body

/-- The world after the calls, made one after the other after deployment. -/
def worldAfter (txs : List Tx) : World :=
  execAll dispatch txs World.init

theorem reachableVia_worldAfter {guard : Call → World → Prop} {txs : List Tx}
    (h : phases.MeetsAll guard txs World.init) : ReachableVia guard (worldAfter txs) :=
  TwoPhase.Observed.init.execAll h

theorem reachable_worldAfter (txs : List Tx) : Reachable (worldAfter txs) :=
  reachableVia_worldAfter (phases.meetsAll_true txs World.init)

/-- Alice mints a template and is called back: she tries to mint another one,
which fails, and gives the token to Bob. Then Bob mints. -/
def reentrantTxs : List Tx :=
  [acceptTx alice 1 (.mintTemplate "q" "c" "u")
    [acceptTx alice 1 (.mintTemplate "q" "c" "v") [], callTx alice 1 (.transferFrom alice bob 1)],
   callTx bob 2 (.mintTemplate "q" "c" "w")]

end Yes3.LyonTemplate
