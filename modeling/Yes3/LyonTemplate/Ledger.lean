import Yes3.ERC721.Log
import Yes3.LyonTemplate.MintLog

/-!
# Yes3.LyonTemplate.Ledger — the tokens and their events

The tokens of the template contract, in every world in which outside code runs,
between calls or inside a callback, however deep.

* `event_log_is_ledger`: the event log is a valid ledger, and the storage of the
  token contract is what the log tells. So whoever follows the events knows the
  owners, the approvals and the balances.
* `balance_counts_tokens`: the balance of an account is the number of its tokens,
  and there are as many tokens as there were mints.
-/

namespace Yes3.LyonTemplate

open CallTree Holdings
open LyonPrompt (Receiver alice bob)
open ERC721 (Event Replays ValidLog ownerIn approvedIn operatorIn)

variable {st : List (Call × Receiver)} {w w' : World} {c : Call}

/-- The second half of a pending mint writes neither tokens nor the history. -/
theorem unwind_token (st : List (Call × Receiver)) (w : World) :
    (unwind tail st w).toState = w.toState ∧ (unwind tail st w).calls = w.calls := by
  induction st generalizing w with
  | nil => exact ⟨rfl, rfl⟩
  | cons ik st ih =>
      rcases ik with ⟨⟨msg, op⟩, recv⟩
      obtain ⟨htoken, hcalls⟩ := ih (tail ⟨msg, op⟩ recv w)
      rw [unwind, htoken, hcalls]
      cases op <;> exact ⟨rfl, rfl⟩

/-- **Invariant induction for the tokens**: what every step keeps of the tokens and
the history holds wherever outside code runs, since a pending mint has nothing left
to do to them. -/
theorem Observed.token {X : ERC721.State → List Call → Prop}
    (hinit : X World.init.toState World.init.calls)
    (hstep : ∀ w c w', MintInv w → X w.toState w.calls → Step w c w' → X w'.toState w'.calls)
    (h : ObservedFrom (fun _ _ => True) World.init st w) : X w.toState w.calls := by
  have hX := (Observed.invariant (X := fun v => MintInv v ∧ X v.toState v.calls)
    (fun _ _ _ _ _ _ _ _ => trivial)
    (fun v c v' hv _ hs => ⟨hs.mintInv hv.1, hstep v c v' hv.1 hv.2 hs⟩)
    good_init ⟨mintInv_init, hinit⟩ h).2.2
  rwa [(unwind_token st w).1, (unwind_token st w).2] at hX

/-! ## The ledger -/

/-- Every call keeps the storage in step with the log. -/
theorem Step.replays (hstep : Step w c w') (h : Replays w.toState) : Replays w'.toState := by
  cases hstep with
  | mintTemplate rs hzero hfree => exact h.tokenMinted hzero hfree
  | newPrompMinted => exact h
  | setTokenURI howner => exact h
  | approve hexists hother hauth => exact h.tokenApproved hexists hother
  | setApprovalForAll hother => exact h.operatorSet _ hother
  | transfer rs hop hauth howner hexists hzero => exact h.tokenMoved hexists howner hzero
  | overwritten hother => exact h

theorem Observed.replays (h : ObservedFrom (fun _ _ => True) World.init st w) :
    Replays w.toState :=
  Observed.token (X := fun s _ => Replays s) ERC721.replays_init
    (fun _ _ _ _ hv hs => hs.replays hv) h

/-- **The event log is the ledger of the tokens.** It is valid, and the views of the
token contract answer as the log does. -/
theorem event_log_is_ledger (h : ObservedFrom (fun _ _ => True) World.init st w) :
    ValidLog w.events ∧
    (∀ id a, ownerOf id w = .ok a ↔ a ≠ zeroAddress ∧ ownerIn w.events id = a) ∧
    (∀ id a, ERC721.getApproved id w.toState = .ok a ↔
      ownerIn w.events id ≠ zeroAddress ∧ approvedIn w.events id = a) ∧
    (∀ a operator, ERC721.isApprovedForAll a operator w.toState =
      operatorIn w.events a operator) ∧
    ∀ a, a ≠ zeroAddress → balanceOf a w =
      .ok ((w.events.countP (Event.credits a) - w.events.countP (Event.debits a)) % 2 ^ 256) := by
  have hreplays := Observed.replays h
  refine ⟨hreplays.valid, ?_, ?_, ?_, ?_⟩
  · intro id a
    rw [← hreplays.owners]
    exact ERC721.ownerOf_ok_iff
  · intro id a
    rw [← hreplays.owners, ← hreplays.approvals]
    exact ERC721.getApproved_ok_iff
  · intro a operator
    rw [← hreplays.operators]
    rfl
  · intro a ha
    rw [← hreplays.balances_eq ha]
    exact require_bind_of_pos ha _ _

/-- Bob has the token that Alice gave away while she was called back. -/
theorem event_log_is_ledger_reentrant :
    ValidLog (worldAfter reentrantTxs).events ∧
      ownerIn (worldAfter reentrantTxs).events 1 = bob := by
  obtain ⟨hvalid, howner, _⟩ := event_log_is_ledger (reachable_worldAfter reentrantTxs)
  have hbob : ownerOf 1 (worldAfter reentrantTxs) = .ok bob := by decide +kernel
  exact ⟨hvalid, ((howner 1 bob).mp hbob).2⟩

/-- Only a mint issues a token. -/
theorem Step.issues_eq (hstep : Step w c w')
    (h : w.events.countP Event.issues = w.calls.countP Call.mints) :
    w'.events.countP Event.issues = w'.calls.countP Call.mints := by
  cases hstep with
  | mintTemplate rs hzero hfree =>
      simp [World.logged, World.halfMinted, Event.issues, Event.debits, Call.mints] at h ⊢
      exact h
  | @transfer msg op a b tokenId rs hop hauth howner hexists hzero =>
      -- the token comes from somebody
      have hc : Call.mints ⟨msg, op⟩ = false := by
        rcases hop with rfl | ⟨data, rfl⟩
        · rfl
        · rfl
      simp [Event.issues, Event.debits, hexists, hc] at h ⊢
      exact h
  | newPrompMinted => simpa [Call.mints] using h
  | setTokenURI howner => simpa [Call.mints] using h
  | approve hexists hother hauth =>
      simpa [Call.mints, Event.issues, Event.debits] using h
  | setApprovalForAll hother => simpa [Call.mints, Event.issues, Event.debits] using h
  | overwritten hother => simpa [Call.mints] using h

/-- The tokens in existence are as many as the mints. -/
theorem Observed.tokens_eq (h : ObservedFrom (fun _ _ => True) World.init st w) :
    {id | w.owners id ≠ zeroAddress}.Finite ∧
      {id | w.owners id ≠ zeroAddress}.ncard = mintCount w := by
  have hreplays := Observed.replays h
  have hissues : w.events.countP Event.issues = w.calls.countP Call.mints :=
    Observed.token
      (X := fun s calls => s.events.countP Event.issues = calls.countP Call.mints) rfl
      (fun _ _ _ _ hv hs => hs.issues_eq hv) h
  obtain ⟨hfin, hcount⟩ := hreplays.valid.issues_eq
  rw [hreplays.owners]
  exact ⟨hfin, hcount.symm.trans hissues⟩

/-- **The balance of an account is the number of its tokens**, transfers, approvals
and pending mints included. The counter has 256 bits, which are enough for as many
mints as the ids allow. -/
theorem balance_counts_tokens (h : ObservedFrom (fun _ _ => True) World.init st w) :
    {id | ERC721.tokenExists id w.toState = true}.Finite ∧
    {id | ERC721.tokenExists id w.toState = true}.ncard = mintCount w ∧
    ∀ a, a ≠ zeroAddress →
      {id | ownerOf id w = .ok a}.ncard ≤ mintCount w ∧
      balanceOf a w = .ok ({id | ownerOf id w = .ok a}.ncard % 2 ^ 256) ∧
      (mintCount w < 2 ^ 256 → balanceOf a w = .ok {id | ownerOf id w = .ok a}.ncard) := by
  have hreplays := Observed.replays h
  obtain ⟨hfin, hcount⟩ := Observed.tokens_eq h
  have hexists : {id | ERC721.tokenExists id w.toState = true} = {id | w.owners id ≠ zeroAddress} :=
    Set.ext fun id => ERC721.tokenExists_eq_true_iff
  rw [hexists]
  refine ⟨hfin, hcount, ?_⟩
  intro a ha
  have howned : {id | ownerOf id w = .ok a} = heldBy w.owners a := by
    ext id
    rw [Set.mem_ofPred_eq, ownerOf, ERC721.ownerOf_ok_iff, mem_heldBy]
    exact ⟨fun h => h.2, fun h => ⟨ha, h⟩⟩
  have hbalance : balanceOf a w = .ok ((heldBy w.owners a).ncard % 2 ^ 256) := by
    rw [← hreplays.balances a ha]
    exact require_bind_of_pos ha _ _
  have hle : (heldBy w.owners a).ncard ≤ mintCount w := by
    rw [← hcount]
    apply Set.ncard_le_ncard _ hfin
    intro id hid
    have hid' : w.owners id = a := hid
    exact hid'.trans_ne ha
  rw [howned]
  refine ⟨hle, hbalance, ?_⟩
  intro hmax
  rw [hbalance, Nat.mod_eq_of_lt (Nat.lt_of_le_of_lt hle hmax)]

/-- Bob's two tokens are the one that he minted and the one that he was given. -/
theorem balance_counts_tokens_reentrant :
    {id | ownerOf id (worldAfter reentrantTxs) = .ok bob}.ncard = 2 := by
  have hbob : bob ≠ zeroAddress := by decide
  have hmints : mintCount (worldAfter reentrantTxs) < 2 ^ 256 := by decide +kernel
  have htwo : balanceOf bob (worldAfter reentrantTxs) = .ok 2 := by decide +kernel
  have hcount := ((balance_counts_tokens (reachable_worldAfter reentrantTxs)).2.2 bob hbob).2.2
    hmints
  exact (Except.ok.inj (htwo.symm.trans hcount)).symm

end Yes3.LyonTemplate
