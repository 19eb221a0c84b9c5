import Mathlib.Data.List.Basic
import Yes3.LyonTemplate.OwnerIndex
import Yes3.LyonTemplate.Reentrancy

/-!
# Yes3.LyonTemplate.Deliveries — what the receivers of tokens are told

A contract that a token is minted to, or sent to by `safeTransferFrom`, is called.
The prompt contract tells such a receiver the number of the template where the id
belongs. The token contract gets it right, however the calls nest.

* `told` and `transfers` are what the history calls for, read off the calls in the
  order in which they are made.
* `Step.transfers_eq` and `dispatch_told` say what one call adds.
* `receivers_are_told` is the result: the receivers were told exactly what the
  history calls for, and a receiver that is being told has its token already.
-/

namespace Yes3.LyonTemplate

open CallTree
open LyonPrompt (Receiver Received alice bob)
open ERC721 (Event)

/-! ## The history -/

/-- What a contract is told that the call gives a token to. The token is number
`next`, if the call makes it. -/
def Call.notice (next : ℕ) (c : Call) : Option Received :=
  match c.op with
  | .mintTemplate _ _ _ => some ⟨c.msg.sender, c.msg.sender, zeroAddress, next, []⟩
  | .safeTransferFrom a b tokenId data => some ⟨b, c.msg.sender, a, tokenId, data⟩
  | _ => none

/-- What the call announces, if it gives a token to somebody. -/
def Call.announces (next : ℕ) (c : Call) : Option Event :=
  match c.op with
  | .mintTemplate _ _ _ => some (.transfer zeroAddress c.msg.sender next)
  | .transferFrom a b tokenId => some (.transfer a b tokenId)
  | .safeTransferFrom a b tokenId _ => some (.transfer a b tokenId)
  | _ => none

/-- The number of the next token after the call. -/
def Call.nextNumber (next : ℕ) (c : Call) : ℕ :=
  if c.mints then uncheckedIncr next else next

/-- The call tells its receiver, if that is a contract. -/
def noticeTo (recv : Receiver) (next : ℕ) (c : Call) : Option Received :=
  if isContract recv then c.notice next else none

/-- What the receivers are told in a flat run. -/
def told : ℕ → List (Call × Receiver) → List Received
  | _, [] => []
  | next, (c, recv) :: is => (noticeTo recv next c).toList ++ told (c.nextNumber next) is

/-- What is announced in a flat run about who has the tokens. -/
def transfers : ℕ → List (Call × Receiver) → List Event
  | _, [] => []
  | next, (c, _) :: is => (c.announces next).toList ++ transfers (c.nextNumber next) is

/-- The event that announces what a receiver is told. -/
def transferEvent (r : Received) : Event :=
  .transfer r.fromAddress r.toAddress r.tokenId

/-- The event is about who has a token. -/
def isTransfer : Event → Bool
  | .transfer _ _ _ => true
  | _ => false

/-- What receivers are told is announced. -/
theorem announces_of_notice {next : ℕ} {c : Call} {r : Received} (h : c.notice next = some r) :
    c.announces next = some (transferEvent r) := by
  rcases c with ⟨msg, op⟩
  cases op with
  | mintTemplate question context uri =>
      obtain rfl := Option.some.inj h
      rfl
  | safeTransferFrom a b tokenId data =>
      obtain rfl := Option.some.inj h
      rfl
  | _ => cases h

/-- Nobody is told of anything that is not announced, in the order of the log. -/
theorem told_sublist_transfers (next : ℕ) (is : List (Call × Receiver)) :
    ((told next is).map transferEvent).Sublist (transfers next is) := by
  induction is generalizing next with
  | nil => exact List.Sublist.refl _
  | cons i is ih =>
      rcases i with ⟨c, recv⟩
      rw [told, transfers, List.map_append]
      refine List.Sublist.append ?_ (ih _)
      cases hnotice : noticeTo recv next c with
      | none => exact List.nil_sublist _
      | some r =>
          have hr : c.notice next = some r := (Option.ite_none_right_eq_some.mp hnotice).2
          rw [announces_of_notice hr]
          exact List.Sublist.refl _

/-! ## One call -/

section Calls

variable {w w' w₁ : World} {c : Call} {recv : Receiver}

theorem Step.templateId_next (h : Step w c w') : w'.templateId = c.nextNumber w.templateId := by
  cases h with
  | @transfer msg op a b tokenId rs hop hauth howner hexists hzero =>
      rcases hop with rfl | ⟨data, rfl⟩
      · rfl
      · rfl
  | _ => rfl

theorem Step.transfers_eq (h : Step w c w') :
    w'.events.filter isTransfer =
      w.events.filter isTransfer ++ (c.announces w.templateId).toList := by
  cases h with
  | mintTemplate rs hzero hfree =>
      exact List.filter_append _ _
  | @transfer msg op a b tokenId rs hop hauth howner hexists hzero =>
      rcases hop with rfl | ⟨data, rfl⟩
      · exact List.filter_append _ _
      · exact List.filter_append _ _
  | approve hexists hother hauth => exact List.filter_append _ _
  | setApprovalForAll hother => exact List.filter_append _ _
  | newPrompMinted => exact (List.append_nil _).symm
  | setTokenURI howner => exact (List.append_nil _).symm
  | overwritten hother => exact (List.append_nil _).symm

/-- The first half of a call that asks its receiver, if that is a contract. -/
theorem of_asking_ok {r : ERC721.Result World} {out done : World → World} {p : Stage World}
    (h : (do
      let w₁ ← r
      if isContract recv then return Stage.out (out w₁) else return Stage.done (done w₁))
        = .ok p) :
    ∃ w₁, r = .ok w₁ ∧ ((isContract recv = true ∧ p = .out (out w₁)) ∨
      (¬ isContract recv = true ∧ p = .done (done w₁))) := by
  obtain ⟨w₁, hw, h⟩ := of_bind_ok h
  refine ⟨w₁, hw, ?_⟩
  by_cases hc : isContract recv = true
  · rw [if_pos hc] at h
    exact Or.inl ⟨hc, (Except.ok.inj h).symm⟩
  · rw [if_neg hc] at h
    exact Or.inr ⟨hc, (Except.ok.inj h).symm⟩

/-- A call that calls out tells a contract about a token that it has just given to it. -/
theorem of_beforeCallback_out (h : beforeCallback c recv w = .ok (.out w₁)) :
    ∃ r, noticeTo recv w.templateId c = some r ∧ w₁.received = w.received ++ [r] ∧
      w₁.events = w.events ++ [transferEvent r] ∧ ownerOf r.tokenId w₁ = .ok r.toAddress := by
  rcases c with ⟨msg, op⟩
  cases op with
  | mintTemplate question context uri =>
      obtain ⟨w₂, hw, ⟨hc, hp⟩ | ⟨_, hp⟩⟩ := of_asking_ok h
      · obtain rfl := Stage.out.inj hp
        obtain ⟨s, hs, rfl⟩ := onToken_ok_iff.mp hw
        obtain ⟨hzero, _, rfl⟩ := ERC721.mint_ok_iff.mp hs
        refine ⟨_, if_pos hc, rfl, rfl, ERC721.ownerOf_ok_iff.mpr ⟨hzero, ?_⟩⟩
        exact Function.update_self _ _ _
      · cases hp
  | safeTransferFrom a b tokenId data =>
      obtain ⟨w₂, hw, ⟨hc, hp⟩ | ⟨_, hp⟩⟩ := of_asking_ok h
      · obtain rfl := Stage.out.inj hp
        obtain ⟨s, hs, rfl⟩ := onToken_ok_iff.mp hw
        obtain ⟨_, _, _, hzero, rfl⟩ := ERC721.transferFrom_ok_iff.mp hs
        refine ⟨_, if_pos hc, rfl, rfl, ERC721.ownerOf_ok_iff.mpr ⟨hzero, ?_⟩⟩
        exact Function.update_self _ _ _
      · cases hp
  | _ =>
      -- the others never call out
      obtain ⟨_, _, hp⟩ := of_done_ok h
      cases hp

/-- A call that does not call out tells nobody anything. -/
theorem of_beforeCallback_done (h : beforeCallback c recv w = .ok (.done w')) :
    noticeTo recv w.templateId c = none ∧ w'.received = w.received := by
  rcases c with ⟨msg, op⟩
  cases op with
  | mintTemplate question context uri =>
      obtain ⟨w₂, hw, ⟨_, hp⟩ | ⟨hc, hp⟩⟩ := of_asking_ok h
      · cases hp
      · obtain rfl := Stage.done.inj hp
        obtain ⟨s, _, rfl⟩ := onToken_ok_iff.mp hw
        exact ⟨if_neg hc, rfl⟩
  | safeTransferFrom a b tokenId data =>
      obtain ⟨w₂, hw, ⟨_, hp⟩ | ⟨hc, hp⟩⟩ := of_asking_ok h
      · cases hp
      · obtain rfl := Stage.done.inj hp
        obtain ⟨s, _, rfl⟩ := onToken_ok_iff.mp hw
        exact ⟨if_neg hc, rfl⟩
  | newPrompMinted promptId =>
      obtain ⟨w₁, hw, hp⟩ := of_done_ok h
      obtain rfl := Stage.done.inj hp
      obtain rfl := Except.ok.inj hw
      exact ⟨ite_self none, rfl⟩
  | setTokenURI id uri =>
      obtain ⟨w₁, hw, hp⟩ := of_done_ok h
      obtain rfl := Stage.done.inj hp
      obtain ⟨_, rfl⟩ := setTokenURI_ok_iff.mp hw
      exact ⟨ite_self none, rfl⟩
  | _ =>
      -- a function of the token contract sees nothing of what receivers are told
      obtain ⟨w₁, hw, hp⟩ := of_done_ok h
      obtain rfl := Stage.done.inj hp
      obtain ⟨_, _, rfl⟩ := onToken_ok_iff.mp hw
      exact ⟨ite_self none, rfl⟩

theorem received_tail (c : Call) (recv : Receiver) (w : World) :
    (tail c recv w).received = w.received := by
  rcases c with ⟨msg, op⟩
  cases op with
  | mintTemplate question context uri => rfl
  | _ => rfl

/-- What a call adds to what the receivers were told. -/
theorem dispatch_told (h : dispatch c recv id w = .ok w') :
    w'.received = w.received ++ (noticeTo recv w.templateId c).toList := by
  rcases phases.of_run_ok h with hdone | ⟨w₁, hout, hafter⟩
  · obtain ⟨hnone, hreceived⟩ := of_beforeCallback_done hdone
    rw [hnone, hreceived]
    exact (List.append_nil _).symm
  · obtain ⟨r, hnotice, hreceived, _⟩ := of_beforeCallback_out hout
    obtain ⟨_, rfl⟩ := afterCallback_ok_iff.mp hafter
    rw [received_tail, hnotice]
    exact hreceived

end Calls

/-! ## Runs -/

/-- What a flat run adds to what the receivers were told and to the log. -/
theorem steps_told {guard : Call → World → Prop} {w w' : World} {is : List (Call × Receiver)}
    (h : Steps dispatch guard w is w') :
    w'.received = w.received ++ told w.templateId is ∧
      w'.events.filter isTransfer =
        w.events.filter isTransfer ++ transfers w.templateId is := by
  induction h with
  | nil w => exact ⟨(List.append_nil _).symm, (List.append_nil _).symm⟩
  | @cons w w₁ w' c recv is hg hx _ ih =>
      have hstep := dispatch_step hx
      obtain ⟨htold, htransfers⟩ := ih
      rw [hstep.templateId_next] at htold htransfers
      constructor
      · rw [htold, dispatch_told hx, List.append_assoc]
        rfl
      · rw [htransfers, hstep.transfers_eq, List.append_assoc]
        rfl

/-- **The receivers are told what they are given.** From any world between two calls,
with no call sent by the zero address, and however the calls nest: each mint and each
safe transfer that is not undone tells its receiver once, if that is a contract, in
the order in which they are made, and with the number of the token that the call
makes or moves; nothing else is told; and all of it is announced in the log. A
receiver that is told of a token has it already. -/
theorem receivers_are_told {w : World} (h : ReachableVia SenderNonzero w) (txs : List Tx)
    (hsenders : phases.MeetsAll SenderNonzero txs w) :
    (execAll dispatch txs w).received =
      w.received ++ told w.templateId (phases.survivorsAll txs w) ∧
    (execAll dispatch txs w).events.filter isTransfer =
      w.events.filter isTransfer ++ transfers w.templateId (phases.survivorsAll txs w) ∧
    ((told w.templateId (phases.survivorsAll txs w)).map transferEvent).Sublist
      (transfers w.templateId (phases.survivorsAll txs w)) ∧
    ∀ c recv v v₁, beforeCallback c recv v = .ok (.out v₁) →
      ∃ r, v₁.received = v.received ++ [r] ∧ v₁.events = v.events ++ [transferEvent r] ∧
        ownerOf r.tokenId v₁ = .ok r.toAddress := by
  have hgood : Good [] w := ReachableFrom.good good_init h
  have hsteps := execAll_survivors deferrable txs [] w hgood hsenders
  obtain ⟨htold, htransfers⟩ := steps_told hsteps
  refine ⟨htold, htransfers, told_sublist_transfers _ _, ?_⟩
  intro c recv v v₁ hout
  obtain ⟨r, _, hreceived, hevents, howner⟩ := of_beforeCallback_out hout
  exact ⟨r, hreceived, hevents, howner⟩

/-- Of all that happens in the nested run, one thing is told: Alice's contract gets the
token 1. The mint that fails inside the callback leaves no trace. -/
theorem receivers_are_told_reentrant :
    (worldAfter reentrantTxs).received = [⟨alice, alice, zeroAddress, 1, []⟩] ∧
    (worldAfter reentrantTxs).events.filter isTransfer =
      [.transfer zeroAddress alice 1, .transfer alice bob 1, .transfer zeroAddress bob 2] := by
  have halice : alice ≠ zeroAddress := by decide
  have hbob : bob ≠ zeroAddress := by decide
  have hsenders : phases.MeetsAll SenderNonzero reentrantTxs World.init :=
    ⟨fun _ => ⟨halice, fun _ _ => ⟨fun _ => ⟨halice, fun _ _ => trivial⟩,
      fun _ => ⟨halice, fun _ _ => trivial⟩, trivial⟩⟩,
      fun _ => ⟨hbob, fun _ _ => trivial⟩, trivial⟩
  obtain ⟨htold, htransfers, _⟩ :=
    receivers_are_told TwoPhase.Observed.init reentrantTxs hsenders
  have hcalls : phases.survivorsAll reentrantTxs World.init =
      [(⟨⟨alice, 1⟩, .mintTemplate "q" "c" "u"⟩, ⟨1, .returned onERC721ReceivedSelector⟩),
        (⟨⟨alice, 1⟩, .transferFrom alice bob 1⟩, ⟨0, .undecodable⟩),
        (⟨⟨bob, 2⟩, .mintTemplate "q" "c" "w"⟩, ⟨0, .undecodable⟩)] := by decide +kernel
  rw [hcalls] at htold htransfers
  exact ⟨htold, htransfers⟩

end Yes3.LyonTemplate
