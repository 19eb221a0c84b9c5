import Yes3.Rules.Deferred
import Yes3.LyonTemplate.Contract

/-!
# Yes3.LyonTemplate.Exec — runs of the template contract

The contract as a re-entrant component, and what a call can do. `mintTemplate`
hands control to the minter before it has written the record, the list and the
counter, so a call is split where it calls out.

* `phases` are the two halves of every call; `tail` is the half of a mint that
  comes after the callback.
* `Step` are the transitions of the contract, from which every invariant is
  proved. `beforeCallback_step` says that a call, with its `tail` done at once,
  is a step.
-/

namespace Yes3.LyonTemplate

open CallTree
open LyonPrompt (Receiver Received)
open ERC721 (Result)

/-- A call of the contract. It is noted in the history when it is made. -/
def dispatch : Machine World Call Receiver (Revert Empty) := fun c recv callback w =>
  let w := w.record c
  match c.op with
  | .mintTemplate question context templateURI =>
    mintTemplate c.msg recv callback question context templateURI w
  | .newPrompMinted promptId => newPrompMinted promptId w
  | .setTokenURI id templateURI => setTokenURI c.msg id templateURI w
  | .approve toAddress tokenId => onToken (ERC721.approve c.msg toAddress tokenId) w
  | .setApprovalForAll operator approved =>
    onToken (ERC721.setApprovalForAll c.msg operator approved) w
  | .transferFrom fromAddress toAddress tokenId =>
    onToken (ERC721.transferFrom c.msg fromAddress toAddress tokenId) w
  | .safeTransferFrom fromAddress toAddress tokenId data =>
    safeTransferFrom c.msg recv callback fromAddress toAddress tokenId data w

/-- An execution of outside code. -/
abbrev Tx := Tree Call Receiver (Revert Empty)

/-- After an update of the URI. -/
def World.uriSet (id : ℕ) (uri : String) (w : World) : World :=
  w.setOwnershipRecord id { w.ownershipRecord id with templateURI := uri }

theorem setTokenURI_ok_iff {msg : Msg} {id : ℕ} {uri : String} {w w' : World} :
    setTokenURI msg id uri w = .ok w' ↔
      (w.ownershipRecord id).ownerAddress = msg.sender ∧ w' = w.uriSet id uri := by
  constructor
  · intro h
    rcases of_require_bind_ok h with ⟨howner, h⟩
    exact ⟨howner, (Except.ok.inj h).symm⟩
  · rintro ⟨howner, rfl⟩
    exact require_bind_of_pos howner _ _

theorem tokenURI_ok_iff {id : ℕ} {uri : String} {w : World} :
    tokenURI id w = .ok uri ↔
      w.owners id ≠ zeroAddress ∧ (w.ownershipRecord id).templateURI = uri := by
  constructor
  · intro h
    rcases of_require_bind_ok h with ⟨hexists, h⟩
    exact ⟨ERC721.tokenExists_eq_true_iff.mp hexists, Except.ok.inj h⟩
  · rintro ⟨hexists, rfl⟩
    exact require_bind_of_pos (ERC721.tokenExists_eq_true_iff.mpr hexists) _ _

/-! ## The two phases of a call -/

/-- The second half of a mint: the record, the list and the counter. -/
def World.logged (msg : Msg) (question context templateURI : String) (w : World) : World :=
  { w with
    ownershipRecord := Function.update w.ownershipRecord w.templateId
      { templateId := w.templateId
        ownerAddress := msg.sender
        question := question
        context := context
        createTime := msg.timestamp
        templateURI := templateURI }
    templateByAddress := Function.update w.templateByAddress msg.sender
      (w.templateByAddress msg.sender ++ [w.templateId])
    templateId := uncheckedIncr w.templateId }

/-- The work that a call leaves for after its callback. -/
def tail (c : Call) (_ : Receiver) (w : World) : World :=
  match c.op with
  | .mintTemplate question context templateURI => w.logged c.msg question context templateURI
  | _ => w

/-- The answer of a receiver decides whether the call that asked it goes on. -/
def answered (recv : Receiver) : Result Unit :=
  match recv.answer with
  | .returned retval =>
    require (retval = onERC721ReceivedSelector)
      "ERC721: transfer to non ERC721Receiver implementer"
  | .reverted reason =>
    if reason.length = 0 then
      .error (.require "ERC721: transfer to non ERC721Receiver implementer")
    else
      .error (.raw reason)
  | .undecodable => .error (.raw [])

/-- A call up to the point where the receiver of a token is called. -/
def beforeCallback (c : Call) (recv : Receiver) (w : World) : Result (Stage World) :=
  match c.op with
  | .mintTemplate _ _ _ => do
    let w₁ ← onToken (ERC721.mint c.msg.sender w.templateId) (w.record c)
    if isContract recv then
      return .out (w₁.receive ⟨c.msg.sender, c.msg.sender, zeroAddress, w.templateId, []⟩)
    else
      return .done (tail c recv w₁)
  | .safeTransferFrom fromAddress toAddress tokenId data => do
    let w₁ ← onToken (ERC721.transferFrom c.msg fromAddress toAddress tokenId) (w.record c)
    if isContract recv then
      return .out (w₁.receive ⟨toAddress, c.msg.sender, fromAddress, tokenId, data⟩)
    else
      return .done w₁
  | _ => do
    let w₁ ← dispatch c recv id w
    return .done w₁

/-- The rest of a call. -/
def afterCallback (c : Call) (recv : Receiver) (w : World) : Result World := do
  answered recv
  return tail c recv w

/-- The external call with its check, followed by the rest `k` of the call. -/
theorem checkOnERC721Received_bind (msg : Msg) (recv : Receiver) (f : World → World)
    (a b : Address) (tokenId : ℕ) (data : Bytes) (w : World) (k : World → Result World) :
    ((do
      let (accepted, w) ← checkOnERC721Received msg recv f a b tokenId data w
      require (accepted = true) "ERC721: transfer to non ERC721Receiver implementer"
      return w) >>= k) =
    if isContract recv = true then
      answered recv >>= fun _ => k (f (w.receive ⟨b, msg.sender, a, tokenId, data⟩))
    else k w := by
  unfold checkOnERC721Received answered
  by_cases hc : isContract recv = true
  · rw [if_pos hc, if_pos hc]
    cases recv.answer with
    | returned retval =>
        by_cases hv : retval = onERC721ReceivedSelector
        · simp [hv, bind, Except.bind, require, pure, Except.pure]
        · simp [hv, bind, Except.bind, require]
    | undecodable => rfl
    | reverted reason =>
        by_cases hr : reason.length = 0
        · simp [hr, bind, Except.bind]
        · simp [hr, bind, Except.bind]
  · rw [if_neg hc, if_neg hc]
    rfl

/-- The inherited `transferFrom` asks for the authority first. -/
theorem onToken_transferFrom (msg : Msg) (a b : Address) (tokenId : ℕ) (w : World) :
    onToken (ERC721.transferFrom msg a b tokenId) w =
      (do
        let authorised ← ERC721.isApprovedOrOwner msg.sender tokenId w.toState
        require (authorised = true) "ERC721: caller is not token owner or approved"
        onToken (ERC721.transfer a b tokenId) w) := by
  unfold onToken ERC721.transferFrom
  cases ERC721.isApprovedOrOwner msg.sender tokenId w.toState with
  | error e => rfl
  | ok authorised => cases authorised <;> rfl

/-- A call in its two phases. -/
theorem dispatch_eq_phases (c : Call) (recv : Receiver) (f : World → World) (w : World) :
    dispatch c recv f w = Stage.finish f (afterCallback c recv) (beforeCallback c recv w) := by
  -- most calls are over before any callback
  have hdone := fun r : Result World => (Stage.finish_done f (afterCallback c recv) r).symm
  rcases c with ⟨msg, op⟩
  cases op with
  | mintTemplate question context uri =>
      unfold dispatch mintTemplate safeMint beforeCallback
      generalize hr : World.record ⟨msg, .mintTemplate question context uri⟩ w = w'
      have hid : w'.templateId = w.templateId := by
        rw [← hr]
        rfl
      cases hm : onToken (ERC721.mint msg.sender w.templateId) w' with
      | error e => simp [hid, hm, bind, Except.bind, Stage.finish]
      | ok w₁ =>
          simp only [hid, hm, bind_of_ok rfl]
          refine (checkOnERC721Received_bind msg recv f zeroAddress msg.sender w.templateId [] w₁
            fun w => .ok (w.logged msg question context uri)).trans ?_
          exact (Stage.finish_ite f
            (afterCallback ⟨msg, .mintTemplate question context uri⟩ recv) _ _ _).symm
  | safeTransferFrom a b tokenId data =>
      unfold dispatch safeTransferFrom beforeCallback
      simp only [onToken_transferFrom]
      generalize World.record ⟨msg, .safeTransferFrom a b tokenId data⟩ w = w'
      cases ERC721.isApprovedOrOwner msg.sender tokenId w'.toState with
      | error e => rfl
      | ok authorised =>
          cases authorised with
          | false => rfl
          | true =>
              unfold safeTransfer
              cases hm : onToken (ERC721.transfer a b tokenId) w' with
              | error e => simp [require, bind, Except.bind, Stage.finish]
              | ok w₁ =>
                  simp only [bind_of_ok rfl, require_bind_of_pos]
                  rw [← bind_pure (checkOnERC721Received _ _ _ _ _ _ _ _ >>= _)]
                  refine (checkOnERC721Received_bind msg recv f a b tokenId data w₁ .ok).trans ?_
                  exact (Stage.finish_ite f
                    (afterCallback ⟨msg, .safeTransferFrom a b tokenId data⟩ recv) _ _ _).symm
  | newPrompMinted promptId => exact hdone _
  | setTokenURI id uri => exact hdone _
  | approve b tokenId => exact hdone _
  | setApprovalForAll operator approved => exact hdone _
  | transferFrom a b tokenId => exact hdone _

/-- The contract in two phases. -/
def phases : TwoPhase dispatch where
  before := beforeCallback
  after := afterCallback
  run_eq := dispatch_eq_phases

/-! ## Steps -/

attribute [simp] World.record World.receive World.setToken World.setOwnershipRecord
  World.setPromptCount

/-- The call is a mint. -/
def Call.mints (c : Call) : Bool :=
  match c.op with
  | .mintTemplate _ _ _ => true
  | _ => false

/-- After the first half of a mint. -/
def World.halfMinted (c : Call) (rs : List Received) (w : World) : World :=
  { w with
    toState := w.toState.tokenMinted c.msg.sender w.templateId
    calls := w.calls ++ [c]
    received := rs }

theorem tail_of_not_mints {c : Call} {recv : Receiver} (hc : c.mints = false) (w : World) :
    tail c recv w = w := by
  rcases c with ⟨msg, op⟩
  cases op with
  | mintTemplate question context uri => cases hc
  | _ => rfl

/-- The transitions of the contract: what a call that succeeds does, when its
callback, if there is one, does nothing. `rs` is what has been sent to receivers.

The last one is a `setTokenURI` that changes nothing, since somebody else owns
the record. A call like that fails, except that the zero address may make it for
the token of a mint that is pending, whose record is then written over. -/
inductive Step : World → Call → World → Prop where
  | mintTemplate {w : World} {msg : Msg} {question context uri : String} (rs : List Received)
      (hzero : msg.sender ≠ zeroAddress) (hfree : w.owners w.templateId = zeroAddress) :
      Step w ⟨msg, .mintTemplate question context uri⟩
        ((w.halfMinted ⟨msg, .mintTemplate question context uri⟩ rs).logged
          msg question context uri)
  | newPrompMinted {w : World} {msg : Msg} {promptId : ℕ} :
      Step w ⟨msg, .newPrompMinted promptId⟩
        { w with
          promptCount := Function.update w.promptCount promptId
            (uncheckedIncr (w.promptCount promptId))
          calls := w.calls ++ [⟨msg, .newPrompMinted promptId⟩] }
  | setTokenURI {w : World} {msg : Msg} {id : ℕ} {uri : String}
      (howner : (w.ownershipRecord id).ownerAddress = msg.sender) :
      Step w ⟨msg, .setTokenURI id uri⟩
        { w with
          ownershipRecord := Function.update w.ownershipRecord id
            { w.ownershipRecord id with templateURI := uri }
          calls := w.calls ++ [⟨msg, .setTokenURI id uri⟩] }
  | approve {w : World} {msg : Msg} {b : Address} {tokenId : ℕ}
      (hexists : w.owners tokenId ≠ zeroAddress) (hother : b ≠ w.owners tokenId)
      (hauth : msg.sender = w.owners tokenId ∨
        w.operatorApprovals (w.owners tokenId) msg.sender = true) :
      Step w ⟨msg, .approve b tokenId⟩
        { w with
          toState := w.toState.tokenApproved b tokenId
          calls := w.calls ++ [⟨msg, .approve b tokenId⟩] }
  | setApprovalForAll {w : World} {msg : Msg} {operator : Address} {approved : Bool}
      (hother : msg.sender ≠ operator) :
      Step w ⟨msg, .setApprovalForAll operator approved⟩
        { w with
          toState := w.toState.operatorSet msg.sender operator approved
          calls := w.calls ++ [⟨msg, .setApprovalForAll operator approved⟩] }
  | transfer {w : World} {msg : Msg} {op : Op} {a b : Address} {tokenId : ℕ}
      (rs : List Received)
      (hop : op = .transferFrom a b tokenId ∨ ∃ data, op = .safeTransferFrom a b tokenId data)
      (hauth : w.Authorised msg.sender tokenId) (howner : w.owners tokenId = a)
      (hexists : a ≠ zeroAddress) (hzero : b ≠ zeroAddress) :
      Step w ⟨msg, op⟩
        { w with
          toState := w.toState.tokenMoved a b tokenId
          calls := w.calls ++ [⟨msg, op⟩]
          received := rs }
  | overwritten {w : World} {msg : Msg} {id : ℕ} {uri : String}
      (hother : (w.ownershipRecord id).ownerAddress ≠ msg.sender) :
      Step w ⟨msg, .setTokenURI id uri⟩ { w with calls := w.calls ++ [⟨msg, .setTokenURI id uri⟩] }

/-- What a call has done when it gives up control, with its second half done. -/
def completed (c : Call) (recv : Receiver) : Stage World → World
  | .done w => w
  | .out w => tail c recv w

theorem onToken_ok_iff {f : ERC721.State → Result ERC721.State} {w w' : World} :
    onToken f w = .ok w' ↔ ∃ s, f w.toState = .ok s ∧ w' = w.setToken s := by
  constructor
  · intro h
    rcases of_bind_ok h with ⟨s, hs, h⟩
    exact ⟨s, hs, (Except.ok.inj h).symm⟩
  · rintro ⟨s, hs, rfl⟩
    exact bind_of_ok hs _

/-- A call of a function that does not call out is done. -/
theorem done_ok {r : Result World} {w : World} (h : r = .ok w) :
    (do let w ← r; return Stage.done w) = .ok (.done w) :=
  bind_of_ok h _

theorem of_done_ok {r : Result World} {p : Stage World}
    (h : (do let w ← r; return Stage.done w) = .ok p) : ∃ w, r = .ok w ∧ p = .done w := by
  rcases of_bind_ok h with ⟨w, hw, h⟩
  exact ⟨w, hw, (Except.ok.inj h).symm⟩

/-- The first half of a mint. -/
theorem of_beforeCallback_mints {c : Call} {recv : Receiver} {w : World} {p : Stage World}
    (hc : c.mints = true) (h : beforeCallback c recv w = .ok p) :
    c.msg.sender ≠ zeroAddress ∧ w.owners w.templateId = zeroAddress ∧
      ∃ rs, p = .out (w.halfMinted c rs) ∨ p = .done (tail c recv (w.halfMinted c rs)) := by
  rcases c with ⟨msg, op⟩
  cases op with
  | mintTemplate question context uri =>
      rcases of_bind_ok h with ⟨w₁, hw, h⟩
      rcases onToken_ok_iff.mp hw with ⟨s, hs, rfl⟩
      rcases ERC721.mint_ok_iff.mp hs with ⟨hzero, hfree, rfl⟩
      refine ⟨hzero, hfree, ?_⟩
      by_cases hc : isContract recv = true
      · rw [if_pos hc] at h
        obtain rfl := Except.ok.inj h
        exact ⟨_, Or.inl rfl⟩
      · rw [if_neg hc] at h
        obtain rfl := Except.ok.inj h
        exact ⟨w.received, Or.inr rfl⟩
  | _ => cases hc

/-- A call, with its second half done at once, is a step. -/
theorem beforeCallback_step {c : Call} {recv : Receiver} {w : World} {p : Stage World}
    (h : beforeCallback c recv w = .ok p) : Step w c (completed c recv p) := by
  rcases c with ⟨msg, op⟩
  cases op with
  | mintTemplate question context uri =>
      rcases of_beforeCallback_mints rfl h with ⟨hzero, hfree, rs, rfl | rfl⟩
      · exact Step.mintTemplate rs hzero hfree
      · exact Step.mintTemplate rs hzero hfree
  | newPrompMinted promptId =>
      rcases of_done_ok h with ⟨w', hw, rfl⟩
      obtain rfl := Except.ok.inj hw
      exact Step.newPrompMinted
  | setTokenURI id uri =>
      rcases of_done_ok h with ⟨w', hw, rfl⟩
      rcases setTokenURI_ok_iff.mp hw with ⟨howner, rfl⟩
      exact Step.setTokenURI (w := w) howner
  | approve b tokenId =>
      rcases of_done_ok h with ⟨w', hw, rfl⟩
      rcases onToken_ok_iff.mp hw with ⟨s, hs, rfl⟩
      rcases ERC721.approve_ok_iff.mp hs with ⟨hexists, hother, hauth, rfl⟩
      exact Step.approve (w := w) hexists hother hauth
  | setApprovalForAll operator approved =>
      rcases of_done_ok h with ⟨w', hw, rfl⟩
      rcases onToken_ok_iff.mp hw with ⟨s, hs, rfl⟩
      rcases ERC721.setApprovalForAll_ok_iff.mp hs with ⟨hother, rfl⟩
      exact Step.setApprovalForAll (w := w) hother
  | transferFrom a b tokenId =>
      rcases of_done_ok h with ⟨w', hw, rfl⟩
      rcases onToken_ok_iff.mp hw with ⟨s, hs, rfl⟩
      rcases ERC721.transferFrom_ok_iff.mp hs with ⟨hauth, howner, hexists, hzero, rfl⟩
      exact Step.transfer (w := w) w.received (Or.inl rfl) hauth howner hexists hzero
  | safeTransferFrom a b tokenId data =>
      rcases of_bind_ok h with ⟨w₁, hw, h⟩
      rcases onToken_ok_iff.mp hw with ⟨s, hs, rfl⟩
      rcases ERC721.transferFrom_ok_iff.mp hs with ⟨hauth, howner, hexists, hzero, rfl⟩
      -- the token has moved by the time the receiver is called, if it is
      by_cases hc : isContract recv = true
      · rw [if_pos hc] at h
        obtain rfl := Except.ok.inj h
        exact Step.transfer (w := w) (w.received ++ [⟨b, msg.sender, a, tokenId, data⟩])
          (Or.inr ⟨data, rfl⟩) hauth howner hexists hzero
      · rw [if_neg hc] at h
        obtain rfl := Except.ok.inj h
        exact Step.transfer (w := w) w.received (Or.inr ⟨data, rfl⟩) hauth howner hexists hzero

section Quiet

variable {w w' : World} {c : Call}

/-- Only mints move the counter. -/
theorem Step.templateId_eq (h : Step w c w') (hc : c.mints = false) :
    w'.templateId = w.templateId := by
  cases h with
  | mintTemplate _ _ _ => cases hc
  | _ => rfl

/-- Only mints write the owner of a record. -/
theorem Step.recordOwner_eq (h : Step w c w') (hc : c.mints = false) (id : ℕ) :
    (w'.ownershipRecord id).ownerAddress = (w.ownershipRecord id).ownerAddress := by
  cases h with
  | mintTemplate _ _ _ => cases hc
  | @setTokenURI msg id' uri howner =>
      by_cases hid : id = id'
      · subst hid
        simp
      · simp [hid]
  | _ => rfl

/-- Only mints make a token, and no call destroys one. -/
theorem Step.owners_zero_iff (h : Step w c w') (hc : c.mints = false) (id : ℕ) :
    w'.owners id = zeroAddress ↔ w.owners id = zeroAddress := by
  cases h with
  | mintTemplate _ _ _ => cases hc
  | @transfer msg op a b tokenId rs hop hauth howner hexists hzero =>
      by_cases hid : id = tokenId
      · subst hid
        simp [hzero, howner, hexists]
      · simp [hid]
  | _ => rfl

end Quiet

end Yes3.LyonTemplate
