import Mathlib.Logic.Function.Basic
import Yes3.Evm

/-!
# Yes3.ERC721.Token — the token contract that the template contract inherits

The storage of the vendored `ERC721.sol` and its functions, statement by
statement, except for those that call out (`_safeMint`, `_safeTransfer`), which
see the storage of the derived contract. The transfer hooks are empty and are
overridden nowhere, so they are left out.

Each function comes with a lemma that says when it succeeds and what it does.
-/

namespace Yes3.ERC721

abbrev Result (α : Type) := Except (Revert Empty) α

inductive Event where
  | transfer (fromAddress toAddress : Address) (tokenId : ℕ)
  | approval (owner approved : Address) (tokenId : ℕ)
  | approvalForAll (owner operator : Address) (approved : Bool)
deriving DecidableEq, Repr

/-- The storage of the contract and its event log. -/
structure State where
  owners : ℕ → Address := fun _ => zeroAddress
  balances : Address → ℕ := fun _ => 0
  tokenApprovals : ℕ → Address := fun _ => zeroAddress
  operatorApprovals : Address → Address → Bool := fun _ _ => false
  events : List Event := []

namespace State

def emit (e : Event) (s : State) : State :=
  { s with events := s.events ++ [e] }

def setOwner (tokenId : ℕ) (a : Address) (s : State) : State :=
  { s with owners := Function.update s.owners tokenId a }

def setBalance (a : Address) (n : ℕ) (s : State) : State :=
  { s with balances := Function.update s.balances a n }

def setTokenApproval (tokenId : ℕ) (a : Address) (s : State) : State :=
  { s with tokenApprovals := Function.update s.tokenApprovals tokenId a }

def setOperatorApproval (owner operator : Address) (approved : Bool) (s : State) : State :=
  let operators := Function.update (s.operatorApprovals owner) operator approved
  { s with operatorApprovals := Function.update s.operatorApprovals owner operators }

end State

/-! ## Views -/

/-- `_exists`. -/
def tokenExists (tokenId : ℕ) (s : State) : Bool :=
  s.owners tokenId ≠ zeroAddress

/-- `_requireMinted`. -/
def requireMinted (tokenId : ℕ) (s : State) : Result Unit :=
  require (tokenExists tokenId s = true) "ERC721: invalid token ID"

def balanceOf (owner : Address) (s : State) : Result ℕ := do
  require (owner ≠ zeroAddress) "ERC721: address zero is not a valid owner"
  return s.balances owner

def ownerOf (tokenId : ℕ) (s : State) : Result Address := do
  let owner := s.owners tokenId
  require (owner ≠ zeroAddress) "ERC721: invalid token ID"
  return owner

def getApproved (tokenId : ℕ) (s : State) : Result Address := do
  requireMinted tokenId s
  return s.tokenApprovals tokenId

def isApprovedForAll (owner operator : Address) (s : State) : Bool :=
  s.operatorApprovals owner operator

/-- `_isApprovedOrOwner`. -/
def isApprovedOrOwner (spender : Address) (tokenId : ℕ) (s : State) : Result Bool := do
  let owner ← ownerOf tokenId s
  let approved ← getApproved tokenId s
  return spender = owner || isApprovedForAll owner spender s || approved = spender

/-! ## Minting, transfers and approvals -/

/-- `_mint`. -/
def mint (toAddress : Address) (tokenId : ℕ) (s : State) : Result State := do
  require (toAddress ≠ zeroAddress) "ERC721: mint to the zero address"
  require (tokenExists tokenId s = false) "ERC721: token already minted"
  -- once more, after the empty hook
  require (tokenExists tokenId s = false) "ERC721: token already minted"
  let s := s.setBalance toAddress (uncheckedIncr (s.balances toAddress))
  let s := s.setOwner tokenId toAddress
  return s.emit (.transfer zeroAddress toAddress tokenId)

/-- `_transfer`. -/
def transfer (fromAddress toAddress : Address) (tokenId : ℕ) (s : State) : Result State := do
  let owner ← ownerOf tokenId s
  require (owner = fromAddress) "ERC721: transfer from incorrect owner"
  require (toAddress ≠ zeroAddress) "ERC721: transfer to the zero address"
  -- once more, after the empty hook
  let owner ← ownerOf tokenId s
  require (owner = fromAddress) "ERC721: transfer from incorrect owner"
  let s := s.setTokenApproval tokenId zeroAddress
  let s := s.setBalance fromAddress (uncheckedDecr (s.balances fromAddress))
  let s := s.setBalance toAddress (uncheckedIncr (s.balances toAddress))
  let s := s.setOwner tokenId toAddress
  return s.emit (.transfer fromAddress toAddress tokenId)

def transferFrom (msg : Msg) (fromAddress toAddress : Address) (tokenId : ℕ) (s : State) :
    Result State := do
  let authorised ← isApprovedOrOwner msg.sender tokenId s
  require (authorised = true) "ERC721: caller is not token owner or approved"
  transfer fromAddress toAddress tokenId s

def approve (msg : Msg) (toAddress : Address) (tokenId : ℕ) (s : State) : Result State := do
  let owner ← ownerOf tokenId s
  require (toAddress ≠ owner) "ERC721: approval to current owner"
  require (msg.sender = owner ∨ isApprovedForAll owner msg.sender s = true)
    "ERC721: approve caller is not token owner or approved for all"
  let s := s.setTokenApproval tokenId toAddress
  let owner ← ownerOf tokenId s
  return s.emit (.approval owner toAddress tokenId)

def setApprovalForAll (msg : Msg) (operator : Address) (approved : Bool) (s : State) :
    Result State := do
  require (msg.sender ≠ operator) "ERC721: approve to caller"
  let s := s.setOperatorApproval msg.sender operator approved
  return s.emit (.approvalForAll msg.sender operator approved)

/-! ## What each function does -/

attribute [simp] State.emit State.setOwner State.setBalance State.setTokenApproval
  State.setOperatorApproval

/-- The spender may move the token: it is the owner, an operator of the owner,
or approved for the token. -/
def State.Authorised (spender : Address) (tokenId : ℕ) (s : State) : Prop :=
  spender = s.owners tokenId ∨ s.operatorApprovals (s.owners tokenId) spender = true ∨
    s.tokenApprovals tokenId = spender

/-- The balances after a token went from one account to the other. -/
def State.balancesAfter (fromAddress toAddress : Address) (s : State) : Address → ℕ :=
  let balances := Function.update s.balances fromAddress
    (uncheckedDecr (s.balances fromAddress))
  Function.update balances toAddress (uncheckedIncr (balances toAddress))

namespace State

/-- After a mint. -/
@[simp] def tokenMinted (a : Address) (tokenId : ℕ) (s : State) : State :=
  { s with
    balances := Function.update s.balances a (uncheckedIncr (s.balances a))
    owners := Function.update s.owners tokenId a
    events := s.events ++ [.transfer zeroAddress a tokenId] }

/-- After a transfer. -/
@[simp] def tokenMoved (a b : Address) (tokenId : ℕ) (s : State) : State :=
  { s with
    tokenApprovals := Function.update s.tokenApprovals tokenId zeroAddress
    balances := s.balancesAfter a b
    owners := Function.update s.owners tokenId b
    events := s.events ++ [.transfer a b tokenId] }

/-- After an approval for one token. -/
@[simp] def tokenApproved (b : Address) (tokenId : ℕ) (s : State) : State :=
  { s with
    tokenApprovals := Function.update s.tokenApprovals tokenId b
    events := s.events ++ [.approval (s.owners tokenId) b tokenId] }

/-- After the approval of an operator, or its withdrawal. -/
@[simp] def operatorSet (owner operator : Address) (approved : Bool) (s : State) : State :=
  { s with
    operatorApprovals := Function.update s.operatorApprovals owner
      (Function.update (s.operatorApprovals owner) operator approved)
    events := s.events ++ [.approvalForAll owner operator approved] }

end State

variable {msg : Msg} {a b owner : Address} {tokenId : ℕ} {s s' : State}

theorem ownerOf_ok_iff : ownerOf tokenId s = .ok owner ↔
    owner ≠ zeroAddress ∧ s.owners tokenId = owner := by
  constructor
  · intro h
    rcases of_require_bind_ok h with ⟨hne, h⟩
    obtain rfl : s.owners tokenId = owner := Except.ok.inj h
    exact ⟨hne, rfl⟩
  · rintro ⟨hne, rfl⟩
    exact require_bind_of_pos hne _ _

theorem tokenExists_eq_true_iff :
    tokenExists tokenId s = true ↔ s.owners tokenId ≠ zeroAddress := by
  simp [tokenExists]

theorem tokenExists_eq_false_iff :
    tokenExists tokenId s = false ↔ s.owners tokenId = zeroAddress := by
  simp [tokenExists]

theorem getApproved_ok_iff : getApproved tokenId s = .ok b ↔
    s.owners tokenId ≠ zeroAddress ∧ s.tokenApprovals tokenId = b := by
  constructor
  · intro h
    rcases of_require_bind_ok h with ⟨hexists, h⟩
    exact ⟨tokenExists_eq_true_iff.mp hexists, Except.ok.inj h⟩
  · rintro ⟨hexists, rfl⟩
    exact require_bind_of_pos (tokenExists_eq_true_iff.mpr hexists) _ _

theorem isApprovedOrOwner_ok_iff : isApprovedOrOwner a tokenId s = .ok true ↔
    s.owners tokenId ≠ zeroAddress ∧ s.Authorised a tokenId := by
  have hdecide : (decide (a = s.owners tokenId) || isApprovedForAll (s.owners tokenId) a s ||
      decide (s.tokenApprovals tokenId = a)) = true ↔ s.Authorised a tokenId := by
    simp [State.Authorised, isApprovedForAll, or_assoc]
  constructor
  · intro h
    rcases of_bind_ok h with ⟨owner, howner, h⟩
    rcases of_bind_ok h with ⟨approved, happroved, h⟩
    rcases ownerOf_ok_iff.mp howner with ⟨hexists, rfl⟩
    rcases getApproved_ok_iff.mp happroved with ⟨_, rfl⟩
    exact ⟨hexists, hdecide.mp (Except.ok.inj h)⟩
  · rintro ⟨hexists, hauth⟩
    unfold isApprovedOrOwner
    rw [bind_of_ok (ownerOf_ok_iff.mpr ⟨hexists, rfl⟩),
      bind_of_ok (getApproved_ok_iff.mpr ⟨hexists, rfl⟩), hdecide.mpr hauth]
    rfl

theorem mint_ok_iff : mint a tokenId s = .ok s' ↔
    a ≠ zeroAddress ∧ s.owners tokenId = zeroAddress ∧ s' = s.tokenMinted a tokenId := by
  constructor
  · intro h
    rcases of_require_bind_ok h with ⟨hzero, h⟩
    rcases of_require_bind_ok h with ⟨hfree, h⟩
    rcases of_require_bind_ok h with ⟨_, h⟩
    exact ⟨hzero, tokenExists_eq_false_iff.mp hfree, (Except.ok.inj h).symm⟩
  · rintro ⟨hzero, hfree, rfl⟩
    have hnot := tokenExists_eq_false_iff.mpr hfree
    unfold mint
    rw [require_bind_of_pos hzero, require_bind_of_pos hnot, require_bind_of_pos hnot]
    rfl

theorem transfer_ok_iff : transfer a b tokenId s = .ok s' ↔
    s.owners tokenId = a ∧ a ≠ zeroAddress ∧ b ≠ zeroAddress ∧ s' = s.tokenMoved a b tokenId := by
  constructor
  · intro h
    rcases of_bind_ok h with ⟨owner, howner, h⟩
    rcases of_require_bind_ok h with ⟨rfl, h⟩
    rcases of_require_bind_ok h with ⟨hzero, h⟩
    rcases of_bind_ok h with ⟨_, _, h⟩
    rcases of_require_bind_ok h with ⟨_, h⟩
    rcases ownerOf_ok_iff.mp howner with ⟨hexists, howner⟩
    exact ⟨howner, hexists, hzero, (Except.ok.inj h).symm⟩
  · rintro ⟨howner, hexists, hzero, rfl⟩
    have hread := ownerOf_ok_iff.mpr ⟨hexists, howner⟩
    unfold transfer
    rw [bind_of_ok hread, require_bind_of_pos rfl, require_bind_of_pos hzero, bind_of_ok hread,
      require_bind_of_pos rfl]
    rfl

theorem transferFrom_ok_iff : transferFrom msg a b tokenId s = .ok s' ↔
    s.Authorised msg.sender tokenId ∧ s.owners tokenId = a ∧ a ≠ zeroAddress ∧
      b ≠ zeroAddress ∧ s' = s.tokenMoved a b tokenId := by
  constructor
  · intro h
    rcases of_bind_ok h with ⟨authorised, hauth, h⟩
    rcases of_require_bind_ok h with ⟨rfl, h⟩
    exact ⟨(isApprovedOrOwner_ok_iff.mp hauth).2, transfer_ok_iff.mp h⟩
  · rintro ⟨hauth, howner, hexists, hzero, rfl⟩
    have hasked := isApprovedOrOwner_ok_iff.mpr ⟨howner ▸ hexists, hauth⟩
    have hmoved := transfer_ok_iff.mpr ⟨howner, hexists, hzero, rfl⟩
    unfold transferFrom
    rw [bind_of_ok hasked, require_bind_of_pos rfl]
    exact hmoved

theorem approve_ok_iff : approve msg b tokenId s = .ok s' ↔
    s.owners tokenId ≠ zeroAddress ∧ b ≠ s.owners tokenId ∧
      (msg.sender = s.owners tokenId ∨
        isApprovedForAll (s.owners tokenId) msg.sender s = true) ∧
      s' = s.tokenApproved b tokenId := by
  constructor
  · intro h
    rcases of_bind_ok h with ⟨owner, howner, h⟩
    rcases of_require_bind_ok h with ⟨hne, h⟩
    rcases of_require_bind_ok h with ⟨hauth, h⟩
    rcases of_bind_ok h with ⟨owner', howner', h⟩
    rcases ownerOf_ok_iff.mp howner with ⟨hexists, rfl⟩
    rcases ownerOf_ok_iff.mp howner' with ⟨_, rfl⟩
    exact ⟨hexists, hne, hauth, (Except.ok.inj h).symm⟩
  · rintro ⟨hexists, hne, hauth, rfl⟩
    have hread := ownerOf_ok_iff.mpr ⟨hexists, rfl⟩
    have hread' : ownerOf tokenId (s.setTokenApproval tokenId b) = .ok (s.owners tokenId) :=
      ownerOf_ok_iff.mpr ⟨hexists, rfl⟩
    unfold approve
    rw [bind_of_ok hread, require_bind_of_pos hne, require_bind_of_pos hauth]
    exact bind_of_ok hread' _

theorem setApprovalForAll_ok_iff {operator : Address} {approved : Bool} :
    setApprovalForAll msg operator approved s = .ok s' ↔
      msg.sender ≠ operator ∧ s' = s.operatorSet msg.sender operator approved := by
  constructor
  · intro h
    rcases of_require_bind_ok h with ⟨hne, h⟩
    exact ⟨hne, (Except.ok.inj h).symm⟩
  · rintro ⟨hne, rfl⟩
    exact require_bind_of_pos hne _ _

end Yes3.ERC721
