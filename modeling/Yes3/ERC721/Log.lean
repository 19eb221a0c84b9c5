import Mathlib.Data.List.Count
import Yes3.ERC721.Token
import Yes3.Rules.Holdings
import Yes3.Rules.Register

/-!
# Yes3.ERC721.Log — the event log as a ledger

Outside the chain the token contract is known by its events alone. Here a log is
read as a ledger: who has a token, who is approved for it, who is an operator of
whom, all by the last event that says so.

* `ValidLog` are the logs that make sense: a token goes to somebody, from whoever
  has it or, the first time, from nobody.
* `ValidLog.credits_eq` is the law of such a ledger: what an account has is what
  came in less what went out.
* `Replays` says that a storage is what its own log tells. Every function of the
  contract keeps it.
-/

namespace Yes3.ERC721

open Holdings

/-! ## Reading a log -/

/-- Who the event gives the token to, if it does. -/
def Event.gives (tokenId : ℕ) : Event → Option Address
  | .transfer _ b id => if id = tokenId then some b else none
  | _ => none

/-- Whom the event approves for the token. A transfer of the token approves nobody. -/
def Event.approves (tokenId : ℕ) : Event → Option Address
  | .transfer _ _ id => if id = tokenId then some zeroAddress else none
  | .approval _ b id => if id = tokenId then some b else none
  | .approvalForAll .. => none

/-- Whether the event makes the one an operator of the other, or withdraws it. -/
def Event.empowers (owner operator : Address) : Event → Option Bool
  | .approvalForAll o p approved => if o = owner ∧ p = operator then some approved else none
  | _ => none

/-- The event gives a token to the account. -/
def Event.credits (a : Address) : Event → Bool
  | .transfer _ b _ => b = a
  | _ => false

/-- The event takes a token from the account. -/
def Event.debits (a : Address) : Event → Bool
  | .transfer b _ _ => b = a
  | _ => false

/-- The event gives a token that nobody had. -/
def Event.issues : Event → Bool := Event.debits zeroAddress

def ownerIn (log : List Event) (tokenId : ℕ) : Address :=
  Register.after (Event.gives tokenId) zeroAddress log

def approvedIn (log : List Event) (tokenId : ℕ) : Address :=
  Register.after (Event.approves tokenId) zeroAddress log

def operatorIn (log : List Event) (owner operator : Address) : Bool :=
  Register.after (Event.empowers owner operator) false log

/-! ## Valid logs -/

/-- The event makes sense after the log. -/
inductive Event.Follows (log : List Event) : Event → Prop where
  | transfer {b : Address} {tokenId : ℕ} (hzero : b ≠ zeroAddress) :
      Follows log (.transfer (ownerIn log tokenId) b tokenId)
  | approval {b : Address} {tokenId : ℕ} (hexists : ownerIn log tokenId ≠ zeroAddress)
      (hother : b ≠ ownerIn log tokenId) :
      Follows log (.approval (ownerIn log tokenId) b tokenId)
  | approvalForAll {owner operator : Address} {approved : Bool} (hother : owner ≠ operator) :
      Follows log (.approvalForAll owner operator approved)

inductive ValidLog : List Event → Prop where
  | nil : ValidLog []
  | snoc {log : List Event} {e : Event} : ValidLog log → e.Follows log → ValidLog (log ++ [e])

section Snoc

variable (log : List Event) (a b : Address) (tokenId : ℕ) (approved : Bool)

@[simp] theorem ownerIn_transfer :
    ownerIn (log ++ [.transfer a b tokenId]) = Function.update (ownerIn log) tokenId b := by
  funext id
  rw [ownerIn, Register.after_snoc]
  by_cases hid : id = tokenId
  · simp [Event.gives, hid]
  · simp [Event.gives, hid, Ne.symm hid, ownerIn]

@[simp] theorem ownerIn_approval : ownerIn (log ++ [.approval a b tokenId]) = ownerIn log := by
  funext id
  exact Register.after_snoc _ _ _ _

@[simp] theorem ownerIn_approvalForAll :
    ownerIn (log ++ [.approvalForAll a b approved]) = ownerIn log := by
  funext id
  exact Register.after_snoc _ _ _ _

@[simp] theorem approvedIn_transfer :
    approvedIn (log ++ [.transfer a b tokenId])
      = Function.update (approvedIn log) tokenId zeroAddress := by
  funext id
  rw [approvedIn, Register.after_snoc]
  by_cases hid : id = tokenId
  · simp [Event.approves, hid]
  · simp [Event.approves, hid, Ne.symm hid, approvedIn]

@[simp] theorem approvedIn_approval :
    approvedIn (log ++ [.approval a b tokenId]) = Function.update (approvedIn log) tokenId b := by
  funext id
  rw [approvedIn, Register.after_snoc]
  by_cases hid : id = tokenId
  · simp [Event.approves, hid]
  · simp [Event.approves, hid, Ne.symm hid, approvedIn]

@[simp] theorem approvedIn_approvalForAll :
    approvedIn (log ++ [.approvalForAll a b approved]) = approvedIn log := by
  funext id
  exact Register.after_snoc _ _ _ _

@[simp] theorem operatorIn_transfer :
    operatorIn (log ++ [.transfer a b tokenId]) = operatorIn log := by
  funext owner operator
  exact Register.after_snoc _ _ _ _

@[simp] theorem operatorIn_approval :
    operatorIn (log ++ [.approval a b tokenId]) = operatorIn log := by
  funext owner operator
  exact Register.after_snoc _ _ _ _

@[simp] theorem operatorIn_approvalForAll :
    operatorIn (log ++ [.approvalForAll a b approved])
      = Function.update (operatorIn log) a (Function.update (operatorIn log a) b approved) := by
  funext owner operator
  rw [operatorIn, Register.after_snoc]
  by_cases ho : owner = a
  · subst ho
    by_cases hp : operator = b
    · simp [Event.empowers, hp]
    · simp [Event.empowers, hp, Ne.symm hp, operatorIn]
  · simp [Event.empowers, ho, Ne.symm ho, operatorIn]

end Snoc

variable {log : List Event} {a b : Address} {tokenId : ℕ} {s : State}

/-- Nobody is approved for a token that does not exist. -/
theorem ValidLog.approvedIn_eq_zero (h : ValidLog log) (hfree : ownerIn log tokenId = zeroAddress) :
    approvedIn log tokenId = zeroAddress := by
  induction h with
  | nil => rfl
  | snoc hlog he ih =>
      cases he with
      | @transfer b id hzero =>
          by_cases hid : tokenId = id
          · simp [hid]
          · simp only [ownerIn_transfer, Function.update_of_ne hid] at hfree
            simp [hid, ih hfree]
      | @approval b id hexists hother =>
          have hid : tokenId ≠ id := by
            rintro rfl
            exact hexists (by simpa using hfree)
          simp [hid, ih (by simpa using hfree)]
      | approvalForAll hother => simp [ih (by simpa using hfree)]

/-- **The law of the ledger**: what an account has is what came in less what went out. -/
theorem ValidLog.credits_eq (h : ValidLog log) (ha : a ≠ zeroAddress) :
    (heldBy (ownerIn log) a).Finite ∧
      log.countP (Event.credits a)
        = log.countP (Event.debits a) + (heldBy (ownerIn log) a).ncard := by
  induction h with
  | nil =>
      have hnone : heldBy (ownerIn []) a = ∅ := by
        ext id
        simp [ownerIn, Register.after, Ne.symm ha]
      simp [hnone]
  | @snoc log e hlog he ih =>
      obtain ⟨hfin, hcount⟩ := ih
      cases he with
      | @transfer b id hzero =>
          simp only [ownerIn_transfer, List.countP_append, List.countP_singleton]
          refine ⟨finite_update hfin id b, ?_⟩
          -- is it the new owner, the old one, both or neither?
          by_cases hb : b = a
          · subst hb
            by_cases ho : ownerIn log id = b
            · have hsame : Function.update (ownerIn log) id b = ownerIn log := by
                rw [← ho, Function.update_eq_self]
              simp [hsame, Event.credits, Event.debits, ho]
              omega
            · rw [ncard_update_gain hfin ho]
              simp [Event.credits, Event.debits, ho]
              omega
          · by_cases ho : ownerIn log id = a
            · have hlose := ncard_update_lose hfin ho (Ne.symm hb)
              simp [Event.credits, Event.debits, ho, hb]
              omega
            · rw [heldBy_update_of_ne_of_ne (Ne.symm hb) ho]
              simp [Event.credits, Event.debits, ho, hb]
              omega
      | approval hexists hother =>
          simpa [Event.credits, Event.debits] using ⟨hfin, hcount⟩
      | approvalForAll hother =>
          simpa [Event.credits, Event.debits] using ⟨hfin, hcount⟩

/-- The tokens that somebody has are those that were issued. -/
theorem ValidLog.issues_eq (h : ValidLog log) :
    {id | ownerIn log id ≠ zeroAddress}.Finite ∧
      log.countP Event.issues = {id | ownerIn log id ≠ zeroAddress}.ncard := by
  induction h with
  | nil =>
      have hnone : {id | ownerIn [] id ≠ zeroAddress} = ∅ := by
        ext id
        simp [ownerIn, Register.after]
      simp [hnone]
  | @snoc log e hlog he ih =>
      obtain ⟨hfin, hcount⟩ := ih
      cases he with
      | @transfer b id hzero =>
          have hset : {id' | ownerIn (log ++ [.transfer (ownerIn log id) b id]) id' ≠ zeroAddress}
              = insert id {id' | ownerIn log id' ≠ zeroAddress} := by
            ext id'
            by_cases hid : id' = id
            · simp [hid, hzero]
            · simp [hid]
          rw [hset, List.countP_append, hcount]
          refine ⟨hfin.insert id, ?_⟩
          by_cases ho : ownerIn log id = zeroAddress
          · have hnew : id ∉ {id' | ownerIn log id' ≠ zeroAddress} := fun h => h ho
            rw [Set.ncard_insert_of_notMem hnew hfin]
            simp [Event.issues, Event.debits, ho]
          · have hold : id ∈ {id' | ownerIn log id' ≠ zeroAddress} := ho
            rw [Set.ncard_insert_of_mem hold]
            simp [Event.issues, Event.debits, ho]
      | approval hexists hother =>
          simpa [Event.issues, Event.debits] using ⟨hfin, hcount⟩
      | approvalForAll hother =>
          simpa [Event.issues, Event.debits] using ⟨hfin, hcount⟩

/-! ## The storage -/

/-- The storage is what its log tells. -/
structure Replays (s : State) : Prop where
  valid : ValidLog s.events
  owners : s.owners = ownerIn s.events
  approvals : s.tokenApprovals = approvedIn s.events
  operators : s.operatorApprovals = operatorIn s.events
  /-- A balance is the number of the tokens owned, on a counter of 256 bits. -/
  balances : ∀ a, a ≠ zeroAddress → s.balances a = (heldBy s.owners a).ncard % 2 ^ 256

theorem replays_init : Replays {} where
  valid := .nil
  owners := rfl
  approvals := rfl
  operators := rfl
  balances := by
    intro a ha
    have hnone : heldBy (fun _ : ℕ => zeroAddress) a = ∅ := by
      ext id
      simp [Ne.symm ha]
    simp [hnone]

/-- Nobody has infinitely many tokens. -/
theorem Replays.finite (h : Replays s) (ha : a ≠ zeroAddress) : (heldBy s.owners a).Finite := by
  rw [h.owners]
  exact (h.valid.credits_eq ha).1

/-- In terms of the log, a balance is what came in less what went out. -/
theorem Replays.balances_eq (h : Replays s) (ha : a ≠ zeroAddress) :
    s.balances a
      = (s.events.countP (Event.credits a) - s.events.countP (Event.debits a)) % 2 ^ 256 := by
  rw [h.balances a ha, (h.valid.credits_eq ha).2, h.owners, Nat.add_sub_cancel_left]

theorem Replays.tokenMinted (h : Replays s) (ha : a ≠ zeroAddress)
    (hfree : s.owners tokenId = zeroAddress) : Replays (s.tokenMinted a tokenId) := by
  have howner : ownerIn s.events tokenId = zeroAddress := h.owners ▸ hfree
  constructor <;> dsimp only [State.tokenMinted]
  case valid =>
    have hfollows : Event.Follows s.events (.transfer (ownerIn s.events tokenId) a tokenId) :=
      .transfer ha
    rw [howner] at hfollows
    exact h.valid.snoc hfollows
  case owners => rw [ownerIn_transfer, h.owners]
  case approvals =>
    -- the mint writes no approval, and there was none
    rw [approvedIn_transfer, h.approvals, ← h.valid.approvedIn_eq_zero howner,
      Function.update_eq_self]
  case operators => rw [operatorIn_transfer, h.operators]
  case balances =>
    intro c hc
    by_cases hca : c = a
    · subst hca
      have hother : s.owners tokenId ≠ c := hfree.trans_ne (Ne.symm hc)
      rw [Function.update_self, ncard_update_gain (h.finite hc) hother, h.balances c hc,
        uncheckedIncr, Nat.mod_add_mod]
    · have hother : s.owners tokenId ≠ c := hfree.trans_ne (Ne.symm hc)
      rw [Function.update_of_ne hca, heldBy_update_of_ne_of_ne hca hother]
      exact h.balances c hc

theorem Replays.tokenMoved (h : Replays s) (ha : a ≠ zeroAddress) (howner : s.owners tokenId = a)
    (hb : b ≠ zeroAddress) : Replays (s.tokenMoved a b tokenId) := by
  have howner' : ownerIn s.events tokenId = a := h.owners ▸ howner
  constructor <;> dsimp only [State.tokenMoved]
  case valid =>
    have hfollows : Event.Follows s.events (.transfer (ownerIn s.events tokenId) b tokenId) :=
      .transfer hb
    rw [howner'] at hfollows
    exact h.valid.snoc hfollows
  case owners => rw [ownerIn_transfer, h.owners]
  case approvals => rw [approvedIn_transfer, h.approvals]
  case operators => rw [operatorIn_transfer, h.operators]
  case balances =>
    intro c hc
    unfold State.balancesAfter
    by_cases hab : a = b
    · -- the counter goes down and up again
      subst hab
      have hsame : Function.update s.owners tokenId a = s.owners := by
        rw [← howner, Function.update_eq_self]
      rw [hsame]
      by_cases hca : c = a
      · subst hca
        have hn := h.balances c hc
        simp only [Function.update_self, uncheckedIncr, uncheckedDecr]
        omega
      · simpa [hca] using h.balances c hc
    · by_cases hcb : c = b
      · subst hcb
        have hn := h.balances c hc
        rw [ncard_update_gain (h.finite hc) (howner.trans_ne hab)]
        simp only [Function.update_self, Function.update_of_ne (Ne.symm hab), uncheckedIncr]
        omega
      · by_cases hca : c = a
        · subst hca
          have hn := h.balances c hc
          have hlose := ncard_update_lose (h.finite hc) howner hab
          simp only [Function.update_self, Function.update_of_ne hcb, uncheckedDecr]
          omega
        · rw [heldBy_update_of_ne_of_ne hcb (howner.trans_ne (Ne.symm hca))]
          simpa [hca, hcb] using h.balances c hc

theorem Replays.tokenApproved (h : Replays s) (hexists : s.owners tokenId ≠ zeroAddress)
    (hother : b ≠ s.owners tokenId) : Replays (s.tokenApproved b tokenId) where
  valid := by
    dsimp only [State.tokenApproved]
    rw [h.owners] at hexists hother ⊢
    exact h.valid.snoc (.approval hexists hother)
  owners := by
    dsimp only [State.tokenApproved]
    rw [ownerIn_approval, h.owners]
  approvals := by
    dsimp only [State.tokenApproved]
    rw [approvedIn_approval, h.approvals]
  operators := by
    dsimp only [State.tokenApproved]
    rw [operatorIn_approval, h.operators]
  balances := h.balances

theorem Replays.operatorSet (h : Replays s) {operator : Address} (approved : Bool)
    (hother : a ≠ operator) : Replays (s.operatorSet a operator approved) where
  valid := h.valid.snoc (.approvalForAll hother)
  owners := by
    dsimp only [State.operatorSet]
    rw [ownerIn_approvalForAll, h.owners]
  approvals := by
    dsimp only [State.operatorSet]
    rw [approvedIn_approvalForAll, h.approvals]
  operators := by
    dsimp only [State.operatorSet]
    rw [operatorIn_approvalForAll, h.operators]
  balances := h.balances

end Yes3.ERC721
