import Yes3.LyonTemplate.MintLog

/-!
# Yes3.LyonTemplate.OwnerIndex — the templates of an owner

Who owns a template is stored by the token contract (owners and balances), and
for the views of the template contract in the list `_templateByAddress`. A mint
writes both. The transfers that the template contract inherits write the owners
and the balances only, and nothing hooks into them.

* `IndexExact` says that the lists follow the owners.
* `index_exact_until_transfer`: it holds until a transfer gives a token to
  another account (or the balance of a minter comes round), and each such call
  breaks it, if its callback does nothing. What one call breaks, calls from its
  callback may mend: the token may be given back.
-/

namespace Yes3.LyonTemplate

open CallTree
open LyonPrompt (Receiver Received alice bob)

/-- The lists of the owners as their view is meant to be read. -/
structure IndexExact (w : World) : Prop where
  nodup : ∀ a, a ≠ zeroAddress → (queryAllTemplatesByAddress a w).Nodup
  mem : ∀ a, a ≠ zeroAddress → ∀ id,
    id ∈ queryAllTemplatesByAddress a w ↔ ownerOf id w = .ok a
  balance : ∀ a, a ≠ zeroAddress →
    balanceOf a w = .ok (queryAllTemplatesByAddress a w).length

/-- From whom, to whom and which token, if the call is a transfer. -/
def Op.transfers : Op → Option (Address × Address × ℕ)
  | .transferFrom a b tokenId => some (a, b, tokenId)
  | .safeTransferFrom a b tokenId _ => some (a, b, tokenId)
  | _ => none

/-- The call gives no token to another account than its owner. -/
def KeepsOwner (c : Call) (w : World) : Prop :=
  ∀ a b tokenId, c.op.transfers = some (a, b, tokenId) → b = w.owners tokenId

/-- Neither does it mint to an account whose balance is at its maximum. -/
def KeepsIndex (c : Call) (w : World) : Prop :=
  KeepsOwner c w ∧ (c.mints = true → w.balances c.msg.sender + 1 < 2 ^ 256)

variable {w w' : World} {c : Call}

theorem keepsOwner_of_no_transfer (h : c.op.transfers = none) : KeepsOwner c w := by
  intro a b tokenId htransfers
  rw [h] at htransfers
  cases htransfers

theorem keepsIndex_of_quiet (h : c.op.transfers = none) (hc : c.mints = false) :
    KeepsIndex c w := by
  refine ⟨keepsOwner_of_no_transfer h, ?_⟩
  intro hmints
  rw [hc] at hmints
  cases hmints

theorem ownerOf_eq_ok_iff {id : ℕ} {a : Address} (ha : a ≠ zeroAddress) :
    ownerOf id w = .ok a ↔ w.owners id = a := by
  unfold ownerOf
  rw [ERC721.ownerOf_ok_iff]
  exact and_iff_right ha

theorem balanceOf_eq_ok_iff {a : Address} {n : ℕ} (ha : a ≠ zeroAddress) :
    balanceOf a w = .ok n ↔ w.balances a = n := by
  unfold balanceOf ERC721.balanceOf
  rw [require_bind_of_pos ha]
  simp [pure, Except.pure]

/-! ## Balances -/

theorem uncheckedIncr_lt (n : ℕ) : uncheckedIncr n < 2 ^ 256 :=
  Nat.mod_lt _ (Nat.two_pow_pos 256)

theorem uncheckedIncr_of_lt {n : ℕ} (h : n + 1 < 2 ^ 256) : uncheckedIncr n = n + 1 :=
  Nat.mod_eq_of_lt h

/-- A token taken and given back. -/
theorem uncheckedIncr_uncheckedDecr {n : ℕ} (h : n < 2 ^ 256) :
    uncheckedIncr (uncheckedDecr n) = n := by
  unfold uncheckedIncr uncheckedDecr
  omega

/-- The balances are `uint256`. -/
def BalanceBound (w : World) : Prop :=
  ∀ a, w.balances a < 2 ^ 256

theorem Step.balanceBound (hstep : Step w c w') (h : BalanceBound w) : BalanceBound w' := by
  intro x
  cases hstep with
  | @mintTemplate msg question context uri rs hzero hfree =>
      by_cases hx : x = msg.sender
      · subst hx
        simpa [World.logged, World.halfMinted] using uncheckedIncr_lt _
      · simpa [World.logged, World.halfMinted, hx] using h x
  | @transfer msg op a b tokenId rs hop hauth howner hexists hzero =>
      have hdecr : uncheckedDecr (w.balances a) < 2 ^ 256 := Nat.mod_lt _ (Nat.two_pow_pos 256)
      by_cases hb : x = b
      · subst hb
        simpa [ERC721.State.balancesAfter] using uncheckedIncr_lt _
      · by_cases ha : x = a
        · subst ha
          simpa [ERC721.State.balancesAfter, hb] using hdecr
        · simpa [ERC721.State.balancesAfter, ha, hb] using h x
  | _ => exact h x

theorem Reachable.balanceBound (h : Reachable w) : BalanceBound w := by
  refine (Observed.invariant (X := BalanceBound) (fun _ _ _ _ _ _ _ _ => trivial) ?_ good_init ?_
    h).2
  · intro v c v' hv _ hstep
    exact hstep.balanceBound hv
  · intro a
    exact Nat.two_pow_pos 256

/-- A transfer of a token to its owner leaves the owners and the balances as they
were. -/
theorem tokenMoved_self {s : ERC721.State} {a : Address} {tokenId : ℕ}
    (howner : s.owners tokenId = a) (hbound : s.balances a < 2 ^ 256) :
    (s.tokenMoved a a tokenId).owners = s.owners ∧
    (s.tokenMoved a a tokenId).balances = s.balances := by
  constructor
  · simp only [ERC721.State.tokenMoved]
    exact Function.update_eq_self_iff.mpr howner.symm
  · simp [ERC721.State.balancesAfter, uncheckedIncr_uncheckedDecr hbound]

/-! ## The index, account by account -/

/-- The list of one account follows the owners. -/
structure AccountExact (a : Address) (w : World) : Prop where
  nodup : (w.templateByAddress a).Nodup
  mem : ∀ id, id ∈ w.templateByAddress a ↔ w.owners id = a
  balance : w.balances a = (w.templateByAddress a).length

theorem indexExact_iff : IndexExact w ↔ ∀ a, a ≠ zeroAddress → AccountExact a w := by
  constructor
  · intro h a ha
    refine ⟨h.nodup a ha, ?_, (balanceOf_eq_ok_iff ha).mp (h.balance a ha)⟩
    intro id
    rw [← ownerOf_eq_ok_iff ha]
    exact h.mem a ha id
  · intro h
    refine ⟨fun a ha => (h a ha).nodup, ?_,
      fun a ha => (balanceOf_eq_ok_iff ha).mpr (h a ha).balance⟩
    intro a ha id
    rw [ownerOf_eq_ok_iff ha]
    exact (h a ha).mem id

/-- A call that leaves the list, the owners and the balances alone. -/
theorem AccountExact.of_eq {a : Address} (h : AccountExact a w)
    (hlists : w'.templateByAddress = w.templateByAddress) (howners : w'.owners = w.owners)
    (hbalances : w'.balances = w.balances) : AccountExact a w' where
  nodup := by rw [hlists]; exact h.nodup
  mem := by rw [hlists, howners]; exact h.mem
  balance := by rw [hlists, hbalances]; exact h.balance

/-- A mint appends the new token to the list of its minter, and to no other. -/
theorem AccountExact.mintTemplate {a : Address} (h : AccountExact a w) (ha : a ≠ zeroAddress)
    {msg : Msg} {question context uri : String} (rs : List Received)
    (hfree : w.owners w.templateId = zeroAddress) (hmax : w.balances msg.sender + 1 < 2 ^ 256) :
    AccountExact a ((w.halfMinted ⟨msg, .mintTemplate question context uri⟩ rs).logged
      msg question context uri) := by
  have hnew : w.templateId ∉ w.templateByAddress a := by
    intro hmem
    have howner := (h.mem _).mp hmem
    exact ha (howner.symm.trans hfree)
  by_cases hmsg : a = msg.sender
  · subst hmsg
    constructor <;> simp only [World.logged, World.halfMinted, Function.update_self]
    case nodup =>
      rw [List.nodup_append]
      refine ⟨h.nodup, List.nodup_singleton _, ?_⟩
      intro id hid id' hid' heq
      rw [List.mem_singleton.mp hid'] at heq
      exact hnew (heq ▸ hid)
    case mem =>
      intro id
      by_cases hid : id = w.templateId
      · simp [hid]
      · simp [hid, h.mem id]
    case balance =>
      -- below the bound the balance does not come round
      rw [h.balance] at hmax
      simp [h.balance, uncheckedIncr_of_lt hmax]
  · constructor <;> simp only [World.logged, World.halfMinted, Function.update_of_ne hmsg]
    case nodup => exact h.nodup
    case mem =>
      intro id
      by_cases hid : id = w.templateId
      · subst hid
        simp [hnew, Ne.symm hmsg]
      · simp [hid, h.mem id]
    case balance => simpa [hmsg] using h.balance

/-- A call that meets the condition keeps the index exact. -/
theorem Step.indexExact (hstep : Step w c w') (hbound : BalanceBound w) (hkeeps : KeepsIndex c w)
    (h : IndexExact w) : IndexExact w' := by
  rw [indexExact_iff] at h ⊢
  intro x hx
  cases hstep with
  | mintTemplate rs hzero hfree => exact (h x hx).mintTemplate hx rs hfree (hkeeps.2 rfl)
  | @transfer msg op a b tokenId rs hop hauth howner hexists hzero =>
      -- the token stays where it is
      have htransfers : op.transfers = some (a, b, tokenId) := by
        rcases hop with rfl | ⟨data, rfl⟩ <;> rfl
      obtain rfl : b = a := (hkeeps.1 a b tokenId htransfers).trans howner
      rcases tokenMoved_self howner (hbound b) with ⟨howners, hbalances⟩
      exact (h x hx).of_eq rfl howners hbalances
  | _ => exact (h x hx).of_eq rfl rfl rfl

/-- A call that does not meet the condition breaks it. -/
theorem Step.not_indexExact (hstep : Step w c w') (hbound : BalanceBound w)
    (hkeeps : ¬ KeepsIndex c w) (h : IndexExact w) : ¬ IndexExact w' := by
  rw [indexExact_iff] at h ⊢
  intro h'
  cases hstep with
  | @mintTemplate msg question context uri rs hzero hfree =>
      -- the balance comes round to zero, and the list does not
      have hmax : ¬ w.balances msg.sender + 1 < 2 ^ 256 := by
        intro hmax
        exact hkeeps ⟨keepsOwner_of_no_transfer rfl, fun _ => hmax⟩
      have hround : uncheckedIncr (w.balances msg.sender) = 0 := by
        have hlt := hbound msg.sender
        unfold uncheckedIncr
        omega
      have hbalance := (h' msg.sender hzero).balance
      simp [World.logged, World.halfMinted, hround] at hbalance
  | @transfer msg op a b tokenId rs hop hauth howner hexists hzero =>
      -- the list of the old owner still has the token
      have htransfers : op.transfers = some (a, b, tokenId) := by
        rcases hop with rfl | ⟨data, rfl⟩ <;> rfl
      have hmints : Call.mints ⟨msg, op⟩ = false := by
        rcases hop with rfl | ⟨data, rfl⟩ <;> rfl
      have hne : b ≠ a := by
        rintro rfl
        apply hkeeps
        constructor
        · intro a' b' tokenId' h''
          obtain ⟨rfl, rfl, rfl⟩ : b = a' ∧ b = b' ∧ tokenId = tokenId' := by
            simpa [htransfers] using h''
          exact howner.symm
        · intro hmints'
          rw [hmints] at hmints'
          cases hmints'
      have hmem : tokenId ∈ w.templateByAddress a := ((h a hexists).mem tokenId).mpr howner
      have howner' := ((h' a hexists).mem tokenId).mp hmem
      simp [hne] at howner'
  | _ => exact hkeeps (keepsIndex_of_quiet rfl rfl)

/-! ## Runs -/

/-- A call made where nothing is pending is a step. -/
theorem dispatch_step {recv : Receiver} (h : dispatch c recv id w = .ok w') : Step w c w' := by
  rcases phases.of_run_ok h with hdone | ⟨w₁, hout, hafter⟩
  · exact beforeCallback_step hdone
  · rcases afterCallback_ok_iff.mp hafter with ⟨_, rfl⟩
    exact beforeCallback_step hout

/-- **The index follows the owners until a transfer gives a token away.** In runs
whose calls, nested ones included, give no token to another account and mint to no
account with the maximal balance, the index is exact in every world between two
calls. And from any such world in which it is exact, a call whose callback does
nothing keeps it exact if and only if it meets this condition. -/
theorem index_exact_until_transfer (w : World) :
    (ReachableVia KeepsIndex w → IndexExact w) ∧
    (Reachable w → IndexExact w → ∀ c recv w', dispatch c recv id w = .ok w' →
      (IndexExact w' ↔ KeepsIndex c w)) := by
  constructor
  · intro h
    have hboth : BalanceBound w ∧ IndexExact w := by
      refine (Observed.invariant (X := fun v => BalanceBound v ∧ IndexExact v) ?_ ?_ good_init ?_
        h).2
      · rintro c v msg question context uri hc ⟨howner, _⟩
        exact ⟨howner, fun hmints => absurd hmints (by simp [hc])⟩
      · rintro v c v' ⟨hbound, hexact⟩ hkeeps hstep
        exact ⟨hstep.balanceBound hbound, hstep.indexExact hbound hkeeps hexact⟩
      · refine ⟨fun a => Nat.two_pow_pos 256, indexExact_iff.mpr ?_⟩
        intro a ha
        exact ⟨List.nodup_nil, fun id => by simp [World.init, Ne.symm ha], rfl⟩
    exact hboth.2
  · intro h hexact c recv w' hx
    have hstep := dispatch_step hx
    have hbound := Reachable.balanceBound h
    constructor
    · intro hexact'
      by_contra hkeeps
      exact hstep.not_indexExact hbound hkeeps hexact hexact'
    · intro hkeeps
      exact hstep.indexExact hbound hkeeps hexact

/-- Alice mints two templates and transfers one of them to herself. -/
def selfTransferTxs : List Tx :=
  [callTx alice 1 (.mintTemplate "q" "c" "u"), callTx alice 2 (.mintTemplate "q" "c" "v"),
    callTx alice 3 (.transferFrom alice alice 1)]

theorem index_exact_self_transfer : IndexExact (worldAfter selfTransferTxs) := by
  have hmint : ∀ q c u t w, w.balances alice + 1 < 2 ^ 256 →
      KeepsIndex ⟨⟨alice, t⟩, .mintTemplate q c u⟩ w := by
    intro q c u t w hmax
    exact ⟨keepsOwner_of_no_transfer rfl, fun _ => hmax⟩
  have hmove : KeepsIndex ⟨⟨alice, 3⟩, .transferFrom alice alice 1⟩
      (worldAfter (selfTransferTxs.take 2)) := by
    refine ⟨?_, fun hmints => (nomatch hmints)⟩
    intro a b tokenId hop
    obtain ⟨rfl, rfl, rfl⟩ : alice = a ∧ alice = b ∧ 1 = tokenId := by
      simpa [Op.transfers] using hop
    decide +kernel
  have hreach : ReachableVia KeepsIndex (worldAfter selfTransferTxs) :=
    reachableVia_worldAfter ⟨fun _ => ⟨hmint _ _ _ _ _ (by decide +kernel), fun _ _ => trivial⟩,
      fun _ => ⟨hmint _ _ _ _ _ (by decide +kernel), fun _ _ => trivial⟩,
      fun _ => ⟨hmove, fun _ _ => trivial⟩, trivial⟩
  exact (index_exact_until_transfer _).1 hreach

/-- Alice mints a template and gives it to Bob. -/
def giveawayTxs : List Tx :=
  [callTx alice 1 (.mintTemplate "q" "c" "u"), callTx alice 2 (.transferFrom alice bob 1)]

/-- After the transfer Alice's list still has the token, and Bob's has nothing. -/
theorem index_stale_after_transfer :
    Reachable (worldAfter giveawayTxs) ∧
    ownerOf 1 (worldAfter giveawayTxs) = .ok bob ∧
    balanceOf alice (worldAfter giveawayTxs) = .ok 0 ∧
    queryAllTemplatesByAddress alice (worldAfter giveawayTxs) = [1] ∧
    queryAllTemplatesByAddress bob (worldAfter giveawayTxs) = [] ∧
    ¬ ∀ w, Reachable w → IndexExact w := by
  have hreach := reachable_worldAfter giveawayTxs
  have howner : ownerOf 1 (worldAfter giveawayTxs) = .ok bob := by
    decide +kernel
  have hlist : queryAllTemplatesByAddress bob (worldAfter giveawayTxs) = [] := by
    decide +kernel
  refine ⟨hreach, howner, by decide +kernel, by decide +kernel, hlist, ?_⟩
  intro hall
  have hbob := ((hall _ hreach).mem bob (by decide) 1).mpr howner
  rw [hlist] at hbob
  cases hbob

end Yes3.LyonTemplate
