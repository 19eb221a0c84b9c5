import Mathlib.Data.Set.Card
import Mathlib.Order.Interval.Finset.Nat
import Yes3.LyonPrompt.Lifecycle

/-!
# Yes3.LyonPrompt.Supply — the supply of a template

`totalSupply` is documented as the number of tokens in existence, which a burn
reduces. It reads `_currentIndex`, which is the number of ids given out, and
which a burn does not touch.

* `supplyExact_iff_no_burned`: the two numbers agree exactly in the worlds in
  which no slot is in the phase `burned`.
* `supply_exact_until_live_burn`: so the documented law holds until a live
  prompt is burned, and from then on it never holds again.
-/

namespace Yes3.LyonPrompt

/-- The ids under a template of the prompts in existence. -/
def liveIds (t : ℕ) (w : World) : Set ℕ :=
  {id | (w.prompt ⟨t, id⟩).promptOwner ≠ zeroAddress}

/-- The documented law: the supply of a template is the number of its prompts
in existence. -/
def SupplyExact (w : World) : Prop :=
  ∀ t, totalSupply t w = (liveIds t w).ncard

variable {w w' : World}

/-- The ids given out under a template. -/
def issuedIds (t : ℕ) (w : World) : Finset ℕ :=
  Finset.Icc 1 (w.currentIndex t)

theorem mem_issuedIds {t id : ℕ} : id ∈ issuedIds t w ↔ w.Issued ⟨t, id⟩ := by
  simp [issuedIds, World.Issued]

theorem totalSupply_eq_card (t : ℕ) (w : World) : totalSupply t w = (issuedIds t w).card := by
  simp [issuedIds, totalSupply]

theorem OwnerInv.liveIds_subset (hinv : OwnerInv w) (t : ℕ) :
    liveIds t w ⊆ ↑(issuedIds t w) := by
  intro id hid
  exact mem_issuedIds.mpr (hinv.owned ⟨t, id⟩ hid)

/-- The supply is exact when every id given out is live: it counts them all. -/
theorem OwnerInv.supplyExact_iff_issued_live (hinv : OwnerInv w) :
    SupplyExact w ↔ ∀ p, w.Issued p → (w.prompt p).promptOwner ≠ zeroAddress := by
  constructor
  · rintro h ⟨t, id⟩ hissued hzero
    -- an id that is given out and not live makes the live ones fewer
    have hne : liveIds t w ≠ ↑(issuedIds t w) := by
      intro heq
      have hid : id ∈ liveIds t w := heq ▸ mem_issuedIds.mpr hissued
      exact hid hzero
    have hlt : (liveIds t w).ncard < (issuedIds t w).card := by
      rw [← Set.ncard_coe_finset]
      exact Set.ncard_lt_ncard ((hinv.liveIds_subset t).ssubset_of_ne hne)
        (Finset.finite_toSet _)
    have hsupply := h t
    rw [totalSupply_eq_card] at hsupply
    omega
  · intro h t
    have heq : liveIds t w = ↑(issuedIds t w) := by
      apply (hinv.liveIds_subset t).antisymm
      intro id hid
      exact h ⟨t, id⟩ (mem_issuedIds.mp hid)
    rw [heq, Set.ncard_coe_finset, totalSupply_eq_card]

theorem supplyExact_iff_no_burned (hinv : OwnerInv w) :
    SupplyExact w ↔ ∀ p, w.phase p ≠ .burned := by
  rw [hinv.supplyExact_iff_issued_live]
  constructor
  · intro h p hburned
    rcases burned_of_phase hburned with ⟨hzero, hissued⟩
    exact h p hissued hzero
  · intro h p hissued hzero
    exact h p (phase_burned hzero hissued)

/-! ## Runs -/

/-- A burned slot stays burned. -/
theorem phase_burned_of_reachableFrom (hinv : OwnerInv w) {p : Prompt} (hp : w.phase p = .burned)
    (h : ReachableFrom (fun _ _ => True) w w') : w'.phase p = .burned := by
  have hboth : OwnerInv w' ∧ w'.phase p = .burned := by
    refine ReachableFrom.induction (P := fun v => OwnerInv v ∧ v.phase p = .burned)
      ⟨hinv, hp⟩ ?_ h
    rintro v c v' _ ⟨hv, hburned⟩ _ hstep
    refine ⟨hstep.ownerInv hv, ?_⟩
    rcases hstep.phase hv p with hsame | hnext
    · exact hsame.trans hburned
    · rw [hburned] at hnext
      cases hnext
  exact hboth.2

/-- A call that burns no live prompt makes no slot burned. -/
theorem Step.no_burned {c : Call} (hstep : Step w c w') (hinv : OwnerInv w)
    (hg : NoLiveBurn c w) (h : ∀ p, w.phase p ≠ .burned) : ∀ p, w'.phase p ≠ .burned := by
  intro p hburned
  rcases hstep.phase hinv p with hsame | hnext
  · exact h p (hsame ▸ hburned)
  · -- the slot was live, so it is this call that burns it
    rw [hburned] at hnext
    have hlive : w.phase p = .live := by
      generalize w.phase p = before at hnext
      cases hnext
      rfl
    have howner := live_of_phase hlive
    have hzero := (burned_of_phase hburned).1
    have hchanged : (w'.prompt p).promptOwner ≠ (w.prompt p).promptOwner := by
      rw [hzero]
      exact Ne.symm howner
    rcases hstep.owner_law p hchanged with ⟨_, hunowned, _⟩ | ⟨hop, _⟩
    · exact howner hunowned
    · exact howner (hg p hop)

/-- **The documented supply law holds until a live prompt is burned.** In runs
whose calls burn no live prompt, the supply is exact in every observable world,
and a burn leaves it as it is. A call that burns a live prompt leaves the supply
as it was, and the law fails in every world observable from then on. -/
theorem supply_exact_until_live_burn (w : World) :
    (ReachableVia NoLiveBurn w → SupplyExact w ∧
      ∀ p w', burnPrompt p w = .ok w' → (w.prompt p).promptOwner = zeroAddress →
        ∀ t, totalSupply t w' = totalSupply t w) ∧
    (Reachable w → ∀ c recv w', dispatch c recv id w = .ok w' → ¬ NoLiveBurn c w →
      (∀ t, totalSupply t w' = totalSupply t w) ∧
      ∀ w'', ReachableFrom (fun _ _ => True) w' w'' → ¬ SupplyExact w'') := by
  constructor
  · intro h
    constructor
    · rw [supplyExact_iff_no_burned h.reachable.ownerInv]
      refine ReachableFrom.induction (P := fun v => ∀ p, v.phase p ≠ .burned) ?_ ?_ h
      · rintro ⟨t, id⟩
        simp [World.phase, World.init]
        omega
      · intro v c v' hv hP hg hstep
        exact hstep.no_burned (ReachableVia.reachable hv).ownerInv hg hP
    · intro p w' hburn _ t
      obtain rfl := Except.ok.inj ((burnPrompt_eq p w).symm.trans hburn)
      rfl
  · intro h c recv w' hx hlive
    have hinv := h.ownerInv
    have hstep := dispatch_step hx
    have hinv' := hstep.ownerInv hinv
    obtain ⟨p, hop, hp⟩ := of_not_noLiveBurn hlive
    rcases c with ⟨msg, op⟩
    obtain rfl : op = .burnPrompt p := hop
    have howner : (w'.prompt p).promptOwner = zeroAddress := by
      rw [hstep.promptOwner_eq p]
      exact if_pos rfl
    have hburned : w'.phase p = .burned :=
      phase_burned howner (hstep.issued (hinv.owned p hp))
    constructor
    · intro t
      cases hstep
      rfl
    · intro w'' hfrom hexact
      -- no call brings the prompt back, and the supply goes on counting it
      have hinv'' : OwnerInv w'' :=
        ReachableFrom.induction hinv' (fun _ _ _ _ hi _ hs => hs.ownerInv hi) hfrom
      exact (supplyExact_iff_no_burned hinv'').mp hexact p
        (phase_burned_of_reachableFrom hinv' hburned hfrom)

/-- Two mints and the burn of an id that was never minted. -/
def mintAndBurnUnmintedTxs : List Tx :=
  [callTx alice 1 (.safeMint 0 "q" "c" alice "u"), callTx alice 2 (.burnPrompt ⟨0, 5⟩),
    callTx alice 3 (.safeMint 0 "q" "c" bob "u")]

theorem supply_exact_after_burn_of_unminted :
    SupplyExact (worldAfter mintAndBurnUnmintedTxs) := by
  have hunminted : NoLiveBurn ⟨⟨alice, 2⟩, .burnPrompt ⟨0, 5⟩⟩
      (worldAfter [callTx alice 1 (.safeMint 0 "q" "c" alice "u")]) := by
    intro p hp
    obtain rfl : (⟨0, 5⟩ : Prompt) = p := by
      injection hp
    decide +kernel
  have hreach : ReachableVia NoLiveBurn (worldAfter mintAndBurnUnmintedTxs) :=
    reachableVia_worldAfter ⟨meets_callTx fun _ h => (nomatch h), meets_callTx hunminted,
      meets_callTx fun _ h => (nomatch h), trivial⟩
  exact ((supply_exact_until_live_burn _).1 hreach).1

/-- Alice mints a prompt and burns it: the supply stays one, and no prompt
exists. -/
theorem supply_stale_after_burn :
    Reachable (worldAfter mintAndBurnTxs) ∧
    totalSupply 0 (worldAfter mintAndBurnTxs) = 1 ∧
    liveIds 0 (worldAfter mintAndBurnTxs) = ∅ ∧
    ¬ ∀ w, Reachable w → SupplyExact w := by
  have hreach := reachable_worldAfter mintAndBurnTxs
  have hsupply : totalSupply 0 (worldAfter mintAndBurnTxs) = 1 := by
    decide +kernel
  have hburned : ((worldAfter mintAndBurnTxs).prompt ⟨0, 1⟩).promptOwner = zeroAddress := by
    decide +kernel
  have hnone : liveIds 0 (worldAfter mintAndBurnTxs) = ∅ := by
    -- the only id given out is 1
    apply Set.eq_empty_of_forall_notMem
    intro id hid
    have hissued := hreach.ownerInv.owned ⟨0, id⟩ hid
    have hone : id = 1 := by
      have hle := hissued.2
      have hpos := hissued.1
      change id ≤ totalSupply 0 (worldAfter mintAndBurnTxs) at hle
      rw [hsupply] at hle
      change 1 ≤ id at hpos
      omega
    subst hone
    exact hid hburned
  refine ⟨hreach, hsupply, hnone, ?_⟩
  intro hall
  have hexact := hall _ hreach 0
  rw [hsupply, hnone, Set.ncard_empty] at hexact
  cases hexact

end Yes3.LyonPrompt
