import Mathlib.Data.Set.Card
import Yes3.LyonPrompt.Exec

/-!
# Yes3.LyonPrompt.OwnerIndex — the prompts of an owner

Who owns a prompt is stored twice: in the slot (`promptOwner`), and in the list
`_promptByOwner` of the owner. A mint writes both. `burnPrompt` deletes the slot
first and then looks for the owner in the deleted slot, so its loops walk the
list of the zero address, which is empty.

* `OwnerInv` is the inductive invariant. The list of the zero address stays
  empty, slots above the mint counter are unowned, every list names only ids
  given out, and a live prompt is listed once, by its owner.
* `live_prompt_listed_once`: no live prompt is ever lost from the index.
* `owner_index_exact_without_live_burns`: the converse, that every entry is a
  prompt its address still owns, holds until a live prompt is burned, and the
  burn of a live prompt always breaks it.
-/

namespace Yes3.LyonPrompt

/-- The id has been given out by a mint. -/
def World.Issued (p : Prompt) (w : World) : Prop :=
  1 ≤ p.id ∧ p.id ≤ w.currentIndex p.templateId

/-- The next slot has not been given out. -/
theorem not_issued_nextPrompt (t : ℕ) (w : World) : ¬ w.Issued (w.nextPrompt t) := by
  simp [World.Issued, World.nextPrompt]

/-- Ids are only ever given out. -/
theorem Step.issued {w w' : World} {c : Call} {p : Prompt} (h : Step w c w')
    (hp : w.Issued p) : w'.Issued p := by
  cases h with
  | @safeMint msg t question context a uri rs hzero hmax hfree =>
      refine ⟨hp.1, ?_⟩
      by_cases ht : p.templateId = t
      · have hle := hp.2
        simp only [World.minted, ht, Function.update_self] at hle ⊢
        omega
      · simpa [ht] using hp.2
  | replyPrompt _ => exact hp
  | burnReplies => exact hp
  | burnPrompt => exact hp
  | setTokenURI _ => exact hp

/-- After a mint the new slot is given out. -/
theorem issued_minted_next (msg : Msg) (t : ℕ) (question context : String) (a : Address)
    (uri : String) (w : World) :
    (w.minted msg t question context a uri).Issued (w.nextPrompt t) := by
  simp [World.Issued, World.nextPrompt]

/-! ## The invariant -/

structure OwnerInv (w : World) : Prop where
  /-- The zero address lists nothing. -/
  zero : w.promptByOwner zeroAddress = []
  /-- Only slots that have been given out are owned. -/
  owned : ∀ p, (w.prompt p).promptOwner ≠ zeroAddress → w.Issued p
  /-- Only slots that have been given out are listed. -/
  bound : ∀ a p, p ∈ w.promptByOwner a → w.Issued p
  /-- No list repeats an entry. -/
  nodup : ∀ a, (w.promptByOwner a).Nodup
  /-- No two lists share an entry. -/
  disjoint : ∀ a b p, p ∈ w.promptByOwner a → p ∈ w.promptByOwner b → a = b
  /-- A live prompt is in its owner's list. -/
  listed : ∀ p, (w.prompt p).promptOwner ≠ zeroAddress →
    p ∈ w.promptByOwner (w.prompt p).promptOwner

theorem ownerInv_init : OwnerInv World.init where
  zero := rfl
  owned := fun _ h => absurd rfl h
  bound := fun _ _ h => absurd h List.not_mem_nil
  nodup := fun _ => List.nodup_nil
  disjoint := fun _ _ _ h => absurd h List.not_mem_nil
  listed := fun _ h => absurd rfl h

/-- Who owns a slot after a mint. -/
theorem promptOwner_minted (msg : Msg) (t : ℕ) (question context : String) (a : Address)
    (uri : String) (w : World) (p : Prompt) :
    ((w.minted msg t question context a uri).prompt p).promptOwner =
      if p = w.nextPrompt t then a else (w.prompt p).promptOwner := by
  by_cases hp : p = w.nextPrompt t
  · subst hp
    simp
  · simp [hp]

/-- What the lists hold after a mint. -/
theorem mem_promptByOwner_minted {msg : Msg} {t : ℕ} {question context : String} {a : Address}
    {uri : String} {w : World} {b : Address} {p : Prompt} :
    p ∈ (w.minted msg t question context a uri).promptByOwner b ↔
      p ∈ w.promptByOwner b ∨ (b = a ∧ p = w.nextPrompt t) := by
  by_cases hb : b = a
  · subst hb
    simp
  · simp [hb]

/-- A mint keeps the invariant: the new slot is in no list yet, so appending it
to one keeps the lists free of repetitions and apart from each other. -/
theorem OwnerInv.minted {w : World} (h : OwnerInv w) (msg : Msg) (t : ℕ)
    (question context : String) {a : Address} (uri : String) (hzero : a ≠ zeroAddress)
    (hmono : ∀ p, w.Issued p → (w.minted msg t question context a uri).Issued p) :
    OwnerInv (w.minted msg t question context a uri) := by
  have hnew : ∀ b, w.nextPrompt t ∉ w.promptByOwner b := by
    intro b hb
    exact not_issued_nextPrompt t w (h.bound b _ hb)
  have hissued := issued_minted_next msg t question context a uri w
  constructor
  case zero =>
    simpa [Ne.symm hzero] using h.zero
  case owned =>
    intro p hp
    rw [promptOwner_minted] at hp
    by_cases hpn : p = w.nextPrompt t
    · exact hpn ▸ hissued
    · rw [if_neg hpn] at hp
      exact hmono p (h.owned p hp)
  case bound =>
    intro b p hp
    rcases mem_promptByOwner_minted.mp hp with hold | ⟨_, rfl⟩
    · exact hmono p (h.bound b p hold)
    · exact hissued
  case nodup =>
    intro b
    by_cases hb : b = a
    · subst hb
      -- the list of the receiver gets a slot that was in no list
      simp only [World.minted, Function.update_self, List.nodup_append]
      refine ⟨h.nodup b, List.nodup_singleton _, ?_⟩
      intro q hq q' hq' hqq'
      rw [List.mem_singleton.mp hq'] at hqq'
      exact hnew b (hqq' ▸ hq)
    · simpa [hb] using h.nodup b
  case disjoint =>
    intro b c p hb hc
    rw [mem_promptByOwner_minted] at hb hc
    rcases hb with hb | ⟨hba, hbn⟩ <;> rcases hc with hc | ⟨hca, hcn⟩
    · exact h.disjoint b c p hb hc
    · -- an old entry is not the new slot
      exact absurd (hcn ▸ hb) (hnew b)
    · exact absurd (hbn ▸ hc) (hnew c)
    · rw [hba, hca]
  case listed =>
    intro p hp
    rw [promptOwner_minted] at hp ⊢
    rw [mem_promptByOwner_minted]
    by_cases hpn : p = w.nextPrompt t
    · rw [if_pos hpn]
      exact Or.inr ⟨rfl, hpn⟩
    · rw [if_neg hpn] at hp ⊢
      exact Or.inl (h.listed p hp)

/-- A call that leaves counters and lists alone and at most clears owners keeps
the invariant. -/
theorem OwnerInv.of_cleared {w w' : World} (h : OwnerInv w)
    (hlists : w'.promptByOwner = w.promptByOwner) (hindex : w'.currentIndex = w.currentIndex)
    (howner : ∀ p, (w'.prompt p).promptOwner = (w.prompt p).promptOwner ∨
      (w'.prompt p).promptOwner = zeroAddress) : OwnerInv w' := by
  have hissued : ∀ p, w.Issued p → w'.Issued p := by
    intro p hp
    simpa [World.Issued, hindex] using hp
  have hkept : ∀ p, (w'.prompt p).promptOwner ≠ zeroAddress →
      (w'.prompt p).promptOwner = (w.prompt p).promptOwner := by
    intro p hp
    exact (howner p).resolve_right hp
  constructor
  case zero => rw [hlists]; exact h.zero
  case owned =>
    intro p hp
    exact hissued p (h.owned p (hkept p hp ▸ hp))
  case bound =>
    intro a p hp
    exact hissued p (h.bound a p (hlists ▸ hp))
  case nodup => rw [hlists]; exact h.nodup
  case disjoint => rw [hlists]; exact h.disjoint
  case listed =>
    intro p hp
    rw [hlists, hkept p hp]
    exact h.listed p (hkept p hp ▸ hp)

/-- Under the invariant, the loops of `burnPrompt` remove nothing. -/
theorem OwnerInv.promptBurned_promptByOwner {w : World} (h : OwnerInv w) (p : Prompt) :
    (w.promptBurned p).promptByOwner = w.promptByOwner := by
  simp only [World.promptBurned, h.zero, DynArray.swapErase]
  exact Function.update_eq_self_iff.mpr h.zero.symm

/-- Every call keeps the invariant. -/
theorem Step.ownerInv {w w' : World} {c : Call} (hstep : Step w c w') (h : OwnerInv w) :
    OwnerInv w' := by
  have hmono : ∀ p, w.Issued p → w'.Issued p := by
    intro p hp
    exact hstep.issued hp
  have howner := hstep.promptOwner_eq
  cases hstep with
  | @safeMint msg t question context a uri rs hzero hmax hfree =>
      have hm := h.minted msg t question context uri hzero hmono
      exact ⟨hm.zero, hm.owned, hm.bound, hm.nodup, hm.disjoint, hm.listed⟩
  | replyPrompt _ => exact h.of_cleared rfl rfl fun q => Or.inl (howner q)
  | burnReplies => exact h.of_cleared rfl rfl fun q => Or.inl (howner q)
  | @burnPrompt msg p =>
      -- no list changes, and one owner is cleared
      refine h.of_cleared (h.promptBurned_promptByOwner p) rfl ?_
      intro q
      by_cases hq : q = p
      · exact Or.inr ((howner q).trans (if_pos hq))
      · exact Or.inl ((howner q).trans (if_neg hq))
  | setTokenURI _ => exact h.of_cleared rfl rfl fun q => Or.inl (howner q)

/-- The invariant holds in every observable world. -/
theorem Reachable.ownerInv {w : World} (h : Reachable w) : OwnerInv w :=
  ReachableFrom.induction ownerInv_init (fun _ _ _ _ hi _ hs => hs.ownerInv hi) h

/-! ## No live prompt is lost -/

/-- A live prompt occurs once in its owner's list and in no other list, and a
burn removes no other prompt from any list, whatever its id. -/
theorem live_prompt_listed_once {w : World} (h : Reachable w) :
    (∀ p, (w.prompt p).promptOwner ≠ zeroAddress →
      (queryAllPromptByAddress (w.prompt p).promptOwner w).count p = 1 ∧
      ∀ b, b ≠ (w.prompt p).promptOwner → p ∉ queryAllPromptByAddress b w) ∧
    (∀ q w', burnPrompt q w = .ok w' → ∀ p, p ≠ q → ∀ b,
      (queryAllPromptByAddress b w').count p = (queryAllPromptByAddress b w).count p) := by
  have hinv := h.ownerInv
  constructor
  · intro p hlive
    have hmem := hinv.listed p hlive
    constructor
    · exact List.count_eq_one_of_mem (hinv.nodup _) hmem
    · intro b hb hpb
      exact hb (hinv.disjoint _ _ p hpb hmem)
  · intro q w' hburn p _ b
    obtain rfl := Except.ok.inj ((burnPrompt_eq q w).symm.trans hburn)
    unfold queryAllPromptByAddress
    rw [hinv.promptBurned_promptByOwner]

/-- Two templates, the same id under both, the same owner. -/
def sameIdTxs : List Tx :=
  [callTx alice 1 (.safeMint 7 "q" "c" alice "u"), callTx alice 2 (.safeMint 8 "q" "c" alice "u")]

theorem live_prompt_listed_once_same_id :
    (queryAllPromptByAddress ((worldAfter sameIdTxs).prompt ⟨7, 1⟩).promptOwner
      (worldAfter sameIdTxs)).count ⟨7, 1⟩ = 1 :=
  ((live_prompt_listed_once (reachable_worldAfter sameIdTxs)).1 ⟨7, 1⟩ (by decide)).1

/-! ## Stale entries -/

/-- The owner index as its views are meant to be read. -/
structure OwnerIndexExact (w : World) : Prop where
  /-- Every entry is a prompt that its address owns. -/
  owned : ∀ a, a ≠ zeroAddress → ∀ p ∈ queryAllPromptByAddress a w, (w.prompt p).promptOwner = a
  /-- The entries are pairwise distinct. -/
  distinct : ∀ a, a ≠ zeroAddress → (queryAllPromptByAddress a w).Nodup
  /-- The balance is the number of prompts owned. -/
  balance : ∀ a, a ≠ zeroAddress →
    balanceOf a w = .ok (Set.ncard {p | (w.prompt p).promptOwner = a})

/-- The call burns no live prompt. -/
def NoLiveBurn (c : Call) (w : World) : Prop :=
  ∀ p, c.op = .burnPrompt p → (w.prompt p).promptOwner = zeroAddress

theorem of_not_noLiveBurn {c : Call} {w : World} (h : ¬ NoLiveBurn c w) :
    ∃ p, c.op = .burnPrompt p ∧ (w.prompt p).promptOwner ≠ zeroAddress := by
  simpa [NoLiveBurn] using h

/-- No entry is stale. -/
def NoStaleEntry (w : World) : Prop :=
  ∀ a p, p ∈ w.promptByOwner a → (w.prompt p).promptOwner = a

/-- Only the burn of a live prompt can make an entry stale. -/
theorem Step.noStaleEntry {w w' : World} {c : Call} (hstep : Step w c w') (hg : NoLiveBurn c w)
    (hinv : OwnerInv w) (h : NoStaleEntry w) : NoStaleEntry w' := by
  intro b q hq
  rw [hstep.promptOwner_eq q]
  cases hstep with
  | @safeMint msg t question context a uri rs hzero hmax hfree =>
      rcases mem_promptByOwner_minted.mp hq with hold | ⟨rfl, rfl⟩
      · -- an entry that was there is a slot given out before
        have hqn : q ≠ w.nextPrompt t := by
          intro hqn
          exact not_issued_nextPrompt t w (hqn ▸ hinv.bound b q hold)
        simpa [World.ownerAfter, hqn] using h b q hold
      · simp [World.ownerAfter]
  | replyPrompt _ => exact h b q hq
  | burnReplies => exact h b q hq
  | @burnPrompt msg p =>
      -- the slot burned is one whose owner is already the zero address
      have hold : q ∈ w.promptByOwner b := hinv.promptBurned_promptByOwner p ▸ hq
      by_cases hqp : q = p
      · have hzero : (w.prompt q).promptOwner = zeroAddress := hqp ▸ hg p rfl
        simpa [World.ownerAfter, hqp, hzero] using hzero.symm.trans (h b q hold)
      · simpa [World.ownerAfter, hqp] using h b q hold
  | setTokenURI _ => exact h b q hq

/-- Without stale entries the lists are exact, by the invariant. -/
theorem OwnerInv.exact {w : World} (hinv : OwnerInv w) (h : NoStaleEntry w) :
    OwnerIndexExact w where
  owned := fun a _ p hp => h a p hp
  distinct := fun a _ => hinv.nodup a
  balance := by
    intro a ha
    have hset : {p | (w.prompt p).promptOwner = a} = ↑(w.promptByOwner a).toFinset := by
      ext p
      simp only [Set.mem_ofPred_eq, List.coe_toFinset]
      constructor
      · intro hp
        subst hp
        exact hinv.listed p ha
      · intro hp
        exact h a p hp
    rw [hset, Set.ncard_coe_finset, List.toFinset_card_of_nodup (hinv.nodup a)]
    simp [balanceOf, ha, pure, Except.pure]

/-- **The owner index is exact until a live prompt is burned.** In runs whose
calls burn no live prompt it is exact in every observable world; and a call that
burns a live prompt leaves every list as it was, so the index is wrong after it. -/
theorem owner_index_exact_without_live_burns (w : World) :
    (ReachableVia NoLiveBurn w → OwnerIndexExact w) ∧
    (Reachable w → ∀ c recv w', dispatch c recv id w = .ok w' → ¬ NoLiveBurn c w →
      ¬ OwnerIndexExact w' ∧
      ∀ a, queryAllPromptByAddress a w' = queryAllPromptByAddress a w) := by
  constructor
  · intro h
    have hstale : NoStaleEntry w := by
      refine ReachableFrom.induction (P := NoStaleEntry) ?_ ?_ h
      · intro a p hp
        cases hp
      · intro v c v' hv hP hg hs
        exact hs.noStaleEntry hg (ReachableVia.reachable hv).ownerInv hP
    exact h.reachable.ownerInv.exact hstale
  · intro h c recv w' hx hlive
    have hinv := h.ownerInv
    obtain ⟨p, hop, hp⟩ := of_not_noLiveBurn hlive
    rcases c with ⟨msg, op⟩
    obtain rfl : op = .burnPrompt p := hop
    have hstep := dispatch_step hx
    have howner := hstep.promptOwner_eq p
    cases hstep
    have hlists := hinv.promptBurned_promptByOwner p
    constructor
    · -- the prompt is still listed, and its slot has no owner any more
      intro hexact
      have hmem : p ∈ (w.promptBurned p).promptByOwner (w.prompt p).promptOwner :=
        hlists ▸ hinv.listed p hp
      have hsame := hexact.owned _ hp p hmem
      rw [howner] at hsame
      exact hp (by simpa [World.ownerAfter] using hsame.symm)
    · intro a
      exact congrFun hlists a

theorem owner_index_exact_same_id : OwnerIndexExact (worldAfter sameIdTxs) :=
  (owner_index_exact_without_live_burns _).1 (reachableVia_worldAfter
    ⟨meets_callTx fun _ h => (nomatch h), meets_callTx fun _ h => (nomatch h), trivial⟩)

/-- Alice mints a prompt and burns it. -/
def mintAndBurnTxs : List Tx :=
  [callTx alice 1 (.safeMint 0 "q" "c" alice "u"), callTx alice 2 (.burnPrompt ⟨0, 1⟩)]

/-- After the burn Alice's list still has the prompt, and her balance is one. -/
theorem owner_index_stale_after_burn :
    Reachable (worldAfter mintAndBurnTxs) ∧
    queryAllPromptByAddress alice (worldAfter mintAndBurnTxs) = [⟨0, 1⟩] ∧
    ((worldAfter mintAndBurnTxs).prompt ⟨0, 1⟩).promptOwner = zeroAddress ∧
    ¬ ∀ w, Reachable w → OwnerIndexExact w := by
  have hlist : queryAllPromptByAddress alice (worldAfter mintAndBurnTxs) = [⟨0, 1⟩] := by
    decide +kernel
  have howner : ((worldAfter mintAndBurnTxs).prompt ⟨0, 1⟩).promptOwner = zeroAddress := by
    decide +kernel
  have hreach := reachable_worldAfter mintAndBurnTxs
  refine ⟨hreach, hlist, howner, ?_⟩
  intro hall
  have hmem : (⟨0, 1⟩ : Prompt) ∈ queryAllPromptByAddress alice (worldAfter mintAndBurnTxs) := by
    rw [hlist]
    exact List.mem_singleton_self _
  have halice := (hall _ hreach).owned alice (by decide) _ hmem
  rw [howner] at halice
  exact absurd halice (by decide)

end Yes3.LyonPrompt
