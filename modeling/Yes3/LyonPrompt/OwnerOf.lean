import Yes3.LyonPrompt.Minting

/-!
# Yes3.LyonPrompt.OwnerOf — whose a prompt is

Who holds a prompt is a matter of the calls made so far: the account that it was
minted to, unless it has been burned since. `Held` says so without the storage.

The stored owner says the same in every observable world (`HeldInv`), and so do
the two views that read it. `ownerOf` reads it as well, but then tests its own
return variable, which nothing has been assigned to, and reverts for every prompt
(`ownerOf_agrees_iff_unheld`).
-/

namespace Yes3.LyonPrompt

/-! ## The history of a prompt -/

/-- The call `c`, made after the calls `pre`, mints `p` to `a`: under the template
of `p` it is the mint whose number is the id of `p`. -/
def MintsTo (p : Prompt) (a : Address) (pre : List Call) (c : Call) : Prop :=
  mintOf p.templateId c = some a ∧ (pre.filterMap (mintOf p.templateId)).length + 1 = p.id

/-- The prompt was minted to `a`, and has not been burned since. -/
def Held (p : Prompt) (a : Address) (calls : List Call) : Prop :=
  ∃ pre c post, calls = pre ++ c :: post ∧ MintsTo p a pre c ∧ ∀ d ∈ post, d.op ≠ .burnPrompt p

/-- One more call: a mint of the prompt, or any call but its burn. -/
theorem held_snoc {p : Prompt} {a : Address} {calls : List Call} {c : Call} :
    Held p a (calls ++ [c]) ↔
      MintsTo p a calls c ∨ (Held p a calls ∧ c.op ≠ .burnPrompt p) := by
  constructor
  · rintro ⟨pre, d, post, hcalls, hmint, hpost⟩
    -- the mint is the last call, or the last call came after it
    rcases List.eq_nil_or_concat' post with rfl | ⟨post, e, rfl⟩
    · obtain ⟨rfl, hcd⟩ := List.append_inj' hcalls rfl
      obtain rfl : c = d := by simpa using hcd
      exact Or.inl hmint
    · rw [← List.cons_append, ← List.append_assoc] at hcalls
      obtain ⟨rfl, hce⟩ := List.append_inj' hcalls rfl
      obtain rfl : c = e := by simpa using hce
      refine Or.inr ⟨⟨pre, d, post, rfl, hmint, ?_⟩, hpost c (by simp)⟩
      intro d' hd'
      exact hpost d' (List.mem_append_left _ hd')
  · rintro (hmint | ⟨⟨pre, d, post, rfl, hmint, hpost⟩, hc⟩)
    · exact ⟨calls, c, [], rfl, hmint, fun d hd => absurd hd List.not_mem_nil⟩
    · refine ⟨pre, d, post ++ [c], by simp, hmint, ?_⟩
      intro d' hd'
      rcases List.mem_append.mp hd' with hd' | hd'
      · exact hpost d' hd'
      · rw [List.mem_singleton.mp hd']
        exact hc

/-- A mint mints the slot that is next under its template. -/
theorem MintInv.mintsTo_iff {w : World} (h : MintInv w) {p : Prompt} {a b : Address} {msg : Msg}
    {t : ℕ} {question context uri : String} :
    MintsTo p b w.calls ⟨msg, .safeMint t question context a uri⟩ ↔
      p = w.nextPrompt t ∧ a = b := by
  have hcount := h.counter p.templateId
  simp only [mintsUnder] at hcount
  cases p with
  | mk u id =>
      simp only [MintsTo, mintOf, World.nextPrompt, Prompt.mk.injEq, ← hcount]
      by_cases ht : t = u
      · subst ht
        simp only [if_true, Option.some.injEq, true_and]
        constructor
        · rintro ⟨hab, hid⟩
          exact ⟨hid.symm, hab⟩
        · rintro ⟨hid, hab⟩
          exact ⟨hab, hid.symm⟩
      · simp [ht, Ne.symm ht]

/-- The owner that is stored for a slot is who holds the prompt. -/
def HeldInv (w : World) : Prop :=
  ∀ p a, Held p a w.calls ↔ a ≠ zeroAddress ∧ (w.prompt p).promptOwner = a

theorem heldInv_init : HeldInv World.init := by
  intro p a
  constructor
  · rintro ⟨pre, c, post, hcalls, _⟩
    simp [World.init] at hcalls
  · rintro ⟨hne, howner⟩
    exact absurd howner.symm hne

/-- Every call keeps the invariant. -/
theorem Step.heldInv {w w' : World} {c : Call} (hstep : Step w c w') (hmint : MintInv w)
    (h : HeldInv w) : HeldInv w' := by
  intro p b
  rw [hstep.calls_eq, held_snoc, h p b, hstep.promptOwner_eq]
  cases hstep with
  | @safeMint msg t question context a uri rs hzero hmax hfree =>
      rw [hmint.mintsTo_iff]
      by_cases hp : p = w.nextPrompt t
      · -- the slot had no owner, so nobody held it
        subst hp
        simp only [World.ownerAfter, hfree, if_true, true_and]
        constructor
        · rintro (rfl | ⟨⟨hne, rfl⟩, _⟩)
          · exact ⟨hzero, rfl⟩
          · exact absurd rfl hne
        · rintro ⟨_, rfl⟩
          exact Or.inl rfl
      · simp [World.ownerAfter, hp]
  | replyPrompt _ => simp [MintsTo, mintOf, World.ownerAfter]
  | burnReplies => simp [MintsTo, mintOf, World.ownerAfter]
  | @burnPrompt msg q =>
      by_cases hp : p = q
      · subst hp
        -- nobody holds the prompt after this, and no owner is stored
        simp [MintsTo, mintOf, World.ownerAfter, eq_comm]
      · simp [MintsTo, mintOf, World.ownerAfter, hp, Ne.symm hp]
  | setTokenURI _ => simp [MintsTo, mintOf, World.ownerAfter]

theorem Reachable.heldInv {w : World} (h : Reachable w) : HeldInv w := by
  have hboth : MintInv w ∧ HeldInv w := by
    refine ReachableFrom.induction (P := fun v => MintInv v ∧ HeldInv v)
      ⟨mintInv_init, heldInv_init⟩ ?_ h
    rintro v c v' _ ⟨hmint, hheld⟩ _ hstep
    exact ⟨hstep.mintInv hmint, hstep.heldInv hmint hheld⟩
  exact hboth.2

/-! ## The views -/

/-- `ownerOf` as it is meant to be read: it refuses the prompts that nobody holds,
and for the others it tells the holder, like the other views. -/
def OwnerOfAgrees (p : Prompt) (w : World) : Prop :=
  (ownerOf p w = .error (.custom (.ownerQueryForNonexistentToken p.templateId p.id)) ↔
    ∀ a, ¬ Held p a w.calls) ∧
  ∀ a, Held p a w.calls →
    ownerOf p w = .ok a ∧ (queryPromptInfoById p w).1 = a ∧ p ∈ queryAllPromptByAddress a w

/-- The return variable `owner` is zero when it is tested. -/
theorem ownerOf_eq (p : Prompt) (w : World) :
    ownerOf p w = .error (.custom (.ownerQueryForNonexistentToken p.templateId p.id)) := by
  simp [ownerOf]

/-- **`ownerOf` is right about the prompts that nobody holds, and about no other**:
it reverts for every prompt. The other two views tell the holder. -/
theorem ownerOf_agrees_iff_unheld {w : World} (h : Reachable w) (p : Prompt) :
    (OwnerOfAgrees p w ↔ ∀ a, ¬ Held p a w.calls) ∧
    ownerOf p w = .error (.custom (.ownerQueryForNonexistentToken p.templateId p.id)) ∧
    ∀ a, Held p a w.calls →
      (queryPromptInfoById p w).1 = a ∧ p ∈ queryAllPromptByAddress a w := by
  refine ⟨?_, ownerOf_eq p w, ?_⟩
  · constructor
    · rintro ⟨_, hholder⟩ a ha
      have hok := (hholder a ha).1
      rw [ownerOf_eq] at hok
      cases hok
    · intro hnone
      exact ⟨iff_of_true (ownerOf_eq p w) hnone, fun a ha => absurd ha (hnone a)⟩
  · intro a ha
    obtain ⟨hne, howner⟩ := (h.heldInv p a).mp ha
    refine ⟨howner, ?_⟩
    have hlisted := h.ownerInv.listed p (howner.trans_ne hne)
    rwa [howner] at hlisted

/-- Alice mints a prompt. -/
def mintTxs : List Tx :=
  [callTx alice 1 (.safeMint 0 "q" "c" alice "u")]

theorem held_after_mint : Held ⟨0, 1⟩ alice (worldAfter mintTxs).calls :=
  ⟨[], ⟨⟨alice, 1⟩, .safeMint 0 "q" "c" alice "u"⟩, [], by decide +kernel, ⟨rfl, rfl⟩,
    fun _ hd => absurd hd List.not_mem_nil⟩

/-- After the mint the other views know the owner. -/
theorem ownerOf_agrees_after_mint :
    (queryPromptInfoById ⟨0, 1⟩ (worldAfter mintTxs)).1 = alice ∧
      ⟨0, 1⟩ ∈ queryAllPromptByAddress alice (worldAfter mintTxs) :=
  (ownerOf_agrees_iff_unheld (reachable_worldAfter mintTxs) ⟨0, 1⟩).2.2 alice held_after_mint

/-- And `ownerOf` calls the prompt nonexistent. -/
theorem ownerOf_reverts_after_mint :
    Reachable (worldAfter mintTxs) ∧ Held ⟨0, 1⟩ alice (worldAfter mintTxs).calls ∧
    ownerOf ⟨0, 1⟩ (worldAfter mintTxs) = .error (.custom (.ownerQueryForNonexistentToken 0 1)) ∧
    ¬ ∀ w, Reachable w → ∀ p, OwnerOfAgrees p w := by
  have hreach := reachable_worldAfter mintTxs
  refine ⟨hreach, held_after_mint, ownerOf_eq _ _, ?_⟩
  intro hagrees
  have hok := ((hagrees _ hreach ⟨0, 1⟩).2 alice held_after_mint).1
  rw [ownerOf_eq] at hok
  cases hok

end Yes3.LyonPrompt
