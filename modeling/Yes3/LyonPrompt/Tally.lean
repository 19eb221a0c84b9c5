import Yes3.LyonPrompt.Exec

/-!
# Yes3.LyonPrompt.Tally — how often a reply is noted

Who replied to what is stored twice as well: under the prompt (`keys`), and in
the list `_promptByReplier` of the replier. Neither is a set, so what a call
does to them is said by multiplicity.

`Op.tally` is what a call does to the number of times that `r` is noted for `p`.
The list of the replier obeys it (`Step.count_replied`), and so do the keys,
except that the burn of the prompt drops them all (`Step.count_keys`).

For a pair of a prompt and a replier there are three kinds of calls: the replies,
the burns of the reply, and those that spare the pair (`Op.reply_cases`).
-/

namespace Yes3.LyonPrompt

/-- What a call does to the number `n` of times that `r` is noted for `p`. -/
def Op.tally (p : Prompt) (r : Address) (op : Op) (n : ℕ) : ℕ :=
  match op with
  | .replyPrompt q s _ _ _ => if p = q ∧ r = s then n + 1 else n
  | .burnReplies q s => if p = q ∧ r = s then n - 1 else n
  | _ => n

theorem Op.tally_mono (p : Prompt) (r : Address) (op : Op) {m n : ℕ} (h : m ≤ n) :
    op.tally p r m ≤ op.tally p r n := by
  cases op with
  | replyPrompt q s detail comment signature =>
      simp only [Op.tally]
      split <;> omega
  | burnReplies q s =>
      simp only [Op.tally]
      split <;> omega
  | safeMint t question context a uri => exact h
  | burnPrompt q => exact h
  | setTokenURI q uri => exact h

/-- The call is neither a reply of `r` to `p` nor the burn of one. -/
def Op.Spares (p : Prompt) (r : Address) (op : Op) : Prop :=
  (∀ detail comment signature, op ≠ .replyPrompt p r detail comment signature) ∧
    op ≠ .burnReplies p r

theorem Op.reply_cases (p : Prompt) (r : Address) (op : Op) :
    (∃ detail comment signature, op = .replyPrompt p r detail comment signature) ∨
      op = .burnReplies p r ∨ op.Spares p r := by
  by_cases hreply : ∃ detail comment signature, op = .replyPrompt p r detail comment signature
  · exact Or.inl hreply
  · by_cases hburn : op = .burnReplies p r
    · exact Or.inr (Or.inl hburn)
    · refine Or.inr (Or.inr ⟨?_, hburn⟩)
      intro detail comment signature hop
      exact hreply ⟨detail, comment, signature, hop⟩

/-- A reply that spares the pair is for another one. -/
theorem Op.Spares.ne_of_reply {p q : Prompt} {r s : Address} {detail comment signature : String}
    (h : Op.Spares p r (.replyPrompt q s detail comment signature)) : ¬ (p = q ∧ r = s) := by
  rintro ⟨rfl, rfl⟩
  exact h.1 detail comment signature rfl

theorem Op.Spares.ne_of_burn {p q : Prompt} {r s : Address}
    (h : Op.Spares p r (.burnReplies q s)) : ¬ (p = q ∧ r = s) := by
  rintro ⟨rfl, rfl⟩
  exact h.2 rfl

/-- The notes of the pair stay. -/
theorem Op.Spares.tally {p : Prompt} {r : Address} {op : Op} (h : op.Spares p r) (n : ℕ) :
    op.tally p r n = n := by
  cases op with
  | replyPrompt q s detail comment signature => exact if_neg h.ne_of_reply
  | burnReplies q s => exact if_neg h.ne_of_burn
  | safeMint t question context a uri => rfl
  | burnPrompt q => rfl
  | setTokenURI q uri => rfl

/-- So does the record. -/
theorem Op.Spares.replyAfter {p : Prompt} {r : Address} {c : Call} (h : c.op.Spares p r)
    (w : World) : w.replyAfter c p r = (w.prompt p).replies r := by
  rcases c with ⟨msg, op⟩
  cases op with
  | replyPrompt q s detail comment signature => exact if_neg (Op.Spares.ne_of_reply h)
  | burnReplies q s => exact if_neg (Op.Spares.ne_of_burn h)
  | safeMint t question context a uri => rfl
  | burnPrompt q => rfl
  | setTokenURI q uri => rfl

theorem Step.count_replied {w w' : World} {c : Call} (hstep : Step w c w') (p : Prompt)
    (r : Address) :
    (w'.promptByReplier r).count p = c.op.tally p r ((w.promptByReplier r).count p) := by
  rw [hstep.promptByReplier_eq]
  cases c.op with
  | replyPrompt q s detail comment signature =>
      by_cases hr : r = s
      · by_cases hp : p = q
        · simp [World.repliedAfter, Op.tally, hr, hp]
        · simp [World.repliedAfter, Op.tally, hr, hp, Ne.symm hp]
      · simp [World.repliedAfter, Op.tally, hr]
  | burnReplies q s =>
      by_cases hr : r = s
      · by_cases hp : p = q
        · simp [World.repliedAfter, Op.tally, hr, hp, DynArray.count_swapErase_self isPrompt_iff]
        · simp [World.repliedAfter, Op.tally, hr, hp,
            DynArray.count_swapErase_of_ne isPrompt_iff hp]
      · simp [World.repliedAfter, Op.tally, hr]
  | safeMint t question context a uri => rfl
  | burnPrompt q => rfl
  | setTokenURI q uri => rfl

theorem Step.count_keys {w w' : World} {c : Call} (hstep : Step w c w') (p : Prompt)
    (r : Address) :
    (w'.prompt p).keys.count r =
      if c.op = .burnPrompt p then 0 else c.op.tally p r ((w.prompt p).keys.count r) := by
  rw [hstep.keys_eq]
  cases c.op with
  | replyPrompt q s detail comment signature =>
      by_cases hp : p = q
      · by_cases hr : r = s
        · simp [World.keysAfter, Op.tally, hr, hp]
        · simp [World.keysAfter, Op.tally, hr, hp, Ne.symm hr]
      · simp [World.keysAfter, Op.tally, hp]
  | burnReplies q s =>
      by_cases hp : p = q
      · by_cases hr : r = s
        · simp [World.keysAfter, Op.tally, hr, hp, DynArray.count_swapErase_self isKey_iff]
        · simp [World.keysAfter, Op.tally, hr, hp, DynArray.count_swapErase_of_ne isKey_iff hr]
      · simp [World.keysAfter, Op.tally, hp]
  | burnPrompt q =>
      by_cases hp : p = q
      · simp [World.keysAfter, hp]
      · simp [World.keysAfter, Op.tally, hp, Ne.symm hp]
  | safeMint t question context a uri => simp [World.keysAfter, Op.tally]
  | setTokenURI q uri => simp [World.keysAfter, Op.tally]

/-- Who is a key after a call. -/
theorem Step.mem_keys_iff {w w' : World} {c : Call} (hstep : Step w c w') (p : Prompt)
    (r : Address) :
    r ∈ (w'.prompt p).keys ↔
      c.op ≠ .burnPrompt p ∧ 0 < c.op.tally p r ((w.prompt p).keys.count r) := by
  rw [← List.count_pos_iff, hstep.count_keys]
  by_cases hc : c.op = .burnPrompt p
  · simp [hc]
  · simp [hc]

end Yes3.LyonPrompt
