import Yes3.LyonPrompt.Reentrancy

/-!
# Yes3.LyonPrompt.Deliveries — what the receivers are told

A contract that a prompt is minted to is called with an argument `tokenId`, which
the interface documents as the id of the token. `safeMint` forms it from its own
argument `templateId`; the id is a local variable of `_mint`.

`World.events` and `World.received` record what each mint announces and what it
tells its receiver. A receiver learns the id of its prompt only if the id happens
to be the number of the template (`receivers_told_iff`).
-/

namespace Yes3.LyonPrompt

open CallTree

/-- A mint to a contract calls it once, with the template as the token id. -/
def CalledOnce (w : World) (c : Call) (recv : Receiver) (w' : World) : Prop :=
  ∀ t question context a uri, c.op = .safeMint t question context a uri →
    isContract recv = true →
      w'.events = w.events ++ [.promptMinted t (w.currentIndex t + 1) a] ∧
      w'.received = w.received ++ [⟨a, c.msg.sender, zeroAddress, t, []⟩]

/-- A mint to a contract calls it once, with the id that the mint announces. -/
def ToldId (w : World) (c : Call) (recv : Receiver) (w' : World) : Prop :=
  ∀ t question context a uri, c.op = .safeMint t question context a uri →
    isContract recv = true →
      ∃ id r, w'.events = w.events ++ [.promptMinted t id a] ∧ w'.received = w.received ++ [r] ∧
        r.toAddress = a ∧ r.tokenId = id

/-- The id that is next under the template of a mint to a contract is its number. -/
def IdIsTemplate (w : World) (c : Call) (recv : Receiver) (_ : World) : Prop :=
  ∀ t question context a uri, c.op = .safeMint t question context a uri →
    isContract recv = true → w.currentIndex t + 1 = t

/-- The token ids that a call tells receivers, if it mints under the template. -/
def toldBy (t : ℕ) (c : Call) (w w' : World) : List ℕ :=
  match c.op with
  | .safeMint t' _ _ _ _ =>
    if t' = t then (w'.received.drop w.received.length).map Received.tokenId else []
  | _ => []

/-- The token ids that the receivers under a template are told in a flat run. -/
def toldUnder (t : ℕ) : List (Call × Receiver) → World → List ℕ
  | [], _ => []
  | (c, recv) :: is, w =>
    match dispatch c recv id w with
    | .ok w' => toldBy t c w w' ++ toldUnder t is w'
    | .error _ => []

/-- In a list of executions the receivers can tell which prompt they received:
each is told the id of its own, and no two under a template are told the same. -/
structure ReceiversTold (w : World) (txs : List Tx) : Prop where
  own : Along dispatch ToldId (phases.survivorsAll txs w) w
  distinct : ∀ t, (toldUnder t (phases.survivorsAll txs w) w).Nodup

/-! ## One call -/

variable {w w' : World} {c : Call} {recv : Receiver}

/-- What a mint announces, what it tells, and what it does to the counter. -/
theorem safeMint_records {msg : Msg} {t : ℕ} {question context : String} {a : Address}
    {uri : String}
    (h : dispatch ⟨msg, .safeMint t question context a uri⟩ recv id w = .ok w') :
    w'.events = w.events ++ [.promptMinted t (w.currentIndex t + 1) a] ∧
      w'.received = w.received ++
        (if isContract recv = true then [⟨a, msg.sender, zeroAddress, t, []⟩] else []) ∧
      w'.currentIndex t = w.currentIndex t + 1 := by
  obtain ⟨w₁, hm, hw⟩ := safeMint_ok_iff.mp h
  obtain ⟨_, _, _, rfl⟩ := mint_ok_iff.mp hm
  rcases hw with ⟨hc, rfl⟩ | ⟨hc, _, rfl⟩
  · simp [hc]
  · simp [hc]

theorem calledOnce_of_dispatch (h : dispatch c recv id w = .ok w') : CalledOnce w c recv w' := by
  rcases c with ⟨msg, op⟩
  rintro t question context a uri rfl hc
  obtain ⟨hevents, hreceived, _⟩ := safeMint_records h
  rw [if_pos hc] at hreceived
  exact ⟨hevents, hreceived⟩

/-- A receiver is told its id when the id is the number of the template. -/
theorem toldId_iff (h : dispatch c recv id w = .ok w') :
    ToldId w c recv w' ↔ IdIsTemplate w c recv w' := by
  have honce := calledOnce_of_dispatch h
  constructor
  · intro htold t question context a uri hop hc
    obtain ⟨hevents, hreceived⟩ := honce t question context a uri hop hc
    obtain ⟨id, r, hevents', hreceived', _, hid⟩ := htold t question context a uri hop hc
    rw [hevents] at hevents'
    rw [hreceived] at hreceived'
    have hr : (⟨a, c.msg.sender, zeroAddress, t, []⟩ : Received) = r := by
      simpa using hreceived'
    have hidx : w.currentIndex t + 1 = id := by
      simpa using hevents'
    rw [hidx, ← hid, ← hr]
  · intro hcond t question context a uri hop hc
    obtain ⟨hevents, hreceived⟩ := honce t question context a uri hop hc
    exact ⟨_, _, hevents, hreceived, rfl, (hcond t question context a uri hop hc).symm⟩

/-- What is told under a template: nothing, or the template, by a mint to a contract. -/
theorem toldBy_cases (t : ℕ) (h : dispatch c recv id w = .ok w') :
    toldBy t c w w' = [] ∨
      (toldBy t c w w' = [t] ∧ w'.currentIndex t = w.currentIndex t + 1 ∧
        ∃ question context a uri, c.op = .safeMint t question context a uri ∧
          isContract recv = true) := by
  rcases c with ⟨msg, op⟩
  cases op with
  | safeMint t' question context a uri =>
      by_cases ht : t' = t
      · subst ht
        obtain ⟨_, hreceived, hindex⟩ := safeMint_records h
        by_cases hc : isContract recv = true
        · refine Or.inr ⟨?_, hindex, question, context, a, uri, rfl, hc⟩
          simp [toldBy, hreceived, hc]
        · simp [toldBy, hreceived, hc]
      · simp [toldBy, ht]
  | replyPrompt p r detail comment signature => exact Or.inl rfl
  | burnReplies p r => exact Or.inl rfl
  | burnPrompt p => exact Or.inl rfl
  | setTokenURI p uri => exact Or.inl rfl

theorem Step.currentIndex_le (hstep : Step w c w') (t : ℕ) :
    w.currentIndex t ≤ w'.currentIndex t := by
  cases hstep with
  | @safeMint msg u question context a uri rs hzero hmax hfree =>
      by_cases ht : t = u
      · subst ht
        simp
      · simp [ht]
  | replyPrompt _ => exact Nat.le_refl _
  | burnReplies => exact Nat.le_refl _
  | burnPrompt => exact Nat.le_refl _
  | setTokenURI _ => exact Nat.le_refl _

/-! ## Runs -/

/-- Once the counter has passed the number of the template, no receiver can be told
its id any more. -/
theorem toldUnder_eq_nil {t : ℕ} (is : List (Call × Receiver)) (ht : t ≤ w.currentIndex t)
    (hcond : Along dispatch IdIsTemplate is w) : toldUnder t is w = [] := by
  induction is generalizing w with
  | nil => rfl
  | cons i is ih =>
      rcases i with ⟨c, recv⟩
      rw [toldUnder]
      cases hx : dispatch c recv id w with
      | error e => rfl
      | ok w' =>
          obtain ⟨hid, hrest⟩ := hcond w' hx
          have hle := (dispatch_step hx).currentIndex_le t
          have hnone : toldBy t c w w' = [] := by
            rcases toldBy_cases t hx with hnone | ⟨_, _, question, context, a, uri, hop, hc⟩
            · exact hnone
            · have hnext := hid t question context a uri hop hc
              omega
          simp only [hnone, List.nil_append]
          exact ih (Nat.le_trans ht hle) hrest

/-- So at most one is. -/
theorem nodup_toldUnder {t : ℕ} (is : List (Call × Receiver))
    (hcond : Along dispatch IdIsTemplate is w) : (toldUnder t is w).Nodup := by
  induction is generalizing w with
  | nil => exact List.nodup_nil
  | cons i is ih =>
      rcases i with ⟨c, recv⟩
      rw [toldUnder]
      cases hx : dispatch c recv id w with
      | error e => exact List.nodup_nil
      | ok w' =>
          obtain ⟨hid, hrest⟩ := hcond w' hx
          rcases toldBy_cases t hx with hnone | ⟨htold, hindex, question, context, a, uri, hop, hc⟩
          · simp only [hnone, List.nil_append]
            exact ih hrest
          · -- the counter comes to the number of the template, and nothing is told after that
            have hnext := hid t question context a uri hop hc
            have hnil : toldUnder t is w' = [] := toldUnder_eq_nil is (by omega) hrest
            simp [htold, hnil]

/-- **The receivers can tell their prompts exactly when the ids are the numbers of
the templates.** Along the run of the calls that are not undone, each mint to a
contract calls it once, with the number of the template; that is right when each
of these mints is given that number as its id. -/
theorem receivers_told_iff (w : World) (txs : List Tx) :
    Steps dispatch (fun _ _ => True) w (phases.survivorsAll txs w) (execAll dispatch txs w) ∧
    Along dispatch CalledOnce (phases.survivorsAll txs w) w ∧
    (ReceiversTold w txs ↔ Along dispatch IdIsTemplate (phases.survivorsAll txs w) w) := by
  have hcalled : ∀ v c recv v', dispatch c recv id v = .ok v' → CalledOnce v c recv v' :=
    fun _ _ _ _ h => calledOnce_of_dispatch h
  have htold : ∀ v c recv v', dispatch c recv id v = .ok v' →
      (ToldId v c recv v' ↔ IdIsTemplate v c recv v') :=
    fun _ _ _ _ h => toldId_iff h
  have hown := along_congr htold (phases.survivorsAll txs w) w
  refine ⟨execAll_survivors deferrable txs [] w trivial (phases.meetsAll_true txs w),
    along_of_forall hcalled _ w, ?_⟩
  constructor
  · intro h
    exact hown.mp h.own
  · intro h
    exact ⟨hown.mpr h, fun t => nodup_toldUnder _ h⟩

/-- Bob's contract is minted two prompts under the template 5. -/
def mintTwiceToContractTxs : List Tx :=
  [.call ⟨⟨alice, 1⟩, .safeMint 5 "q" "c" bob "u"⟩ ⟨1, .returned onILyonPromptReceivedSelector⟩ [],
    .call ⟨⟨alice, 2⟩, .safeMint 5 "q" "c" bob "u"⟩ ⟨1, .returned onILyonPromptReceivedSelector⟩ []]

/-- It is told 5 both times, for the prompts 1 and 2. -/
theorem receivers_told_template :
    (worldAfter mintTwiceToContractTxs).events = [.promptMinted 5 1 bob, .promptMinted 5 2 bob] ∧
    (worldAfter mintTwiceToContractTxs).received =
      [⟨bob, alice, zeroAddress, 5, []⟩, ⟨bob, alice, zeroAddress, 5, []⟩] ∧
    ¬ ∀ txs, ReceiversTold World.init txs := by
  refine ⟨by decide +kernel, by decide +kernel, ?_⟩
  intro htold
  have hdistinct := (htold mintTwiceToContractTxs).distinct 5
  revert hdistinct
  decide +kernel

end Yes3.LyonPrompt
