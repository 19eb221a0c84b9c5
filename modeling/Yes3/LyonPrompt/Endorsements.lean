import Yes3.Rules.Register
import Yes3.LyonPrompt.Tally

/-!
# Yes3.LyonPrompt.Endorsements — what the replies of a prompt are meant to be

The abstract view of the replies needs no storage: it is read off the calls made
so far. Whether `r` endorses `p`, and with what, is one register of the log of
calls (`endorsement`): a reply writes it, the burn of the reply clears it, and
so does the burn of the prompt.

The contract keeps a mapping and a list of keys instead, and the burn of a
prompt clears only the keys. `EndorsedInv` connects the two, and
`reply_provenance` says what the view of a prompt really shows for a key.
-/

namespace Yes3.LyonPrompt

/-! ## The registers -/

/-- The reply to `p` on behalf of `r` that the call makes, if it makes one. -/
def Call.reply (p : Prompt) (r : Address) (c : Call) : Option ReplyInfo :=
  match c.op with
  | .replyPrompt q s detail comment signature =>
    if p = q ∧ r = s then some ⟨detail, comment, signature, c.msg.timestamp⟩ else none
  | _ => none

/-- What the call does to the endorsement of `p` by `r`. -/
def Call.endorses (p : Prompt) (r : Address) (c : Call) : Option (Option ReplyInfo) :=
  match c.op with
  | .replyPrompt .. => (c.reply p r).map some
  | .burnReplies q s => if p = q ∧ r = s then some none else none
  | .burnPrompt q => if p = q then some none else none
  | _ => none

/-- What the call does to the last reply to `p` by `r`: burns of the reply do
not count, the burn of the prompt starts afresh. -/
def Call.answers (p : Prompt) (r : Address) (c : Call) : Option (Option ReplyInfo) :=
  match c.op with
  | .replyPrompt .. => (c.reply p r).map some
  | .burnPrompt q => if p = q then some none else none
  | _ => none

/-- The reply with which `r` endorses `p`, if it does. -/
def endorsement (p : Prompt) (r : Address) (calls : List Call) : Option ReplyInfo :=
  Register.after (Call.endorses p r) none calls

/-- The last reply to `p` by `r` since the prompt was last burned. -/
def lastReply (p : Prompt) (r : Address) (calls : List Call) : Option ReplyInfo :=
  Register.after (Call.answers p r) none calls

theorem endorsement_snoc (p : Prompt) (r : Address) (calls : List Call) (c : Call) :
    endorsement p r (calls ++ [c]) = (c.endorses p r).getD (endorsement p r calls) :=
  Register.after_snoc _ _ _ _

theorem lastReply_snoc (p : Prompt) (r : Address) (calls : List Call) (c : Call) :
    lastReply p r (calls ++ [c]) = (c.answers p r).getD (lastReply p r calls) :=
  Register.after_snoc _ _ _ _

/-- A call that burns the reply, or the prompt, leaves no endorsement. -/
theorem Step.endorsement_cleared {w w' : World} {c : Call} (hstep : Step w c w') {p : Prompt}
    {r : Address} (hc : c.endorses p r = some none) : endorsement p r w'.calls = none := by
  rw [hstep.calls_eq, endorsement_snoc, hc]
  rfl

/-- A call that spares the pair writes a register of it only to clear it, as the
burn of the prompt. -/
theorem Op.Spares.endorses {p : Prompt} {r : Address} {c : Call} (h : c.op.Spares p r) :
    c.endorses p r = if c.op = .burnPrompt p then some none else none := by
  rcases c with ⟨msg, op⟩
  cases op with
  | replyPrompt q s detail comment signature =>
      simp [Call.endorses, Call.reply, Op.Spares.ne_of_reply h]
  | burnReplies q s => simp [Call.endorses, Op.Spares.ne_of_burn h]
  | burnPrompt q => simp [Call.endorses, eq_comm]
  | safeMint t question context a uri => rfl
  | setTokenURI q uri => rfl

theorem Op.Spares.answers {p : Prompt} {r : Address} {c : Call} (h : c.op.Spares p r) :
    c.answers p r = if c.op = .burnPrompt p then some none else none := by
  rcases c with ⟨msg, op⟩
  cases op with
  | replyPrompt q s detail comment signature =>
      simp [Call.answers, Call.reply, Op.Spares.ne_of_reply h]
  | burnReplies q s => rfl
  | burnPrompt q => simp [Call.answers, eq_comm]
  | safeMint t question context a uri => rfl
  | setTokenURI q uri => rfl

/-! ## The invariant -/

structure EndorsedInv (w : World) : Prop where
  /-- A key has replied since the last burn of the prompt, and its record is its
  endorsement, or blank if it has none any more. -/
  shown : ∀ p r, r ∈ (w.prompt p).keys → (∃ info, lastReply p r w.calls = some info) ∧
    (w.prompt p).replies r = (endorsement p r w.calls).getD ReplyInfo.blank
  /-- Whoever endorses a prompt is a key of it. -/
  endorsed : ∀ p r info, endorsement p r w.calls = some info → r ∈ (w.prompt p).keys

theorem endorsedInv_init : EndorsedInv World.init where
  shown := fun _ _ h => absurd h List.not_mem_nil
  endorsed := fun _ _ _ h => by cases h

/-- A key shows what was written for it last: each case compares what the call does
to the keys with what it writes to the registers. -/
theorem Step.endorsedInv_shown {w w' : World} {c : Call} (hstep : Step w c w')
    (h : EndorsedInv w) (p : Prompt) (r : Address) (hr : r ∈ (w'.prompt p).keys) :
    (∃ info, lastReply p r w'.calls = some info) ∧
      (w'.prompt p).replies r = (endorsement p r w'.calls).getD ReplyInfo.blank := by
  rcases (hstep.mem_keys_iff p r).mp hr with ⟨hkept, hpos⟩
  rw [hstep.calls_eq, lastReply_snoc, endorsement_snoc, hstep.replies_eq]
  rcases c.op.reply_cases p r with ⟨detail, comment, signature, hop⟩ | hop | hspares
  · simp [Call.answers, Call.endorses, Call.reply, World.replyAfter, hop]
  · -- a key that is left was a key before, and its record is blank now
    have hbefore : 0 < (w.prompt p).keys.count r := by
      simp only [hop, Op.tally, and_self, if_true] at hpos
      omega
    simpa [Call.answers, Call.endorses, World.replyAfter, hop]
      using (h.shown p r (List.count_pos_iff.mp hbefore)).1
  · rw [hspares.tally] at hpos
    rw [hspares.answers, hspares.endorses, hspares.replyAfter, if_neg hkept]
    exact h.shown p r (List.count_pos_iff.mp hpos)

/-- Whoever endorses a prompt is a key of it. -/
theorem Step.endorsedInv_endorsed {w w' : World} {c : Call} (hstep : Step w c w')
    (h : EndorsedInv w) (p : Prompt) (r : Address) (info : ReplyInfo)
    (hr : endorsement p r w'.calls = some info) : r ∈ (w'.prompt p).keys := by
  rw [hstep.calls_eq, endorsement_snoc] at hr
  rw [hstep.mem_keys_iff]
  rcases c.op.reply_cases p r with ⟨detail, comment, signature, hop⟩ | hop | hspares
  · simp [Op.tally, hop]
  · simp [Call.endorses, hop] at hr
  · rw [hspares.endorses] at hr
    by_cases hburn : c.op = .burnPrompt p
    · simp [hburn] at hr
    · -- an endorsement that is not new was there, and so was the key
      rw [if_neg hburn] at hr
      rw [hspares.tally]
      exact ⟨hburn, List.count_pos_iff.mpr (h.endorsed p r info hr)⟩

/-- Every call keeps the invariant. -/
theorem Step.endorsedInv {w w' : World} {c : Call} (hstep : Step w c w') (h : EndorsedInv w) :
    EndorsedInv w' where
  shown := hstep.endorsedInv_shown h
  endorsed := hstep.endorsedInv_endorsed h

theorem Reachable.endorsedInv {w : World} (h : Reachable w) : EndorsedInv w :=
  ReachableFrom.induction endorsedInv_init (fun _ _ _ _ hi _ hs => hs.endorsedInv hi) h

/-- `info` is the reply of `r` to `p`: it is on record, and the view returns it. -/
def ReplyRecorded (p : Prompt) (r : Address) (info : ReplyInfo) (w : World) : Prop :=
  r ∈ (w.prompt p).keys ∧ endorsement p r w.calls = some info ∧ (w.prompt p).replies r = info ∧
  ∃ shown, queryAllRepliesByPrompt p w = .ok shown ∧ info ∈ shown

/-- Every endorsement is on record. -/
theorem EndorsedInv.replyRecorded {w : World} (hinv : EndorsedInv w) {p : Prompt} {r : Address}
    {info : ReplyInfo} (hinfo : endorsement p r w.calls = some info) :
    ReplyRecorded p r info w := by
  have hkey := hinv.endorsed p r info hinfo
  have hrecord : (w.prompt p).replies r = info := by
    simpa [hinfo] using (hinv.shown p r hkey).2
  refine ⟨hkey, hinfo, hrecord, _, queryAllRepliesByPrompt_eq p w, ?_⟩
  exact List.mem_map.mpr ⟨r, hkey, hrecord⟩

/-! ## Provenance -/

/-- What the history says about the record `info` shown for the key `k` of `p`:
there is a last reply to `p` by `k`, and `p` was not burned after it. The record
is that reply, or blank if the reply was burned since. -/
def Provenance (calls : List Call) (p : Prompt) (k : Address) (info : ReplyInfo) : Prop :=
  ∃ pre c post given, calls = pre ++ c :: post ∧ c.reply p k = some given ∧
    (∀ d ∈ post, d.reply p k = none ∧ d.op ≠ .burnPrompt p) ∧
    ((∀ d ∈ post, d.op ≠ .burnReplies p k) → info = given) ∧
    ((∃ d ∈ post, d.op = .burnReplies p k) → info = ReplyInfo.blank)

section Calls

variable {p : Prompt} {k : Address} {c : Call}

/-- A call that writes an answer is a reply and endorses with it. -/
theorem Call.of_answers_some {info : ReplyInfo} (h : c.answers p k = some (some info)) :
    c.reply p k = some info ∧ c.endorses p k = some (some info) := by
  rcases c with ⟨msg, op⟩
  cases op with
  | replyPrompt q s detail comment signature => simpa [Call.answers, Call.endorses] using h
  | burnPrompt q => simp [Call.answers] at h
  | safeMint t question context a uri => cases h
  | burnReplies q s => cases h
  | setTokenURI q uri => cases h

/-- A call that leaves the last answer alone is neither a reply nor a burn of
the prompt, and touches the endorsement only to burn it. -/
theorem Call.of_answers_none (h : c.answers p k = none) :
    c.reply p k = none ∧ c.op ≠ .burnPrompt p ∧
      c.endorses p k = if c.op = .burnReplies p k then some none else none := by
  rcases c with ⟨msg, op⟩
  cases op with
  | replyPrompt q s detail comment signature =>
      have hreply : Call.reply p k ⟨msg, .replyPrompt q s detail comment signature⟩ = none := by
        simpa [Call.answers] using h
      simp [Call.endorses, hreply]
  | burnPrompt q =>
      have hq : p ≠ q := by simpa [Call.answers] using h
      simp [Call.reply, Call.endorses, hq, Ne.symm hq]
  | safeMint t question context a uri => simp [Call.reply, Call.endorses]
  | burnReplies q s => simp [Call.reply, Call.endorses, eq_comm]
  | setTokenURI q uri => simp [Call.reply, Call.endorses]

end Calls

/-- A last reply accounts for the endorsement. -/
theorem provenance_of_lastReply {calls : List Call} {p : Prompt} {k : Address} {given : ReplyInfo}
    (h : lastReply p k calls = some given) :
    Provenance calls p k ((endorsement p k calls).getD ReplyInfo.blank) := by
  have hchanged : Register.after (Call.answers p k) none calls ≠ none := by
    intro hnone
    rw [lastReply, hnone] at h
    cases h
  rcases Register.exists_last_write hchanged with ⟨pre, c, post, rfl, hc, hpost⟩
  rw [show Register.after (Call.answers p k) none (pre ++ c :: post) = some given from h] at hc
  rcases Call.of_answers_some hc with ⟨hreply, hendorse⟩
  refine ⟨pre, c, post, given, rfl, hreply, ?_, ?_, ?_⟩
  · intro d hd
    have hquiet := Call.of_answers_none (hpost d hd)
    exact ⟨hquiet.1, hquiet.2.1⟩
  · -- nothing after the reply touches the endorsement
    intro hkept
    have hlast : endorsement p k (pre ++ c :: post) = some given := by
      apply Register.after_of_last hendorse
      intro d hd
      rw [(Call.of_answers_none (hpost d hd)).2.2, if_neg (hkept d hd)]
    simp [hlast]
  · -- after the reply the endorsement is only ever cleared
    rintro ⟨d, hd, hburn⟩
    have hcleared : endorsement p k (pre ++ c :: post) = none := by
      rw [endorsement, List.append_cons, Register.after_append]
      refine Register.after_const ?_ (Or.inr ⟨d, hd, ?_⟩)
      · intro d' hd' x hx
        rw [(Call.of_answers_none (hpost d' hd')).2.2] at hx
        split at hx
        · exact (Option.some.inj hx).symm
        · cases hx
      · rw [(Call.of_answers_none (hpost d hd)).2.2, if_pos hburn]
        simp
    simp [hcleared]

/-- **Provenance of every reply shown.** The element of the view at the index of
a key is accounted for by the history, although the burn of a prompt leaves the
records of its repliers in storage. -/
theorem reply_provenance {w : World} (h : Reachable w) {p : Prompt} {i : ℕ} {k : Address}
    (hk : (w.prompt p).keys[i]? = some k) :
    ∃ shown info, queryAllRepliesByPrompt p w = .ok shown ∧ shown[i]? = some info ∧
      Provenance w.calls p k info := by
  refine ⟨_, (w.prompt p).replies k, queryAllRepliesByPrompt_eq p w, ?_, ?_⟩
  · simp [hk]
  · rcases h.endorsedInv.shown p k (List.mem_of_getElem? hk) with ⟨⟨given, hgiven⟩, hrecord⟩
    rw [hrecord]
    exact provenance_of_lastReply hgiven

/-- A reply, the burn of the prompt, and another reply by the same replier. -/
def replyAgainTxs : List Tx :=
  [callTx ADMIN 1 (.replyPrompt ⟨0, 1⟩ bob "old" "" ""), callTx alice 2 (.burnPrompt ⟨0, 1⟩),
    callTx ADMIN 3 (.replyPrompt ⟨0, 1⟩ bob "new" "" "")]

theorem reply_provenance_reply_again :
    ∃ shown info, queryAllRepliesByPrompt ⟨0, 1⟩ (worldAfter replyAgainTxs) = .ok shown ∧
      shown[0]? = some info ∧ Provenance (worldAfter replyAgainTxs).calls ⟨0, 1⟩ bob info :=
  reply_provenance (reachable_worldAfter replyAgainTxs) (by decide +kernel)

end Yes3.LyonPrompt
